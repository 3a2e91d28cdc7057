import SlimHub.Lib.Reload
import SlimHub.Settings

/-! Whose file a config operation writes.

        load a ──▶ a.json ──▶ record ──change──▶ save ──▶ the file of record.address

    Reading goes by the address that was asked for, writing by the address in the record. An
    operator who copies a file, or edits its address, makes the two differ. -/

namespace SlimHub
open Text Nus Json

variable (interp : Interpreter)

/-- The interpreter reads the text of a float as the float. -/
structure Interpreter.RereadsFloats : Prop extends FloatsReread interp.floatRepr where
  zero : ∀ s, interp.floatIsZero (interp.floatRepr s) = interp.floatIsZero s

/-- A write for an address: `set_field`, `ensure`, and the load and save that a frame leads to. -/
inductive AddressedWrite where
  | setField (address field value : Str)
  | ensure (address deviceType name : Str)
  | frame (mac : Str)

namespace AddressedWrite

def address : AddressedWrite → Str
  | .setField address _ _ => address
  | .ensure address _ _ => address
  | .frame mac => mac

def apply : AddressedWrite → DeviceConfigStore → DeviceConfigStore × Except PyError DeviceRecord
  | .setField address field value, store => store.setField interp address field value
  | .ensure address deviceType name, store => store.ensure interp address deviceType name
  | .frame mac, store => store.loadAndSave interp mac

/-- `set_field` takes three fields. -/
def Allowed : AddressedWrite → Prop
  | .setField _ field _ => field ∈ DeviceConfigStore.fields
  | _ => True

/-- What is asked for: one field gets the value, or its default if that is empty; or a device that
    has no type or no name yet gets it. `existed` says that there was a file. -/
def change (existed : Bool) : AddressedWrite → DeviceRecord → DeviceRecord
  | .setField _ field value, record =>
    { record with
      type := if field = str "type" then .str (orDefault value defaultDeviceType) else record.type
      name := if field = str "name" then .str value else record.name
      location :=
        if field = str "location" then .str (orDefault value defaultLocation)
        else record.location }
  | .ensure _ deviceType name, record =>
    { record with
      type :=
        if (¬existed ∨ ¬truthy interp record.type) ∧ deviceType ≠ [] then .str deviceType
        else record.type
      name :=
        if (¬existed ∨ ¬truthy interp record.name) ∧ name ≠ [] then .str name else record.name }
  | .frame _, record => record

end AddressedWrite

namespace DeviceRecord

/-- A record with its floats as they are written. -/
def settled (self : DeviceRecord) : DeviceRecord :=
  { address := self.address, type := Json.settled interp.floatRepr self.type
    name := Json.settled interp.floatRepr self.name
    location := Json.settled interp.floatRepr self.location }

/-- Records with the same values: a float is told by its `repr`. -/
def Same (record other : DeviceRecord) : Prop := record.settled interp = other.settled interp

end DeviceRecord

/-- The call changes no other file than the one that is named after the address, and a later `load`
    gives what the call returned: the record that was there before, with what was asked for. -/
structure OwnFileOnly (store : DeviceConfigStore) (w : AddressedWrite) (path : Str) : Prop where
  elsewhere : ∀ other, other ≠ path →
    (w.apply interp store).1.files.get? other = store.files.get? other
  shown : ∀ returned, (w.apply interp store).2 = .ok returned →
    ∃ loaded later, store.load interp w.address = .ok loaded ∧
      (w.apply interp store).1.load interp w.address = .ok later ∧ later.Same interp returned ∧
      later.Same interp (w.change interp (store.files.get? path).isSome loaded)

/-- The file of the address names the address, or nothing is to be changed, and the file that it
    names holds just that. -/
def NamesItself (store : DeviceConfigStore) (w : AddressedWrite) (path : Str) : Prop :=
  w.Allowed → ∀ record, store.load interp w.address = .ok record → record.address = path ∨
    w.change interp (store.files.get? path).isSome record = record ∧
      store.files.get? record.address = some (writeMembers interp record.members).1

/-! ### Values -/

section
variable {floatRepr : Str → Str}

set_option linter.unusedSectionVars false in
mutual

theorem settled_settled (h : FloatsReread floatRepr) : ∀ value : Value,
    settled floatRepr (settled floatRepr value) = settled floatRepr value
  | .null => rfl
  | .bool _ => rfl
  | .int _ => rfl
  | .float s => congrArg Value.float (h.again s)
  | .str _ => rfl
  | .arr items => congrArg Value.arr (itemsSettled_settled h items)
  | .obj members => congrArg Value.obj (membersSettled_settled h members)

theorem itemsSettled_settled (h : FloatsReread floatRepr) : ∀ items : List Value,
    itemsSettled floatRepr (itemsSettled floatRepr items) = itemsSettled floatRepr items
  | [] => rfl
  | item :: items => by
    rw [itemsSettled, itemsSettled, settled_settled h item, itemsSettled_settled h items]

theorem membersSettled_settled (h : FloatsReread floatRepr) : ∀ members : List (Str × Value),
    membersSettled floatRepr (membersSettled floatRepr members) = membersSettled floatRepr members
  | [] => rfl
  | (key, value) :: members => by
    rw [membersSettled, membersSettled, settled_settled h value, membersSettled_settled h members]

end

theorem settled_eq_str {value : Value} {s : Str} (h : settled floatRepr value = .str s) :
    value = .str s := by
  cases value <;> simp [settled] at h
  rw [h]

end

theorem truthy_settled {interp : Interpreter} (h : interp.RereadsFloats) (value : Value) :
    truthy interp (settled interp.floatRepr value) = truthy interp value := by
  cases value with
  | float s => simp [settled, truthy, h.zero]
  | arr items => cases items <;> rfl
  | obj members => cases members <;> rfl
  | _ => rfl

/-! ### Reading back what was saved -/

section
variable {interp} {store : DeviceConfigStore} {record : DeviceRecord}

/-- A value that was read, at some level below the object of a file. -/
def Fits (interp : Interpreter) (value : Value) : Prop :=
  Sound value ∧ 1 + nesting value ≤ interp.readDepth

theorem fits_str (s : Str) : Fits interp (.str s) := ⟨trivial, interp.readDepth_pos⟩

theorem fits_orElse {value default : Value} (hvalue : Fits interp value)
    (hdefault : Fits interp default) : Fits interp (orElse interp value default) := by
  rw [orElse]
  split
  · exact hvalue
  · exact hdefault

/-- The fields of a record can be read again. -/
structure DeviceRecord.Fits (interp : Interpreter) (record : DeviceRecord) : Prop where
  type : SlimHub.Fits interp record.type
  name : SlimHub.Fits interp record.name
  location : SlimHub.Fits interp record.location

theorem fits_getMember {data : List (Str × Value)} {key : String} {default : Value}
    (hdata : MembersSound data) (hdepth : 1 + membersNesting data ≤ interp.readDepth)
    (hdefault : Fits interp default) : Fits interp (getMember data key default) := by
  rw [getMember]
  induction data with
  | nil => exact hdefault
  | cons m data ih =>
    obtain ⟨j, value⟩ := m
    rw [membersNesting] at hdepth
    rw [Dict.find]
    split
    · exact ⟨hdata.1, show 1 + nesting value ≤ interp.readDepth by omega⟩
    · exact ih hdata.2 (by omega)

theorem DeviceRecord.fits_new {address type name location : Value}
    (h : DeviceRecord.new interp address type name location = .ok record)
    (htype : SlimHub.Fits interp type) (hname : SlimHub.Fits interp name)
    (hlocation : SlimHub.Fits interp location) : record.Fits interp := by
  cases haddress : normalizeMacValue interp address with
  | error exc => simp [DeviceRecord.new, haddress, bind, Except.bind] at h
  | ok mac =>
    simp only [DeviceRecord.new, haddress, bind, Except.bind, pure, Except.pure,
      Except.ok.injEq] at h
    subst h
    exact ⟨fits_orElse htype (fits_str _), hname, fits_orElse hlocation (fits_str _)⟩

/-- Whatever `load` gives can be read again. -/
theorem DeviceConfigStore.fits_load {address : Str} (h : store.load interp address = .ok record) :
    record.Fits interp := by
  cases hpath : normalizeMac address with
  | error exc => simp [load, hpath, bind, Except.bind] at h
  | ok path =>
    simp only [load, hpath, normalizeMac_idem hpath, bind, Except.bind] at h
    cases hfile : store.files.get? path with
    | none =>
      rw [hfile] at h
      exact DeviceRecord.fits_new h (fits_str _) (fits_str _) (fits_str _)
    | some content =>
      rw [hfile] at h
      cases hread : readMembers interp content with
      | error exc => simp [readRecord, hread, bind, Except.bind] at h
      | ok data =>
        simp only [readRecord, hread, bind, Except.bind] at h
        obtain ⟨text, _, hloads⟩ := readMembers_ok interp hread
        obtain ⟨⟨_, hsound⟩, hdepth⟩ := loads_sound hloads
        exact DeviceRecord.fits_new h (fits_getMember hsound hdepth (fits_str _))
          (fits_getMember hsound hdepth (fits_str _)) (fits_getMember hsound hdepth (fits_str _))

theorem fits_ite {p : Prop} [Decidable p] {value : Value} {s : Str} (h : Fits interp value) :
    Fits interp (if p then .str s else value) := by
  split_ifs
  · exact fits_str s
  · exact h

/-- `set_field` does what is asked for. -/
theorem AddressedWrite.change_setField (existed : Bool) (address field value : Str) :
    (AddressedWrite.setField address field value).change interp existed record =
      DeviceConfigStore.assign record field value := by
  have hlt : str "location" ≠ str "type" := by decide
  have hln : str "location" ≠ str "name" := by decide
  have htn : str "type" ≠ str "name" := by decide
  rw [change, DeviceConfigStore.assign]
  by_cases hlocation : field = str "location"
  · simp [hlocation, hlt, hln]
  by_cases htype : field = str "type"
  · simp [htype, hlt.symm, htn]
  by_cases hname : field = str "name"
  · simp [hname, hln.symm, htn.symm]
  · simp [hlocation, htype, hname]

theorem AddressedWrite.fits_change (h : record.Fits interp) (existed : Bool) (w : AddressedWrite) :
    (w.change interp existed record).Fits interp := by
  cases w with
  | setField address field value => exact ⟨fits_ite h.type, fits_ite h.name, fits_ite h.location⟩
  | ensure address deviceType name => exact ⟨fits_ite h.type, fits_ite h.name, h.location⟩
  | frame mac => exact h

theorem AddressedWrite.filled_change (h : record.Filled interp) (existed : Bool)
    (w : AddressedWrite) : (w.change interp existed record).Filled interp := by
  cases w with
  | setField address field value =>
    rw [change_setField]
    exact DeviceConfigStore.assign_filled interp field value h
  | ensure address deviceType name =>
    refine ⟨h.address, ?_, h.location⟩
    simp only [change]
    split_ifs with htype
    · exact truthy_str interp htype.2
    · exact h.type
  | frame mac => exact h

theorem AddressedWrite.address_change (existed : Bool) (w : AddressedWrite) :
    (w.change interp existed record).address = record.address := by
  cases w <;> rfl

/-- What was saved whole is read back. -/
theorem readRecord_saved (hfloat : interp.RereadsFloats) (hfilled : record.Filled interp)
    (hfits : record.Fits interp) (hok : (writeMembers interp record.members).2 = none)
    (stem : Str) : DeviceConfigStore.readRecord interp stem
      (writeMembers interp record.members).1 = .ok (record.settled interp) := by
  have hkeys : (record.members.map Prod.fst).Nodup := by
    have h : [str "address", str "type", str "name", str "location"].Nodup := by decide
    exact h
  have hsound : Sound (.obj record.members) :=
    ⟨hkeys, trivial, hfits.type.1, hfits.name.1, hfits.location.1, trivial⟩
  have hdepth : nesting (.obj record.members) ≤ interp.readDepth := by
    have hpos := interp.readDepth_pos
    have htype := hfits.type.2
    have hname := hfits.name.2
    have hlocation := hfits.location.2
    simp only [nesting, DeviceRecord.members, membersNesting]
    omega
  have hdump : (dumpLine interp.floatRepr interp.writeDepth (.obj record.members)).2 = none ∧
      (writeMembers interp record.members).1 =
        (dumpLine interp.floatRepr interp.writeDepth (.obj record.members)).1 := by
    rw [writeMembers] at hok ⊢
    split_ifs at hok ⊢ with hdeep
    exact ⟨Option.map_eq_none_iff.mp hok, rfl⟩
  obtain ⟨text, hdecode, hloads⟩ := loads_dumpLine_sound hfloat.toFloatsReread
    interp.floatRepr_clean hsound hdump.1 hdepth
  have hread : readMembers interp (writeMembers interp record.members).1 =
      .ok (record.settled interp).members := by
    rw [readMembers, hdump.2, hdecode]
    simp only [hloads]
    rfl
  have hsettled : (record.settled interp).Filled interp :=
    ⟨hfilled.address, (truthy_settled hfloat _).trans hfilled.type,
      (truthy_settled hfloat _).trans hfilled.location⟩
  exact DeviceConfigStore.readRecord_of_members interp hsettled hread stem

theorem DeviceRecord.settled_settled (hfloat : interp.RereadsFloats) :
    (record.settled interp).settled interp = record.settled interp := by
  simp only [DeviceRecord.settled, SlimHub.settled_settled hfloat.toFloatsReread]

/-! ### One call -/

namespace AddressedWrite

variable (w : AddressedWrite)

/-- A call that is refused, or whose record is not read, changes nothing. -/
theorem apply_refused (h : w.Allowed → ∃ exc, store.load interp w.address = .error exc) :
    (w.apply interp store).1 = store ∧ ∃ exc, (w.apply interp store).2 = .error exc := by
  cases w with
  | setField address field value =>
    by_cases hfield : field ∈ DeviceConfigStore.fields
    · obtain ⟨exc, hexc⟩ := h hfield
      rw [AddressedWrite.address] at hexc
      simp [apply, DeviceConfigStore.setField, hfield, hexc]
    · simp [apply, DeviceConfigStore.setField, hfield]
  | ensure address deviceType name =>
    obtain ⟨exc, hexc⟩ := h trivial
    rw [AddressedWrite.address] at hexc
    cases hpath : normalizeMac address with
    | error exc => simp [apply, DeviceConfigStore.ensure, hpath]
    | ok path => simp [apply, DeviceConfigStore.ensure, hpath, hexc]
  | frame mac =>
    obtain ⟨exc, hexc⟩ := h trivial
    rw [AddressedWrite.address] at hexc
    simp [apply, DeviceConfigStore.loadAndSave, hexc]

/-- Any other call saves the record that it has loaded, changed. -/
theorem apply_eq_save {path : Str} (hallowed : w.Allowed)
    (hpath : normalizeMac w.address = .ok path) (hload : store.load interp w.address = .ok record) :
    w.apply interp store =
      store.save interp (w.change interp (store.files.get? path).isSome record) := by
  cases w with
  | setField address field value =>
    rw [change_setField]
    exact DeviceConfigStore.setField_ok interp store address field value hallowed hload
  | ensure address deviceType name =>
    rw [AddressedWrite.address] at hpath hload
    simp only [apply, DeviceConfigStore.ensure, hpath, hload, change]
    congr 1
    split_ifs <;> rfl
  | frame mac =>
    rw [AddressedWrite.address] at hload
    simp only [apply, DeviceConfigStore.loadAndSave, hload, change]

/-- Where the values do not change, the record does not. -/
theorem eq_of_same {existed : Bool} (h : record.Same interp (w.change interp existed record)) :
    w.change interp existed record = record := by
  have hite : ∀ {p : Prop} [Decidable p] {value : Value} {s : Str},
      settled interp.floatRepr value = settled interp.floatRepr (if p then .str s else value) →
        (if p then .str s else value) = value := by
    intro p _ value s hvalue
    split_ifs at hvalue ⊢
    · exact (settled_eq_str hvalue).symm
    · rfl
  have htype := congrArg DeviceRecord.type h
  have hname := congrArg DeviceRecord.name h
  have hlocation := congrArg DeviceRecord.location h
  cases w with
  | setField address field value =>
    simp only [change]
    rw [hite htype, hite hname, hite hlocation]
  | ensure address deviceType name =>
    simp only [change]
    rw [hite htype, hite hname]
  | frame mac => rfl

end AddressedWrite

/-- `load` reads one file. -/
theorem load_of_get? {other : DeviceConfigStore} {address path : Str}
    (hpath : normalizeMac address = .ok path)
    (hsame : other.files.get? path = store.files.get? path) :
    other.load interp address = store.load interp address := by
  simp only [DeviceConfigStore.load, hpath, normalizeMac_idem hpath, bind, Except.bind, hsame]

theorem load_of_path {address path : Str} (hpath : normalizeMac address = .ok path)
    {content : Bytes} (hfile : store.files.get? path = some content) :
    store.load interp address = DeviceConfigStore.readRecord interp path content := by
  simp only [DeviceConfigStore.load, hpath, normalizeMac_idem hpath, bind, Except.bind, hfile]

/-! ### A call that saves -/

section
variable {w : AddressedWrite} {path : Str} {changed : DeviceRecord}
  (hpath : normalizeMac w.address = .ok path)
  (hsave : w.apply interp store = store.save interp changed) (hchanged : changed.Filled interp)

include hsave hchanged

theorem get?_apply : (w.apply interp store).1.files.get? changed.address =
      some (writeMembers interp changed.members).1 ∧
    ∀ other, other ≠ changed.address →
      (w.apply interp store).1.files.get? other = store.files.get? other := by
  rw [hsave, DeviceConfigStore.save_filled interp store hchanged]
  exact ⟨store.files.get?_set_self _ _, fun other hne => store.files.get?_set_of_ne hne _⟩

/-- It returns the record if that was written whole. -/
theorem apply_eq_ok_iff {record : DeviceRecord} : (w.apply interp store).2 = .ok record ↔
    (writeMembers interp changed.members).2 = none ∧ record = changed := by
  rw [hsave, DeviceConfigStore.save_filled interp store hchanged]
  cases (writeMembers interp changed.members).2 with
  | some exc => simp
  | none => simp [eq_comm]

include hpath

theorem own_of_self (hfloat : interp.RereadsFloats) (hfits : changed.Fits interp)
    (hload : store.load interp w.address = .ok record)
    (hasked : w.change interp (store.files.get? path).isSome record = changed)
    (hself : changed.address = path) : OwnFileOnly interp store w path := by
  obtain ⟨hfile, helsewhere⟩ := get?_apply hsave hchanged
  refine ⟨fun other hne => helsewhere other (hself ▸ hne), fun saved hsaved => ?_⟩
  obtain ⟨hwhole, rfl⟩ := (apply_eq_ok_iff hsave hchanged).mp hsaved
  rw [hself] at hfile
  have hsame : (saved.settled interp).Same interp saved := DeviceRecord.settled_settled hfloat
  refine ⟨record, saved.settled interp, hload, ?_, hsame, ?_⟩
  · rw [load_of_path hpath hfile]
    exact readRecord_saved hfloat hchanged hfits hwhole path
  · rw [hasked]
    exact hsame

/-- The file holds what is saved. -/
theorem own_of_idle (hload : store.load interp w.address = .ok changed)
    (hasked : w.change interp (store.files.get? path).isSome changed = changed)
    (hfile : store.files.get? changed.address = some (writeMembers interp changed.members).1) :
    OwnFileOnly interp store w path := by
  obtain ⟨hthere, helsewhere⟩ := get?_apply hsave hchanged
  have hsame : ∀ other, (w.apply interp store).1.files.get? other = store.files.get? other := by
    intro other
    by_cases hne : other = changed.address
    · rw [hne, hthere, hfile]
    · exact helsewhere other hne
  refine ⟨fun other _ => hsame other, fun saved hsaved => ?_⟩
  obtain ⟨_, rfl⟩ := (apply_eq_ok_iff hsave hchanged).mp hsaved
  refine ⟨saved, saved, hload, (load_of_get? hpath (hsame path)).trans hload, rfl, ?_⟩
  rw [hasked]
  rfl

/-- A record with another address: a call that keeps to its own file changes nothing. -/
theorem idle_of_own
    (hread : ∀ path content, store.files.get? path = some content → Readable interp content)
    (hload : store.load interp w.address = .ok record) (hother : changed.address ≠ path)
    (h : OwnFileOnly interp store w path) : record.Same interp changed ∧
      store.files.get? changed.address = some (writeMembers interp changed.members).1 := by
  obtain ⟨hthere, helsewhere⟩ := get?_apply hsave hchanged
  have hfile := (h.elsewhere changed.address hother).symm.trans hthere
  -- the other file is readable, so it was not cut short
  have hwhole : (writeMembers interp changed.members).2 = none := by
    by_contra htorn
    exact torn_not_readable interp (List.cons_ne_nil _ _) htorn (hread _ _ hfile)
  obtain ⟨_, later, _, hlater, hvalues, _⟩ := h.shown changed
    ((apply_eq_ok_iff hsave hchanged).mpr ⟨hwhole, rfl⟩)
  rw [load_of_get? hpath (helsewhere path hother.symm), hload] at hlater
  obtain rfl := Except.ok.inj hlater
  exact ⟨hvalues, hfile⟩

end

end

/-- CORRECT: a config operation changes no other device's file, and a later `load` shows what it
    asked for, exactly when the file of its address names that address, or there is nothing to change. -/
theorem own_file_only_iff (interp : Interpreter) (hfloat : interp.RereadsFloats)
    (store : DeviceConfigStore)
    (hread : ∀ path content, store.files.get? path = some content → Readable interp content)
    (w : AddressedWrite) (path : Str) (hpath : normalizeMac w.address = .ok path) :
    OwnFileOnly interp store w path ↔ NamesItself interp store w path := by
  by_cases hacts : w.Allowed ∧ ∃ record, store.load interp w.address = .ok record
  · obtain ⟨hallowed, record, hload⟩ := hacts
    have hsave := w.apply_eq_save hallowed hpath hload
    have hchanged := w.filled_change (DeviceConfigStore.load_ok interp store w.address hload).1
      (store.files.get? path).isSome
    have haddress := @AddressedWrite.address_change interp record (store.files.get? path).isSome w
    have hfits := w.fits_change (DeviceConfigStore.fits_load hload) (store.files.get? path).isSome
    constructor
    · intro hown _ loaded hloaded
      obtain rfl := Except.ok.inj (hload.symm.trans hloaded)
      refine or_iff_not_imp_left.mpr fun hother => ?_
      obtain ⟨hsame, hfile⟩ := idle_of_own hpath hsave hchanged hread hload (haddress ▸ hother) hown
      have hidle := w.eq_of_same hsame
      rw [hidle] at hfile
      exact ⟨hidle, hfile⟩
    · intro hnames
      rcases hnames hallowed record hload with hself | ⟨hidle, hfile⟩
      · exact own_of_self hpath hsave hchanged hfloat hfits hload rfl (haddress.trans hself)
      · rw [hidle] at hsave hchanged
        exact own_of_idle hpath hsave hchanged hload hidle hfile
  · have hrefused := @AddressedWrite.apply_refused interp store w fun hallowed => by
      cases hload : store.load interp w.address with
      | error exc => exact ⟨exc, rfl⟩
      | ok record => exact absurd ⟨hallowed, record, hload⟩ hacts
    obtain ⟨hsame, exc, hexc⟩ := hrefused
    refine iff_of_true ⟨fun other _ => by rw [hsame], fun record hok => ?_⟩ ?_
    · rw [hexc] at hok
      cases hok
    · exact fun hallowed record hload => absurd ⟨hallowed, record, hload⟩ hacts

/-- Two devices, of which the first one's file is a copy of the other one's. -/
def copiedStore : DeviceConfigStore :=
  let saved := DeviceConfigStore.ensure freshInterpreter ⟨Dict.empty⟩ (str "AA:BB:CC:DD:EE:02")
    (str "DEAN_NODE_V2") []
  ⟨saved.1.files.set (str "AA:BB:CC:DD:EE:01")
    ((saved.1.files.get? (str "AA:BB:CC:DD:EE:02")).getD [])⟩

/-- The location is set for the first device: the second one's file is changed, and the first one's
    config is what it was. -/
theorem copied_file_misleads :
    let w := AddressedWrite.setField (str "AA:BB:CC:DD:EE:01") (str "location") (str "kitchen")
    (∀ file ∈ copiedStore.files.entries, (readMembers freshInterpreter file.2).isOk = true) ∧
      (w.apply freshInterpreter copiedStore).2.isOk = true ∧
      ¬OwnFileOnly freshInterpreter copiedStore w (str "AA:BB:CC:DD:EE:01") := by
  intro w
  refine ⟨by decide +kernel, by decide +kernel, fun hown => ?_⟩
  have hother : (w.apply freshInterpreter copiedStore).1.files.get? (str "AA:BB:CC:DD:EE:02") ≠
      copiedStore.files.get? (str "AA:BB:CC:DD:EE:02") := by
    decide +kernel
  exact hother (hown.elsewhere _ (by decide))

/-- The fresh interpreter's one float. -/
theorem rereadsFloats_freshInterpreter : freshInterpreter.RereadsFloats where
  reads s rest fuel depth hends := by
    have hzero : isDigit (chr '0') = true := by decide
    have hdigits : ∀ c ∈ [chr '0'], isDigit c = true := fun c hc => by
      rw [List.mem_singleton.mp hc, hzero]
    obtain ⟨htake, hdrop⟩ := takeWhile_natText hdigits hends
    have hfraction : scanFraction (chr '.' :: ([chr '0'] ++ rest)) = ([chr '.', chr '0'], rest) := by
      rw [scanFraction, htake, hdrop]
      rfl
    have hwhole : scanWhole (chr '0' :: chr '.' :: ([chr '0'] ++ rest)) =
        some (false, [chr '0'], chr '.' :: ([chr '0'] ++ rest)) := rfl
    have hnumber : scanNumber (chr '0' :: chr '.' :: ([chr '0'] ++ rest)) =
        .ok (.float (str "0.0"), rest) := by
      rw [scanNumber, hwhole]
      simp only [hfraction, scanExponent_of_ends hends]
      rfl
    exact (scanValue_other (by decide) fuel depth _).trans hnumber
  again _ := rfl
  zero _ := rfl

/-- In the same directory the second device's location is set. -/
theorem own_file_only_copied :
    OwnFileOnly freshInterpreter copiedStore
      (.setField (str "AA:BB:CC:DD:EE:02") (str "location") (str "kitchen"))
      (str "AA:BB:CC:DD:EE:02") := by
  have hall : copiedStore.files.entries.all
      (fun file => (readMembers freshInterpreter file.2).isOk) = true := by
    decide +kernel
  have hread : ∀ path content, copiedStore.files.get? path = some content →
      Readable freshInterpreter content := by
    intro path content hfile
    have hok := List.all_eq_true.mp hall (path, content) (Dict.get?_eq_some.mp hfile)
    cases hmembers : readMembers freshInterpreter content with
    | error exc => rw [hmembers] at hok; cases hok
    | ok data => exact ⟨data, hmembers⟩
  have haddress : ((copiedStore.load freshInterpreter (str "AA:BB:CC:DD:EE:02")).map
      DeviceRecord.address).toOption = some (str "AA:BB:CC:DD:EE:02") := by
    decide +kernel
  refine (own_file_only_iff freshInterpreter rereadsFloats_freshInterpreter copiedStore hread _ _
    (by decide +kernel)).mpr fun _ record hload => .inl ?_
  rw [AddressedWrite.address] at hload
  rw [hload] at haddress
  exact Option.some.inj haddress

end SlimHub
