import SlimHub.ConfigStore
import SlimHub.Protocol.Mac

/-! A config update that fails, and what it leaves behind.

    `set_field` checks the field and reads the old config before it opens the file. From then on
    the old content is gone: a config that cannot be written leaves a file cut short, which is no
    JSON and cannot be what was there before. -/

namespace SlimHub
open Text Nus Json

variable (interp : Interpreter)

/-- A config that `json.dump` writes whole: nested within the limits of `asdict` and of the
    encoder, and without a surrogate. -/
def Storable (members : List (Str × Value)) : Prop :=
  membersNesting members ≤ interp.copyDepth ∧ 1 + membersNesting members ≤ interp.writeDepth ∧
    membersClean members = true

instance storableDecidable (members : List (Str × Value)) : Decidable (Storable interp members) :=
  inferInstanceAs (Decidable (_ ∧ _ ∧ _))

/-- A file that `json.load` reads as an object. -/
def Readable (content : Bytes) : Prop := ∃ data, readMembers interp content = .ok data

theorem writeMembers_ok_iff (members : List (Str × Value)) :
    (writeMembers interp members).2 = none ↔ Storable interp members := by
  have hdump := dumpLine_ok_iff interp.floatRepr_clean interp.writeDepth (.obj members)
  rw [nesting, clean] at hdump
  unfold writeMembers Storable
  split
  · rename_i hdeep
    simp only [reduceCtorEq, false_iff]
    omega
  · rename_i hdeep
    simp only [Option.map_eq_none_iff, hdump]
    constructor
    · exact fun h => ⟨by omega, h⟩
    · exact fun h => h.2

theorem readMembers_ok {content : Bytes} {data : List (Str × Value)}
    (h : readMembers interp content = .ok data) :
    ∃ text, utf8Decode content = some text ∧ loads interp.readDepth text = .ok (.obj data) := by
  unfold readMembers at h
  cases hdecode : utf8Decode content with
  | none => rw [hdecode] at h; cases h
  | some text =>
    rw [hdecode] at h
    refine ⟨text, rfl, ?_⟩
    simp only at h
    split at h
    · rename_i members hloads
      rw [hloads, Except.ok.inj h]
    all_goals cases h

/-- What a failed write leaves is not readable. -/
theorem torn_not_readable {members : List (Str × Value)} (hne : members ≠ [])
    (h : (writeMembers interp members).2 ≠ none) :
    ¬ Readable interp (writeMembers interp members).1 := by
  rintro ⟨data, hdata⟩
  obtain ⟨text, hdecode, hloads⟩ := readMembers_ok interp hdata
  unfold writeMembers at h hdecode
  split at hdecode
  · obtain rfl : [] = text := Option.some.inj hdecode
    rw [loads_nil] at hloads
    cases hloads
  · rename_i hdeep
    rw [if_neg hdeep] at h
    refine torn_not_loaded interp.floatRepr_plain hne ?_ hdecode interp.readDepth _ hloads
    simpa using h

theorem noSurrogate_macText (b : Bytes) : noSurrogate (macText b) = true := by
  have hcolon : isSurrogate colon = false := by decide
  have hbyte : ∀ x, noSurrogate (hexByte x) = true := by
    intro x
    have hx := x.toNat_lt
    exact noSurrogate_hexDigits (by
      simp [hexByte, digit_mem (x.toNat / 16) (by omega), digit_mem (x.toNat % 16) (by omega)])
  induction b with
  | nil => rfl
  | cons x b ih =>
    cases b with
    | nil => simpa [macText] using hbyte x
    | cons y b =>
      rw [macText, List.map_cons, List.map_cons, List.intercalate_cons_cons, noSurrogate_append,
        noSurrogate_append, hbyte, noSurrogate_cons, hcolon]
      simpa [macText] using ih

/-! ### The hub's config -/

namespace HubConfigStore

variable (self : HubConfigStore) (field value : Str)

/-- If `set_field` raises, the file is what it was. -/
def Intact : Prop := ∀ exc, (self.setField interp field value).2 = .error exc →
  (self.setField interp field value).1 = self

/-- The field is none, or the old config is not read, or the new one can be written. -/
def Safe : Prop := field ∈ fields → ∀ config, (self.loadOrCreate interp).2 = .ok config →
  Storable interp (assign config field value).members

theorem save_error_iff (config : HubConfig) :
    (∃ exc, (save interp config).2 = .error exc) ↔ ¬ Storable interp config.members := by
  rw [← writeMembers_ok_iff]
  unfold save
  cases h : (writeMembers interp config.members).2 <;> simp [h]

/-- A failed save leaves what was not there before: nothing, or a readable config. -/
theorem save_ne {config : HubConfig} (h : ¬ Storable interp config.members)
    (hread : ∀ content, self.file = some content → Readable interp content) :
    (save interp config).1 ≠ self := by
  intro heq
  have hfile : self.file = some (writeMembers interp config.members).1 := by rw [← heq]; rfl
  rw [← writeMembers_ok_iff] at h
  exact torn_not_readable interp (List.cons_ne_nil _ _) h (hread _ hfile)

/-- The hub's own defaults can be written. -/
theorem default_storable :
    Storable interp (HubConfig.members { address := .str (getMacAddress interp) }) := by
  have hpos := interp.writeDepth_pos
  have hkeys : noSurrogate (str "address") = true ∧ noSurrogate (str "type") = true ∧
      noSurrogate (str "owner") = true ∧ noSurrogate (str "name") = true ∧
      noSurrogate (str "slimhub") = true := by decide
  obtain ⟨haddress, htype, howner, hname, hslimhub⟩ := hkeys
  refine ⟨Nat.zero_le _, ?_, ?_⟩
  · simp only [HubConfig.members, membersNesting, nesting]
    omega
  · simp only [HubConfig.members, membersClean, clean, haddress, htype, howner, hname, hslimhub,
      getMacAddress, noSurrogate_macText, Bool.and_self]

theorem loadOrCreate_error {exc : PyError} (h : (self.loadOrCreate interp).2 = .error exc) :
    (self.loadOrCreate interp).1 = self := by
  unfold loadOrCreate at h ⊢
  split at h
  · exact absurd (default_storable interp) ((save_error_iff interp _).mp ⟨exc, h⟩)
  · rfl

/-- What `load_or_create` returns a config from is not there or is readable. -/
theorem loadOrCreate_ok {config : HubConfig} (h : (self.loadOrCreate interp).2 = .ok config) :
    ∀ content, self.file = some content → Readable interp content := by
  intro content hfile
  simp only [loadOrCreate, hfile] at h
  cases hread : readMembers interp content with
  | ok data => exact ⟨data, hread⟩
  | error exc => rw [hread] at h; cases h

theorem setField_error {exc : PyError} (hfield : field ∈ fields)
    (h : (self.loadOrCreate interp).2 = .error exc) :
    self.setField interp field value = (self, .error exc) := by
  have hstore := loadOrCreate_error interp self h
  unfold setField
  rw [if_neg (not_not_intro (List.contains_iff_mem.mpr hfield))]
  revert h hstore
  rcases self.loadOrCreate interp with ⟨store, result⟩
  rintro rfl rfl
  rfl

theorem setField_ok {config : HubConfig} (hfield : field ∈ fields)
    (h : (self.loadOrCreate interp).2 = .ok config) :
    self.setField interp field value = save interp (assign config field value) := by
  unfold setField
  rw [if_neg (not_not_intro (List.contains_iff_mem.mpr hfield))]
  revert h
  rcases self.loadOrCreate interp with ⟨store, result⟩
  rintro rfl
  rfl

theorem intact_iff : self.Intact interp field value ↔ self.Safe interp field value := by
  by_cases hfield : field ∈ fields
  · cases hload : (self.loadOrCreate interp).2 with
    | error exc => simp [Intact, Safe, hload, setField_error interp self field value hfield hload]
    | ok config =>
      have hread := loadOrCreate_ok interp self hload
      have hsave := setField_ok interp self field value hfield hload
      simp only [Intact, Safe, hload, hsave, hfield, forall_const, Except.ok.injEq, forall_eq']
      constructor
      · intro hintact
        by_contra hstorable
        obtain ⟨exc, hexc⟩ := (save_error_iff interp _).mpr hstorable
        exact save_ne interp self hstorable hread (hintact exc hexc)
      · intro hstorable exc hexc
        exact absurd hstorable ((save_error_iff interp _).mp ⟨exc, hexc⟩)
  · simp [Intact, Safe, setField, hfield]

end HubConfigStore

/-! ### The devices' configs -/

theorem truthy_str {s : Str} (h : s ≠ []) : truthy interp (.str s) = true := by
  simp [truthy, h]

theorem orDefault_ne (v : Str) {default : Str} (h : default ≠ []) : orDefault v default ≠ [] := by
  unfold orDefault
  split
  · exact h
  · assumption

theorem truthy_orElse (value : Value) {default : Str} (h : default ≠ []) :
    truthy interp (orElse interp value (.str default)) = true := by
  unfold orElse
  split
  · assumption
  · exact truthy_str interp h

theorem defaultDeviceType_ne : defaultDeviceType ≠ [] := by decide

theorem defaultLocation_ne : defaultLocation ≠ [] := by decide

/-- A record that `__post_init__` has been over: its address is in normal form, and its type and
    location are not empty. -/
structure DeviceRecord.Filled (config : DeviceRecord) : Prop where
  address : normalizeMac config.address = .ok config.address
  type : truthy interp config.type = true
  location : truthy interp config.location = true

theorem normalizeItems_ok {value : Value} {items : List Value} {address : Str}
    (h : normalizeItems interp value items = .ok address) : normalizeMac address = .ok address := by
  unfold normalizeItems at h
  cases hitems : compactItems items with
  | error exc => rw [hitems] at h; cases h
  | ok compacted =>
    rw [hitems] at h
    cases hmac : normalizeMac compacted with
    | error exc => simp only [hmac] at h; cases h
    | ok mac =>
      simp only [hmac] at h
      exact Except.ok.inj h ▸ normalizeMac_idem hmac

theorem normalizeMacValue_ok {value : Value} {address : Str}
    (h : normalizeMacValue interp value = .ok address) : normalizeMac address = .ok address := by
  cases value with
  | str mac => exact normalizeMac_idem h
  | arr items => exact normalizeItems_ok interp h
  | obj members => exact normalizeItems_ok interp h
  | null => cases h
  | bool b => cases h
  | int n => cases h
  | float s => cases h

namespace DeviceConfigStore

variable (self : DeviceConfigStore) (address field value : Str)

theorem new_filled {address type name location : Value} {record : DeviceRecord}
    (h : DeviceRecord.new interp address type name location = .ok record) :
    record.Filled interp := by
  cases haddress : normalizeMacValue interp address with
  | error exc => simp [DeviceRecord.new, haddress, bind, Except.bind] at h
  | ok mac =>
    simp only [DeviceRecord.new, haddress, bind, Except.bind, pure, Except.pure,
      Except.ok.injEq] at h
    subst h
    exact ⟨normalizeMacValue_ok interp haddress, truthy_orElse interp type defaultDeviceType_ne,
      truthy_orElse interp location defaultLocation_ne⟩

theorem readRecord_ok {stem : Str} {content : Bytes} {record : DeviceRecord}
    (h : readRecord interp stem content = .ok record) :
    Readable interp content ∧ record.Filled interp := by
  cases hread : readMembers interp content with
  | error exc => simp [readRecord, hread, bind, Except.bind] at h
  | ok data =>
    simp only [readRecord, hread, bind, Except.bind] at h
    exact ⟨⟨data, hread⟩, new_filled interp h⟩

/-- What `load` gives comes from the file of the address, which is not there or is readable. -/
theorem load_ok {record : DeviceRecord} (h : self.load interp address = .ok record) :
    record.Filled interp ∧ ∃ path, normalizeMac address = .ok path ∧
      ∀ content, self.files.get? path = some content → Readable interp content := by
  cases hpath : normalizeMac address with
  | error exc => simp [load, hpath, bind, Except.bind] at h
  | ok path =>
    simp only [load, hpath, normalizeMac_idem hpath, bind, Except.bind] at h
    rcases Option.eq_none_or_eq_some (self.files.get? path) with hfile | ⟨content, hfile⟩
    · rw [hfile] at h
      exact ⟨new_filled interp h, path, rfl, by simp [hfile]⟩
    · rw [hfile] at h
      obtain ⟨hread, hfilled⟩ := readRecord_ok interp h
      refine ⟨hfilled, path, rfl, ?_⟩
      rintro _ hsome
      obtain rfl := Option.some.inj (hfile.symm.trans hsome)
      exact hread

theorem assign_filled {record : DeviceRecord} (h : record.Filled interp) :
    (assign record field value).Filled interp := by
  unfold assign
  split_ifs
  · exact ⟨h.address, h.type, truthy_str interp (orDefault_ne value defaultLocation_ne)⟩
  · exact ⟨h.address, truthy_str interp (orDefault_ne value defaultDeviceType_ne), h.location⟩
  · exact ⟨h.address, h.type, h.location⟩
  · exact h

/-- Saving a filled record changes nothing in it. -/
theorem save_filled {record : DeviceRecord} (h : record.Filled interp) :
    self.save interp record =
      (⟨self.files.set record.address (writeMembers interp record.members).1⟩,
        match (writeMembers interp record.members).2 with
        | none => .ok record
        | some exc => .error exc) := by
  have hsame : ({ record with
      address := record.address
      type := orElse interp record.type (.str defaultDeviceType)
      location := orElse interp record.location (.str defaultLocation) } : DeviceRecord) =
        record := by
    rw [orElse, orElse, h.type, h.location, if_pos rfl, if_pos rfl]
  unfold save
  rw [h.address]
  cases hfault : (writeMembers interp record.members).2 with
  | none => simp only [hsame, h.address, hfault]
  | some exc => simp only [hsame, h.address, hfault]

/-- If `set_field` raises, the files are what they were. -/
def Intact : Prop := ∀ exc, (self.setField interp address field value).2 = .error exc →
  (self.setField interp address field value).1 = self

/-- The file of a record already holds what a failed write of the record leaves. -/
def Torn (record : DeviceRecord) : Prop :=
  self.files.get? record.address = some (writeMembers interp record.members).1

/-- The field is none, or the old config is not read, or the new one can be written, or the file
    is cut short as it is. -/
def Safe : Prop := field ∈ fields → ∀ record, self.load interp address = .ok record →
  Storable interp (assign record field value).members ∨ self.Torn interp (assign record field value)

theorem save_error_iff {record : DeviceRecord} (h : record.Filled interp) :
    (∃ exc, (self.save interp record).2 = .error exc) ↔ ¬ Storable interp record.members := by
  rw [← writeMembers_ok_iff, save_filled interp self h]
  cases (writeMembers interp record.members).2 <;> simp

theorem setField_ok {record : DeviceRecord} (hfield : field ∈ fields)
    (h : self.load interp address = .ok record) :
    self.setField interp address field value = self.save interp (assign record field value) := by
  unfold setField
  rw [if_neg (not_not_intro (List.contains_iff_mem.mpr hfield)), h]

theorem intact_iff :
    self.Intact interp address field value ↔ self.Safe interp address field value := by
  by_cases hfield : field ∈ fields
  · cases hload : self.load interp address with
    | error exc => simp [Intact, Safe, setField, hfield, hload]
    | ok record =>
      have hfilled := assign_filled interp field value (load_ok interp self address hload).1
      have hsave := setField_ok interp self address field value hfield hload
      have hstore := save_filled interp self hfilled
      simp only [Intact, Safe, hload, hsave, hfield, forall_const, Except.ok.injEq, forall_eq']
      by_cases hstorable : Storable interp (assign record field value).members
      · refine iff_of_true ?_ (.inl hstorable)
        intro exc hexc
        exact absurd hstorable ((save_error_iff interp self hfilled).mp ⟨exc, hexc⟩)
      · obtain ⟨exc, hexc⟩ := (save_error_iff interp self hfilled).mpr hstorable
        simp only [hstorable, false_or]
        constructor
        · intro hintact
          have hsame := hintact exc hexc
          rw [hstore] at hsame
          exact Dict.set_eq_self.mp (congrArg DeviceConfigStore.files hsame)
        · intro htorn _ _
          rw [hstore]
          exact congrArg DeviceConfigStore.mk (Dict.set_eq_self.mpr htorn)
  · simp [Intact, Safe, setField, hfield]

end DeviceConfigStore

/-- Both stores come out of a failed `set_field` as they went in just when the new config can be
    written. -/
theorem setField_intact_iff :
    (∀ (store : HubConfigStore) (field value : Str),
      store.Intact interp field value ↔ store.Safe interp field value) ∧
    (∀ (store : DeviceConfigStore) (address field value : Str),
      store.Intact interp address field value ↔ store.Safe interp address field value) :=
  ⟨HubConfigStore.intact_iff interp, DeviceConfigStore.intact_iff interp⟩

/-- An interpreter with the limits of a fresh one. -/
def freshInterpreter : Interpreter where
  floatRepr _ := str "0.0"
  floatIsZero _ := true
  valueRepr _ := str "..."
  readDepth := 990
  copyDepth := 490
  writeDepth := 990
  node := 0x0242AC110002
  floatRepr_plain := by
    have h : (str "0.0").all isPlain = true := by decide
    exact fun _ => List.all_eq_true.mp h
  floatRepr_clean _ := by decide
  readDepth_pos := by decide
  writeDepth_pos := by decide

theorem error_of_isOk {α : Type} {result : Except PyError α} (h : result.isOk = false) :
    ∃ exc, result = .error exc := by
  cases result with
  | error exc => exact ⟨exc, rfl⟩
  | ok _ => cases h

/-- The hub's config, just created, and a device's, just ensured, both read back. The name is then
    set to a lone surrogate: `set_field` raises, the files are cut short before the name, and
    neither is read again. -/
theorem setField_tears_surrogate :
    let interp := freshInterpreter
    let hub := (HubConfigStore.loadOrCreate interp ⟨none⟩).1
    let address := str "AA:BB:CC:DD:EE:01"
    let devices := (DeviceConfigStore.ensure interp ⟨Dict.empty⟩ address (str "DE&N") []).1
    ((hub.loadOrCreate interp).2.isOk = true ∧ (devices.listAll interp).isOk = true) ∧
      ¬ hub.Intact interp (str "name") [0xD800] ∧
      ¬ devices.Intact interp address (str "name") [0xD800] ∧
      ((hub.setField interp (str "name") [0xD800]).1.loadOrCreate interp).2.isOk = false ∧
      ((devices.setField interp address (str "name") [0xD800]).1.listAll interp).isOk = false := by
  intro interp hub address devices
  have hhub : (hub.setField interp (str "name") [0xD800]).2.isOk = false := by decide +kernel
  have hdevices : (devices.setField interp address (str "name") [0xD800]).2.isOk = false := by
    decide +kernel
  obtain ⟨exc, hexc⟩ := error_of_isOk hhub
  obtain ⟨exc', hexc'⟩ := error_of_isOk hdevices
  have htorn : (hub.setField interp (str "name") [0xD800]).1 ≠ hub := by decide +kernel
  have htorn' : (devices.setField interp address (str "name") [0xD800]).1 ≠ devices := by
    decide +kernel
  refine ⟨by decide +kernel, ?_, ?_, by decide +kernel, by decide +kernel⟩
  · exact fun h => htorn (h exc hexc)
  · exact fun h => htorn' (h exc' hexc')

end SlimHub
