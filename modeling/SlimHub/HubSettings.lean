import SlimHub.Ledger
import SlimHub.OwnFile

/-! The hub's own config over a run.

        hub.config.set ──▶ load ──▶ set the field ──▶ save          what the next one loads
                                                       └─ fails ──▶ a file that none can load

    The file is all there is: every request loads it again. So the config in force is the one that
    was found at the start, with the fields that were set since, one after another; and once one of
    them could not be written there is none, whatever is set afterwards. -/

namespace SlimHub
open Text Nus Json Ble Asyncio Logging

variable (interp : Interpreter)

namespace HubConfig

/-- A config as it is loaded from the file that it was saved to: floats are as they are written, and
    what counts as nothing gives way to the default in the address and the type. -/
def reread (config : HubConfig) : HubConfig where
  address := orElse interp (settled interp.floatRepr config.address) (.str (getMacAddress interp))
  type := orElse interp (settled interp.floatRepr config.type) (.str (str "slimhub"))
  owner := settled interp.floatRepr config.owner
  name := settled interp.floatRepr config.name

/-- A config with a value in one of its fields. -/
def withField (config : HubConfig) (field value : Str) : HubConfig where
  address := if field = str "address" then .str value else config.address
  type := if field = str "type" then .str value else config.type
  owner := if field = str "owner" then .str value else config.owner
  name := if field = str "name" then .str value else config.name

/-- The config in force once a field was set to a value, if the file can be written. -/
def put (config : HubConfig) (entry : Str × Str) : Option HubConfig :=
  let changed := config.withField entry.1 entry.2
  if Storable interp changed.members then some (changed.reread interp) else none

/-- The fields can be read again. -/
structure Fits (config : HubConfig) : Prop where
  address : SlimHub.Fits interp config.address
  type : SlimHub.Fits interp config.type
  owner : SlimHub.Fits interp config.owner
  name : SlimHub.Fits interp config.name

theorem fits_null : SlimHub.Fits interp .null := ⟨trivial, interp.readDepth_pos⟩

theorem fits_default : Fits interp { address := .str (getMacAddress interp) } :=
  ⟨fits_str _, fits_str _, fits_null interp, fits_null interp⟩

variable {interp} {config : HubConfig}

theorem fits_withField (h : config.Fits interp) (field value : Str) :
    (config.withField field value).Fits interp :=
  ⟨fits_ite h.address, fits_ite h.type, fits_ite h.owner, fits_ite h.name⟩

/-- `setattr` sets the field. -/
theorem assign_eq (config : HubConfig) (field value : Str) :
    HubConfigStore.assign config field value = config.withField field value := by
  have hfields : [str "address", str "type", str "owner", str "name"].Nodup := by decide
  simp only [List.nodup_cons, List.mem_cons, List.not_mem_nil, or_false, not_or] at hfields
  obtain ⟨⟨hat, hao, han⟩, ⟨hto, htn⟩, hon, _⟩ := hfields
  rw [HubConfigStore.assign, withField]
  by_cases haddress : field = str "address"
  · simp [haddress, hat, hao, han]
  by_cases htype : field = str "type"
  · simp [htype, Ne.symm hat, hto, htn]
  by_cases howner : field = str "owner"
  · simp [howner, Ne.symm hao, Ne.symm hto, hon]
  by_cases hname : field = str "name"
  · simp [hname, Ne.symm han, Ne.symm htn, Ne.symm hon]
  · simp [haddress, htype, howner, hname]

end HubConfig

/-! ### The fields -/

/-- Values that a file gives back alike: a float is told by its `repr`. -/
def SameValue (value other : Value) : Prop :=
  settled interp.floatRepr value = settled interp.floatRepr other

/-- The last value that a field was set to. -/
def lastSet (field : Str) (sets : List (Str × Str)) : Option Str :=
  ((sets.filter (·.1 = field)).map Prod.snd).getLast?

theorem lastSet_concat (field : Str) (sets : List (Str × Str)) (entry : Str × Str) :
    lastSet field (sets ++ [entry]) =
      if entry.1 = field then some entry.2 else lastSet field sets := by
  rw [lastSet, lastSet, List.filter_append, List.map_append]
  split
  · rename_i hfield
    simp [hfield]
  · rename_i hfield
    simp [hfield]

namespace HubConfig

/-- Each field has the value last set, or its default for an empty address or type, and else the
    value that was found. -/
structure Keeps (config found : HubConfig) (sets : List (Str × Str)) : Prop where
  address : SameValue interp config.address ((lastSet (str "address") sets).elim found.address
    fun value => .str (orDefault value (getMacAddress interp)))
  type : SameValue interp config.type ((lastSet (str "type") sets).elim found.type
    fun value => .str (orDefault value (str "slimhub")))
  owner : SameValue interp config.owner ((lastSet (str "owner") sets).elim found.owner .str)
  name : SameValue interp config.name ((lastSet (str "name") sets).elim found.name .str)

/-- Loaded configs have an address and a type. -/
structure Filled (config : HubConfig) : Prop where
  address : truthy interp config.address = true
  type : truthy interp config.type = true

theorem getMacAddress_ne : getMacAddress interp ≠ [] := by simp [getMacAddress, macText]

theorem slimhub_ne : str "slimhub" ≠ [] := by decide

variable {interp} {found config : HubConfig} {sets : List (Str × Str)} {entry : Str × Str}

theorem filled_reread : (config.reread interp).Filled interp :=
  ⟨truthy_orElse interp _ (getMacAddress_ne interp), truthy_orElse interp _ slimhub_ne⟩

/-- A field that may be empty, after it was or was not set. -/
theorem sameValue_settled (hfloat : interp.RereadsFloats) {value start : Value} {field : Str}
    (h : SameValue interp value ((lastSet field sets).elim start .str)) :
    SameValue interp (settled interp.floatRepr (if entry.1 = field then .str entry.2 else value))
      ((lastSet field (sets ++ [entry])).elim start .str) := by
  rw [SameValue, settled_settled hfloat.toFloatsReread, lastSet_concat]
  split_ifs
  · rfl
  · exact h

/-- A field that has a default. -/
theorem sameValue_orElse (hfloat : interp.RereadsFloats) {value start : Value} {field default : Str}
    (htruthy : truthy interp value = true)
    (h : SameValue interp value
      ((lastSet field sets).elim start fun value => .str (orDefault value default))) :
    SameValue interp
      (orElse interp (settled interp.floatRepr (if entry.1 = field then .str entry.2 else value))
        (.str default))
      ((lastSet field (sets ++ [entry])).elim start fun value => .str (orDefault value default)) := by
  rw [lastSet_concat]
  split_ifs
  · cases hvalue : entry.2 with
    | nil => simp [settled, orElse, truthy, orDefault, SameValue]
    | cons c value => simp [settled, orElse, truthy, orDefault, SameValue]
  · rw [orElse, truthy_settled hfloat, if_pos htruthy, SameValue,
      settled_settled hfloat.toFloatsReread]
    exact h

/-- One value more. -/
theorem Keeps.put (hfloat : interp.RereadsFloats) (h : config.Keeps interp found sets)
    (hfilled : config.Filled interp) {after : HubConfig} (hput : config.put interp entry = some after) :
    after.Keeps interp found (sets ++ [entry]) ∧ after.Filled interp := by
  rw [HubConfig.put, Option.ite_none_right_eq_some] at hput
  obtain ⟨_, hput⟩ := hput
  obtain rfl := Option.some.inj hput
  exact ⟨⟨sameValue_orElse hfloat hfilled.address h.address,
    sameValue_orElse hfloat hfilled.type h.type, sameValue_settled hfloat h.owner,
    sameValue_settled hfloat h.name⟩, filled_reread⟩

theorem keeps_foldlM (hfloat : interp.RereadsFloats) (hfilled : found.Filled interp)
    (h : sets.foldlM (HubConfig.put interp) found = some config) :
    config.Keeps interp found sets ∧ config.Filled interp := by
  induction sets using List.reverseRecOn generalizing config with
  | nil =>
    obtain rfl := Option.some.inj h
    exact ⟨⟨rfl, rfl, rfl, rfl⟩, hfilled⟩
  | append_singleton sets entry ih =>
    rw [List.foldlM_append] at h
    obtain ⟨mid, hmid, hput⟩ := Option.bind_eq_some_iff.mp h
    obtain ⟨hkeeps, hfilled⟩ := ih hmid
    exact hkeeps.put hfloat hfilled (by simpa using hput)

end HubConfig

/-- Members that were written whole are read, with their floats as they are written. -/
theorem readMembers_saved {interp : Interpreter} (hfloat : interp.RereadsFloats)
    {members : List (Str × Value)} (hsound : Json.Sound (.obj members))
    (hdepth : nesting (.obj members) ≤ interp.readDepth) (hstorable : Storable interp members) :
    readMembers interp (writeMembers interp members).1 =
      .ok (membersSettled interp.floatRepr members) := by
  have hok := (writeMembers_ok_iff interp members).mpr hstorable
  rw [writeMembers] at hok ⊢
  split_ifs at hok ⊢ with hdeep
  obtain ⟨text, hdecode, hloads⟩ := loads_dumpLine_sound hfloat.toFloatsReread
    interp.floatRepr_clean hsound (Option.map_eq_none_iff.mp hok) hdepth
  rw [readMembers, hdecode]
  simp only [hloads]
  rfl

namespace HubConfigStore

variable {interp} {store : HubConfigStore} {config : HubConfig}

/-- Whatever is loaded can be read again. -/
theorem fits_loadOrCreate (h : (store.loadOrCreate interp).2 = .ok config) :
    config.Fits interp := by
  rcases store with ⟨_ | content⟩
  · simp only [loadOrCreate, save] at h
    cases hwritten : (writeMembers interp
        (HubConfig.members { address := .str (getMacAddress interp) })).2 with
    | none =>
      rw [hwritten] at h
      exact Except.ok.inj h ▸ HubConfig.fits_default interp
    | some exc =>
      rw [hwritten] at h
      cases h
  · simp only [loadOrCreate] at h
    cases hread : readMembers interp content with
    | error exc => rw [hread] at h; cases h
    | ok data =>
      rw [hread] at h
      obtain rfl := Except.ok.inj h
      obtain ⟨text, _, hloads⟩ := readMembers_ok interp hread
      obtain ⟨⟨_, hsound⟩, hdepth⟩ := loads_sound hloads
      have hmember (key : String) : SlimHub.Fits interp (getMember data key .null) :=
        fits_getMember hsound hdepth (HubConfig.fits_null interp)
      exact ⟨fits_orElse (hmember _) (fits_str _), fits_orElse (hmember _) (fits_str _), hmember _,
        hmember _⟩

/-- What was saved whole is loaded. -/
theorem loadOrCreate_saved (hfloat : interp.RereadsFloats) (hfits : config.Fits interp)
    (hstorable : Storable interp config.members) :
    ((save interp config).1.loadOrCreate interp).2 = .ok (config.reread interp) := by
  have hkeys : (config.members.map Prod.fst).Nodup := by
    have h : [str "address", str "type", str "owner", str "name"].Nodup := by decide
    exact h
  have hdepth : nesting (.obj config.members) ≤ interp.readDepth := by
    have haddress := hfits.address.2
    have htype := hfits.type.2
    have howner := hfits.owner.2
    have hname := hfits.name.2
    simp only [nesting, HubConfig.members, membersNesting]
    omega
  have hread := readMembers_saved hfloat
    ⟨hkeys, hfits.address.1, hfits.type.1, hfits.owner.1, hfits.name.1, trivial⟩ hdepth hstorable
  simp only [save, loadOrCreate, hread]
  rfl

variable (interp) (store) in
/-- The config that a request finds. -/
def inForce : Option HubConfig := (store.loadOrCreate interp).2.toOption

theorem filled_inForce (h : store.inForce interp = some config) : config.Filled interp := by
  cases hload : (store.loadOrCreate interp).2 with
  | error exc =>
    rw [inForce, hload] at h
    cases h
  | ok loaded =>
    rw [inForce, hload] at h
    obtain rfl := Option.some.inj h
    rcases store with ⟨_ | content⟩
    · simp only [loadOrCreate, save] at hload
      split at hload
      · obtain rfl := Except.ok.inj hload
        exact ⟨truthy_str interp (HubConfig.getMacAddress_ne interp),
          truthy_str interp HubConfig.slimhub_ne⟩
      · cases hload
    · simp only [loadOrCreate] at hload
      cases hread : readMembers interp content with
      | error exc => rw [hread] at hload; cases hload
      | ok data =>
        rw [hread] at hload
        obtain rfl := Except.ok.inj hload
        exact ⟨truthy_orElse interp _ (HubConfig.getMacAddress_ne interp),
          truthy_orElse interp _ HubConfig.slimhub_ne⟩

theorem reread_default : HubConfig.reread interp { address := .str (getMacAddress interp) } =
    { address := .str (getMacAddress interp) } := by
  simp [HubConfig.reread, orElse, settled, truthy_str interp (HubConfig.getMacAddress_ne interp),
    truthy_str interp HubConfig.slimhub_ne]

theorem inForce_saved (hfloat : interp.RereadsFloats) (hfits : config.Fits interp) :
    (save interp config).1.inForce interp =
      if Storable interp config.members then some (config.reread interp) else none := by
  split
  · rename_i hstorable
    rw [inForce, loadOrCreate_saved hfloat hfits hstorable]
    rfl
  · rename_i hstorable
    rw [← writeMembers_ok_iff] at hstorable
    cases hload : ((save interp config).1.loadOrCreate interp).2 with
    | error exc => rw [inForce, hload]; rfl
    | ok other =>
      have hread := loadOrCreate_ok interp _ hload _ rfl
      exact absurd hread (torn_not_readable interp (List.cons_ne_nil _ _) hstorable)

/-- Making the file does not change what is found. -/
theorem inForce_loadOrCreate (hfloat : interp.RereadsFloats) :
    (store.loadOrCreate interp).1.inForce interp = store.inForce interp := by
  rcases store with ⟨_ | content⟩
  · have hstorable := default_storable interp
    have hwritten := (writeMembers_ok_iff interp _).mpr hstorable
    have hsaved := inForce_saved hfloat (HubConfig.fits_default interp)
    rw [if_pos hstorable, reread_default] at hsaved
    rw [loadOrCreate, hsaved]
    simp [inForce, loadOrCreate, save, hwritten, Except.toOption]
  · rfl

/-- What `set_field` does to the config in force. -/
theorem inForce_setField (hfloat : interp.RereadsFloats) (field value : Str) :
    (store.setField interp field value).1.inForce interp =
      if field ∈ fields then (store.inForce interp).bind (HubConfig.put interp · (field, value))
      else store.inForce interp := by
  by_cases hfield : field ∈ fields
  · rw [if_pos hfield]
    cases hload : (store.loadOrCreate interp).2 with
    | error exc =>
      rw [setField_error interp store field value hfield hload, inForce, hload]
      rfl
    | ok config =>
      rw [setField_ok interp store field value hfield hload, HubConfig.assign_eq,
        inForce_saved hfloat (HubConfig.fits_withField (fits_loadOrCreate hload) field value),
        inForce, hload]
      rfl
  · rw [if_neg hfield]
    simp [setField, hfield]

/-- A request is answered with the config in force, with the field set. -/
theorem toOption_setField {field : Str} (hfield : field ∈ fields) (value : Str) :
    ((store.setField interp field value).2.map Reply.hubConfig).toOption =
      (store.inForce interp).bind fun config =>
        if Storable interp (config.withField field value).members then
          some (.hubConfig (config.withField field value)) else none := by
  cases hload : (store.loadOrCreate interp).2 with
  | error exc =>
    rw [setField_error interp store field value hfield hload, inForce, hload]
    rfl
  | ok config =>
    have hforce : store.inForce interp = some config := by rw [inForce, hload]; rfl
    rw [setField_ok interp store field value hfield hload, HubConfig.assign_eq, hforce,
      Option.bind_some]
    split
    · rename_i hstorable
      rw [← writeMembers_ok_iff] at hstorable
      rw [save, hstorable]
      rfl
    · rename_i hstorable
      obtain ⟨exc, hexc⟩ := (save_error_iff interp _).mpr hstorable
      rw [hexc]
      rfl

end HubConfigStore

/-! ### Over a run -/

/-- The field that a request sets in the hub's config, with its value. -/
def hubSets : Operation → List (Str × Str)
  | .request (.hubConfigSet field value) =>
    if HubConfigStore.fields.contains field then [(field, value)] else []
  | _ => []

namespace Serial

variable {interp} {s : Serial}

theorem hubConfigStore_scan (devices : List Target) :
    (s.scan interp devices).hubConfigStore = s.hubConfigStore := by
  induction devices generalizing s with
  | nil => rfl
  | cons device devices ih =>
    rw [scan]
    split
    · rfl
    · exact ih

/-- One operation changes the config in force by what it sets. -/
theorem inForce_perform (hfloat : interp.RereadsFloats) (op : Operation) :
    (s.perform interp op).hubConfigStore.inForce interp =
      (s.hubConfigStore.inForce interp).bind ((hubSets op).foldlM (HubConfig.put interp)) := by
  have same {store : HubConfigStore} (hstore : store = s.hubConfigStore) :
      store.inForce interp = (s.hubConfigStore.inForce interp).bind
        (List.foldlM (HubConfig.put interp) · []) := by
    simp [hstore]
  cases op with
  | loadHubConfig =>
    rw [perform, HubConfigStore.inForce_loadOrCreate hfloat]
    exact same rfl
  | scan devices => exact same (hubConfigStore_scan devices)
  | request request =>
    cases request with
    | hubConfigSet field value =>
      simp only [hubSets, List.contains_iff_mem]
      refine (HubConfigStore.inForce_setField hfloat field value).trans ?_
      split
      · simp
      · exact same rfl
    | _ => exact same rfl
  | _ => exact same rfl

/-- And so do the operations of a run. -/
theorem inForce_foldl (hfloat : interp.RereadsFloats) (ops : List Operation) :
    (ops.foldl (perform interp) s).hubConfigStore.inForce interp =
      (s.hubConfigStore.inForce interp).bind
        ((ops.flatMap hubSets).foldlM (HubConfig.put interp)) := by
  induction ops generalizing s with
  | nil => simp
  | cons op ops ih =>
    rw [List.foldl_cons, ih, inForce_perform hfloat, List.flatMap_cons, Option.bind_assoc]
    simp only [List.foldlM_append]
    rfl

end Serial

/-- A client sets the owner, and then a name that cannot be encoded. -/
def ownerThenName : List (Event Answer Callback) :=
  [.tick, .resume 0 .done, .tick,
    .call (.client (some (.hubConfigSet (str "owner") (str "someone")))), .tick,
    .call (.client (some (.hubConfigSet (str "name") [0xD800]))), .tick]

/-- CORRECT: the hub's config is the one that was found at the start with the fields that clients
    set since, in order, each with its last value, and none once one of them could not be written.
    In every run, whatever else the daemon does, that is what the next request finds and what a
    `hub.config.set` answers with. The operating system refuses no operation on the file. -/
theorem hub_config_in_force (interp : Interpreter) (hfloat : interp.RereadsFloats) (w : Writer)
    (configStore : DeviceConfigStore) (hubConfigStore : HubConfigStore) (disk : Files.FS)
    (times : ℕ → ℚ) (awaitsClients : Bool) (unlinkError : Option PyError) (address : Option Str)
    (scan : Bool) (events : List (Event Answer Callback)) (L : Loop Station Point PyError Answer)
    (hrun : Machine.run (Daemon.loopStep interp w) events
      ((Station.new configStore hubConfigStore disk times awaitsClients unlinkError).launch address
        scan) = some L) :
    let station := Station.new configStore hubConfigStore disk times awaitsClients unlinkError
    let sets := (Loop.journal (Daemon.body interp w) (callback w) (operations w) events
      (station.launch address scan)).flatMap hubSets
    let config := (hubConfigStore.inForce interp).bind (sets.foldlM (HubConfig.put interp))
    L.shared.hubConfigStore.inForce interp = config ∧
      (∀ found last, hubConfigStore.inForce interp = some found → config = some last →
        last.Keeps interp found sets) ∧
      ∀ field value, field ∈ HubConfigStore.fields →
        ((Daemon.dispatch interp (.hubConfigSet field value)).exec L.shared).result.toOption =
          config.bind fun config =>
            if Storable interp (config.withField field value).members then
              some (.hubConfig (config.withField field value)) else none := by
  intro station sets config
  have hserial : L.shared.serial = (Loop.journal (Daemon.body interp w) (callback w) (operations w)
      events (station.launch address scan)).foldl (Serial.perform interp) station.serial :=
    Loop.run_journal (A := station.launched address scan) (serial_follows interp w) hrun
  have hforce : L.shared.hubConfigStore.inForce interp = config :=
    (congrArg (·.hubConfigStore.inForce interp) hserial).trans (Serial.inForce_foldl hfloat _)
  refine ⟨hforce, ?_, ?_⟩
  · intro found last hfound hlast
    have hsets : sets.foldlM (HubConfig.put interp) found = some last := by
      rw [← hlast]
      simp only [config, hfound, Option.bind_some]
    exact (HubConfig.keeps_foldlM hfloat (HubConfigStore.filled_inForce hfound) hsets).1
  · intro field value hfield
    rw [(Daemon.does_dispatch interp (.hubConfigSet field value)).2, ← hforce]
    exact HubConfigStore.toOption_setField hfield value

/-- The first request is answered, the second is not, and what is left is what the journal says. -/
theorem ownerThenName_in_force : ∃ L,
    Machine.run (Daemon.loopStep freshInterpreter openDisk) ownerThenName
      (freshStation.launch none false) = some L ∧
    L.shared.history.answers.map (·.isOk) = [true, false] ∧
    L.shared.hubConfigStore.inForce freshInterpreter =
      (freshStation.hubConfigStore.inForce freshInterpreter).bind
        (((Loop.journal (Daemon.body freshInterpreter openDisk) (callback openDisk)
          (operations openDisk) ownerThenName (freshStation.launch none false)).flatMap
            hubSets).foldlM (HubConfig.put freshInterpreter)) := by
  have hstate : (Machine.run (Daemon.loopStep freshInterpreter openDisk) ownerThenName
      (freshStation.launch none false)).map (fun L =>
        decide (L.shared.history.answers.map (·.isOk) = [true, false])) = some true := by
    decide +kernel
  obtain ⟨L, hrun, hanswers⟩ := Option.map_eq_some_iff.mp hstate
  exact ⟨L, hrun, of_decide_eq_true hanswers, (hub_config_in_force freshInterpreter
    rereadsFloats_freshInterpreter openDisk _ _ _ _ _ _ _ _ _ L hrun).1⟩

end SlimHub
