import SlimHub.DeviceList

/-! What `list_all` and `load` say of a directory that only the store has written to.

        save, set_field, ensure ──▶ m.json ◀── load m
                                      ▲
                                      └─────── list_all

    The file is found by the caller's address and written under the config's own; both are the same
    MAC in normal form. Every call either raises before it writes, or writes one whole file. -/

namespace SlimHub
open Text Nus Json

variable (interp : Interpreter)

/-- A call on the store, with a config of any texts. -/
inductive StoreCall where
  | save (config : DeviceConfig)
  | setField (address field value : Str)
  | ensure (address deviceType name : Str)

namespace StoreCall

def apply : StoreCall → DeviceConfigStore → DeviceConfigStore × Except PyError DeviceRecord
  | .save config, store => store.save interp config.record
  | .setField address field value, store => store.setField interp address field value
  | .ensure address deviceType name, store => store.ensure interp address deviceType name

/-- The device whose config the call writes; none for a call that raises. -/
def path : StoreCall → Option Str
  | .save config => (normalizeMac config.address).toOption
  | .setField address field _ =>
    if DeviceConfigStore.fields.contains field then (normalizeMac address).toOption else none
  | .ensure address _ _ => (normalizeMac address).toOption

/-- The encoder can write the texts. -/
def Encodable : StoreCall → Prop
  | .save config => config.Encodable
  | .setField _ _ value => noSurrogate value = true
  | .ensure _ deviceType name => noSurrogate deviceType = true ∧ noSurrogate name = true

instance encodableDecidable : DecidablePred Encodable
  | .save config => inferInstanceAs (Decidable config.Encodable)
  | .setField _ _ _ => inferInstanceAs (Decidable (_ = _))
  | .ensure _ _ _ => inferInstanceAs (Decidable (_ ∧ _))

end StoreCall

/-- The store after some calls, from an empty directory. -/
def stored (calls : List StoreCall) : DeviceConfigStore :=
  calls.foldl (fun store call => (call.apply interp store).1) ⟨Dict.empty⟩

namespace DeviceConfig

/-- What `save` makes of a config whose address normalises to `path`. -/
def savedAt (config : DeviceConfig) (path : Str) : DeviceConfig where
  address := path
  type := orDefault config.type defaultDeviceType
  name := config.name
  location := orDefault config.location defaultLocation

variable {config : DeviceConfig} {path : Str}

theorem savedAt_filled (config : DeviceConfig) (h : normalizeMac path = .ok path) :
    (config.savedAt path).Filled where
  address := h
  type := orDefault_ne config.type defaultDeviceType_ne
  location := orDefault_ne config.location defaultLocation_ne

theorem savedAt_encodable (h : config.Encodable) (path : Str) : (config.savedAt path).Encodable := by
  obtain ⟨hdefaultType, _, hdefaultLocation⟩ := default_encodable path
  obtain ⟨htype, hname, hlocation⟩ := h
  exact ⟨ConfigWrite.noSurrogate_orDefault htype hdefaultType, hname,
    ConfigWrite.noSurrogate_orDefault hlocation hdefaultLocation⟩

end DeviceConfig

/-! ### One call -/

open DeviceConfigStore

theorem orElse_str (value default : Str) :
    orElse interp (.str value) (.str default) = .str (orDefault value default) := by
  by_cases h : value = []
  · simp [orElse, orDefault, truthy, h]
  · simp [orElse, orDefault, truthy, h]

theorem DeviceConfigStore.save_normalized (store : DeviceConfigStore) {config : DeviceConfig}
    {path : Str} (h : normalizeMac config.address = .ok path) :
    (store.save interp config.record).1 = store.write interp (config.savedAt path) := by
  have hidem := normalizeMac_idem h
  simp only [save, DeviceConfig.record, h, hidem, orElse_str]
  rfl

namespace StoreCall

variable {store : DeviceConfigStore} {call : StoreCall}

/-- A call that has no device writes nothing. -/
theorem apply_of_path_eq_none (hpath : call.path = none) : (call.apply interp store).1 = store := by
  have herror {address : Str} (h : (normalizeMac address).toOption = none) :
      ∃ exc, normalizeMac address = .error exc := by
    cases haddress : normalizeMac address with
    | error exc => exact ⟨exc, rfl⟩
    | ok path => rw [haddress] at h; cases h
  cases call with
  | save config =>
    obtain ⟨exc, hexc⟩ := herror hpath
    simp only [apply, DeviceConfigStore.save, DeviceConfig.record, hexc]
  | setField address field value =>
    exact ConfigWrite.apply_of_path_eq_none interp (w := .configSet address field value) hpath
  | ensure address deviceType name =>
    obtain ⟨exc, hexc⟩ := herror hpath
    simp only [apply, DeviceConfigStore.ensure, hexc]

/-- Every other call writes a whole file, if the texts can be written. -/
theorem apply_of_path (h : Own interp store) (hread : AllReadable interp store) {path : Str}
    (hpath : call.path = some path) (hcall : call.Encodable) :
    ∃ config : DeviceConfig, config.address = path ∧ config.Filled ∧ config.Encodable ∧
      (call.apply interp store).1 = store.write interp config := by
  have hheld (hidem : normalizeMac path = .ok path) :
      ∃ config : DeviceConfig, config.address = path ∧ Holds interp store config := by
    rcases h.holds_or interp hidem with hholds | ⟨content, hfile, hbad⟩
    · exact hholds
    · exact absurd (hread path content hfile) hbad
  cases call with
  | save config =>
    have haddress := ConfigWrite.ok_of_toOption hpath
    exact ⟨config.savedAt path, rfl, config.savedAt_filled (normalizeMac_idem haddress),
      DeviceConfig.savedAt_encodable hcall path, save_normalized interp store haddress⟩
  | setField address field value =>
    have hwrite : (ConfigWrite.configSet address field value).path = some path := hpath
    obtain ⟨config, rfl, hholds⟩ := hheld (ConfigWrite.path_normalized hwrite)
    have hsave := ConfigWrite.apply_of_holds interp hholds hwrite
    have hfilled := ConfigWrite.change_filled hholds.filled
      (store.files.get? config.address).isSome (.configSet address field value)
    rw [save_record interp store hfilled] at hsave
    exact ⟨_, ConfigWrite.change_address _ _ config, hfilled,
      ConfigWrite.change_encodable (w := .configSet address field value) hholds.encodable hcall _,
      congrArg Prod.fst hsave⟩
  | ensure address deviceType name =>
    have haddress := ConfigWrite.ok_of_toOption hpath
    obtain ⟨config, rfl, hholds⟩ := hheld (normalizeMac_idem haddress)
    have hfilled := ConfigWrite.fill_filled hholds.filled
      (store.files.get? config.address).isSome deviceType name
    have hencodable := ConfigWrite.fill_encodable hholds.encodable
      (store.files.get? config.address).isSome hcall.1 hcall.2
    refine ⟨config.fill (store.files.get? config.address).isSome deviceType name, rfl, hfilled,
      hencodable, ?_⟩
    rw [apply, ConfigWrite.ensure_of_holds interp hholds haddress, save_record interp store hfilled]

end StoreCall

/-! ### Runs -/

/-- A directory that the calls so far have led to: every file is whole, and there is one for every
    device that was written. -/
structure Lists (store : DeviceConfigStore) (written : List Str) : Prop where
  own : Own interp store
  readable : AllReadable interp store
  files : ∀ path, store.files.get? path ≠ none ↔ path ∈ written

theorem Lists.empty : Lists interp ⟨Dict.empty⟩ [] where
  own := .empty interp
  readable path content h := nomatch h
  files path := by simp

/-- One more whole file. -/
theorem Lists.write {store : DeviceConfigStore} {written : List Str} (h : Lists interp store written)
    {config : DeviceConfig} (hfilled : config.Filled) (hencodable : config.Encodable) :
    Lists interp (store.write interp config) (written ++ [config.address]) where
  own := h.own.write interp hfilled
  readable path content hfile := by
    rcases eq_or_ne path config.address with rfl | hne
    · obtain rfl := Option.some.inj ((store.files.get?_set_self _ _).symm.trans hfile)
      exact ⟨_, config.readMembers_content interp hfilled hencodable⟩
    · rw [write_get?_of_ne interp store config hne] at hfile
      exact h.readable path content hfile
  files path := by
    rw [DeviceConfigStore.write, Dict.get?_set]
    split
    · simp_all
    · simp [h.files, *]

theorem Lists.call {store : DeviceConfigStore} {written : List Str} (h : Lists interp store written)
    {call : StoreCall} (hcall : call.Encodable) :
    Lists interp (call.apply interp store).1 (written ++ call.path.toList) := by
  cases hpath : call.path with
  | none =>
    rw [StoreCall.apply_of_path_eq_none interp hpath]
    simpa using h
  | some path =>
    obtain ⟨config, rfl, hfilled, hencodable, hwrite⟩ :=
      StoreCall.apply_of_path interp h.own h.readable hpath hcall
    rw [hwrite]
    exact h.write interp hfilled hencodable

theorem lists_stored {calls : List StoreCall} (h : ∀ call ∈ calls, call.Encodable) :
    Lists interp (stored interp calls) (calls.filterMap StoreCall.path) := by
  induction calls using List.reverseRecOn with
  | nil => exact .empty interp
  | append_singleton calls call ih =>
    have hcalls := ih fun call hmem => h call (List.mem_append_left _ hmem)
    have hcall := h call (List.mem_append_right _ (List.mem_singleton_self _))
    have hlast := hcalls.call interp hcall
    rw [stored, List.foldl_append, List.filterMap_append]
    cases hpath : call.path <;> simpa [hpath, stored] using hlast

/-! ### Addresses and file names -/

theorem lt_of_append_lt_append {α : Type} [LinearOrder α] (s : List α) : ∀ {a b : List α},
    a.length = b.length → a ++ s < b ++ s → a < b
  | [], [], _, h => absurd h (lt_irrefl _)
  | x :: a, y :: b, hlen, h => by
    rcases List.cons_lt_cons_iff.mp h with hxy | ⟨rfl, hrest⟩
    · exact List.cons_lt_cons_iff.mpr (.inl hxy)
    · exact List.cons_lt_cons_iff.mpr
        (.inr ⟨rfl, lt_of_append_lt_append s (Nat.succ.inj hlen) hrest⟩)

/-- CORRECT: the directory represents the configs that were written. After any calls, from an empty
    directory, every file is under a MAC in normal form and holds that address, a type and a
    location; `list_all` gives one config for each device that was ever written, in increasing
    order of the addresses, and the one that `load` gives for its address; and any other address
    has the default config and no file. -/
theorem config_store_represents (calls : List StoreCall) (hcalls : ∀ call ∈ calls, call.Encodable) :
    (∀ path content, (stored interp calls).files.get? path = some content →
      normalizeMac path = .ok path ∧ ∃ config : DeviceConfig, config.address = path ∧
        config.type ≠ [] ∧ config.location ≠ [] ∧
        readMembers interp content = .ok config.record.members) ∧
      (∃ records, (stored interp calls).listAll interp = .ok records ∧
        records.Pairwise (fun a b => a.address < b.address) ∧
        (∀ m, m ∈ records.map DeviceRecord.address ↔ m ∈ calls.filterMap StoreCall.path) ∧
        ∀ record ∈ records, (stored interp calls).load interp record.address = .ok record) ∧
      ∀ address m, normalizeMac address = .ok m → m ∉ calls.filterMap StoreCall.path →
        (stored interp calls).load interp address =
          .ok ({ address := m } : DeviceConfig).record ∧
        (stored interp calls).files.get? m = none := by
  have h := lists_stored interp hcalls
  refine ⟨fun path content hfile => ⟨h.own.path hfile, ?_⟩, ?_, fun address m hm hnot => ?_⟩
  · obtain ⟨config, rfl, hholds⟩ := h.own.whole hfile (h.readable path content hfile)
    refine ⟨config, rfl, hholds.filled.type, hholds.filled.location, ?_⟩
    cases hholds with
    | whole file filled encodable =>
      obtain rfl := Option.some.inj (file.symm.trans hfile)
      exact config.readMembers_content interp filled encodable
    | absent file _ _ =>
      rw [hfile] at file
      cases file
  · obtain ⟨records, hlist, hsorted, hloads, hall⟩ := listAll_of_readable h.own h.readable
    refine ⟨records, hlist, hsorted.imp_of_mem ?_, fun m => ?_, fun record hrecord =>
      (hloads record hrecord).2.1⟩
    · intro a b ha hb hlt
      refine lt_of_append_lt_append (str ".json") ?_ hlt
      rw [length_of_normalizeMac (hloads a ha).1, length_of_normalizeMac (hloads b hb).1]
    · rw [← h.files m, List.mem_map]
      constructor
      · rintro ⟨record, hrecord, rfl⟩
        exact (hloads record hrecord).2.2
      · intro hsome
        obtain ⟨content, hfile⟩ := Option.ne_none_iff_exists'.mp hsome
        obtain ⟨record, hrecord, haddress⟩ := hall m content hfile
        exact ⟨record, hrecord, haddress⟩
  · have hnone : (stored interp calls).files.get? m = none := by
      by_contra hsome
      exact hnot ((h.files m).mp hsome)
    have hholds : Holds interp (stored interp calls) { address := m } :=
      .absent hnone (normalizeMac_idem hm) rfl
    exact ⟨load_of_holds interp hholds hm, hnone⟩

/-- Two devices are written, under several spellings of their addresses; two calls are refused. -/
def severalSpellings : List StoreCall :=
  [.ensure (str "aa-bb-cc-dd-ee-02") (str "DEAN_NODE_V2") [], .setField (str "AABBCCDDEE02")
    (str "owner") (str "me"), .save { address := str "aabb.ccdd.ee01", location := [] },
    .setField (str "no address") (str "name") (str "node"),
    .setField (str "AA:BB:CC:DD:EE:02") (str "location") (str "kitchen")]

/-- Both are listed, each once and in order. -/
theorem severalSpellings_listed : ∃ records,
    (stored freshInterpreter severalSpellings).listAll freshInterpreter = .ok records ∧
      records.Pairwise (fun a b => a.address < b.address) ∧
      ∀ m, m ∈ records.map DeviceRecord.address ↔
        m ∈ [str "AA:BB:CC:DD:EE:02", str "AA:BB:CC:DD:EE:01", str "AA:BB:CC:DD:EE:02"] := by
  have hpaths : severalSpellings.filterMap StoreCall.path =
      [str "AA:BB:CC:DD:EE:02", str "AA:BB:CC:DD:EE:01", str "AA:BB:CC:DD:EE:02"] := by
    decide +kernel
  obtain ⟨_, ⟨records, hlist, hsorted, hmem, _⟩, _⟩ :=
    config_store_represents freshInterpreter severalSpellings (by decide +kernel)
  exact ⟨records, hlist, hsorted, hpaths ▸ hmem⟩

end SlimHub
