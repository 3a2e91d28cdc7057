import SlimHub.Ble.Session
import SlimHub.ConfigUpdate

/-! What a config directory holds that nothing but the store writes to.

    A file is then a whole config under the file's own name, or is cut short and read no more.
    Whoever writes to the directory (a `config.set` request, a scan, a connect request, a frame)
    loads one config, changes it, and saves it (`apply_spec`). -/

namespace SlimHub
open Text Nus Json Ble

variable (interp : Interpreter)

/-- A file that holds the members of a filled record is read as the record. -/
theorem DeviceConfigStore.readRecord_of_members {record : DeviceRecord} {content : Bytes}
    (h : record.Filled interp) (hread : readMembers interp content = .ok record.members)
    (stem : Str) : DeviceConfigStore.readRecord interp stem content = .ok record := by
  have hfound : getMember record.members "address" (.str stem) = .str record.address ∧
      getMember record.members "type" (.str defaultDeviceType) = record.type ∧
      getMember record.members "name" (.str []) = record.name ∧
      getMember record.members "location" (.str defaultLocation) = record.location := by
    have hne : str "address" ≠ str "type" ∧ str "address" ≠ str "name" ∧
        str "address" ≠ str "location" ∧ str "type" ≠ str "name" ∧ str "type" ≠ str "location" ∧
        str "name" ≠ str "location" := by decide
    simp [getMember, DeviceRecord.members, Dict.find, hne]
  obtain ⟨haddress, htype, hname, hlocation⟩ := hfound
  simp only [DeviceConfigStore.readRecord, hread, bind, Except.bind, haddress, htype, hname,
    hlocation]
  simp only [DeviceRecord.new, normalizeMacValue, h.address, orElse, h.type, h.location, if_true,
    bind, Except.bind, pure, Except.pure]

namespace DeviceConfig

/-- A config with text in all its fields, as the store handles it. -/
def record (self : DeviceConfig) : DeviceRecord :=
  { address := self.address, type := .str self.type, name := .str self.name,
    location := .str self.location }

/-- What `save` writes of a config. -/
def content (self : DeviceConfig) : Bytes := (writeMembers interp self.record.members).1

/-- A config that UTF-8 can write. -/
def Encodable (self : DeviceConfig) : Prop :=
  noSurrogate self.type = true ∧ noSurrogate self.name = true ∧ noSurrogate self.location = true

instance encodableDecidable (self : DeviceConfig) : Decidable self.Encodable :=
  inferInstanceAs (Decidable (_ ∧ _ ∧ _))

/-- `__post_init__` changes nothing in it. -/
structure Filled (config : DeviceConfig) : Prop where
  address : normalizeMac config.address = .ok config.address
  type : config.type ≠ []
  location : config.location ≠ []

variable {config : DeviceConfig}

/-- The members of the file, which are all strings. -/
def texts (config : DeviceConfig) : List (Str × Str) :=
  [(str "address", config.address), (str "type", config.type), (str "name", config.name),
    (str "location", config.location)]

theorem record_members : config.record.members = strings config.texts := rfl

theorem texts_keys : (config.texts.map Prod.fst).Nodup := by
  have h : [str "address", str "type", str "name", str "location"].Nodup := by decide
  exact h

theorem Filled.record (h : config.Filled) : config.record.Filled interp where
  address := h.address
  type := truthy_str interp h.type
  location := truthy_str interp h.location

theorem noSurrogate_address (h : config.Filled) : noSurrogate config.address = true := by
  obtain ⟨_, haddress⟩ := normalizeMac_ok_iff.mp h.address
  rw [haddress]
  exact noSurrogate_macText _

theorem membersClean_record (h : config.Filled) :
    membersClean config.record.members = true ↔ config.Encodable := by
  have hkeys : noSurrogate (str "address") = true ∧ noSurrogate (str "type") = true ∧
      noSurrogate (str "name") = true ∧ noSurrogate (str "location") = true := by decide
  obtain ⟨haddress, htype, hname, hlocation⟩ := hkeys
  simp [DeviceRecord.members, DeviceConfig.record, membersClean, clean, Encodable, haddress, htype,
    hname, hlocation, noSurrogate_address h]

theorem storable_iff (h : config.Filled) : Storable interp config.record.members ↔ config.Encodable := by
  have hpos := interp.writeDepth_pos
  have hnest : membersNesting config.record.members = 0 := by
    simp [DeviceRecord.members, DeviceConfig.record, membersNesting, nesting]
  rw [Storable, membersClean_record h, hnest]
  exact ⟨fun h => h.2.2, fun h => ⟨Nat.zero_le _, by omega, h⟩⟩

/-- A config that can be written is read back. -/
theorem readMembers_content (h : config.Filled) (hencodable : config.Encodable) :
    readMembers interp (config.content interp) = .ok config.record.members := by
  have hnest : ¬ membersNesting config.record.members > interp.copyDepth := by
    simp [DeviceRecord.members, DeviceConfig.record, membersNesting, nesting]
  have hclean : ∀ m ∈ config.texts, noSurrogate m.1 = true ∧ noSurrogate m.2 = true := by
    have hkeys : [str "address", str "type", str "name", str "location"].all noSurrogate = true := by
      decide
    rintro m hm
    refine ⟨List.all_eq_true.mp hkeys m.1 (List.mem_map_of_mem hm), ?_⟩
    obtain ⟨htype, hname, hlocation⟩ := hencodable
    simp only [texts, List.mem_cons, List.not_mem_nil, or_false] at hm
    rcases hm with rfl | rfl | rfl | rfl
    · exact noSurrogate_address h
    · exact htype
    · exact hname
    · exact hlocation
  obtain ⟨limit, hlimit⟩ := Nat.exists_eq_add_one.mpr interp.writeDepth_pos
  obtain ⟨depth, hdepth⟩ := Nat.exists_eq_add_one.mpr interp.readDepth_pos
  have hne : config.texts ≠ [] := List.cons_ne_nil _ _
  obtain ⟨_, text, hdecode, hloads⟩ := dumpLine_strings interp.floatRepr_clean hne texts_keys hclean
    limit
  rw [readMembers, content, writeMembers, if_neg hnest, record_members, hlimit]
  simp only [hdecode, hdepth, hloads depth]

theorem readRecord_content (h : config.Filled) (hencodable : config.Encodable) (stem : Str) :
    DeviceConfigStore.readRecord interp stem (config.content interp) = .ok config.record :=
  DeviceConfigStore.readRecord_of_members interp (h.record interp)
    (readMembers_content interp h hencodable) stem

/-- The config of a device that has no file. -/
theorem default_filled {path : Str} (h : normalizeMac path = .ok path) :
    Filled { address := path } where
  address := h
  type := defaultDeviceType_ne
  location := defaultLocation_ne

theorem default_encodable (path : Str) : Encodable { address := path } := by
  have h : noSurrogate defaultDeviceType = true ∧ noSurrogate [] = true ∧
      noSurrogate defaultLocation = true := by decide
  exact h

end DeviceConfig

/-! ### The directory -/

namespace DeviceConfigStore

variable {store : DeviceConfigStore} {path : Str} {config : DeviceConfig}

/-- The config of a path: a file that holds it whole, or no file and all defaults. -/
inductive Holds (store : DeviceConfigStore) (config : DeviceConfig) : Prop where
  | whole (file : store.files.get? config.address = some (config.content interp))
      (filled : config.Filled) (encodable : config.Encodable)
  | absent (file : store.files.get? config.address = none)
      (address : normalizeMac config.address = .ok config.address)
      (default : config = { address := config.address })

theorem Holds.filled (h : Holds interp store config) : config.Filled := by
  cases h with
  | whole file filled encodable => exact filled
  | absent file address default => rw [default]; exact DeviceConfig.default_filled address

theorem Holds.encodable (h : Holds interp store config) : config.Encodable := by
  cases h with
  | whole file filled encodable => exact encodable
  | absent file address default => rw [default]; exact DeviceConfig.default_encodable _

/-- Every file is under an address in normal form, and is whole if it is readable. -/
structure Own (store : DeviceConfigStore) : Prop where
  path : ∀ {path content}, store.files.get? path = some content → normalizeMac path = .ok path
  whole : ∀ {path content}, store.files.get? path = some content → Readable interp content →
    ∃ config : DeviceConfig, config.address = path ∧ Holds interp store config

theorem Own.empty : Own interp ⟨Dict.empty⟩ where
  path h := by cases h
  whole h := by cases h

/-- A config is held under its own address only. -/
theorem Holds.congr {other : DeviceConfigStore} (h : Holds interp store config)
    (hsame : other.files.get? config.address = store.files.get? config.address) :
    Holds interp other config := by
  cases h with
  | whole file filled encodable => exact .whole (hsame.trans file) filled encodable
  | absent file address default => exact .absent (hsame.trans file) address default

theorem load_of_holds (h : Holds interp store config) {address : Str}
    (haddress : normalizeMac address = .ok config.address) :
    store.load interp address = .ok config.record := by
  have hidem := normalizeMac_idem haddress
  simp only [load, haddress, hidem, bind, Except.bind]
  cases h with
  | whole file filled encodable =>
    simp only [file]
    exact DeviceConfig.readRecord_content interp filled encodable _
  | absent file _ default =>
    rw [default] at hidem ⊢
    simp only [file]
    simp only [DeviceRecord.new, normalizeMacValue, hidem, orElse,
      truthy_str interp defaultDeviceType_ne, truthy_str interp defaultLocation_ne, if_true, bind,
      Except.bind, pure, Except.pure]
    rfl

/-- A path has a config, or a file that is not readable. -/
theorem Own.holds_or (h : Own interp store) (hpath : normalizeMac path = .ok path) :
    (∃ config : DeviceConfig, config.address = path ∧ Holds interp store config) ∨
      ∃ content, store.files.get? path = some content ∧ ¬ Readable interp content := by
  rcases Option.eq_none_or_eq_some (store.files.get? path) with hfile | ⟨content, hfile⟩
  · exact .inl ⟨{ address := path }, rfl, .absent hfile hpath rfl⟩
  · by_cases hread : Readable interp content
    · exact .inl (h.whole hfile hread)
    · exact .inr ⟨content, hfile, hread⟩

/-- How an address is spelled does not matter. -/
theorem load_congr (store : DeviceConfigStore) {address : Str}
    (haddress : normalizeMac address = .ok path) :
    store.load interp address = store.load interp path := by
  simp only [load, haddress, normalizeMac_idem haddress, bind, Except.bind]

theorem load_of_not_readable {address : Str} {content : Bytes}
    (haddress : normalizeMac address = .ok path) (hfile : store.files.get? path = some content)
    (hread : ¬ Readable interp content) : ∃ exc, store.load interp address = .error exc := by
  cases hload : store.load interp address with
  | error exc => exact ⟨exc, rfl⟩
  | ok record =>
    obtain ⟨_, path', hpath', hreadable⟩ := load_ok interp store address hload
    obtain rfl := Except.ok.inj (haddress.symm.trans hpath')
    exact absurd (hreadable content hfile) hread

/-- Overwrite the file of a config. -/
def write (store : DeviceConfigStore) (config : DeviceConfig) : DeviceConfigStore :=
  ⟨store.files.set config.address (config.content interp)⟩

theorem write_get?_of_ne (store : DeviceConfigStore) (config : DeviceConfig)
    (h : path ≠ config.address) :
    (store.write interp config).files.get? path = store.files.get? path :=
  store.files.get?_set_of_ne h _

theorem write_holds (store : DeviceConfigStore) (h : config.Filled)
    (hencodable : config.Encodable) : Holds interp (store.write interp config) config :=
  .whole (store.files.get?_set_self _ _) h hencodable

/-- What is written is whole, or is not readable. -/
theorem Own.write (h : Own interp store) (hfilled : config.Filled) :
    Own interp (store.write interp config) where
  path := by
    intro path content hfile
    rcases eq_or_ne path config.address with rfl | hne
    · exact hfilled.address
    · rw [write_get?_of_ne interp store config hne] at hfile
      exact h.path hfile
  whole := by
    intro path content hfile hread
    rcases eq_or_ne path config.address with rfl | hne
    · refine ⟨config, rfl, write_holds interp store hfilled ?_⟩
      obtain rfl := Option.some.inj ((store.files.get?_set_self _ _).symm.trans hfile)
      rw [← DeviceConfig.storable_iff interp hfilled, ← writeMembers_ok_iff]
      by_contra hfault
      exact torn_not_readable interp (List.cons_ne_nil _ _) hfault hread
    · have hsame := write_get?_of_ne interp store config hne
      obtain ⟨other, rfl, hholds⟩ := h.whole (hsame ▸ hfile) hread
      exact ⟨other, rfl, hholds.congr interp hsame⟩

theorem save_record (store : DeviceConfigStore) (h : config.Filled) :
    store.save interp config.record = (store.write interp config,
      match (writeMembers interp config.record.members).2 with
      | none => .ok config.record
      | some exc => .error exc) :=
  save_filled interp store (h.record interp)

end DeviceConfigStore

end SlimHub
