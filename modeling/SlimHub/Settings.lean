import SlimHub.ConfigFiles

/-! Operator settings outlive scans, connect requests and frames.

    `set_field`, `ensure` and the load and save of a frame all rewrite a device's whole file from a
    loaded copy. In every order of them the file keeps the last type, name and location that a
    `config.set` request gave: `ensure` fills in a type only where there was no file, and a name
    only where there was none. -/

namespace SlimHub
open Text Nus Json Ble

variable (interp : Interpreter)

/-- What handling a frame does to the config of its MAC. -/
def DeviceConfigStore.loadAndSave (self : DeviceConfigStore) (mac : Str) :
    DeviceConfigStore × Except PyError DeviceRecord :=
  match self.load interp mac with
  | .error exc => (self, .error exc)
  | .ok config => self.save interp config

/-- Who writes to the device configs: a `config.set` request, a scan that found a target, a connect
    request once it has its session, a frame. -/
inductive ConfigWrite where
  | configSet (address field value : Str)
  | scanned (target : Target)
  | connected (address sessionName : Str)
  | framed (mac : Str)
  deriving DecidableEq

namespace ConfigWrite

def apply : ConfigWrite → DeviceConfigStore → DeviceConfigStore × Except PyError DeviceRecord
  | .configSet address field value, store => store.setField interp address field value
  | .scanned target, store =>
    match normalizeMac target.addressText with
    | .error exc => (store, .error exc)
    | .ok address =>
      store.ensure interp address (target.nameOr defaultDeviceType) (target.nameOr [])
  | .connected address sessionName, store =>
    match normalizeMac address with
    | .error exc => (store, .error exc)
    | .ok normalized =>
      store.ensure interp normalized (orDefault sessionName defaultDeviceType) []
  | .framed mac, store => store.loadAndSave interp mac

/-- The address whose config is written; none for a request that is refused. -/
def path : ConfigWrite → Option Str
  | .configSet address field _ =>
    if DeviceConfigStore.fields.contains field then (normalizeMac address).toOption else none
  | .scanned target => (normalizeMac target.addressText).toOption
  | .connected address _ => (normalizeMac address).toOption
  | .framed mac => (normalizeMac mac).toOption

/-- The texts that are written can be encoded. -/
def Encodable : ConfigWrite → Prop
  | .configSet _ _ value => noSurrogate value = true
  | .scanned target => noSurrogate (target.nameOr []) = true
  | .connected _ sessionName => noSurrogate sessionName = true
  | .framed _ => True

instance encodableDecidable : DecidablePred Encodable
  | .configSet _ _ _ => inferInstanceAs (Decidable (_ = _))
  | .scanned _ => inferInstanceAs (Decidable (_ = _))
  | .connected _ _ => inferInstanceAs (Decidable (_ = _))
  | .framed _ => inferInstanceAs (Decidable True)

end ConfigWrite

/-! ### What a writer changes in a config -/

namespace DeviceConfig

/-- `set_field`'s change. -/
def assign (config : DeviceConfig) (field value : Str) : DeviceConfig :=
  if field = str "location" then { config with location := orDefault value defaultLocation }
  else if field = str "type" then { config with type := orDefault value defaultDeviceType }
  else if field = str "name" then { config with name := value }
  else config

/-- `ensure`'s change; `existed` says that there was a file. -/
def fill (config : DeviceConfig) (existed : Bool) (deviceType name : Str) : DeviceConfig :=
  { config with
    type := if ¬existed ∧ deviceType ≠ [] then deviceType else config.type
    name := if (¬existed ∨ config.name = []) ∧ name ≠ [] then name else config.name }

end DeviceConfig

namespace ConfigWrite

/-- A writer's change. -/
def change (existed : Bool) : ConfigWrite → DeviceConfig → DeviceConfig
  | .configSet _ field value, config => config.assign field value
  | .scanned target, config =>
    config.fill existed (target.nameOr defaultDeviceType) (target.nameOr [])
  | .connected _ sessionName, config =>
    config.fill existed (orDefault sessionName defaultDeviceType) []
  | .framed _, config => config

variable {store : DeviceConfigStore} {config : DeviceConfig} {w : ConfigWrite}

theorem change_address (existed : Bool) (w : ConfigWrite) (config : DeviceConfig) :
    (w.change existed config).address = config.address := by
  cases w with
  | configSet address field value =>
    simp only [change, DeviceConfig.assign]
    split_ifs <;> rfl
  | scanned target => rfl
  | connected address sessionName => rfl
  | framed mac => rfl

theorem fill_filled (h : config.Filled) (existed : Bool) (deviceType name : Str) :
    (config.fill existed deviceType name).Filled where
  address := h.address
  type := by
    simp only [DeviceConfig.fill]
    split_ifs with hfill
    · exact hfill.2
    · exact h.type
  location := h.location

theorem change_filled (h : config.Filled) (existed : Bool) (w : ConfigWrite) :
    (w.change existed config).Filled := by
  cases w with
  | configSet address field value =>
    simp only [change, DeviceConfig.assign]
    split_ifs
    · exact ⟨h.address, h.type, orDefault_ne value defaultLocation_ne⟩
    · exact ⟨h.address, orDefault_ne value defaultDeviceType_ne, h.location⟩
    · exact ⟨h.address, h.type, h.location⟩
    · exact h
  | scanned target => exact fill_filled h existed _ _
  | connected address sessionName => exact fill_filled h existed _ _
  | framed mac => exact h

theorem noSurrogate_orDefault {value default : Str} (hvalue : noSurrogate value = true)
    (hdefault : noSurrogate default = true) : noSurrogate (orDefault value default) = true := by
  unfold orDefault
  split
  · exact hdefault
  · exact hvalue

theorem noSurrogate_nameOr {target : Target} {default : Str}
    (hname : noSurrogate (target.nameOr []) = true) (hdefault : noSurrogate default = true) :
    noSurrogate (target.nameOr default) = true := by
  cases target with
  | text address => exact hdefault
  | device address name =>
    cases name with
    | none => exact hdefault
    | some name =>
      refine noSurrogate_orDefault ?_ hdefault
      simp only [Target.nameOr, orDefault] at hname
      split at hname
      · simp_all
      · exact hname

theorem fill_encodable (h : config.Encodable) (existed : Bool) {deviceType name : Str}
    (htype : noSurrogate deviceType = true) (hname : noSurrogate name = true) :
    (config.fill existed deviceType name).Encodable := by
  obtain ⟨h1, h2, h3⟩ := h
  refine ⟨?_, ?_, h3⟩
  · simp only [DeviceConfig.fill]
    split_ifs <;> assumption
  · simp only [DeviceConfig.fill]
    split_ifs <;> assumption

theorem change_encodable (h : config.Encodable) (hw : w.Encodable) (existed : Bool) :
    (w.change existed config).Encodable := by
  obtain ⟨hdefaultType, _, hdefaultLocation⟩ := DeviceConfig.default_encodable []
  cases w with
  | configSet address field value =>
    obtain ⟨htype, hname, hlocation⟩ := h
    simp only [change, DeviceConfig.assign]
    split_ifs
    · exact ⟨htype, hname, noSurrogate_orDefault hw hdefaultLocation⟩
    · exact ⟨noSurrogate_orDefault hw hdefaultType, hname, hlocation⟩
    · exact ⟨htype, hw, hlocation⟩
    · exact ⟨htype, hname, hlocation⟩
  | scanned target => exact fill_encodable h existed (noSurrogate_nameOr hw hdefaultType) hw
  | connected address sessionName =>
    exact fill_encodable h existed (noSurrogate_orDefault hw hdefaultType) rfl
  | framed mac => exact h

/-! ### Every writer loads, changes and saves -/

open DeviceConfigStore

theorem ok_of_toOption {α : Type} {result : Except PyError α} {a : α}
    (h : result.toOption = some a) : result = .ok a := by
  cases result with
  | error exc => cases h
  | ok b => exact congrArg Except.ok (Option.some.inj h)

theorem assign_record (config : DeviceConfig) (field value : Str) :
    DeviceConfigStore.assign config.record field value = (config.assign field value).record := by
  simp only [DeviceConfigStore.assign, DeviceConfig.assign]
  split_ifs <;> rfl

theorem ensure_of_holds (h : Holds interp store config) {address : Str}
    (haddress : normalizeMac address = .ok config.address) (deviceType name : Str) :
    store.ensure interp address deviceType name = store.save interp
      (config.fill (store.files.get? config.address).isSome deviceType name).record := by
  have htype : truthy interp (.str config.type) = true := truthy_str interp h.filled.type
  have hname : (truthy interp (.str config.name) = true) ↔ config.name ≠ [] := by simp [truthy]
  unfold ensure
  simp only [haddress, load_of_holds interp h haddress, DeviceConfig.record, htype,
    DeviceConfig.fill]
  congr 1
  split_ifs <;> simp_all

/-- On a readable config a writer saves its change. -/
theorem apply_of_holds (h : Holds interp store config) (hpath : w.path = some config.address) :
    w.apply interp store = store.save interp
      (w.change (store.files.get? config.address).isSome config).record := by
  cases w with
  | configSet address field value =>
    simp only [path] at hpath
    split_ifs at hpath with hfield
    have haddress := ok_of_toOption hpath
    rw [apply, setField_ok interp store address field value (List.contains_iff_mem.mp hfield)
      (load_of_holds interp h haddress), assign_record]
    rfl
  | scanned target =>
    have haddress := ok_of_toOption hpath
    simp only [apply, haddress]
    exact ensure_of_holds interp h h.filled.address _ _
  | connected address sessionName =>
    have haddress := ok_of_toOption hpath
    simp only [apply, haddress]
    exact ensure_of_holds interp h h.filled.address _ _
  | framed mac =>
    have haddress := ok_of_toOption hpath
    simp only [apply, loadAndSave, load_of_holds interp h haddress]
    rfl

theorem path_normalized {address : Str} (hpath : w.path = some address) :
    normalizeMac address = .ok address := by
  cases w with
  | configSet spelling field value =>
    simp only [path] at hpath
    split_ifs at hpath
    exact normalizeMac_idem (ok_of_toOption hpath)
  | scanned target => exact normalizeMac_idem (ok_of_toOption hpath)
  | connected spelling sessionName => exact normalizeMac_idem (ok_of_toOption hpath)
  | framed mac => exact normalizeMac_idem (ok_of_toOption hpath)

/-- Where the config cannot be loaded every writer raises before it writes. -/
theorem apply_of_load_error {address : Str} (hpath : w.path = some address) {exc : PyError}
    (hload : store.load interp address = .error exc) : (w.apply interp store).1 = store := by
  have hidem := path_normalized hpath
  cases w with
  | configSet spelling field value =>
    simp only [path] at hpath
    split_ifs at hpath with hfield
    simp only [apply, setField, load_congr interp store (ok_of_toOption hpath), hload,
      if_neg (not_not_intro hfield)]
  | scanned target => simp only [apply, ok_of_toOption hpath, ensure, hidem, hload]
  | connected spelling sessionName => simp only [apply, ok_of_toOption hpath, ensure, hidem, hload]
  | framed mac =>
    simp only [apply, loadAndSave, load_congr interp store (ok_of_toOption hpath), hload]

theorem load_of_error {spelling : Str} {exc : PyError} (h : normalizeMac spelling = .error exc) :
    store.load interp spelling = .error exc := by
  simp only [load, h, bind, Except.bind]

/-- A refused request writes nothing. -/
theorem apply_of_path_eq_none (hpath : w.path = none) : (w.apply interp store).1 = store := by
  cases w with
  | configSet spelling field value =>
    simp only [path] at hpath
    split_ifs at hpath with hfield
    · cases haddress : normalizeMac spelling with
      | ok address => rw [haddress] at hpath; cases hpath
      | error exc =>
        simp only [apply, setField, load_of_error interp haddress, if_neg (not_not_intro hfield)]
    · rw [apply, setField, if_pos hfield]
  | scanned target =>
    cases haddress : normalizeMac target.addressText with
    | ok address => rw [path, haddress] at hpath; cases hpath
    | error exc => simp only [apply, haddress]
  | connected spelling sessionName =>
    cases haddress : normalizeMac spelling with
    | ok address => rw [path, haddress] at hpath; cases hpath
    | error exc => simp only [apply, haddress]
  | framed mac =>
    cases haddress : normalizeMac mac with
    | ok address => rw [path, haddress] at hpath; cases hpath
    | error exc => simp only [apply, loadAndSave, load_of_error interp haddress]

/-- What a writer does to a directory of the store's own: nothing where it is refused or its file
    is not readable, else it saves its change of the config it loaded. -/
theorem apply_spec (h : Own interp store) (w : ConfigWrite) :
    (w.apply interp store).1 = store ∧ (∀ address, w.path = some address →
        ∃ content, store.files.get? address = some content ∧ ¬ Readable interp content) ∨
      ∃ config, w.path = some config.address ∧ Holds interp store config ∧
        (w.apply interp store).1 = store.write interp
          (w.change (store.files.get? config.address).isSome config) := by
  rcases Option.eq_none_or_eq_some w.path with hpath | ⟨address, hpath⟩
  · refine .inl ⟨apply_of_path_eq_none interp hpath, ?_⟩
    intro address hsome
    rw [hpath] at hsome
    cases hsome
  · have hidem := path_normalized hpath
    rcases h.holds_or interp hidem with ⟨config, rfl, hholds⟩ | ⟨content, hfile, hread⟩
    · refine .inr ⟨config, hpath, hholds, ?_⟩
      rw [apply_of_holds interp hholds hpath,
        save_record interp store (change_filled hholds.filled _ w)]
    · obtain ⟨exc, hload⟩ := load_of_not_readable interp hidem hfile hread
      refine .inl ⟨apply_of_load_error interp hpath hload, ?_⟩
      rintro address' hsome
      obtain rfl := Option.some.inj (hpath.symm.trans hsome)
      exact ⟨content, hfile, hread⟩

/-- Every writer writes the file of its own path only. -/
theorem apply_get?_of_ne (h : Own interp store) {address : Str} (hne : w.path ≠ some address) :
    (w.apply interp store).1.files.get? address = store.files.get? address := by
  rcases apply_spec interp h w with ⟨hsame, _⟩ | ⟨config, hpath, _, hwrite⟩
  · rw [hsame]
  · rw [hwrite]
    refine write_get?_of_ne interp store _ ?_
    rw [change_address]
    rintro rfl
    exact hne hpath

/-- Afterwards there is a file at the path of the writer, and where there was one before. -/
theorem apply_file (h : Own interp store) (w : ConfigWrite) {address : Str}
    (hfile : w.path = some address ∨ store.files.get? address ≠ none) :
    (w.apply interp store).1.files.get? address ≠ none := by
  rcases apply_spec interp h w with ⟨hsame, hpath⟩ | ⟨config, hpath, _, hwrite⟩
  · rw [hsame]
    rcases hfile with hmine | hfile
    · obtain ⟨content, hsome, _⟩ := hpath address hmine
      rw [hsome]
      exact Option.some_ne_none content
    · exact hfile
  · rw [hwrite, write, change_address, Dict.get?_set]
    split
    · exact Option.some_ne_none _
    · rename_i hne
      rcases hfile with hmine | hfile
      · exact absurd (Option.some.inj (hmine.symm.trans hpath)) hne
      · exact hfile

/-- Every writer leaves the directory the store's own. -/
theorem apply_own (h : Own interp store) (w : ConfigWrite) : Own interp (w.apply interp store).1 := by
  rcases apply_spec interp h w with ⟨hsame, _⟩ | ⟨config, _, hholds, hwrite⟩
  · rw [hsame]
    exact h
  · rw [hwrite]
    exact h.write interp (change_filled (hholds.filled interp) _ w)

end ConfigWrite

/-! ### Settings -/

/-- The store after some writers, from an empty directory. -/
def written (writes : List ConfigWrite) : DeviceConfigStore :=
  writes.foldl (fun store w => (w.apply interp store).1) ⟨Dict.empty⟩

/-- The value that a `config.set` request gives to a field of the device at `path`. -/
def ConfigWrite.setting (field path : Str) : ConfigWrite → Option Str
  | .configSet address field' value =>
    if field' = field ∧ normalizeMac address = .ok path then some value else none
  | _ => none

/-- The last value that was given to it. -/
def lastSetting (field path : Str) (writes : List ConfigWrite) : Option Str :=
  (writes.filterMap (ConfigWrite.setting field path)).getLast?

theorem lastSetting_concat (field path : Str) (writes : List ConfigWrite) (w : ConfigWrite) :
    lastSetting field path (writes ++ [w]) =
      (w.setting field path).or (lastSetting field path writes) := by
  rw [lastSetting, lastSetting, List.filterMap_append]
  cases h : w.setting field path with
  | none => simp [h]
  | some value => simp [h]

namespace ConfigWrite

variable {config : DeviceConfig} {w : ConfigWrite} {existed : Bool} {field path value : Str}

theorem setting_eq_some : w.setting field path = some value ↔
    ∃ address, w = .configSet address field value ∧ normalizeMac address = .ok path := by
  cases w with
  | configSet address field' value' =>
    simp only [setting, Option.ite_none_right_eq_some, Option.some.injEq, configSet.injEq]
    constructor
    · rintro ⟨⟨rfl, haddress⟩, rfl⟩
      exact ⟨address, ⟨rfl, rfl, rfl⟩, haddress⟩
    · rintro ⟨_, ⟨rfl, rfl, rfl⟩, haddress⟩
      exact ⟨⟨rfl, haddress⟩, rfl⟩
  | scanned target => simp [setting]
  | connected address sessionName => simp [setting]
  | framed mac => simp [setting]

/-- Giving a value to one of the three fields writes the device's config. -/
theorem path_of_setting (hfield : field ∈ DeviceConfigStore.fields)
    (h : w.setting field path = some value) : w.path = some path := by
  obtain ⟨address, rfl, haddress⟩ := setting_eq_some.mp h
  rw [ConfigWrite.path, if_pos (List.contains_iff_mem.mpr hfield), haddress]
  rfl

theorem setting_of_path_ne (hfield : field ∈ DeviceConfigStore.fields) (h : w.path ≠ some path) :
    w.setting field path = none := by
  by_contra hsome
  obtain ⟨value, hvalue⟩ := Option.ne_none_iff_exists'.mp hsome
  exact h (path_of_setting hfield hvalue)

/-- A given location is kept as it is, or as the default where it is empty. -/
theorem change_location_of_setting (h : w.setting (str "location") path = some value) :
    (w.change existed config).location = orDefault value defaultLocation := by
  obtain ⟨address, rfl, _⟩ := setting_eq_some.mp h
  simp [change, DeviceConfig.assign]

theorem change_type_of_setting (h : w.setting (str "type") path = some value) :
    (w.change existed config).type = orDefault value defaultDeviceType := by
  obtain ⟨address, rfl, _⟩ := setting_eq_some.mp h
  have hne : str "type" ≠ str "location" := by decide
  simp [change, DeviceConfig.assign, hne]

theorem change_name_of_setting (h : w.setting (str "name") path = some value) :
    (w.change existed config).name = value := by
  obtain ⟨address, rfl, _⟩ := setting_eq_some.mp h
  have hne : str "name" ≠ str "location" ∧ str "name" ≠ str "type" := by decide
  simp [change, DeviceConfig.assign, hne]

/-- No other writer changes the location. -/
theorem change_location (hpath : w.path = some config.address)
    (h : w.setting (str "location") config.address = none) :
    (w.change existed config).location = config.location := by
  cases w with
  | configSet address field value =>
    simp only [path] at hpath
    split_ifs at hpath
    have hne : field ≠ str "location" := by
      rintro rfl
      simp [setting, ok_of_toOption hpath] at h
    simp only [change, DeviceConfig.assign, if_neg hne]
    split_ifs <;> rfl
  | scanned target => rfl
  | connected address sessionName => rfl
  | framed mac => rfl

/-- No other writer changes the type in a file. -/
theorem change_type (hpath : w.path = some config.address)
    (h : w.setting (str "type") config.address = none) :
    (w.change true config).type = config.type := by
  cases w with
  | configSet address field value =>
    simp only [path] at hpath
    split_ifs at hpath
    have hne : field ≠ str "type" := by
      rintro rfl
      simp [setting, ok_of_toOption hpath] at h
    simp only [change, DeviceConfig.assign, if_neg hne]
    split_ifs <;> rfl
  | scanned target => simp [change, DeviceConfig.fill]
  | connected address sessionName => simp [change, DeviceConfig.fill]
  | framed mac => rfl

/-- No other writer changes a name in a file. -/
theorem change_name (hpath : w.path = some config.address)
    (h : w.setting (str "name") config.address = none) (hname : config.name ≠ []) :
    (w.change true config).name = config.name := by
  cases w with
  | configSet address field value =>
    simp only [path] at hpath
    split_ifs at hpath
    have hne : field ≠ str "name" := by
      rintro rfl
      simp [setting, ok_of_toOption hpath] at h
    simp only [change, DeviceConfig.assign, if_neg hne]
    split_ifs <;> rfl
  | scanned target => simp [change, DeviceConfig.fill, hname]
  | connected address sessionName => simp [change, DeviceConfig.fill]
  | framed mac => rfl

end ConfigWrite

/-- A config has what was given to the device, and what was given to it is in a file. -/
structure Remembers (writes : List ConfigWrite) (store : DeviceConfigStore)
    (config : DeviceConfig) : Prop where
  location : config.location =
    orDefault ((lastSetting (str "location") config.address writes).getD []) defaultLocation
  type : ∀ value, lastSetting (str "type") config.address writes = some value →
    store.files.get? config.address ≠ none ∧ config.type = orDefault value defaultDeviceType
  name : ∀ value, lastSetting (str "name") config.address writes = some value → value ≠ [] →
    store.files.get? config.address ≠ none ∧ config.name = value

open DeviceConfigStore ConfigWrite

variable {store : DeviceConfigStore} {writes : List ConfigWrite} {config : DeviceConfig}
  {w : ConfigWrite}

/-- A writer to this config. -/
theorem Remembers.write (h : Remembers writes store config)
    (hpath : w.path = some config.address) :
    let config' := w.change (store.files.get? config.address).isSome config
    Remembers (writes ++ [w]) (store.write interp config') config' := by
  intro config'
  have haddress : config'.address = config.address := change_address _ w config
  have hfile : (store.write interp config').files.get? config'.address ≠ none := by
    rw [DeviceConfigStore.write, Dict.get?_set_self]
    exact Option.some_ne_none _
  constructor
  · rw [haddress, lastSetting_concat]
    cases hset : w.setting (str "location") config.address with
    | some value => exact change_location_of_setting hset
    | none => exact (change_location hpath hset).trans h.location
  · intro value hlast
    refine ⟨hfile, ?_⟩
    rw [haddress, lastSetting_concat] at hlast
    cases hset : w.setting (str "type") config.address with
    | some value' =>
      rw [hset, Option.some_or, Option.some.injEq] at hlast
      exact hlast ▸ change_type_of_setting hset
    | none =>
      rw [hset, Option.none_or] at hlast
      obtain ⟨hsome, htype⟩ := h.type value hlast
      simp only [config', Option.isSome_iff_ne_none.mpr hsome]
      exact (change_type hpath hset).trans htype
  · intro value hlast hne
    refine ⟨hfile, ?_⟩
    rw [haddress, lastSetting_concat] at hlast
    cases hset : w.setting (str "name") config.address with
    | some value' =>
      rw [hset, Option.some_or, Option.some.injEq] at hlast
      exact hlast ▸ change_name_of_setting hset
    | none =>
      rw [hset, Option.none_or] at hlast
      obtain ⟨hsome, hname⟩ := h.name value hlast hne
      simp only [config', Option.isSome_iff_ne_none.mpr hsome]
      exact (change_name hpath hset (hname ▸ hne)).trans hname

/-- A writer to another config, or none. -/
theorem Remembers.frame {store' : DeviceConfigStore} (h : Remembers writes store config)
    (hsame : store'.files.get? config.address = store.files.get? config.address)
    (hpath : w.path ≠ some config.address) : Remembers (writes ++ [w]) store' config := by
  have hlast : ∀ field ∈ fields, lastSetting field config.address (writes ++ [w]) =
      lastSetting field config.address writes := by
    intro field hfield
    rw [lastSetting_concat, setting_of_path_ne hfield hpath, Option.none_or]
  constructor
  · rw [hlast _ (by decide)]
    exact h.location
  · rw [hlast _ (by decide), hsame]
    exact h.type
  · rw [hlast _ (by decide), hsame]
    exact h.name

/-- From an empty directory, by writers whose texts can be encoded, every config is readable and
    has what was given to the device. -/
theorem written_remembers (writes : List ConfigWrite) (hw : ∀ w ∈ writes, w.Encodable) :
    Own interp (written interp writes) ∧ ∀ path, normalizeMac path = .ok path →
      ∃ config : DeviceConfig, config.address = path ∧
        Holds interp (written interp writes) config ∧
          Remembers writes (written interp writes) config := by
  induction writes using List.reverseRecOn with
  | nil =>
    refine ⟨Own.empty interp, ?_⟩
    intro path hpath
    refine ⟨{ address := path }, rfl, .absent rfl hpath rfl, ⟨rfl, ?_, ?_⟩⟩
    · rintro value ⟨⟩
    · rintro value ⟨⟩
  | append_singleton writes w ih =>
    obtain ⟨hown, hall⟩ := ih fun v hv => hw v (List.mem_append_left _ hv)
    have hstep : written interp (writes ++ [w]) = (w.apply interp (written interp writes)).1 := by
      rw [written, written, List.foldl_append]
      rfl
    rw [hstep]
    refine ⟨apply_own interp hown w, ?_⟩
    intro path hpath
    obtain ⟨config, rfl, hholds, hremembers⟩ := hall path hpath
    by_cases hmine : w.path = some config.address
    · have hfilled := change_filled (hholds.filled interp)
        ((written interp writes).files.get? config.address).isSome w
      have hencodable := change_encodable (hholds.encodable interp)
        (hw w (List.mem_append_right _ (List.mem_singleton_self w)))
        ((written interp writes).files.get? config.address).isSome
      rw [apply_of_holds interp hholds hmine, save_record interp _ hfilled]
      exact ⟨_, change_address _ w config, write_holds interp _ hfilled hencodable,
        hremembers.write interp hmine⟩
    · have hsame := apply_get?_of_ne interp hown hmine
      exact ⟨config, rfl, hholds.congr interp hsame, hremembers.frame hsame hmine⟩

/-- CORRECT: whatever scans, connect requests, frames and `config.set` requests write, in any order
    from an empty directory, the config of a device has the location and the type last set, the
    name last set unless that is empty, and the location `undefined` if none was set. -/
theorem settings_kept (writes : List ConfigWrite) (hw : ∀ w ∈ writes, w.Encodable)
    {address path : Str} (haddress : normalizeMac address = .ok path) :
    ∃ record, (written interp writes).load interp address = .ok record ∧
      (∀ value, lastSetting (str "location") path writes = some value →
        record.location = .str (orDefault value (str "undefined"))) ∧
      (lastSetting (str "location") path writes = none → record.location = .str (str "undefined")) ∧
      (∀ value, lastSetting (str "type") path writes = some value →
        record.type = .str (orDefault value defaultDeviceType)) ∧
      (∀ value, lastSetting (str "name") path writes = some value → value ≠ [] →
        record.name = .str value) := by
  obtain ⟨config, rfl, hholds, hremembers⟩ :=
    (written_remembers interp writes hw).2 path (normalizeMac_idem haddress)
  refine ⟨config.record, load_of_holds interp hholds haddress, ?_, ?_, ?_, ?_⟩
  · intro value hlast
    have hlocation := hremembers.location
    rw [hlast] at hlocation
    exact congrArg Value.str hlocation
  · intro hlast
    have hlocation := hremembers.location
    rw [hlast] at hlocation
    exact congrArg Value.str hlocation
  · exact fun value hlast => congrArg Value.str (hremembers.type value hlast).2
  · exact fun value hlast hne => congrArg Value.str (hremembers.name value hlast hne).2

/-- An operator puts a device in the kitchen and clears its type before it is ever seen; scans, a
    connect request and a frame follow. -/
def kitchenRun : List ConfigWrite :=
  [.configSet (str "aa-bb-cc-dd-ee-01") (str "location") (str "kitchen"),
    .configSet (str "AABBCCDDEE01") (str "type") [],
    .scanned (.device (str "AA:BB:CC:DD:EE:01") (some (str "DE&N"))),
    .configSet (str "AA:BB:CC:DD:EE:01") (str "name") (str "stove"),
    .connected (str "AA:BB:CC:DD:EE:01") (str "other"),
    .framed (str "AA:BB:CC:DD:EE:01")]

theorem kitchenRun_kept :
    (∀ w ∈ kitchenRun, w.Encodable) ∧ ∃ record,
      (written freshInterpreter kitchenRun).load freshInterpreter (str "AA:BB:CC:DD:EE:01") =
        .ok record ∧ record.location = .str (str "kitchen") ∧
          record.type = .str defaultDeviceType ∧ record.name = .str (str "stove") := by
  have hw : ∀ w ∈ kitchenRun, w.Encodable := by decide
  obtain ⟨record, hload, hlocation, _, htype, hname⟩ := settings_kept freshInterpreter kitchenRun hw
    (by decide : normalizeMac (str "AA:BB:CC:DD:EE:01") = .ok (str "AA:BB:CC:DD:EE:01"))
  exact ⟨hw, record, hload, hlocation (str "kitchen") (by decide), htype [] (by decide),
    hname (str "stove") (by decide) (by decide)⟩

end SlimHub
