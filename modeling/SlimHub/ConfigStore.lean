import SlimHub.Config
import SlimHub.Lib.Balance

/-! The config stores: one file for the hub, one for every device.

    A store is the bytes of its files. Reading decodes and parses them, and takes whatever JSON the
    fields hold; writing truncates the file first and then encodes chunk by chunk, so that a value
    that cannot be written leaves the file cut short. The operating system refuses nothing here. -/

namespace SlimHub
open Text Nus Json

/-- What the stores take from the interpreter and the machine: how a float is written and which
    floats are zero, `repr` in a message, how deeply `json.load`, `asdict` and `json.dump` recurse,
    and `uuid.getnode()`. -/
structure Interpreter where
  floatRepr : Str → Str
  floatIsZero : Str → Bool
  valueRepr : Value → Str
  readDepth : ℕ
  copyDepth : ℕ
  writeDepth : ℕ
  node : ℕ
  floatRepr_plain : ∀ s, ∀ c ∈ floatRepr s, isPlain c = true
  floatRepr_clean : ∀ s, noSurrogate (floatRepr s) = true
  readDepth_pos : 0 < readDepth
  writeDepth_pos : 0 < writeDepth

variable (interp : Interpreter)

def getMacAddress : Str := macText ([40, 32, 24, 16, 8, 0].map fun shift =>
  UInt8.ofNat (interp.node >>> shift))

/-! ### Values -/

/-- `bool(value)`. -/
def truthy : Value → Bool
  | .null => false
  | .bool b => b
  | .int n => n ≠ 0
  | .float s => !interp.floatIsZero s
  | .str s => s ≠ []
  | .arr items => !items.isEmpty
  | .obj members => !members.isEmpty

/-- `value or default`. -/
def orElse (value default : Value) : Value := if truthy interp value then value else default

/-- `type(value).__name__`. -/
def typeName : Value → String
  | .null => "NoneType"
  | .bool _ => "bool"
  | .int _ => "int"
  | .float _ => "float"
  | .str _ => "str"
  | .arr _ => "list"
  | .obj _ => "dict"

/-- `"".join(ch for ch in items if ch in string.hexdigits)`: `in` asks for a substring. -/
def compactItems : List Value → Except PyError Str
  | [] => .ok []
  | .str s :: items => do
    let rest ← compactItems items
    return if s <:+: hexdigits then s ++ rest else rest
  | item :: _ => .error ⟨.typeError,
      [.lit "'in <string>' requires string as left operand, not ", .lit (typeName item)]⟩

/-- `normalize_mac` on a list, or on the keys of an object. -/
def normalizeItems (value : Value) (items : List Value) : Except PyError Str :=
  match compactItems items with
  | .error exc => .error exc
  | .ok compacted => (normalizeMac compacted).mapError fun _ =>
    ⟨.valueError, [.lit "invalid MAC address: ", .str (interp.valueRepr value)]⟩

/-- `normalize_mac` on what a file has as an address. -/
def normalizeMacValue : Value → Except PyError Str
  | .str mac => normalizeMac mac
  | .arr items => normalizeItems interp (.arr items) items
  | .obj members => normalizeItems interp (.obj members) (members.map fun m => .str m.1)
  | value =>
    .error ⟨.typeError, [.lit "'", .lit (typeName value), .lit "' object is not iterable"]⟩

/-- `data.get(key, default)`. -/
def getMember (members : List (Str × Value)) (key : String) (default : Value) : Value :=
  (Dict.find (str key) members).getD default

/-- `json.load(f)` on a file with this content, then its attribute `get`. The messages of the
    library's own exceptions are left out. -/
def readMembers (content : Bytes) : Except PyError (List (Str × Value)) :=
  match utf8Decode content with
  | none => .error ⟨.unicodeDecodeError, []⟩
  | some text =>
    match loads interp.readDepth text with
    | .ok (.obj members) => .ok members
    | .ok value =>
      .error ⟨.attributeError, [.lit "'", .lit (typeName value), .lit "' object has no attribute 'get'"]⟩
    | .error .depth => .error ⟨.recursionError, []⟩
    | .error .digits => .error ⟨.valueError, []⟩
    | .error _ => .error ⟨.jsonDecodeError, []⟩

/-- `json.dump(asdict(config), f, indent=4, ensure_ascii=False)` and `f.write("\n")` on a file that
    was just truncated: its content afterwards, and what was raised. -/
def writeMembers (members : List (Str × Value)) : Bytes × Option PyError :=
  if membersNesting members > interp.copyDepth then ([], some ⟨.recursionError, []⟩)
  else
    let written := dumpLine interp.floatRepr interp.writeDepth (.obj members)
    (written.1, written.2.map fun fault =>
      match fault with
      | .encoder _ => ⟨.recursionError, []⟩
      | .encoding text => ⟨.unicodeEncodeError, [.repr text]⟩)

/-! ### The hub's config -/

/-- A `HubConfig`; a file may hold any JSON in its fields. -/
structure HubConfig where
  address : Value
  type : Value := .str (str "slimhub")
  owner : Value := .null
  name : Value := .null

def HubConfig.members (self : HubConfig) : List (Str × Value) :=
  [(str "address", self.address), (str "type", self.type), (str "owner", self.owner),
    (str "name", self.name)]

/-- The content of the hub's config file, if it is there. -/
structure HubConfigStore where
  file : Option Bytes
  deriving DecidableEq

namespace HubConfigStore

def save (config : HubConfig) : HubConfigStore × Except PyError HubConfig :=
  let written := writeMembers interp config.members
  (⟨some written.1⟩, match written.2 with | none => .ok config | some exc => .error exc)

def loadOrCreate (self : HubConfigStore) : HubConfigStore × Except PyError HubConfig :=
  match self.file with
  | none => save interp { address := .str (getMacAddress interp) }
  | some content =>
    (self, (readMembers interp content).map fun data =>
      { address := orElse interp (getMember data "address" .null) (.str (getMacAddress interp))
        type := orElse interp (getMember data "type" .null) (.str (str "slimhub"))
        owner := getMember data "owner" .null
        name := getMember data "name" .null })

def fields : List Str := [str "address", str "type", str "owner", str "name"]

/-- `setattr(config, field, value)`. -/
def assign (config : HubConfig) (field value : Str) : HubConfig :=
  if field = str "address" then { config with address := .str value }
  else if field = str "type" then { config with type := .str value }
  else if field = str "owner" then { config with owner := .str value }
  else if field = str "name" then { config with name := .str value }
  else config

def setField (self : HubConfigStore) (field value : Str) :
    HubConfigStore × Except PyError HubConfig :=
  if ¬fields.contains field then
    (self, .error ⟨.valueError,
      [.lit "hub config field must be one of: address, type, owner, name"]⟩)
  else
    match self.loadOrCreate interp with
    | (self, .error exc) => (self, .error exc)
    | (_, .ok config) => save interp (assign config field value)

end HubConfigStore

/-! ### The devices' configs -/

/-- A `DeviceConfig` as it is read from a file: but for the address, its fields may hold any
    JSON. -/
structure DeviceRecord where
  address : Str
  type : Value
  name : Value
  location : Value

namespace DeviceRecord

/-- `DeviceConfig(...)` with its `__post_init__`. -/
def new (address type name location : Value) : Except PyError DeviceRecord := do
  let address ← normalizeMacValue interp address
  return {
    address
    type := orElse interp type (.str defaultDeviceType)
    name
    location := orElse interp location (.str defaultLocation) }

def members (self : DeviceRecord) : List (Str × Value) :=
  [(str "address", .str self.address), (str "type", self.type), (str "name", self.name),
    (str "location", self.location)]

end DeviceRecord

/-- The content of the device config files, each under its name without `.json`. -/
structure DeviceConfigStore where
  files : Dict Str Bytes
  deriving DecidableEq

namespace DeviceConfigStore

variable (self : DeviceConfigStore)

/-- The record of a file with this content; `stem` stands in for an address that is not there. -/
def readRecord (stem : Str) (content : Bytes) : Except PyError DeviceRecord := do
  let data ← readMembers interp content
  DeviceRecord.new interp (getMember data "address" (.str stem))
    (getMember data "type" (.str defaultDeviceType)) (getMember data "name" (.str []))
    (getMember data "location" (.str defaultLocation))

def load (address : Str) : Except PyError DeviceRecord := do
  let normalized ← normalizeMac address
  let path ← normalizeMac normalized
  match self.files.get? path with
  | none =>
    DeviceRecord.new interp (.str normalized) (.str defaultDeviceType) (.str [])
      (.str defaultLocation)
  | some content => readRecord interp normalized content

def save (config : DeviceRecord) : DeviceConfigStore × Except PyError DeviceRecord :=
  match normalizeMac config.address with
  | .error exc => (self, .error exc)
  | .ok address =>
    let config := { config with
      address
      type := orElse interp config.type (.str defaultDeviceType)
      location := orElse interp config.location (.str defaultLocation) }
    match normalizeMac config.address with
    | .error exc => (self, .error exc)
    | .ok path =>
      let written := writeMembers interp config.members
      (⟨self.files.set path written.1⟩,
        match written.2 with | none => .ok config | some exc => .error exc)

def fields : List Str := [str "type", str "name", str "location"]

/-- `setattr(config, field, value)`, with the default for an empty value. -/
def assign (config : DeviceRecord) (field value : Str) : DeviceRecord :=
  if field = str "location" then { config with location := .str (orDefault value defaultLocation) }
  else if field = str "type" then { config with type := .str (orDefault value defaultDeviceType) }
  else if field = str "name" then { config with name := .str value }
  else config

def setField (address field value : Str) : DeviceConfigStore × Except PyError DeviceRecord :=
  if ¬fields.contains field then
    (self, .error ⟨.valueError, [.lit "field must be 'type', 'name' or 'location'"]⟩)
  else
    match self.load interp address with
    | .error exc => (self, .error exc)
    | .ok config => self.save interp (assign config field value)

def ensure (address deviceType name : Str) : DeviceConfigStore × Except PyError DeviceRecord :=
  match normalizeMac address with
  | .error exc => (self, .error exc)
  | .ok path =>
    let existed := (self.files.get? path).isSome
    match self.load interp address with
    | .error exc => (self, .error exc)
    | .ok config =>
      let config :=
        if (¬existed ∨ ¬truthy interp config.type) ∧ deviceType ≠ [] then
          { config with type := .str deviceType }
        else config
      let config :=
        if (¬existed ∨ ¬truthy interp config.name) ∧ name ≠ [] then
          { config with name := .str name }
        else config
      self.save interp config

/-- `sorted(config_dir.glob("*.json"))`: by file name. -/
def sortedFiles : List (Str × Bytes) :=
  self.files.entries.mergeSort fun a b => a.1 ++ str ".json" ≤ b.1 ++ str ".json"

def listAll : Except PyError (List DeviceRecord) :=
  self.sortedFiles.mapM fun file => readRecord interp file.1 file.2

end DeviceConfigStore

end SlimHub
