import SlimHub.Events
import SlimHub.Lib.Json

/-! The files that the raw data logger writes.

        data/<location>/<type>/<MAC>/inference/rawdata/YYYY-MM-DD.txt     CSV, one row an event
        data/<location>/<type>/<MAC>/inference/debugstr/YYYY-MM-DD.txt    text, one line an alert

    A write works on the file system and may raise on the way: the timestamp may be out of range,
    the path may hold a NUL, an alert may be a JSON object that cannot be written, and the operating
    system may refuse a call. -/

namespace SlimHub.Logging
open Text Nus

structure DateTime where
  year : ℕ
  month : ℕ
  day : ℕ
  hour : ℕ
  minute : ℕ
  second : ℕ
  deriving DecidableEq

namespace DateTime

/-- `strftime("%Y-%m-%d")`; the time is later than the year 999, so `%Y` has four digits. -/
def dateText (self : DateTime) : Str :=
  padded 4 self.year ++ str "-" ++ padded 2 self.month ++ str "-" ++ padded 2 self.day

/-- `strftime("%Y-%m-%d %H:%M:%S")`. -/
def timeText (self : DateTime) : Str :=
  self.dateText ++ str " " ++ padded 2 self.hour ++ str ":" ++ padded 2 self.minute ++ str ":" ++
    padded 2 self.second

end DateTime

/-- What the logger takes from the machine it runs on: local time (`datetime.fromtimestamp`), the
    text of a float, the interpreter's nesting limits, and which system calls are refused. -/
structure Host where
  fromtimestamp : ℚ → Except PyError DateTime
  floatRepr : Str → Str
  loadsDepth : ℕ
  dumpsDepth : ℕ
  refuses : ℕ → Option ℕ

/-- An operation on the file system that may raise. -/
abbrev Disk := ExceptT PyError (StateM Files.FS)

def fileError : Files.Fault → PyError
  | .nul => ⟨.valueError, [.lit "embedded null byte"]⟩
  | .encoding => ⟨.unicodeEncodeError, [.lit "surrogates not allowed"]⟩
  | .os => ⟨.osError, []⟩

/-- `fuel` does not occur (`Json.loads_ne_fuel`). -/
def jsonError : Json.Fault → PyError
  | .notJson => ⟨.jsonDecodeError, []⟩
  | .depth => ⟨.recursionError, [.lit "maximum recursion depth exceeded"]⟩
  | .digits => ⟨.valueError,
      [.lit "Exceeds the limit (", .int Json.maxIntDigits,
        .lit " digits) for integer string conversion"]⟩
  | .fuel => ⟨.recursionError, []⟩

def onDisk {α : Type} (op : Files.Op α) : Disk α := ExceptT.adapt fileError op

/-- `text.encode("utf-8")`. -/
def encode (text : Str) : Disk Bytes :=
  match utf8Encode text with
  | none => throw ⟨.unicodeEncodeError, [.lit "surrogates not allowed"]⟩
  | some bytes => return bytes

def soundClasslist : List Str :=
  [str "background", str "hitting", str "speech_tv", str "air_appliances", str "brushing",
    str "peeing", str "flushing", str "flush_end", str "microwave", str "cooking",
    str "watering_low", str "watering_high"]

def csvFields : List Str :=
  [str "time", str "GridEye", str "Direction", str "ENV", str "temp", str "humid", str "iaq",
    str "eco2", str "bvoc", str "SOUND"] ++ soundClasslist

/-! ### Paths -/

section
variable (host : Host) (paths : AppPaths)

/-- The file of a day in one of a device's two folders. -/
def pathIn (folder : Str) (timestamp : ℚ) (mac location deviceType : Str) :
    Except PyError Files.Path := do
  let timestamp ← host.fromtimestamp timestamp
  let location := orDefault location defaultLocation
  let mac ← normalizeMac mac
  let deviceType := orDefault deviceType defaultDeviceType
  return [location, deviceType, mac, str "inference", folder,
    timestamp.dateText ++ str ".txt"].foldl Files.join paths.dataDir

def pathFor (event : RawDataEvent) : Except PyError Files.Path :=
  pathIn host paths (str "rawdata") event.timestamp event.mac event.location event.deviceType

def alertPathFor (event : AlertEvent) : Except PyError Files.Path :=
  pathIn host paths (str "debugstr") event.timestamp event.mac event.location event.deviceType

/-! ### Rows -/

/-- The nearest natural number, ties to even. -/
def roundHalfEven (q : ℚ) : ℕ :=
  let n := q.floor.toNat
  if q - n < 1 / 2 then n else if q - n > 1 / 2 then n + 1 else if n % 2 = 0 then n else n + 1

/-- `f"{q:.2f}"`. -/
def fixed2 (q : ℚ) : Str :=
  let n := roundHalfEven (|q| * 100)
  (if q < 0 then str "-" else []) ++ natText (n / 100) ++ str "." ++ padded 2 (n % 100)

/-- `repr((value + 128) / 256)`, where `value` is a signed byte: at most eight decimals. -/
def soundText (value : ℤ) : Str :=
  let m := value + 128
  let decimals := (padded 8 (m.natAbs % 256 * 390625)).rdropWhile (· = chr '0')
  (if m < 0 then str "-" else []) ++ natText (m.natAbs / 256) ++ str "." ++
    if decimals = [] then str "0" else decimals

/-- The row's values in the order of `csvFields`. -/
def rowFor (event : RawDataEvent) : Except PyError (List Str) := do
  let timestamp ← host.fromtimestamp event.timestamp
  let packet := event.packet
  let sound := packet.sound.take soundClasslist.length
  let sound := sound ++ List.replicate (soundClasslist.length - sound.length) 0
  return [timestamp.timeText, intText packet.flagHumanPresence, intText packet.detected,
    intText packet.flagEnv, fixed2 packet.temperatureC, intText packet.humidity,
    intText packet.iaq, intText packet.eco2, intText packet.bvoc,
    intText packet.flagSound] ++ sound.map soundText

/-- A line of the `csv` module. No value here needs quotes. -/
def csvLine (fields : List Str) : Str := (str ",").intercalate fields ++ [0x0D, 0x0A]

/-! ### Lines -/

/-- `str.isspace` on one character. -/
def isSpace (c : CodePoint) : Bool :=
  (9 ≤ c.val ∧ c.val ≤ 13) ∨ (0x1C ≤ c.val ∧ c.val ≤ 0x20) ∨ c.val = 0x85 ∨ c.val = 0xA0 ∨
    c.val = 0x1680 ∨ (0x2000 ≤ c.val ∧ c.val ≤ 0x200A) ∨ c.val = 0x2028 ∨ c.val = 0x2029 ∨
      c.val = 0x202F ∨ c.val = 0x205F ∨ c.val = 0x3000

def alertLineFor (event : AlertEvent) : Except PyError Str := do
  let timestamp ← host.fromtimestamp event.timestamp
  let timestampText := timestamp.timeText
  let message := event.packet.message
  match Json.loads host.loadsDepth message with
  | .error .notJson => return timestampText ++ str "," ++ message.rdropWhile (· = 0x0A)
  | .error fault => throw (jsonError fault)
  | .ok (.obj members) =>
    let payload := Dict.put (str "timestamp") (.str timestampText) members
    (Json.dumps host.floatRepr host.dumpsDepth (.obj payload)).mapError jsonError
  | .ok _ => return timestampText ++ str "," ++ message.rdropWhile isSpace

/-! ### Writes -/

def writeEvent (event : RawDataEvent) : Disk Unit := do
  let path ← ExceptT.mk (return pathFor host paths event)
  onDisk (Files.mkdirs host.refuses (Files.parent path))
  let needsHeader ← do
    if (← onDisk (Files.stat host.refuses path)).isNone then pure true
    else pure ((← onDisk (Files.stat host.refuses path)) == some (.file []))
  onDisk (Files.openAppend host.refuses path)
  let header := if needsHeader then csvLine csvFields else []
  let row ← ExceptT.mk (return rowFor host event)
  onDisk (Files.append host.refuses path (← encode (header ++ csvLine row)))

def writeAlert (event : AlertEvent) : Disk Unit := do
  let path ← ExceptT.mk (return alertPathFor host paths event)
  onDisk (Files.mkdirs host.refuses (Files.parent path))
  onDisk (Files.openAppend host.refuses path)
  let line ← ExceptT.mk (return alertLineFor host event)
  onDisk (Files.append host.refuses path (← encode (line ++ [0x0A])))

end

end SlimHub.Logging
