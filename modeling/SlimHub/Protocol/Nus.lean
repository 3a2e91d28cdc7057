import SlimHub.Errors
import SlimHub.Lib.Struct

/-! The NUS wire format.

        [MAC address 6B][Packet Type 8B][Packet Length uint16 LE][Packet Data][End FLAG 0D 0A]

    `buildFrame` writes a frame, `parseFrame` reads one and raises `PacketParseError` on every
    byte string that is not an inbound frame. MAC addresses are compared by their text:
    `normalizeMac` keeps the hexadecimal digits of any string and renders twelve of them as
    `AA:BB:CC:DD:EE:FF`. -/

namespace SlimHub.Nus
open Text

def endFlag : Bytes := [0x0d, 0x0a]
def macLen : ℕ := 6
def packetTypeLen : ℕ := 8
def packetLenLen : ℕ := 2
def headerLen : ℕ := macLen + packetTypeLen + packetLenLen
def endFlagLen : ℕ := endFlag.length
def rawdataPayloadLen : ℕ := 33
def maxFrameLen : ℤ := 4096

@[simp] theorem macLen_eq : macLen = 6 := rfl
@[simp] theorem packetTypeLen_eq : packetTypeLen = 8 := rfl
@[simp] theorem packetLenLen_eq : packetLenLen = 2 := rfl
@[simp] theorem headerLen_eq : headerLen = 16 := rfl
@[simp] theorem endFlagLen_eq : endFlagLen = 2 := rfl
@[simp] theorem length_endFlag : endFlag.length = 2 := rfl

def defaultDeviceName : Str := str "DEAN_NODE_V2"

def validCommands : List Str :=
  [str "strong_enter", str "strong_exit", str "weak_enter", str "weak_exit", str "default_action",
    str "enter", str "exit"]

def commandAliases : List (Str × Str) :=
  [(str "enter", str "strong_enter"), (str "exit", str "strong_exit")]

/-- The fields of a RAWDATA payload. `temperatureC` is the exact quotient of the raw value. -/
structure RawDataPacket where
  flagHumanPresence : ℤ
  detected : ℤ
  flagEnv : ℤ
  temperatureC : ℚ
  humidity : ℤ
  iaq : ℤ
  eco2 : ℤ
  bvoc : ℤ
  accuracy : ℤ
  flagSound : ℤ
  sound : List ℤ
  isPirHumanDetectionEvent : Bool
  deriving DecidableEq

structure AlertPacket where
  message : Str
  deriving DecidableEq

inductive Parsed where
  | rawData (packet : RawDataPacket)
  | alert (packet : AlertPacket)
  deriving DecidableEq

structure ParsedFrame where
  mac : Str
  macBytes : Bytes
  packetType : Str
  packetLength : ℕ
  payload : Bytes
  parsed : Parsed
  deriving DecidableEq

/-! ### MAC addresses -/

/-- `s[i : i + 2] for i in range(0, len(s), 2)`. -/
def pairs : Str → List Str
  | [] => []
  | [c] => [[c]]
  | c :: d :: rest => [c, d] :: pairs rest

/-- The separator of a MAC text. -/
def colon : CodePoint := chr ':'

def compact (mac : Str) : Str := mac.filter isHexDigit

def normalizeMac (mac : Str) : Except PyError Str :=
  if (compact mac).length ≠ macLen * 2 then
    .error ⟨.valueError, [.lit "invalid MAC address: ", .repr mac]⟩
  else .ok ([colon].intercalate ((pairs (compact mac)).map (·.map upper)))

/-- The parts of a normalised MAC are pairs of hexadecimal digits, so `int(part, 16)` reads them. -/
def macToBytes (mac : Str) : Except PyError Bytes := do
  let normalized ← normalizeMac mac
  return (normalized.splitOn colon).map fun part => UInt8.ofNat (hexNat part)

/-- `":".join(f"{byte:02X}" for byte in mac_bytes)`. -/
def macText (macBytes : Bytes) : Str := [colon].intercalate (macBytes.map hexByte)

/-! ### Encoding -/

def packetTypeBytes (packetType : Str) : Except PyError Bytes :=
  match asciiEncode packetType with
  | none => .error ⟨.unicodeEncodeError, [.repr packetType]⟩
  | some raw =>
    if raw.length > packetTypeLen then
      .error ⟨.valueError,
        [.lit "packet type is longer than ", .int packetTypeLen, .lit " bytes"]⟩
    else .ok (raw ++ List.replicate (packetTypeLen - raw.length) 0)

def buildFrame (mac packetType : Str) (payload : Bytes) : Except PyError Bytes := do
  if payload.length > 0xFFFF then
    throw ⟨.valueError, [.lit "payload is too large for uint16 length"]⟩
  let macBytes ← macToBytes mac
  let typeBytes ← packetTypeBytes packetType
  return macBytes ++ typeBytes ++ toLittle packetLenLen payload.length ++ payload ++ endFlag

def validateCommand (command : Str) : Except PyError Str :=
  if command ∉ validCommands then
    .error ⟨.valueError,
      [.lit "command must be one of: strong_enter, strong_exit, weak_enter, weak_exit, default_action, enter, exit"]⟩
  else .ok ((commandAliases.lookup command).getD command)

/-- Command texts are ASCII, where UTF-8 and ASCII agree. -/
def buildCommandFrame (mac command : Str) : Except PyError Bytes := do
  let validated ← validateCommand command
  match utf8Encode validated with
  | none => throw ⟨.unicodeEncodeError, [.repr validated]⟩
  | some payload => buildFrame mac (str "COMMAND") payload

/-! ### Decoding -/

/-- `"<BB7HB16b"`. -/
def rawdataFormat : List Struct.Code :=
  [.B, .B] ++ List.replicate 7 .H ++ [.B] ++ List.replicate 16 .b

def parseRawdata (payload : Bytes) : Except PyError RawDataPacket :=
  if payload.length ≠ rawdataPayloadLen then
    .error ⟨.packetParseError,
      [.lit "RAWDATA payload length mismatch: expected ", .int rawdataPayloadLen, .lit ", got ",
        .int payload.length]⟩
  else
    match Struct.unpack rawdataFormat payload with
    | none => .error ⟨.structError, [.lit "unpack requires a buffer of 33 bytes"]⟩
    | some unpacked =>
      -- the tuple has 26 entries, so no default is ever taken
      let field (i : ℕ) : ℤ := unpacked.getD i 0
      let sound := unpacked.drop 10
      let remainingFieldsAreZero : Bool :=
        field 2 = 0 ∧ field 3 = 0 ∧ field 4 = 0 ∧ field 5 = 0 ∧ field 6 = 0 ∧ field 7 = 0 ∧
          field 8 = 0 ∧ field 9 = 0 ∧ ∀ value ∈ sound, value = 0
      .ok
        { flagHumanPresence := field 0
          detected := field 1
          flagEnv := field 2
          temperatureC := field 3 / 100
          humidity := field 4
          iaq := field 5
          eco2 := field 6
          bvoc := field 7
          accuracy := field 8
          flagSound := field 9
          sound := sound
          isPirHumanDetectionEvent := field 0 = 1 ∧ field 1 = 1 ∧ remainingFieldsAreZero }

def parseAlert (payload : Bytes) : AlertPacket := ⟨utf8DecodeReplace payload⟩

/-- `raw.rstrip(b"\x00")`. -/
def rstripNul (raw : Bytes) : Bytes := raw.rdropWhile (· == 0)

/-- The declared payload length at the front of a buffer: bytes 14 and 15. -/
def packetLengthAt (data : Bytes) : ℕ :=
  fromLittle ((data.drop (macLen + packetTypeLen)).take packetLenLen)

def parseFrame (data : Bytes) : Except PyError ParsedFrame :=
  if data.length < headerLen + endFlagLen then
    .error ⟨.packetParseError,
      [.lit "frame too short: expected at least ", .int (headerLen + endFlagLen : ℕ), .lit ", got ",
        .int data.length]⟩
  else
    let macBytes := data.take macLen
    let rawPacketType := (data.drop macLen).take packetTypeLen
    let packetLength := packetLengthAt data
    let expectedLen := headerLen + packetLength + endFlagLen
    if data.length ≠ expectedLen then
      .error ⟨.packetParseError,
        [.lit "packet length mismatch: expected frame ", .int expectedLen, .lit " bytes, got ",
          .int data.length, .lit " bytes"]⟩
    else
      let tail := data.drop (data.length - endFlagLen)
      if tail ≠ endFlag then
        .error ⟨.packetParseError,
          [.lit "end flag mismatch: expected ", .hex endFlag, .lit ", got ", .hex tail]⟩
      else
        match asciiDecode (rstripNul rawPacketType) with
        | none =>
          .error ⟨.packetParseError,
            [.lit "packet type is not valid ASCII: ", .hex rawPacketType]⟩
        | some packetType =>
          let payload := (data.drop headerLen).take packetLength
          let frame (parsed : Parsed) : ParsedFrame :=
            { mac := macText macBytes, macBytes, packetType, packetLength, payload, parsed }
          if packetType = str "RAWDATA" then
            (parseRawdata payload).map fun packet => frame (.rawData packet)
          else if packetType = str "ALERT" then
            .ok (frame (.alert (parseAlert payload)))
          else
            .error ⟨.packetParseError, [.lit "unknown packet type: ", .repr packetType]⟩

end SlimHub.Nus
