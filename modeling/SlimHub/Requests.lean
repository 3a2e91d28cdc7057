import SlimHub.Lib.Compact
import SlimHub.Lib.LineReader
import SlimHub.RawTail
import SlimHub.Tasks

/-! A client's line, and the line it gets.

        line ──decode, loads──▶ request ──dispatch──▶ data │ exception ──dumps, encode──▶ line

    Reading and dispatching are inside the `try`, so whatever they raise becomes an answer; writing
    the answer down is outside of it. -/

namespace SlimHub
open Text Nus Json Ble Unitspace Asyncio LineReader

/-! ### Messages -/

/-- A message part holds no surrogate of its own; `repr` escapes them. -/
def Part.Clean : Part → Prop
  | .str s => noSurrogate s = true
  | _ => True

def PyError.Clean (exc : PyError) : Prop := ∀ part ∈ exc.message, part.Clean

/-- What requests and replies take from the interpreter besides: `repr` of a text, what the library's
    own exceptions say, `int` of a float or a text (or the class of what it raises), the text of a
    float, and how much deeper than four levels `json.dumps` goes. -/
structure Runtime extends Interpreter where
  strRepr : Str → Str
  libraryText : ExnClass → Str
  toInt : Value → Except ExnClass ℤ
  floatText : ℚ → Str
  innerDepth : ℕ
  valueRepr_clean : ∀ value, noSurrogate (valueRepr value) = true
  strRepr_clean : ∀ s, noSurrogate (strRepr s) = true
  libraryText_clean : ∀ cls, noSurrogate (libraryText cls) = true
  floatRepr_line : ∀ s, noNewline (floatRepr s) = true

variable (rt : Runtime)

def Runtime.replyDepth : ℕ := rt.innerDepth + 4

/-- `b.hex(" ")`. -/
def hexText (b : Bytes) : Str := (str " ").intercalate (b.map fun x =>
  (hexByte x).map fun c => if 65 ≤ c.val ∧ c.val ≤ 70 then c + 32 else c)

def partText : Part → Str
  | .lit s => str s
  | .str s => s
  | .repr s => rt.strRepr s
  | .int n => intText n
  | .hex b => hexText b

/-- An f-string. -/
def messageText (parts : List Part) : Str := parts.flatMap (partText rt)

/-- `str(exc)`. -/
def errorText (exc : PyError) : Str :=
  if exc.message = [] then rt.libraryText exc.cls else messageText rt exc.message

/-! ### Lines -/

/-- `(json.dumps(value, ensure_ascii=False) + "\n").encode("utf-8")`. -/
def encodeLine (value : Value) : Except PyError Bytes :=
  match dumps rt.floatRepr rt.replyDepth value with
  | .error _ => .error ⟨.recursionError, []⟩
  | .ok text =>
    match utf8Encode (text ++ [0x0A]) with
    | none => .error ⟨.unicodeEncodeError, []⟩
    | some bytes => .ok bytes

/-- `json.loads(line.decode("utf-8"))`. -/
def decodeLine (line : Bytes) : Except PyError Value :=
  match utf8Decode line with
  | none => .error ⟨.unicodeDecodeError, []⟩
  | some text =>
    match loads rt.readDepth text with
    | .ok value => .ok value
    | .error .depth => .error ⟨.recursionError, []⟩
    | .error .digits => .error ⟨.valueError, []⟩
    | .error _ => .error ⟨.jsonDecodeError, []⟩

/-- The `ValueError` that `readline` makes of an overrun. -/
def overrunError : Overrun → PyError
  | .found => ⟨.valueError, [.lit "Separator is found, but chunk is longer than limit"]⟩
  | .notFound => ⟨.valueError, [.lit "Separator is not found, and chunk exceed the limit"]⟩

/-! ### Requests -/

/-- `int(value)`. -/
def intOf : Value → Except PyError ℤ
  | .bool b => .ok (if b then 1 else 0)
  | .int n => .ok n
  | .float s => (rt.toInt (.float s)).mapError fun cls => ⟨cls, []⟩
  | .str s => (rt.toInt (.str s)).mapError fun cls => ⟨cls, []⟩
  | value => .error ⟨.typeError,
      [.lit "int() argument must be a string, a bytes-like object or a real number, not '",
        .lit (typeName value), .lit "'"]⟩

/-- `args[key]`. -/
def argument (args : List (Str × Value)) (key : String) : Except PyError Value :=
  match Dict.find (str key) args with
  | none => .error ⟨.other, [.repr (str key)]⟩
  | some value => .ok value

/-- `str(value)`. -/
abbrev textOf (value : Value) : Str := fieldText rt.toInterpreter value

/-- `request.get("args") or {}`. -/
def argsOf (request : List (Str × Value)) : Except PyError (List (Str × Value)) :=
  match getMember request "args" .null with
  | .obj args => .ok args
  | value =>
    if truthy rt.toInterpreter value then
      .error ⟨.valueError, [.lit "request args must be an object"]⟩
    else .ok []

def unknownCommand (command : Value) : Except PyError Request :=
  .error ⟨.valueError, [.lit "unknown command: ", .str (rt.valueRepr command)]⟩

section
variable (tail : Option Str → ℤ → Except PyError (List Str)) (args : List (Str × Value))

/-- A command with its arguments, as `dispatch` reads them; `tail` is `_tail_raw`. -/
def readCommand (command : Str) : Except PyError Request :=
  let get (key : String) : Value := getMember args key .null
  let textArgument (key : String) : Except PyError Str := (argument args key).map (textOf rt)
  if command = str "stop" then .ok .stop
  else if command = str "devices" then .ok .devices
  else if command = str "connect" then do return .connect (← textArgument "address")
  else if command = str "command.send" then .ok (.commandSend (get "address") (get "command"))
  else if command = str "config.set" then do
    return .configSet (← textArgument "address") (← textArgument "field") (← textArgument "value")
  else if command = str "config.apply" then .ok .configApply
  else if command = str "hub.config.set" then do
    return .hubConfigSet (← textArgument "field") (← textArgument "value")
  else if command = str "service" then
    .ok (.service (get "address") (get "action") (get "service")
      (match get "characteristic" with | .null => none | value => some value))
  else if command = str "reset" then .ok (.reset (get "address"))
  else if command = str "model" then
    .ok (.model (get "address") (textOf rt (getMember args "model_command" (.str []))))
  else if command = str "feature" then
    .ok (.feature (get "address") (textOf rt (getMember args "feature_command" (.str []))))
  else if command = str "file" then
    .ok (.file (get "address") (textOf rt (getMember args "file_path" (.str []))))
  else if command = str "unitspace.status" then .ok .unitspaceStatus
  else if command = str "raw.tail" then do
    let address := get "address"
    let lines ← intOf rt (getMember args "lines" (.int 20))
    return .other (tail (if truthy rt.toInterpreter address then some (textOf rt address)
      else none) lines)
  else unknownCommand rt (.str command)

end

/-- A JSON value as `dispatch` reads it. -/
def readRequest (tail : Option Str → ℤ → Except PyError (List Str)) :
    Value → Except PyError Request
  | .obj request => do
    let args ← argsOf rt request
    match getMember request "command" .null with
    | .str command => readCommand rt tail args command
    | command => unknownCommand rt command
  | value => .error ⟨.attributeError,
      [.lit "'", .lit (typeName value), .lit "' object has no attribute 'get'"]⟩

/-! ### Replies -/

def optional : Option Str → Value
  | none => .null
  | some s => .str s

/-- A field that a row may have. -/
def field (key : String) : Option Value → List (Str × Value)
  | none => []
  | some value => [(str key, value)]

/-- `status` of a session. -/
def statusValue (self : SessionStatus) : Value := .obj [
  (str "address", .str self.address), (str "name", .str self.name),
  (str "connected", .bool self.connected), (str "last_seen", .float (rt.floatText self.lastSeen)),
  (str "last_error", optional self.lastError),
  (str "waiting_for_advertisement", .bool self.waitingForAdvertisement),
  (str "queued_commands", .int self.queuedCommands)]

/-- The type comes third in the row of a config alone, and after the aliases in a session's. -/
def rowValue (self : DeviceRow) : Value := .obj <|
  [(str "address", .str self.address), (str "name", .str self.name)] ++
  (if self.aliases = none then field "type" self.type else []) ++
  [(str "connected", .bool self.connected), (str "last_seen", .float (rt.floatText self.lastSeen)),
    (str "last_error", optional self.lastError)] ++
  field "waiting_for_advertisement" (self.waitingForAdvertisement.map .bool) ++
  [(str "queued_commands", .int self.queuedCommands)] ++
  field "aliases" (self.aliases.map fun aliases => .arr (aliases.map .str)) ++
  field "packet_address" (self.packetAddress.map .str) ++
  field "configured_name" self.configuredName ++
  (if self.aliases = none then [] else field "type" self.type) ++
  field "location" self.location

def commandValue (self : CommandReply) : Value := .obj [
  (str "address", .str self.address), (str "command", .str self.command),
  (str "session", statusValue rt self.session)]

/-- `snapshot`. -/
def snapshot (self : UnitspaceStatus) : Value := .obj [
  (str "last_address", optional self.lastAddress),
  (str "last_location", optional self.lastLocation),
  (str "last_timestamp", .float (rt.floatText self.lastTimestamp))]

/-- The `data` of a reply as JSON. -/
def dataOf : Reply → Value
  | .stopping => .obj [(str "stopping", .bool true)]
  | .devices rows => .arr (rows.map (rowValue rt))
  | .session status => statusValue rt status
  | .command reply => commandValue rt reply
  | .config record => .obj record.members
  | .hubConfig hub => .obj hub.members
  | .text parts => .str (messageText rt parts)
  | .unitspace status => snapshot rt status
  | .lines lines => .obj [(str "lines", .arr (lines.map .str))]

/-- An object with the keys of a reply. -/
def envelope (ok : Bool) (data error : Value) : Value :=
  .obj [(str "ok", .bool ok), (str "data", data), (str "error", error)]

/-- `_ok`, or what the handler of exceptions makes. -/
def response : Except PyError Reply → Value
  | .ok reply => envelope true (dataOf rt reply) .null
  | .error exc => envelope false .null (.str (errorText rt exc))

/-! ### `_handle_client` -/

/-- What the handler did with its connection. -/
structure Connection where
  sent : Bytes := []
  closed : Bool := false

section
variable (paths : AppPaths) (mtime : Files.Path → ℚ)

/-- What the daemon is asked; an exception on the way there is the answer. -/
def requestOf (self : Station) (line : Except Overrun Bytes) : Request :=
  let request := do
    let value ← decodeLine rt (← line.mapError overrunError)
    readRequest rt (tailRaw paths mtime self.logger.disk) value
  match request with
  | .ok request => request
  | .error exc => .other (.error exc)

namespace Daemon

/-- `_handle_client` on what `readline` gives. An exception after the answer leaves the connection
    as it was. -/
def handleStream (line : Except Overrun Bytes) : Routine Connection := do
  let self ← Piece.get
  let answer ← Piece.attempt (dispatch rt.toInterpreter (requestOf rt paths mtime self line))
  Piece.modify fun self => { self with history.answers := self.history.answers ++ [answer] }
  let reply ← Piece.lift (encodeLine rt (response rt answer))
  return { sent := reply, closed := true }

/-- To the rest of the daemon it is the client of the request that it reads. -/
theorem shared_handleStream (self : Station) (line : Except Overrun Bytes) :
    ((handleStream rt paths mtime line).exec self).shared =
      ((handleClient rt.toInterpreter (requestOf rt paths mtime self line)).exec self).shared := by
  simp only [handleStream, handleClient, Piece.exec_bind, Piece.exec_get, Piece.exec_attempt,
    Piece.andThen, Piece.exec_modify, Piece.exec_lift]
  cases encodeLine rt (response rt ((dispatch rt.toInterpreter
    (requestOf rt paths mtime self line)).exec self).result) <;> rfl

end Daemon

end

end SlimHub
