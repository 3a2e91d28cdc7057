import SlimHub.Client
import SlimHub.Serial

/-! From the command line to the daemon.

        args ──▶ help │ run the daemon │ set the hub's config │ request
                                                                  │
        operation ◀── dispatch ◀── loads, decode ◀── readline ◀── line

    The flags come from an older client and the subcommands from a newer one; both may stand on one
    command line, and the first that `_send` looks at wins. What it sends is named by texts on both
    sides of the socket: the daemon reads every request of the client as the operation that it is
    for. -/

namespace SlimHub
open Text Nus Json Ble Asyncio Logging LineReader

/-! ### Command lines -/

/-- A subcommand with its own arguments, as the parser leaves them. -/
inductive Subcommand where
  | run (address : Option Str) (noScan : Bool)
  | stop
  | devices
  | connect (address : Str)
  | commandSend (address : Str) (nusCommand : {command : Str // command ∈ validCommands})
  | configSet (address : Str) (field : {field : Str // field ∈ DeviceConfigStore.fields})
      (value : Str)
  | rawTail (address : Option Str) (lines : LineCount)
  | unitspaceStatus

/-- What `parse_args` returns. `mainAddress` and `mainNoScan` are what stands before the
    subcommand. -/
structure Namespace where
  runFlag : Bool := false
  legacyConfig : Option (Str × Str × Str) := none
  legacyService : Option (Str × Str × Str × Str) := none
  legacyFeature : Option (Str × Str) := none
  applyFlag : Bool := false
  listFlag : Bool := false
  quitFlag : Bool := false
  hubconfig : Option (Str × Str) := none
  legacyReset : Option Str := none
  legacyModel : Option (Str × Str) := none
  legacyFile : Option (Str × Str × Str) := none
  mainAddress : Option Str := none
  mainNoScan : Bool := false
  subcommand : Option Subcommand := none

/-- What `run_cli` sets out to do. -/
inductive CliAction where
  | help
  | run (address : Option Str) (scan : Bool)
  | setHubConfig (field value : Str)
  | send (request : CliRequest)

namespace Namespace

variable (args : Namespace)

/-- A subcommand that has an address of its own overwrites the one before it, also with none. -/
def address : Option Str :=
  match args.subcommand with
  | some (.run address _) => address
  | some (.connect address) => some address
  | some (.commandSend address _) => some address
  | some (.configSet address _ _) => some address
  | some (.rawTail address _) => address
  | _ => args.mainAddress

def noScan : Bool :=
  match args.subcommand with
  | some (.run _ noScan) => noScan
  | _ => args.mainNoScan

def hasAction : Bool :=
  args.runFlag || args.legacyConfig.isSome || args.legacyService.isSome ||
    args.legacyFeature.isSome || args.applyFlag || args.listFlag || args.quitFlag ||
    args.hubconfig.isSome || args.legacyReset.isSome || args.legacyModel.isSome ||
    args.legacyFile.isSome || args.subcommand.isSome

def isRunCommand : Bool :=
  args.runFlag || match args.subcommand with
    | some (.run ..) => true
    | _ => false

/-- `args.subcommand == …`, for the subcommands that are flags as well. -/
def isStop : Bool := match args.subcommand with | some .stop => true | _ => false

def isDevices : Bool := match args.subcommand with | some .devices => true | _ => false

/-- The other subcommands, which `_send` looks at last. -/
def subcommandRequest : Option CliRequest :=
  match args.subcommand with
  | some (.connect address) => some (.connect address)
  | some (.commandSend address nusCommand) => some (.commandSend address nusCommand.val)
  | some (.configSet address field value) => some (.configSet address field.val value)
  | some (.rawTail address lines) => some (.rawTail address lines)
  | some .unitspaceStatus => some .unitspaceStatus
  | _ => none

/-- The tests of `_send`, in order, each with the request that it leads to. -/
def tests : List (Option CliRequest) :=
  [if args.quitFlag || args.isStop then some .stop else none,
    if args.listFlag || args.isDevices then some .devices else none,
    args.legacyConfig.map fun (address, field, value) => .configSet address field value,
    if args.applyFlag then some .configApply else none,
    args.legacyService.map fun (address, action, service, characteristic) =>
      .service address action service characteristic,
    args.legacyReset.map .reset,
    args.legacyModel.map fun (address, command) => .model address command,
    args.legacyFeature.map fun (address, command) => .feature address command,
    args.legacyFile.map fun (address, filePath, savePath) => .file address filePath savePath,
    args.subcommandRequest]

/-- `_send`, up to the request. -/
def send : Except PyError CliRequest :=
  match args.tests.findSome? id with
  | some request => .ok request
  | none => .error ⟨.runtimeError, [.lit "unhandled CLI command"]⟩

/-- `run_cli`, up to what it does. -/
def action : Except PyError CliAction :=
  if !args.hasAction then .ok .help
  else if args.isRunCommand then .ok (.run args.address !args.noScan)
  else match args.hubconfig with
  | some (field, value) => .ok (.setHubConfig field value)
  | none => args.send.map .send

end Namespace

/-! ### What a request asks for -/

/-- The request that the daemon reads, `tail` being its `_tail_raw`. -/
def CliRequest.asks (tail : Option Str → ℤ → Except PyError (List Str)) : CliRequest → Request
  | .stop => .stop
  | .devices => .devices
  | .configSet address field value => .configSet address field value
  | .configApply => .configApply
  | .service address action serviceName characteristic =>
    .service (.str address) (.str action) (.str serviceName) (some (.str characteristic))
  | .reset address => .reset (.str address)
  | .model address modelCommand => .model (.str address) modelCommand
  | .feature address featureCommand => .feature (.str address) featureCommand
  | .file address filePath _ => .file (.str address) filePath
  | .connect address => .connect address
  | .commandSend address command => .commandSend (.str address) (.str command)
  | .rawTail address lines => .other (tail (address.filter (· ≠ [])) lines.value)
  | .unitspaceStatus => .unitspaceStatus

variable {rt cli : Runtime} {paths : AppPaths} {mtime : Files.Path → ℚ}

theorem readRequest_obj (tail : Option Str → ℤ → Except PyError (List Str))
    (args : List (Str × Value)) (command : Str) :
    readRequest rt tail (.obj [(str "command", .str command), (str "args", .obj args)]) =
      readCommand rt tail args command := by
  have hkeys : str "command" ≠ str "args" := by decide
  simp [readRequest, argsOf, getMember, Dict.find, hkeys, bind, Except.bind]

/-- Both sides use the same names. -/
theorem readRequest_value (tail : Option Str → ℤ → Except PyError (List Str))
    (request : CliRequest) : readRequest rt tail request.value = .ok (request.asks tail) := by
  rw [CliRequest.value, readRequest_obj]
  cases request with
  | rawTail address lines =>
    have haddress : address.filter (· ≠ []) =
        if truthy rt.toInterpreter (optional address) then some (textOf rt (optional address))
        else none := by
      cases address with
      | none => rfl
      | some address =>
        rw [Option.filter_some]
        rfl
    rw [CliRequest.asks, haddress]
    simp +decide [readCommand, CliRequest.command, CliRequest.args, getMember, Dict.find, intOf]
  | _ =>
    simp +decide [readCommand, CliRequest.command, CliRequest.args, CliRequest.asks, getMember,
      argument, Dict.find, textOf, fieldText, bind, Except.bind, Except.map, pure, Except.pure]

/-! ### Command lines that send -/

namespace Namespace

variable {args : Namespace}

/-- Every subcommand but `run` is a request, or one of the two that are flags as well. -/
theorem subcommand_cases (h : args.subcommand.isSome = true) :
    (args.isRunCommand || args.isStop || args.isDevices ||
      args.subcommandRequest.isSome) = true := by
  cases hcommand : args.subcommand with
  | none => simp [hcommand] at h
  | some command =>
    cases command <;> simp [isRunCommand, isStop, isDevices, subcommandRequest, hcommand]

/-- No command line with an action is left over by `_send`. -/
theorem send_ok (hsome : args.hasAction = true) (hrun : args.isRunCommand = false)
    (hhub : args.hubconfig = none) : ∃ request, args.send = .ok request := by
  have hfirst : (args.tests.findSome? id).isSome = true := by
    have hflag : args.runFlag = false := (Bool.or_eq_false_iff.mp hrun).1
    have hsubcommand := args.subcommand_cases
    simp only [hasAction, hflag, hhub, hrun, Option.isSome_none, Bool.false_or, Bool.or_false,
      Bool.or_eq_true] at hsome hsubcommand
    simp only [List.findSome?_isSome_iff, tests, List.mem_cons, exists_eq_or_imp, id_eq,
      Option.isSome_map, Option.isSome_ite, Bool.or_eq_true]
    tauto
  obtain ⟨request, hrequest⟩ := Option.isSome_iff_exists.mp hfirst
  exact ⟨request, by rw [send, hrequest]⟩

/-- So `run_cli` always knows what to do, and sends where it does nothing else. -/
theorem action_send (hsome : args.hasAction = true) (hrun : args.isRunCommand = false)
    (hhub : args.hubconfig = none) : ∃ request, args.action = .ok (.send request) := by
  obtain ⟨request, hsend⟩ := send_ok hsome hrun hhub
  exact ⟨request, by simp [action, hsome, hrun, hhub, hsend, Except.map]⟩

end Namespace

/-! ### What the daemon does for it -/

section
variable {self : Station} {request : CliRequest} {there : Wire}

/-- A line is handled as the request that is read from it. -/
theorem serial_handleStream (read : Except Overrun Bytes) :
    ((Daemon.handleStream rt paths mtime read).exec self).shared.serial =
      self.serial.perform rt.toInterpreter (.request (requestOf rt paths mtime self read)) := by
  rw [Daemon.shared_handleStream]
  exact Daemon.serial_body rt.toInterpreter openDisk self
    (.request (requestOf rt paths mtime self read))

theorem requestOf_line {line : Bytes} (h : decodeLine rt line = .ok request.value) :
    requestOf rt paths mtime self (.ok line) =
      request.asks (tailRaw paths mtime self.logger.disk) := by
  simp only [requestOf, Except.mapError, bind, Except.bind, h, readRequest_value]

theorem encodeRequest_iff :
    (∃ line, encodeRequest cli request = .ok line) ↔ clean request.value = true := by
  constructor
  · rintro ⟨line, hline⟩
    by_contra hunclean
    obtain ⟨exc, hexc⟩ := @encodeLine_error cli request.value fun hwrites => hunclean hwrites.2
    rw [encodeRequest, hexc] at hline
    cases hline
  · intro hclean
    obtain ⟨line, _, hline, _⟩ := @encodeRequest_clean cli request hclean
    exact ⟨_, hline⟩

/-- A request that was sent is read as what it asks for, unless its line is too long. -/
theorem read_of_encodeRequest {line : Bytes} (hdepth : 2 ≤ rt.readDepth)
    (hline : encodeRequest cli request = .ok line) :
    ∃ read, readline defaultLimit false [] (there.chunks line) = some read ∧
      (line.length ≤ defaultLimit + 1 → requestOf rt paths mtime self read =
        request.asks (tailRaw paths mtime self.logger.disk)) ∧
      (defaultLimit + 1 < line.length → ∃ overrun, read = .error overrun) := by
  obtain ⟨body, hbody, hencode, hfeed⟩ :=
    @encodeRequest_clean cli request (encodeRequest_iff.mp ⟨line, hline⟩)
  obtain rfl := Except.ok.inj (hencode.symm.trans hline)
  rw [List.length_append, List.length_singleton]
  by_cases hlimit : body.length ≤ defaultLimit
  · have hnesting : nesting request.value ≤ rt.readDepth := by rwa [request.nesting_value]
    have hdecode := decodeLine_text hbody (loads_text request.exact_value hnesting (.inr rfl))
    refine ⟨_, readline_short hfeed hlimit, fun _ => requestOf_line hdecode, fun hlong => ?_⟩
    omega
  · obtain ⟨overrun, hread⟩ := @readline_long there false body hfeed (Nat.not_le.mp hlimit)
    refine ⟨_, hread, fun hshort => ?_, fun _ => ⟨overrun, rfl⟩⟩
    omega

end

/-- CORRECT: from the command line to the daemon. Every command line that has an action, does not
    run the daemon and does not set the hub's config leads to exactly one request. The client can
    send it just when none of its texts has a surrogate; and what the daemon does for the bytes that
    it then reads, however they are cut, is the operation that the request asks for, under all of
    its names, or if the line is longer than `readline` reads, to answer with an error. The daemon's
    `json.loads` reads at least two levels. -/
theorem cli_reaches_daemon (rt cli : Runtime) (paths : AppPaths) (mtime : Files.Path → ℚ)
    (there : Wire) (self : Station) (args : Namespace) (hdepth : 2 ≤ rt.readDepth)
    (haction : args.hasAction = true) (hrun : args.isRunCommand = false)
    (hhub : args.hubconfig = none) :
    ∃ request, args.action = .ok (.send request) ∧
      ((∃ line, encodeRequest cli request = .ok line) ↔ clean request.value = true) ∧
      ∀ line, encodeRequest cli request = .ok line →
        ∃ read, readline defaultLimit false [] (there.chunks line) = some read ∧
          (line.length ≤ defaultLimit + 1 →
            ((Daemon.handleStream rt paths mtime read).exec self).shared.serial =
              self.serial.perform rt.toInterpreter (.request
                (request.asks (tailRaw paths mtime self.logger.disk)))) ∧
          (defaultLimit + 1 < line.length → ∃ overrun,
            ((Daemon.handleStream rt paths mtime read).exec self).shared.serial =
              self.serial.perform rt.toInterpreter (.request
                (.other (.error (overrunError overrun))))) := by
  obtain ⟨request, hsend⟩ := Namespace.action_send haction hrun hhub
  refine ⟨request, hsend, encodeRequest_iff, fun line hline => ?_⟩
  obtain ⟨read, hread, hshort, hlong⟩ := @read_of_encodeRequest rt cli paths mtime self request
    there line hdepth hline
  refine ⟨read, hread, fun hlimit => ?_, fun hlimit => ?_⟩
  · rw [serial_handleStream, hshort hlimit]
  · obtain ⟨overrun, rfl⟩ := hlong hlimit
    exact ⟨overrun, serial_handleStream _⟩

/-- `slimhub --list config set …`: the list is asked for, and nothing is set. -/
def listBeforeSet : Namespace where
  listFlag := true
  subcommand := some (.configSet (str "11:22:33:44:55:66")
    ⟨str "location", by decide⟩ (str "kitchen"))

theorem listBeforeSet_lists : ∃ line read,
    encodeRequest freshRuntime .devices = .ok line ∧
    readline defaultLimit false [] (direct.chunks line) = some read ∧
    ((Daemon.handleStream freshRuntime somePaths (fun _ => 0) read).exec
      freshStation).shared.serial =
        freshStation.serial.perform freshInterpreter (.request .devices) := by
  obtain ⟨request, hsend, hencode, hread⟩ := cli_reaches_daemon freshRuntime freshRuntime somePaths
    (fun _ => 0) direct freshStation listBeforeSet (by decide) rfl rfl rfl
  obtain rfl : CliRequest.devices = request := CliAction.send.inj (Except.ok.inj hsend)
  obtain ⟨line, hline⟩ := hencode.mpr (by decide)
  have hlength : (encodeRequest freshRuntime .devices).toOption.all
      (·.length ≤ defaultLimit + 1) = true := by decide +kernel
  rw [hline] at hlength
  have hlimit : line.length ≤ defaultLimit + 1 := of_decide_eq_true hlength
  obtain ⟨read, hline', hdone, _⟩ := hread line hline
  exact ⟨line, read, hline, hline', hdone hlimit⟩

end SlimHub
