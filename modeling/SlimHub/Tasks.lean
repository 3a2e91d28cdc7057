import SlimHub.Hub
import SlimHub.Lib.Asyncio
import SlimHub.Logging.Worker
import SlimHub.Protocol.Assembler

/-! The daemon's tasks.

        main ──▶ scan loop                 every device:    ensure_target, config
        client ──▶ request ──▶ dispatch    connect, send, devices, …
        notify callback ──▶ handle_frame   one task a frame

    These are the tasks that use the session registry, written out with its lock, piece by piece: a
    piece ends where the task waits for something other than that lock. Everything else that runs
    (the sessions' own tasks, the worker of the raw data logger, the socket server) comes in as
    callbacks. -/

namespace SlimHub
open Text Nus Json Ble Unitspace Asyncio Logging

/-! ### Shared data -/

/-- The `data` of an answer. -/
inductive Reply where
  | stopping
  | devices (rows : List DeviceRow)
  | session (status : SessionStatus)
  | command (reply : CommandReply)
  | config (config : DeviceRecord)
  | hubConfig (config : HubConfig)
  | text (parts : List Part)
  | unitspace (status : UnitspaceStatus)
  | lines (lines : List Str)

/-- What happened, in order: the frames that the assemblers completed, with the task that each got;
    the frames that were handled, with the event or what was raised before there was one; the
    events given to the logger, with what that raised, and to the estimator; `registry.add` calls,
    started sessions, `stop_all` calls with the sessions started before and the sessions that are
    to stop, and the `stop` calls that returned; and the answers to clients. -/
structure History where
  completed : List FrameTask := []
  handled : List (FrameTask × Except PyError LogEvent) := []
  logged : List (LogEvent × Option PyError) := []
  estimated : List RawDataEvent := []
  added : List (Str × SessionRef) := []
  started : List SessionRef := []
  stopAlls : List (List SessionRef × List SessionRef) := []
  stopped : List SessionRef := []
  answers : List (Except PyError Reply) := []

/-- What the tasks of a daemon share. `times` are the results of `time.time()`, of which `reads` are
    used; `links` is what the sessions' connections add to their status; `connections` are the
    notify callbacks, each with its session and its assembler. `stopsPending` are the sessions whose
    `stop` the main task awaits, `awaitsClients` says whether `wait_closed` waits for open connections (not
    before Python 3.12), `unlinkError` is what unlinking the socket file raises; `finished` says
    that `run` is over after its `finally`, and with what exception. -/
structure Station where
  central : BleCentral := BleCentral.empty
  estimator : UnitspaceStatus := {}
  configStore : DeviceConfigStore
  hubConfigStore : HubConfigStore
  logger : RawDataLogger
  times : ℕ → ℚ
  reads : ℕ := 0
  links : Links := fun _ => (false, none)
  connections : List (SessionRef × FrameAssembler) := []
  stopRequested : Bool := false
  scanCancelled : Bool := false
  stopsPending : List SessionRef := []
  awaitsClients : Bool := false
  unlinkError : Option PyError := none
  socketRemoved : Bool := false
  finished : Option (Option PyError) := none
  history : History := {}

namespace Station

/-- The part of the shared data that the hub's steps work on. -/
def hub (self : Station) : Hub := ⟨⟨self.central, self.estimator, []⟩, self.configStore⟩

def withSession (self : Station) (ref : SessionRef) (f : DeviceSession → DeviceSession) : Station :=
  { self with central.sessions := self.central.sessions.modify ref f }

end Station

/-- A request as `dispatch` reads it. `other` is one that touches nothing shared: `raw.tail`, with
    its answer, and whatever is refused. -/
inductive Request where
  | stop
  | devices
  | connect (address : Str)
  | commandSend (address command : Value)
  | configSet (address field value : Str)
  | configApply
  | hubConfigSet (field value : Str)
  | service (address action service : Value) (characteristic : Option Value)
  | reset (address : Value)
  | model (address : Value) (modelCommand : Str)
  | feature (address : Value) (featureCommand : Str)
  | file (address : Value) (filePath : Str)
  | unitspaceStatus
  | other (answer : Except PyError (List Str))

/-- Where a task can start or go on. -/
inductive Point where
  | main (address : Option Str) (scan : Bool)
  | serving (address : Option Str) (scan : Bool)
  | stopping (scan : Bool)
  | scanEnded
  | sessionsStopped
  | loggerStopped
  | serverClosed
  | scan
  | scanned (found : Except PyError (List Target))
  | client
  | request (request : Request)
  | frame (task : FrameTask)
  | session (ref : SessionRef)
  | stopSession (ref : SessionRef)
  | sessionStopped (ref : SessionRef)

/-- What a waiting task is told: that its wait is over, what a scan found, what a client asks. -/
inductive Answer where
  | done
  | devices (found : Except PyError (List Target))
  | line (request : Request)

/-- A piece of a task of the daemon. -/
abbrev Routine (α : Type) := Piece Station Point PyError α

namespace Daemon

/-- Go on at a point once the wait is over. -/
def waitThen (point : Point) : Routine (Rest Point Answer) :=
  return .wait fun
    | .done => some point
    | _ => none

/-- `time.time()`. -/
def time : Routine ℚ := Piece.act fun self =>
  (.ok (self.times self.reads), { self with reads := self.reads + 1 })

/-- The session object that a reference points to; it is never gone. -/
def sessionAt (ref : SessionRef) : Routine DeviceSession := do
  match (← Piece.get).central.sessions[ref]? with
  | none => Piece.lift (.error ⟨.other, []⟩)
  | some session => return session

/-! ### `DeviceRegistry` -/

def add (ref : SessionRef) (session : DeviceSession) : Routine Unit := Piece.locked fun self =>
  match normalizeMac session.address with
  | .error exc => (.error exc, self)
  | .ok key =>
    (.ok (), { self with
      central.registry.sessions := self.central.registry.sessions.set key ref
      history.added := self.history.added ++ [(key, ref)] })

def get (address : Str) : Routine (Option SessionRef) := do
  let normalized ← Piece.lift (normalizeMac address)
  Piece.locked fun self => (.ok (self.central.registry.find normalized), self)

def registerAlias (aliasAddress canonicalAddress : Str) : Routine Unit := do
  let normalizedAlias ← Piece.lift (normalizeMac aliasAddress)
  let normalizedCanonical ← Piece.lift (normalizeMac canonicalAddress)
  Piece.locked fun self => (.ok (), { self with
    central.registry := aliased self.central.registry normalizedAlias normalizedCanonical })

def resolveAddress (address : Str) : Routine Str := do
  let normalized ← Piece.lift (normalizeMac address)
  Piece.locked fun self => (.ok (canonical self.central.registry normalized), self)

/-- `send_command` of the registry. -/
def sendCommand (command : CommandEvent) : Routine Bool := do
  match ← get command.address with
  | none => return false
  | some ref =>
    Piece.modify (·.withSession ref (·.sendCommand command))
    return true

def listStatus : Routine (List DeviceRow) :=
  Piece.locked fun self => (.ok (self.hub.listStatus self.links), self)

/-! ### `BleCentral` -/

/-- `DeviceSession(target)`. -/
def newSession (target : Target) : Routine (SessionRef × DeviceSession) := Piece.act fun self =>
  match DeviceSession.new target with
  | .error exc => (.error exc, self)
  | .ok session =>
    (.ok (self.central.sessions.length, session),
      { self with central.sessions := self.central.sessions ++ [session] })

/-- `session.start()`. -/
def start (ref : SessionRef) : Routine Unit := do
  let session ← sessionAt ref
  if session.running then return () else
    Piece.modify fun self =>
      { self.withSession ref DeviceSession.start with
        history.started := self.history.started ++ [ref] }
    Piece.create (.session ref)

def ensureTarget (target : Target) : Routine SessionRef := do
  let address ← Piece.lift (normalizeMac target.addressText)
  match ← get address with
  | none =>
    let (ref, session) ← newSession target
    add ref session
    start ref
    return ref
  | some ref =>
    -- the target's address was normalised above, so `update_target` does not raise
    let now ← time
    Piece.modify (·.withSession ref (·.updateTarget target now |>.1))
    return ref

def ensureAddress (address : Str) : Routine SessionRef := do
  let normalized ← Piece.lift (normalizeMac address)
  ensureTarget (.text normalized)

section
variable (interp : Interpreter) (w : Writer)

/-! ### Configs and requests -/

/-- A load and save of the device configs. -/
def write (change : ConfigWrite) : Routine DeviceRecord := Piece.act fun self =>
  let written := change.apply interp self.configStore
  (written.2, { self with configStore := written.1 })

def connectAddress (address : Str) : Routine SessionStatus := do
  let normalized ← Piece.lift (normalizeMac address)
  let ref ← ensureAddress normalized
  let session ← sessionAt ref
  let _ ← write interp (.connected normalized session.name)
  let links := (← Piece.get).links
  return session.status (links ref).1 (links ref).2

/-- `send_command` of the daemon. -/
def manualCommand (address command : Value) : Routine CommandReply := do
  let address ← Piece.lift <| match address with
    | .str address => if address = [] then .error ⟨.valueError, [.lit "address is required"]⟩
      else .ok address
    | _ => .error ⟨.valueError, [.lit "address is required"]⟩
  let command ← Piece.lift <| match command with
    | .str command => .ok command
    | _ => .error ⟨.valueError, [.lit "command must be one of: strong_enter, strong_exit, weak_enter, weak_exit, default_action, enter, exit"]⟩
  let normalized ← Piece.lift (normalizeMac address)
  let validated ← Piece.lift (validateCommand command)
  let noSession : PyError :=
    ⟨.valueError, [.lit "no active device session for address: ", .str normalized]⟩
  match ← get normalized with
  | none => Piece.lift (.error noSession)
  | some ref =>
    let config ← Piece.lift ((← Piece.get).configStore.load interp normalized)
    let sent ← sendCommand ⟨normalized, validated, fieldText interp config.location⟩
    if !sent then Piece.lift (.error noSession) else
      let session ← sessionAt ref
      let links := (← Piece.get).links
      return {
        address := normalized
        command := validated
        session := session.status (links ref).1 (links ref).2 }

def applyConfig : Routine (List Part) := do
  let configs ← Piece.lift ((← Piece.get).configStore.listAll interp)
  configs.forM fun config => do
    match ← get config.address with
    | none => return ()
    | some ref => Piece.modify (·.withSession ref fun session =>
        { session with name := orDefault (config.config interp).name session.name })
  return [.lit "Config data applied"]

def serviceCommand (address action service : Value) (characteristic : Option Value) :
    Routine (List Part) := do
  let normalized ← Piece.lift (normalizeMac (fieldText interp address))
  match ← get normalized with
  | none => return [.str normalized, .lit " is not registered"]
  | some ref =>
    if !((← Piece.get).links ref).1 then return [.str normalized, .lit " is not connected"] else
      let actionText := fieldText interp action
      let serviceText := fieldText interp service
      let characteristicText := (characteristic.map (fieldText interp)).getD []
      if actionText = str "enable" then
        return [.str normalized, .lit ": characteristic ", .str serviceText, .lit " ",
          .str characteristicText, .lit " enabled"]
      else if actionText = str "disable" then
        return [.str normalized, .lit ": characteristic ", .str serviceText, .lit " ",
          .str characteristicText, .lit " disabled"]
      else if actionText = str "activate" then
        return [.str normalized, .lit ": service ", .str serviceText, .lit " activated"]
      else if actionText = str "deactivate" then
        return [.str normalized, .lit ": service ", .str serviceText, .lit " deactivated"]
      else Piece.lift (.error ⟨.valueError,
        [.lit "service action must be enable, disable, activate or deactivate"]⟩)

def unsupportedDeviceCommand (address : Value) (commandName : String) (detail : Str) :
    Routine (List Part) := do
  let normalized ← Piece.lift (normalizeMac (fieldText interp address))
  match ← get normalized with
  | none => return [.str normalized, .lit " is not registered"]
  | some _ =>
    let suffix : List Part := if detail = [] then [] else [.lit " ", .str detail]
    return .lit commandName :: suffix ++
      [.lit " is not supported by SLIMHUB_v2 NUS-only daemon"]

/-- A config in the row of the address it resolves to. -/
def shownAt (statuses : Dict Str DeviceRow) (canonical : Str) (config : DeviceRecord) :
    Dict Str DeviceRow :=
  let status := (statuses.get? canonical).getD
    { address := canonical
      name := []
      connected := false
      lastSeen := 0
      lastError := none
      queuedCommands := 0
      type := some (.str defaultDeviceType) }
  statuses.set canonical { status with
    packetAddress := some config.address
    configuredName := some config.name
    type := some config.type
    location := some config.location }

def devicesPayload : Routine (List DeviceRow) := do
  let statuses := (← listStatus).foldl (fun statuses row => statuses.set row.address row)
    Dict.empty
  let configs ← Piece.lift ((← Piece.get).configStore.listAll interp)
  let statuses ← configs.foldlM (fun statuses config => do
    let canonical ← resolveAddress config.address
    return shownAt statuses canonical config) statuses
  return statuses.entries.map Prod.snd

/-! ### Frames -/

/-- `raw_logger.log` and `raw_logger.log_alert`: putting on the queue does not wait. -/
def log (event : LogEvent) : Routine Unit := Piece.act fun self =>
  let raised := self.logger.logRaises w event
  (match raised with | none => .ok () | some exc => .error exc, { self with
    logger := self.logger.log w event
    history.logged := self.history.logged ++ [(event, raised)] })

/-- `estimator.handle`. -/
def estimate (event : RawDataEvent) : Routine (List CommandEvent) := Piece.act fun self =>
  let self := { self with history.estimated := self.history.estimated ++ [event] }
  match self.estimator.handle event with
  | .error exc => (.error exc, self)
  | .ok (estimator, commands) => (.ok commands, { self with estimator })

/-- The estimator gets the event, and its commands are sent. -/
def answerEvent (event : RawDataEvent) : Routine Unit := do
  let commands ← estimate event
  commands.forM fun command => do
    let _ ← sendCommand command
    return ()

/-- The event that is made of a frame. -/
def eventOf (frame : ParsedFrame) (config : DeviceConfig) (timestamp : ℚ) : LogEvent :=
  match frame.parsed with
  | .rawData packet => .rawData {
      timestamp
      mac := frame.mac
      location := config.location
      packet
      payload := frame.payload
      deviceType := config.type }
  | .alert packet => .alert {
      timestamp
      mac := frame.mac
      location := config.location
      packet
      payload := frame.payload
      deviceType := config.type }

/-- `handle_frame`, up to the event. -/
def frameEvent (task : FrameTask) : Routine LogEvent := do
  registerAlias task.frame.mac task.source
  let config ← write interp (.framed task.frame.mac)
  let timestamp ← time
  return eventOf task.frame (config.config interp) timestamp

/-- The rest of `handle_frame`. The warnings and `_log_commands` only write to the process log. -/
def processEvent (task : FrameTask) (made : Except PyError LogEvent) : Routine Unit := do
  Piece.modify fun self => { self with history.handled := self.history.handled ++ [(task, made)] }
  let event ← Piece.lift made
  log w event
  match event with
  | .alert _ => return ()
  | .rawData event => answerEvent event

def handleFrame (task : FrameTask) : Routine Unit := do
  let made ← Piece.attempt (frameEvent interp task)
  processEvent w task made

/-! ### The scan loop -/

def startOrUpdateSession (target : Target) : Routine Unit := do
  let _ ← Piece.lift (normalizeMac target.addressText)
  let _ ← ensureTarget target
  let _ ← write interp (.scanned target)
  return ()

def connectedSessionCount : Routine ℕ := do
  let statuses ← listStatus
  return (statuses.filter (·.connected)).length

/-- The test of the loop, and the wait for the adapter lock and the scan. -/
def scanLoop : Routine (Rest Point Answer) := do
  let self ← Piece.get
  if self.stopRequested ∨ self.scanCancelled then return .finish else
    return .wait fun
      | .devices found => some (.scanned found)
      | _ => none

/-- The rest of a round, up to `_wait_or_stop`. What it raises goes to the process log. -/
def scanRound (found : Except PyError (List Target)) : Routine (Rest Point Answer) := do
  if (← Piece.get).scanCancelled then return .finish else
    let _ ← Piece.attempt (do
      let devices ← Piece.lift found
      let _ ← connectedSessionCount
      devices.forM (startOrUpdateSession interp))
    waitThen .scan

/-! ### Clients -/

def dispatch : Request → Routine Reply
  | .stop => do
    Piece.modify fun self => { self with stopRequested := true }
    return .stopping
  | .devices => return .devices (← devicesPayload interp)
  | .connect address => return .session (← connectAddress interp address)
  | .commandSend address command => return .command (← manualCommand interp address command)
  | .configSet address field value =>
    return .config (← write interp (.configSet address field value))
  | .configApply => return .text (← applyConfig interp)
  | .hubConfigSet field value => Piece.act fun self =>
    let written := self.hubConfigStore.setField interp field value
    (written.2.map .hubConfig, { self with hubConfigStore := written.1 })
  | .service address action service characteristic =>
    return .text (← serviceCommand interp address action service characteristic)
  | .reset address => return .text (← unsupportedDeviceCommand interp address "Reset" [])
  | .model address modelCommand =>
    return .text (← unsupportedDeviceCommand interp address "Model" modelCommand)
  | .feature address featureCommand =>
    return .text (← unsupportedDeviceCommand interp address "Feature collection" featureCommand)
  | .file address filePath =>
    return .text (← unsupportedDeviceCommand interp address "File transfer" filePath)
  | .unitspaceStatus => return .unitspace (← Piece.get).estimator
  | .other answer => return .lines (← Piece.lift answer)

/-- `_handle_client` once the line is read; nothing shared is touched while the answer is sent. -/
def handleClient (request : Request) : Routine (Rest Point Answer) := do
  let answer ← Piece.attempt (dispatch interp request)
  Piece.modify fun self => { self with history.answers := self.history.answers ++ [answer] }
  return .finish

/-! ### `run` -/

/-- The loggers' and the stores' directories, the logger's worker, and the socket server. -/
def startUp (address : Option Str) (scan : Bool) : Routine (Rest Point Answer) := do
  Piece.act fun self =>
    let made := w.ensure self.logger.disk
    (match made.1 with | none => .ok () | some exc => .error exc,
      { self with logger.disk := made.2 })
  let _ ← Piece.act fun self =>
    let created := self.hubConfigStore.loadOrCreate interp
    (created.2, { self with hubConfigStore := created.1 })
  Piece.act fun self =>
    let raised := if self.logger.task = none then (w.ensure self.logger.disk).1 else none
    (match raised with | none => .ok () | some exc => .error exc,
      { self with logger := self.logger.start w })
  waitThen (.serving address scan)

/-- The `finally` of `run` is over. -/
def finish (raised : Option PyError) : Routine (Rest Point Answer) := do
  Piece.modify fun self => { self with finished := some raised }
  match raised with
  | none => return .finish
  | some exc => Piece.lift (.error exc)

/-- The end of `_stop_server`. -/
def unlinkSocket : Routine (Rest Point Answer) := do
  match (← Piece.get).unlinkError with
  | some exc => finish (some exc)
  | none =>
    Piece.modify fun self => { self with socketRemoved := true }
    finish none

/-- `raw_logger.stop` awaits the worker; once that is done, `_stop_server` closes the server and
    waits for it. -/
def joinLogger : Routine (Rest Point Answer) := do
  let self ← Piece.get
  match self.logger.stopped.getLast? with
  | none => waitThen .loggerStopped
  | some (some exc) => finish (some exc)
  | some none => if self.awaitsClients then waitThen .serverClosed else unlinkSocket

/-- `raw_logger.stop`. -/
def stopLogger : Routine (Rest Point Answer) := do
  Piece.modify fun self => { self with logger := self.logger.stop }
  joinLogger

/-- `gather` of the `stop` calls. -/
def joinSessions : Routine (Rest Point Answer) := do
  if (← Piece.get).stopsPending = [] then stopLogger else waitThen .sessionsStopped

/-- `registry.stop_all`: every session is stopped by a task of its own. -/
def stopAll : Routine (Rest Point Answer) := do
  let sessions ← Piece.locked fun self =>
    let sessions := self.central.registry.sessions.entries.map Prod.snd
    (.ok sessions, { self with
      stopsPending := sessions
      history.stopAlls := self.history.stopAlls ++ [(self.history.started, sessions)] })
  sessions.forM fun ref => Piece.create (.stopSession ref)
  joinSessions

/-- `stop_event.wait()`, and the cancellation of the scan loop. -/
def serve (scan : Bool) : Routine (Rest Point Answer) := do
  if !(← Piece.get).stopRequested then waitThen (.stopping scan)
  else if scan then
    Piece.modify fun self => { self with scanCancelled := true }
    waitThen .scanEnded
  else stopAll

/-- A `stop` call returns. -/
def returnStop (ref : SessionRef) : Routine (Rest Point Answer) := do
  Piece.modify fun self => { self with
    stopsPending := self.stopsPending.filter (· ≠ ref)
    history.stopped := self.history.stopped ++ [ref] }
  return .finish

/-- `session.stop()`, up to the end of the task that it awaits. -/
def stopSession (ref : SessionRef) : Routine (Rest Point Answer) := do
  Piece.modify (·.withSession ref fun session => { session with stopRequested := true })
  let session ← sessionAt ref
  if session.running then waitThen (.sessionStopped ref) else returnStop ref

/-- `if address: await self.connect_address(address)`. -/
def connectAtStart : Option Str → Routine Unit
  | none => return ()
  | some address => if address = [] then return () else do
    let _ ← connectAddress interp address
    return ()

/-- `if scan: tasks.append(asyncio.create_task(self._scan_loop()))`. -/
def startScan (scan : Bool) : Routine Unit := if scan then Piece.create .scan else return ()

/-- What a task does from a point to its next wait. -/
def body : Point → Routine (Rest Point Answer)
  | .main address scan => startUp interp w address scan
  | .serving address scan => do
    connectAtStart interp address
    startScan scan
    serve scan
  | .stopping scan => serve scan
  | .scanEnded => stopAll
  | .sessionsStopped => joinSessions
  | .loggerStopped => joinLogger
  | .serverClosed => unlinkSocket
  | .scan => scanLoop
  | .scanned found => scanRound interp found
  | .client => return .wait fun
    | .line request => some (.request request)
    | _ => none
  | .request request => handleClient interp request
  | .frame task => do
    handleFrame interp w task
    return .finish
  | .session ref => waitThen (.session ref) -- its own task; what it does comes as callbacks
  | .stopSession ref => stopSession ref
  | .sessionStopped ref => do
    Piece.modify (·.withSession ref fun session => { session with running := false })
    returnStop ref

end

end Daemon

/-! ### Callbacks -/

/-- What a session's own task changes in the session. -/
inductive SessionChange where
  | consumesUpdate
  | waitsForAdvertisement
  | connects
  | subscribes (now : ℚ)
  | takesCommand
  | ends

def SessionChange.apply : SessionChange → DeviceSession → DeviceSession
  | .consumesUpdate, session => { session with targetUpdated := false }
  | .waitsForAdvertisement, session => { session with waitingForAdvertisement := true }
  | .connects, session => { session with waitingForAdvertisement := false }
  | .subscribes now, session => { session with lastSeen := now }
  | .takesCommand, session => { session with commandQueue := session.commandQueue.drop 1 }
  | .ends, session => { session with running := false }

/-- A notification on a connection, a new connection of a session, what a session's own task does,
    a client that connects (its line may be there already), a stop signal, and the steps of the raw
    data logger. -/
inductive Callback where
  | notify (connection : ℕ) (data : Bytes)
  | subscribe (ref : SessionRef)
  | session (ref : SessionRef) (change : SessionChange)
  | link (ref : SessionRef) (connected : Bool) (lastError : Option Str)
  | client (line : Option Request)
  | requestStop
  | logWorker (i : ℕ)
  | logStopped (j : ℕ)

/-- The callback of `_build_notify_handler`: every frame that parses becomes a task. -/
def notified (self : Station) (connection : ℕ) (data : Bytes) : Station × List Point :=
  match self.connections[connection]? with
  | none => (self, [])
  | some (ref, assembler) =>
    match self.central.sessions[ref]? with
    | none => (self, [])
    | some session =>
      let handled := handleNotify session.address assembler data
      let tasks := (onFrameCalls handled.2.1).map fun frame => ⟨ref, session.address, frame⟩
      ({ self with
          connections := self.connections.set connection (ref, handled.1)
          history.completed := self.history.completed ++ tasks },
        tasks.map .frame)

def callback (w : Writer) : Callback → Station → Station × List Point
  | .notify connection data, self => notified self connection data
  | .subscribe ref, self =>
    ({ self with connections := self.connections ++ [(ref, FrameAssembler.new)] }, [])
  | .session ref change, self => (self.withSession ref change.apply, [])
  | .link ref connected lastError, self =>
    ({ self with links := Function.update self.links ref (connected, lastError) }, [])
  | .client none, self => (self, [.client])
  | .client (some request), self => (self, [.request request])
  | .requestStop, self => ({ self with stopRequested := true }, [])
  | .logWorker i, self => ({ self with logger := (self.logger.runWorker w i).getD self.logger }, [])
  | .logStopped j, self => ({ self with logger := (self.logger.resumeStop j).getD self.logger }, [])

/-- A daemon that starts with these files, on a clock that gives these times. -/
def Station.new (configStore : DeviceConfigStore) (hubConfigStore : HubConfigStore)
    (disk : Files.FS) (times : ℕ → ℚ) (awaitsClients : Bool) (unlinkError : Option PyError) :
    Station :=
  { configStore, hubConfigStore, logger := { disk }, times, awaitsClients, unlinkError }

/-- `asyncio.run(daemon.run(...))`. -/
def Station.launch (self : Station) (address : Option Str) (scan : Bool) :
    Loop Station Point PyError Answer :=
  { shared := self, ready := [.start (.main address scan)] }

/-- The steps of the daemon's event loop. -/
def Daemon.loopStep (interp : Interpreter) (w : Writer) :
    Event Answer Callback → Loop Station Point PyError Answer →
      Option (Loop Station Point PyError Answer) :=
  Loop.step (Daemon.body interp w) (callback w)

end SlimHub
