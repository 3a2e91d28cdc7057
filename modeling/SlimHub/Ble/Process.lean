import SlimHub.Ble.Courier
import SlimHub.Ble.Session
import SlimHub.Lib.Machine

/-! The tasks of a device session.

    `_run` tries one connection for every target update that it consumes, serves it until the peer
    or a `stop` ends it, cleans up, and waits for the next update:

        wait ──▶ acquire ──▶ connect ──▶ subscribe ──▶ serve ──▶ join ──▶ unsubscribe ──▶ disconnect
         ▲                      │ any exception          │                     │              │
         └───── cleaning ◀──────┴────────────────────────┴─────────────────────┴──────────────┘

    Every phase is an await at which other tasks may run. What a BLE call does is an input of the
    step that resumes it; the adapter lock may be granted at any time. Waiting for either of two
    events takes two helper tasks (`Race`). Callers, session tasks, helpers, workers and the peer
    take their steps in any order. -/

namespace SlimHub.Ble
open Text Nus

/-! ### Helper tasks -/

/-- A task that awaits `event.wait()`: created, waiting, woken by `set`, cancelled, or finished. -/
inductive Helper where
  | created
  | waiting
  | woken
  | cancelled
  | done
  deriving DecidableEq

/-- `event.set()` on a waiting helper. -/
def Helper.wake : Helper → Helper
  | .waiting => .woken
  | h => h

/-- A scheduled helper runs. -/
def Helper.advance (isSet : Bool) : Helper → Option Helper
  | .created => some (if isSet then .done else .waiting)
  | .woken => some .done
  | .cancelled => some .done
  | .waiting => none
  | .done => none

def Helper.cancel (h : Helper) : Helper := if h = .done then .done else .cancelled

/-- The two helpers of an `asyncio.wait`: one for the stop event, one for another event. -/
structure Race where
  stop : Helper := .created
  other : Helper := .created
  deriving DecidableEq

/-- The event that a race awaits beside the stop event: a target update, or the disconnection of a
    client, which `worker` serves. -/
inductive Purpose where
  | update
  | link (client worker : ℕ)
  deriving DecidableEq

/-! ### State -/

/-- A `BleakClient`, with the `disconnected_event` of its round. -/
structure Client where
  isConnected : Bool := false
  disconnected : Bool := false
  deriving DecidableEq

/-- Where a `_run` task stands. `racing` and `gathering` are the awaits of `asyncio.wait` and of
    the `asyncio.gather` after it, `joining` awaits the cancelled worker, `cleaning` is the
    `disconnect` of the `finally` block. A finished task returned or raised. -/
inductive Phase where
  | created
  | racing (race : Race) (purpose : Purpose)
  | gathering (race : Race) (purpose : Purpose)
  | acquiring (client : ℕ)
  | connecting (client : ℕ)
  | subscribing (client : ℕ)
  | joining (client worker : ℕ)
  | unsubscribing (client : ℕ)
  | disconnecting (client : ℕ)
  | cleaning (client : ℕ)
  | done (raised : Option PyError)
  deriving DecidableEq

/-- What happens to the target-updated event. -/
inductive Grant where
  | updated
  | consumed
  deriving DecidableEq

/-- A session with its tasks. `stopRequested` and `targetUpdated` are its two events, `client` is
    `_client` and `task` is `_task`, by their numbers; `stopping` are the `stop` calls that await a
    task. The last three fields are history: the sets and clears of the target-updated event, the
    connection attempts begun, and the `update_target` calls that returned. -/
structure Process where
  target : Target
  address : Str
  name : Str
  connected : Bool := false
  lastSeen : ℚ := 0
  waitingForAdvertisement : Bool := false
  stopRequested : Bool := false
  targetUpdated : Bool := true
  courier : Courier := {}
  client : Option ℕ := none
  task : Option ℕ := none
  clients : List Client := []
  runs : List Phase := []
  stopping : List ℕ := []
  grants : List Grant := []
  attempts : ℕ := 0
  updates : ℕ := 0
  deriving DecidableEq

/-- `with suppress(BleakError, RuntimeError)`. A `RecursionError` is a `RuntimeError`. -/
def suppressed (exc : PyError) : Bool :=
  exc.cls = .bleakError ∨ exc.cls = .runtimeError ∨ exc.cls = .recursionError

/-- `with suppress(BleakError, RuntimeError, AttributeError)`. -/
def suppressedInFinally (exc : PyError) : Bool := suppressed exc ∨ exc.cls = .attributeError

namespace Process

section
variable (self : Process) (i : ℕ)

def goto (phase : Phase) : Process := { self with runs := self.runs.set i phase }

/-! ### `_run` -/

/-- A round of the loop, up to the adapter lock. -/
def attempt : Process :=
  { self with
    attempts := self.attempts + 1
    clients := self.clients ++ [({} : Client)] }.goto i (.acquiring self.clients.length)

/-- `_wait_for_target_update`, and the test of the loop after it. -/
def waitForTargetUpdate : Process :=
  if self.stopRequested then self.goto i (.done none)
  else if self.targetUpdated then
    { self with targetUpdated := false, grants := self.grants ++ [Grant.consumed] }.attempt i
  else self.goto i (.racing {} .update)

/-- From the end of the `finally` block. -/
def leave : Process :=
  let self := { self with connected := false, client := none }
  if self.stopRequested then self.goto i (.done none)
  else { self with waitingForAdvertisement := true }.waitForTargetUpdate i

/-- The `finally` block. -/
def cleanUp : Process :=
  match self.client with
  | none => self.leave i
  | some c =>
    if self.clients[c]?.map (·.isConnected) = some true then self.goto i (.cleaning c)
    else self.leave i

/-- `except Exception`. -/
def fail (exc : PyError) : Process :=
  { self with courier := { self.courier with lastError := some exc } }.cleanUp i

/-- From the subscription to the wait for its end: the worker starts. -/
def serve (c : ℕ) (now : ℚ) : Process :=
  { self with
    courier := { self.courier with lastError := none }.create
    lastSeen := now }.goto i (.racing {} (.link c self.courier.workers.length))

/-- After the race: the wait is over, or the worker is cancelled. -/
def settle : Purpose → Process
  | .update => self.waitForTargetUpdate i
  | .link c w => { self with courier := self.courier.cancel w }.goto i (.joining c w)

def setConnected (c : ℕ) (isConnected : Bool) : Process :=
  { self with clients := self.clients.modify c fun client => { client with isConnected } }

/-- A session task runs to its next await. `reply` is how the BLE call that it awaits ended; after
    `connect` it says whether the link is still up. -/
def run (reply : Except PyError Bool) (now : ℚ) : Option Process :=
  match self.runs[i]? with
  | none => none
  | some .created => some (self.waitForTargetUpdate i)
  | some (.racing race purpose) =>
    if race.stop = .done ∧ race.other = .done then some (self.settle i purpose)
    else if race.stop = .done ∨ race.other = .done then
      some (self.goto i (.gathering ⟨race.stop.cancel, race.other.cancel⟩ purpose))
    else none
  | some (.gathering race purpose) =>
    if race.stop = .done ∧ race.other = .done then some (self.settle i purpose) else none
  | some (.acquiring c) => some (self.goto i (.connecting c))
  | some (.connecting c) =>
    match reply with
    | .error exc => some (self.fail i exc)
    | .ok isConnected =>
      some ({ self.setConnected c isConnected with
        client := some c
        connected := isConnected
        waitingForAdvertisement := false }.goto i (.subscribing c))
  | some (.subscribing c) =>
    match reply with
    | .error exc => some (self.fail i exc)
    | .ok _ => some (self.serve i c now)
  | some (.joining c w) =>
    if (self.courier.workers[w]?.map (·.phase)) = some .done then
      some (self.goto i (.unsubscribing c))
    else none
  | some (.unsubscribing c) =>
    match reply with
    | .error exc =>
      if suppressed exc then some (self.goto i (.disconnecting c)) else some (self.fail i exc)
    | .ok _ => some (self.goto i (.disconnecting c))
  | some (.disconnecting c) =>
    match reply with
    | .error exc => if suppressed exc then some (self.cleanUp i) else some (self.fail i exc)
    | .ok _ => some ((self.setConnected c false).cleanUp i)
  | some (.cleaning c) =>
    match reply with
    | .error exc =>
      if suppressedInFinally exc then some (self.leave i) else some (self.goto i (.done (some exc)))
    | .ok _ => some ((self.setConnected c false).leave i)
  | some (.done _) => none

end

/-! ### Events -/

/-- `_stop_event.set()`, seen by a session task. -/
def wakeStop : Phase → Phase
  | .racing race purpose => .racing { race with stop := race.stop.wake } purpose
  | phase => phase

/-- `_target_updated_event.set()`. -/
def wakeUpdate : Phase → Phase
  | .racing race .update => .racing { race with other := race.other.wake } .update
  | phase => phase

/-- `disconnected_event.set()` for a client. -/
def wakeLink (c : ℕ) : Phase → Phase
  | .racing race (.link c' w) =>
    .racing (if c' = c then { race with other := race.other.wake } else race) (.link c' w)
  | phase => phase

/-- Whether the other event of a race is set. -/
def isSet (self : Process) : Purpose → Bool
  | .update => self.targetUpdated
  | .link c _ => (self.clients[c]?.map (·.disconnected)).getD false

/-- One of the two helpers of a race. -/
inductive Side where
  | stop
  | other
  deriving DecidableEq

def advance (self : Process) (race : Race) (purpose : Purpose) : Side → Option Race
  | .stop => (race.stop.advance self.stopRequested).map fun stop => { race with stop }
  | .other => (race.other.advance (self.isSet purpose)).map fun other => { race with other }

/-- A helper of session task `i` runs. -/
def helper (self : Process) (i : ℕ) (side : Side) : Option Process :=
  match self.runs[i]? with
  | some (.racing race purpose) =>
    (self.advance race purpose side).map fun race => self.goto i (.racing race purpose)
  | some (.gathering race purpose) =>
    (self.advance race purpose side).map fun race => self.goto i (.gathering race purpose)
  | _ => none

/-! ### Calls -/

def updateTarget (self : Process) (target : Target) (now : ℚ) : Process :=
  let self := { self with target }
  match normalizeMac target.addressText with
  | .error _ => self
  | .ok address =>
    { self with
      address
      name := target.nameOr self.name
      lastSeen := now
      waitingForAdvertisement := false
      targetUpdated := true
      runs := self.runs.map wakeUpdate
      grants := self.grants ++ [.updated]
      updates := self.updates + 1 }

/-- Whether `_task` is there and not done. -/
def running (self : Process) : Bool :=
  match self.task with
  | none => false
  | some i =>
    match self.runs[i]? with
    | none | some (.done _) => false
    | _ => true

def start (self : Process) : Process :=
  if self.running then self
  else { self with
    stopRequested := false, task := some self.runs.length, runs := self.runs ++ [.created] }

/-- `stop` after `await self._task`: the task is forgotten unless it raised. -/
def finishStop (self : Process) : Option PyError → Process
  | none => { self with task := none }
  | some _ => self

def stop (self : Process) : Process :=
  let self := { self with stopRequested := true, runs := self.runs.map wakeStop }
  match self.task with
  | none => self
  | some i =>
    match self.runs[i]? with
    | some (.done raised) => self.finishStop raised
    | _ => { self with stopping := self.stopping ++ [i] }

/-- A pending `stop` call goes on once its task has finished. -/
def resumeStop (self : Process) (j : ℕ) : Option Process :=
  match self.stopping[j]? with
  | none => none
  | some i =>
    match self.runs[i]? with
    | some (.done raised) =>
      some ({ self with stopping := self.stopping.eraseIdx j }.finishStop raised)
    | _ => none

def sendCommand (self : Process) (command : CommandEvent) : Process :=
  { self with courier := self.courier.sendCommand command }

/-! ### Runs -/

/-- Calls, tasks, and what the peer does: `linkLost` ends a connection, `disconnectSeen` is the
    callback that tells so. -/
inductive Action where
  | start
  | stop
  | resumeStop (j : ℕ)
  | updateTarget (target : Target) (now : ℚ)
  | sendCommand (command : CommandEvent)
  | run (i : ℕ) (reply : Except PyError Bool) (now : ℚ)
  | helper (i : ℕ) (side : Side)
  | worker (j : ℕ) (reply : Except PyError Unit)
  | linkLost (c : ℕ)
  | disconnectSeen (c : ℕ)

def step : Action → Process → Option Process
  | .start, self => some self.start
  | .stop, self => some self.stop
  | .resumeStop j, self => self.resumeStop j
  | .updateTarget target now, self => some (self.updateTarget target now)
  | .sendCommand command, self => some (self.sendCommand command)
  | .run i reply now, self => self.run i reply now
  | .helper i side, self => self.helper i side
  | .worker j reply, self =>
    (self.courier.work self.stopRequested j reply).map fun courier => { self with courier }
  | .linkLost c, self => some (self.setConnected c false)
  | .disconnectSeen c, self =>
    some { self with
      clients := self.clients.modify c fun client => { client with disconnected := true }
      runs := self.runs.map (wakeLink c) }

/-- A session as it is made. -/
def new (target : Target) (address name : Str) : Process := { target, address, name }

/-! ### The session of the registry -/

/-- The session as the registry and the central see it. -/
def toSession (self : Process) : DeviceSession where
  target := self.target
  address := self.address
  name := self.name
  lastSeen := self.lastSeen
  waitingForAdvertisement := self.waitingForAdvertisement
  stopRequested := self.stopRequested
  targetUpdated := self.targetUpdated
  commandQueue := self.courier.queue
  running := self.running

end Process

end SlimHub.Ble
