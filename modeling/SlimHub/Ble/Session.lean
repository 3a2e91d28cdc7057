import SlimHub.Events

/-! A device session: what the hub keeps for one BLE peripheral.

    A session is made for a connect target, a scan result or a plain address, and a later scan or
    connect request may hand it a new one. Commands for the peripheral wait in its queue. -/

namespace SlimHub.Ble
open Text Nus

/-- A connect target: a plain address, or a scan result with its address and advertised name. -/
inductive Target where
  | text (address : Str)
  | device (address : Str) (name : Option Str)
  deriving DecidableEq

namespace Target

/-- `str(getattr(target, "address", target))`. -/
def addressText : Target → Str
  | .text address => address
  | .device address _ => address

/-- `str(getattr(target, "name", "") or default)`. -/
def nameOr (default : Str) : Target → Str
  | .text _ => default
  | .device _ none => default
  | .device _ (some name) => orDefault name default

end Target

structure DeviceSession where
  target : Target
  address : Str
  name : Str
  lastSeen : ℚ := 0
  waitingForAdvertisement : Bool := false
  stopRequested : Bool := false
  targetUpdated : Bool := true
  commandQueue : List CommandEvent := []
  running : Bool := false
  deriving DecidableEq

/-- What `status` tells of a session. -/
structure SessionStatus where
  address : Str
  name : Str
  connected : Bool
  lastSeen : ℚ
  lastError : Option Str
  waitingForAdvertisement : Bool
  queuedCommands : ℕ
  deriving DecidableEq

namespace DeviceSession

def new (target : Target) : Except PyError DeviceSession := do
  let address ← normalizeMac target.addressText
  return { target, address, name := target.nameOr [] }

/-- `target` is stored before its address is normalised, which raises on a bad one. -/
def updateTarget (self : DeviceSession) (target : Target) (now : ℚ) :
    DeviceSession × Option PyError :=
  let self := { self with target }
  match normalizeMac target.addressText with
  | .error exc => (self, some exc)
  | .ok address =>
    ({ self with
        address
        name := target.nameOr self.name
        lastSeen := now
        waitingForAdvertisement := false
        targetUpdated := true }, none)

/-- `start`: the task runs `_run` until it ends. -/
def start (self : DeviceSession) : DeviceSession :=
  if self.running then self else { self with stopRequested := false, running := true }

def sendCommand (self : DeviceSession) (command : CommandEvent) : DeviceSession :=
  { self with commandQueue := self.commandQueue ++ [command] }

/-- `connected` and `last_error` belong to the session's connection. -/
def status (self : DeviceSession) (connected : Bool) (lastError : Option Str) : SessionStatus where
  address := self.address
  name := self.name
  connected := connected
  lastSeen := self.lastSeen
  lastError := lastError
  waitingForAdvertisement := self.waitingForAdvertisement
  queuedCommands := self.commandQueue.length

@[simp] theorem start_address (self : DeviceSession) : self.start.address = self.address := by
  unfold start; split <;> rfl

/-- A session's address is the normalised address of the target it was made for. -/
theorem new_ok_iff {target : Target} {session : DeviceSession} :
    new target = .ok session ↔ ∃ address, normalizeMac target.addressText = .ok address ∧
      session = { target, address, name := target.nameOr [] } := by
  unfold new
  cases normalizeMac target.addressText with
  | error exc => simp [bind, Except.bind]
  | ok address => simp [bind, Except.bind, pure, Except.pure, eq_comm]

theorem updateTarget_ok (self : DeviceSession) {target : Target} (now : ℚ) {address : Str}
    (h : normalizeMac target.addressText = .ok address) :
    (self.updateTarget target now).2 = none ∧
      (self.updateTarget target now).1.address = address ∧
        (self.updateTarget target now).1.commandQueue = self.commandQueue := by
  unfold updateTarget
  rw [h]
  exact ⟨rfl, rfl, rfl⟩

end DeviceSession

end SlimHub.Ble
