import SlimHub.Ble.Registry

/-! The BLE central: makes sessions and hands new targets to them.

    `sessions` holds every session object made so far, by its number; the registry refers to them.
    `ensureTarget` looks an address up through the aliases and retargets what it finds. -/

namespace SlimHub.Ble
open Text Nus

structure BleCentral where
  sessions : List DeviceSession
  registry : DeviceRegistry
  deriving DecidableEq

namespace BleCentral

def empty : BleCentral := ⟨[], DeviceRegistry.empty⟩

def ensureTarget (self : BleCentral) (target : Target) (now : ℚ) :
    BleCentral × Except PyError SessionRef :=
  match normalizeMac target.addressText with
  | .error exc => (self, .error exc)
  | .ok address =>
    match self.registry.get address with
    | .error exc => (self, .error exc)
    | .ok none =>
      match DeviceSession.new target with
      | .error exc => (self, .error exc)
      | .ok session =>
        let ref := self.sessions.length
        match self.registry.add ref session with
        | .error exc => (self, .error exc)
        | .ok registry => (⟨self.sessions ++ [session.start], registry⟩, .ok ref)
    | .ok (some ref) =>
      -- the target's address was normalised above, so `updateTarget` does not raise
      let sessions := self.sessions.modify ref fun session => (session.updateTarget target now).1
      ({ self with sessions }, .ok ref)

def ensureAddress (self : BleCentral) (address : Str) (now : ℚ) :
    BleCentral × Except PyError SessionRef :=
  match normalizeMac address with
  | .error exc => (self, .error exc)
  | .ok normalized => self.ensureTarget (.text normalized) now

/-- `DeviceRegistry.send_command`: the session whose queue took the command, none when the source
    returns `False`. -/
def sendCommand (self : BleCentral) (command : CommandEvent) :
    Except PyError (BleCentral × Option SessionRef) := do
  match ← self.registry.get command.address with
  | none => return (self, none)
  | some ref =>
    return ({ self with sessions := self.sessions.modify ref (·.sendCommand command) }, some ref)

/-! ### What the operations do -/

variable {self : BleCentral} {target : Target} {now : ℚ} {a : Str}

theorem ensureTarget_invalid {exc : PyError} (h : normalizeMac target.addressText = .error exc) :
    (self.ensureTarget target now).1 = self := by
  rw [ensureTarget, h]

/-- An address that resolves to no session gets a session of its own. -/
theorem ensureTarget_new (h : normalizeMac target.addressText = .ok a)
    (hfind : self.registry.find a = none) :
    (self.ensureTarget target now).1 =
      ⟨self.sessions ++ [DeviceSession.start { target, address := a, name := target.nameOr [] }],
        { self.registry with
          sessions := self.registry.sessions.set a self.sessions.length }⟩ := by
  have hidem := normalizeMac_idem h
  have hnew : DeviceSession.new target = .ok { target, address := a, name := target.nameOr [] } :=
    DeviceSession.new_ok_iff.mpr ⟨a, h, rfl⟩
  have hadd : self.registry.add self.sessions.length
      { target, address := a, name := target.nameOr [] } = .ok { self.registry with
        sessions := self.registry.sessions.set a self.sessions.length } :=
    DeviceRegistry.add_ok hidem
  simp only [ensureTarget, h, DeviceRegistry.get_ok hidem, hfind, hnew, hadd]

/-- An address that resolves to a session retargets it. -/
theorem ensureTarget_found {ref : SessionRef} (h : normalizeMac target.addressText = .ok a)
    (hfind : self.registry.find a = some ref) :
    (self.ensureTarget target now).1 =
      { self with sessions := self.sessions.modify ref (·.updateTarget target now |>.1) } := by
  simp only [ensureTarget, h, DeviceRegistry.get_ok (normalizeMac_idem h), hfind]

/-- `ensure_address` is `ensure_target` on the normalised text. -/
theorem ensureAddress_eq {address : Str} (h : normalizeMac address = .ok a) :
    self.ensureAddress address now = self.ensureTarget (.text a) now := by
  rw [ensureAddress, h]

theorem sendCommand_ok {command : CommandEvent} (h : normalizeMac command.address = .ok a) :
    self.sendCommand command = .ok
      (match self.registry.find a with
        | none => (self, none)
        | some ref =>
          ({ self with sessions := self.sessions.modify ref (·.sendCommand command) },
            some ref)) := by
  rw [sendCommand, DeviceRegistry.get_ok h]
  cases hf : self.registry.find a <;> simp [bind, Except.bind, pure, Except.pure]

end BleCentral

end SlimHub.Ble
