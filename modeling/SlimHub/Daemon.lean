import SlimHub.Ble.Central
import SlimHub.Lib.Machine
import SlimHub.Unitspace.Estimator

/-! The daemon's path from a notified frame to the commands that answer it.

        notify ──▶ task (source address, frame) ──▶ handleFrame: alias, config, log, estimate, send

    A notify callback creates a task with the address its session has at that moment; tasks start
    in the order of their creation, and scans and connect requests may run in between. Inside
    `handleFrame` no await has to wait (free locks, an unbounded queue), so a task runs in one
    step. What the config store and the log answer is an input of that step. -/

namespace SlimHub
open Text Nus Ble Unitspace

/-- A `handle_frame` task that has not started: the session that delivered the frame, and the
    arguments of the call. -/
structure FrameTask where
  session : SessionRef
  source : Str
  frame : ParsedFrame
  deriving DecidableEq

structure SlimHubDaemon where
  central : BleCentral
  estimator : UnitspaceStatus
  frameTasks : List FrameTask
  deriving DecidableEq

/-- What a `handle_frame` call did: the daemon after it, every command it sent with the session
    that took it, and what it raised. -/
structure Handled where
  daemon : SlimHubDaemon
  sent : List (CommandEvent × Option SessionRef)
  raised : Option PyError

/-- The commands that went to one session, in order. -/
def Handled.sentTo (self : Handled) (session : SessionRef) : List CommandEvent :=
  (self.sent.filter (·.2 = some session)).map Prod.fst

namespace SlimHubDaemon

def empty : SlimHubDaemon := ⟨BleCentral.empty, {}, []⟩

/-- The loop over the estimator's commands. -/
def sendCommands (self : SlimHubDaemon) : List CommandEvent → Handled
  | [] => ⟨self, [], none⟩
  | command :: commands =>
    match self.central.sendCommand command with
    | .error exc => ⟨self, [], some exc⟩
    | .ok (central, session) =>
      let rest := sendCommands { self with central } commands
      { rest with sent := (command, session) :: rest.sent }

/-- `config` is the outcome of loading and saving the config, `logged` that of logging the event. -/
def handleFrame (self : SlimHubDaemon) (sourceAddress : Str) (frame : ParsedFrame)
    (config : Except PyError DeviceConfig) (now : ℚ) (logged : Except PyError Unit) : Handled :=
  match self.central.registry.registerAlias frame.mac sourceAddress with
  | .error exc => ⟨self, [], some exc⟩
  | .ok registry =>
    let self := { self with central := { self.central with registry } }
    match config with
    | .error exc => ⟨self, [], some exc⟩
    | .ok config =>
      match logged with
      | .error exc => ⟨self, [], some exc⟩
      | .ok () =>
        match frame.parsed with
        | .alert _ => ⟨self, [], none⟩
        | .rawData packet =>
          let event : RawDataEvent :=
            { timestamp := now
              mac := frame.mac
              location := config.location
              packet
              payload := frame.payload
              deviceType := config.type }
          match self.estimator.handle event with
          | .error exc => ⟨self, [], some exc⟩
          | .ok (estimator, commands) => { self with estimator }.sendCommands commands

/-- The notify callback of a session, for one frame that its assembler cut. -/
def notify (self : SlimHubDaemon) (session : SessionRef) (data : Bytes) : Option SlimHubDaemon :=
  match self.central.sessions[session]? with
  | none => none
  | some s =>
    match parseFrame data with
    | .error _ => some self
    | .ok frame => some { self with frameTasks := self.frameTasks ++ [⟨session, s.address, frame⟩] }

/-- The oldest task runs. -/
def runTask (self : SlimHubDaemon) (config : Except PyError DeviceConfig) (now : ℚ)
    (logged : Except PyError Unit) : Option (FrameTask × Handled) :=
  match self.frameTasks with
  | [] => none
  | task :: frameTasks =>
    some (task, { self with frameTasks }.handleFrame task.source task.frame config now logged)

/-- What can happen: a scan result, a connect request, a frame from a session, a task. -/
inductive Action where
  | ensureTarget (target : Target) (now : ℚ)
  | ensureAddress (address : Str) (now : ℚ)
  | notify (session : SessionRef) (data : Bytes)
  | handle (config : Except PyError DeviceConfig) (now : ℚ) (logged : Except PyError Unit)

def step : Action → SlimHubDaemon → Option SlimHubDaemon
  | .ensureTarget target now, self =>
    some { self with central := (self.central.ensureTarget target now).1 }
  | .ensureAddress address now, self =>
    some { self with central := (self.central.ensureAddress address now).1 }
  | .notify session data, self => self.notify session data
  | .handle config now logged, self =>
    (self.runTask config now logged).map fun r => r.2.daemon

/-! ### What a step does -/

variable {self after : SlimHubDaemon}

/-- A notified frame waits as a task, or is no frame and changes nothing. -/
theorem step_notify {session : SessionRef} {data : Bytes}
    (h : step (.notify session data) self = some after) :
    ∃ s, self.central.sessions[session]? = some s ∧ (after = self ∨
      ∃ frame, parseFrame data = .ok frame ∧
        after = { self with frameTasks := self.frameTasks ++ [⟨session, s.address, frame⟩] }) := by
  rw [step, notify] at h
  cases hs : self.central.sessions[session]? with
  | none => rw [hs] at h; cases h
  | some s =>
    rw [hs] at h
    refine ⟨s, rfl, ?_⟩
    cases hframe : parseFrame data with
    | error exc =>
      simp only [hframe, Option.some.injEq] at h
      exact Or.inl h.symm
    | ok frame =>
      simp only [hframe, Option.some.injEq] at h
      exact Or.inr ⟨frame, rfl, h.symm⟩

/-- The oldest task is handled. -/
theorem step_handle {config : Except PyError DeviceConfig} {now : ℚ} {logged : Except PyError Unit}
    (h : step (.handle config now logged) self = some after) :
    ∃ task rest, self.frameTasks = task :: rest ∧
      after = ({ self with frameTasks := rest }.handleFrame task.source task.frame config now
        logged).daemon := by
  rw [step, runTask] at h
  cases htasks : self.frameTasks with
  | nil => rw [htasks] at h; cases h
  | cons task rest =>
    simp only [htasks, Option.map_some, Option.some.injEq] at h
    exact ⟨task, rest, rfl, h.symm⟩

end SlimHubDaemon

end SlimHub
