import SlimHub.Ble.Commands
import SlimHub.Tasks

/-! What the daemon sees of a session's tasks.

        daemon   update_target · send_command · stop ──▶ session ◀── _run · worker · helpers

    To the daemon a session is its attributes. What its own tasks do between two of the daemon's
    calls is, as far as the attributes tell, a list of `SessionChange`s: the daemon's model of a
    session has every step that the session's model has. -/

namespace SlimHub
open Text Nus Ble

/-! ### Changes -/

/-- What a session's own tasks may do to its attributes. -/
structure Owned (s t : DeviceSession) : Prop where
  target : t.target = s.target
  address : t.address = s.address
  name : t.name = s.name
  stopRequested : t.stopRequested = s.stopRequested
  targetUpdated : t.targetUpdated = true → s.targetUpdated = true
  queue : ∃ k, t.commandQueue = s.commandQueue.drop k
  running : t.running = true → s.running = true

/-- The session after some changes. -/
def changed (changes : List SessionChange) (session : DeviceSession) : DeviceSession :=
  changes.foldl (fun session change => change.apply session) session

theorem changed_append (changes more : List SessionChange) (session : DeviceSession) :
    changed (changes ++ more) session = changed more (changed changes session) :=
  List.foldl_append

theorem changed_takes (k : ℕ) (session : DeviceSession) :
    changed (List.replicate k .takesCommand) session =
      { session with commandQueue := session.commandQueue.drop k } := by
  induction k generalizing session with
  | zero => rfl
  | succ k ih =>
    rw [List.replicate_succ, changed, List.foldl_cons]
    refine (ih _).trans ?_
    simp only [SessionChange.apply, List.drop_drop, Nat.add_comm]

theorem changed_targetUpdated {session : DeviceSession} {updated : Bool}
    (h : updated = true → session.targetUpdated = true) : ∃ changes,
      changed changes session = { session with targetUpdated := updated } := by
  cases updated with
  | false => exact ⟨[.consumesUpdate], rfl⟩
  | true =>
    refine ⟨[], ?_⟩
    rw [← h rfl]
    rfl

theorem changed_running {session : DeviceSession} {running : Bool}
    (h : running = true → session.running = true) : ∃ changes,
      changed changes session = { session with running } := by
  cases running with
  | false => exact ⟨[.ends], rfl⟩
  | true =>
    refine ⟨[], ?_⟩
    rw [← h rfl]
    rfl

theorem changed_waiting (session : DeviceSession) (waiting : Bool) : ∃ changes,
    changed changes session = { session with waitingForAdvertisement := waiting } := by
  cases waiting with
  | false => exact ⟨[.connects], rfl⟩
  | true => exact ⟨[.waitsForAdvertisement], rfl⟩

/-- Whatever the tasks may do is a list of changes. -/
theorem Owned.changes {s t : DeviceSession} (h : Owned s t) : ∃ changes, changed changes s = t := by
  obtain ⟨k, hqueue⟩ := h.queue
  obtain ⟨updates, hupdates⟩ := changed_targetUpdated h.targetUpdated
  obtain ⟨waits, hwaits⟩ := changed_waiting (changed updates s) t.waitingForAdvertisement
  have hrunning : t.running = true → (changed waits (changed updates s)).running = true := by
    intro hrun
    rw [hwaits, hupdates]
    exact h.running hrun
  obtain ⟨ends, hends⟩ := changed_running hrunning
  refine ⟨updates ++ (waits ++ (ends ++ (.subscribes t.lastSeen ::
    List.replicate k .takesCommand))), ?_⟩
  rw [changed_append, changed_append, changed_append, hends, hwaits, hupdates]
  refine (changed_takes k _).trans ?_
  obtain ⟨htarget, haddress, hname, hstop, _, _, _⟩ := h
  simp only [SessionChange.apply, ← hqueue, ← htarget, ← haddress, ← hname, ← hstop]

namespace Ble.Process

variable {self after : Process}

/-! ### One task -/

/-- The actions that are no calls of the daemon. -/
def Action.Own : Action → Bool
  | .run .. | .helper .. | .worker .. | .linkLost _ | .disconnectSeen _ | .resumeStop _ => true
  | _ => false

/-- The session was started once. -/
structure StartedOnce (p : Process) : Prop where
  orderly : p.Orderly
  length : p.runs.length = 1

/-- The attributes that a session task leaves alone. -/
def face (p : Process) : Target × Str × Str := (p.target, p.address, p.name)

theorem face_waitForTargetUpdate (i : ℕ) : (self.waitForTargetUpdate i).face = self.face := by
  unfold waitForTargetUpdate
  split
  · rfl
  · split <;> rfl

theorem face_leave (i : ℕ) : (self.leave i).face = self.face := by
  simp only [leave]
  split
  · rfl
  · exact face_waitForTargetUpdate i

theorem face_cleanUp (i : ℕ) : (self.cleanUp i).face = self.face := by
  unfold cleanUp
  split
  · exact face_leave i
  · split
    · rfl
    · exact face_leave i

theorem face_fail (i : ℕ) (exc : PyError) : (self.fail i exc).face = self.face := face_cleanUp i

theorem face_settle (i : ℕ) (purpose : Purpose) : (self.settle i purpose).face = self.face := by
  cases purpose with
  | update => exact face_waitForTargetUpdate i
  | link c w => rfl

/-- A turn leaves the target, the address and the name alone. -/
theorem face_run {i : ℕ} {reply : Except PyError Bool} {now : ℚ}
    (h : self.run i reply now = some after) : after.face = self.face := by
  unfold run at h
  split at h
  · cases h
  · obtain rfl := Option.some.inj h
    exact face_waitForTargetUpdate i
  · split at h
    · obtain rfl := Option.some.inj h
      exact face_settle i _
    · split at h
      · obtain rfl := Option.some.inj h
        rfl
      · cases h
  · split at h
    · obtain rfl := Option.some.inj h
      exact face_settle i _
    · cases h
  · obtain rfl := Option.some.inj h
    rfl
  · split at h
    · obtain rfl := Option.some.inj h
      exact face_fail i _
    · obtain rfl := Option.some.inj h
      rfl
  · split at h
    · obtain rfl := Option.some.inj h
      exact face_fail i _
    · obtain rfl := Option.some.inj h
      rfl
  · split at h
    · obtain rfl := Option.some.inj h
      rfl
    · cases h
  · split at h
    · split at h
      · obtain rfl := Option.some.inj h
        rfl
      · obtain rfl := Option.some.inj h
        exact face_fail i _
    · obtain rfl := Option.some.inj h
      rfl
  · split at h
    · split at h
      · obtain rfl := Option.some.inj h
        exact face_cleanUp i
      · obtain rfl := Option.some.inj h
        exact face_fail i _
    · obtain rfl := Option.some.inj h
      exact face_cleanUp i
  · split at h
    · split at h
      · obtain rfl := Option.some.inj h
        exact face_leave i
      · obtain rfl := Option.some.inj h
        rfl
    · obtain rfl := Option.some.inj h
      exact face_leave i
  · cases h

theorem StartedOnce.running_iff (h : StartedOnce self) :
    self.running = true ↔ ∀ raised, self.runs[0]? ≠ some (.done raised) := by
  obtain ⟨phase, hruns⟩ := List.length_eq_one_iff.mp h.length
  have hphase : self.runs[0]? = some phase := by rw [hruns]; rfl
  by_cases hdone : ∀ raised, phase ≠ .done raised
  · have htask := h.orderly.oneTask.task 0 phase hphase hdone
    rw [Process.running_iff self htask hphase, hphase]
    simp
  · obtain ⟨raised, hraised⟩ := not_forall.mp hdone
    obtain rfl := not_not.mp hraised
    have hover : self.running = false := by
      unfold running
      cases self.task with
      | none => rfl
      | some i =>
        rw [hruns]
        cases i with
        | zero => rfl
        | succ i => simp
    simp [hover, hphase]

/-- A step that is no `start` makes no task. -/
theorem step_length {a : Action} (ha : a ≠ .start) (h : step a self = some after) :
    after.runs.length = self.runs.length := by
  cases a with
  | start => exact absurd rfl ha
  | run i reply now =>
    obtain ⟨_, _, _, hturn⟩ := run_turn h
    rw [hturn.runs, List.length_set]
  | stop =>
    obtain rfl := Option.some.inj h
    obtain ⟨_, _, hstop, _⟩ := self.stop_cases
    rw [hstop]
    exact List.length_map _
  | resumeStop j =>
    obtain ⟨_, raised, _, _, rfl⟩ := resumeStop_cases h
    cases raised <;> rfl
  | updateTarget target now =>
    obtain rfl := Option.some.inj h
    simp only [updateTarget]
    split
    · rfl
    · exact List.length_map _
  | sendCommand command =>
    obtain rfl := Option.some.inj h
    rfl
  | helper i side =>
    obtain ⟨_, _, _, _, ⟨_, rfl⟩ | ⟨_, rfl⟩⟩ := helper_cases h <;> exact List.length_set
  | worker j reply =>
    obtain ⟨_, _, rfl⟩ := Option.map_eq_some_iff.mp h
    rfl
  | linkLost c =>
    obtain rfl := Option.some.inj h
    rfl
  | disconnectSeen c =>
    obtain rfl := Option.some.inj h
    exact List.length_map _

theorem StartedOnce.step {a : Action} (h : StartedOnce self) (ha : a ≠ .start)
    (hstep : step a self = some after) : StartedOnce after := by
  refine ⟨h.orderly.step ?_ hstep, (step_length ha hstep).trans h.length⟩
  cases a with
  | start => exact absurd rfl ha
  | _ => rfl

/-! ### What the daemon sees -/

/-- A worker takes commands from the front of the queue. -/
theorem queue_take {stopRequested : Bool} {j : ℕ} (commands : List CommandEvent) (c : Courier) :
    ∃ k, (Courier.take stopRequested j commands c).queue = commands.drop k := by
  induction commands generalizing c with
  | nil => exact ⟨0, rfl⟩
  | cons command commands ih =>
    rw [Courier.take]
    split
    · exact ⟨1, rfl⟩
    · dsimp only
      split
      · exact ⟨1, rfl⟩
      · obtain ⟨k, hk⟩ := ih { c.fail command _ with queue := commands }
        exact ⟨k + 1, hk⟩

theorem queue_loop {stopRequested : Bool} {j : ℕ} (c : Courier) :
    ∃ k, (c.loop stopRequested j).queue = c.queue.drop k := by
  rw [Courier.loop]
  split
  · exact ⟨0, rfl⟩
  · exact queue_take c.queue c

theorem queue_work {c c' : Courier} {stopRequested : Bool} {j : ℕ} {reply : Except PyError Unit}
    (h : c.work stopRequested j reply = some c') : ∃ k, c'.queue = c.queue.drop k := by
  unfold Courier.work at h
  split at h
  · cases h
  · split at h
    · cases h
    · obtain rfl := Option.some.inj h
      exact ⟨0, rfl⟩
    · obtain rfl := Option.some.inj h
      refine ⟨0, ?_⟩
      split
      · rfl
      · exact Courier.wakeNext_queue _
    · obtain rfl := Option.some.inj h
      exact ⟨0, rfl⟩
  · split at h
    · obtain rfl := Option.some.inj h
      exact queue_loop c
    · cases h
    · obtain rfl := Option.some.inj h
      exact queue_take c.queue c
    · split at h
      · obtain rfl := Option.some.inj h
        exact queue_loop (c.record _ _)
      · obtain rfl := Option.some.inj h
        exact queue_loop (c.fail _ _)
    · cases h

/-- A task that only its helpers differ in is over when it was. -/
theorem StartedOnce.running_eq (h : StartedOnce self) (hafter : StartedOnce after)
    (hbeside : Beside self after) : after.running = self.running := by
  rw [Bool.eq_iff_iff, h.running_iff, hafter.running_iff]
  constructor
  · intro hnot raised hdone
    obtain ⟨next, hnext, hlike⟩ := hbeside.kept 0 _ hdone
    rw [(hlike.done raised).mpr rfl] at hnext
    exact hnot raised hnext
  · intro hnot raised hdone
    rcases hbeside.alike 0 _ hdone with ⟨phase, hphase, hlike⟩ | ⟨_, hcreated⟩
    · rw [(hlike.done raised).mp rfl] at hphase
      exact hnot raised hphase
    · cases hcreated

/-- What a step of a session's own does to what the daemon sees. -/
theorem StartedOnce.owned {a : Action} (h : StartedOnce self) (ha : a.Own = true)
    (hstep : Process.step a self = some after) : Owned self.toSession after.toSession := by
  have hafter : StartedOnce after := h.step (by rintro rfl; cases ha) hstep
  -- a step that touches neither the attributes nor the commands
  have aside (hbeside : Beside self after) (hface : after.face = self.face)
      (hstop : after.stopRequested = self.stopRequested)
      (hupdated : after.targetUpdated = self.targetUpdated)
      (hqueue : ∃ k, after.courier.queue = self.courier.queue.drop k) :
      Owned self.toSession after.toSession := by
    simp only [face, Prod.mk.injEq] at hface
    obtain ⟨htarget, haddress, hname⟩ := hface
    exact ⟨htarget, haddress, hname, hstop, fun hset => hupdated.symm.trans hset, hqueue,
      fun hrunning => (h.running_eq hafter hbeside).symm.trans hrunning⟩
  cases a with
  | run i reply now =>
    have hface := face_run hstep
    simp only [face, Prod.mk.injEq] at hface
    obtain ⟨htarget, haddress, hname⟩ := hface
    obtain ⟨phase, next, hphase, hturn⟩ := run_turn hstep
    obtain ⟨_, _, _, hqueue⟩ := Courier.employs_same hturn.employs
    refine ⟨htarget, haddress, hname, hturn.stopRequested, ?_, ⟨0, hqueue⟩, ?_⟩
    · intro hset
      rcases hturn.spends with ⟨hupdated⟩ | ⟨hwas⟩
      · exact hupdated.symm.trans hset
      · exact hwas
    · intro _
      obtain ⟨hlt, _⟩ := List.getElem?_eq_some_iff.mp hphase
      have hi : i = 0 := by rw [h.length] at hlt; omega
      refine h.running_iff.mpr ?_
      intro raised hdone
      rw [hi, hdone] at hphase
      exact run_not_done hstep (hi ▸ hdone) raised rfl
  | helper i side =>
    have hbeside := helper_beside hstep
    obtain ⟨_, _, _, _, ⟨_, rfl⟩ | ⟨_, rfl⟩⟩ := helper_cases hstep
    · exact aside hbeside rfl rfl rfl ⟨0, rfl⟩
    · exact aside hbeside rfl rfl rfl ⟨0, rfl⟩
  | worker j reply =>
    obtain ⟨courier, hwork, rfl⟩ := Option.map_eq_some_iff.mp hstep
    exact aside (.of_same rfl) rfl rfl rfl (queue_work hwork)
  | linkLost c =>
    obtain rfl := Option.some.inj hstep
    exact aside (.of_same rfl) rfl rfl rfl ⟨0, rfl⟩
  | disconnectSeen c =>
    obtain rfl := Option.some.inj hstep
    exact aside (.of_map (alike_wakeLink c) rfl) rfl rfl rfl ⟨0, rfl⟩
  | resumeStop j =>
    obtain ⟨_, raised, _, _, rfl⟩ := resumeStop_cases hstep
    cases raised with
    | none => exact aside (.of_same rfl) rfl rfl rfl ⟨0, rfl⟩
    | some exc => exact aside (.of_same rfl) rfl rfl rfl ⟨0, rfl⟩
  | _ => cases ha

/-- `stop` sets the event, as the daemon has it. -/
theorem StartedOnce.toSession_stop (h : StartedOnce self) :
    self.stop.toSession = { self.toSession with stopRequested := true } := by
  obtain ⟨task, stopping, hstop, _⟩ := self.stop_cases
  have hafter : StartedOnce self.stop := h.step (a := .stop) (by simp) rfl
  have hrunning : self.stop.running = self.running :=
    h.running_eq hafter (by rw [hstop]; exact .of_map alike_wakeStop rfl)
  simp only [toSession, hrunning]
  rw [hstop]

end Ble.Process

end SlimHub
