import SlimHub.Ble.Turns

/-! A session and the adapter lock.

        _run:  stop? ──▶ acquire ──▶ connect ──▶ subscribe ──▶ release
                           │  ▲
          held by a scan   ▼  │ released, and first in line
          or a session   waiters

    A task that finds the lock free takes it without a pause; else it waits in line. The stop event
    is looked at before the lock is asked for, and not again once the lock is there. -/

namespace SlimHub.Ble
open Text

/-- Who uses the lock: a task of this session, by its number, or another task, of a scan or of
    another session. -/
inductive User where
  | session (i : ℕ)
  | other
  deriving DecidableEq

/-- `asyncio.Lock`: who has it, and who waits for it, the first in line first. -/
structure AdapterLock where
  holder : Option User := none
  waiters : List User := []
  deriving DecidableEq

namespace AdapterLock

variable (self : AdapterLock) (user : User)

/-- `acquire` where it does not wait. -/
def take : Option AdapterLock :=
  if self.holder = none ∧ self.waiters = [] then some { self with holder := some user } else none

/-- `acquire` where it waits. -/
def enqueue : AdapterLock := { self with waiters := self.waiters ++ [user] }

/-- The first in line goes on once the lock is released. -/
def enter : Option AdapterLock :=
  match self.holder, self.waiters with
  | none, first :: waiters => if first = user then some ⟨some user, waiters⟩ else none
  | _, _ => none

def release : AdapterLock := { self with holder := none }

end AdapterLock

/-- A session with the lock. `connects` is history: the calls of `client.connect()` begun. -/
structure Adapter where
  session : Process
  lock : AdapterLock := {}
  connects : ℕ := 0
  deriving DecidableEq

/-- The task is inside `async with self.adapter_lock`. -/
def Phase.inLock : Phase → Bool
  | .connecting _ => true
  | .subscribing _ => true
  | _ => false

namespace Adapter

section
variable (self : Adapter) (i : ℕ)

/-- `await client.connect()` begins. -/
def connect (c : ℕ) : Adapter :=
  { self with session := self.session.goto i (.connecting c), connects := self.connects + 1 }

/-- `async with self.adapter_lock` begins, if that is where the task has come. -/
def ask : Adapter :=
  match self.session.runs[i]? with
  | some (.acquiring c) =>
    match self.lock.take (.session i) with
    | some lock => { self with lock }.connect i c
    | none => { self with lock := self.lock.enqueue (.session i) }
  | _ => self

/-- The end of `async with self.adapter_lock`, if the task has come from `phase` out of it. -/
def leave (phase : Phase) : Adapter :=
  if phase.inLock ∧ (self.session.runs[i]?.any Phase.inLock) = false then
    { self with lock := self.lock.release }
  else self

/-- A session task runs to its next await. -/
def run (reply : Except PyError Bool) (now : ℚ) : Option Adapter :=
  match self.session.runs[i]? with
  | none => none
  | some (.acquiring c) =>
    (self.lock.enter (.session i)).map fun lock => { self with lock }.connect i c
  | some phase =>
    (self.session.run i reply now).map fun session => ({ self with session }.leave i phase).ask i

end

/-- Steps of the session, and what other tasks do with the lock: they ask for it, go on with it
    after waiting, give it back, or are cancelled while they wait. -/
inductive Action where
  | session (action : Process.Action)
  | acquire
  | enter
  | release
  | giveUp (k : ℕ)

def step : Action → Adapter → Option Adapter
  | .session (.run i reply now), self => self.run i reply now
  | .session action, self =>
    (Process.step action self.session).map fun session => { self with session }
  | .acquire, self =>
    some { self with lock := (self.lock.take .other).getD (self.lock.enqueue .other) }
  | .enter, self => (self.lock.enter .other).map fun lock => { self with lock }
  | .release, self =>
    if self.lock.holder = some .other then some { self with lock := self.lock.release } else none
  | .giveUp k, self =>
    if self.lock.waiters[k]? = some .other then
      some { self with lock.waiters := self.lock.waiters.eraseIdx k }
    else none

/-- A session as it is made, with a free lock. -/
def new (target : Target) (address name : Str) : Adapter :=
  { session := .new target address name }

end Adapter

/-! ### Where a session task stands -/

/-- A phase that a task has at or inside the lock. -/
def Phase.AtLock : Phase → Prop
  | .acquiring _ => True
  | .connecting _ => True
  | .subscribing _ => True
  | _ => False

/-- A phase at the end of a round: at the lock only where no stop is requested. -/
def Phase.Outside (stopRequested : Bool) : Phase → Prop
  | .acquiring _ => stopRequested = false
  | .connecting _ => False
  | .subscribing _ => False
  | _ => True

namespace Process

variable {self after : Process} {i c : ℕ} {phase next : Phase} {reply : Except PyError Bool}

theorem goto_phase (h : (self.goto i phase).runs[i]? = some next) : next = phase := by
  simp only [goto, List.getElem?_set_self'] at h
  obtain ⟨_, _, rfl⟩ := Option.map_eq_some_iff.mp h
  rfl

theorem waitForTargetUpdate_outside (h : (self.waitForTargetUpdate i).runs[i]? = some next) :
    next.Outside self.stopRequested := by
  unfold waitForTargetUpdate at h
  split at h
  · rw [goto_phase h]
    trivial
  · rename_i hstop
    split at h
    · rw [goto_phase h]
      exact Bool.eq_false_of_not_eq_true hstop
    · rw [goto_phase h]
      trivial

theorem leave_outside (h : (self.leave i).runs[i]? = some next) :
    next.Outside self.stopRequested := by
  simp only [leave] at h
  split at h
  · rw [goto_phase h]
    trivial
  · have hnext := waitForTargetUpdate_outside h
    exact hnext

theorem cleanUp_outside (h : (self.cleanUp i).runs[i]? = some next) :
    next.Outside self.stopRequested := by
  unfold cleanUp at h
  split at h
  · exact leave_outside h
  · split at h
    · rw [goto_phase h]
      trivial
    · exact leave_outside h

theorem fail_outside {exc : PyError} (h : (self.fail i exc).runs[i]? = some next) :
    next.Outside self.stopRequested := by
  unfold fail at h
  have hnext := cleanUp_outside h
  exact hnext

theorem settle_outside {purpose : Purpose} (h : (self.settle i purpose).runs[i]? = some next) :
    next.Outside self.stopRequested := by
  cases purpose with
  | update => exact waitForTargetUpdate_outside h
  | link c w =>
    rw [goto_phase h]
    trivial

/-- A task comes to the lock only where no stop is requested. -/
theorem run_acquiring {now : ℚ} (h : self.run i reply now = some after)
    (hc : after.runs[i]? = some (.acquiring c)) : self.stopRequested = false := by
  cases hphase : self.runs[i]? with
  | none => simp [run, hphase] at h
  | some phase =>
    unfold run at h
    rw [hphase] at h
    cases phase with
    | created =>
      obtain rfl := Option.some.inj h
      exact waitForTargetUpdate_outside hc
    | racing race purpose =>
      simp only at h
      split_ifs at h
      · obtain rfl := Option.some.inj h
        exact settle_outside hc
      · obtain rfl := Option.some.inj h
        cases goto_phase hc
    | gathering race purpose =>
      simp only at h
      split_ifs at h
      obtain rfl := Option.some.inj h
      exact settle_outside hc
    | acquiring c' =>
      obtain rfl := Option.some.inj h
      cases goto_phase hc
    | connecting c' =>
      cases reply with
      | error exc =>
        obtain rfl := Option.some.inj h
        exact fail_outside hc
      | ok isConnected =>
        obtain rfl := Option.some.inj h
        cases goto_phase hc
    | subscribing c' =>
      cases reply with
      | error exc =>
        obtain rfl := Option.some.inj h
        exact fail_outside hc
      | ok _ =>
        obtain rfl := Option.some.inj h
        cases goto_phase hc
    | joining c' w =>
      simp only at h
      split_ifs at h
      obtain rfl := Option.some.inj h
      cases goto_phase hc
    | unsubscribing c' =>
      cases reply with
      | error exc =>
        simp only at h
        split_ifs at h
        · obtain rfl := Option.some.inj h
          cases goto_phase hc
        · obtain rfl := Option.some.inj h
          exact fail_outside hc
      | ok _ =>
        obtain rfl := Option.some.inj h
        cases goto_phase hc
    | disconnecting c' =>
      cases reply with
      | error exc =>
        simp only at h
        split_ifs at h
        · obtain rfl := Option.some.inj h
          exact cleanUp_outside hc
        · obtain rfl := Option.some.inj h
          exact fail_outside hc
      | ok _ =>
        obtain rfl := Option.some.inj h
        exact cleanUp_outside hc
    | cleaning c' =>
      cases reply with
      | error exc =>
        simp only at h
        split_ifs at h
        · obtain rfl := Option.some.inj h
          exact leave_outside hc
        · obtain rfl := Option.some.inj h
          cases goto_phase hc
      | ok _ =>
        obtain rfl := Option.some.inj h
        exact leave_outside hc
    | done raised => cases h

/-! ### The steps that are no turn of a session task -/

/-- The tasks at or inside the lock are the same. -/
def SameAtLock (self after : Process) : Prop := ∀ (i : ℕ) (phase : Phase), phase.AtLock →
  (after.runs[i]? = some phase ↔ self.runs[i]? = some phase)

/-- Two phases elsewhere are alike to the lock. -/
theorem elsewhere_iff {before after next : Phase} (hbefore : ¬before.AtLock) (hafter : ¬after.AtLock)
    (hnext : next.AtLock) : before = next ↔ after = next := by
  refine iff_of_false ?_ ?_
  · rintro rfl
    exact hbefore hnext
  · rintro rfl
    exact hafter hnext

theorem SameAtLock.of_same (h : after.runs = self.runs) : SameAtLock self after := by
  intro i phase _
  rw [h]

theorem SameAtLock.of_map {f : Phase → Phase}
    (hf : ∀ phase next : Phase, next.AtLock → (f phase = next ↔ phase = next))
    (h : after.runs = self.runs.map f) : SameAtLock self after := by
  intro i next hnext
  rw [h, List.getElem?_map]
  cases self.runs[i]? with
  | none => simp
  | some phase => simpa using hf phase next hnext

theorem SameAtLock.of_set (hphase : self.runs[i]? = some phase) (hbefore : ¬phase.AtLock)
    (hnext : ¬next.AtLock) (h : after.runs = self.runs.set i next) : SameAtLock self after := by
  obtain ⟨hlt, _⟩ := List.getElem?_eq_some_iff.mp hphase
  intro j other hother
  rw [h]
  rcases eq_or_ne i j with rfl | hij
  · rw [List.getElem?_set_self hlt, hphase, Option.some_inj, Option.some_inj]
    exact elsewhere_iff hnext hbefore hother
  · rw [List.getElem?_set_ne hij]

theorem SameAtLock.of_append (h : after.runs = self.runs ++ [.created]) : SameAtLock self after := by
  intro i phase hphase
  rw [h, List.getElem?_append]
  split
  · rfl
  · rename_i hge
    rw [List.getElem?_eq_none (not_lt.mp hge), List.getElem?_singleton]
    split
    · simp only [Option.some.injEq, reduceCtorEq, iff_false]
      rintro rfl
      exact hphase
    · rfl

theorem wakeStop_atLock (phase next : Phase) (hnext : next.AtLock) :
    wakeStop phase = next ↔ phase = next := by
  cases phase with
  | racing race purpose => exact elsewhere_iff id id hnext
  | _ => rfl

theorem wakeUpdate_atLock (phase next : Phase) (hnext : next.AtLock) :
    wakeUpdate phase = next ↔ phase = next := by
  unfold wakeUpdate
  split
  · exact elsewhere_iff id id hnext
  · rfl

theorem wakeLink_atLock (c : ℕ) (phase next : Phase) (hnext : next.AtLock) :
    wakeLink c phase = next ↔ phase = next := by
  unfold wakeLink
  split
  · exact elsewhere_iff id id hnext
  · rfl

theorem step_sameAtLock {a : Action} (h : step a self = some after)
    (ha : ∀ i reply now, a ≠ .run i reply now) : SameAtLock self after := by
  cases a with
  | run i reply now => exact absurd rfl (ha i reply now)
  | start =>
    obtain rfl := Option.some.inj h
    unfold start
    split
    · exact .of_same rfl
    · exact .of_append rfl
  | stop =>
    obtain rfl := Option.some.inj h
    obtain ⟨_, _, hstop, _⟩ := self.stop_cases
    rw [hstop]
    exact .of_map wakeStop_atLock rfl
  | resumeStop j =>
    obtain ⟨i, raised, _, _, rfl⟩ := resumeStop_cases h
    cases raised <;> exact .of_same rfl
  | updateTarget target now =>
    obtain rfl := Option.some.inj h
    simp only [updateTarget]
    split
    · exact .of_same rfl
    · exact .of_map wakeUpdate_atLock rfl
  | sendCommand command =>
    obtain rfl := Option.some.inj h
    exact .of_same rfl
  | helper i side =>
    obtain ⟨_, _, _, _, ⟨hphase, rfl⟩ | ⟨hphase, rfl⟩⟩ := helper_cases h
    · exact .of_set hphase id id rfl
    · exact .of_set hphase id id rfl
  | worker j reply =>
    obtain ⟨courier, _, rfl⟩ := Option.map_eq_some_iff.mp h
    exact .of_same rfl
  | linkLost c =>
    obtain rfl := Option.some.inj h
    exact .of_same rfl
  | disconnectSeen c =>
    obtain rfl := Option.some.inj h
    exact .of_map (wakeLink_atLock c) rfl

/-- Only `start` clears the stop event. -/
theorem step_stopRequested {a : Action} (h : step a self = some after) (ha : a ≠ .start)
    (hstop : self.stopRequested = true) : after.stopRequested = true := by
  cases a with
  | run i reply now =>
    obtain ⟨_, _, _, hturn⟩ := run_turn h
    rw [hturn.stopRequested, hstop]
  | start => exact absurd rfl ha
  | stop =>
    obtain rfl := Option.some.inj h
    obtain ⟨_, _, hcases, _⟩ := self.stop_cases
    rw [hcases]
  | resumeStop j =>
    obtain ⟨i, raised, _, _, rfl⟩ := resumeStop_cases h
    cases raised <;> exact hstop
  | updateTarget target now =>
    obtain rfl := Option.some.inj h
    simp only [updateTarget]
    split <;> exact hstop
  | sendCommand command =>
    obtain rfl := Option.some.inj h
    exact hstop
  | helper i side =>
    obtain ⟨_, _, _, _, ⟨_, rfl⟩ | ⟨_, rfl⟩⟩ := helper_cases h <;> exact hstop
  | worker j reply =>
    obtain ⟨courier, _, rfl⟩ := Option.map_eq_some_iff.mp h
    exact hstop
  | linkLost c =>
    obtain rfl := Option.some.inj h
    exact hstop
  | disconnectSeen c =>
    obtain rfl := Option.some.inj h
    exact hstop

end Process

/-! ### What a turn does with the lock -/

namespace Adapter

variable {self after : Adapter} {i c : ℕ} {phase : Phase} {reply : Except PyError Bool} {now : ℚ}

/-- A task that waited in line begins to connect. -/
theorem run_waiting (hphase : self.session.runs[i]? = some (.acquiring c)) :
    self.run i reply now =
      (self.lock.enter (.session i)).map fun lock => { self with lock }.connect i c := by
  simp only [run, hphase]

/-- Any other task takes its turn, gives the lock back if it has come out of it, and asks for it if
    it has come to it. -/
theorem run_other (hphase : self.session.runs[i]? = some phase) (hne : ∀ c, phase ≠ .acquiring c) :
    self.run i reply now = (self.session.run i reply now).map fun session =>
      ({ self with session }.leave i phase).ask i := by
  simp only [run, hphase]

theorem leave_session (phase : Phase) : (self.leave i phase).session = self.session := by
  unfold leave
  split <;> rfl

theorem leave_connects (phase : Phase) : (self.leave i phase).connects = self.connects := by
  unfold leave
  split <;> rfl

theorem ask_of_not_acquiring (h : ∀ c, self.session.runs[i]? ≠ some (.acquiring c)) :
    self.ask i = self := by
  unfold ask
  split
  · rename_i c hc
    exact absurd hc (h c)
  · rfl

/-- What other tasks leave alone: a session task has the lock only if it had it, and waits as often
    as it did. -/
structure OthersUse (lock after : AdapterLock) : Prop where
  holder : ∀ i, after.holder = some (.session i) → lock.holder = some (.session i)
  waiters : ∀ i, after.waiters.count (.session i) = lock.waiters.count (.session i)

theorem OthersUse.acquire (lock : AdapterLock) :
    OthersUse lock ((lock.take .other).getD (lock.enqueue .other)) := by
  unfold AdapterLock.take
  split
  · exact ⟨fun i hi => (by cases hi), fun _ => rfl⟩
  · exact ⟨fun _ hi => hi, fun i => by simp [AdapterLock.enqueue, List.count_append]⟩

theorem enter_first (user : User) (waiters : List User) :
    AdapterLock.enter ⟨none, user :: waiters⟩ user = some ⟨some user, waiters⟩ :=
  if_pos rfl

theorem enter_cases {lock after : AdapterLock} {user : User} (h : lock.enter user = some after) :
    ∃ waiters, lock = ⟨none, user :: waiters⟩ ∧ after = ⟨some user, waiters⟩ := by
  obtain ⟨holder, waiters⟩ := lock
  unfold AdapterLock.enter at h
  split at h
  · rename_i hholder hwaiters
    split_ifs at h with huser
    obtain rfl := Option.some.inj h
    refine ⟨_, ?_, rfl⟩
    rw [← huser, ← hwaiters, ← hholder]
  · cases h

theorem OthersUse.enter {lock after : AdapterLock} (h : lock.enter .other = some after) :
    OthersUse lock after := by
  obtain ⟨waiters, rfl, rfl⟩ := enter_cases h
  exact ⟨fun i hi => (by cases hi), fun i => by simp⟩

theorem OthersUse.giveUp {lock : AdapterLock} {k : ℕ} (h : lock.waiters[k]? = some .other) :
    OthersUse lock { lock with waiters := lock.waiters.eraseIdx k } := by
  obtain ⟨hk, hget⟩ := List.getElem?_eq_some_iff.mp h
  refine ⟨fun _ hi => hi, fun i => ?_⟩
  have hperm := (List.getElem_cons_eraseIdx_perm hk).count_eq (User.session i)
  simpa [hget] using hperm

/-- What a step can be: a task that waited in line gets the lock, another one takes its turn, the
    session takes any other step, or other tasks use the lock. -/
inductive Moves (self : Adapter) : Action → Adapter → Prop where
  | granted {i : ℕ} {c : ℕ} {reply : Except PyError Bool} {now : ℚ} {waiters : List User}
      (phase : self.session.runs[i]? = some (.acquiring c))
      (lock : self.lock = ⟨none, .session i :: waiters⟩) :
      Moves self (.session (.run i reply now))
        ({ self with lock := ⟨some (.session i), waiters⟩ }.connect i c)
  | turned {i : ℕ} {reply : Except PyError Bool} {now : ℚ} {phase : Phase} {session : Process}
      (runs : self.session.runs[i]? = some phase) (busy : ∀ c, phase ≠ .acquiring c)
      (run : self.session.run i reply now = some session) :
      Moves self (.session (.run i reply now)) (({ self with session }.leave i phase).ask i)
  | beside {action : Process.Action} {session : Process}
      (turn : ∀ i reply now, action ≠ .run i reply now)
      (step : Process.step action self.session = some session) :
      Moves self (.session action) { self with session }
  | others {a : Action} {lock : AdapterLock} (action : ∀ action, a ≠ .session action)
      (use : OthersUse self.lock lock) : Moves self a { self with lock }

theorem step_moves {a : Action} (h : step a self = some after) : Moves self a after := by
  cases a with
  | session action =>
    by_cases hrun : ∃ i reply now, action = .run i reply now
    · obtain ⟨i, reply, now, rfl⟩ := hrun
      change self.run i reply now = some after at h
      cases hphase : self.session.runs[i]? with
      | none => simp [run, hphase] at h
      | some phase =>
        by_cases hwaits : ∃ c, phase = .acquiring c
        · obtain ⟨c, rfl⟩ := hwaits
          rw [run_waiting hphase] at h
          obtain ⟨lock, hlock, rfl⟩ := Option.map_eq_some_iff.mp h
          obtain ⟨waiters, hbefore, rfl⟩ := enter_cases hlock
          exact .granted hphase hbefore
        · have hbusy : ∀ c, phase ≠ .acquiring c := fun c hc => hwaits ⟨c, hc⟩
          rw [run_other hphase hbusy] at h
          obtain ⟨session, hsession, rfl⟩ := Option.map_eq_some_iff.mp h
          exact .turned hphase hbusy hsession
    · have hturn : ∀ i reply now, action ≠ .run i reply now :=
        fun i reply now heq => hrun ⟨i, reply, now, heq⟩
      have hstep : (Process.step action self.session).map (fun session => { self with session }) =
          some after := by
        cases action with
        | run i reply now => exact absurd rfl (hturn i reply now)
        | _ => exact h
      obtain ⟨session, hsession, rfl⟩ := Option.map_eq_some_iff.mp hstep
      exact .beside hturn hsession
  | acquire =>
    obtain rfl := Option.some.inj h
    exact .others (by simp) (.acquire self.lock)
  | enter =>
    obtain ⟨lock, hlock, rfl⟩ := Option.map_eq_some_iff.mp h
    exact .others (by simp) (.enter hlock)
  | release =>
    simp only [step] at h
    split_ifs at h
    obtain rfl := Option.some.inj h
    exact .others (by simp) ⟨fun i hi => (by cases hi), fun _ => rfl⟩
  | giveUp k =>
    simp only [step] at h
    split_ifs at h with hwaiter
    obtain rfl := Option.some.inj h
    exact .others (by simp) (.giveUp hwaiter)

/-! ### After a stop -/

/-- A stop is requested, and no task waits for the lock. -/
structure Barred (s : Adapter) : Prop where
  stop : s.session.stopRequested = true
  waits : ∀ (i c : ℕ), s.session.runs[i]? ≠ some (.acquiring c)

/-- Until the next `start` no task comes to the lock, and no connection is begun. -/
theorem Barred.step {a : Action} (h : Barred self) (ha : a ≠ .session .start)
    (hstep : step a self = some after) : Barred after ∧ after.connects = self.connects := by
  cases step_moves hstep with
  | granted hphase _ => exact absurd hphase (h.waits _ _)
  | @turned i reply now phase session hphase hbusy hrun =>
    have haway : ∀ (j c : ℕ), session.runs[j]? ≠ some (.acquiring c) := by
      intro j c hc
      rcases eq_or_ne i j with rfl | hij
      · cases h.stop.symm.trans (Process.run_acquiring hrun hc)
      · obtain ⟨_, next, _, hturn⟩ := Process.run_turn hrun
        rw [hturn.runs, List.getElem?_set_ne hij] at hc
        exact h.waits j c hc
    have hstop : session.stopRequested = true :=
      Process.step_stopRequested (a := .run i reply now) hrun (by simp) h.stop
    rw [ask_of_not_acquiring (by rw [leave_session]; exact haway i)]
    refine ⟨⟨?_, ?_⟩, leave_connects phase⟩
    · rw [leave_session]
      exact hstop
    · rw [leave_session]
      exact haway
  | @beside action session hturn hsession =>
    have hstart : action ≠ .start := fun heq => ha (congrArg Action.session heq)
    refine ⟨⟨Process.step_stopRequested hsession hstart h.stop, fun i c hc => ?_⟩, rfl⟩
    exact h.waits i c ((Process.step_sameAtLock hsession hturn i (.acquiring c) trivial).mp hc)
  | others => exact ⟨⟨h.stop, h.waits⟩, rfl⟩

theorem Barred.run {as : List Action} (h : Barred self) (has : ∀ a ∈ as, a ≠ .session .start)
    (hrun : Machine.run Adapter.step as self = some after) : after.connects = self.connects := by
  induction as generalizing self with
  | nil => rw [← Option.some.inj hrun]
  | cons a as ih =>
    obtain ⟨mid, hmid, hrest⟩ := Option.bind_eq_some_iff.mp hrun
    obtain ⟨hbarred, hsame⟩ := h.step (has a List.mem_cons_self) hmid
    rw [← hsame]
    exact ih hbarred (fun b hb => has b (List.mem_cons_of_mem a hb)) hrest

/-! ### The line -/

/-- The lock knows the session's tasks: its holder is inside the block, and in line is, once, each
    task that waits. -/
structure Queued (s : Adapter) : Prop where
  holder : ∀ i, s.lock.holder = some (.session i) → (s.session.runs[i]?.any Phase.inLock) = true
  waits : ∀ (i c : ℕ), s.session.runs[i]? = some (.acquiring c) →
    s.lock.waiters.count (.session i) = 1
  waiting : ∀ i, .session i ∈ s.lock.waiters → ∃ c, s.session.runs[i]? = some (.acquiring c)

theorem Queued.new (target : Target) (address name : Str) : Queued (new target address name) where
  holder i h := by cases h
  waits i c h := by simp [Adapter.new, Process.new] at h
  waiting i h := absurd h List.not_mem_nil

/-- A task that comes to the lock takes it or gets in line. -/
theorem Queued.ask (hholder : ∀ j, self.lock.holder = some (.session j) →
      (self.session.runs[j]?.any Phase.inLock) = true)
    (hwaits : ∀ (j c : ℕ), i ≠ j → self.session.runs[j]? = some (.acquiring c) →
      self.lock.waiters.count (.session j) = 1)
    (hwaiting : ∀ j, .session j ∈ self.lock.waiters →
      i ≠ j ∧ ∃ c, self.session.runs[j]? = some (.acquiring c)) : Queued (self.ask i) := by
  have hnot : User.session i ∉ self.lock.waiters := fun hmem => (hwaiting i hmem).1 rfl
  unfold Adapter.ask
  split
  · rename_i c hc
    obtain ⟨hlt, _⟩ := List.getElem?_eq_some_iff.mp hc
    unfold AdapterLock.take
    split_ifs with hfree
    · obtain ⟨_, hnone⟩ := hfree
      refine ⟨fun j hj => ?_, fun j d hd => ?_, fun j hj => ?_⟩
      · obtain rfl : i = j := User.session.inj (Option.some.inj hj)
        simp [connect, Process.goto, List.getElem?_set_self hlt, Phase.inLock]
      · rcases eq_or_ne i j with rfl | hij
        · cases Process.goto_phase hd
        · simp only [connect, Process.goto, List.getElem?_set_ne hij] at hd
          exact hwaits j d hij hd
      · simp [connect, hnone] at hj
    · refine ⟨hholder, fun j d hd => ?_, fun j hj => ?_⟩
      · rcases eq_or_ne i j with rfl | hij
        · simp [AdapterLock.enqueue, List.count_append, List.count_eq_zero_of_not_mem hnot]
        · have hother : User.session i ≠ .session j := fun heq => hij (User.session.inj heq)
          simpa [AdapterLock.enqueue, List.count_append, List.count_singleton, hother] using
            hwaits j d hij hd
      · rcases List.mem_append.mp hj with hj | hj
        · exact (hwaiting j hj).2
        · obtain rfl : j = i := User.session.inj (List.mem_singleton.mp hj)
          exact ⟨c, hc⟩
  · rename_i hc
    refine ⟨hholder, fun j d hd => ?_, fun j hj => (hwaiting j hj).2⟩
    rcases eq_or_ne i j with rfl | hij
    · exact absurd hd (hc d)
    · exact hwaits j d hij hd

theorem Queued.step {a : Action} (h : Queued self) (hstep : step a self = some after) :
    Queued after := by
  cases step_moves hstep with
  | @granted i c reply now waiters hphase hlock =>
    obtain ⟨hlt, _⟩ := List.getElem?_eq_some_iff.mp hphase
    have hcount := h.waits i c hphase
    rw [hlock, List.count_cons_self] at hcount
    have hnot : User.session i ∉ waiters := List.count_eq_zero.mp (by omega)
    refine ⟨fun j hj => ?_, fun j d hd => ?_, fun j hj => ?_⟩
    · obtain rfl : i = j := User.session.inj (Option.some.inj hj)
      simp [connect, Process.goto, List.getElem?_set_self hlt, Phase.inLock]
    · rcases eq_or_ne i j with rfl | hij
      · cases Process.goto_phase hd
      · simp only [connect, Process.goto, List.getElem?_set_ne hij] at hd
        have hother : User.session i ≠ .session j := fun heq => hij (User.session.inj heq)
        simpa [connect, hlock, List.count_cons, hother] using h.waits j d hd
    · have hij : i ≠ j := by
        rintro rfl
        exact hnot hj
      simp only [connect, Process.goto, List.getElem?_set_ne hij]
      exact h.waiting j (hlock ▸ List.mem_cons_of_mem _ hj)
  | @turned i reply now phase session hphase hbusy hrun =>
    obtain ⟨_, next, _, hturn⟩ := Process.run_turn hrun
    have hother : ∀ {j : ℕ}, i ≠ j → session.runs[j]? = self.session.runs[j]? := fun hij => by
      rw [hturn.runs, List.getElem?_set_ne hij]
    have hwaiters : ({ self with session }.leave i phase).lock.waiters = self.lock.waiters := by
      unfold leave
      split <;> rfl
    refine Queued.ask (fun j hj => ?_) (fun j d hij hd => ?_) fun j hj => ?_
    · rw [leave_session]
      unfold leave at hj
      split at hj
      · cases hj
      · rename_i hin
        have hbefore := h.holder j hj
        rcases eq_or_ne i j with rfl | hij
        · -- the holder is still inside, or it would have given the lock back
          rw [hphase, Option.any_some] at hbefore
          by_contra hout
          exact hin ⟨hbefore, Bool.eq_false_of_not_eq_true hout⟩
        · rw [hother hij]
          exact hbefore
    · rw [leave_session] at hd
      rw [hwaiters]
      exact h.waits j d (hother hij ▸ hd)
    · rw [hwaiters] at hj
      obtain ⟨d, hd⟩ := h.waiting j hj
      have hij : i ≠ j := by
        rintro rfl
        exact hbusy d (Option.some.inj (hphase.symm.trans hd))
      exact ⟨hij, d, by rw [leave_session]; exact (hother hij).trans hd⟩
  | @beside action session hturn hsession =>
    have hsame := Process.step_sameAtLock hsession hturn
    refine ⟨fun i hi => ?_, fun i c hc => ?_, fun i hi => ?_⟩
    · obtain ⟨phase, hphase, hin⟩ := (Option.any_eq_true _ _).mp (h.holder i hi)
      have hat : phase.AtLock := by
        cases phase with
        | connecting c => trivial
        | subscribing c => trivial
        | _ => cases hin
      exact (Option.any_eq_true _ _).mpr ⟨phase, (hsame i phase hat).mpr hphase, hin⟩
    · exact h.waits i c ((hsame i (.acquiring c) trivial).mp hc)
    · obtain ⟨c, hc⟩ := h.waiting i hi
      exact ⟨c, (hsame i (.acquiring c) trivial).mpr hc⟩
  | @others _ lock _ huse =>
    refine ⟨fun i hi => h.holder i (huse.holder i hi), fun i c hc => ?_, fun i hi => ?_⟩
    · rw [huse.waiters]
      exact h.waits i c hc
    · refine h.waiting i (List.count_pos_iff.mp ?_)
      rw [← huse.waiters]
      exact List.count_pos_iff.mpr hi

/-- A run without a `start` gets to another `client.connect()`. -/
def Connects (self : Adapter) : Prop := ∃ as after, (∀ a ∈ as, a ≠ .session .start) ∧
  Machine.run step as self = some after ∧ self.connects < after.connects

theorem Connects.cons {a : Action} {mid : Adapter} (ha : a ≠ .session .start)
    (hstep : step a self = some mid) (hsame : mid.connects = self.connects) (h : Connects mid) :
    Connects self := by
  obtain ⟨as, after, has, hrun, hlt⟩ := h
  refine ⟨a :: as, after, ?_, ?_, hsame ▸ hlt⟩
  · rintro b hb
    rcases List.mem_cons.mp hb with rfl | hb
    · exact ha
    · exact has b hb
  · rw [Machine.run, hstep]
    exact hrun

/-- With the lock released the line moves up to the first task of the session. -/
theorem connects_of_line {waiters : List User} (h : Queued self)
    (hlock : self.lock = ⟨none, waiters⟩) (hwaits : .session i ∈ waiters) : Connects self := by
  induction waiters generalizing self with
  | nil => cases hwaits
  | cons first waiters ih =>
    cases first with
    | session j =>
      obtain ⟨c, hc⟩ := h.waiting j (by rw [hlock]; exact List.mem_cons_self)
      refine ⟨[.session (.run j (.ok true) 0)],
        { self with lock := ⟨some (.session j), waiters⟩ }.connect j c, by simp, ?_,
        Nat.lt_succ_self self.connects⟩
      have hstep : step (.session (.run j (.ok true) 0)) self =
          some ({ self with lock := ⟨some (.session j), waiters⟩ }.connect j c) := by
        rw [step, run_waiting hc, hlock, enter_first]
        rfl
      rw [Machine.run, hstep]
      rfl
    | other =>
      have henter : step .enter self = some { self with lock := ⟨some .other, waiters⟩ } := by
        rw [step, hlock, enter_first]
        rfl
      have hrelease : step .release { self with lock := ⟨some .other, waiters⟩ } =
          some { self with lock := ⟨none, waiters⟩ } := by
        rw [step, if_pos rfl]
        rfl
      refine .cons (by simp) henter rfl (.cons (by simp) hrelease rfl ?_)
      refine ih ((h.step henter).step hrelease) rfl ?_
      simpa using hwaits

/-- A task in line gets the lock also after a stop: whoever has it can come to give it back. -/
theorem connects_of_waits (h : Queued self) (hstop : self.session.stopRequested = true)
    (hc : self.session.runs[i]? = some (.acquiring c)) : Connects self := by
  have hwaits : .session i ∈ self.lock.waiters :=
    List.count_pos_iff.mp (by rw [h.waits i c hc]; exact Nat.one_pos)
  cases hholder : self.lock.holder with
  | none => exact connects_of_line h (by rw [← hholder]) hwaits
  | some user =>
    cases user with
    | other =>
      have hrelease : step .release self =
          some { self with lock := ⟨none, self.lock.waiters⟩ } := by
        rw [step, if_pos hholder]
        rfl
      exact .cons (by simp) hrelease rfl (connects_of_line (h.step hrelease) rfl hwaits)
    | session j =>
      obtain ⟨phase, hphase, hin⟩ := (Option.any_eq_true _ _).mp (h.holder j hholder)
      -- its call fails, and it leaves the block
      let failed := self.session.fail j ⟨.bleakError, []⟩
      have hrun : self.session.run j (.error ⟨.bleakError, []⟩) 0 = some failed := by
        cases phase with
        | connecting c => simp only [Process.run, hphase, failed]
        | subscribing c => simp only [Process.run, hphase, failed]
        | _ => cases hin
      have hbusy : ∀ c, phase ≠ .acquiring c := by
        rintro c rfl
        cases hin
      have houtside : ∀ next, failed.runs[j]? = some next → next.Outside true := by
        intro next hnext
        rw [← hstop]
        exact Process.fail_outside hnext
      have hleave : { self with session := failed }.leave j phase =
          { self with session := failed, lock := ⟨none, self.lock.waiters⟩ } := by
        refine if_pos ⟨hin, (Option.any_eq_false _ _).mpr fun next hnext => ?_⟩
        have hnext := houtside next hnext
        cases next with
        | connecting c => exact hnext.elim
        | subscribing c => exact hnext.elim
        | _ => simp [Phase.inLock]
      have hstep : step (.session (.run j (.error ⟨.bleakError, []⟩) 0)) self =
          some { self with session := failed, lock := ⟨none, self.lock.waiters⟩ } := by
        rw [step, run_other hphase hbusy, hrun, Option.map_some, hleave, ask_of_not_acquiring]
        intro c hc
        cases houtside _ hc
      exact .cons (by simp) hstep rfl (connects_of_line (h.step hstep) rfl hwaits)

/-- CORRECT: from any state of any run, no connection is begun between a `stop` and the next
    `start`, just when no task of the session waits for the adapter lock as the `stop` is called. -/
theorem no_connect_after_stop_iff (target : Target) (address name : Str) {as : List Action}
    {s : Adapter} (hrun : Machine.run step as (new target address name) = some s) :
    (∀ bs t, (∀ b ∈ bs, b ≠ .session .start) →
      Machine.run step (.session .stop :: bs) s = some t → t.connects = s.connects) ↔
    ∀ (i c : ℕ), s.session.runs[i]? ≠ some (.acquiring c) := by
  have hqueued : Queued s :=
    Machine.run_invariant (fun _ _ _ hs hstep => hs.step hstep) (.new target address name) hrun
  have hstop : step (.session .stop) s = some { s with session := s.session.stop } := rfl
  have hset : s.session.stop.stopRequested = true := by
    obtain ⟨_, _, hcases, _⟩ := s.session.stop_cases
    rw [hcases]
  have hsame : Process.SameAtLock s.session s.session.stop :=
    Process.step_sameAtLock (a := .stop) rfl (by simp)
  constructor
  · intro hnever i c hc
    have hafter := (hsame i (.acquiring c) trivial).mpr hc
    obtain ⟨bs, t, hbs, hbsrun, hlt⟩ := connects_of_waits (hqueued.step hstop) hset hafter
    have heq := hnever bs t hbs (by rw [Machine.run, hstop]; exact hbsrun)
    rw [heq] at hlt
    exact absurd hlt (lt_irrefl _)
  · intro hnone bs t hbs ht
    rw [Machine.run, hstop] at ht
    have hbarred : Barred { s with session := s.session.stop } :=
      ⟨hset, fun i c hc => hnone i c ((hsame i (.acquiring c) trivial).mp hc)⟩
    exact hbarred.run hbs ht

/-- A stop during `client.connect()` comes before any other. -/
theorem no_connect_after_stop_connecting : ∃ s,
    Machine.run step [.session .start, .session (.run 0 (.ok true) 0)] (new (.text []) [] []) =
      some s ∧ s.connects = 1 ∧
    ∀ bs t, (∀ b ∈ bs, b ≠ .session .start) →
      Machine.run step (.session .stop :: bs) s = some t → t.connects = s.connects := by
  have hrun : Machine.run step [.session .start, .session (.run 0 (.ok true) 0)]
      (new (.text []) [] []) = some _ := rfl
  refine ⟨_, hrun, rfl, (no_connect_after_stop_iff (.text []) [] [] hrun).mpr ?_⟩
  intro i c hc
  cases i with
  | zero => cases hc
  | succ i => cases hc

/-- A scan has the lock when the session asks for it, and gives it back after the `stop`: the
    session connects. -/
theorem stop_in_line_connects : ∃ s,
    Machine.run step [.acquire, .session .start, .session (.run 0 (.ok true) 0)]
      (new (.text []) [] []) = some s ∧
    ¬∀ bs t, (∀ b ∈ bs, b ≠ .session .start) →
      Machine.run step (.session .stop :: bs) s = some t → t.connects = s.connects := by
  refine ⟨_, rfl, fun hnever => ?_⟩
  have heq := hnever [.release, .session (.run 0 (.ok true) 0)] _ (by simp) rfl
  exact absurd heq (by decide)

end Adapter

end SlimHub.Ble
