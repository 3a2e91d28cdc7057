import SlimHub.Logging.Worker

/-! What the logger is for, and that the queue and the task do it.

    A log accepts events and writes them in order until one raises. It has no tasks and no queue,
    only events that wait to be written:

        idle ──start──▶ running ──stop──▶ closing ──worker──▶ closed ──resume──▶ idle
                           └──────── a write raises ───▶ broken ◀────┘

    As long as nothing is logged and no second `stop` is called while a `stop` is pending (`Quiet`),
    the logger takes exactly the steps of this log (`refines_step`). -/

namespace SlimHub.Logging
open Text

/-- Writing events one after another, up to the first that raises. -/
structure Written where
  attempts : List (LogEvent × Option PyError)
  raised : Option PyError
  disk : Files.FS

def writeAll (w : Writer) : List LogEvent → Files.FS → Written
  | [], disk => ⟨[], none, disk⟩
  | event :: events, disk =>
    match w.write event disk with
    | (some exc, disk) => ⟨[(event, some exc)], some exc, disk⟩
    | (none, disk) =>
      let rest := writeAll w events disk
      { rest with attempts := (event, none) :: rest.attempts }

variable {w : Writer}

theorem writeAll_append {events : List LogEvent} (more : List LogEvent) {disk : Files.FS}
    (h : (writeAll w events disk).raised = none) :
    writeAll w (events ++ more) disk =
      { writeAll w more (writeAll w events disk).disk with
        attempts := (writeAll w events disk).attempts ++
          (writeAll w more (writeAll w events disk).disk).attempts } := by
  induction events generalizing disk with
  | nil => rfl
  | cons event events ih =>
    simp only [List.cons_append, writeAll] at h ⊢
    rcases hw : w.write event disk with ⟨_ | exc, disk'⟩
    · rw [hw] at h
      simp only [ih h]
      rfl
    · rw [hw] at h
      cases h

/-- What comes after an event that raises is not reached. -/
theorem writeAll_append_of_raised {events : List LogEvent} (more : List LogEvent) {disk : Files.FS}
    {exc : PyError} (h : (writeAll w events disk).raised = some exc) :
    writeAll w (events ++ more) disk = writeAll w events disk := by
  induction events generalizing disk with
  | nil => cases h
  | cons event events ih =>
    simp only [List.cons_append, writeAll] at h ⊢
    rcases hw : w.write event disk with ⟨_ | exc', disk'⟩
    · rw [hw] at h
      simp only [ih h]
    · rfl

/-- Without an exception every event was written. -/
theorem writeAll_attempts {events : List LogEvent} {disk : Files.FS}
    (h : (writeAll w events disk).raised = none) :
    (writeAll w events disk).attempts = events.map fun event => (event, none) := by
  induction events generalizing disk with
  | nil => rfl
  | cons event events ih =>
    simp only [writeAll] at h ⊢
    rcases hw : w.write event disk with ⟨_ | exc, disk'⟩
    · rw [hw] at h
      simp only [ih h, List.map_cons]
    · rw [hw] at h
      cases h

/-- An exception comes from one of the writes. -/
theorem writeAll_raised {events : List LogEvent} {disk : Files.FS} {exc : PyError}
    (h : (writeAll w events disk).raised = some exc) :
    ∃ x ∈ (writeAll w events disk).attempts, x.2 ≠ none := by
  induction events generalizing disk with
  | nil => cases h
  | cons event events ih =>
    simp only [writeAll] at h ⊢
    rcases hw : w.write event disk with ⟨_ | exc', disk'⟩
    · rw [hw] at h
      obtain ⟨x, hx, hne⟩ := ih h
      exact ⟨x, List.mem_cons_of_mem _ hx, hne⟩
    · exact ⟨_, List.mem_cons_self, Option.some_ne_none exc'⟩

/-! ### The worker's loop -/

/-- Draining a queue that begins with events is writing them. -/
theorem drain_events (events : List LogEvent) (queue : List (Option LogEvent)) (disk : Files.FS) :
    let r := writeAll w events disk
    match r.raised with
    | none =>
      let rest := drain w queue r.disk
      drain w (events.map some ++ queue) disk = { rest with attempts := r.attempts ++ rest.attempts }
    | some exc =>
      (drain w (events.map some ++ queue) disk).status = .failed exc ∧
        (drain w (events.map some ++ queue) disk).attempts = r.attempts ∧
        (drain w (events.map some ++ queue) disk).disk = r.disk := by
  induction events generalizing disk with
  | nil => rfl
  | cons event events ih =>
    simp only [List.map_cons, List.cons_append, drain, writeAll]
    rcases hw : w.write event disk with ⟨_ | exc, disk'⟩
    · have ih := ih disk'
      simp only at ih ⊢
      cases hr : (writeAll w events disk').raised with
      | none =>
        rw [hr] at ih
        simp only at ih
        simp only [ih]
        rfl
      | some exc =>
        rw [hr] at ih
        obtain ⟨hs, ha, hd⟩ := ih
        exact ⟨hs, by rw [ha], hd⟩
    · exact ⟨rfl, rfl, rfl⟩

/-! ### The sequential log -/

inductive Mode where
  | idle
  | running
  | closing
  | closed
  | broken (exc : PyError) (stopping : Bool)
  deriving DecidableEq

/-- The log: its mode, the events that wait, the files, and the history. -/
structure Log where
  mode : Mode := .idle
  pending : List LogEvent := []
  disk : Files.FS
  accepted : List LogEvent := []
  attempts : List (LogEvent × Option PyError) := []
  stopped : List (Option PyError) := []

namespace Log

/-- The log starts; nothing happens if it has. -/
def start (w : Writer) (self : Log) : Log :=
  match self.mode with
  | .idle =>
    match w.ensure self.disk with
    | (some _, disk) => { self with disk }
    | (none, disk) => { self with disk, mode := .running }
  | _ => self

/-- An event is written at once, waits, or is lost. -/
def log (w : Writer) (self : Log) (event : LogEvent) : Option Log :=
  match self.mode with
  | .idle =>
    let r := w.write event self.disk
    some { self with
      disk := r.2
      attempts := self.attempts ++ [(event, r.1)]
      accepted := if r.1 = none then self.accepted ++ [event] else self.accepted }
  | .running =>
    some { self with
      pending := self.pending ++ [event]
      accepted := self.accepted ++ [event] }
  | .broken _ false => some { self with accepted := self.accepted ++ [event] }
  | _ => none

/-- The waiting events are written. -/
def write (w : Writer) (self : Log) : Option Log :=
  let r := writeAll w self.pending self.disk
  let self' := { self with pending := [], disk := r.disk, attempts := self.attempts ++ r.attempts }
  match self.mode with
  | .running => some { self' with mode := (r.raised.map (.broken · false)).getD .running }
  | .closing => some { self' with mode := (r.raised.map (.broken · true)).getD .closed }
  | _ => none

def stop (self : Log) : Option Log :=
  match self.mode with
  | .idle => some { self with stopped := self.stopped ++ [none] }
  | .running => some { self with mode := .closing }
  | .broken exc false => some { self with stopped := self.stopped ++ [some exc] }
  | _ => none

/-- The pending `stop` ends. -/
def resume (self : Log) : Option Log :=
  match self.mode with
  | .closed => some { self with mode := .idle, stopped := self.stopped ++ [none] }
  | .broken exc true =>
    some { self with mode := .broken exc false, stopped := self.stopped ++ [some exc] }
  | _ => none

def step (w : Writer) : RawDataLogger.Action → Log → Option Log
  | .start, self => some (self.start w)
  | .log event, self => self.log w event
  | .worker _, self => self.write w
  | .stop, self => self.stop
  | .resume _, self => self.resume

end Log

/-! ### The refinement -/

/-- How the tasks and the queue stand in each mode of the log. -/
def Control (s : RawDataLogger) (pending : List LogEvent) : Mode → Prop
  | .idle => s.task = none ∧ s.queue = [] ∧ s.stopping = [] ∧ s.getters = [] ∧ pending = []
  | .running => ∃ i, s.task = some i ∧ s.queue = pending.map some ∧ s.stopping = [] ∧
      (s.workers[i]? = some .ready ∧ s.getters = [] ∨
        s.workers[i]? = some .waiting ∧ s.getters = [i] ∧ pending = [])
  | .closing => ∃ i, s.task = some i ∧ s.queue = pending.map some ++ [none] ∧ s.stopping = [i] ∧
      s.workers[i]? = some .ready ∧ s.getters = []
  | .closed => ∃ i, s.task = some i ∧ s.queue = [] ∧ s.stopping = [i] ∧
      s.workers[i]? = some .returned ∧ s.getters = [] ∧ pending = []
  | .broken exc stopping => ∃ i, s.task = some i ∧ s.stopping = (if stopping then [i] else []) ∧
      s.workers[i]? = some (.failed exc) ∧ s.getters = []

/-- The logger stands for the log: same files and history, no worker scheduled but the current one,
    and the tasks and the queue as the mode says. -/
structure Refines (s : RawDataLogger) (l : Log) : Prop where
  disk : s.disk = l.disk
  accepted : s.accepted = l.accepted
  attempts : s.attempts = l.attempts
  stopped : s.stopped = l.stopped
  ready : ∀ {i : ℕ}, s.workers[i]? = some .ready → s.task = some i
  control : Control s l.pending l.mode

/-- Nothing is logged, and `stop` is not called, while a `stop` call is pending. -/
def Quiet (s : RawDataLogger) : RawDataLogger.Action → Prop
  | .log _ => s.stopping = []
  | .stop => s.stopping = []
  | _ => True

instance (s : RawDataLogger) : ∀ act, Decidable (Quiet s act)
  | .log _ => inferInstanceAs (Decidable (_ = _))
  | .stop => inferInstanceAs (Decidable (_ = _))
  | .start => isTrue trivial
  | .worker _ => isTrue trivial
  | .resume _ => isTrue trivial

theorem Refines.init (disk : Files.FS) : Refines { disk } { disk } :=
  ⟨rfl, rfl, rfl, rfl, fun h => by simp at h, rfl, rfl, rfl, rfl, rfl⟩

variable {s t : RawDataLogger} {l : Log}

theorem put_of_no_getter (h : s.getters = []) (item : Option LogEvent) :
    s.put item = { s with queue := s.queue ++ [item] } := by
  simp only [RawDataLogger.put, h]

theorem put_of_getter {i : ℕ} (h : s.getters = [i]) (item : Option LogEvent) :
    s.put item = { s with
      queue := s.queue ++ [item], getters := [], workers := s.workers.set i .ready } := by
  simp only [RawDataLogger.put, h]

theorem set_ready {workers : List Worker} {i : ℕ} {status : Worker} (new : Worker)
    (h : workers[i]? = some status) : (workers.set i new)[i]? = some new := by
  obtain ⟨hi, _⟩ := List.getElem?_eq_some_iff.mp h
  exact List.getElem?_set_self hi

/-- A worker that is set to ready is the current task. -/
theorem ready_of_set {workers : List Worker} {task : Option ℕ} {i j : ℕ} (htask : task = some i)
    (hready : ∀ {k : ℕ}, workers[k]? = some .ready → task = some k)
    (h : (workers.set i .ready)[j]? = some .ready) : task = some j := by
  rcases eq_or_ne i j with rfl | hij
  · exact htask
  · rw [List.getElem?_set_ne hij] at h
    exact hready h

/-- Outside `idle` there is a current task. -/
theorem Refines.task (h : Refines s l) (hmode : l.mode ≠ .idle) : ∃ i, s.task = some i := by
  have hcontrol := h.control
  cases hm : l.mode with
  | idle => exact absurd hm hmode
  | running => rw [hm] at hcontrol; exact hcontrol.imp fun i hi => hi.1
  | closing => rw [hm] at hcontrol; exact hcontrol.imp fun i hi => hi.1
  | closed => rw [hm] at hcontrol; exact hcontrol.imp fun i hi => hi.1
  | broken exc stopping => rw [hm] at hcontrol; exact hcontrol.imp fun i hi => hi.1

/-- While no `stop` is pending, the log is idle, running or broken. -/
theorem Refines.mode_of_quiet (h : Refines s l) (hq : s.stopping = []) :
    l.mode = .idle ∨ l.mode = .running ∨ ∃ exc, l.mode = .broken exc false := by
  have hcontrol := h.control
  cases hmode : l.mode with
  | idle => exact Or.inl rfl
  | running => exact Or.inr (Or.inl rfl)
  | closing =>
    rw [hmode] at hcontrol
    obtain ⟨i, _, _, hstopping, _⟩ := hcontrol
    cases hq.symm.trans hstopping
  | closed =>
    rw [hmode] at hcontrol
    obtain ⟨i, _, _, hstopping, _⟩ := hcontrol
    cases hq.symm.trans hstopping
  | broken exc stopping =>
    rw [hmode] at hcontrol
    obtain ⟨i, _, hstopping, _⟩ := hcontrol
    cases stopping with
    | false => exact Or.inr (Or.inr ⟨exc, rfl⟩)
    | true => cases hq.symm.trans hstopping

/-- A worker is scheduled only while the log is running, or closing with the sentinel behind what
    waits; it is the current task. -/
theorem Refines.scheduled {i : ℕ} (h : Refines s l) (hi : s.workers[i]? = some .ready) :
    ∃ closing : Bool, l.mode = (if closing then .closing else .running) ∧
      s.queue = l.pending.map some ++ (if closing then [none] else []) ∧
      s.stopping = (if closing then [i] else []) ∧ s.getters = [] := by
  have htask := h.ready hi
  have hcontrol := h.control
  cases hmode : l.mode with
  | idle =>
    rw [hmode] at hcontrol
    cases hcontrol.1.symm.trans htask
  | running =>
    rw [hmode] at hcontrol
    obtain ⟨k, hk, hqueue, hstopping, hw⟩ := hcontrol
    obtain rfl := Option.some.inj (hk.symm.trans htask)
    rcases hw with ⟨_, hgetters⟩ | ⟨hw, _⟩
    · exact ⟨false, rfl, by rw [hqueue]; exact (List.append_nil _).symm, hstopping, hgetters⟩
    · cases hi.symm.trans hw
  | closing =>
    rw [hmode] at hcontrol
    obtain ⟨k, hk, hqueue, hstopping, _, hgetters⟩ := hcontrol
    obtain rfl := Option.some.inj (hk.symm.trans htask)
    exact ⟨true, rfl, hqueue, hstopping, hgetters⟩
  | closed =>
    rw [hmode] at hcontrol
    obtain ⟨k, hk, _, _, hw, _⟩ := hcontrol
    obtain rfl := Option.some.inj (hk.symm.trans htask)
    cases hi.symm.trans hw
  | broken exc stopping =>
    rw [hmode] at hcontrol
    obtain ⟨k, hk, _, hw, _⟩ := hcontrol
    obtain rfl := Option.some.inj (hk.symm.trans htask)
    cases hi.symm.trans hw

/-- A pending `stop` call whose task is done is the only one, and the log has closed or is
    broken. -/
theorem Refines.awaited {j k : ℕ} {result : Option PyError} (h : Refines s l)
    (hj : s.stopping[j]? = some k) (hdone : s.workers[k]?.bind Worker.result? = some result) :
    j = 0 ∧ s.stopping = [k] ∧
      (l.mode = .closed ∧ result = none ∨ ∃ exc, l.mode = .broken exc true ∧ result = some exc) := by
  have hcontrol := h.control
  have honly : ∀ {i : ℕ}, s.stopping = [i] → j = 0 ∧ k = i := by
    intro i hi
    rw [hi, List.getElem?_singleton] at hj
    split at hj
    · rename_i hz
      exact ⟨hz, (Option.some.inj hj).symm⟩
    · cases hj
  cases hmode : l.mode with
  | idle =>
    rw [hmode] at hcontrol
    rw [hcontrol.2.2.1] at hj
    cases hj
  | running =>
    rw [hmode] at hcontrol
    obtain ⟨i, _, _, hstopping, _⟩ := hcontrol
    rw [hstopping] at hj
    cases hj
  | closing =>
    rw [hmode] at hcontrol
    obtain ⟨i, _, _, hstopping, hw, _⟩ := hcontrol
    obtain ⟨rfl, rfl⟩ := honly hstopping
    rw [hw] at hdone
    cases hdone
  | closed =>
    rw [hmode] at hcontrol
    obtain ⟨i, _, _, hstopping, hw, _⟩ := hcontrol
    obtain ⟨rfl, rfl⟩ := honly hstopping
    rw [hw] at hdone
    cases hdone
    exact ⟨rfl, hstopping, Or.inl ⟨rfl, rfl⟩⟩
  | broken exc stopping =>
    rw [hmode] at hcontrol
    obtain ⟨i, _, hstopping, hw, _⟩ := hcontrol
    cases stopping with
    | false => rw [hstopping] at hj; cases hj
    | true =>
      obtain ⟨rfl, rfl⟩ := honly hstopping
      rw [hw] at hdone
      cases hdone
      exact ⟨rfl, hstopping, Or.inr ⟨exc, rfl, rfl⟩⟩

theorem refines_start (h : Refines s l) : Refines (s.start w) (l.start w) := by
  rcases eq_or_ne l.mode .idle with hmode | hmode
  · obtain ⟨hdisk, hacc, hatt, hstop, hready, hcontrol⟩ := h
    rw [hmode] at hcontrol
    obtain ⟨htask, hqueue, hstopping, hgetters, hpending⟩ := hcontrol
    simp only [RawDataLogger.start, Log.start, htask, hdisk, hmode]
    rcases w.ensure l.disk with ⟨_ | exc, disk⟩
    · refine ⟨rfl, hacc, hatt, hstop, ?_, s.workers.length, rfl, by simp [hqueue, hpending],
        hstopping, Or.inl ⟨by simp, hgetters⟩⟩
      intro i hi
      rcases lt_or_ge i s.workers.length with hlt | hge
      · rw [List.getElem?_append_left hlt] at hi
        have hnone := hready hi
        rw [htask] at hnone
        cases hnone
      · rw [List.getElem?_append_right hge, List.getElem?_singleton] at hi
        split at hi
        · rename_i hz
          rw [le_antisymm (Nat.sub_eq_zero_iff_le.mp hz) hge]
        · cases hi
    · exact ⟨rfl, hacc, hatt, hstop, fun hi => htask ▸ hready hi, rfl, hqueue, hstopping, hgetters,
        hpending⟩
  · obtain ⟨i, htask⟩ := h.task hmode
    have hs : s.start w = s := by rw [RawDataLogger.start, htask]
    have hl : l.start w = l := by
      unfold Log.start
      split
      · rename_i hm; exact absurd hm hmode
      · rfl
    rw [hs, hl]
    exact h

theorem refines_log {event : LogEvent} (h : Refines s l) (hq : s.stopping = []) :
    ∃ l', l.log w event = some l' ∧ Refines (s.log w event) l' := by
  have hmodes := h.mode_of_quiet hq
  obtain ⟨hdisk, hacc, hatt, hstop, hready, hcontrol⟩ := h
  rcases hmodes with hmode | hmode | ⟨exc, hmode⟩
  · rw [hmode] at hcontrol
    obtain ⟨htask, hqueue, hstopping, hgetters, hpending⟩ := hcontrol
    simp only [RawDataLogger.log, Log.log, htask, hmode]
    refine ⟨_, rfl, ?_, ?_, ?_, hstop, ?_, rfl, hqueue, hstopping, hgetters, hpending⟩
    · simp only [hdisk]
    · simp only [hdisk, hacc]
    · simp only [hdisk, hatt]
    · intro i hi
      exact htask ▸ hready hi
  · rw [hmode] at hcontrol
    obtain ⟨i, htask, hqueue, hstopping, hworker⟩ := hcontrol
    have hqueue' : s.queue ++ [some event] = (l.pending ++ [event]).map some := by
      rw [hqueue, List.map_append, List.map_singleton]
    simp only [RawDataLogger.log, Log.log, htask, hmode]
    refine ⟨_, rfl, ?_⟩
    rcases hworker with ⟨hw, hgetters⟩ | ⟨hw, hgetters, _⟩
    · rw [put_of_no_getter hgetters]
      exact ⟨hdisk, by rw [hacc], hatt, hstop, fun hi => htask ▸ hready hi, i, htask, hqueue',
        hstopping, Or.inl ⟨hw, hgetters⟩⟩
    · rw [put_of_getter hgetters]
      exact ⟨hdisk, by rw [hacc], hatt, hstop, ready_of_set htask hready, i, htask, hqueue',
        hstopping, Or.inl ⟨set_ready _ hw, rfl⟩⟩
  · rw [hmode] at hcontrol
    obtain ⟨i, htask, hstopping, hw, hgetters⟩ := hcontrol
    simp only [RawDataLogger.log, Log.log, htask, hmode]
    refine ⟨_, rfl, ?_⟩
    rw [put_of_no_getter hgetters]
    exact ⟨hdisk, by rw [hacc], hatt, hstop, fun hi => htask ▸ hready hi, i, htask, hstopping, hw,
      hgetters⟩

theorem refines_stop (h : Refines s l) (hq : s.stopping = []) :
    ∃ l', l.stop = some l' ∧ Refines s.stop l' := by
  have hmodes := h.mode_of_quiet hq
  obtain ⟨hdisk, hacc, hatt, hstop, hready, hcontrol⟩ := h
  rcases hmodes with hmode | hmode | ⟨exc, hmode⟩
  · rw [hmode] at hcontrol
    obtain ⟨htask, hcontrol⟩ := hcontrol
    simp only [RawDataLogger.stop, Log.stop, htask, hmode]
    exact ⟨_, rfl, hdisk, hacc, hatt, by rw [hstop], fun hi => htask ▸ hready hi, rfl, hcontrol⟩
  · rw [hmode] at hcontrol
    obtain ⟨i, htask, hqueue, hstopping, hworker⟩ := hcontrol
    simp only [RawDataLogger.stop, Log.stop, htask, hmode]
    refine ⟨_, rfl, ?_⟩
    rcases hworker with ⟨hw, hgetters⟩ | ⟨hw, hgetters, _⟩
    · rw [put_of_no_getter hgetters]
      simp only [hw, Option.bind_some, Worker.result?]
      exact ⟨hdisk, hacc, hatt, hstop, fun hi => htask ▸ hready hi, i, htask, by rw [hqueue],
        by rw [hstopping, List.nil_append], hw, hgetters⟩
    · rw [put_of_getter hgetters]
      have hw' := set_ready .ready hw
      simp only [hw', Option.bind_some, Worker.result?]
      exact ⟨hdisk, hacc, hatt, hstop, ready_of_set htask hready, i, htask, by rw [hqueue],
        by rw [hstopping, List.nil_append], hw', rfl⟩
  · rw [hmode] at hcontrol
    obtain ⟨i, htask, hstopping, hw, hgetters⟩ := hcontrol
    simp only [RawDataLogger.stop, Log.stop, htask, hmode]
    refine ⟨_, rfl, ?_⟩
    rw [put_of_no_getter hgetters]
    simp only [hw, Option.bind_some, Worker.result?, RawDataLogger.finishStop]
    exact ⟨hdisk, hacc, hatt, by rw [hstop], fun hi => htask ▸ hready hi, i, htask, hstopping, hw,
      hgetters⟩

theorem refines_resume {j : ℕ} (h : Refines s l) (hstep : s.resumeStop j = some t) :
    ∃ l', l.resume = some l' ∧ Refines t l' := by
  unfold RawDataLogger.resumeStop at hstep
  cases hj : s.stopping[j]? with
  | none => rw [hj] at hstep; cases hstep
  | some k =>
    rw [hj] at hstep
    obtain ⟨result, hdone, rfl⟩ := Option.map_eq_some_iff.mp hstep
    have hawaited := h.awaited hj hdone
    obtain ⟨hdisk, hacc, hatt, hstop, hready, hcontrol⟩ := h
    obtain ⟨rfl, hstopping, ⟨hmode, rfl⟩ | ⟨exc, hmode, rfl⟩⟩ := hawaited
    · rw [hmode] at hcontrol
      obtain ⟨i, hi, hqueue, _, hw, hgetters, hpending⟩ := hcontrol
      simp only [Log.resume, hmode, RawDataLogger.finishStop]
      refine ⟨_, rfl, hdisk, hacc, hatt, by rw [hstop], ?_, rfl, hqueue, by rw [hstopping]; rfl,
        hgetters, hpending⟩
      -- a scheduled worker would be the current task, which has returned
      intro m hm
      obtain rfl := Option.some.inj (hi.symm.trans (hready hm))
      cases hw.symm.trans hm
    · rw [hmode] at hcontrol
      obtain ⟨i, hi, _, hw, hgetters⟩ := hcontrol
      simp only [Log.resume, hmode, RawDataLogger.finishStop]
      exact ⟨_, rfl, hdisk, hacc, hatt, by rw [hstop], hready, i, hi, by rw [hstopping]; rfl, hw,
        hgetters⟩

/-- The current task runs: it writes what waits, then waits, returns or fails. -/
theorem refines_worker {i : ℕ} (h : Refines s l) (hstep : s.runWorker w i = some t) :
    ∃ l', l.write w = some l' ∧ Refines t l' := by
  unfold RawDataLogger.runWorker at hstep
  split at hstep
  · rename_i hi
    obtain rfl := Option.some.inj hstep
    obtain ⟨closing, hmode, hqueue, hstopping, hgetters⟩ := h.scheduled hi
    have htask := h.ready hi
    have hothers : ∀ {status : Worker}, status ≠ .ready → ∀ {j : ℕ},
        (s.workers.set i status)[j]? = some .ready → s.task = some j := by
      intro status hne j hj
      rcases eq_or_ne i j with rfl | hij
      · exact htask
      · rw [List.getElem?_set_ne hij] at hj
        exact h.ready hj
    have hdrain := drain_events (w := w) l.pending (if closing then [none] else []) l.disk
    rw [hqueue, h.disk]
    cases hr : (writeAll w l.pending l.disk).raised with
    | none =>
      simp only [hr] at hdrain
      simp only [hdrain]
      cases closing with
      | false =>
        simp only [Log.write, hmode, hr]
        refine ⟨_, rfl, rfl, h.accepted, ?_, h.stopped, hothers (by simp [drain]), ?_⟩
        · simp [h.attempts, drain]
        · exact ⟨i, htask, rfl, hstopping,
            Or.inr ⟨set_ready _ hi, by simp [drain, hgetters], rfl⟩⟩
      | true =>
        simp only [Log.write, hmode, hr]
        refine ⟨_, rfl, rfl, h.accepted, ?_, h.stopped, hothers (by simp [drain]), ?_⟩
        · simp [h.attempts, drain]
        · exact ⟨i, htask, rfl, hstopping, set_ready _ hi, by simp [drain, hgetters], rfl⟩
    | some exc =>
      simp only [hr] at hdrain
      obtain ⟨hstatus, hattempts, hd⟩ := hdrain
      have hwrite : l.write w = some { l with
          mode := .broken exc closing
          pending := []
          disk := (writeAll w l.pending l.disk).disk
          attempts := l.attempts ++ (writeAll w l.pending l.disk).attempts } := by
        cases closing <;> simp [Log.write, hmode, hr]
      simp only [hstatus]
      refine ⟨_, hwrite, hd, h.accepted, ?_, h.stopped, hothers (by simp), ?_⟩
      · rw [hattempts, h.attempts]
      · exact ⟨i, htask, hstopping, set_ready _ hi, by simp [hgetters]⟩
  · cases hstep

/-- REFINEMENT: a quiet step of the logger is a step of the sequential log. -/
theorem refines_step {act : RawDataLogger.Action} (h : Refines s l) (hq : Quiet s act)
    (hstep : RawDataLogger.step w act s = some t) :
    ∃ l', l.step w act = some l' ∧ Refines t l' := by
  cases act with
  | start =>
    obtain rfl := Option.some.inj hstep
    exact ⟨_, rfl, refines_start h⟩
  | log event =>
    obtain rfl := Option.some.inj hstep
    exact refines_log h hq
  | worker i => exact refines_worker h hstep
  | stop =>
    obtain rfl := Option.some.inj hstep
    exact refines_stop h hq
  | resume j => exact refines_resume h hstep

end SlimHub.Logging
