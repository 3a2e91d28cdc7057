import SlimHub.Lib.Machine
import SlimHub.Logging.RawLogger

/-! The raw data logger: a queue, and a task that writes what is in it.

        log ──▶ queue ──▶ worker ──▶ files        stop: put the sentinel, await the task

    Tasks switch only at an await that has to wait. Putting on the unbounded queue never waits, so
    `start` and `log` are one step each, and a worker that runs goes on until it finds the queue
    empty, reads the sentinel, or raises. `stop` is one step when the awaited task is done and two
    otherwise. Callers, workers and pending stops take their steps in any order. -/

namespace SlimHub.Logging
open Text

inductive LogEvent where
  | rawData (event : RawDataEvent)
  | alert (event : AlertEvent)
  deriving DecidableEq

/-- The operations that touch the files, with what they raised. -/
structure Writer where
  ensure : Files.FS → Option PyError × Files.FS
  write : LogEvent → Files.FS → Option PyError × Files.FS

/-- An operation and what it raised. -/
def attempt (op : Disk Unit) (disk : Files.FS) : Option PyError × Files.FS :=
  match op.run disk with
  | (.ok _, disk) => (none, disk)
  | (.error exc, disk) => (some exc, disk)

/-- The logger's own files. -/
def diskWriter (host : Host) (paths : AppPaths) : Writer where
  ensure := attempt (onDisk (paths.ensure host.refuses))
  write
    | .rawData event => attempt (writeEvent host paths event)
    | .alert event => attempt (writeAlert host paths event)

/-- A worker task: scheduled, waiting for the queue, or done. -/
inductive Worker where
  | ready
  | waiting
  | returned
  | failed (exc : PyError)
  deriving DecidableEq

/-- What `await task` gives once the task is done: none if it returned, else its exception. -/
def Worker.result? : Worker → Option (Option PyError)
  | .returned => some none
  | .failed exc => some (some exc)
  | _ => none

/-- The worker has not failed. -/
def Worker.Sound : Worker → Prop
  | .failed _ => False
  | _ => True

instance : ∀ worker : Worker, Decidable worker.Sound
  | .ready | .waiting | .returned => isTrue trivial
  | .failed _ => isFalse id

/-- The last three fields are history: what was accepted, every write with what it raised, and how
    every `stop` call ended. -/
structure RawDataLogger where
  queue : List (Option LogEvent) := []
  getters : List ℕ := []
  task : Option ℕ := none
  workers : List Worker := []
  stopping : List ℕ := []
  disk : Files.FS
  accepted : List LogEvent := []
  attempts : List (LogEvent × Option PyError) := []
  stopped : List (Option PyError) := []
  deriving DecidableEq

/-- What a worker did until it stopped running. -/
structure Drained where
  queue : List (Option LogEvent)
  disk : Files.FS
  attempts : List (LogEvent × Option PyError)
  status : Worker

variable (w : Writer)

/-- `_run`, from one `queue.get()` to where it waits or ends. -/
def drain : List (Option LogEvent) → Files.FS → Drained
  | [], disk => ⟨[], disk, [], .waiting⟩
  | none :: queue, disk => ⟨queue, disk, [], .returned⟩
  | some event :: queue, disk =>
    match w.write event disk with
    | (some exc, disk) => ⟨queue, disk, [(event, some exc)], .failed exc⟩
    | (none, disk) =>
      let rest := drain queue disk
      { rest with attempts := (event, none) :: rest.attempts }

namespace RawDataLogger

/-- `queue.put`: the first waiting worker is woken. -/
def put (self : RawDataLogger) (item : Option LogEvent) : RawDataLogger :=
  let self := { self with queue := self.queue ++ [item] }
  match self.getters with
  | [] => self
  | i :: getters => { self with getters, workers := self.workers.set i .ready }

def start (self : RawDataLogger) : RawDataLogger :=
  match self.task with
  | some _ => self
  | none =>
    match w.ensure self.disk with
    | (some _, disk) => { self with disk }
    | (none, disk) =>
      { self with disk, task := some self.workers.length, workers := self.workers ++ [.ready] }

/-- `log` and `log_alert`. -/
def log (self : RawDataLogger) (event : LogEvent) : RawDataLogger :=
  match self.task with
  | none =>
    let r := w.write event self.disk
    { self with
      disk := r.2
      attempts := self.attempts ++ [(event, r.1)]
      accepted := if r.1 = none then self.accepted ++ [event] else self.accepted }
  | some _ => { self.put (some event) with accepted := self.accepted ++ [event] }

/-- What a `log` call raises: without a worker the event is written at once. -/
def logRaises (self : RawDataLogger) (event : LogEvent) : Option PyError :=
  if self.task = none then (w.write event self.disk).1 else none

/-- `stop` after `await self._task`: the task is forgotten unless it raised. -/
def finishStop (self : RawDataLogger) (result : Option PyError) : RawDataLogger :=
  match result with
  | none => { self with task := none, stopped := self.stopped ++ [none] }
  | some exc => { self with stopped := self.stopped ++ [some exc] }

def stop (self : RawDataLogger) : RawDataLogger :=
  match self.task with
  | none => { self with stopped := self.stopped ++ [none] }
  | some i =>
    let self := self.put none
    match self.workers[i]?.bind Worker.result? with
    | some result => self.finishStop result
    | none => { self with stopping := self.stopping ++ [i] }

/-- A scheduled worker runs. -/
def runWorker (self : RawDataLogger) (i : ℕ) : Option RawDataLogger :=
  if self.workers[i]? = some .ready then
    let drained := drain w self.queue self.disk
    some { self with
      queue := drained.queue
      disk := drained.disk
      attempts := self.attempts ++ drained.attempts
      workers := self.workers.set i drained.status
      getters := if drained.status = .waiting then self.getters ++ [i] else self.getters }
  else none

/-- A pending `stop` call goes on once the task it awaits is done. -/
def resumeStop (self : RawDataLogger) (j : ℕ) : Option RawDataLogger :=
  match self.stopping[j]? with
  | none => none
  | some i =>
    (self.workers[i]?.bind Worker.result?).map fun result =>
      { self with stopping := self.stopping.eraseIdx j }.finishStop result

inductive Action where
  | start
  | log (event : LogEvent)
  | worker (i : ℕ)
  | stop
  | resume (j : ℕ)

def step : Action → RawDataLogger → Option RawDataLogger
  | .start, self => some (self.start w)
  | .log event, self => some (self.log w event)
  | .worker i, self => self.runWorker w i
  | .stop, self => some self.stop
  | .resume j, self => self.resumeStop j

/-! ### What the steps accept -/

@[simp] theorem accepted_put (self : RawDataLogger) (item : Option LogEvent) :
    (self.put item).accepted = self.accepted := by
  unfold put; dsimp only; split <;> rfl

/-- An event is accepted if logging it does not raise. -/
theorem accepted_log (self : RawDataLogger) (event : LogEvent) : (self.log w event).accepted =
    self.accepted ++ if self.logRaises w event = none then [event] else [] := by
  unfold log logRaises
  cases self.task with
  | none =>
    simp only [if_true]
    split
    · rfl
    · exact (List.append_nil _).symm
  | some i => rfl

theorem accepted_start (self : RawDataLogger) : (self.start w).accepted = self.accepted := by
  unfold start
  cases self.task with
  | some i => rfl
  | none =>
    rcases w.ensure self.disk with ⟨raised, disk⟩
    cases raised <;> rfl

theorem accepted_finishStop (self : RawDataLogger) (result : Option PyError) :
    (self.finishStop result).accepted = self.accepted := by
  cases result <;> rfl

theorem accepted_stop (self : RawDataLogger) : self.stop.accepted = self.accepted := by
  unfold stop
  cases self.task with
  | none => rfl
  | some i =>
    dsimp only
    split
    · rw [accepted_finishStop, accepted_put]
    · exact accepted_put self none

theorem accepted_runWorker {self after : RawDataLogger} {i : ℕ}
    (h : self.runWorker w i = some after) : after.accepted = self.accepted := by
  unfold runWorker at h
  split at h
  · rw [← Option.some.inj h]
  · cases h

theorem accepted_resumeStop {self after : RawDataLogger} {j : ℕ}
    (h : self.resumeStop j = some after) : after.accepted = self.accepted := by
  unfold resumeStop at h
  cases hj : self.stopping[j]? with
  | none => rw [hj] at h; cases h
  | some i =>
    rw [hj] at h
    obtain ⟨result, _, rfl⟩ := Option.map_eq_some_iff.mp h
    exact accepted_finishStop _ result

/-! ### How `stop` calls end -/

@[simp] theorem stopped_put (self : RawDataLogger) (item : Option LogEvent) :
    (self.put item).stopped = self.stopped := by
  unfold put; dsimp only; split <;> rfl

theorem stopped_log (self : RawDataLogger) (event : LogEvent) :
    (self.log w event).stopped = self.stopped := by
  unfold log
  cases self.task with
  | none => rfl
  | some i => exact stopped_put self (some event)

theorem stopped_start (self : RawDataLogger) : (self.start w).stopped = self.stopped := by
  unfold start
  cases self.task with
  | some i => rfl
  | none =>
    rcases w.ensure self.disk with ⟨raised, disk⟩
    cases raised <;> rfl

theorem stopped_runWorker {self after : RawDataLogger} {i : ℕ}
    (h : self.runWorker w i = some after) : after.stopped = self.stopped := by
  unfold runWorker at h
  split at h
  · rw [← Option.some.inj h]
  · cases h

theorem result_of_sound {workers : List Worker} (h : ∀ worker ∈ workers, worker.Sound) {i : ℕ}
    {result : Option PyError} (hi : workers[i]?.bind Worker.result? = some result) :
    result = none := by
  obtain ⟨worker, hworker, hresult⟩ := Option.bind_eq_some_iff.mp hi
  cases worker with
  | ready => cases hresult
  | waiting => cases hresult
  | returned => exact (Option.some.inj hresult).symm
  | failed exc => exact (h _ (List.mem_of_getElem? hworker)).elim

theorem sound_put {self : RawDataLogger} (h : ∀ worker ∈ self.workers, worker.Sound)
    (item : Option LogEvent) : ∀ worker ∈ (self.put item).workers, worker.Sound := by
  unfold put
  dsimp only
  split
  · exact h
  · intro worker hmem
    rcases List.mem_or_eq_of_mem_set hmem with hmem | rfl
    · exact h worker hmem
    · trivial

/-- While no worker has failed, `stop` does not raise. -/
theorem stopped_stop {self : RawDataLogger} (h : ∀ worker ∈ self.workers, worker.Sound)
    (hstopped : ∀ r ∈ self.stopped, r = none) : ∀ r ∈ self.stop.stopped, r = none := by
  have hconcat : ∀ r ∈ self.stopped ++ [none], r = none := by
    intro r hr
    rcases List.mem_append.mp hr with hr | hr
    · exact hstopped r hr
    · exact List.mem_singleton.mp hr
  unfold stop
  cases self.task with
  | none => exact hconcat
  | some i =>
    dsimp only
    cases hresult : (self.put none).workers[i]?.bind Worker.result? with
    | none => simpa only [stopped_put] using hstopped
    | some result =>
      rw [result_of_sound (sound_put h none) hresult]
      simpa only [finishStop, stopped_put] using hconcat

theorem stopped_resumeStop {self after : RawDataLogger} {j : ℕ}
    (h : ∀ worker ∈ self.workers, worker.Sound) (hstopped : ∀ r ∈ self.stopped, r = none)
    (hresume : self.resumeStop j = some after) : ∀ r ∈ after.stopped, r = none := by
  unfold resumeStop at hresume
  cases hj : self.stopping[j]? with
  | none => rw [hj] at hresume; cases hresume
  | some i =>
    rw [hj] at hresume
    obtain ⟨result, hresult, rfl⟩ := Option.map_eq_some_iff.mp hresume
    rw [result_of_sound h hresult]
    intro r hr
    rcases List.mem_append.mp hr with hr | hr
    · exact hstopped r hr
    · exact List.mem_singleton.mp hr

/-- The events that were written, in order. -/
def written (self : RawDataLogger) : List LogEvent :=
  (self.attempts.filter (·.2 = none)).map Prod.fst

/-- No worker is scheduled, and no pending `stop` call can go on. -/
def Quiescent (self : RawDataLogger) : Prop :=
  (∀ status ∈ self.workers, status ≠ .ready) ∧
    ∀ i ∈ self.stopping, self.workers[i]?.bind Worker.result? = none

instance (self : RawDataLogger) : Decidable self.Quiescent :=
  inferInstanceAs (Decidable (_ ∧ _))

end RawDataLogger

end SlimHub.Logging
