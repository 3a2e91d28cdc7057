import SlimHub.Events

/-! A session's command queue and the workers that empty it.

    Every connection has a worker of its own; the queue outlives them all:

        accepted ──▶ queue ──get──▶ writing ──▶ attempt: written, failed or interrupted

    A worker is cancelled when its connection ends. A cancelled `get` leaves the queue alone, a
    cancelled write gives its command up. What a step of a worker can do to the commands is said
    once (`work_spec`): the command in hand and the queue are consumed from the front. -/

namespace SlimHub.Ble
open Text Nus

/-- How the attempt at a command ended: its frame was written, building or writing it raised, or
    the worker was cancelled during the write. -/
inductive WriteOutcome where
  | written (frame : Bytes)
  | failed (exc : PyError)
  | interrupted
  deriving DecidableEq

/-- Where a `_command_worker` task stands: created, waiting for the queue, woken by it, in
    `write_gatt_char`, or finished. -/
inductive WorkerPhase where
  | created
  | getting
  | woken
  | writing (command : CommandEvent) (frame : Bytes)
  | done
  deriving DecidableEq

/-- The command that a worker has taken and not finished with. -/
def WorkerPhase.inHand : WorkerPhase → List CommandEvent
  | .writing command _ => [command]
  | _ => []

/-- A worker task. `cancelled` is a cancellation that the task has not seen yet. -/
structure Worker where
  phase : WorkerPhase := .created
  cancelled : Bool := false
  deriving DecidableEq

/-- The queue, the workers in the order of their creation, and `last_error`, which they share with
    `_run`. The last two fields are history. -/
structure Courier where
  queue : List CommandEvent := []
  getters : List ℕ := []
  workers : List Worker := []
  lastError : Option PyError := none
  accepted : List CommandEvent := []
  attempts : List (CommandEvent × WriteOutcome) := []
  deriving DecidableEq

namespace Courier

/-- The commands being written. -/
def inFlight (self : Courier) : List CommandEvent := self.workers.flatMap (·.phase.inHand)

/-- `_wakeup_next`: the worker that has waited longest is scheduled. -/
def wakeNext (self : Courier) : Courier :=
  match self.getters with
  | [] => self
  | j :: getters =>
    { self with getters, workers := self.workers.modify j fun w => { w with phase := .woken } }

/-- `send_command`. -/
def sendCommand (self : Courier) (command : CommandEvent) : Courier :=
  { self with
    queue := self.queue ++ [command], accepted := self.accepted ++ [command] }.wakeNext

/-- `create_task(self._command_worker(client))`. -/
def create (self : Courier) : Courier := { self with workers := self.workers ++ [{}] }

/-- `command_task.cancel()`. A cancelled getter is skipped by the queue from then on. -/
def cancel (self : Courier) (j : ℕ) : Courier :=
  match self.workers[j]? with
  | none => self
  | some w =>
    if w.phase = .done then self
    else { self with
      getters := self.getters.erase j, workers := self.workers.set j { w with cancelled := true } }

def goto (self : Courier) (j : ℕ) (phase : WorkerPhase) : Courier :=
  { self with workers := self.workers.set j { phase } }

/-- The attempt at a command is over. -/
def record (self : Courier) (command : CommandEvent) (outcome : WriteOutcome) : Courier :=
  { self with attempts := self.attempts ++ [(command, outcome)] }

/-- `except Exception`: the command is given up and the loop goes on. -/
def fail (self : Courier) (command : CommandEvent) (exc : PyError) : Courier :=
  { self.record command (.failed exc) with lastError := some exc }

section
variable (stopRequested : Bool) (j : ℕ)

/-- `_command_worker` inside `queue.get()`, up to where it waits or ends. -/
def take : List CommandEvent → Courier → Courier
  | [], self => { self with queue := [], getters := self.getters ++ [j] }.goto j .getting
  | command :: queue, self =>
    match buildCommandFrame command.address command.command with
    | .ok frame => { self with queue }.goto j (.writing command frame)
    | .error exc =>
      let self := { self.fail command exc with queue }
      if stopRequested then self.goto j .done else take queue self

/-- `_command_worker` from the head of its loop. -/
def loop (self : Courier) : Courier :=
  if stopRequested then self.goto j .done else take stopRequested j self.queue self

/-- A scheduled worker runs; `reply` is how the write that it awaits ended. -/
def work (reply : Except PyError Unit) (self : Courier) : Option Courier :=
  match self.workers[j]? with
  | none => none
  | some ⟨phase, true⟩ =>
    match phase with
    | .done => none
    | .writing command _ => some ((self.record command .interrupted).goto j .done)
    | .woken =>
      let self := self.goto j .done
      some (if self.queue = [] then self else self.wakeNext)
    | _ => some (self.goto j .done)
  | some ⟨phase, false⟩ =>
    match phase with
    | .created => some (self.loop stopRequested j)
    | .getting => none
    | .woken => some (take stopRequested j self.queue self)
    | .writing command frame =>
      match reply with
      | .ok () => some ((self.record command (.written frame)).loop stopRequested j)
      | .error exc => some ((self.fail command exc).loop stopRequested j)
    | .done => none

end

end Courier

namespace Courier

/-! ### What the operations do -/

variable {self after : Courier}

/-- A worker that has not finished. -/
def Alive (self : Courier) (i : ℕ) : Prop := ∃ w, self.workers[i]? = some w ∧ w.phase ≠ .done

/-- What each worker has in hand. -/
def hands (self : Courier) : List (List CommandEvent) := self.workers.map (·.phase.inHand)

theorem inFlight_eq (self : Courier) : self.inFlight = self.hands.flatten :=
  List.flatMap_def

/-- Getters are distinct workers that wait and are not cancelled, and every frame is the one built
    for its command. -/
structure Sound (c : Courier) : Prop where
  getter : ∀ j ∈ c.getters, c.workers[j]? = some ⟨.getting, false⟩
  nodup : c.getters.Nodup
  hand : ∀ {j : ℕ} {w : Worker} {command : CommandEvent} {frame : Bytes},
    c.workers[j]? = some w → w.phase = .writing command frame →
      buildCommandFrame command.address command.command = .ok frame
  frame : ∀ {command : CommandEvent} {frame : Bytes},
    (command, WriteOutcome.written frame) ∈ c.attempts →
    buildCommandFrame command.address command.command = .ok frame

theorem Sound.empty : Sound {} where
  getter _ h := absurd h List.not_mem_nil
  nodup := List.nodup_nil
  hand h := by simp at h
  frame h := absurd h List.not_mem_nil

/-- A worker whose phase is another one is no getter. -/
theorem Sound.not_getter {j : ℕ} {w : Worker} (h : Sound self) (hw : self.workers[j]? = some w)
    (hne : w ≠ ⟨.getting, false⟩) : j ∉ self.getters := by
  intro hj
  exact hne (Option.some.inj (hw.symm.trans (h.getter j hj)))

/-- What `wakeNext` does: nothing, or one getter is woken. -/
theorem wakeNext_cases (self : Courier) :
    self.wakeNext = self ∨ ∃ j getters, self.getters = j :: getters ∧
      self.wakeNext = { self with
        getters, workers := self.workers.modify j fun w => { w with phase := .woken } } := by
  unfold wakeNext
  cases h : self.getters with
  | nil => exact Or.inl rfl
  | cons j getters => exact Or.inr ⟨j, getters, rfl, rfl⟩

/-- Waking changes the phase of a waiting worker only. -/
theorem Sound.wakeNext_worker (h : Sound self) (i : ℕ) :
    self.wakeNext.workers[i]? = self.workers[i]? ∨
      self.workers[i]? = some ⟨.getting, false⟩ ∧
        self.wakeNext.workers[i]? = some ⟨.woken, false⟩ := by
  rcases self.wakeNext_cases with hwake | ⟨j, getters, hg, hwake⟩
  · exact Or.inl (by rw [hwake])
  · rw [hwake]
    simp only [List.getElem?_modify]
    rcases eq_or_ne j i with rfl | hji
    · have hw := h.getter j (hg ▸ List.mem_cons_self)
      exact Or.inr ⟨hw, by rw [hw]; simp⟩
    · exact Or.inl (by simp [hji])

theorem Sound.hands_wakeNext (h : Sound self) : self.wakeNext.hands = self.hands := by
  refine List.ext_getElem? fun i => ?_
  rw [hands, hands, List.getElem?_map, List.getElem?_map]
  rcases h.wakeNext_worker i with hw | ⟨hw, hw'⟩
  · rw [hw]
  · rw [hw, hw']
    rfl

theorem Sound.alive_wakeNext (h : Sound self) {i : ℕ} : self.wakeNext.Alive i ↔ self.Alive i := by
  unfold Alive
  rcases h.wakeNext_worker i with hw | ⟨hw, hw'⟩
  · rw [hw]
  · rw [hw, hw']
    simp

@[simp] theorem wakeNext_queue (self : Courier) : self.wakeNext.queue = self.queue := by
  unfold wakeNext; split <;> rfl

@[simp] theorem wakeNext_accepted (self : Courier) : self.wakeNext.accepted = self.accepted := by
  unfold wakeNext; split <;> rfl

@[simp] theorem wakeNext_attempts (self : Courier) : self.wakeNext.attempts = self.attempts := by
  unfold wakeNext; split <;> rfl

theorem Sound.wakeNext (h : Sound self) : Sound self.wakeNext where
  getter i hi := by
    rcases self.wakeNext_cases with hwake | ⟨j, getters, hg, hwake⟩
    · rw [hwake] at hi ⊢
      exact h.getter i hi
    · rw [hwake] at hi ⊢
      have hne : j ≠ i := by
        rintro rfl
        have hnodup := h.nodup
        rw [hg] at hnodup
        exact (List.nodup_cons.mp hnodup).1 hi
      simp only [List.getElem?_modify, if_neg hne]
      simpa using h.getter i (hg ▸ List.mem_cons_of_mem j hi)
  nodup := by
    rcases self.wakeNext_cases with hwake | ⟨j, getters, hg, hwake⟩
    · rw [hwake]
      exact h.nodup
    · rw [hwake]
      have hnodup := h.nodup
      rw [hg] at hnodup
      exact (List.nodup_cons.mp hnodup).2
  hand {i} w command frame hw hphase := by
    rcases h.wakeNext_worker i with hsame | ⟨_, hwoken⟩
    · exact h.hand (hsame ▸ hw) hphase
    · obtain rfl := Option.some.inj (hwoken.symm.trans hw)
      cases hphase
  frame hx := h.frame (by simpa using hx)

theorem Sound.sendCommand (h : Sound self) (command : CommandEvent) :
    Sound (self.sendCommand command) :=
  Sound.wakeNext ⟨h.getter, h.nodup, h.hand, h.frame⟩

theorem Sound.create (h : Sound self) : Sound self.create where
  getter j hj := by
    have hw := h.getter j hj
    obtain ⟨hlt, _⟩ := List.getElem?_eq_some_iff.mp hw
    rw [Courier.create, List.getElem?_append_left hlt]
    exact hw
  nodup := h.nodup
  hand {j} w command frame hw hphase := by
    rcases lt_or_ge j self.workers.length with hlt | hge
    · rw [Courier.create, List.getElem?_append_left hlt] at hw
      exact h.hand hw hphase
    · rw [Courier.create, List.getElem?_append_right hge, List.getElem?_singleton] at hw
      split at hw
      · obtain rfl := Option.some.inj hw
        cases hphase
      · cases hw
  frame hx := h.frame hx

theorem Sound.cancel (h : Sound self) (j : ℕ) : Sound (self.cancel j) := by
  unfold Courier.cancel
  cases hw : self.workers[j]? with
  | none => exact h
  | some w =>
    simp only
    split
    · exact h
    · refine ⟨?_, h.nodup.erase j, ?_, h.frame⟩
      · intro i hi
        rw [h.nodup.mem_erase_iff] at hi
        simp only [List.getElem?_set_ne hi.1.symm]
        exact h.getter i hi.2
      · intro i w' command frame hw' hphase
        rcases eq_or_ne j i with rfl | hji
        · obtain ⟨hlt, _⟩ := List.getElem?_eq_some_iff.mp hw
          simp only [List.getElem?_set_self hlt, Option.some.injEq] at hw'
          subst hw'
          exact h.hand hw hphase
        · simp only [List.getElem?_set_ne hji] at hw'
          exact h.hand hw' hphase

theorem alive_create {i : ℕ} :
    self.create.Alive i ↔ self.Alive i ∨ i = self.workers.length := by
  unfold Alive
  rcases lt_trichotomy i self.workers.length with hlt | rfl | hgt
  · simp [Courier.create, List.getElem?_append_left hlt, hlt.ne]
  · simp [Courier.create]
  · have h₁ : (self.workers ++ [({} : Worker)])[i]? = none := by
      rw [List.getElem?_eq_none]
      simp only [List.length_append, List.length_singleton]
      omega
    simp [Courier.create, h₁, List.getElem?_eq_none hgt.le, hgt.ne']

theorem alive_cancel {i j : ℕ} : (self.cancel j).Alive i ↔ self.Alive i := by
  unfold Courier.cancel Alive
  cases hw : self.workers[j]? with
  | none => rfl
  | some w =>
    simp only
    split
    · rfl
    · rcases eq_or_ne j i with rfl | hji
      · obtain ⟨hlt, _⟩ := List.getElem?_eq_some_iff.mp hw
        simp [List.getElem?_set_self hlt, hw]
      · simp [List.getElem?_set_ne hji]

theorem hands_create : self.create.hands = self.hands ++ [[]] := by
  simp [hands, Courier.create, WorkerPhase.inHand]

theorem hands_cancel (j : ℕ) : (self.cancel j).hands = self.hands := by
  unfold Courier.cancel
  cases hw : self.workers[j]? with
  | none => rfl
  | some w =>
    simp only
    split
    · rfl
    · refine List.ext_getElem? fun i => ?_
      rw [hands, hands, List.getElem?_map, List.getElem?_map]
      rcases eq_or_ne j i with rfl | hji
      · obtain ⟨hlt, _⟩ := List.getElem?_eq_some_iff.mp hw
        simp only [List.getElem?_set_self hlt, hw, Option.map_some]
      · simp only [List.getElem?_set_ne hji]

/-! ### A step of a worker -/

/-- What worker `j`, with `hand` in hand, does to the commands until it stands in `phase`. -/
structure Effect (j : ℕ) (hand : List CommandEvent) (phase : WorkerPhase) (c c' : Courier) :
    Prop where
  workers : c'.workers = c.workers.set j { phase }
  accepted : c'.accepted = c.accepted
  moved : c'.attempts.map Prod.fst ++ phase.inHand ++ c'.queue =
    c.attempts.map Prod.fst ++ hand ++ c.queue
  getters : c'.getters = c.getters ++ if phase = .getting then [j] else []
  hand : ∀ {command : CommandEvent} {frame : Bytes}, phase = .writing command frame →
    buildCommandFrame command.address command.command = .ok frame
  frame : ∀ {command : CommandEvent} {frame : Bytes},
    (command, WriteOutcome.written frame) ∈ c'.attempts →
      (command, WriteOutcome.written frame) ∈ c.attempts ∨
        buildCommandFrame command.address command.command = .ok frame

/-- Taking commands off the queue, whatever the worker had in hand before. -/
theorem take_effect (stopRequested : Bool) (j : ℕ) (queue : List CommandEvent) (self : Courier)
    (hqueue : self.queue = queue) :
    ∃ phase, Effect j [] phase self (take stopRequested j queue self) := by
  induction queue generalizing self with
  | nil =>
    refine ⟨.getting, rfl, rfl, ?_, rfl, fun h => (by cases h), Or.inl⟩
    simp [take, goto, WorkerPhase.inHand, hqueue]
  | cons command queue ih =>
    rw [take]
    cases hbuild : buildCommandFrame command.address command.command with
    | ok frame =>
      refine ⟨.writing command frame, rfl, rfl, ?_, (List.append_nil _).symm, ?_, Or.inl⟩
      · simp [goto, WorkerPhase.inHand, hqueue]
      · intro command' frame' h
        obtain ⟨rfl, rfl⟩ := WorkerPhase.writing.inj h
        exact hbuild
    | error exc =>
      have hframe : ∀ {command' : CommandEvent} {frame : Bytes},
          (command', WriteOutcome.written frame) ∈ self.attempts ++ [(command, .failed exc)] →
            (command', WriteOutcome.written frame) ∈ self.attempts := by
        intro command' frame h
        rcases List.mem_append.mp h with h | h
        · exact h
        · cases List.mem_singleton.mp h
      simp only
      split
      · refine ⟨.done, rfl, rfl, ?_, (List.append_nil _).symm, fun h => (by cases h),
          fun h => Or.inl (hframe h)⟩
        simp [goto, fail, record, WorkerPhase.inHand, hqueue]
      · obtain ⟨phase, hw, hacc, hmoved, hget, hhand, hframe'⟩ :=
          ih { self.fail command exc with queue } rfl
        refine ⟨phase, hw, hacc, ?_, hget, hhand, fun h => (hframe' h).imp_left hframe⟩
        rw [hmoved]
        simp [fail, record, hqueue]

theorem loop_effect (stopRequested : Bool) (j : ℕ) (self : Courier) :
    ∃ phase, Effect j [] phase self (self.loop stopRequested j) := by
  unfold loop
  split
  · refine ⟨.done, rfl, rfl, ?_, (List.append_nil _).symm, fun h => (by cases h), Or.inl⟩
    simp [goto, WorkerPhase.inHand]
  · exact take_effect stopRequested j self.queue self rfl

/-- The attempt at the command in hand ends, and the loop goes on. -/
theorem record_effect {j : ℕ} {command : CommandEvent} {outcome : WriteOutcome} {phase : WorkerPhase}
    {lastError : Option PyError}
    (h : Effect j [] phase { self.record command outcome with lastError } after)
    (hbuilt : ∀ frame, outcome = .written frame →
      buildCommandFrame command.address command.command = .ok frame) :
    Effect j [command] phase self after where
  workers := h.workers
  accepted := h.accepted
  moved := by
    rw [h.moved]
    simp [record]
  getters := h.getters
  hand := h.hand
  frame {command' frame} hx := by
    rcases h.frame hx with hx | hbuild
    · rcases List.mem_append.mp hx with hx | hx
      · exact Or.inl hx
      · obtain ⟨rfl, rfl⟩ := Prod.mk.inj (List.mem_singleton.mp hx)
        exact Or.inr (hbuilt frame rfl)
    · exact Or.inr hbuild

/-- A step of worker `j`: it consumes what it has in hand and the front of the queue, and may wake
    the next getter. -/
theorem work_spec {stopRequested : Bool} {j : ℕ} {reply : Except PyError Unit} (h : Sound self)
    (hwork : self.work stopRequested j reply = some after) :
    ∃ w phase mid, self.workers[j]? = some w ∧ w.phase ≠ .done ∧ w ≠ ⟨.getting, false⟩ ∧
      Effect j w.phase.inHand phase self mid ∧ (after = mid ∨ after = mid.wakeNext) := by
  have hdone : ∀ {hand : List CommandEvent}, hand = [] →
      Effect j hand .done self (self.goto j .done) := by
    rintro hand rfl
    exact ⟨rfl, rfl, by simp [goto, WorkerPhase.inHand], (List.append_nil _).symm,
      fun hp => (by cases hp), Or.inl⟩
  unfold work at hwork
  cases hw : self.workers[j]? with
  | none => rw [hw] at hwork; cases hwork
  | some w =>
    rw [hw] at hwork
    obtain ⟨phase, cancelled⟩ := w
    cases cancelled with
    | true =>
      cases phase with
      | done => cases hwork
      | writing command frame =>
        obtain rfl := Option.some.inj hwork
        refine ⟨_, .done, _, rfl, by simp, by simp, ?_, Or.inl rfl⟩
        have hempty : Effect j [] .done { self.record command .interrupted with
            lastError := self.lastError } ((self.record command .interrupted).goto j .done) :=
          ⟨rfl, rfl, by simp [goto, WorkerPhase.inHand], (List.append_nil _).symm,
            fun hp => (by cases hp), Or.inl⟩
        exact record_effect hempty fun frame hf => (by cases hf)
      | woken =>
        obtain rfl := Option.some.inj hwork
        refine ⟨_, .done, self.goto j .done, rfl, by simp, by simp, hdone rfl, ?_⟩
        split
        · exact Or.inl rfl
        · exact Or.inr rfl
      | created =>
        obtain rfl := Option.some.inj hwork
        exact ⟨_, .done, _, rfl, by simp, by simp, hdone rfl, Or.inl rfl⟩
      | getting =>
        obtain rfl := Option.some.inj hwork
        exact ⟨_, .done, _, rfl, by simp, by simp, hdone rfl, Or.inl rfl⟩
    | false =>
      cases phase with
      | done => cases hwork
      | getting => cases hwork
      | created =>
        obtain rfl := Option.some.inj hwork
        obtain ⟨phase, heffect⟩ := loop_effect stopRequested j self
        exact ⟨_, phase, _, rfl, by simp, by simp, heffect, Or.inl rfl⟩
      | woken =>
        obtain rfl := Option.some.inj hwork
        obtain ⟨phase, heffect⟩ := take_effect stopRequested j self.queue self rfl
        exact ⟨_, phase, _, rfl, by simp, by simp, heffect, Or.inl rfl⟩
      | writing command frame =>
        cases reply with
        | ok _ =>
          obtain rfl := Option.some.inj hwork
          obtain ⟨phase, heffect⟩ :=
            loop_effect stopRequested j (self.record command (.written frame))
          refine ⟨_, phase, _, rfl, by simp, by simp, record_effect heffect ?_, Or.inl rfl⟩
          rintro frame' hf
          obtain rfl := WriteOutcome.written.inj hf
          exact h.hand hw rfl
        | error exc =>
          obtain rfl := Option.some.inj hwork
          obtain ⟨phase, heffect⟩ := loop_effect stopRequested j (self.fail command exc)
          exact ⟨_, phase, _, rfl, by simp, by simp,
            record_effect heffect fun frame hf => (by cases hf), Or.inl rfl⟩

section
variable {j : ℕ} {w : Worker} {phase : WorkerPhase}

theorem Effect.worker (heffect : Effect j w.phase.inHand phase self after)
    (hw : self.workers[j]? = some w) : after.workers[j]? = some { phase } := by
  obtain ⟨hlt, _⟩ := List.getElem?_eq_some_iff.mp hw
  rw [heffect.workers, List.getElem?_set_self hlt]

theorem Effect.worker_ne {i : ℕ} (heffect : Effect j w.phase.inHand phase self after)
    (hij : j ≠ i) : after.workers[i]? = self.workers[i]? := by
  rw [heffect.workers, List.getElem?_set_ne hij]

theorem Effect.hands (heffect : Effect j w.phase.inHand phase self after) :
    after.hands = self.hands.set j phase.inHand := by
  rw [Courier.hands, Courier.hands, heffect.workers, List.map_set]

theorem Effect.sound (heffect : Effect j w.phase.inHand phase self after) (h : Sound self)
    (hw : self.workers[j]? = some w) (hne : w ≠ ⟨.getting, false⟩) : Sound after where
  getter i hi := by
    rw [heffect.getters] at hi
    rcases List.mem_append.mp hi with hi | hi
    · have hij : j ≠ i := by
        rintro rfl
        exact h.not_getter hw hne hi
      rw [heffect.worker_ne hij]
      exact h.getter i hi
    · split at hi
      · rename_i hphase
        obtain rfl := List.mem_singleton.mp hi
        rw [heffect.worker hw, hphase]
      · cases hi
  nodup := by
    rw [heffect.getters]
    refine List.nodup_append.mpr ⟨h.nodup, by split <;> simp, ?_⟩
    rintro i hi k hk rfl
    split at hk
    · obtain rfl := List.mem_singleton.mp hk
      exact h.not_getter hw hne hi
    · cases hk
  hand {i} w' command frame hw' hphase := by
    rcases eq_or_ne j i with rfl | hij
    · obtain rfl := Option.some.inj ((heffect.worker hw).symm.trans hw')
      exact heffect.hand hphase
    · rw [heffect.worker_ne hij] at hw'
      exact h.hand hw' hphase
  frame hx := by
    rcases heffect.frame hx with hx | hbuild
    · exact h.frame hx
    · exact hbuild

end

theorem Sound.work {stopRequested : Bool} {j : ℕ} {reply : Except PyError Unit} (h : Sound self)
    (hwork : self.work stopRequested j reply = some after) : Sound after := by
  obtain ⟨w, phase, mid, hw, _, hne, heffect, rfl | rfl⟩ := work_spec h hwork
  · exact heffect.sound h hw hne
  · exact (heffect.sound h hw hne).wakeNext

/-- A worker never comes back to life. -/
theorem Sound.alive_work {stopRequested : Bool} {i j : ℕ} {reply : Except PyError Unit}
    (h : Sound self) (hwork : self.work stopRequested j reply = some after)
    (halive : after.Alive i) : self.Alive i := by
  obtain ⟨w, phase, mid, hw, hdone, hne, heffect, hafter⟩ := work_spec h hwork
  have hmid : mid.Alive i := by
    rcases hafter with rfl | rfl
    · exact halive
    · exact (heffect.sound h hw hne).alive_wakeNext.mp halive
  rcases eq_or_ne j i with rfl | hij
  · exact ⟨w, hw, hdone⟩
  · unfold Alive at hmid
    rw [heffect.worker_ne hij] at hmid
    exact hmid

/-! ### No command disappears -/

/-- Every accepted command has been attempted, is being written, or waits in the queue, each
    occurrence in one place. -/
def Accounted (self : Courier) : Prop :=
  self.accepted.Perm (self.attempts.map Prod.fst ++ self.inFlight ++ self.queue)

/-- The accepted commands are the attempted ones, those being written and those in the queue, in
    this order. -/
def InOrder (self : Courier) : Prop :=
  self.accepted = self.attempts.map Prod.fst ++ self.inFlight ++ self.queue

theorem count_flatten_set {α : Type} [DecidableEq α] (a : α) (y : List α) :
    ∀ {xs : List (List α)} {j : ℕ} {x : List α}, xs[j]? = some x →
      (xs.set j y).flatten.count a + x.count a = xs.flatten.count a + y.count a
  | [], _, _, h => by simp at h
  | x :: xs, 0, _, h => by
    obtain rfl := Option.some.inj h
    simp only [List.set_cons_zero, List.flatten_cons, List.count_append]
    omega
  | z :: xs, j + 1, x, h => by
    have ih : (xs.set j y).flatten.count a + x.count a = xs.flatten.count a + y.count a :=
      count_flatten_set a y h
    simp only [List.set_cons_succ, List.flatten_cons, List.count_append]
    omega

theorem flatten_eq_of_others {α : Type} : ∀ {xs : List (List α)} {j : ℕ} {x : List α},
    xs[j]? = some x → (∀ i, i ≠ j → ∀ y, xs[i]? = some y → y = []) → xs.flatten = x
  | [], _, _, h, _ => by simp at h
  | x :: xs, 0, _, h, hothers => by
    obtain rfl := Option.some.inj h
    rw [List.flatten_cons, List.flatten_eq_nil_iff.mpr, List.append_nil]
    intro y hy
    obtain ⟨i, hi⟩ := List.mem_iff_getElem?.mp hy
    exact hothers (i + 1) (Nat.succ_ne_zero i) y hi
  | z :: xs, j + 1, x, h, hothers => by
    obtain rfl := hothers 0 (Nat.succ_ne_zero j).symm z rfl
    rw [List.flatten_cons, List.nil_append]
    have hrest : ∀ i, i ≠ j → ∀ y, xs[i]? = some y → y = [] := fun i hi y hy =>
      hothers (i + 1) (fun he => hi (Nat.succ.inj he)) y hy
    exact flatten_eq_of_others h hrest

section
variable {stopRequested : Bool} {j : ℕ} {reply : Except PyError Unit}

theorem Accounted.work (hacc : Accounted self) (h : Sound self)
    (hwork : self.work stopRequested j reply = some after) : Accounted after := by
  obtain ⟨w, phase, mid, hw, _, hne, heffect, hafter⟩ := work_spec h hwork
  have hmid : Accounted mid := by
    rw [Accounted, List.perm_iff_count]
    intro a
    have hbefore := List.perm_iff_count.mp hacc a
    have hmoved := congrArg (List.count a) heffect.moved
    have hhand : self.hands[j]? = some w.phase.inHand := by
      rw [hands, List.getElem?_map, hw]
      rfl
    have hset := count_flatten_set a phase.inHand hhand
    rw [← heffect.hands, ← inFlight_eq, ← inFlight_eq] at hset
    rw [heffect.accepted]
    simp only [List.count_append] at hbefore hmoved ⊢
    omega
  rcases hafter with rfl | rfl
  · exact hmid
  · have hsound := heffect.sound h hw hne
    rw [Accounted, inFlight_eq, hsound.hands_wakeNext, wakeNext_accepted, wakeNext_attempts,
      wakeNext_queue, ← inFlight_eq]
    exact hmid

/-- With one worker alive, commands keep their order. -/
theorem InOrder.work (hord : InOrder self) (h : Sound self)
    (hwork : self.work stopRequested j reply = some after)
    (halone : ∀ i, self.Alive i → i = j) : InOrder after := by
  obtain ⟨w, phase, mid, hw, _, hne, heffect, hafter⟩ := work_spec h hwork
  have hhand : self.hands[j]? = some w.phase.inHand := by
    rw [hands, List.getElem?_map, hw]
    rfl
  have hothers : ∀ i, i ≠ j → ∀ y, self.hands[i]? = some y → y = [] := by
    intro i hij y hy
    rw [hands, List.getElem?_map] at hy
    obtain ⟨w', hw', rfl⟩ := Option.map_eq_some_iff.mp hy
    by_contra hhand'
    refine hij (halone i ⟨w', hw', fun hdone => hhand' ?_⟩)
    rw [hdone]
    rfl
  have hflight : self.inFlight = w.phase.inHand := by
    rw [inFlight_eq]
    exact flatten_eq_of_others hhand hothers
  have hflight' : mid.inFlight = phase.inHand := by
    obtain ⟨hlt, _⟩ := List.getElem?_eq_some_iff.mp hhand
    rw [inFlight_eq, heffect.hands]
    refine flatten_eq_of_others (List.getElem?_set_self hlt) fun i hij y hy => ?_
    rw [List.getElem?_set_ne hij.symm] at hy
    exact hothers i hij y hy
  have hmid : InOrder mid := by
    rw [InOrder, heffect.accepted, hflight', heffect.moved, ← hflight]
    exact hord
  rcases hafter with rfl | rfl
  · exact hmid
  · have hsound := heffect.sound h hw hne
    rw [InOrder, inFlight_eq, hsound.hands_wakeNext, wakeNext_accepted, wakeNext_attempts,
      wakeNext_queue, ← inFlight_eq]
    exact hmid

theorem inFlight_sendCommand (h : Sound self) (command : CommandEvent) :
    (self.sendCommand command).inFlight = self.inFlight := by
  have hsound : Sound { self with
      queue := self.queue ++ [command], accepted := self.accepted ++ [command] } :=
    ⟨h.getter, h.nodup, h.hand, h.frame⟩
  rw [inFlight_eq, sendCommand, hsound.hands_wakeNext]
  exact (inFlight_eq self).symm

theorem Accounted.sendCommand (hacc : Accounted self) (h : Sound self) (command : CommandEvent) :
    Accounted (self.sendCommand command) := by
  rw [Accounted, inFlight_sendCommand h]
  simp only [Courier.sendCommand, wakeNext_accepted, wakeNext_attempts, wakeNext_queue]
  rw [← List.append_assoc]
  exact List.Perm.append_right [command] hacc

theorem InOrder.sendCommand (hord : InOrder self) (h : Sound self) (command : CommandEvent) :
    InOrder (self.sendCommand command) := by
  rw [InOrder, inFlight_sendCommand h]
  simp only [Courier.sendCommand, wakeNext_accepted, wakeNext_attempts, wakeNext_queue]
  rw [← List.append_assoc]
  exact congrArg (· ++ [command]) hord

@[simp] theorem inFlight_create : self.create.inFlight = self.inFlight := by
  rw [inFlight_eq, hands_create, List.flatten_append, inFlight_eq]
  simp

@[simp] theorem inFlight_cancel (j : ℕ) : (self.cancel j).inFlight = self.inFlight := by
  rw [inFlight_eq, hands_cancel, inFlight_eq]

theorem cancel_same (self : Courier) (j : ℕ) :
    (self.cancel j).queue = self.queue ∧ (self.cancel j).accepted = self.accepted ∧
      (self.cancel j).attempts = self.attempts := by
  unfold Courier.cancel
  split
  · exact ⟨rfl, rfl, rfl⟩
  · split <;> exact ⟨rfl, rfl, rfl⟩

end

end Courier

end SlimHub.Ble
