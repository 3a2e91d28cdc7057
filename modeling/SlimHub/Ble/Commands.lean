import SlimHub.Ble.Turns

/-! What becomes of the commands that a session has accepted.

    Whatever the tasks do, every accepted command is in one place: attempted, being written, or in
    the queue. An attempt may fail or be cut off by the end of the connection, and is not repeated.
    The order of the commands is kept because a session has one task and that task at most one
    worker. -/

namespace SlimHub.Ble
open Text Nus

namespace Courier

variable {self after : Courier}

/-- The commands whose frame was written. -/
def written (self : Courier) : List CommandEvent :=
  self.attempts.filterMap fun (command, outcome) =>
    match outcome with
    | .written _ => some command
    | _ => none

/-- The frames that were written. -/
def frames (self : Courier) : List Bytes :=
  self.attempts.filterMap fun (_, outcome) =>
    match outcome with
    | .written frame => some frame
    | _ => none

theorem frames_built : ∀ {attempts : List (CommandEvent × WriteOutcome)},
    (∀ command frame, (command, WriteOutcome.written frame) ∈ attempts →
      buildCommandFrame command.address command.command = .ok frame) →
    (written { attempts }).map (fun c => buildCommandFrame c.address c.command) =
      (frames { attempts }).map .ok
  | [], _ => rfl
  | (command, outcome) :: attempts, h => by
    have ih := frames_built fun c f hc => h c f (List.mem_cons_of_mem _ hc)
    cases outcome with
    | written frame =>
      have hframe := h command frame List.mem_cons_self
      simpa [written, frames, hframe] using ih
    | failed exc => simpa [written, frames] using ih
    | interrupted => simpa [written, frames] using ih

theorem written_sublist : ∀ attempts : List (CommandEvent × WriteOutcome),
    (written { attempts }).Sublist (attempts.map Prod.fst)
  | [] => .slnil
  | (command, outcome) :: attempts => by
    have ih := written_sublist attempts
    cases outcome with
    | written frame => exact ih.cons_cons command
    | failed exc => exact ih.cons command
    | interrupted => exact ih.cons command

/-- In a session that keeps the order, the frames written are those of a sublist of the accepted
    commands. -/
theorem InOrder.written_sublist (h : InOrder self) : self.written.Sublist self.accepted := by
  rw [h, List.append_assoc]
  exact (Courier.written_sublist self.attempts).trans (List.sublist_append_left _ _)

theorem sound_of_employs {w w' : Option ℕ} (h : Sound self) (he : Employs self w w' after) :
    Sound after := by
  cases he with
  | same worker lastError => exact ⟨h.getter, h.nodup, h.hand, h.frame⟩
  | create lastError => exact Sound.create ⟨h.getter, h.nodup, h.hand, h.frame⟩
  | cancel w => exact h.cancel w
  | join w _ => exact h

/-- A turn of a session task touches no command. -/
theorem employs_same {w w' : Option ℕ} (he : Employs self w w' after) :
    after.accepted = self.accepted ∧ after.attempts = self.attempts ∧
      after.inFlight = self.inFlight ∧ after.queue = self.queue := by
  cases he with
  | same worker lastError => exact ⟨rfl, rfl, rfl, rfl⟩
  | create lastError => exact ⟨rfl, rfl, inFlight_create, rfl⟩
  | cancel w =>
    obtain ⟨hqueue, haccepted, hattempts⟩ := self.cancel_same w
    exact ⟨haccepted, hattempts, inFlight_cancel w, hqueue⟩
  | join w _ => exact ⟨rfl, rfl, rfl, rfl⟩

end Courier

namespace Process

variable {self after : Process} {a : Action}

/-- What a step does to the commands: a turn of a session task, a new command, a step of a worker,
    or nothing. -/
theorem step_courier (h : step a self = some after) :
    (∃ w w', Employs self.courier w w' after.courier) ∨
      (∃ command, a = .sendCommand command ∧ after.courier = self.courier.sendCommand command) ∨
      ∃ j reply, a = .worker j reply ∧
        self.courier.work self.stopRequested j reply = some after.courier := by
  have same : ∀ {p : Process}, p.courier = self.courier →
      ∃ w w', Employs self.courier w w' p.courier := by
    intro p hp
    rw [hp]
    exact ⟨none, none, .same none _⟩
  cases a with
  | run i reply now =>
    obtain ⟨_, _, _, hturn⟩ := run_turn h
    exact Or.inl ⟨_, _, hturn.employs⟩
  | start =>
    obtain rfl := Option.some.inj h
    refine Or.inl (same ?_)
    unfold start
    split <;> rfl
  | stop =>
    obtain rfl := Option.some.inj h
    obtain ⟨_, _, hstop, _⟩ := self.stop_cases
    rw [hstop]
    exact Or.inl (same rfl)
  | resumeStop j =>
    obtain ⟨i, raised, _, _, rfl⟩ := resumeStop_cases h
    cases raised <;> exact Or.inl (same rfl)
  | updateTarget target now =>
    obtain rfl := Option.some.inj h
    refine Or.inl (same ?_)
    simp only [updateTarget]
    split <;> rfl
  | sendCommand command =>
    obtain rfl := Option.some.inj h
    exact Or.inr (Or.inl ⟨command, rfl, rfl⟩)
  | helper i side =>
    obtain ⟨_, _, _, _, ⟨_, rfl⟩ | ⟨_, rfl⟩⟩ := helper_cases h <;> exact Or.inl (same rfl)
  | worker j reply =>
    obtain ⟨courier, hwork, rfl⟩ := Option.map_eq_some_iff.mp h
    exact Or.inr (Or.inr ⟨j, reply, rfl, hwork⟩)
  | linkLost c =>
    obtain rfl := Option.some.inj h
    exact Or.inl (same rfl)
  | disconnectSeen c =>
    obtain rfl := Option.some.inj h
    exact Or.inl (same rfl)

theorem step_sound (hs : self.courier.Sound) (h : step a self = some after) :
    after.courier.Sound := by
  rcases step_courier h with ⟨_, _, he⟩ | ⟨command, _, hc⟩ | ⟨j, reply, _, hwork⟩
  · exact Courier.sound_of_employs hs he
  · rw [hc]
    exact hs.sendCommand command
  · exact hs.work hwork

/-! ### Accounting -/

/-- Well-formed queue and workers, and no command astray. -/
def Keeps (self : Process) : Prop := self.courier.Sound ∧ self.courier.Accounted

theorem Keeps.step (hs : Keeps self) (h : step a self = some after) : Keeps after := by
  refine ⟨step_sound hs.1 h, ?_⟩
  rcases step_courier h with ⟨_, _, he⟩ | ⟨command, _, hc⟩ | ⟨j, reply, _, hwork⟩
  · obtain ⟨haccepted, hattempts, hflight, hqueue⟩ := Courier.employs_same he
    rw [Courier.Accounted, haccepted, hattempts, hflight, hqueue]
    exact hs.2
  · rw [hc]
    exact hs.2.sendCommand hs.1 command
  · exact hs.2.work hs.1 hwork

theorem Keeps.new (target : Target) (address name : Str) : Keeps (new target address name) :=
  ⟨.empty, List.Perm.refl []⟩

/-- In every run, each accepted command has been attempted, is being written, or waits in the
    queue, every occurrence in exactly one place, and what was written for it is its frame. -/
theorem accounted (target : Target) (address name : Str) {as : List Action} {s : Process}
    (h : Machine.run step as (new target address name) = some s) :
    s.courier.accepted.Perm
        (s.courier.attempts.map Prod.fst ++ s.courier.inFlight ++ s.courier.queue) ∧
      ∀ command frame, (command, WriteOutcome.written frame) ∈ s.courier.attempts →
        buildCommandFrame command.address command.command = .ok frame := by
  have hkeeps : Keeps s := Machine.run_invariant (fun _ _ _ hs ht => hs.step ht)
    (Keeps.new target address name) h
  exact ⟨hkeeps.2, fun _ _ hframe => hkeeps.1.frame hframe⟩

/-- A manual command. -/
def manual : CommandEvent := ⟨str "0123456789AB", str "strong_enter", []⟩

/-- A round in which the worker is writing a command. -/
def writingRound : List Action :=
  [.start, .run 0 (.ok true) 0, .run 0 (.ok true) 0, .run 0 (.ok true) 0, .run 0 (.ok true) 0,
    .worker 0 (.ok ()), .sendCommand manual, .worker 0 (.ok ())]

/-- The end of that round: the peer is gone, and the worker is cancelled. -/
def cutRound : List Action :=
  [.disconnectSeen 0, .helper 0 .stop, .helper 0 .other, .run 0 (.ok true) 0, .helper 0 .stop,
    .run 0 (.ok true) 0, .worker 0 (.ok ())]

theorem accounted_cut : ∃ s,
    Machine.run step (writingRound ++ cutRound) (new (.text []) [] []) = some s ∧
      s.courier.accepted.Perm
          (s.courier.attempts.map Prod.fst ++ s.courier.inFlight ++ s.courier.queue) ∧
        ∀ command frame, (command, WriteOutcome.written frame) ∈ s.courier.attempts →
          buildCommandFrame command.address command.command = .ok frame :=
  ⟨_, rfl, @accounted (.text []) [] [] (writingRound ++ cutRound) _ rfl⟩

/-- A command whose write fails is given up, and so is one whose worker is cancelled while it
    writes: it was accepted, and is neither written, nor being written, nor in the queue. -/
theorem command_given_up : ∃ s t,
    Machine.run step (writingRound ++ [.worker 0 (.error ⟨.bleakError, []⟩)])
        (new (.text []) [] []) = some s ∧
      Machine.run step (writingRound ++ cutRound) (new (.text []) [] []) = some t ∧
        ∀ c ∈ [s.courier, t.courier], manual ∈ c.accepted ∧ manual ∉ c.written ∧
          manual ∉ c.inFlight ∧ manual ∉ c.queue :=
  ⟨_, _, rfl, rfl, by decide +kernel⟩

/-! ### One worker -/

/-- `start` is not called while a `stop` awaits the task; the only caller starts a session once,
    when it is made. -/
def StartsRested (self : Process) : Action → Bool
  | .start => self.stopping.isEmpty
  | _ => true

/-- The one task that is not over is `_task`, and the one worker that is alive is its worker. -/
structure OneTask (p : Process) : Prop where
  task : ∀ (i : ℕ) phase, p.runs[i]? = some phase → (∀ raised, phase ≠ .done raised) →
    p.task = some i
  stopping : ∀ i ∈ p.stopping, p.task = some i ∨ p.task = none
  worker : ∀ w, p.courier.Alive w → ∃ (i : ℕ) (phase : Phase),
    p.runs[i]? = some phase ∧ phase.worker = some w

theorem ne_done_of_worker {phase : Phase} {w : ℕ} (h : phase.worker = some w) (raised : Option PyError) :
    phase ≠ .done raised := by
  rintro rfl
  cases h

theorem OneTask.unique (h : OneTask self) {v w : ℕ} (hv : self.courier.Alive v)
    (hw : self.courier.Alive w) : v = w := by
  obtain ⟨i, phase, hphase, hphaseWorker⟩ := h.worker v hv
  obtain ⟨j, phase', hphase', hphaseWorker'⟩ := h.worker w hw
  have hi := h.task i phase hphase (ne_done_of_worker hphaseWorker)
  have hj := h.task j phase' hphase' (ne_done_of_worker hphaseWorker')
  obtain rfl := Option.some.inj (hi.symm.trans hj)
  obtain rfl := Option.some.inj (hphase.symm.trans hphase')
  exact Option.some.inj (hphaseWorker.symm.trans hphaseWorker')

theorem OneTask.new (target : Target) (address name : Str) : OneTask (new target address name) where
  task i phase h := by simp [Process.new] at h
  stopping i h := absurd h List.not_mem_nil
  worker w h := by
    obtain ⟨_, hw, _⟩ := h
    simp [Process.new] at hw

/-- Steps at which every task stays as it is, but for its helpers. -/
theorem OneTask.beside (h : OneTask self) (hbeside : Beside self after)
    (hcreated : after.runs.length = self.runs.length) (htask : after.task = self.task)
    (hstopping : after.stopping = self.stopping)
    (halive : ∀ w, after.courier.Alive w → self.courier.Alive w) : OneTask after where
  task i next hnext hdone := by
    rw [htask]
    obtain ⟨hlt, _⟩ := List.getElem?_eq_some_iff.mp hnext
    rcases hbeside.alike i next hnext with ⟨phase, hphase, hlike⟩ | ⟨hi, _⟩
    · exact h.task i phase hphase fun raised hr => hdone raised ((hlike.done raised).mpr hr)
    · omega
  stopping i hi := by
    rw [htask]
    exact h.stopping i (hstopping ▸ hi)
  worker w hw := by
    obtain ⟨i, phase, hphase, hworker⟩ := h.worker w (halive w hw)
    obtain ⟨next, hnext, hlike⟩ := hbeside.kept i phase hphase
    exact ⟨i, next, hnext, hlike.worker.trans hworker⟩

/-- With a task that is over, none is left. -/
theorem OneTask.none_left (h : OneTask self) {i : ℕ} {raised : Option PyError}
    (htask : self.task = some i ∨ self.task = none) (hdone : self.runs[i]? = some (.done raised))
    (j : ℕ) (phase : Phase) (hphase : self.runs[j]? = some phase)
    (hne : ∀ raised, phase ≠ .done raised) : False := by
  have hj := h.task j phase hphase hne
  rcases htask with htask | htask
  · obtain rfl := Option.some.inj (htask.symm.trans hj)
    exact hne raised (Option.some.inj (hphase.symm.trans hdone))
  · cases htask.symm.trans hj

theorem run_not_done {i : ℕ} {reply : Except PyError Bool} {now : ℚ} {phase : Phase}
    (h : self.run i reply now = some after) (hphase : self.runs[i]? = some phase)
    (raised : Option PyError) : phase ≠ .done raised := by
  rintro rfl
  simp [run, hphase] at h

theorem OneTask.turn (h : OneTask self) {i : ℕ} {reply : Except PyError Bool} {phase next : Phase}
    (hphase : self.runs[i]? = some phase) (hlive : ∀ raised, phase ≠ .done raised)
    (hturn : Turn self i reply phase next after) : OneTask after := by
  obtain ⟨hlt, _⟩ := List.getElem?_eq_some_iff.mp hphase
  have hnext : after.runs[i]? = some next := by rw [hturn.runs, List.getElem?_set_self hlt]
  have hother : ∀ {j : ℕ}, i ≠ j → after.runs[j]? = self.runs[j]? := fun hij => by
    rw [hturn.runs, List.getElem?_set_ne hij]
  -- whoever owns a live worker is this task
  have howner : ∀ {w : ℕ}, self.courier.Alive w → phase.worker = some w := by
    intro w hw
    obtain ⟨j, phase', hphase', hworker⟩ := h.worker w hw
    have hj := h.task j phase' hphase' (ne_done_of_worker hworker)
    obtain rfl := Option.some.inj ((h.task i phase hphase hlive).symm.trans hj)
    obtain rfl := Option.some.inj (hphase.symm.trans hphase')
    exact hworker
  refine ⟨?_, ?_, ?_⟩
  · intro j phase' hphase' hdone
    rw [hturn.task]
    rcases eq_or_ne i j with rfl | hij
    · exact h.task i phase hphase hlive
    · exact h.task j phase' (hother hij ▸ hphase') hdone
  · intro j hj
    rw [hturn.task]
    exact h.stopping j (hturn.stopping ▸ hj)
  · intro w hw
    refine ⟨i, next, hnext, ?_⟩
    have hemploys := hturn.employs
    generalize hworker : phase.worker = worker at hemploys howner
    generalize next.worker = worker' at hemploys ⊢
    generalize after.courier = courier at hemploys hw
    cases hemploys with
    | same _ lastError => exact howner hw
    | create lastError =>
      rcases Courier.alive_create.mp hw with hold | rfl
      · cases howner hold
      · rfl
    | cancel w' => exact howner (Courier.alive_cancel.mp hw)
    | join w' hdone =>
      obtain rfl := Option.some.inj (howner hw)
      obtain ⟨worker, hworker, hne⟩ := hw
      rw [hworker] at hdone
      exact absurd (Option.some.inj hdone) hne

theorem OneTask.start (h : OneTask self) (hstopping : self.stopping = []) :
    OneTask self.start := by
  unfold Process.start
  split
  · exact h
  · rename_i hrunning
    -- no task is left: `_task` would be running
    have hnone : ∀ (i : ℕ) phase, self.runs[i]? = some phase →
        (∀ raised, phase ≠ .done raised) → False := by
      intro i phase hphase hne
      refine hrunning ?_
      unfold running
      rw [h.task i phase hphase hne]
      cases phase with
      | done raised => exact absurd rfl (hne raised)
      | _ => simp [hphase]
    refine ⟨?_, ?_, ?_⟩
    · intro i phase hphase hne
      rcases lt_or_ge i self.runs.length with hlt | hge
      · simp only [List.getElem?_append_left hlt] at hphase
        exact (hnone i phase hphase hne).elim
      · simp only [List.getElem?_append_right hge, List.getElem?_singleton] at hphase
        split at hphase
        · exact congrArg some (by omega)
        · cases hphase
    · intro i hi
      simp [hstopping] at hi
    · intro w hw
      obtain ⟨i, phase, hphase, hworker⟩ := h.worker w hw
      exact (hnone i phase hphase (ne_done_of_worker hworker)).elim

theorem OneTask.stop (h : OneTask self) : OneTask self.stop := by
  obtain ⟨task, stopping, hstop, hcase⟩ := self.stop_cases
  rw [hstop]
  have hmap : Beside self { self with
      stopRequested := true, runs := self.runs.map wakeStop, task := self.task,
      stopping := self.stopping } := .of_map alike_wakeStop rfl
  have hbase := h.beside hmap (List.length_map _) rfl rfl fun _ hw => hw
  rcases hcase with ⟨rfl, rfl⟩ | ⟨rfl, i, htask, rfl⟩ | ⟨rfl, rfl, i, raised, htask, hdone⟩
  · exact hbase
  · refine ⟨hbase.task, fun j hj => ?_, hbase.worker⟩
    rcases List.mem_append.mp hj with hj | hj
    · exact h.stopping j hj
    · obtain rfl := List.mem_singleton.mp hj
      exact Or.inl htask
  · have hleft := hbase.none_left (Or.inl htask) hdone
    refine ⟨fun j phase hphase hne => (hleft j phase hphase hne).elim, fun _ _ => Or.inr rfl, ?_⟩
    intro w hw
    obtain ⟨j, phase, hphase, hworker⟩ := hbase.worker w hw
    exact (hleft j phase hphase (ne_done_of_worker hworker)).elim

theorem OneTask.resumeStop (h : OneTask self) {j : ℕ} (hstep : self.resumeStop j = some after) :
    OneTask after := by
  obtain ⟨i, raised, hi, hdone, rfl⟩ := resumeStop_cases hstep
  have hmem : ∀ k ∈ self.stopping.eraseIdx j, k ∈ self.stopping :=
    fun k hk => List.mem_of_mem_eraseIdx hk
  cases raised with
  | some exc => exact ⟨h.task, fun k hk => h.stopping k (hmem k hk), h.worker⟩
  | none =>
    have hleft := h.none_left (h.stopping i (List.mem_of_getElem? hi)) hdone
    refine ⟨fun k phase hphase hne => (hleft k phase hphase hne).elim, fun _ _ => Or.inr rfl, ?_⟩
    intro w hw
    obtain ⟨k, phase, hphase, hworker⟩ := h.worker w hw
    exact (hleft k phase hphase (ne_done_of_worker hworker)).elim

theorem OneTask.step (h : OneTask self) (hsound : self.courier.Sound)
    (hrested : self.StartsRested a = true) (hstep : step a self = some after) : OneTask after := by
  cases a with
  | run i reply now =>
    obtain ⟨phase, next, hphase, hturn⟩ := run_turn hstep
    exact h.turn hphase (run_not_done hstep hphase) hturn
  | start =>
    obtain rfl := Option.some.inj hstep
    exact h.start (List.isEmpty_iff.mp hrested)
  | stop =>
    obtain rfl := Option.some.inj hstep
    exact h.stop
  | resumeStop j => exact h.resumeStop hstep
  | updateTarget target now =>
    obtain rfl := Option.some.inj hstep
    have hbeside := self.updateTarget_beside target now
    simp only [updateTarget] at hbeside ⊢
    split
    · exact ⟨h.task, h.stopping, h.worker⟩
    · rename_i address hnorm
      rw [hnorm] at hbeside
      exact h.beside hbeside (List.length_map _) rfl rfl fun _ hw => hw
  | sendCommand command =>
    obtain rfl := Option.some.inj hstep
    refine h.beside (.of_same rfl) rfl rfl rfl fun w hw => ?_
    have hqueued : Courier.Sound { self.courier with
        queue := self.courier.queue ++ [command], accepted := self.courier.accepted ++ [command] } :=
      ⟨hsound.getter, hsound.nodup, hsound.hand, hsound.frame⟩
    exact hqueued.alive_wakeNext.mp hw
  | helper i side =>
    have hbeside := helper_beside hstep
    obtain ⟨_, _, _, _, ⟨_, rfl⟩ | ⟨_, rfl⟩⟩ := helper_cases hstep <;>
      exact h.beside hbeside List.length_set rfl rfl fun _ hw => hw
  | worker j reply =>
    obtain ⟨courier, hwork, rfl⟩ := Option.map_eq_some_iff.mp hstep
    exact h.beside (.of_same rfl) rfl rfl rfl fun _ hw => hsound.alive_work hwork hw
  | linkLost c =>
    obtain rfl := Option.some.inj hstep
    exact h.beside (.of_same rfl) rfl rfl rfl fun _ hw => hw
  | disconnectSeen c =>
    obtain rfl := Option.some.inj hstep
    exact h.beside (.of_map (alike_wakeLink c) rfl) (List.length_map _) rfl rfl fun _ hw => hw

/-- Well-formed queue and workers, one task with one worker, and the commands in order. -/
structure Orderly (p : Process) : Prop where
  sound : p.courier.Sound
  oneTask : OneTask p
  inOrder : p.courier.InOrder

theorem Orderly.step (h : Orderly self) (hrested : self.StartsRested a = true)
    (hstep : step a self = some after) : Orderly after := by
  refine ⟨step_sound h.sound hstep, h.oneTask.step h.sound hrested hstep, ?_⟩
  rcases step_courier hstep with ⟨_, _, he⟩ | ⟨command, _, hc⟩ | ⟨j, reply, _, hwork⟩
  · obtain ⟨haccepted, hattempts, hflight, hqueue⟩ := Courier.employs_same he
    rw [Courier.InOrder, haccepted, hattempts, hflight, hqueue]
    exact h.inOrder
  · rw [hc]
    exact h.inOrder.sendCommand h.sound command
  · obtain ⟨w, _, _, hw, hdone, _⟩ := Courier.work_spec h.sound hwork
    exact h.inOrder.work h.sound hwork fun i hi => h.oneTask.unique hi ⟨w, hw, hdone⟩

theorem Orderly.new (target : Target) (address name : Str) : Orderly (new target address name) :=
  ⟨.empty, .new target address name, rfl⟩

/-- In every run there is at most one worker alive, the accepted commands are the attempted ones,
    the one being written and the queue, in this order, and the frames written are those of a
    sublist of the accepted commands. -/
theorem ordered (target : Target) (address name : Str) {as : List Action} {s : Process}
    (hrested : Machine.Along step (fun s a _ => s.StartsRested a = true)
      (new target address name) as)
    (h : Machine.run step as (new target address name) = some s) :
    (∀ v w, s.courier.Alive v → s.courier.Alive w → v = w) ∧
      s.courier.accepted =
        s.courier.attempts.map Prod.fst ++ s.courier.inFlight ++ s.courier.queue ∧
      s.courier.written.Sublist s.courier.accepted ∧
      s.courier.written.map (fun c => buildCommandFrame c.address c.command) =
        s.courier.frames.map .ok := by
  have horderly : Orderly s := Machine.run_invariant_along (fun _ _ _ hs hr ht => hs.step hr ht)
    (Orderly.new target address name) hrested h
  exact ⟨fun _ _ => horderly.oneTask.unique, horderly.inOrder, horderly.inOrder.written_sublist,
    Courier.frames_built fun _ _ hx => horderly.sound.frame hx⟩

theorem ordered_cut : ∃ s,
    Machine.run step (writingRound ++ .worker 0 (.ok ()) :: cutRound) (new (.text []) [] []) =
        some s ∧
      (∀ v w, s.courier.Alive v → s.courier.Alive w → v = w) ∧
        s.courier.accepted =
          s.courier.attempts.map Prod.fst ++ s.courier.inFlight ++ s.courier.queue ∧
        s.courier.written.Sublist s.courier.accepted ∧
        s.courier.written.map (fun c => buildCommandFrame c.address c.command) =
          s.courier.frames.map .ok :=
  ⟨_, rfl, @ordered (.text []) [] [] (writingRound ++ .worker 0 (.ok ()) :: cutRound) _
    (by decide +kernel) rfl⟩

end Process

end SlimHub.Ble
