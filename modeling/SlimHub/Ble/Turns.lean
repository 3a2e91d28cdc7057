import SlimHub.Ble.Process

/-! What the tasks of a session can do in one step.

    `Turn` says once what a session task can do between two awaits: where it then stands, what it
    does to the worker of its connection, to the target-updated event and to `connected` and
    `_client`. The invariants of a session are read off it. -/

namespace SlimHub.Ble
open Text Nus

/-- The task is outside its `try` block: it has not begun, waits for an update, or is over. -/
def Phase.Away : Phase → Prop
  | .created => True
  | .racing _ purpose => purpose = .update
  | .gathering _ purpose => purpose = .update
  | .done _ => True
  | _ => False

/-- The worker that the task has started and not seen the end of. -/
def Phase.worker : Phase → Option ℕ
  | .racing _ (.link _ w) => some w
  | .gathering _ (.link _ w) => some w
  | .joining _ w => some w
  | _ => none

/-- What a turn does with the worker of the task: nothing but noting an error, a first worker,
    its cancellation, or the sight of its end. -/
inductive Employs (c : Courier) : Option ℕ → Option ℕ → Courier → Prop where
  | same (worker : Option ℕ) (lastError : Option PyError) :
      Employs c worker worker { c with lastError }
  | create (lastError : Option PyError) :
      Employs c none (some c.workers.length) { c with lastError }.create
  | cancel (w : ℕ) : Employs c (some w) (some w) (c.cancel w)
  | join (w : ℕ) (h : c.workers[w]?.map (·.phase) = some .done) : Employs c (some w) none c

theorem Helper.cancel_cases (h : Helper) : h.cancel = .cancelled ∨ h.cancel = .done := by
  unfold Helper.cancel
  split
  · exact Or.inr rfl
  · exact Or.inl rfl

namespace Process

/-- The `disconnect` of the `finally` block raises what `suppress` lets through. -/
def Escapes (phase : Phase) (reply : Except PyError Bool) : Prop :=
  ∃ c exc, phase = .cleaning c ∧ reply = .error exc ∧ suppressedInFinally exc = false

/-- The target-updated event is left alone, or consumed by an attempt. -/
inductive Spends (self after : Process) : Prop where
  | same (updated : after.targetUpdated = self.targetUpdated) (grants : after.grants = self.grants)
      (attempts : after.attempts = self.attempts) (updates : after.updates = self.updates)
  | consumed (wasUpdated : self.targetUpdated = true) (updated : after.targetUpdated = false)
      (grants : after.grants = self.grants ++ [.consumed])
      (attempts : after.attempts = self.attempts + 1) (updates : after.updates = self.updates)

/-- Session task `i` goes from `phase` to `next`. -/
structure Turn (p : Process) (i : ℕ) (reply : Except PyError Bool) (phase next : Phase)
    (after : Process) : Prop where
  runs : after.runs = p.runs.set i next
  task : after.task = p.task
  stopping : after.stopping = p.stopping
  stopRequested : after.stopRequested = p.stopRequested
  employs : Employs p.courier phase.worker next.worker after.courier
  spends : Spends p after
  ended : ∀ raised, next = .done raised → p.stopRequested = true ∨ Escapes phase reply
  away : next.Away → after.connected = false ∧ after.client = none ∨
    phase.Away ∧ after.connected = p.connected ∧ after.client = p.client ∨ Escapes phase reply
  race : ∀ race purpose, next = .racing race purpose → race = {}
  gathered : ∀ race purpose, next = .gathering race purpose →
    (race.stop = .cancelled ∨ race.stop = .done) ∧ (race.other = .cancelled ∨ race.other = .done)

section
variable {self base after : Process} {i : ℕ} {reply : Except PyError Bool} {phase next : Phase}

/-- `base` differs from `self` in what a task changes before it goes on: the clients, `connected`,
    `_client`, `waiting_for_advertisement`, `last_seen` and `last_error`. -/
structure Prepared (p base : Process) : Prop where
  runs : base.runs = p.runs
  task : base.task = p.task
  stopping : base.stopping = p.stopping
  stopRequested : base.stopRequested = p.stopRequested
  courier : ∃ lastError, base.courier = { p.courier with lastError }
  targetUpdated : base.targetUpdated = p.targetUpdated
  grants : base.grants = p.grants
  attempts : base.attempts = p.attempts
  updates : base.updates = p.updates

theorem Prepared.refl (self : Process) : Prepared self self :=
  ⟨rfl, rfl, rfl, rfl, ⟨_, rfl⟩, rfl, rfl, rfl, rfl⟩

theorem Prepared.set (h : Prepared self base) (next : Phase) :
    base.runs.set i next = self.runs.set i next := by
  rw [h.runs]

theorem Prepared.spends (h : Prepared self base) (hs : Spends base after) : Spends self after := by
  cases hs with
  | same updated grants attempts updates =>
    exact .same (updated.trans h.targetUpdated) (grants.trans h.grants)
      (attempts.trans h.attempts) (updates.trans h.updates)
  | consumed wasUpdated updated grants attempts updates =>
    exact .consumed (h.targetUpdated ▸ wasUpdated) updated (h.grants ▸ grants)
      (h.attempts ▸ attempts) (updates.trans h.updates)

/-- A turn that ends in `goto`, without the event. -/
theorem Prepared.turn (h : Prepared self base) (hworker : next.worker = phase.worker)
    (hdone : ∀ raised, next = .done raised → Escapes phase reply)
    (haway : next.Away → phase.Away ∧ base.connected = self.connected ∧ base.client = self.client ∨
      Escapes phase reply)
    (hrace : ∀ race purpose, next ≠ .racing race purpose)
    (hgathered : ∀ race purpose, next = .gathering race purpose →
      (race.stop = .cancelled ∨ race.stop = .done) ∧
        (race.other = .cancelled ∨ race.other = .done)) :
    Turn self i reply phase next (base.goto i next) where
  runs := h.set next
  task := h.task
  stopping := h.stopping
  stopRequested := h.stopRequested
  employs := by
    obtain ⟨lastError, hc⟩ := h.courier
    rw [hworker]
    exact hc ▸ Employs.same phase.worker lastError
  spends := .same h.targetUpdated h.grants h.attempts h.updates
  ended raised hr := Or.inr (hdone raised hr)
  away ha := Or.inr (haway ha)
  race race purpose hr := absurd hr (hrace race purpose)
  gathered := hgathered

/-- `_wait_for_target_update` ends in a new attempt, in the end of the task, or in a race. -/
theorem Prepared.waitForTargetUpdate (h : Prepared self base) (hworker : phase.worker = none)
    (haway : base.connected = false ∧ base.client = none ∨
      phase.Away ∧ base.connected = self.connected ∧ base.client = self.client) :
    ∃ next, Turn self i reply phase next (base.waitForTargetUpdate i) := by
  obtain ⟨lastError, hc⟩ := h.courier
  have hemploys : ∀ {c : Courier}, c = base.courier → Employs self.courier phase.worker none c := by
    rintro c rfl
    rw [hworker, hc]
    exact .same none lastError
  unfold Process.waitForTargetUpdate
  split
  · rename_i hstop
    rw [h.stopRequested] at hstop
    exact ⟨.done none, h.set _, h.task, h.stopping, h.stopRequested,
      hemploys rfl, .same h.targetUpdated h.grants h.attempts h.updates, fun _ _ => Or.inl hstop,
      fun _ => haway.imp_right Or.inl, fun _ _ hr => (by cases hr), fun _ _ hr => (by cases hr)⟩
  · split
    · rename_i hset
      exact ⟨.acquiring base.clients.length, h.set _, h.task, h.stopping,
        h.stopRequested, hemploys rfl,
        h.spends (.consumed hset rfl rfl rfl rfl), fun _ hr => (by cases hr), fun ha => ha.elim,
        fun _ _ hr => (by cases hr), fun _ _ hr => (by cases hr)⟩
    · exact ⟨.racing {} .update, h.set _, h.task, h.stopping, h.stopRequested,
        hemploys rfl, .same h.targetUpdated h.grants h.attempts h.updates,
        fun _ hr => (by cases hr), fun _ => haway.imp_right Or.inl,
        fun _ _ hr => (Phase.racing.inj hr).1.symm, fun _ _ hr => (by cases hr)⟩

theorem Prepared.leave (h : Prepared self base) (hworker : phase.worker = none) :
    ∃ next, Turn self i reply phase next (base.leave i) := by
  have hbase : ∀ waiting, Prepared self { base with
      connected := false, client := none, waitingForAdvertisement := waiting } := fun _ =>
    ⟨h.runs, h.task, h.stopping, h.stopRequested, h.courier, h.targetUpdated, h.grants, h.attempts,
      h.updates⟩
  simp only [Process.leave]
  split
  · rename_i hstop
    have hwait : ∃ next, Turn self i reply phase next ((({ base with
        connected := false, client := none,
        waitingForAdvertisement := base.waitingForAdvertisement } : Process)).waitForTargetUpdate i) :=
      (hbase base.waitingForAdvertisement).waitForTargetUpdate hworker (Or.inl ⟨rfl, rfl⟩)
    rwa [Process.waitForTargetUpdate, if_pos hstop] at hwait
  · exact (hbase true).waitForTargetUpdate hworker (Or.inl ⟨rfl, rfl⟩)

theorem Prepared.cleanUp (h : Prepared self base) (hworker : phase.worker = none) :
    ∃ next, Turn self i reply phase next (base.cleanUp i) := by
  unfold Process.cleanUp
  split
  · exact h.leave hworker
  · rename_i c _
    split
    · exact ⟨.cleaning c, h.turn hworker.symm (fun _ hr => (by cases hr)) (fun ha => ha.elim)
        (fun _ _ hr => (by cases hr)) (fun _ _ hr => (by cases hr))⟩
    · exact h.leave hworker

theorem Prepared.fail (h : Prepared self base) (hworker : phase.worker = none) (exc : PyError) :
    ∃ next, Turn self i reply phase next (base.fail i exc) := by
  obtain ⟨lastError, hc⟩ := h.courier
  have hbase : Prepared self { base with courier := { base.courier with lastError := some exc } } :=
    ⟨h.runs, h.task, h.stopping, h.stopRequested, ⟨some exc, by rw [hc]⟩, h.targetUpdated,
      h.grants, h.attempts, h.updates⟩
  exact hbase.cleanUp hworker

theorem Prepared.setConnected (h : Prepared self base) (c : ℕ) (isConnected : Bool) :
    Prepared self (base.setConnected c isConnected) :=
  ⟨h.runs, h.task, h.stopping, h.stopRequested, h.courier, h.targetUpdated, h.grants, h.attempts,
    h.updates⟩

/-- A turn that only moves on, inside a connection round. -/
theorem Prepared.move (h : Prepared self base) (hworker : next.worker = phase.worker)
    (haway : ¬ next.Away) (hrace : ∀ race purpose, next ≠ .racing race purpose)
    (hgathered : ∀ race purpose, next ≠ .gathering race purpose) :
    ∃ next', Turn self i reply phase next' (base.goto i next) :=
  ⟨next, h.turn hworker (fun _ hr => (haway (hr ▸ trivial)).elim) (fun ha => (haway ha).elim)
    hrace fun race purpose hr => (hgathered race purpose hr).elim⟩

theorem settle_turn {purpose : Purpose}
    (hphase : ∃ race, phase = .racing race purpose ∨ phase = .gathering race purpose) :
    ∃ next, Turn self i reply phase next (self.settle i purpose) := by
  obtain ⟨race, hphase⟩ := hphase
  cases purpose with
  | update =>
    refine (Prepared.refl self).waitForTargetUpdate ?_ (Or.inr ⟨?_, rfl, rfl⟩)
    · rcases hphase with rfl | rfl <;> rfl
    · rcases hphase with rfl | rfl <;> rfl
  | link c w =>
    have hworker : phase.worker = some w := by rcases hphase with rfl | rfl <;> rfl
    exact ⟨.joining c w, rfl, rfl, rfl, rfl, hworker ▸ .cancel w, .same rfl rfl rfl rfl,
      fun _ hr => (by cases hr), fun ha => ha.elim, fun _ _ hr => (by cases hr),
      fun _ _ hr => (by cases hr)⟩

/-- A session task goes on: what one turn can do. -/
theorem run_turn {now : ℚ} (h : self.run i reply now = some after) :
    ∃ phase next, self.runs[i]? = some phase ∧ Turn self i reply phase next after := by
  have hself := Prepared.refl self
  cases hphase : self.runs[i]? with
  | none => simp [run, hphase] at h
  | some phase =>
    suffices hturn : ∃ next, Turn self i reply phase next after by
      obtain ⟨next, hturn⟩ := hturn
      exact ⟨phase, next, rfl, hturn⟩
    unfold run at h
    rw [hphase] at h
    cases phase with
    | created =>
      obtain rfl := Option.some.inj h
      exact hself.waitForTargetUpdate rfl (Or.inr ⟨trivial, rfl, rfl⟩)
    | racing race purpose =>
      simp only at h
      split at h
      · obtain rfl := Option.some.inj h
        exact settle_turn ⟨race, Or.inl rfl⟩
      · split at h
        · obtain rfl := Option.some.inj h
          refine ⟨_, hself.turn (by cases purpose <;> rfl) (fun _ hr => (by cases hr))
            (fun ha => Or.inl ⟨ha, rfl, rfl⟩) (fun _ _ hr => (by cases hr)) ?_⟩
          rintro _ _ hr
          obtain ⟨rfl, rfl⟩ := Phase.gathering.inj hr
          exact ⟨Helper.cancel_cases _, Helper.cancel_cases _⟩
        · cases h
    | gathering race purpose =>
      simp only at h
      split at h
      · obtain rfl := Option.some.inj h
        exact settle_turn ⟨race, Or.inr rfl⟩
      · cases h
    | acquiring c =>
      obtain rfl := Option.some.inj h
      exact hself.move rfl id (fun _ _ hr => (by cases hr)) (fun _ _ hr => (by cases hr))
    | connecting c =>
      cases reply with
      | error exc =>
        obtain rfl := Option.some.inj h
        exact hself.fail rfl exc
      | ok isConnected =>
        obtain rfl := Option.some.inj h
        have hbase : Prepared self { self.setConnected c isConnected with
            client := some c, connected := isConnected, waitingForAdvertisement := false } :=
          ⟨rfl, rfl, rfl, rfl, ⟨_, rfl⟩, rfl, rfl, rfl, rfl⟩
        exact hbase.move rfl id (fun _ _ hr => (by cases hr)) (fun _ _ hr => (by cases hr))
    | subscribing c =>
      cases reply with
      | error exc =>
        obtain rfl := Option.some.inj h
        exact hself.fail rfl exc
      | ok _ =>
        obtain rfl := Option.some.inj h
        exact ⟨.racing {} (.link c self.courier.workers.length), rfl, rfl, rfl, rfl,
          .create none, .same rfl rfl rfl rfl, fun _ hr => (by cases hr), fun ha => (by cases ha),
          fun _ _ hr => (Phase.racing.inj hr).1.symm, fun _ _ hr => (by cases hr)⟩
    | joining c w =>
      simp only at h
      split at h
      · rename_i hdone
        obtain rfl := Option.some.inj h
        exact ⟨.unsubscribing c, rfl, rfl, rfl, rfl, .join w hdone, .same rfl rfl rfl rfl,
          fun _ hr => (by cases hr), fun ha => ha.elim, fun _ _ hr => (by cases hr),
          fun _ _ hr => (by cases hr)⟩
      · cases h
    | unsubscribing c =>
      have hmove : ∃ next, Turn self i reply (.unsubscribing c) next (self.goto i (.disconnecting c)) :=
        hself.move rfl id (fun _ _ hr => (by cases hr)) (fun _ _ hr => (by cases hr))
      cases reply with
      | error exc =>
        simp only at h
        split at h
        · obtain rfl := Option.some.inj h
          exact hmove
        · obtain rfl := Option.some.inj h
          exact hself.fail rfl exc
      | ok _ =>
        obtain rfl := Option.some.inj h
        exact hmove
    | disconnecting c =>
      cases reply with
      | error exc =>
        simp only at h
        split at h
        · obtain rfl := Option.some.inj h
          exact hself.cleanUp rfl
        · obtain rfl := Option.some.inj h
          exact hself.fail rfl exc
      | ok _ =>
        obtain rfl := Option.some.inj h
        exact (hself.setConnected c false).cleanUp rfl
    | cleaning c =>
      cases reply with
      | error exc =>
        simp only at h
        split at h
        · obtain rfl := Option.some.inj h
          exact hself.leave rfl
        · rename_i hlet
          obtain rfl := Option.some.inj h
          have hescape : Escapes (.cleaning c) (.error exc) :=
            ⟨c, exc, rfl, rfl, Bool.eq_false_iff.mpr hlet⟩
          exact ⟨_, hself.turn rfl (fun _ _ => hescape) (fun _ => Or.inr hescape)
            (fun _ _ hr => (by cases hr)) (fun _ _ hr => (by cases hr))⟩
      | ok _ =>
        obtain rfl := Option.some.inj h
        exact (hself.setConnected c false).leave rfl
    | done raised => cases h

end

/-! ### The other steps -/

/-- A phase that differs in its helpers only. -/
structure Alike (phase next : Phase) : Prop where
  away : next.Away ↔ phase.Away
  worker : next.worker = phase.worker
  done : ∀ raised, next = .done raised ↔ phase = .done raised

theorem Alike.refl (phase : Phase) : Alike phase phase := ⟨Iff.rfl, rfl, fun _ => Iff.rfl⟩

theorem Alike.racing (race race' : Race) (purpose : Purpose) :
    Alike (.racing race purpose) (.racing race' purpose) :=
  ⟨Iff.rfl, by cases purpose <;> rfl, fun _ => ⟨fun h => (by cases h), fun h => (by cases h)⟩⟩

theorem Alike.gathering (race race' : Race) (purpose : Purpose) :
    Alike (.gathering race purpose) (.gathering race' purpose) :=
  ⟨Iff.rfl, by cases purpose <;> rfl, fun _ => ⟨fun h => (by cases h), fun h => (by cases h)⟩⟩

theorem alike_wakeStop (phase : Phase) : Alike phase (wakeStop phase) := by
  cases phase with
  | racing race purpose => exact .racing race _ purpose
  | _ => exact .refl _

theorem alike_wakeUpdate (phase : Phase) : Alike phase (wakeUpdate phase) := by
  unfold wakeUpdate
  split
  · exact .racing _ _ .update
  · exact .refl _

theorem alike_wakeLink (c : ℕ) (phase : Phase) : Alike phase (wakeLink c phase) := by
  unfold wakeLink
  split
  · exact .racing _ _ _
  · exact .refl _

/-- What the session tasks look like after a step that is no turn of one of them: each differs in
    its helpers only, and a new one has just been created. -/
structure Beside (p after : Process) : Prop where
  alike : ∀ (i : ℕ) next, after.runs[i]? = some next →
    (∃ phase, p.runs[i]? = some phase ∧ Alike phase next) ∨ i = p.runs.length ∧ next = .created
  kept : ∀ (i : ℕ) phase, p.runs[i]? = some phase →
    ∃ next, after.runs[i]? = some next ∧ Alike phase next

section
variable {self after : Process}

theorem Beside.of_map {f : Phase → Phase} (hf : ∀ phase, Alike phase (f phase))
    (h : after.runs = self.runs.map f) : Beside self after where
  alike i next hnext := by
    rw [h, List.getElem?_map] at hnext
    obtain ⟨phase, hphase, rfl⟩ := Option.map_eq_some_iff.mp hnext
    exact Or.inl ⟨phase, hphase, hf phase⟩
  kept i phase hphase := ⟨f phase, by rw [h, List.getElem?_map, hphase]; rfl, hf phase⟩

theorem Beside.of_same (h : after.runs = self.runs) : Beside self after :=
  Beside.of_map (f := id) Alike.refl (h.trans (List.map_id _).symm)

theorem Beside.of_set {i : ℕ} {phase next : Phase} (hphase : self.runs[i]? = some phase)
    (hlike : Alike phase next) (h : after.runs = self.runs.set i next) : Beside self after := by
  obtain ⟨hlt, _⟩ := List.getElem?_eq_some_iff.mp hphase
  constructor
  · intro j next' hnext
    rcases eq_or_ne i j with rfl | hij
    · rw [h, List.getElem?_set_self hlt] at hnext
      obtain rfl := Option.some.inj hnext
      exact Or.inl ⟨phase, hphase, hlike⟩
    · rw [h, List.getElem?_set_ne hij] at hnext
      exact Or.inl ⟨next', hnext, .refl _⟩
  · intro j phase' hphase'
    rcases eq_or_ne i j with rfl | hij
    · obtain rfl := Option.some.inj (hphase.symm.trans hphase')
      exact ⟨next, by rw [h, List.getElem?_set_self hlt], hlike⟩
    · exact ⟨phase', by rw [h, List.getElem?_set_ne hij, hphase'], .refl _⟩

theorem Beside.of_append (h : after.runs = self.runs ++ [.created]) : Beside self after := by
  constructor
  · intro i next hnext
    rw [h] at hnext
    rcases lt_or_ge i self.runs.length with hlt | hge
    · rw [List.getElem?_append_left hlt] at hnext
      exact Or.inl ⟨next, hnext, .refl _⟩
    · rw [List.getElem?_append_right hge, List.getElem?_singleton] at hnext
      split at hnext
      · exact Or.inr ⟨by omega, (Option.some.inj hnext).symm⟩
      · cases hnext
  · intro i phase hphase
    obtain ⟨hlt, _⟩ := List.getElem?_eq_some_iff.mp hphase
    exact ⟨phase, by rw [h, List.getElem?_append_left hlt, hphase], .refl _⟩

/-- A helper runs: the race of its task goes on. -/
theorem helper_cases {i : ℕ} {side : Side} (h : self.helper i side = some after) :
    ∃ race race' purpose, self.advance race purpose side = some race' ∧
      (self.runs[i]? = some (.racing race purpose) ∧
          after = self.goto i (.racing race' purpose) ∨
        self.runs[i]? = some (.gathering race purpose) ∧
          after = self.goto i (.gathering race' purpose)) := by
  unfold helper at h
  split at h
  · obtain ⟨race', hadv, rfl⟩ := Option.map_eq_some_iff.mp h
    exact ⟨_, race', _, hadv, Or.inl ⟨‹_›, rfl⟩⟩
  · obtain ⟨race', hadv, rfl⟩ := Option.map_eq_some_iff.mp h
    exact ⟨_, race', _, hadv, Or.inr ⟨‹_›, rfl⟩⟩
  · cases h

theorem helper_beside {i : ℕ} {side : Side} (h : self.helper i side = some after) :
    Beside self after := by
  obtain ⟨race, race', purpose, _, ⟨hphase, rfl⟩ | ⟨hphase, rfl⟩⟩ := helper_cases h
  · exact .of_set hphase (.racing race race' purpose) rfl
  · exact .of_set hphase (.gathering race race' purpose) rfl

theorem start_beside (self : Process) : Beside self self.start := by
  unfold start
  split
  · exact .of_same rfl
  · exact .of_append rfl

/-- `stop` remembers the task that it awaits; it forgets a task that is over. -/
theorem stop_cases (self : Process) :
    ∃ task stopping, self.stop = { self with
        stopRequested := true, runs := self.runs.map wakeStop, task, stopping } ∧
      (task = self.task ∧ stopping = self.stopping ∨
        task = self.task ∧ (∃ i, self.task = some i ∧ stopping = self.stopping ++ [i]) ∨
        stopping = self.stopping ∧ task = none ∧ ∃ i raised, self.task = some i ∧
          (self.runs.map wakeStop)[i]? = some (.done raised)) := by
  simp only [stop]
  split
  · exact ⟨_, _, rfl, Or.inl ⟨rfl, rfl⟩⟩
  · rename_i i htask
    split
    · rename_i raised hdone
      cases raised with
      | none => exact ⟨none, _, rfl, Or.inr (Or.inr ⟨rfl, rfl, i, _, htask, hdone⟩)⟩
      | some exc => exact ⟨_, _, rfl, Or.inl ⟨rfl, rfl⟩⟩
    · exact ⟨_, _, rfl, Or.inr (Or.inl ⟨rfl, i, htask, rfl⟩)⟩

theorem updateTarget_beside (self : Process) (target : Target) (now : ℚ) :
    Beside self (self.updateTarget target now) := by
  simp only [updateTarget]
  split
  · exact .of_same rfl
  · exact .of_map alike_wakeUpdate rfl

theorem resumeStop_cases {j : ℕ} (h : self.resumeStop j = some after) :
    ∃ i raised, self.stopping[j]? = some i ∧ self.runs[i]? = some (.done raised) ∧
      after = { self with stopping := self.stopping.eraseIdx j }.finishStop raised := by
  unfold resumeStop at h
  split at h
  · cases h
  · split at h
    · exact ⟨_, _, ‹_›, ‹_›, (Option.some.inj h).symm⟩
    · cases h

/-- A step is a turn of a session task, or leaves the session tasks and the connection alone. -/
theorem step_cases {a : Action} (h : step a self = some after) :
    (∃ i reply now phase next, a = .run i reply now ∧ self.runs[i]? = some phase ∧
        Turn self i reply phase next after) ∨
      Beside self after ∧ after.connected = self.connected ∧ after.client = self.client := by
  cases a with
  | run i reply now =>
    obtain ⟨phase, next, hphase, hturn⟩ := run_turn h
    exact Or.inl ⟨i, reply, now, phase, next, rfl, hphase, hturn⟩
  | start =>
    obtain rfl := Option.some.inj h
    refine Or.inr ⟨self.start_beside, ?_⟩
    unfold start
    split <;> exact ⟨rfl, rfl⟩
  | stop =>
    obtain rfl := Option.some.inj h
    obtain ⟨_, _, hstop, _⟩ := self.stop_cases
    rw [hstop]
    exact Or.inr ⟨.of_map alike_wakeStop rfl, rfl, rfl⟩
  | resumeStop j =>
    obtain ⟨i, raised, _, _, rfl⟩ := resumeStop_cases h
    cases raised <;> exact Or.inr ⟨.of_same rfl, rfl, rfl⟩
  | updateTarget target now =>
    obtain rfl := Option.some.inj h
    refine Or.inr ⟨self.updateTarget_beside target now, ?_⟩
    simp only [updateTarget]
    split <;> exact ⟨rfl, rfl⟩
  | sendCommand command =>
    obtain rfl := Option.some.inj h
    exact Or.inr ⟨.of_same rfl, rfl, rfl⟩
  | helper i side =>
    refine Or.inr ⟨helper_beside h, ?_⟩
    obtain ⟨_, _, _, _, ⟨_, rfl⟩ | ⟨_, rfl⟩⟩ := helper_cases h <;> exact ⟨rfl, rfl⟩
  | worker j reply =>
    obtain ⟨courier, _, rfl⟩ := Option.map_eq_some_iff.mp h
    exact Or.inr ⟨.of_same rfl, rfl, rfl⟩
  | linkLost c =>
    obtain rfl := Option.some.inj h
    exact Or.inr ⟨.of_same rfl, rfl, rfl⟩
  | disconnectSeen c =>
    obtain rfl := Option.some.inj h
    exact Or.inr ⟨.of_map (alike_wakeLink c) rfl, rfl, rfl⟩

end

/-! ### The session of the registry -/

section
variable (self : Process)

theorem running_iff {i : ℕ} {phase : Phase} (htask : self.task = some i)
    (hphase : self.runs[i]? = some phase) :
    self.running = true ↔ ∀ raised, phase ≠ .done raised := by
  unfold running
  rw [htask]
  cases phase with
  | done raised => simp [hphase]
  | _ => simp [hphase]

theorem toSession_new (target : Target) (address name : Str) :
    (new target address name).toSession = { target, address, name } := rfl

theorem toSession_start : self.start.toSession = self.toSession.start := by
  unfold start DeviceSession.start
  by_cases hrunning : self.running = true
  · have hsession : self.toSession.running = true := hrunning
    rw [if_pos hrunning, if_pos hsession]
  · have hsession : ¬ self.toSession.running = true := hrunning
    rw [if_neg hrunning, if_neg hsession]
    have hstarted : { self with
        stopRequested := false, task := some self.runs.length,
        runs := self.runs ++ [.created] : Process }.running = true :=
      (running_iff _ rfl List.getElem?_concat_length).mpr fun _ h => (by cases h)
    simp only [toSession, hstarted]

theorem toSession_sendCommand (command : CommandEvent) :
    (self.sendCommand command).toSession = self.toSession.sendCommand command := by
  have hqueue : (self.courier.sendCommand command).queue = self.courier.queue ++ [command] :=
    Courier.wakeNext_queue _
  simp only [toSession, sendCommand, DeviceSession.sendCommand, hqueue]
  rfl

theorem running_wakeUpdate :
    { self with runs := self.runs.map wakeUpdate : Process }.running = self.running := by
  obtain htask | ⟨i, htask⟩ := Option.eq_none_or_eq_some self.task
  · simp [running, htask]
  · obtain hphase | ⟨phase, hphase⟩ := Option.eq_none_or_eq_some self.runs[i]?
    · simp [running, htask, hphase]
    · have hwoken : (self.runs.map wakeUpdate)[i]? = some (wakeUpdate phase) := by
        rw [List.getElem?_map, hphase]
        rfl
      rw [Bool.eq_iff_iff, running_iff { self with runs := self.runs.map wakeUpdate } htask hwoken,
        running_iff self htask hphase]
      exact forall_congr' fun raised => not_congr ((alike_wakeUpdate phase).done raised)

theorem toSession_updateTarget (target : Target) (now : ℚ) :
    (self.updateTarget target now).toSession = (self.toSession.updateTarget target now).1 := by
  simp only [updateTarget, DeviceSession.updateTarget]
  cases normalizeMac target.addressText with
  | error exc => rfl
  | ok address =>
    have hrunning := running_wakeUpdate self
    unfold running at hrunning
    simp only [toSession, running]
    rw [hrunning]

end

end Process

end SlimHub.Ble
