import SlimHub.Ble.Turns

/-! Connection attempts and target updates.

    Every attempt consumes the target-updated event, which is set at construction and by every
    `update_target`. A task that waits for it is never stuck with the event set: the `set` wakes a
    helper that waits, and a helper that starts later finds it set. -/

namespace SlimHub.Ble
open Text Nus

/-- A helper that waits for the event has not missed it, and the helpers that a task gathers are
    cancelled or over. -/
def Phase.Hears (updated : Bool) : Phase → Prop
  | .racing race .update => race.other = .waiting → updated = false
  | .gathering race _ =>
    (race.stop = .cancelled ∨ race.stop = .done) ∧ (race.other = .cancelled ∨ race.other = .done)
  | _ => True

namespace Process

/-- What the attempts and the event say about the updates: an attempt for each one that is
    consumed, and the event set while the latest one is not. -/
structure Paid (p : Process) : Prop where
  attempts : p.attempts + (if p.targetUpdated then 1 else 0) ≤ 1 + p.updates
  updated : p.targetUpdated = true ↔ p.grants.getLast? ≠ some .consumed

variable {self after : Process} {a : Action}

theorem Paid.new (target : Target) (address name : Str) : Paid (new target address name) :=
  ⟨le_rfl, by simp [Process.new]⟩

theorem Paid.spends (h : Paid self) (hs : Spends self after) : Paid after := by
  obtain ⟨hattempts, hupdated⟩ := h
  cases hs with
  | same updated grants attempts updates =>
    exact ⟨by rw [updated, attempts, updates]; exact hattempts, by rw [updated, grants]; exact hupdated⟩
  | consumed wasUpdated updated grants attempts updates =>
    rw [if_pos wasUpdated] at hattempts
    refine ⟨?_, by simp [updated, grants]⟩
    rw [updated, attempts, updates]
    simpa using hattempts

theorem Paid.updateTarget (h : Paid self) (target : Target) (now : ℚ) :
    Paid (self.updateTarget target now) := by
  simp only [Process.updateTarget]
  split
  · exact ⟨h.attempts, h.updated⟩
  · refine ⟨?_, by simp⟩
    have hattempts := h.attempts
    simp only [if_true]
    split at hattempts <;> omega

/-- The steps other than turns and updates leave the event, the attempts and the updates alone. -/
theorem step_spends (h : step a self = some after)
    (hupdate : ∀ target now, a ≠ .updateTarget target now) : Spends self after := by
  have same : ∀ {p : Process}, p.targetUpdated = self.targetUpdated → p.grants = self.grants →
      p.attempts = self.attempts → p.updates = self.updates → Spends self p := Spends.same
  cases a with
  | run i reply now =>
    obtain ⟨_, _, _, hturn⟩ := run_turn h
    exact hturn.spends
  | start =>
    obtain rfl := Option.some.inj h
    unfold start
    split <;> exact same rfl rfl rfl rfl
  | stop =>
    obtain rfl := Option.some.inj h
    obtain ⟨_, _, hstop, _⟩ := self.stop_cases
    rw [hstop]
    exact same rfl rfl rfl rfl
  | resumeStop j =>
    obtain ⟨i, raised, _, _, rfl⟩ := resumeStop_cases h
    cases raised <;> exact same rfl rfl rfl rfl
  | updateTarget target now => exact absurd rfl (hupdate target now)
  | sendCommand command =>
    obtain rfl := Option.some.inj h
    exact same rfl rfl rfl rfl
  | helper i side =>
    obtain ⟨_, _, _, _, ⟨_, rfl⟩ | ⟨_, rfl⟩⟩ := helper_cases h <;> exact same rfl rfl rfl rfl
  | worker j reply =>
    obtain ⟨courier, _, rfl⟩ := Option.map_eq_some_iff.mp h
    exact same rfl rfl rfl rfl
  | linkLost c =>
    obtain rfl := Option.some.inj h
    exact same rfl rfl rfl rfl
  | disconnectSeen c =>
    obtain rfl := Option.some.inj h
    exact same rfl rfl rfl rfl

theorem Paid.step (hs : Paid self) (h : step a self = some after) : Paid after := by
  by_cases hupdate : ∃ target now, a = .updateTarget target now
  · obtain ⟨target, now, rfl⟩ := hupdate
    obtain rfl := Option.some.inj h
    exact hs.updateTarget target now
  · exact hs.spends (step_spends h fun target now ha => hupdate ⟨target, now, ha⟩)

/-! ### No wake-up is lost -/

/-- No helper of any session task has missed the event. -/
def Heard (self : Process) : Prop := ∀ phase ∈ self.runs, phase.Hears self.targetUpdated

theorem Heard.new (target : Target) (address name : Str) : Heard (new target address name) :=
  fun _ h => absurd h List.not_mem_nil

theorem hears_false {updated : Bool} {phase : Phase} (h : phase.Hears updated) :
    phase.Hears false := by
  cases phase with
  | racing race purpose =>
    cases purpose with
    | update => exact fun _ => rfl
    | link c w => trivial
  | gathering race purpose => exact h
  | _ => trivial

theorem wake_ne_waiting (h : Helper) : h.wake ≠ .waiting := by
  cases h <;> simp [Helper.wake]

theorem hears_wakeUpdate {updated : Bool} {phase : Phase} (h : phase.Hears updated) :
    (wakeUpdate phase).Hears true := by
  cases phase with
  | racing race purpose =>
    cases purpose with
    | update => exact fun hw => absurd hw (wake_ne_waiting race.other)
    | link c w => trivial
  | gathering race purpose => exact h
  | _ => trivial

theorem hears_wakeStop {updated : Bool} {phase : Phase} (h : phase.Hears updated) :
    (wakeStop phase).Hears updated := by
  cases phase with
  | racing race purpose => cases purpose <;> exact h
  | _ => exact h

theorem hears_wakeLink {updated : Bool} {phase : Phase} (c : ℕ) (h : phase.Hears updated) :
    (wakeLink c phase).Hears updated := by
  cases phase with
  | racing race purpose =>
    cases purpose with
    | update => exact h
    | link c' w => trivial
  | _ => exact h

/-- A step that gives one session task a new phase, and does not set the event. -/
theorem Heard.set (h : Heard self) {i : ℕ} {next : Phase} (hnext : next.Hears after.targetUpdated)
    (hruns : after.runs = self.runs.set i next)
    (hupdated : after.targetUpdated = self.targetUpdated ∨ after.targetUpdated = false) :
    Heard after := by
  intro phase hmem
  rw [hruns] at hmem
  rcases List.mem_or_eq_of_mem_set hmem with hold | rfl
  · rcases hupdated with hsame | hfalse
    · rw [hsame]
      exact h phase hold
    · rw [hfalse]
      exact hears_false (h phase hold)
  · exact hnext

theorem Turn.hears {i : ℕ} {reply : Except PyError Bool} {phase next : Phase} (updated : Bool)
    (h : Turn self i reply phase next after) : next.Hears updated := by
  cases next with
  | racing race purpose =>
    cases purpose with
    | update =>
      intro hw
      rw [h.race race _ rfl] at hw
      cases hw
    | link c w => trivial
  | gathering race purpose => exact h.gathered race purpose rfl
  | _ => trivial

theorem advance_hears {race race' : Race} {purpose : Purpose} {side : Side}
    (hadv : self.advance race purpose side = some race')
    (h : (Phase.racing race purpose).Hears self.targetUpdated) :
    (Phase.racing race' purpose).Hears self.targetUpdated := by
  cases purpose with
  | link c w => trivial
  | update =>
    cases side with
    | stop =>
      obtain ⟨stop, _, rfl⟩ := Option.map_eq_some_iff.mp hadv
      exact h
    | other =>
      obtain ⟨other, hother, rfl⟩ := Option.map_eq_some_iff.mp hadv
      rintro rfl
      by_contra hset
      have hset : self.isSet .update = true := Bool.eq_true_of_not_eq_false hset
      cases hrace : race.other <;> simp [hrace, hset, Helper.advance] at hother

theorem advance_gathered {race race' : Race} {purpose : Purpose} {side : Side} {updated : Bool}
    (hadv : self.advance race purpose side = some race')
    (h : (Phase.gathering race purpose).Hears updated) :
    (Phase.gathering race' purpose).Hears updated := by
  have hdone : ∀ {helper next : Helper} {isSet : Bool}, helper = .cancelled ∨ helper = .done →
      helper.advance isSet = some next → next = .cancelled ∨ next = .done := by
    rintro helper next isSet (rfl | rfl) hnext
    · exact Or.inr (Option.some.inj hnext).symm
    · cases hnext
  cases side with
  | stop =>
    obtain ⟨stop, hstop, rfl⟩ := Option.map_eq_some_iff.mp hadv
    exact ⟨hdone h.1 hstop, h.2⟩
  | other =>
    obtain ⟨other, hother, rfl⟩ := Option.map_eq_some_iff.mp hadv
    exact ⟨h.1, hdone h.2 hother⟩

theorem Heard.map (h : Heard self) {f : Phase → Phase}
    (hf : ∀ phase : Phase, phase.Hears self.targetUpdated → (f phase).Hears after.targetUpdated)
    (hruns : after.runs = self.runs.map f) : Heard after := by
  intro phase hmem
  rw [hruns] at hmem
  obtain ⟨phase', hold, rfl⟩ := List.mem_map.mp hmem
  exact hf phase' (h phase' hold)

theorem Heard.same (h : Heard self) (hruns : after.runs = self.runs)
    (hupdated : after.targetUpdated = self.targetUpdated) : Heard after := by
  intro phase hmem
  rw [hupdated]
  exact h phase (hruns ▸ hmem)

theorem Heard.step (hs : Heard self) (h : step a self = some after) : Heard after := by
  cases a with
  | run i reply now =>
    obtain ⟨_, _, _, hturn⟩ := run_turn h
    refine hs.set (hturn.hears _) hturn.runs ?_
    cases hturn.spends with
    | same updated _ _ _ => exact Or.inl updated
    | consumed _ updated _ _ _ => exact Or.inr updated
  | start =>
    obtain rfl := Option.some.inj h
    unfold start
    split
    · exact hs
    · intro phase hmem
      rcases List.mem_append.mp hmem with hold | hnew
      · exact hs phase hold
      · obtain rfl := List.mem_singleton.mp hnew
        trivial
  | stop =>
    obtain rfl := Option.some.inj h
    obtain ⟨_, _, hstop, _⟩ := self.stop_cases
    rw [hstop]
    exact hs.map (fun _ hp => hears_wakeStop hp) rfl
  | resumeStop j =>
    obtain ⟨i, raised, _, _, rfl⟩ := resumeStop_cases h
    cases raised <;> exact hs.same rfl rfl
  | updateTarget target now =>
    obtain rfl := Option.some.inj h
    simp only [Process.updateTarget]
    split
    · exact hs.same rfl rfl
    · exact hs.map (fun _ hp => hears_wakeUpdate hp) rfl
  | sendCommand command =>
    obtain rfl := Option.some.inj h
    exact hs.same rfl rfl
  | helper i side =>
    obtain ⟨race, race', purpose, hadv, ⟨hphase, rfl⟩ | ⟨hphase, rfl⟩⟩ := helper_cases h
    · have hmem := List.mem_of_getElem? hphase
      exact hs.set (advance_hears hadv (hs _ hmem)) rfl (Or.inl rfl)
    · have hmem := List.mem_of_getElem? hphase
      exact hs.set (advance_gathered hadv (hs _ hmem)) rfl (Or.inl rfl)
  | worker j reply =>
    obtain ⟨courier, _, rfl⟩ := Option.map_eq_some_iff.mp h
    exact hs.same rfl rfl
  | linkLost c =>
    obtain rfl := Option.some.inj h
    exact hs.same rfl rfl
  | disconnectSeen c =>
    obtain rfl := Option.some.inj h
    exact hs.map (fun _ hp => hears_wakeLink c hp) rfl

/-! ### A waiting task goes on -/

/-- The session task whose step this is, by itself or by a helper. -/
def Action.task : Action → Option ℕ
  | .run i _ _ => some i
  | .helper i _ => some i
  | _ => none

/-- Session task `i` waits for a target update. -/
def Waits (self : Process) (i : ℕ) : Prop :=
  ∃ race, self.runs[i]? = some (.racing race .update) ∨
    self.runs[i]? = some (.gathering race .update)

/-- Session task `i` and its helpers alone get from `self` to `after`. -/
def Alone (i : ℕ) (self after : Process) : Prop :=
  ∃ as : List Action, (∀ a ∈ as, a.task = some i) ∧ Machine.run step as self = some after

/-- The task ends on a stop, or consumes the event with a new attempt. -/
def Answers (i : ℕ) (self after : Process) : Prop :=
  self.stopRequested = true ∧ after.runs[i]? = some (.done none) ∨
    after.attempts = self.attempts + 1 ∧ after.targetUpdated = false

section
variable {i : ℕ} {race race' : Race} {mid : Process}

theorem Alone.cons (ha : a.task = some i) (hstep : step a self = some mid) (h : Alone i mid after) :
    Alone i self after := by
  obtain ⟨as, has, hrun⟩ := h
  refine ⟨a :: as, ?_, ?_⟩
  · intro b hb
    rcases List.mem_cons.mp hb with rfl | hb
    · exact ha
    · exact has b hb
  · rw [Machine.run, hstep]
    exact hrun

theorem goto_self {phase next : Phase} (h : self.runs[i]? = some phase) :
    (self.goto i next).runs[i]? = some next := by
  obtain ⟨hlt, _⟩ := List.getElem?_eq_some_iff.mp h
  exact List.getElem?_set_self hlt

theorem goto_gathering (h : self.runs[i]? = some (.gathering race .update)) (race' : Race) :
    (self.goto i (.gathering race' .update)).runs[i]? = some (.gathering race' .update) :=
  goto_self h

theorem helper_racing {purpose : Purpose} {side : Side}
    (h : self.runs[i]? = some (.racing race purpose))
    (hadv : self.advance race purpose side = some race') :
    step (.helper i side) self = some (self.goto i (.racing race' purpose)) := by
  simp only [step, helper, h, hadv, Option.map_some]

theorem helper_gathering {purpose : Purpose} {side : Side}
    (h : self.runs[i]? = some (.gathering race purpose))
    (hadv : self.advance race purpose side = some race') :
    step (.helper i side) self = some (self.goto i (.gathering race' purpose)) := by
  simp only [step, helper, h, hadv, Option.map_some]

theorem answers_of_settle {phase : Phase} (hphase : self.runs[i]? = some phase)
    (hset : self.targetUpdated = true) : Answers i self (self.settle i .update) := by
  simp only [settle, waitForTargetUpdate]
  split
  · exact Or.inl ⟨‹_›, goto_self hphase⟩
  · exact Or.inr ⟨rfl, rfl⟩

/-- The last turn of the wait. -/
theorem alone_settle (hphase : self.runs[i]? = some (.racing ⟨.done, .done⟩ .update) ∨
      self.runs[i]? = some (.gathering ⟨.done, .done⟩ .update))
    (hset : self.targetUpdated = true) :
    ∃ t, Alone i self t ∧ Answers i self t := by
  refine ⟨self.settle i .update, ⟨[.run i (.ok true) 0], by simp [Action.task], ?_⟩, ?_⟩
  · rcases hphase with hphase | hphase <;> simp [Machine.run, step, run, hphase]
  · rcases hphase with hphase | hphase <;> exact answers_of_settle hphase hset

theorem alone_gathering (hphase : self.runs[i]? = some (.gathering race .update))
    (hset : self.targetUpdated = true) (hrace : (Phase.gathering race .update).Hears true) :
    ∃ t, Alone i self t ∧ Answers i self t := by
  obtain ⟨stop, other⟩ := race
  obtain ⟨hstop, hother⟩ := hrace
  -- the helpers that are cancelled end, the one for the stop event first
  have hlast : ∀ {p : Process}, p.runs[i]? = some (.gathering ⟨.done, other⟩ .update) →
      p.targetUpdated = true → ∃ t, Alone i p t ∧ Answers i p t := by
    intro p hrun hp
    rcases hother with hother | hother
    · cases hother
      have hend := goto_gathering hrun ⟨.done, .done⟩
      obtain ⟨t, halone, hanswers⟩ := alone_settle (Or.inr hend) hp
      exact ⟨t, halone.cons (a := .helper i .other) rfl (helper_gathering hrun rfl), hanswers⟩
    · cases hother
      exact alone_settle (Or.inr hrun) hp
  rcases hstop with hstop | hstop
  · cases hstop
    obtain ⟨t, halone, hanswers⟩ := hlast (goto_gathering hphase ⟨.done, other⟩) hset
    exact ⟨t, halone.cons (a := .helper i .stop) rfl (helper_gathering hphase rfl), hanswers⟩
  · cases hstop
    exact hlast hphase hset

theorem alone_racing {stop : Helper} (hphase : self.runs[i]? = some (.racing ⟨stop, .done⟩ .update))
    (hset : self.targetUpdated = true) : ∃ t, Alone i self t ∧ Answers i self t := by
  by_cases hstop : stop = .done
  · exact alone_settle (Or.inl (hstop ▸ hphase)) hset
  · have hturn : step (.run i (.ok true) 0) self =
        some (self.goto i (.gathering ⟨stop.cancel, .done⟩ .update)) := by
      simp [step, run, hphase, hstop, Helper.cancel]
    have hgather : (self.goto i (.gathering ⟨stop.cancel, .done⟩ .update)).runs[i]? =
        some (.gathering ⟨stop.cancel, .done⟩ .update) := goto_self hphase
    obtain ⟨t, halone, hanswers⟩ := alone_gathering hgather hset
      ⟨stop.cancel_cases, Or.inr rfl⟩
    exact ⟨t, halone.cons rfl hturn, hanswers⟩

/-- A task that waits while the event is set gets to the end of its wait by itself. -/
theorem Heard.answers (hs : Heard self) (hset : self.targetUpdated = true) (hw : self.Waits i) :
    ∃ t, Alone i self t ∧ Answers i self t := by
  obtain ⟨race, hphase | hphase⟩ := hw
  · have hhears := hs _ (List.mem_of_getElem? hphase)
    obtain ⟨stop, other⟩ := race
    -- the helper for the update is over, or runs and finds the event set
    by_cases hother : other = .done
    · exact alone_racing (hother ▸ hphase) hset
    · have hadv : self.advance ⟨stop, other⟩ .update .other = some ⟨stop, .done⟩ := by
        cases other with
        | waiting => exact absurd (hhears rfl) (by simp [hset])
        | done => exact absurd rfl hother
        | created => simp [advance, Helper.advance, isSet, hset]
        | woken => rfl
        | cancelled => rfl
      have hrun : (self.goto i (.racing ⟨stop, .done⟩ .update)).runs[i]? =
          some (.racing ⟨stop, .done⟩ .update) := goto_self hphase
      obtain ⟨t, halone, hanswers⟩ := alone_racing hrun hset
      exact ⟨t, halone.cons (a := .helper i .other) rfl (helper_racing hphase hadv), hanswers⟩
  · exact alone_gathering hphase hset (hset ▸ hs _ (List.mem_of_getElem? hphase))

end

end Process

end SlimHub.Ble
