import SlimHub.Ble.Turns

/-! A session outlives what its BLE calls raise.

    `_run` catches every exception of a connection round, and its `finally` block forgets the
    client. The one call that is left is the `disconnect` of that block: it is awaited under a
    `suppress` of three classes, and any other exception ends the task for good. -/

namespace SlimHub.Ble
open Text Nus

namespace Process

/-- The step is no `disconnect` of a `finally` block that raises outside the suppressed classes. -/
def Contained (self : Process) : Action → Bool
  | .run i (.error exc) _ =>
    match self.runs[i]? with
    | some (.cleaning _) => suppressedInFinally exc
    | _ => true
  | _ => true

/-- No session task is in a connection round. -/
def AllAway (self : Process) : Prop := ∀ (i : ℕ) phase, self.runs[i]? = some phase → phase.Away

/-- A session without a connection says so; the teardown after a lost link is part of its round. -/
def Settled (self : Process) : Prop :=
  self.AllAway → self.connected = false ∧ self.client = none

/-- The step ends no session task, unless a stop is requested. -/
def EndsOnStop (self : Process) (after : Process) : Prop :=
  ∀ (i : ℕ) raised, after.runs[i]? = some (.done raised) →
    self.runs[i]? = some (.done raised) ∨ self.stopRequested = true

variable {self after : Process} {a : Action}

theorem Contained.not_escapes {i : ℕ} {reply : Except PyError Bool} {now : ℚ} {phase : Phase}
    (h : self.Contained (.run i reply now) = true) (hphase : self.runs[i]? = some phase) :
    ¬ Escapes phase reply := by
  rintro ⟨c, exc, rfl, rfl, hlet⟩
  simp [Contained, hphase, hlet] at h

/-- One step that is contained keeps a session settled and ends tasks on a stop only. -/
theorem Settled.step (hs : Settled self) (hc : self.Contained a = true)
    (h : step a self = some after) : Settled after ∧ EndsOnStop self after := by
  rcases step_cases h with ⟨i, reply, now, phase, next, rfl, hphase, hturn⟩ | ⟨hbeside, hconn, hcl⟩
  · have hescape := Contained.not_escapes hc hphase
    obtain ⟨hlt, _⟩ := List.getElem?_eq_some_iff.mp hphase
    constructor
    · intro haway
      have hnext : next.Away := haway i next (by rw [hturn.runs, List.getElem?_set_self hlt])
      rcases hturn.away hnext with hdone | ⟨hphaseAway, hconn, hcl⟩ | hlet
      · exact hdone
      · rw [hconn, hcl]
        refine hs fun j phase' hphase' => ?_
        rcases eq_or_ne i j with rfl | hij
        · obtain rfl := Option.some.inj (hphase.symm.trans hphase')
          exact hphaseAway
        · exact haway j phase' (by rw [hturn.runs, List.getElem?_set_ne hij, hphase'])
      · exact (hescape hlet).elim
    · intro j raised hj
      rcases eq_or_ne i j with rfl | hij
      · rw [hturn.runs, List.getElem?_set_self hlt] at hj
        exact Or.inr ((hturn.ended raised (Option.some.inj hj)).resolve_right hescape)
      · rw [hturn.runs, List.getElem?_set_ne hij] at hj
        exact Or.inl hj
  · constructor
    · intro haway
      rw [hconn, hcl]
      refine hs fun i phase hphase => ?_
      obtain ⟨next, hnext, hlike⟩ := hbeside.kept i phase hphase
      exact hlike.away.mp (haway i next hnext)
    · intro i raised hi
      rcases hbeside.alike i _ hi with ⟨phase, hphase, hlike⟩ | ⟨_, hcreated⟩
      · exact Or.inl ((hlike.done raised).mp rfl ▸ hphase)
      · cases hcreated

/-- Where every `disconnect` of a `finally` block stays within the suppressed classes, a session
    task ends on a stop only, and between connection rounds the session is settled. -/
theorem survives (target : Target) (address name : Str) {as : List Action}
    (h : Machine.Along step (fun s a _ => s.Contained a = true) (new target address name) as) :
    Machine.Along step (fun s _ t => EndsOnStop s t ∧ Settled t) (new target address name) as := by
  have hnew : Settled (new target address name) := fun _ => ⟨rfl, rfl⟩
  refine Machine.along_of_step (fun s a t hs hc ht => ?_) hnew h
  obtain ⟨hsettled, hends⟩ := hs.step hc ht
  exact ⟨hsettled, hends, hsettled⟩

/-- A round whose subscription fails: the client is connected, and is disconnected by the
    `finally` block. -/
def unsubscribedRound : List Action :=
  [.start, .run 0 (.ok true) 0, .run 0 (.ok true) 0, .run 0 (.ok true) 0,
    .run 0 (.error ⟨.bleakError, []⟩) 0]

theorem survives_bleakError :
    Machine.Along step (fun s _ t => EndsOnStop s t ∧ Settled t) (new (.text []) [] [])
      (unsubscribedRound ++ [.run 0 (.error ⟨.bleakError, []⟩) 0]) :=
  survives (.text []) [] [] (by decide)

/-- A `TimeoutError` from that `disconnect` ends the task, with no stop requested, and leaves the
    session connected to its client. -/
theorem finally_timeout : ∃ s t,
    Machine.run step unsubscribedRound (new (.text []) [] []) = some s ∧
      step (.run 0 (.error ⟨.timeoutError, []⟩) 0) s = some t ∧
        ¬ EndsOnStop s t ∧ ¬ Settled t := by
  refine ⟨_, _, rfl, rfl, ?_, ?_⟩
  · intro h
    exact absurd (h 0 _ rfl) (by decide)
  · intro h
    refine absurd (h ?_).1 (by decide)
    intro i phase hphase
    obtain ⟨_, rfl⟩ := List.getElem?_eq_some_iff.mp hphase
    cases i with
    | zero => trivial
    | succ i => exact absurd ‹_› (Nat.not_lt_of_le (Nat.le_add_left 1 i))

end Process

end SlimHub.Ble
