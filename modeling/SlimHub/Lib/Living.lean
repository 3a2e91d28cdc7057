import SlimHub.Lib.Asyncio

/-! Tasks that go on.

        point ──▶ piece ──▶ wait ──▶ point ──▶ piece ──▶ wait ──▶ …

    A task lives as long as it is scheduled or waits for something that can come. One that runs only
    at points whose pieces end in such a wait, or hand over to a task that they create, lives on
    (`lives_step`, `lives_tick`). -/

namespace Asyncio

variable {σ ι ε κ ω α β : Type}

/-- A wait that can end, with the task going on at a point in `P`. -/
structure Goes (P : ι → Prop) (next : κ → Option ι) : Prop where
  ends : ∃ answer, next answer ≠ none
  within : ∀ answer point, next answer = some point → P point

/-- A task is scheduled at a point in `P`, or waits to go on at one. -/
def Loop.Lives (P : ι → Prop) (self : Loop σ ι ε κ) : Prop :=
  (∃ point, .start point ∈ self.ready ∧ P point) ∨ ∃ next ∈ self.paused, Goes P next

/-- A piece that ran left a task that goes on in `P`: its own, or one that it created. -/
def Leaves (P : ι → Prop) (ran : Ran σ ι ε (Rest ι κ)) : Prop :=
  (∃ point ∈ ran.created, P point) ∨ ∃ next, ran.result = .ok (.wait next) ∧ Goes P next

variable {body : ι → Piece σ ι ε (Rest ι κ)} {callback : ω → σ → σ × List ι} {P : ι → Prop}
  {A B : Atomic σ ι κ} {event : Event κ ω}

theorem lives_toLoop : (A.toLoop : Loop σ ι ε κ).Lives P ↔
    (∃ point ∈ A.ready, P point) ∨ ∃ next ∈ A.paused, Goes P next := by
  simp [Loop.Lives, Atomic.toLoop]

/-- A task lives on through a step, unless it is its own piece that runs. -/
theorem lives_step (h : (A.toLoop : Loop σ ι ε κ).Lives P)
    (hstep : A.step body callback event = some B) : (B.toLoop : Loop σ ι ε κ).Lives P ∨
      event = .tick ∧ ∃ point ready, A.ready = point :: ready ∧ P point := by
  rw [lives_toLoop] at h ⊢
  cases event with
  | tick =>
    cases hready : A.ready with
    | nil => simp [Atomic.step, hready] at hstep
    | cons point ready =>
      simp only [Atomic.step, hready, Option.some.injEq] at hstep
      rw [← hstep]
      rcases h with ⟨p, hp, hin⟩ | ⟨next, hnext, hgoes⟩
      · rw [hready] at hp
        rcases List.mem_cons.mp hp with rfl | hp
        · exact .inr ⟨rfl, p, ready, rfl, hin⟩
        · exact .inl (.inl ⟨p, List.mem_append_left _ hp, hin⟩)
      · exact .inl (.inr ⟨next, List.mem_append_left _ hnext, hgoes⟩)
  | resume i answer =>
    obtain ⟨point, hpoint, rfl⟩ := Option.map_eq_some_iff.mp hstep
    refine .inl ?_
    rcases h with ⟨p, hp, hin⟩ | ⟨next, hnext, hgoes⟩
    · exact .inl ⟨p, List.mem_append_left _ hp, hin⟩
    · obtain ⟨other, hother, hanswer⟩ := Option.bind_eq_some_iff.mp hpoint
      obtain ⟨j, hj⟩ := List.mem_iff_getElem?.mp hnext
      -- either it is this wait that ended, or the task waits on
      by_cases hij : j = i
      · subst hij
        obtain rfl := Option.some.inj (hother.symm.trans hj)
        refine .inl ⟨point, List.mem_append_right _ (List.mem_singleton_self _), ?_⟩
        exact hgoes.within answer point hanswer
      · exact .inr ⟨next, List.mem_eraseIdx_iff_getElem?.mpr ⟨j, hij, hj⟩, hgoes⟩
  | call w =>
    rw [← Option.some.inj hstep]
    rcases h with ⟨p, hp, hin⟩ | hpaused
    · exact .inl (.inl ⟨p, List.mem_append_left _ hp, hin⟩)
    · exact .inl (.inr hpaused)

/-- And where it is, it lives on if the piece leaves it so. -/
theorem lives_tick {point : ι} {ready : List ι} (hready : A.ready = point :: ready)
    (hran : Leaves P ((body point).exec A.shared))
    (hstep : A.step body callback (.tick : Event κ ω) = some B) :
    (B.toLoop : Loop σ ι ε κ).Lives P := by
  simp only [Atomic.step, hready, Option.some.injEq] at hstep
  rw [← hstep, lives_toLoop]
  rcases hran with ⟨p, hp, hin⟩ | ⟨next, hresult, hgoes⟩
  · exact .inl ⟨p, List.mem_append_right _ hp, hin⟩
  · refine .inr ⟨next, List.mem_append_right _ ?_, hgoes⟩
    rw [hresult]
    exact List.mem_singleton_self next

/-! ### What pieces leave -/

namespace Piece

variable {c : Piece σ ι ε α} {f : α → Piece σ ι ε β} {s : σ}

/-- A piece that does not raise went through both of its parts. -/
theorem exec_bind_ok {b : β} (h : ((c >>= f).exec s).result = .ok b) : ∃ a,
    (c.exec s).result = .ok a ∧ (c >>= f).exec s = { (f a).exec (c.exec s).shared with
      created := (c.exec s).created ++ ((f a).exec (c.exec s).shared).created } := by
  rw [exec_bind, andThen] at h ⊢
  cases hresult : (c.exec s).result with
  | error e =>
    rw [hresult] at h
    cases h
  | ok a => exact ⟨a, rfl, rfl⟩

end Piece

/-- What the last part leaves, the whole leaves. -/
theorem Leaves.bind {c : Piece σ ι ε α} {f : α → Piece σ ι ε (Rest ι κ)} {s : σ}
    (hok : ∃ rest, ((c >>= f).exec s).result = .ok rest)
    (hf : ∀ a, ∀ t, (∃ rest, ((f a).exec t).result = .ok rest) → Leaves P ((f a).exec t)) :
    Leaves P ((c >>= f).exec s) := by
  obtain ⟨rest, hrest⟩ := hok
  obtain ⟨a, _, hexec⟩ := Piece.exec_bind_ok hrest
  rw [hexec] at hrest ⊢
  rcases hf a _ ⟨rest, hrest⟩ with ⟨p, hp, hin⟩ | ⟨next, hresult, hgoes⟩
  · exact .inl ⟨p, List.mem_append_right _ hp, hin⟩
  · exact .inr ⟨next, hresult, hgoes⟩

end Asyncio
