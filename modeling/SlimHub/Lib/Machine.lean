import Mathlib

/-! Machines that take labelled steps.

    `step a s` is the state after action `a` in state `s`, or none where `a` is not enabled. A run
    is a list of actions. `Along P s as` says that `P` holds of every step that the run takes, with
    the state before it, the action, and the state after it; the rules below turn facts about one
    step into facts about a whole run. -/

namespace Machine

variable {σ ι : Type*} (step : ι → σ → Option σ)

/-- The state after a run; none where an action was not enabled. -/
def run : List ι → σ → Option σ
  | [], s => some s
  | a :: as, s => (step a s).bind (run as)

/-- `P` holds of every step of a run. -/
def Along (P : σ → ι → σ → Prop) : σ → List ι → Prop
  | _, [] => True
  | s, a :: as => ∀ t, step a s = some t → P s a t ∧ Along P t as

variable {step} {P Q : σ → ι → σ → Prop} {Inv : σ → Prop}

instance Along.decidable [∀ s a t, Decidable (P s a t)] : ∀ s as, Decidable (Along step P s as)
  | _, [] => isTrue trivial
  | s, a :: as =>
    match h : step a s with
    | none => isTrue fun t ht => by rw [h] at ht; cases ht
    | some t =>
      have := Along.decidable t as
      decidable_of_iff (P s a t ∧ Along step P t as)
        ⟨fun hp u hu => by rw [h] at hu; cases hu; exact hp, fun hp => hp t h⟩

theorem run_append (as bs : List ι) (s : σ) :
    run step (as ++ bs) s = (run step as s).bind (run step bs) := by
  induction as generalizing s with
  | nil => rfl
  | cons a as ih =>
    simp only [List.cons_append, run, ih]
    cases step a s <;> rfl

/-- What holds along a run holds along what follows a part of it. -/
theorem Along.of_append : ∀ {as bs : List ι} {s t : σ}, Along step P s (as ++ bs) →
    run step as s = some t → Along step P t bs
  | [], _, s, t, h, hrun => by
    rw [run, Option.some.injEq] at hrun
    exact hrun ▸ h
  | a :: as, bs, s, t, h, hrun => by
    rw [run] at hrun
    obtain ⟨u, hu, hrest⟩ := Option.bind_eq_some_iff.mp hrun
    exact (h u hu).2.of_append hrest

/-- A step that satisfies the condition keeps the invariant and has the property; then a run whose
    steps all satisfy the condition has the property at every step. -/
theorem along_of_step
    (h : ∀ s a t, Inv s → P s a t → step a s = some t → Inv t ∧ Q s a t) :
    ∀ {as : List ι} {s : σ}, Inv s → Along step P s as → Along step Q s as
  | [], _, _, _ => trivial
  | a :: _, s, hs, hP => fun t ht =>
    let ⟨hp, hrest⟩ := hP t ht
    let ⟨hi, hq⟩ := h s a t hs hp ht
    ⟨hq, along_of_step h hi hrest⟩

/-- An invariant of the steps that satisfy the condition holds after a run of such steps. -/
theorem run_invariant_along (h : ∀ s a t, Inv s → P s a t → step a s = some t → Inv t) :
    ∀ {as : List ι} {s t : σ}, Inv s → Along step P s as → run step as s = some t → Inv t
  | [], s, t, hs, _, hrun => by
    rw [run, Option.some.injEq] at hrun
    exact hrun ▸ hs
  | a :: as, s, t, hs, hP, hrun => by
    rw [run] at hrun
    obtain ⟨u, hu, hrest⟩ := Option.bind_eq_some_iff.mp hrun
    obtain ⟨hp, hP'⟩ := hP u hu
    exact run_invariant_along h (h s a u hs hp hu) hP' hrest

theorem along_true : ∀ (as : List ι) (s : σ), Along step (fun _ _ _ => True) s as
  | [], _ => trivial
  | _ :: as, _ => fun t _ => ⟨trivial, along_true as t⟩

/-- An invariant of every step holds after every run. -/
theorem run_invariant (h : ∀ s a t, Inv s → step a s = some t → Inv t) {as : List ι} {s t : σ}
    (hs : Inv s) (hrun : run step as s = some t) : Inv t :=
  run_invariant_along (fun s a t hi _ ht => h s a t hi ht) hs (along_true as s) hrun

/-- Each step is matched by events that show of it what its label shows; then so is a run. -/
theorem run_matched {ε : Type*} {Trail : List ε → σ → Prop} {seen : ε → Bool} {label : ι → Option ε}
    (h : ∀ es s a t, Trail es s → step a s = some t →
      ∃ more, Trail (es ++ more) t ∧ more.filter seen = (label a).toList) :
    ∀ {as : List ι} {es : List ε} {s t : σ}, Trail es s → run step as s = some t →
      ∃ more, Trail (es ++ more) t ∧ more.filter seen = as.filterMap label
  | [], es, s, t, hs, hrun => by
    obtain rfl := Option.some.inj hrun
    exact ⟨[], by rwa [List.append_nil], rfl⟩
  | a :: as, es, s, t, hs, hrun => by
    rw [run] at hrun
    obtain ⟨u, hu, hrest⟩ := Option.bind_eq_some_iff.mp hrun
    obtain ⟨more, hmore, hlabel⟩ := h es s a u hs hu
    obtain ⟨rest, hrests, hlabels⟩ := run_matched h hmore hrest
    refine ⟨more ++ rest, by rwa [List.append_assoc] at hrests, ?_⟩
    rw [List.filter_append, hlabel, hlabels]
    cases hshown : label a <;> simp [hshown]

end Machine
