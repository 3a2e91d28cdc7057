import SlimHub.Lib.Asyncio

/-! A run of the loop as a list of whole operations.

        loop      piece ── callback ── piece ── piece ── …       tasks take turns at their waits
        journal   [op, op]    []        [op]     [op]            what each of them does

    Where every piece does to the data in view what the operations noted for it do one after
    another (`Follows`), a run does to it what its journal does (`run_journal`). The journal is in
    the order in which the pieces ran. -/

namespace Asyncio

variable {σ τ ρ ι ε κ ω : Type}
variable (body : ι → Piece σ ι ε (Rest ι κ)) (callback : ω → σ → σ × List ι)

/-- The piece or the callback that an event lets run. -/
def Loop.job (self : Loop σ ι ε κ) : Event κ ω → Option (ι ⊕ ω)
  | .tick =>
    match self.ready with
    | .start point :: _ => some (.inl point)
    | _ => none
  | .resume .. => none
  | .call w => some (.inr w)

/-- The operations of a run, in order; `note` gives those of a piece or a callback. -/
def Loop.journal (note : σ → ι ⊕ ω → List ρ) : List (Event κ ω) → Loop σ ι ε κ → List ρ
  | [], _ => []
  | event :: events, self =>
    (self.job event).elim [] (note self.shared) ++
      (Loop.step body callback event self).elim [] (journal note events)

/-- Pieces and callbacks do to the data in view what the operations noted for them do. -/
structure Follows (view : σ → τ) (perform : τ → ρ → τ) (note : σ → ι ⊕ ω → List ρ) : Prop where
  piece : ∀ s point,
    view ((body point).exec s).shared = (note s (.inl point)).foldl perform (view s)
  call : ∀ s w, view (callback w s).1 = (note s (.inr w)).foldl perform (view s)

variable {body callback} {view : σ → τ} {perform : τ → ρ → τ} {note : σ → ι ⊕ ω → List ρ}

theorem Follows.step (h : Follows body callback view perform note) {event : Event κ ω}
    {A B : Atomic σ ι κ} (hstep : A.step body callback event = some B) :
    view B.shared = ((A.toLoop (ε := ε) |>.job event).elim [] (note A.shared)).foldl perform
      (view A.shared) := by
  cases event with
  | tick =>
    cases hready : A.ready with
    | nil => simp [Atomic.step, hready] at hstep
    | cons point ready =>
      simp only [Atomic.step, hready, Option.some.injEq] at hstep
      rw [← hstep]
      simpa [Loop.job, Atomic.toLoop, hready] using h.piece A.shared point
  | resume i answer =>
    obtain ⟨point, _, rfl⟩ := Option.map_eq_some_iff.mp hstep
    rfl
  | call w =>
    rw [← Option.some.inj hstep]
    exact h.call A.shared w

/-- A run does to the data in view what its journal does. -/
theorem Loop.run_journal (h : Follows body callback view perform note)
    {events : List (Event κ ω)} {A : Atomic σ ι κ} {L : Loop σ ι ε κ}
    (hrun : Machine.run (Loop.step body callback) events A.toLoop = some L) :
    view L.shared =
      (Loop.journal body callback note events A.toLoop).foldl perform (view A.shared) := by
  induction events generalizing A with
  | nil =>
    obtain rfl := Option.some.inj hrun
    rfl
  | cons event events ih =>
    rw [Machine.run, step_toLoop] at hrun
    cases hstep : A.step body callback event with
    | none => simp [hstep] at hrun
    | some B =>
      rw [hstep] at hrun
      rw [ih hrun, Loop.journal, step_toLoop, hstep, List.foldl_append, h.step hstep]
      rfl

theorem Loop.journal_singleton {event : Event κ ω} {L M : Loop σ ι ε κ}
    (hstep : Loop.step body callback event L = some M) :
    Loop.journal body callback note [event] L = (L.job event).elim [] (note L.shared) := by
  rw [Loop.journal, hstep]
  exact List.append_nil _

theorem Loop.journal_append {events more : List (Event κ ω)} {L M : Loop σ ι ε κ}
    (hrun : Machine.run (Loop.step body callback) events L = some M) :
    Loop.journal body callback note (events ++ more) L =
      Loop.journal body callback note events L ++ Loop.journal body callback note more M := by
  induction events generalizing L with
  | nil =>
    obtain rfl := Option.some.inj hrun
    rfl
  | cons event events ih =>
    rw [Machine.run] at hrun
    obtain ⟨N, hstep, hrest⟩ := Option.bind_eq_some_iff.mp hrun
    simp only [List.cons_append, Loop.journal, hstep, Option.elim_some]
    rw [ih hrest, List.append_assoc]

/-- What holds of every operation noted in a state with the invariant holds of the whole journal. -/
theorem Loop.forall_journal {Inv : Atomic σ ι κ → Prop} {P : ρ → Prop}
    (hinv : ∀ A event B, Inv A → A.step body callback event = some B → Inv B)
    (hpiece : ∀ A point ready, Inv A → A.ready = point :: ready →
      ∀ op ∈ note A.shared (.inl point), P op)
    (hcall : ∀ A w, Inv A → ∀ op ∈ note A.shared (.inr w), P op)
    {events : List (Event κ ω)} {A : Atomic σ ι κ} (hA : Inv A) :
    ∀ op ∈ Loop.journal body callback note events (A.toLoop (ε := ε)), P op := by
  induction events generalizing A with
  | nil => exact List.forall_mem_nil _
  | cons event events ih =>
    intro op hop
    rw [Loop.journal, step_toLoop] at hop
    rcases List.mem_append.mp hop with hop | hop
    · cases event with
      | tick =>
        cases hready : A.ready with
        | nil => simp [Loop.job, Atomic.toLoop, hready] at hop
        | cons point ready =>
          simp only [Loop.job, Atomic.toLoop, hready, List.map_cons, Option.elim_some] at hop
          exact hpiece A point ready hA hready op hop
      | resume i answer => cases hop
      | call w => exact hcall A w hA op hop
    · cases hstep : A.step body callback event with
      | none => simp [hstep] at hop
      | some B =>
        rw [hstep] at hop
        exact ih (hinv A event B hA hstep) op hop

/-! ### Accounts of a journal -/

section
variable {α β : Type} (perform : τ → ρ → τ)

/-- What is entered for the operations of a journal, each in the state that it is done in. -/
def entries (enter : τ → ρ → List α) : List ρ → τ → List α
  | [], _ => []
  | op :: ops, s => enter s op ++ entries enter ops (perform s op)

variable {perform}

theorem entries_append (enter : τ → ρ → List α) (ops more : List ρ) (s : τ) :
    entries perform enter (ops ++ more) s =
      entries perform enter ops s ++ entries perform enter more (ops.foldl perform s) := by
  induction ops generalizing s with
  | nil => rfl
  | cons op ops ih =>
    rw [List.cons_append, entries, ih, entries, List.append_assoc]
    rfl

theorem entries_concat (enter : τ → ρ → List α) (ops : List ρ) (op : ρ) (s : τ) :
    entries perform enter (ops ++ [op]) s =
      entries perform enter ops s ++ enter (ops.foldl perform s) op := by
  rw [entries_append, entries, entries, List.append_nil]

/-- What is kept of the entries is entered so. -/
theorem entries_map {f : List α → List β} (hnil : f [] = [])
    (happend : ∀ as bs, f (as ++ bs) = f as ++ f bs) (enter : τ → ρ → List α) (ops : List ρ)
    (s : τ) : f (entries perform enter ops s) =
      entries perform (fun s op => f (enter s op)) ops s := by
  induction ops generalizing s with
  | nil => exact hnil
  | cons op ops ih => rw [entries, happend, ih, entries]

/-- A queue over a journal: what it held and was given is what was taken from it and what it
    holds, in order. -/
theorem queue_entries (Inv : τ → Prop) (P : ρ → Prop) (queue : τ → List α)
    (gives takes : τ → ρ → List α)
    (hinv : ∀ s op, Inv s → P op → Inv (perform s op))
    (hstep : ∀ s op, Inv s → P op →
      queue s ++ gives s op = takes s op ++ queue (perform s op)) {ops : List ρ}
    (hops : ∀ op ∈ ops, P op) {s : τ} (hs : Inv s) :
    queue s ++ entries perform gives ops s =
      entries perform takes ops s ++ queue (ops.foldl perform s) := by
  induction ops generalizing s with
  | nil => simp [entries]
  | cons op ops ih =>
    have hop := hops op List.mem_cons_self
    have hrest := ih (fun other hother => hops other (List.mem_cons_of_mem op hother))
      (hinv s op hs hop)
    calc queue s ++ (gives s op ++ entries perform gives ops (perform s op))
      _ = takes s op ++ (queue (perform s op) ++ entries perform gives ops (perform s op)) := by
          rw [← List.append_assoc, hstep s op hs hop, List.append_assoc]
      _ = takes s op ++ (entries perform takes ops (perform s op) ++
            queue (ops.foldl perform (perform s op))) := by rw [hrest]
      _ = _ := (List.append_assoc ..).symm

end

end Asyncio
