import SlimHub.Unitspace.Estimator

/-! Which nodes are entered.

    A person is at one node at a time, so at most one node should be entered, and a node that has
    just reported a person should be. The estimator remembers only the last signal's address and
    overwrites it on exit signals too. Histories are read most recent signal first: `lastRun x` is
    the latest unbroken run of signals of `x`, `signalAfter x` the signal of another node right
    after it. Whether `x` is entered depends on these two alone (`entered_iff`), from which the
    exact conditions for both expectations follow. -/

namespace SlimHub.Unitspace
open Text Nus

/-- The latest unbroken run of signals of `x`, most recent first. -/
def lastRun (x : Str) (p : List Signal) : List Signal :=
  (p.dropWhile (·.address ≠ x)).takeWhile (·.address = x)

/-- The signal right after the latest run of `x`; none when that run is the most recent. -/
def signalAfter (x : Str) (p : List Signal) : Option Signal :=
  (p.takeWhile (·.address ≠ x)).getLast?

/-- `x` was entered and the signal that followed was an exit signal of another node: the estimator
    remembers that other node, and no later move withdraws `x`. -/
def Stranded (x : Str) (p : List Signal) : Prop :=
  lastRun x p ≠ [] ∧ (∀ s ∈ lastRun x p, s.kind = .enter) ∧
    ∃ s, signalAfter x p = some s ∧ s.kind = .exit

instance (x : Str) (p : List Signal) : Decidable (Stranded x p) :=
  inferInstanceAs (Decidable (_ ∧ _ ∧ _))

/-- The event is an enter signal of a node other than the last one to signal, while a third node is
    stranded. -/
def StrandedMove (p : List Signal) (event : RawDataEvent) : Prop :=
  ∃ s, signal? event = some s ∧ s.kind = .enter ∧ (∃ r, p.head? = some r ∧ r.address ≠ s.address) ∧
    ∃ x, x ≠ s.address ∧ Stranded x p

/-! ### Runs -/

variable {x : Str} {s : Signal} {p : List Signal}

theorem lastRun_cons_ne (h : s.address ≠ x) : lastRun x (s :: p) = lastRun x p := by
  simp [lastRun, h]

theorem lastRun_cons_eq (h : s.address = x) :
    lastRun x (s :: p) = s :: p.takeWhile (·.address = x) := by
  simp [lastRun, h]

theorem lastRun_eq_takeWhile {r : Signal} (h : r.address = x) :
    lastRun x (r :: p) = (r :: p).takeWhile (·.address = x) := by
  rw [lastRun_cons_eq h]; simp [h]

theorem signalAfter_cons_eq (h : s.address = x) : signalAfter x (s :: p) = none := by
  simp [signalAfter, h]

theorem signalAfter_cons_ne (h : s.address ≠ x) :
    signalAfter x (s :: p) = (signalAfter x p).or (some s) := by
  simp only [signalAfter, List.takeWhile_cons, h, ne_eq, not_false_eq_true, decide_true, if_true]
  rw [List.getLast?_cons]
  cases (p.takeWhile (·.address ≠ x)).getLast? <;> rfl

/-- Where another node signalled last, a further signal does not follow the run of `x` directly. -/
theorem signalAfter_or {r : Signal} (h : r.address ≠ x) :
    (signalAfter x (r :: p)).or (some s) = signalAfter x (r :: p) := by
  rw [signalAfter_cons_ne h]
  cases signalAfter x p <;> rfl

theorem signalAfter_eq_none_iff :
    signalAfter x p = none ↔ ∀ r, p.head? = some r → r.address = x := by
  cases p with
  | nil => simp [signalAfter]
  | cons r p =>
    rcases eq_or_ne r.address x with h | h
    · simp [signalAfter_cons_eq h, h]
    · simp [signalAfter_cons_ne h, h]

/-! ### Commands for one node -/

/-- The command for `x` among those that answer a signal. -/
theorem lastCommand_respond (x : Str) (o : Option Signal) (s : Signal) :
    lastCommand x (respond o s) =
      match s.kind, o with
      | .exit, _ => if s.address = x then some strongExit else none
      | .enter, none => if s.address = x then some strongEnter else none
      | .enter, some r =>
        if s.address = r.address then none
        else if s.address = x then some strongEnter
        else if r.address = x then some strongExit else none := by
  obtain ⟨a, kind, loc, t⟩ := s
  cases kind with
  | exit =>
    rcases eq_or_ne a x with h | h <;> simp [respond, lastCommand, h]
  | enter =>
    cases o with
    | none => rcases eq_or_ne a x with h | h <;> simp [respond, lastCommand, h]
    | some r =>
      rcases eq_or_ne a r.address with hr | hr
      · simp [respond, lastCommand, hr]
      · rcases eq_or_ne a x with h | h
        · have hrx : ¬r.address = x := fun hx => hr (h.trans hx.symm)
          have hxr : ¬x = r.address := fun hx => hrx hx.symm
          simp [respond, lastCommand, h, hrx, hxr]
        · rcases eq_or_ne r.address x with hx | hx <;> simp [respond, lastCommand, hr, h, hx]

theorem entered_cons (x : Str) (s : Signal) (p : List Signal) :
    Entered (said (s :: p)) x ↔
      (lastCommand x (respond p.head? s)).or (lastCommand x (said p)) = some strongEnter := by
  rw [Entered, said, lastCommand_append]

/-- An exit signal withdraws its own node and no other. -/
theorem entered_exit (hs : s.kind = .exit) :
    Entered (said (s :: p)) x ↔ s.address ≠ x ∧ Entered (said p) x := by
  have hne : strongExit ≠ strongEnter := by decide
  rw [entered_cons, lastCommand_respond, hs]
  rcases eq_or_ne s.address x with h | h <;> simp [h, hne, Entered]

/-- A repeated enter signal changes nothing. -/
theorem entered_repeat {r : Signal} (hs : s.kind = .enter) (hr : p.head? = some r)
    (h : s.address = r.address) : Entered (said (s :: p)) x ↔ Entered (said p) x := by
  rw [entered_cons, lastCommand_respond, hs, hr]
  simp [h, Entered]

/-- A move enters its node and withdraws the remembered one. -/
theorem entered_move {r : Signal} (hs : s.kind = .enter) (hr : p.head? = some r)
    (h : s.address ≠ r.address) :
    Entered (said (s :: p)) x ↔ s.address = x ∨ r.address ≠ x ∧ Entered (said p) x := by
  have hne : strongExit ≠ strongEnter := by decide
  rw [entered_cons, lastCommand_respond, hs, hr]
  simp only [if_neg h]
  rcases eq_or_ne s.address x with hx | hx
  · simp [hx]
  · rcases eq_or_ne r.address x with hrx | hrx <;> simp [hx, hrx, hne, Entered]

/-- Whether a node is entered depends on its latest run and the signal after it. -/
theorem entered_iff (x : Str) : ∀ p : List Signal,
    Entered (said p) x ↔ lastRun x p ≠ [] ∧ (∀ s ∈ lastRun x p, s.kind = .enter) ∧
      ∀ s, signalAfter x p = some s → s.kind = .exit
  | [] => by simp [Entered, said, lastCommand, lastRun]
  | s :: p => by
    have ih := entered_iff x p
    cases hk : s.kind with
    | exit =>
      rw [entered_exit hk]
      rcases eq_or_ne s.address x with h | h
      · simp [lastRun_cons_eq h, h, hk]
      · rw [lastRun_cons_ne h, signalAfter_cons_ne h, ih]
        constructor
        · rintro ⟨_, hrun, hall, hafter⟩
          refine ⟨hrun, hall, fun t ht => ?_⟩
          rcases Option.or_eq_some_iff.mp ht with ht | ⟨_, ht⟩
          · exact hafter t ht
          · exact Option.some.inj ht ▸ hk
        · rintro ⟨hrun, hall, hafter⟩
          exact ⟨h, hrun, hall, fun t ht => hafter t (by rw [ht]; rfl)⟩
    | enter =>
      cases p with
      | nil =>
        rw [entered_cons, lastCommand_respond, hk]
        rcases eq_or_ne s.address x with h | h
        · simp [lastRun_cons_eq h, signalAfter_cons_eq h, h, hk]
        · simp [lastRun, h, said, lastCommand]
      | cons r p =>
        rcases eq_or_ne s.address r.address with hsr | hsr
        · rw [entered_repeat hk rfl hsr, ih]
          rcases eq_or_ne s.address x with h | h
          · -- the run grows by one more enter signal
            have hr : r.address = x := hsr ▸ h
            rw [lastRun_cons_eq h, lastRun_eq_takeWhile hr, signalAfter_cons_eq h,
              signalAfter_cons_eq hr]
            simp [hr, hk]
          · -- the signal after the run of `x` is an earlier one
            have hr : r.address ≠ x := hsr ▸ h
            rw [lastRun_cons_ne h, signalAfter_cons_ne h]
            rw [signalAfter_or hr]
        · rw [entered_move hk rfl hsr]
          rcases eq_or_ne s.address x with h | h
          · -- a new run of `x` begins
            have hr : r.address ≠ x := fun hx => hsr (h.trans hx.symm)
            simp [lastRun_cons_eq h, signalAfter_cons_eq h, h, hr, hk]
          · rw [lastRun_cons_ne h, signalAfter_cons_ne h]
            rcases eq_or_ne r.address x with hr | hr
            · -- the run of `x` ends here, with an enter signal of another node
              simp [signalAfter_cons_eq hr, h, hr, hk]
            · rw [signalAfter_or hr, ih]
              simp [h, hr]

/-- A stranded node is an entered node that is not the remembered one. -/
theorem stranded_iff :
    Stranded x p ↔ Entered (said p) x ∧ ∃ r, p.head? = some r ∧ r.address ≠ x := by
  rw [Stranded, entered_iff]
  constructor
  · rintro ⟨hrun, hall, t, ht, hexit⟩
    refine ⟨⟨hrun, hall, fun u hu => ?_⟩, ?_⟩
    · rw [ht] at hu; cases hu; exact hexit
    · by_contra hnone
      have : signalAfter x p = none := by
        refine signalAfter_eq_none_iff.mpr fun r hr => ?_
        by_contra hne
        exact hnone ⟨r, hr, hne⟩
      rw [this] at ht; cases ht
  · rintro ⟨⟨hrun, hall, hafter⟩, r, hr, hne⟩
    refine ⟨hrun, hall, ?_⟩
    cases ht : signalAfter x p with
    | none => exact absurd (signalAfter_eq_none_iff.mp ht r hr) hne
    | some t => exact ⟨t, rfl, hafter t ht⟩

/-! ### Single occupancy -/

/-- At most one node is entered. -/
def AtMostOne (cs : List CommandEvent) : Prop := ∀ x y, Entered cs x → Entered cs y → x = y

/-- A step: an event keeps single occupancy if it is not a move past a stranded node. -/
theorem atMostOne_step {events : List RawDataEvent} {event : RawDataEvent}
    (h : AtMostOne (commands events)) (hno : ¬StrandedMove (past events) event) :
    AtMostOne (commands (events ++ [event])) := by
  rw [(handle_refines events).2] at h
  rw [(handle_refines _).2, past_concat]
  cases hsig : signal? event with
  | none => exact h
  | some s =>
    simp only [Option.toList_some, List.singleton_append]
    intro x y hx hy
    cases hk : s.kind with
    | exit => exact h x y ((entered_exit hk).mp hx).2 ((entered_exit hk).mp hy).2
    | enter =>
      cases hp : past events with
      | nil =>
        rw [hp, entered_cons, lastCommand_respond, hk] at hx hy
        have honly : ∀ z, ((if s.address = z then some strongEnter else none).or
            (lastCommand z (said []))) = some strongEnter → s.address = z := by
          intro z hz
          by_contra hne
          rw [if_neg hne] at hz
          cases hz
        exact (honly x hx).symm.trans (honly y hy)
      | cons r p =>
        rw [hp] at h hx hy hno
        rcases eq_or_ne s.address r.address with hsr | hsr
        · exact h x y ((entered_repeat hk rfl hsr).mp hx) ((entered_repeat hk rfl hsr).mp hy)
        · -- a move: whoever else stays entered would be stranded
          have hothers : ∀ z, s.address ≠ z → ¬(r.address ≠ z ∧ Entered (said (r :: p)) z) := by
            rintro z hz ⟨hrz, hez⟩
            exact hno ⟨s, hsig, hk, ⟨r, rfl, hsr.symm⟩, z, hz.symm,
              stranded_iff.mpr ⟨hez, r, rfl, hrz⟩⟩
          have hmover : ∀ z, Entered (said (s :: r :: p)) z → s.address = z := by
            intro z hz
            by_contra hne
            exact hothers z hne (((entered_move hk rfl hsr).mp hz).resolve_left hne)
          exact (hmover x hx).symm.trans (hmover y hy)

/-- A move past a stranded node leaves two nodes entered. -/
theorem not_atMostOne_of_strandedMove {events : List RawDataEvent} {event : RawDataEvent}
    (h : StrandedMove (past events) event) : ¬AtMostOne (commands (events ++ [event])) := by
  obtain ⟨s, hsig, hk, ⟨r, hr, hrs⟩, x, hxs, hstr⟩ := h
  obtain ⟨hx, r', hr', hr'x⟩ := stranded_iff.mp hstr
  obtain rfl := Option.some.inj (hr.symm.trans hr')
  intro hone
  rw [(handle_refines _).2, past_concat, hsig] at hone
  have hnew := (entered_move (x := s.address) hk hr hrs.symm).mpr (Or.inl rfl)
  have hold := (entered_move hk hr hrs.symm).mpr (Or.inr ⟨hr'x, hx⟩)
  exact hxs (hone x s.address hold hnew)

/-- CORRECT: single occupancy holds after every event of a sequence exactly when no event of it is
    a move past a stranded node. -/
theorem single_occupancy_iff (events : List RawDataEvent) :
    (∀ pre, pre <+: events → AtMostOne (commands pre)) ↔
      ∀ pre event, pre ++ [event] <+: events → ¬StrandedMove (past pre) event := by
  constructor
  · intro h pre event hpre hmove
    exact not_atMostOne_of_strandedMove hmove (h _ hpre)
  · intro h pre
    induction pre using List.reverseRecOn with
    | nil =>
      intro _ x y hx _
      simp [Entered, commands, UnitspaceStatus.handleAll, lastCommand] at hx
    | append_singleton pre event ih =>
      intro hpre
      have hshort : pre <+: events := (List.prefix_append pre [event]).trans hpre
      exact atMostOne_step (ih hshort) (h pre event hpre)

/-- A RAWDATA event of node `n` with presence flag 1. -/
def presence (n : Char) (detected : ℤ) : RawDataEvent where
  timestamp := 0
  mac := str "00000000000" ++ [chr n]
  location := []
  packet := ⟨1, detected, 0, 0, 0, 0, 0, 0, 0, 0, List.replicate 16 0, false⟩
  payload := []

/-- Enter at 1, exit at 2, enter at 3: the move withdraws 2, and 1 stays entered beside 3. -/
theorem exit_elsewhere_strands :
    ¬AtMostOne (commands [presence '1' 1, presence '2' 20, presence '3' 1]) := by
  intro hone
  have h := hone (str "00:00:00:00:00:01") (str "00:00:00:00:00:03") (by decide) (by decide)
  exact absurd h (by decide)

/-! ### No missed entry -/

/-- An enter signal at address `a`. -/
def EnterSignalAt (a : Str) (event : RawDataEvent) : Prop :=
  event.packet.flagHumanPresence = 1 ∧ event.packet.detected ∈ enterSignals ∧
    normalizeMac event.mac = .ok a

instance (a : Str) (event : RawDataEvent) : Decidable (EnterSignalAt a event) :=
  inferInstanceAs (Decidable (_ ∧ _ ∧ _))

/-- Since another node last signalled, `a` has sent enter signals only. -/
def NoExitSinceOthers (a : Str) (p : List Signal) : Prop :=
  ∀ s ∈ p.takeWhile (·.address = a), s.kind = .enter

instance (a : Str) (p : List Signal) : Decidable (NoExitSinceOthers a p) :=
  inferInstanceAs (Decidable (∀ _ ∈ _, _))

theorem EnterSignalAt.signal {a : Str} {event : RawDataEvent} (h : EnterSignalAt a event) :
    ∃ s, signal? event = some s ∧ s.address = a ∧ s.kind = .enter := by
  obtain ⟨hflag, henter, hmac⟩ := h
  refine ⟨⟨a, .enter, orDefault event.location defaultLocation, event.timestamp⟩, ?_, rfl, rfl⟩
  rw [signal?, if_pos hflag, hmac]
  exact if_pos henter

/-- CORRECT: after an enter signal at `a`, node `a` is entered exactly when it has sent no exit
    signal since another node last signalled. -/
theorem no_missed_entry_iff (events : List RawDataEvent) (event : RawDataEvent) (a : Str)
    (h : EnterSignalAt a event) :
    Entered (commands (events ++ [event])) a ↔ NoExitSinceOthers a (past events) := by
  obtain ⟨s, hsig, haddr, hk⟩ := h.signal
  rw [(handle_refines _).2, past_concat, hsig]
  simp only [Option.toList_some, List.singleton_append]
  rw [entered_iff, lastRun_cons_eq haddr, signalAfter_cons_eq haddr, NoExitSinceOthers]
  simp [hk]

/-- The first enter signal of a node after another node's exit signal. -/
theorem no_missed_entry_after_move :
    Entered (commands ([presence '1' 1, presence '2' 20] ++ [presence '1' 10]))
      (str "00:00:00:00:00:01") :=
  (no_missed_entry_iff [presence '1' 1, presence '2' 20] (presence '1' 10) _ (by decide)).mpr
    (by decide)

/-- Exit, then enter at the same node: the enter signal is taken for noise. -/
theorem reentry_is_missed :
    ¬Entered (commands [presence '1' 20, presence '1' 1]) (str "00:00:00:00:00:01") := by
  rw [(handle_refines _).2]
  decide

end SlimHub.Unitspace
