import Mathlib

/-! Greedy cutting of a stream that arrives in chunks.

    A *cutter* looks at the front of a buffer and either waits for more input or cuts a piece of
    known length off, which it keeps or throws away. One law makes the result independent of how
    the stream arrives: a decision once taken is not revised when more input follows
    (`cut_append`). From it come chunk invariance (`feed_eq`), the accounting of every element
    (`pieces_flatten`), the isolation of self-delimiting blocks (`pieces_blocks`), and the
    condition under which the cutter gets back into step after a disturbance (`lands_iff`).

        buffer ──▶ cut ──none────────▶ wait (buffer is the rest)
                    │ some (n, kept)
                    ▼
               piece of n ──▶ cut again on what follows -/

namespace Cutting

/-- A decision procedure on buffers: wait, or cut `n` elements off and keep them or not. -/
structure Cutter (α : Type*) where
  cut : List α → Option (ℕ × Bool)
  cut_pos : ∀ {b n k}, cut b = some (n, k) → 0 < n
  cut_le : ∀ {b n k}, cut b = some (n, k) → n ≤ b.length
  cut_append : ∀ {b p} (c : List α), cut b = some p → cut (b ++ c) = some p

variable {α : Type*} (C : Cutter α)

namespace Cutter

/-- Cut at most `fuel` pieces; the pieces with their kept flags, and what is left. -/
def runFrom : ℕ → List α → List (List α × Bool) × List α
  | 0, b => ([], b)
  | fuel + 1, b =>
    match C.cut b with
    | none => ([], b)
    | some (n, kept) =>
      ((b.take n, kept) :: (runFrom fuel (b.drop n)).1, (runFrom fuel (b.drop n)).2)

/-- Pieces cut off a buffer until the cutter waits. -/
def pieces (b : List α) : List (List α × Bool) := (C.runFrom b.length b).1

/-- What the cutter leaves in the buffer. -/
def rest (b : List α) : List α := (C.runFrom b.length b).2

/-- The pieces that were kept, in order. -/
def kept (ps : List (List α × Bool)) : List (List α) := (ps.filter (·.2)).map (·.1)

@[simp] theorem kept_nil : kept ([] : List (List α × Bool)) = [] := rfl

@[simp] theorem kept_append (ps qs : List (List α × Bool)) :
    kept (ps ++ qs) = kept ps ++ kept qs := by simp [kept]

theorem kept_cons_true (x : List α) (ps : List (List α × Bool)) :
    kept ((x, true) :: ps) = x :: kept ps := by simp [kept]

theorem kept_cons_false (x : List α) (ps : List (List α × Bool)) :
    kept ((x, false) :: ps) = kept ps := by simp [kept]

@[simp] theorem kept_map_true (xs : List (List α)) : kept (xs.map (·, true)) = xs := by
  induction xs with
  | nil => rfl
  | cons x xs ih => rw [List.map_cons, kept_cons_true, ih]

/-! ### Equations of the scan -/

theorem cut_nil : C.cut [] = none := by
  cases hc : C.cut [] with
  | none => rfl
  | some p =>
    have hpos := C.cut_pos hc
    have hle := C.cut_le hc
    simp only [List.length_nil] at hle
    omega

theorem length_drop_lt {b : List α} {n : ℕ} {k : Bool} (h : C.cut b = some (n, k)) :
    (b.drop n).length < b.length := by
  have hpos := C.cut_pos h
  have hle := C.cut_le h
  rw [List.length_drop]; omega

/-- Every piece is nonempty, so any two amounts of fuel that cover the buffer agree. -/
theorem runFrom_fuel : ∀ (f g : ℕ) (b : List α), b.length ≤ f → b.length ≤ g →
    C.runFrom f b = C.runFrom g b
  | 0, 0, _, _, _ => rfl
  | 0, g + 1, b, hf, _ => by
    rw [List.length_eq_zero_iff.mp (Nat.le_zero.mp hf)]
    simp [runFrom, C.cut_nil]
  | f + 1, 0, b, _, hg => by
    rw [List.length_eq_zero_iff.mp (Nat.le_zero.mp hg)]
    simp [runFrom, C.cut_nil]
  | f + 1, g + 1, b, hf, hg => by
    cases hc : C.cut b with
    | none => simp [runFrom, hc]
    | some p =>
      obtain ⟨n, k⟩ := p
      have hlt := C.length_drop_lt hc
      simp only [runFrom, hc, runFrom_fuel f g (b.drop n) (by omega) (by omega)]

theorem runFrom_of_none {b : List α} (h : C.cut b = none) : ∀ fuel, C.runFrom fuel b = ([], b)
  | 0 => rfl
  | fuel + 1 => by simp [runFrom, h]

theorem pieces_of_none {b : List α} (h : C.cut b = none) : C.pieces b = [] := by
  rw [pieces, C.runFrom_of_none h]

theorem rest_of_none {b : List α} (h : C.cut b = none) : C.rest b = b := by
  rw [rest, C.runFrom_of_none h]

/-- One decision: a piece, then the scan of what follows it. -/
theorem runFrom_of_some {b : List α} {n : ℕ} {k : Bool} (h : C.cut b = some (n, k)) :
    C.runFrom b.length b = ((b.take n, k) :: C.pieces (b.drop n), C.rest (b.drop n)) := by
  have hlt := C.length_drop_lt h
  obtain ⟨m, hm⟩ : ∃ m, b.length = m + 1 := ⟨b.length - 1, by omega⟩
  rw [hm, runFrom, h]
  simp only [pieces, rest]
  rw [C.runFrom_fuel m (b.drop n).length _ (by omega) (le_refl _)]

theorem pieces_of_some {b : List α} {n : ℕ} {k : Bool} (h : C.cut b = some (n, k)) :
    C.pieces b = (b.take n, k) :: C.pieces (b.drop n) := by
  rw [pieces, C.runFrom_of_some h]

theorem rest_of_some {b : List α} {n : ℕ} {k : Bool} (h : C.cut b = some (n, k)) :
    C.rest b = C.rest (b.drop n) := by
  rw [rest, C.runFrom_of_some h]

/-- Induction along the decisions taken on a buffer. -/
theorem scan_induction {P : List α → Prop} (wait : ∀ b, C.cut b = none → P b)
    (piece : ∀ b n k, C.cut b = some (n, k) → P (b.drop n) → P b) (b : List α) : P b := by
  induction hb : b.length using Nat.strong_induction_on generalizing b with
  | _ m ih =>
    cases hc : C.cut b with
    | none => exact wait b hc
    | some p =>
      obtain ⟨n, k⟩ := p
      exact piece b n k hc (ih _ (hb ▸ C.length_drop_lt hc) _ rfl)

/-- The scan stops only where the cutter waits. -/
theorem cut_rest (b : List α) : C.cut (C.rest b) = none := by
  induction b using C.scan_induction with
  | wait b h => rw [C.rest_of_none h, h]
  | piece b n k h ih => rw [C.rest_of_some h, ih]

/-- Accounting: the pieces and the rest are the buffer, in order, without gap or overlap. -/
theorem pieces_flatten (b : List α) : ((C.pieces b).map (·.1)).flatten ++ C.rest b = b := by
  induction b using C.scan_induction with
  | wait b h => simp [C.pieces_of_none h, C.rest_of_none h]
  | piece b n k h ih =>
    rw [C.pieces_of_some h, C.rest_of_some h, List.map_cons, List.flatten_cons, List.append_assoc,
      ih, List.take_append_drop]

/-! ### Chunks -/

/-- Scanning a longer buffer continues the scan of its front. -/
theorem scan_append (b c : List α) :
    C.pieces (b ++ c) = C.pieces b ++ C.pieces (C.rest b ++ c) ∧
      C.rest (b ++ c) = C.rest (C.rest b ++ c) := by
  induction b using C.scan_induction with
  | wait b h => simp [C.pieces_of_none h, C.rest_of_none h]
  | piece b n k h ih =>
    have hbc := C.cut_append c h
    have hdrop : (b ++ c).drop n = b.drop n ++ c := List.drop_append_of_le_length (C.cut_le h)
    have htake : (b ++ c).take n = b.take n := List.take_append_of_le_length (C.cut_le h)
    rw [C.pieces_of_some hbc, C.rest_of_some hbc, C.pieces_of_some h, C.rest_of_some h, hdrop,
      htake, ih.1, ih.2]
    exact ⟨rfl, rfl⟩

theorem pieces_append (b c : List α) :
    C.pieces (b ++ c) = C.pieces b ++ C.pieces (C.rest b ++ c) := (C.scan_append b c).1

theorem rest_append (b c : List α) : C.rest (b ++ c) = C.rest (C.rest b ++ c) :=
  (C.scan_append b c).2

/-- Feed chunks one by one, carrying the rest over. -/
def feed : List α → List (List α) → List (List α × Bool) × List α
  | b, [] => ([], b)
  | b, c :: cs => (C.pieces (b ++ c) ++ (feed (C.rest (b ++ c)) cs).1, (feed (C.rest (b ++ c)) cs).2)

/-- Chunk invariance: feeding chunks is one scan of their concatenation. From a buffer that is
    already scanned this holds for no chunks at all, too. -/
theorem feed_eq_of_cut : ∀ (b : List α) (cs : List (List α)), C.cut b = none →
    C.feed b cs = (C.pieces (b ++ cs.flatten), C.rest (b ++ cs.flatten))
  | b, [], h => by simp [feed, C.pieces_of_none h, C.rest_of_none h]
  | b, c :: cs, _ => by
    rw [feed, feed_eq_of_cut (C.rest (b ++ c)) cs (C.cut_rest _), List.flatten_cons,
      ← List.append_assoc, ← C.pieces_append, ← C.rest_append]

theorem feed_eq (b c : List α) (cs : List (List α)) :
    C.feed b (c :: cs) = (C.pieces (b ++ (c :: cs).flatten), C.rest (b ++ (c :: cs).flatten)) := by
  rw [feed, C.feed_eq_of_cut _ cs (C.cut_rest _), List.flatten_cons, ← List.append_assoc,
    ← C.pieces_append, ← C.rest_append]

/-- Accounting of what was fed. -/
theorem feed_flatten : ∀ (b : List α) (cs : List (List α)),
    ((C.feed b cs).1.map (·.1)).flatten ++ (C.feed b cs).2 = b ++ cs.flatten
  | b, [] => by simp [feed]
  | b, c :: cs => by
    rw [feed, List.map_append, List.flatten_append, List.append_assoc,
      feed_flatten (C.rest (b ++ c)) cs, ← List.append_assoc, C.pieces_flatten, List.flatten_cons,
      List.append_assoc]

/-! ### Decisions -/

/-- Every piece is what the cutter decided on at its place. -/
theorem cut_of_pieces {b : List α} {pre post : List (List α × Bool)} {p : List α × Bool}
    (h : C.pieces b = pre ++ p :: post) :
    C.cut (b.drop (pre.map (·.1)).flatten.length) = some (p.1.length, p.2) ∧
      p.1 <+: b.drop (pre.map (·.1)).flatten.length := by
  induction b using C.scan_induction generalizing pre with
  | wait b hcut =>
    rw [C.pieces_of_none hcut] at h
    exact absurd h.symm (by simp)
  | piece b n k hcut ih =>
    rw [C.pieces_of_some hcut] at h
    cases pre with
    | nil =>
      obtain ⟨rfl, _⟩ := List.cons.inj h
      refine ⟨?_, List.take_prefix n b⟩
      rw [List.length_take, min_eq_left (C.cut_le hcut)]
      exact hcut
    | cons q pre =>
      obtain ⟨rfl, hrest⟩ := List.cons.inj h
      have hlen : (b.take n).length = n := by rw [List.length_take, min_eq_left (C.cut_le hcut)]
      have hdrop : b.drop (((b.take n, k) :: pre).map (·.1)).flatten.length =
          (b.drop n).drop (pre.map (·.1)).flatten.length := by
        rw [List.map_cons, List.flatten_cons, List.length_append, hlen, List.drop_drop]
      rw [hdrop]
      exact ih hrest

/-- Every piece that is cut while chunks are fed is what the cutter decided on when it had the
    chunks so far. -/
theorem cut_of_feed {b : List α} {cs : List (List α)} {pre post : List (List α × Bool)}
    {p : List α × Bool} (h : (C.feed b cs).1 = pre ++ p :: post) : ∃ i < cs.length,
      C.cut ((b ++ (cs.take (i + 1)).flatten).drop (pre.map (·.1)).flatten.length) =
        some (p.1.length, p.2) ∧
      p.1 <+: (b ++ (cs.take (i + 1)).flatten).drop (pre.map (·.1)).flatten.length := by
  induction cs generalizing b pre with
  | nil => exact absurd h.symm (by simp [feed])
  | cons c cs ih =>
    rw [feed] at h
    -- what is present after the first chunk, past its pieces
    have hlater (l : List (List α × Bool)) (i : ℕ) :
        (b ++ ((c :: cs).take (i + 1 + 1)).flatten).drop
            ((C.pieces (b ++ c) ++ l).map (·.1)).flatten.length =
          (C.rest (b ++ c) ++ (cs.take (i + 1)).flatten).drop (l.map (·.1)).flatten.length := by
      rw [List.take_succ_cons, List.flatten_cons, ← List.append_assoc, ← C.pieces_flatten (b ++ c),
        List.append_assoc, List.map_append, List.flatten_append, List.length_append,
        ← List.drop_drop, C.pieces_flatten, List.drop_left]
    have hnext (l : List (List α × Bool)) (hl : (C.feed (C.rest (b ++ c)) cs).1 = l ++ p :: post)
        (hpre : pre = C.pieces (b ++ c) ++ l) : ∃ i < (c :: cs).length,
          C.cut ((b ++ ((c :: cs).take (i + 1)).flatten).drop (pre.map (·.1)).flatten.length) =
            some (p.1.length, p.2) ∧
          p.1 <+: (b ++ ((c :: cs).take (i + 1)).flatten).drop (pre.map (·.1)).flatten.length := by
      obtain ⟨i, hi, hcut⟩ := ih hl
      refine ⟨i + 1, Nat.succ_lt_succ hi, ?_⟩
      rw [hpre, hlater l i]
      exact hcut
    rcases List.append_eq_append_iff.mp h with ⟨l, hpre, hl⟩ | ⟨l, hpieces, hl⟩
    · exact hnext l hl hpre
    · cases l with
      | nil => exact hnext [] hl.symm (by simpa using hpieces.symm)
      | cons q l =>
        obtain ⟨rfl, _⟩ := List.cons.inj hl
        refine ⟨0, Nat.succ_pos _, ?_⟩
        simpa using C.cut_of_pieces hpieces

/-! ### Blocks -/

/-- A block delimits itself: on it the cutter takes exactly all of it, and keeps it. -/
def IsBlock (x : List α) : Prop := C.cut x = some (x.length, true)

theorem pieces_block {x : List α} (hx : C.IsBlock x) (t : List α) :
    C.pieces (x ++ t) = (x, true) :: C.pieces t := by
  rw [C.pieces_of_some (C.cut_append t hx), List.take_left, List.drop_left]

theorem rest_block {x : List α} (hx : C.IsBlock x) (t : List α) : C.rest (x ++ t) = C.rest t := by
  rw [C.rest_of_some (C.cut_append t hx), List.drop_left]

/-- Blocks do not disturb each other: a run of blocks is cut into exactly these blocks. -/
theorem pieces_blocks : ∀ (xs : List (List α)) (t : List α), (∀ x ∈ xs, C.IsBlock x) →
    C.pieces (xs.flatten ++ t) = xs.map (·, true) ++ C.pieces t
  | [], _, _ => rfl
  | x :: xs, t, h => by
    rw [List.flatten_cons, List.append_assoc, C.pieces_block (h x (List.mem_cons_self ..)),
      pieces_blocks xs t (fun y hy => h y (List.mem_cons_of_mem _ hy)), List.map_cons,
      List.cons_append]

theorem rest_blocks : ∀ (xs : List (List α)) (t : List α), (∀ x ∈ xs, C.IsBlock x) →
    C.rest (xs.flatten ++ t) = C.rest t
  | [], _, _ => rfl
  | x :: xs, t, h => by
    rw [List.flatten_cons, List.append_assoc, C.rest_block (h x (List.mem_cons_self ..)),
      rest_blocks xs t (fun y hy => h y (List.mem_cons_of_mem _ hy))]

/-! ### Where the scan lands -/

/-- The scan of `b` takes a decision (or waits) at position `q`. -/
inductive Lands (b : List α) : ℕ → Prop
  | start : Lands b 0
  | next {q n : ℕ} {k : Bool} : Lands b q → C.cut (b.drop q) = some (n, k) → Lands b (q + n)

/-- Past a position it lands on, the scan is the scan of what follows. -/
theorem Lands.pieces {b : List α} {q : ℕ} (h : C.Lands b q) :
    ∃ ps, C.pieces b = ps ++ C.pieces (b.drop q) ∧ (ps.map (·.1)).flatten = b.take q := by
  induction h with
  | start => exact ⟨[], by simp, by simp⟩
  | @next q n k _ hcut ih =>
    obtain ⟨ps, hps, hfl⟩ := ih
    refine ⟨ps ++ [((b.drop q).take n, k)], ?_, ?_⟩
    · rw [hps, C.pieces_of_some hcut, List.drop_drop, List.append_assoc, List.singleton_append]
    · rw [List.map_append, List.flatten_append, hfl, List.map_singleton, List.flatten_singleton,
        List.take_add]

/-- Landings do not cross: the decision taken at `p` ends at or before every later landing. -/
theorem Lands.le_of_cut {b : List α} {q : ℕ} (hq : C.Lands b q) {p n : ℕ} {k : Bool}
    (hp : C.Lands b p) (hpq : p < q) (hcut : C.cut (b.drop p) = some (n, k)) : p + n ≤ q := by
  induction q using Nat.strong_induction_on generalizing p n k with
  | _ q ih =>
    cases hq with
    | start => omega
    | @next r m j hr hcutr =>
      have hm := C.cut_pos hcutr
      rcases Nat.lt_trichotomy p r with hlt | rfl | hgt
      · exact (ih r (by omega) hr hp hlt hcut).trans (Nat.le_add_right r m)
      · rw [hcut] at hcutr
        cases hcutr
        exact le_refl _
      · -- `p` would lie inside the piece cut at `r`
        have := ih p hpq hp hr hgt hcutr
        omega

/-- The scan lands on `q` exactly when it neither waits before `q` nor cuts a piece across it. -/
theorem lands_iff {b : List α} {q : ℕ} :
    C.Lands b q ↔
      ∀ p < q, C.Lands b p → ∃ n k, C.cut (b.drop p) = some (n, k) ∧ p + n ≤ q := by
  constructor
  · intro hq p hpq hp
    induction hq with
    | start => omega
    | @next r m j hr hcutr ih =>
      rcases Nat.lt_trichotomy p r with hlt | rfl | hgt
      · obtain ⟨n, k, hcut, hle⟩ := ih hlt
        exact ⟨n, k, hcut, by omega⟩
      · exact ⟨m, j, hcutr, le_refl _⟩
      · have := hp.le_of_cut C hr hgt hcutr
        omega
  · intro h
    -- climb from landing to landing until `q` is reached
    have climb : ∀ d p, C.Lands b p → p ≤ q → q - p = d → C.Lands b q := by
      intro d
      induction d using Nat.strong_induction_on with
      | _ d ih =>
        intro p hp hle hd
        rcases Nat.eq_or_lt_of_le hle with rfl | hlt
        · exact hp
        · obtain ⟨n, k, hcut, hn⟩ := h p hlt hp
          have hpos := C.cut_pos hcut
          exact ih (q - (p + n)) (by omega) (p + n) (.next hp hcut) hn rfl
    exact climb q 0 .start (Nat.zero_le q) (by omega)

end Cutter

end Cutting
