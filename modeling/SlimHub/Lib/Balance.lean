import SlimHub.Lib.Dump

/-! A torn JSON file is no JSON.

    Outside strings, every text that the reader accepts opens as many brackets as it closes. The
    writer keeps the outermost brace of an object open until its last chunk, so that a file whose
    writing was cut short cannot be read. -/

namespace Json
open Text

/-! ### Brackets -/

inductive Mode where
  | outside
  | inside
  | escaped
  deriving DecidableEq

/-- A place in a text: inside a string or not, and the number of brackets open. -/
structure Cursor where
  mode : Mode
  level : ℤ
  deriving DecidableEq

/-- `{` or `[`. -/
def opens (c : CodePoint) : Bool := c.val = 0x7B ∨ c.val = 0x5B

/-- `}` or `]`. -/
def closes (c : CodePoint) : Bool := c.val = 0x7D ∨ c.val = 0x5D

def feed (self : Cursor) (c : CodePoint) : Cursor :=
  match self.mode with
  | .outside =>
    if c = quote then { self with mode := .inside }
    else if opens c then { self with level := self.level + 1 }
    else if closes c then { self with level := self.level - 1 }
    else self
  | .inside =>
    if c = quote then { self with mode := .outside }
    else if c = backslash then { self with mode := .escaped }
    else self
  | .escaped => { self with mode := .inside }

def track (self : Cursor) (s : Str) : Cursor := s.foldl feed self

@[simp] theorem track_nil (self : Cursor) : track self [] = self := rfl

@[simp] theorem track_cons (self : Cursor) (c : CodePoint) (s : Str) :
    track self (c :: s) = track (feed self c) s := rfl

theorem track_append (self : Cursor) (s t : Str) :
    track self (s ++ t) = track (track self s) t :=
  List.foldl_append

/-- No quote and no bracket. -/
def isPlain (c : CodePoint) : Bool :=
  c.val ≠ 0x22 ∧ c.val ≠ 0x5B ∧ c.val ≠ 0x5D ∧ c.val ≠ 0x7B ∧ c.val ≠ 0x7D

theorem eq_quote_iff {c : CodePoint} : c = quote ↔ c.val = 0x22 := Fin.ext_iff

theorem feed_plain {c : CodePoint} (h : isPlain c = true) (n : ℤ) :
    feed ⟨.outside, n⟩ c = ⟨.outside, n⟩ := by
  simp only [isPlain, decide_eq_true_eq] at h
  simp [feed, opens, closes, eq_quote_iff, h]

theorem track_plain {s : Str} (h : ∀ c ∈ s, isPlain c = true) (n : ℤ) :
    track ⟨.outside, n⟩ s = ⟨.outside, n⟩ := by
  induction s with
  | nil => rfl
  | cons c s ih =>
    rw [track_cons, feed_plain (h c List.mem_cons_self)]
    exact ih fun d hd => h d (List.mem_cons_of_mem c hd)

theorem feed_inside {c : CodePoint} (hquote : c ≠ quote) (hslash : c ≠ backslash) (n : ℤ) :
    feed ⟨.inside, n⟩ c = ⟨.inside, n⟩ := by
  simp [feed, hquote, hslash]

theorem isPlain_of_isBlank {c : CodePoint} (h : isBlank c = true) : isPlain c = true := by
  simp only [isBlank, isPlain, decide_eq_true_eq] at h ⊢
  omega

theorem isPlain_of_isDigit {c : CodePoint} (h : isDigit c = true) : isPlain c = true := by
  simp only [isDigit, isPlain, decide_eq_true_eq] at h ⊢
  omega

/-! ### What the reader accepts -/

/-- What stands between `s` and its rest `t` changes the level by `k`. -/
def Moves (k : ℤ) (s t : Str) : Prop :=
  ∃ u, s = u ++ t ∧ ∀ n, track ⟨.outside, n⟩ u = ⟨.outside, n + k⟩

section
variable {s t r : Str} {k l : ℤ}

theorem Moves.refl (s : Str) : Moves 0 s s := ⟨[], rfl, fun n => by simp⟩

theorem Moves.trans (h : Moves k s t) (h' : Moves l t r) : Moves (k + l) s r := by
  obtain ⟨u, rfl, hu⟩ := h
  obtain ⟨v, rfl, hv⟩ := h'
  refine ⟨u ++ v, (List.append_assoc u v r).symm, fun n => ?_⟩
  rw [track_append, hu, hv, add_assoc]

theorem Moves.of_plain {u : Str} (h : ∀ c ∈ u, isPlain c = true) : Moves 0 (u ++ t) t :=
  ⟨u, rfl, fun n => by rw [track_plain h, add_zero]⟩

theorem moves_skip (s : Str) : Moves 0 s (skip s) := by
  have hsplit : s.takeWhile isBlank ++ skip s = s := List.takeWhile_append_dropWhile
  have hplain : ∀ c ∈ s.takeWhile isBlank, isPlain c = true := fun c hc =>
    isPlain_of_isBlank (List.mem_takeWhile_imp hc)
  conv_lhs => rw [← hsplit]
  exact .of_plain hplain

theorem moves_open {c : CodePoint} (h : opens c = true) (s : Str) : Moves 1 (c :: s) s := by
  refine ⟨[c], rfl, fun n => ?_⟩
  have hquote : c ≠ quote := by
    simp only [opens, decide_eq_true_eq] at h
    rw [Ne, eq_quote_iff]
    omega
  simp [feed, hquote, h]

theorem moves_close {c : CodePoint} (h : closes c = true) (s : Str) : Moves (-1) (c :: s) s := by
  refine ⟨[c], rfl, fun n => ?_⟩
  simp only [closes, decide_eq_true_eq] at h
  have hquote : c ≠ quote := by
    rw [Ne, eq_quote_iff]
    omega
  have hopen : opens c = false := by
    simp only [opens, decide_eq_false_iff_not]
    omega
  simp [feed, hquote, hopen, closes, h, sub_eq_add_neg]

theorem moves_char {c : CodePoint} (h : isPlain c = true) (s : Str) : Moves 0 (c :: s) s :=
  Moves.of_plain (u := [c]) (by simpa using h)

/-! Strings -/

theorem of_map_ok {α β : Type} {x : Except Fault α} {f : α → β} {y : β}
    (h : x.map f = .ok y) : ∃ a, x = .ok a ∧ f a = y := by
  cases x with
  | error e => cases h
  | ok a => exact ⟨a, rfl, Except.ok.inj h⟩

/-- A scan that read `u` before it went on, and stays inside the string. -/
theorem track_inside_append {u s t : Str} (hu : ∀ n, track ⟨.inside, n⟩ u = ⟨.inside, n⟩)
    (h : ∃ v, s = v ++ t ∧ ∀ n, track ⟨.inside, n⟩ v = ⟨.outside, n⟩) :
    ∃ v, u ++ s = v ++ t ∧ ∀ n, track ⟨.inside, n⟩ v = ⟨.outside, n⟩ := by
  obtain ⟨v, rfl, hv⟩ := h
  exact ⟨u ++ v, (List.append_assoc u v t).symm, fun n => by rw [track_append, hu, hv]⟩

theorem track_escape (e : CodePoint) (n : ℤ) : track ⟨.inside, n⟩ [backslash, e] = ⟨.inside, n⟩ := by
  have hquote : backslash ≠ quote := by decide
  simp [feed, hquote]

theorem feed_hexDigit {c : CodePoint} (h : isHexDigit c = true) (n : ℤ) :
    feed ⟨.inside, n⟩ c = ⟨.inside, n⟩ := by
  have hquote : quote ∉ hexdigits := by decide
  have hslash : backslash ∉ hexdigits := by decide
  have hmem := isHexDigit_iff.mp h
  exact feed_inside (fun hc => hquote (hc ▸ hmem)) (fun hc => hslash (hc ▸ hmem)) n

theorem scanPieces_track (s : Str) : ∀ {t : Str} {ps : List Piece}, scanPieces s = .ok (ps, t) →
    ∃ u, s = u ++ t ∧ ∀ n, track ⟨.inside, n⟩ u = ⟨.outside, n⟩ := by
  fun_induction scanPieces s with
  | case1 => intro t ps h; cases h
  | case2 s =>
    intro t ps h
    cases h
    exact ⟨[quote], rfl, fun n => by simp [feed]⟩
  | case3 => intro t ps h; cases h
  | case4 => intro t ps h; cases h
  | case5 h₁ h₂ h₃ h₄ s hhex _ _ ih =>
    intro t ps h
    obtain ⟨⟨qs, r⟩, hr, heq⟩ := of_map_ok h
    obtain ⟨_, rfl⟩ := Prod.mk.inj heq
    have hu : ∀ n, track ⟨.inside, n⟩ [backslash, chr 'u', h₁, h₂, h₃, h₄] = ⟨.inside, n⟩ := by
      intro n
      simp only [List.all_cons, List.all_nil, Bool.and_eq_true] at hhex
      have hesc := track_escape (chr 'u') n
      simp only [track_cons, track_nil] at hesc ⊢
      rw [hesc, feed_hexDigit hhex.1, feed_hexDigit hhex.2.1, feed_hexDigit hhex.2.2.1,
        feed_hexDigit hhex.2.2.2.1]
    exact track_inside_append hu (ih hr)
  | case6 => intro t ps h; cases h
  | case7 => intro t ps h; cases h
  | case8 => intro t ps h; cases h
  | case9 e s _ c _ _ _ ih =>
    intro t ps h
    obtain ⟨⟨qs, r⟩, hr, heq⟩ := of_map_ok h
    obtain ⟨_, rfl⟩ := Prod.mk.inj heq
    exact track_inside_append (track_escape e) (ih hr)
  | case10 c s hquote _ hslash ih =>
    intro t ps h
    obtain ⟨⟨qs, r⟩, hr, heq⟩ := of_map_ok h
    obtain ⟨_, rfl⟩ := Prod.mk.inj heq
    exact track_inside_append (u := [c]) (feed_inside hquote hslash) (ih hr)

theorem moves_string {s t : Str} {ps : List Piece} (h : scanPieces s = .ok (ps, t)) :
    Moves 0 (quote :: s) t := by
  obtain ⟨u, rfl, hu⟩ := scanPieces_track s h
  refine ⟨quote :: u, rfl, fun n => ?_⟩
  have hopen : feed ⟨.outside, n⟩ quote = ⟨.inside, n⟩ := by simp [feed]
  rw [track_cons, hopen, hu, add_zero]

/-! Numbers and constants -/

theorem plain_takeWhile (s : Str) : ∀ c ∈ s.takeWhile isDigit, isPlain c = true :=
  fun _ hc => isPlain_of_isDigit (List.mem_takeWhile_imp hc)

theorem moves_digits (s : Str) : Moves 0 s (s.dropWhile isDigit) := by
  conv_lhs => rw [← List.takeWhile_append_dropWhile (p := isDigit) (l := s)]
  exact .of_plain (plain_takeWhile s)

theorem moves_whole {negative : Bool} {digits : Str}
    (h : scanWhole s = some (negative, digits, t)) : Moves 0 s t := by
  have hsign : ∀ (p : Prop) [Decidable p], (p → s.head? = some (chr '-')) →
      Moves 0 s (if p then s.tail else s) := by
    intro p _ hp
    split
    · obtain ⟨r, rfl⟩ := List.head?_eq_some_iff.mp (hp ‹_›)
      exact moves_char (by decide) r
    · exact .refl s
  have hhead := hsign (s.head? = some (chr '-')) id
  simp only [scanWhole] at h
  generalize (if s.head? = some (chr '-') then s.tail else s) = u at h hhead
  cases u with
  | nil => cases h
  | cons c u =>
    simp only at h
    split at h
    · rename_i hc
      cases h
      exact hhead.trans (moves_char (by rw [hc]; decide) _)
    · split at h
      · rename_i hdigit
        cases h
        exact hhead.trans ((moves_char (isPlain_of_isDigit hdigit) u).trans (moves_digits u))
      · cases h

theorem moves_fraction (s : Str) : Moves 0 s (scanFraction s).2 := by
  cases s with
  | nil => exact .refl []
  | cons c s =>
    rw [scanFraction]
    split
    · rename_i hc
      exact (moves_char (by rw [hc.1]; decide) s).trans (moves_digits s)
    · exact .refl _

theorem moves_exponent (s : Str) : Moves 0 s (scanExponent s).2 := by
  cases s with
  | nil => exact .refl []
  | cons c s =>
    simp only [scanExponent]
    split
    · rename_i hc
      have hletter : isPlain c = true := by
        rcases hc.1 with rfl | rfl <;> decide
      generalize hsign : (s.takeWhile fun d => d = chr '-' ∨ d = chr '+').take 1 = sign
      have hpre : sign <+: s := hsign ▸ (List.take_prefix _ _).trans (List.takeWhile_prefix _)
      obtain ⟨r, rfl⟩ := hpre
      have hplain : ∀ d ∈ sign, isPlain d = true := by
        intro d hd
        rw [← hsign] at hd
        have hd' := List.mem_takeWhile_imp (List.mem_of_mem_take hd)
        simp only [decide_eq_true_eq] at hd'
        rcases hd' with rfl | rfl <;> decide
      rw [List.drop_left, ← List.drop_drop, List.drop_left]
      have hdigits : r.drop (r.takeWhile isDigit).length = r.dropWhile isDigit := by
        have hsplit := congrArg (List.drop (r.takeWhile isDigit).length)
          (List.takeWhile_append_dropWhile (p := isDigit) (l := r))
        rw [List.drop_left] at hsplit
        exact hsplit.symm
      rw [hdigits]
      exact (moves_char hletter _).trans ((Moves.of_plain hplain).trans (moves_digits r))
    · exact .refl _

theorem moves_number {v : Value} (h : scanNumber s = .ok (v, t)) : Moves 0 s t := by
  unfold scanNumber at h
  cases hw : scanWhole s with
  | none => rw [hw] at h; cases h
  | some r =>
    obtain ⟨negative, digits, u⟩ := r
    have hrest := ((moves_whole hw).trans (moves_fraction u)).trans (moves_exponent _)
    rw [hw] at h
    simp only at h
    split at h
    · split at h
      · cases h
      · cases h
        exact hrest
    · cases h
      exact hrest

theorem moves_constant {v : Value} (h : scanConstant s = some (v, t)) : Moves 0 s t := by
  have hall : constants.all (fun c => c.1.all isPlain) = true := by decide
  have hplain : ∀ c ∈ constants, ∀ x ∈ c.1, isPlain x = true := fun c hc =>
    List.all_eq_true.mp (List.all_eq_true.mp hall c hc)
  obtain ⟨c, hc, hr⟩ := Option.map_eq_some_iff.mp h
  obtain ⟨_, rfl⟩ := Prod.mk.inj hr
  have hpre : c.1 <+: s := List.isPrefixOf_iff_prefix.mp (by simpa using List.find?_some hc)
  obtain ⟨r, rfl⟩ := hpre
  rw [List.drop_left]
  exact .of_plain (hplain c (List.mem_of_find?_eq_some hc))

/-! Values -/

theorem moves_expect {c : CodePoint} (h : expect c s = .ok t) : s = c :: t := by
  cases s with
  | nil => cases h
  | cons d s =>
    rw [expect] at h
    split at h
    · rename_i hd
      rw [hd, Except.ok.inj h]
    · cases h

mutual

theorem scanValue_moves : ∀ {fuel depth : ℕ} {s t : Str} {v : Value},
    scanValue fuel depth s = .ok (v, t) → Moves 0 s t
  | 0, _, _, _, _, h => by cases h
  | _ + 1, _, [], _, _, h => by cases h
  | fuel + 1, depth, c :: s, t, v, h => by
    rw [scanValue.eq_def] at h
    simp only at h
    split at h
    · rename_i hc
      obtain ⟨⟨ps, r⟩, hr, heq⟩ := of_map_ok h
      obtain ⟨_, rfl⟩ := Prod.mk.inj heq
      exact hc ▸ moves_string hr
    · split at h
      · rename_i hc
        have hopen : Moves 1 (c :: s) (skip s) :=
          (moves_open (by rw [hc]; decide) s).trans (moves_skip s)
        cases depth with
        | zero => cases h
        | succ depth =>
          simp only at h
          split at h
          · rename_i u hu
            cases h
            have hclose := moves_close (c := chr '\x7d') (by decide) t
            rw [← moves_expect hu] at hclose
            exact hopen.trans hclose
          · exact hopen.trans (scanMembers_moves h)
      · split at h
        · rename_i hc
          have hopen : Moves 1 (c :: s) (skip s) :=
            (moves_open (by rw [hc]; decide) s).trans (moves_skip s)
          cases depth with
          | zero => cases h
          | succ depth =>
            simp only at h
            split at h
            · rename_i u hu
              cases h
              have hclose := moves_close (c := chr ']') (by decide) t
              rw [← moves_expect hu] at hclose
              exact hopen.trans hclose
            · exact hopen.trans (scanItems_moves h)
        · cases hconst : scanConstant (c :: s) with
          | some r =>
            rw [hconst] at h
            cases h
            exact moves_constant hconst
          | none =>
            rw [hconst] at h
            exact moves_number h

/-- The items of an array and its closing bracket. -/
theorem scanItems_moves : ∀ {fuel depth : ℕ} {items : List Value} {s t : Str} {v : Value},
    scanItems fuel depth items s = .ok (v, t) → Moves (-1) s t
  | 0, _, _, _, _, _, h => by cases h
  | fuel + 1, depth, items, s, t, v, h => by
    rw [scanItems] at h
    cases hv : scanValue fuel depth s with
    | error e => rw [hv] at h; cases h
    | ok r =>
      obtain ⟨item, u⟩ := r
      have hitem := (scanValue_moves hv).trans (moves_skip u)
      simp only [hv] at h
      cases hu : skip u with
      | nil => rw [hu] at h; cases h
      | cons c w =>
        rw [hu] at hitem
        simp only [hu] at h
        split at h
        · rename_i hc
          cases h
          exact hitem.trans (moves_close (by rw [hc]; decide) t)
        · split at h
          · rename_i hc
            have hcomma := (moves_char (c := c) (by rw [hc]; decide) w).trans (moves_skip w)
            exact (hitem.trans hcomma).trans (scanItems_moves h)
          · cases h

/-- The members of an object and its closing brace. -/
theorem scanMembers_moves : ∀ {fuel depth : ℕ} {members : List (Str × Value)} {s t : Str}
    {v : Value}, scanMembers fuel depth members s = .ok (v, t) → Moves (-1) s t
  | 0, _, _, _, _, _, h => by cases h
  | fuel + 1, depth, members, s, t, v, h => by
    rw [scanMembers] at h
    cases he : expect quote s with
    | error e => rw [he] at h; cases h
    | ok s₁ =>
      simp only [he] at h
      cases hp : scanPieces s₁ with
      | error e => rw [hp] at h; cases h
      | ok r =>
        obtain ⟨key, s₂⟩ := r
        have hkey := (moves_string hp).trans (moves_skip s₂)
        rw [← moves_expect he] at hkey
        simp only [hp] at h
        cases he' : expect (chr ':') (skip s₂) with
        | error e => rw [he'] at h; cases h
        | ok s₃ =>
          rw [moves_expect he'] at hkey
          have hcolon := (moves_char (c := chr ':') (by decide) s₃).trans (moves_skip s₃)
          simp only [he'] at h
          cases hv : scanValue fuel depth (skip s₃) with
          | error e => rw [hv] at h; cases h
          | ok r =>
            obtain ⟨value, s₄⟩ := r
            have hvalue := (scanValue_moves hv).trans (moves_skip s₄)
            have hmember := (hkey.trans hcolon).trans hvalue
            simp only [hv] at h
            cases hu : skip s₄ with
            | nil => rw [hu] at h; cases h
            | cons c w =>
              rw [hu] at hmember
              simp only [hu] at h
              split at h
              · rename_i hc
                cases h
                exact hmember.trans (moves_close (by rw [hc]; decide) t)
              · split at h
                · rename_i hc
                  have hcomma := (moves_char (c := c) (by rw [hc]; decide) w).trans (moves_skip w)
                  exact (hmember.trans hcomma).trans (scanMembers_moves h)
                · cases h

end

/-- A text that is read opens as many brackets as it closes. -/
theorem loads_balanced {maxDepth : ℕ} {v : Value} (h : loads maxDepth s = .ok v) :
    track ⟨.outside, 0⟩ s = ⟨.outside, 0⟩ := by
  unfold loads at h
  split at h
  · cases h
  · cases hv : scanValue (2 * s.length + 1) maxDepth (skip s) with
    | error e => rw [hv] at h; cases h
    | ok r =>
      obtain ⟨value, rest⟩ := r
      simp only [hv] at h
      split at h
      · rename_i hrest
        have hmoves := ((moves_skip s).trans (scanValue_moves hv)).trans (moves_skip rest)
        rw [hrest] at hmoves
        obtain ⟨u, hu, htrack⟩ := hmoves
        rw [hu, List.append_nil, htrack]
        simp
      · cases h

end

/-! ### What the writer leaves open -/

/-- A text that ends outside strings, on the level where it began, and does not fall below. -/
def Steady (u : Str) : Prop :=
  ∀ n, track ⟨.outside, n⟩ u = ⟨.outside, n⟩ ∧
    ∀ p, p <+: u → n ≤ (track ⟨.outside, n⟩ p).level

theorem prefix_append_cases {α : Type} {p u v : List α} (h : p <+: u ++ v) :
    p <+: u ∨ ∃ q, q <+: v ∧ p = u ++ q := by
  obtain ⟨r, hr⟩ := h
  rcases List.append_eq_append_iff.mp hr with ⟨q, rfl, _⟩ | ⟨q, rfl, hq⟩
  · exact Or.inl (List.prefix_append p q)
  · exact Or.inr ⟨q, ⟨r, hq.symm⟩, rfl⟩

section
variable {u v : Str}

theorem Steady.nil : Steady [] := fun n =>
  ⟨rfl, fun p hp => by rw [List.prefix_nil.mp hp]; exact le_rfl⟩

theorem Steady.append (hu : Steady u) (hv : Steady v) : Steady (u ++ v) := by
  intro n
  obtain ⟨hu, hup⟩ := hu n
  obtain ⟨hv, hvp⟩ := hv n
  refine ⟨by rw [track_append, hu, hv], fun p hp => ?_⟩
  rcases prefix_append_cases hp with hp | ⟨q, hq, rfl⟩
  · exact hup p hp
  · rw [track_append, hu]
    exact hvp q hq

theorem Steady.of_plain (h : ∀ c ∈ u, isPlain c = true) : Steady u := fun n =>
  ⟨track_plain h n, fun p hp => by rw [track_plain fun c hc => h c (hp.subset hc)]⟩

/-- Brackets around a steady text. -/
theorem Steady.wrap {b d : CodePoint} (hb : opens b = true) (hd : closes d = true)
    (h : Steady u) : Steady (b :: (u ++ [d])) := by
  intro n
  have hopen : feed ⟨.outside, n⟩ b = ⟨.outside, n + 1⟩ := by
    obtain ⟨w, hw, htrack⟩ := moves_open hb []
    obtain rfl : w = [b] := by simpa using hw.symm
    exact htrack n
  have hclose : feed ⟨.outside, n + 1⟩ d = ⟨.outside, n⟩ := by
    obtain ⟨w, hw, htrack⟩ := moves_close hd []
    obtain rfl : w = [d] := by simpa using hw.symm
    simpa using htrack (n + 1)
  obtain ⟨hu, hup⟩ := h (n + 1)
  refine ⟨by rw [track_cons, hopen, track_append, hu, track_cons, hclose, track_nil], ?_⟩
  intro p hp
  rcases List.prefix_cons_iff.mp hp with rfl | ⟨q, rfl, hq⟩
  · exact le_rfl
  · rw [track_cons, hopen]
    rcases prefix_append_cases hq with hq | ⟨r, hr, rfl⟩
    · exact (Int.le_add_one le_rfl).trans (hup q hq)
    · rw [track_append, hu]
      rcases List.prefix_cons_iff.mp hr with rfl | ⟨w, rfl, hw⟩
      · exact Int.le_add_one le_rfl
      · rw [List.prefix_nil.mp hw, track_cons, hclose]
        exact le_rfl

/-! Strings -/

/-- A part of a string that keeps to it. -/
def Quoted (u : Str) : Prop :=
  ∀ n, track ⟨.inside, n⟩ u = ⟨.inside, n⟩ ∧ ∀ p, p <+: u → (track ⟨.inside, n⟩ p).level = n

theorem Quoted.nil : Quoted [] := fun _ => ⟨rfl, fun p hp => by rw [List.prefix_nil.mp hp]; rfl⟩

theorem Quoted.append (hu : Quoted u) (hv : Quoted v) : Quoted (u ++ v) := by
  intro n
  obtain ⟨hu, hup⟩ := hu n
  obtain ⟨hv, hvp⟩ := hv n
  refine ⟨by rw [track_append, hu, hv], fun p hp => ?_⟩
  rcases prefix_append_cases hp with hp | ⟨q, hq, rfl⟩
  · exact hup p hp
  · rw [track_append, hu]
    exact hvp q hq

theorem Quoted.char {c : CodePoint} (hquote : c ≠ quote) (hslash : c ≠ backslash) :
    Quoted [c] := by
  intro n
  refine ⟨feed_inside hquote hslash n, fun p hp => ?_⟩
  rcases List.prefix_cons_iff.mp hp with rfl | ⟨q, rfl, hq⟩
  · rfl
  · rw [List.prefix_nil.mp hq, track_cons, feed_inside hquote hslash]
    rfl

theorem Quoted.escape (e : CodePoint) : Quoted [backslash, e] := by
  intro n
  have hslash : feed ⟨.inside, n⟩ backslash = ⟨.escaped, n⟩ := by
    have hquote : backslash ≠ quote := by decide
    simp [feed, hquote]
  refine ⟨track_escape e n, fun p hp => ?_⟩
  rcases List.prefix_cons_iff.mp hp with rfl | ⟨q, rfl, hq⟩
  · rfl
  · rw [track_cons, hslash]
    rcases List.prefix_cons_iff.mp hq with rfl | ⟨r, rfl, hr⟩
    · rfl
    · rw [List.prefix_nil.mp hr]
      rfl

theorem Quoted.hexDigits : ∀ {u : Str}, u.all isHexDigit = true → Quoted u
  | [], _ => .nil
  | c :: u, h => by
    have hquote : quote ∉ hexdigits := by decide
    have hslash : backslash ∉ hexdigits := by decide
    simp only [List.all_cons, Bool.and_eq_true] at h
    have hmem := isHexDigit_iff.mp h.1
    have hc : Quoted [c] := .char (fun hc => hquote (hc ▸ hmem)) (fun hc => hslash (hc ▸ hmem))
    exact hc.append (hexDigits h.2)

theorem quoted_escapeChar (c : CodePoint) : Quoted (escapeChar c) := by
  unfold escapeChar
  split
  · exact .escape _
  split
  · exact .escape _
  split
  · exact .escape _
  split
  · exact .escape _
  split
  · exact .escape _
  split
  · exact .escape _
  split
  · exact .escape _
  split
  · rename_i hlow
    obtain ⟨hhex, _⟩ := controlDigits c.val hlow
    exact (Quoted.escape (chr 'u')).append (.hexDigits hhex)
  · exact .char ‹_› ‹_›

theorem quoted_escaped : ∀ s : Str, Quoted (s.flatMap escapeChar)
  | [] => .nil
  | c :: s => by
    rw [List.flatMap_cons]
    exact (quoted_escapeChar c).append (quoted_escaped s)

theorem steady_stringText (s : Str) : Steady (stringText s) := by
  intro n
  obtain ⟨hs, hsp⟩ := quoted_escaped s n
  have hopen : feed ⟨.outside, n⟩ quote = ⟨.inside, n⟩ := by simp [feed]
  have hclose : feed ⟨.inside, n⟩ quote = ⟨.outside, n⟩ := by simp [feed]
  rw [stringText, List.cons_append]
  refine ⟨by rw [track_cons, hopen, track_append, hs, track_cons, hclose, track_nil], ?_⟩
  intro p hp
  rcases List.prefix_cons_iff.mp hp with rfl | ⟨q, rfl, hq⟩
  · exact le_rfl
  · rw [track_cons, hopen]
    rcases prefix_append_cases hq with hq | ⟨r, hr, rfl⟩
    · exact (hsp q hq).ge
    · rw [track_append, hs]
      rcases List.prefix_cons_iff.mp hr with rfl | ⟨w, rfl, hw⟩
      · exact le_rfl
      · rw [List.prefix_nil.mp hw, track_cons, hclose]
        exact le_rfl

/-! Values -/

theorem plain_natText (n : ℕ) : ∀ c ∈ natText n, isPlain c = true := by
  intro c hc
  exact isPlain_of_isDigit (isDigit_of_mem_natText hc)

theorem steady_intText (n : ℤ) : Steady (intText n) := by
  have hnat := Steady.of_plain (plain_natText n.natAbs)
  unfold intText
  split
  · exact (Steady.of_plain (u := [chr '-']) (by simp; decide)).append hnat
  · exact hnat

theorem plain_newline (level : ℕ) : ∀ c ∈ newline level, isPlain c = true :=
  fun c hc => isPlain_of_isBlank (blank_newline level c hc)

theorem steady_newline (level : ℕ) : Steady (newline level) := .of_plain (plain_newline level)

theorem steady_separator (level : ℕ) : Steady (separator level) :=
  (Steady.of_plain (u := [chr ',']) (by simp; decide)).append (steady_newline level)

theorem steady_member (key : Str) (hv : Steady v) : Steady (stringText key ++ (str ": " ++ v)) := by
  have hall : (str ": ").all isPlain = true := by decide
  have hcolon : Steady (str ": ") := .of_plain (List.all_eq_true.mp hall)
  exact (steady_stringText key).append (hcolon.append hv)

theorem texts_prefix {pre cs : List Chunk} (h : pre <+: cs) : texts pre <+: texts cs := by
  obtain ⟨suf, rfl⟩ := h
  rw [texts_append]
  exact List.prefix_append _ _

theorem loads_nil (maxDepth : ℕ) : loads maxDepth [] = .error .notJson := by
  simp [loads, skip, scanValue]

end

section
variable {floatRepr : Str → Str} (hfloat : ∀ s, ∀ c ∈ floatRepr s, isPlain c = true)

include hfloat

theorem steady_scalar {value : Value} {text : Str} (h : scalarText floatRepr value = some text)
    (limit level : ℕ) : Steady (texts (chunks floatRepr limit level value)) := by
  have hall : [str "null", str "true", str "false"].all (·.all isPlain) = true := by decide
  have hconst : ∀ s ∈ [str "null", str "true", str "false"], Steady s := fun s hs =>
    .of_plain (List.all_eq_true.mp (List.all_eq_true.mp hall s hs))
  have htext : Steady text := by
    cases value with
    | arr items => cases h
    | obj members => cases h
    | bool b => cases b <;> cases h <;> exact hconst _ (by simp)
    | null => cases h; exact hconst _ (by simp)
    | int n => cases h; exact steady_intText n
    | float s => cases h; exact .of_plain (hfloat s)
    | str s => cases h; exact steady_stringText s
  rw [chunks_scalar floatRepr limit level h]
  simpa using htext

set_option linter.unusedSectionVars false in
mutual

/-- The text of a value leaves no bracket open. -/
theorem steady_chunks : ∀ (limit level : ℕ) (value : Value),
    Steady (texts (chunks floatRepr limit level value))
  | 0, _, .arr _ => .nil
  | 0, _, .obj _ => .nil
  | _ + 1, _, .arr [] => Steady.wrap (b := chr '[') (d := chr ']') (by decide) (by decide) .nil
  | limit + 1, level, .arr (item :: items) => by
    have hitem := steady_chunks limit (level + 1) item
    have hitems := steady_itemChunks limit (level + 1) items
    have hbody := (((steady_newline (level + 1)).append hitem).append hitems).append
      (steady_newline level)
    have hwrap := hbody.wrap (b := chr '[') (d := chr ']') (by decide) (by decide)
    rw [chunks, texts_append, texts_itemChunks_lead]
    simpa using hwrap
  | _ + 1, _, .obj [] => Steady.wrap (b := chr '\x7b') (d := chr '\x7d') (by decide) (by decide) .nil
  | limit + 1, level, .obj ((key, value) :: members) => by
    have hvalue := steady_chunks limit (level + 1) value
    have hmembers := steady_memberChunks limit (level + 1) members
    have hbody := (((steady_newline (level + 1)).append (steady_member key hvalue)).append
      hmembers).append (steady_newline level)
    have hwrap := hbody.wrap (b := chr '\x7b') (d := chr '\x7d') (by decide) (by decide)
    rw [chunks, memberChunks]
    simpa using hwrap
  | limit, level, .null => steady_scalar hfloat rfl limit level
  | limit, level, .bool true => steady_scalar hfloat rfl limit level
  | limit, level, .bool false => steady_scalar hfloat rfl limit level
  | limit, level, .int _ => steady_scalar hfloat rfl limit level
  | limit, level, .float _ => steady_scalar hfloat rfl limit level
  | limit, level, .str _ => steady_scalar hfloat rfl limit level

/-- The items after the first one. -/
theorem steady_itemChunks : ∀ (limit level : ℕ) (items : List Value),
    Steady (texts (itemChunks floatRepr limit level (separator level) items))
  | _, _, [] => .nil
  | limit, level, item :: items => by
    have hitem := steady_chunks limit level item
    rw [texts_itemChunks_lead]
    exact (steady_separator level).append (hitem.append (steady_itemChunks limit level items))

/-- The members after the first one. -/
theorem steady_memberChunks : ∀ (limit level : ℕ) (members : List (Str × Value)),
    Steady (texts (memberChunks floatRepr limit level (separator level) members))
  | _, _, [] => .nil
  | limit, level, (key, value) :: members => by
    have hvalue := steady_chunks limit level value
    have hmember := ((steady_separator level).append (steady_member key hvalue)).append
      (steady_memberChunks limit level members)
    rw [memberChunks]
    simpa using hmember

end

/-- What a failed `json.dump` of an object leaves in the file is not read back. -/
theorem torn_not_loaded {limit : ℕ} {members : List (Str × Value)} (hne : members ≠ [])
    (h : (dumpLine floatRepr limit (.obj members)).2 ≠ none) {t : Str}
    (ht : utf8Decode (dumpLine floatRepr limit (.obj members)).1 = some t) (maxDepth : ℕ)
    (v : Value) : loads maxDepth t ≠ .ok v := by
  obtain ⟨member, rest, rfl⟩ := List.exists_cons_of_ne_nil hne
  cases limit with
  | zero =>
    obtain rfl : [] = t := Option.some.inj ht
    rw [loads_nil]
    exact fun h => (by cases h)
  | succ limit =>
    let body : List Chunk := .ok [chr '\x7b'] ::
      (memberChunks floatRepr limit 1 (newline 1) (member :: rest) ++ [.ok (newline 0)])
    have hdump : dumpLine floatRepr (limit + 1) (.obj (member :: rest)) =
        writeChunks (body ++ [.ok [chr '\x7d'], .ok [0x0A]]) := by
      simp [dumpLine, chunks, body]
    -- the closing brace and the line feed raise nothing
    have hbody : (writeChunks body).2 ≠ none := by
      intro hnone
      refine h ?_
      rw [hdump, writeChunks_ok_iff]
      intro c hc
      rcases List.mem_append.mp hc with hc | hc
      · exact (writeChunks_ok_iff body).mp hnone c hc
      · rcases List.mem_pair.mp hc with rfl | rfl
        · exact ⟨_, rfl, by decide⟩
        · exact ⟨_, rfl, by decide⟩
    rw [hdump, writeChunks_append hbody] at ht
    obtain ⟨pre, suf, hsplit, hbytes, _⟩ := writeChunks_spec body
    obtain rfl : texts pre = t := Option.some.inj ((utf8Decode_utf8Encode hbytes).symm.trans ht)
    intro hloads
    have hbalanced := loads_balanced hloads
    have hpre : texts pre <+: texts body := texts_prefix ⟨suf, hsplit.symm⟩
    have hinner : Steady (texts (memberChunks floatRepr limit 1 (newline 1) (member :: rest) ++
        [.ok (newline 0)])) := by
      obtain ⟨key, value⟩ := member
      have hmember := ((steady_newline 1).append
        (steady_member key (steady_chunks hfloat limit 1 value))).append
          (steady_memberChunks hfloat limit 1 rest)
      rw [memberChunks]
      simpa using hmember.append (steady_newline 0)
    rcases List.prefix_cons_iff.mp hpre with hnil | ⟨q, hq, hprefix⟩
    · rw [hnil, loads_nil] at hloads
      cases hloads
    · have hlevel := (hinner 1).2 q hprefix
      have hopen : feed ⟨.outside, 0⟩ (chr '\x7b') = ⟨.outside, 1⟩ := by
        decide
      rw [hq, track_cons, hopen] at hbalanced
      rw [hbalanced] at hlevel
      exact absurd hlevel (by decide)

end

end Json
