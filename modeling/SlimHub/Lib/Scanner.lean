import SlimHub.Lib.Balance

/-! The reader's steps, forward: what it makes of a text that starts with a value.

    `Ends` says what may stand after a number. An array or an object is taken apart item by item and
    member by member, whatever blanks stand between them. -/

namespace Json
open Text

/-! ### Numbers -/

/-- What may follow a number: nothing that would belong to it. -/
def Ends (rest : Str) : Prop :=
  ∀ c ∈ rest.head?, isDigit c = false ∧ c ≠ chr '.' ∧ c ≠ chr 'e' ∧ c ≠ chr 'E'

theorem Ends.nil : Ends [] := by
  intro c hc
  cases hc

theorem Ends.cons {c : CodePoint} (s : Str)
    (hc : isDigit c = false ∧ c ≠ chr '.' ∧ c ≠ chr 'e' ∧ c ≠ chr 'E') : Ends (c :: s) := by
  intro d hd
  obtain rfl := Option.mem_some_iff.mp hd
  exact hc

theorem takeWhile_natText {digits rest : Str} (hdigits : ∀ c ∈ digits, isDigit c = true)
    (hrest : Ends rest) : (digits ++ rest).takeWhile isDigit = digits ∧
      (digits ++ rest).dropWhile isDigit = rest := by
  have hstop : rest.takeWhile isDigit = [] ∧ rest.dropWhile isDigit = rest := by
    cases rest with
    | nil => exact ⟨rfl, rfl⟩
    | cons c s =>
      have hc := (hrest c rfl).1
      simp [hc]
  constructor
  · rw [List.takeWhile_append_of_pos hdigits, hstop.1, List.append_nil]
  · rw [List.dropWhile_append_of_pos hdigits, hstop.2]

theorem scanFraction_of_ends {rest : Str} (h : Ends rest) : scanFraction rest = ([], rest) := by
  cases rest with
  | nil => rfl
  | cons c s => rw [scanFraction, if_neg fun hc => (h c rfl).2.1 hc.1]

theorem scanExponent_of_ends {rest : Str} (h : Ends rest) : scanExponent rest = ([], rest) := by
  cases rest with
  | nil => rfl
  | cons c s =>
    simp only [scanExponent]
    rw [if_neg fun hc => hc.1.elim (h c rfl).2.2.1 (h c rfl).2.2.2]

/-- An integer in decimal is scanned as its sign and its digits. -/
theorem scanWhole_intText (n : ℤ) {rest : Str} (h : Ends rest) :
    scanWhole (intText n ++ rest) = some (decide (n < 0), natText n.natAbs, rest) := by
  have hzero : chr '0' ≠ chr '-' := by decide
  have hminus : isDigit (chr '-') = false := by decide
  have hall : ∀ c ∈ natText n.natAbs, isDigit c = true := fun c => isDigit_of_mem_natText
  rcases natText_cases n.natAbs with ⟨_, hs⟩ | ⟨c, s, hs, hc⟩
  · by_cases hneg : n < 0
    · simp [intText, scanWhole, hneg, hs]
    · simp [intText, scanWhole, hneg, hs, hzero]
  · rw [hs] at hall
    have hdigit := hall c List.mem_cons_self
    have hne : c ≠ chr '-' := by
      rintro rfl
      rw [hminus] at hdigit
      cases hdigit
    obtain ⟨htake, hdrop⟩ := takeWhile_natText (fun d hd => hall d (List.mem_cons_of_mem c hd)) h
    by_cases hneg : n < 0
    · simp [intText, scanWhole, hneg, hs, hc, hdigit, htake, hdrop]
    · simp [intText, scanWhole, hneg, hs, hc, hne, hdigit, htake, hdrop]

theorem scanNumber_intText {n : ℤ} (hn : (natText n.natAbs).length ≤ maxIntDigits) {rest : Str}
    (h : Ends rest) : scanNumber (intText n ++ rest) = .ok (.int n, rest) := by
  have hvalue : (if decide (n < 0) = true then -(decNat (natText n.natAbs) : ℤ)
      else (decNat (natText n.natAbs) : ℤ)) = n := by
    rw [decNat_natText]
    by_cases hneg : n < 0
    · rw [if_pos (decide_eq_true hneg)]
      omega
    · rw [if_neg (by simpa using hneg)]
      omega
  have hshort : ¬(natText n.natAbs).length > maxIntDigits := Nat.not_lt.mpr hn
  rw [scanNumber, scanWhole_intText n h]
  simp only [scanFraction_of_ends h, scanExponent_of_ends h, and_self, if_true, if_neg hshort,
    hvalue]

/-- No literal starts as an integer does. -/
theorem scanConstant_intText (n : ℤ) (rest : Str) : scanConstant (intText n ++ rest) = none := by
  have hliterals : ∀ k ∈ constants, ∃ a b s, k.1 = a :: b :: s ∧ isDigit a = false ∧
      (a = chr '-' → isDigit b = false) := by
    simp only [constants, List.forall_mem_cons]
    exact ⟨⟨_, _, _, rfl, by decide, by decide⟩, ⟨_, _, _, rfl, by decide, by decide⟩,
      ⟨_, _, _, rfl, by decide, by decide⟩, ⟨_, _, _, rfl, by decide, by decide⟩,
      ⟨_, _, _, rfl, by decide, by decide⟩, ⟨_, _, _, rfl, by decide, by decide⟩,
      List.forall_mem_nil _⟩
  obtain ⟨c, s, hc, hs⟩ : ∃ c s, isDigit c = true ∧ natText n.natAbs ++ rest = c :: s := by
    obtain ⟨c, s, hs⟩ := List.exists_cons_of_ne_nil (natText_ne_nil n.natAbs)
    have hc : c ∈ natText n.natAbs := by rw [hs]; exact List.mem_cons_self
    exact ⟨c, s ++ rest, isDigit_of_mem_natText hc, by rw [hs, List.cons_append]⟩
  rw [scanConstant, Option.map_eq_none_iff, List.find?_eq_none]
  intro k hk hpre
  obtain ⟨a, b, more, hab, ha, hb⟩ := hliterals k hk
  rw [hab, List.isPrefixOf_iff_prefix] at hpre
  by_cases hneg : n < 0
  · rw [intText, if_pos hneg, List.cons_append, hs, List.cons_prefix_cons,
      List.cons_prefix_cons] at hpre
    obtain ⟨rfl, rfl, _⟩ := hpre
    rw [hb rfl] at hc
    cases hc
  · rw [intText, if_neg hneg, hs, List.cons_prefix_cons] at hpre
    obtain ⟨rfl, _⟩ := hpre
    rw [ha] at hc
    cases hc

/-! ### Starts -/

/-- A text that does not start with a blank. -/
theorem skip_of_head {c : CodePoint} (hc : isBlank c = false) (s : Str) : skip (c :: s) = c :: s :=
  @skip_blanks [] (by simp) c hc s

theorem scanValue_other {c : CodePoint} (hc : c ≠ quote ∧ c ≠ chr '\x7b' ∧ c ≠ chr '[')
    (fuel depth : ℕ) (s : Str) : scanValue (fuel + 1) depth (c :: s) =
      match scanConstant (c :: s) with
      | some r => .ok r
      | none => scanNumber (c :: s) := by
  obtain ⟨hquote, hbrace, hbracket⟩ := hc
  rw [scanValue.eq_def]
  cases hconstant : scanConstant (c :: s) <;>
    simp only [if_neg hquote, if_neg hbrace, if_neg hbracket, hconstant]

theorem scanValue_int {n : ℤ} (hn : (natText n.natAbs).length ≤ maxIntDigits) {rest : Str}
    (h : Ends rest) (fuel depth : ℕ) :
    scanValue (fuel + 1) depth (intText n ++ rest) = .ok (.int n, rest) := by
  have hconstant := scanConstant_intText n rest
  have hnumber := scanNumber_intText hn h
  have hdigit : ∀ c : CodePoint, isDigit c = true →
      c ≠ quote ∧ c ≠ chr '\x7b' ∧ c ≠ chr '[' := by
    intro c hc
    refine ⟨?_, ?_, ?_⟩
    all_goals
      rintro rfl
      exact absurd hc (by decide)
  obtain ⟨c, s, hs, hc⟩ : ∃ c s, intText n ++ rest = c :: s ∧
      c ≠ quote ∧ c ≠ chr '\x7b' ∧ c ≠ chr '[' := by
    by_cases hneg : n < 0
    · exact ⟨chr '-', natText n.natAbs ++ rest, by rw [intText, if_pos hneg]; rfl, by decide⟩
    · obtain ⟨c, s, hs⟩ := List.exists_cons_of_ne_nil (natText_ne_nil n.natAbs)
      have hc : c ∈ natText n.natAbs := by rw [hs]; exact List.mem_cons_self
      exact ⟨c, s ++ rest, by rw [intText, if_neg hneg, hs]; rfl,
        hdigit c (isDigit_of_mem_natText hc)⟩
  rw [hs] at hconstant hnumber ⊢
  rw [scanValue_other hc, hconstant]
  exact hnumber

theorem blank_nil : ∀ c ∈ ([] : Str), isBlank c = true := List.forall_mem_nil _

theorem blank_space : ∀ c ∈ [chr ' '], isBlank c = true := by
  intro c hc
  rw [List.mem_singleton.mp hc]
  decide

theorem skip_space {c : CodePoint} (hc : isBlank c = false) (s : Str) :
    skip (chr ' ' :: c :: s) = c :: s :=
  skip_blanks blank_space hc s

theorem ends_comma (s : Str) : Ends (chr ',' :: s) := .cons s (by decide)

theorem ends_bracket (s : Str) : Ends (chr ']' :: s) := .cons s (by decide)

theorem ends_brace (s : Str) : Ends (chr '\x7d' :: s) := .cons s (by decide)

/-- No value starts with a blank or a closing bracket. -/
theorem head_of_scanValue {fuel depth : ℕ} {s : Str} {r : Value × Str}
    (h : scanValue fuel depth s = .ok r) : ∃ c t, s = c :: t ∧ isBlank c = false ∧
      c ≠ chr ']' ∧ c ≠ 0xFEFF := by
  cases fuel with
  | zero => cases h
  | succ fuel =>
    cases s with
    | nil => cases h
    | cons c t =>
      have hbad : ∀ d : CodePoint, scanValue (fuel + 1) depth (d :: t) = .error .notJson → c ≠ d := by
        rintro d hd rfl
        rw [hd] at h
        cases h
      have hspace : c ≠ 0x20 := hbad _ ((scanValue_other (by decide) _ _ _).trans rfl)
      have htab : c ≠ 0x09 := hbad _ ((scanValue_other (by decide) _ _ _).trans rfl)
      have hfeed : c ≠ 0x0A := hbad _ ((scanValue_other (by decide) _ _ _).trans rfl)
      have hreturn : c ≠ 0x0D := hbad _ ((scanValue_other (by decide) _ _ _).trans rfl)
      refine ⟨c, t, rfl, ?_, hbad _ ((scanValue_other (by decide) _ _ _).trans rfl),
        hbad _ ((scanValue_other (by decide) _ _ _).trans rfl)⟩
      rw [isBlank, decide_eq_false_iff_not]
      rintro (hval | hval | hval | hval)
      · exact hspace (Fin.ext hval)
      · exact htab (Fin.ext hval)
      · exact hfeed (Fin.ext hval)
      · exact hreturn (Fin.ext hval)

theorem head_of_scanItems {fuel depth : ℕ} {acc : List Value} {s : Str} {r : Value × Str}
    (h : scanItems fuel depth acc s = .ok r) : ∃ c t, s = c :: t ∧ isBlank c = false ∧
      c ≠ chr ']' ∧ c ≠ 0xFEFF := by
  cases fuel with
  | zero => cases h
  | succ fuel =>
    rw [scanItems] at h
    cases hv : scanValue fuel depth s with
    | error e => rw [hv] at h; cases h
    | ok r => exact head_of_scanValue hv

theorem head_of_scanMembers {fuel depth : ℕ} {acc : List (Str × Value)} {s : Str}
    {r : Value × Str} (h : scanMembers fuel depth acc s = .ok r) : ∃ t, s = quote :: t := by
  cases fuel with
  | zero => cases h
  | succ fuel =>
    rw [scanMembers] at h
    cases he : expect quote s with
    | error e => rw [he] at h; cases h
    | ok t => exact ⟨t, moves_expect he⟩

/-! ### Arrays and objects -/

theorem key_not_mem {acc members : List (Str × Value)} {key : Str} {value : Value}
    (h : ((acc ++ (key, value) :: members).map Prod.fst).Nodup) : key ∉ acc.map Prod.fst := by
  intro hkey
  rw [List.map_append] at h
  exact (List.nodup_append.mp h).2.2 key hkey key List.mem_cons_self rfl

section
variable {fuel depth : ℕ} {blanks : Str} (hblanks : ∀ c ∈ blanks, isBlank c = true)

include hblanks

/-- An array that has items, with blanks after its bracket. -/
theorem scanValue_arr {s : Str} {r : Value × Str} (h : scanItems fuel depth [] s = .ok r) :
    scanValue (fuel + 1) (depth + 1) (chr '[' :: (blanks ++ s)) = .ok r := by
  have hbracket : chr '[' ≠ quote ∧ chr '[' ≠ chr '\x7b' := by decide
  obtain ⟨c, t, rfl, hblank, hne, _⟩ := head_of_scanItems h
  rw [scanValue.eq_def]
  simp only [hbracket, if_true, if_false, skip_blanks hblanks hblank, expect, hne, h]

theorem scanValue_obj {s : Str} {r : Value × Str} (h : scanMembers fuel depth [] s = .ok r) :
    scanValue (fuel + 1) (depth + 1) (chr '\x7b' :: (blanks ++ s)) = .ok r := by
  have hbrace : chr '\x7b' ≠ quote := by decide
  have hquote : isBlank quote = false ∧ quote ≠ chr '\x7d' := by decide
  obtain ⟨t, rfl⟩ := head_of_scanMembers h
  rw [scanValue.eq_def]
  simp only [hbrace, if_true, if_false, skip_blanks hblanks hquote.1, expect, hquote.2, h]

/-- The last item. -/
theorem scanItems_last {item : Value} {acc : List Value} {s rest : Str}
    (h : scanValue fuel depth s = .ok (item, blanks ++ chr ']' :: rest)) :
    scanItems (fuel + 1) depth acc s = .ok (.arr (acc ++ [item]), rest) := by
  have hskip := skip_blanks (c := chr ']') hblanks (by decide) rest
  rw [scanItems, h]
  simp only [hskip, if_true]

/-- An item with another one after it. -/
theorem scanItems_next {item : Value} {acc : List Value} {s t : Str} {r : Value × Str}
    (h : scanValue fuel depth s = .ok (item, chr ',' :: (blanks ++ t)))
    (hnext : scanItems fuel depth (acc ++ [item]) t = .ok r) :
    scanItems (fuel + 1) depth acc s = .ok r := by
  have hcomma : chr ',' ≠ chr ']' := by decide
  obtain ⟨c, u, rfl, hblank, _⟩ := head_of_scanItems hnext
  rw [scanItems, h]
  simp only [skip_of_head (c := chr ',') (by decide), if_neg hcomma, if_true,
    skip_blanks hblanks hblank, hnext]

omit hblanks in
/-- One member, up to the comma or brace after it. -/
theorem scanMembers_one {key s t : Str} {value : Value} {acc : List (Str × Value)}
    (h : scanValue fuel depth s = .ok (value, t)) :
    scanMembers (fuel + 1) depth acc (stringText key ++ (str ": " ++ s)) =
      match skip t with
      | [] => .error .notJson
      | c :: s =>
        if c = chr '\x7d' then .ok (.obj (Dict.put key value acc), s)
        else if c = chr ',' then scanMembers fuel depth (Dict.put key value acc) (skip s)
        else .error .notJson := by
  have hcolon : str ": " = [chr ':', chr ' '] := rfl
  obtain ⟨c, u, rfl, hblank, _⟩ := head_of_scanValue h
  rw [scanMembers]
  cases hskip : skip t <;>
    simp only [stringText, hcolon, List.cons_append, List.nil_append, List.append_assoc, expect,
      if_true, scanPieces_stringText, skip_of_head (c := chr ':') (by decide), joinPieces_piece,
      skip_space hblank, h, hskip]

theorem scanMembers_last {key s rest : Str} {value : Value} {acc : List (Str × Value)}
    (hkey : key ∉ acc.map Prod.fst)
    (h : scanValue fuel depth s = .ok (value, blanks ++ chr '\x7d' :: rest)) :
    scanMembers (fuel + 1) depth acc (stringText key ++ (str ": " ++ s)) =
      .ok (.obj (acc ++ [(key, value)]), rest) := by
  have hskip := skip_blanks (c := chr '\x7d') hblanks (by decide) rest
  rw [scanMembers_one h]
  simp only [hskip, if_true, put_of_not_mem hkey]

theorem scanMembers_next {key s t : Str} {value : Value} {acc : List (Str × Value)}
    {r : Value × Str} (hkey : key ∉ acc.map Prod.fst)
    (h : scanValue fuel depth s = .ok (value, chr ',' :: (blanks ++ t)))
    (hnext : scanMembers fuel depth (acc ++ [(key, value)]) t = .ok r) :
    scanMembers (fuel + 1) depth acc (stringText key ++ (str ": " ++ s)) = .ok r := by
  have hcomma : chr ',' ≠ chr '\x7d' := by decide
  obtain ⟨u, rfl⟩ := head_of_scanMembers hnext
  rw [scanMembers_one h]
  simp only [skip_of_head (c := chr ',') (by decide), if_neg hcomma, if_true,
    skip_blanks (c := quote) hblanks (by decide), put_of_not_mem hkey, hnext]

end

/-- A text that is one value, and blanks after it. -/
theorem loads_of_scanValue {maxDepth : ℕ} {s rest : Str} {value : Value}
    (h : scanValue (2 * s.length + 1) maxDepth s = .ok (value, rest)) (hrest : skip rest = []) :
    loads maxDepth s = .ok value := by
  obtain ⟨c, t, rfl, hblank, _, hmark⟩ := head_of_scanValue h
  rw [loads, if_neg (by simpa using hmark), skip_of_head hblank, h]
  simp only [hrest, if_true]

end Json
