import SlimHub.Lib.Scanner

/-! JSON on one line, as `json.dumps(value, ensure_ascii=False)` writes it.

        value ──text──▶ one line ──loads──▶ the same value

    The line holds a surrogate exactly where a string of the value does (`noSurrogate_text`), and
    no line feed. A value without floats, whose integers the reader takes and whose keys differ, is
    read back (`loads_text`). -/

namespace Json
open Text

/-! ### What stands in a line -/

section
variable {floatRepr : Str → Str}

/-- What holds of each character of the parts and of the commas holds of the joined text. -/
theorem all_joined {p : CodePoint → Bool} (hcomma : (str ", ").all p = true) (parts : List Str) :
    ((str ", ").intercalate parts).all p = parts.all (·.all p) := by
  induction parts with
  | nil => rfl
  | cons part parts ih =>
    cases parts with
    | nil => simp
    | cons next parts =>
      rw [List.intercalate_cons_cons, List.all_append, List.all_append, ih, hcomma, Bool.and_true]
      rfl

theorem noSurrogate_joined (parts : List Str) :
    noSurrogate ((str ", ").intercalate parts) = parts.all noSurrogate :=
  all_joined (by decide) parts

variable (hfloat : ∀ s, noSurrogate (floatRepr s) = true)

include hfloat

set_option linter.unusedSectionVars false in
mutual

/-- The line of a value can be encoded just when the value is clean. -/
theorem noSurrogate_text : ∀ value : Value, noSurrogate (text floatRepr value) = clean value
  | .null => (by decide : noSurrogate (str "null") = true)
  | .bool true => (by decide : noSurrogate (str "true") = true)
  | .bool false => (by decide : noSurrogate (str "false") = true)
  | .int n => noSurrogate_intText n
  | .float s => hfloat s
  | .str s => noSurrogate_stringText s
  | .arr items => by
    have hopen : isSurrogate (chr '[') = false := by decide
    have hclose : isSurrogate (chr ']') = false := by decide
    simp [text, noSurrogate_joined, noSurrogate_itemTexts items, clean, hopen, hclose]
  | .obj members => by
    have hopen : isSurrogate (chr '\x7b') = false := by decide
    have hclose : isSurrogate (chr '\x7d') = false := by decide
    simp [text, noSurrogate_joined, noSurrogate_memberTexts members, clean, hopen, hclose]

theorem noSurrogate_itemTexts : ∀ items : List Value,
    (itemTexts floatRepr items).all noSurrogate = itemsClean items
  | [] => rfl
  | item :: items => by
    rw [itemTexts, List.all_cons, noSurrogate_text item, noSurrogate_itemTexts items, itemsClean]

theorem noSurrogate_memberTexts : ∀ members : List (Str × Value),
    (memberTexts floatRepr members).all noSurrogate = membersClean members
  | [] => rfl
  | (key, value) :: members => by
    have hcolon : noSurrogate (str ": ") = true := by decide
    rw [memberTexts, List.all_cons, noSurrogate_memberTexts members, membersClean,
      noSurrogate_append, noSurrogate_append, noSurrogate_stringText, hcolon,
      noSurrogate_text value, Bool.and_true]

end

end

/-- A line feed is not among the characters of a text. -/
def noNewline (s : Str) : Bool := s.all fun c => c.val ≠ 0x0A

@[simp] theorem noNewline_append (s t : Str) : noNewline (s ++ t) = (noNewline s && noNewline t) :=
  List.all_append

@[simp] theorem noNewline_cons (c : CodePoint) (s : Str) :
    noNewline (c :: s) = (decide (c.val ≠ 0x0A) && noNewline s) := rfl

@[simp] theorem noNewline_nil : noNewline [] = true := rfl

theorem noNewline_escapeChar (c : CodePoint) : noNewline (escapeChar c) = true := by
  have hslash : backslash.val ≠ 0x0A := by decide
  have hshort : ∀ d : CodePoint, d.val ≠ 0x0A → noNewline [backslash, d] = true := by
    intro d hd
    simp [hslash, hd]
  unfold escapeChar
  split
  · exact hshort _ (by decide)
  split
  · exact hshort _ (by decide)
  split
  · exact hshort _ (by decide)
  split
  · exact hshort _ (by decide)
  split
  · exact hshort _ (by decide)
  split
  · exact hshort _ (by decide)
  split
  · exact hshort _ (by decide)
  split
  · rename_i hlow
    have hdigits : ∀ n < 0x20, noNewline [backslash, chr 'u', chr '0', chr '0', digit (n / 16),
        if n % 16 < 10 then digit (n % 16) else Fin.ofNat _ (87 + n % 16)] = true := by decide
    exact hdigits c.val hlow
  · rename_i hfeed _ _ _ _ _
    simp [hfeed]

theorem noNewline_stringText (s : Str) : noNewline (stringText s) = true := by
  have hquote : quote.val ≠ 0x0A := by decide
  have hescaped : noNewline (s.flatMap escapeChar) = true := by
    induction s with
    | nil => rfl
    | cons c s ih => rw [List.flatMap_cons, noNewline_append, noNewline_escapeChar, ih]; rfl
  simp [stringText, hquote, hescaped]

theorem noNewline_intText (n : ℤ) : noNewline (intText n) = true := by
  have hminus : (chr '-').val ≠ 0x0A := by decide
  have hdigits : ∀ m, noNewline (natText m) = true := by
    intro m
    refine List.all_eq_true.mpr fun c hc => decide_eq_true ?_
    have hdigit := of_decide_eq_true (isDigit_of_mem_natText hc)
    omega
  unfold intText
  split <;> simp [hdigits, hminus]

theorem noNewline_joined (parts : List Str) :
    noNewline ((str ", ").intercalate parts) = parts.all noNewline :=
  all_joined (by decide) parts

section
variable {floatRepr : Str → Str} (hfloat : ∀ s, noNewline (floatRepr s) = true)

include hfloat

set_option linter.unusedSectionVars false in
mutual

/-- A value is written on one line. -/
theorem noNewline_text : ∀ value : Value, noNewline (text floatRepr value) = true
  | .null => (by decide : noNewline (str "null") = true)
  | .bool true => (by decide : noNewline (str "true") = true)
  | .bool false => (by decide : noNewline (str "false") = true)
  | .int n => noNewline_intText n
  | .float s => hfloat s
  | .str s => noNewline_stringText s
  | .arr items => by
    have hopen : (chr '[').val ≠ 0x0A := by decide
    have hclose : (chr ']').val ≠ 0x0A := by decide
    simp [text, noNewline_joined, noNewline_itemTexts items, hopen, hclose]
  | .obj members => by
    have hopen : (chr '\x7b').val ≠ 0x0A := by decide
    have hclose : (chr '\x7d').val ≠ 0x0A := by decide
    simp [text, noNewline_joined, noNewline_memberTexts members, hopen, hclose]

theorem noNewline_itemTexts : ∀ items : List Value,
    (itemTexts floatRepr items).all noNewline = true
  | [] => rfl
  | item :: items => by
    rw [itemTexts, List.all_cons, noNewline_text item, noNewline_itemTexts items]
    rfl

theorem noNewline_memberTexts : ∀ members : List (Str × Value),
    (memberTexts floatRepr members).all noNewline = true
  | [] => rfl
  | (key, value) :: members => by
    have hcolon : noNewline (str ": ") = true := by decide
    rw [memberTexts, List.all_cons, noNewline_memberTexts members, noNewline_append,
      noNewline_append, noNewline_stringText, hcolon, noNewline_text value]
    rfl

end

end

/-! ### Lines that are written -/

/-- A value within a nesting limit, and without a surrogate. -/
def Writes (depth : ℕ) (value : Value) : Prop := nesting value ≤ depth ∧ clean value = true

instance writesDecidable (depth : ℕ) (value : Value) : Decidable (Writes depth value) :=
  inferInstanceAs (Decidable (_ ∧ _))

section
variable {depth : ℕ}

@[simp] theorem writes_null : Writes depth .null := ⟨Nat.zero_le _, rfl⟩

@[simp] theorem writes_bool (b : Bool) : Writes depth (.bool b) := ⟨Nat.zero_le _, rfl⟩

@[simp] theorem writes_int (n : ℤ) : Writes depth (.int n) := ⟨Nat.zero_le _, rfl⟩

@[simp] theorem writes_float (s : Str) : Writes depth (.float s) := ⟨Nat.zero_le _, rfl⟩

@[simp] theorem writes_str (s : Str) : Writes depth (.str s) ↔ noSurrogate s = true := by
  simp [Writes, nesting, clean]

theorem writes_items : ∀ items : List Value,
    (itemsNesting items ≤ depth ∧ itemsClean items = true) ↔ ∀ item ∈ items, Writes depth item
  | [] => by simp [itemsNesting, itemsClean]
  | item :: items => by
    rw [List.forall_mem_cons, ← writes_items items, itemsNesting, itemsClean, Nat.max_le,
      Bool.and_eq_true, Writes]
    tauto

theorem writes_members : ∀ members : List (Str × Value),
    (membersNesting members ≤ depth ∧ membersClean members = true) ↔
      ∀ m ∈ members, noSurrogate m.1 = true ∧ Writes depth m.2
  | [] => by simp [membersNesting, membersClean]
  | (key, value) :: members => by
    rw [List.forall_mem_cons, ← writes_members members, membersNesting, membersClean, Nat.max_le,
      Bool.and_eq_true, Bool.and_eq_true, Writes]
    tauto

@[simp] theorem writes_arr (items : List Value) :
    Writes (depth + 1) (.arr items) ↔ ∀ item ∈ items, Writes depth item := by
  rw [← writes_items, Writes, nesting, clean, Nat.add_comm 1, Nat.add_le_add_iff_right]

@[simp] theorem writes_obj (members : List (Str × Value)) :
    Writes (depth + 1) (.obj members) ↔
      ∀ m ∈ members, noSurrogate m.1 = true ∧ Writes depth m.2 := by
  rw [← writes_members, Writes, nesting, clean, Nat.add_comm 1, Nat.add_le_add_iff_right]

end

/-! ### Reading a line back -/

mutual

/-- A value that is read as it was written: without floats, with integers that `int` takes back, and
    every key of an object once. -/
def Exact : Value → Prop
  | .int n => (natText n.natAbs).length ≤ maxIntDigits
  | .float _ => False
  | .arr items => ItemsExact items
  | .obj members => (members.map Prod.fst).Nodup ∧ MembersExact members
  | _ => True

def ItemsExact : List Value → Prop
  | [] => True
  | item :: items => Exact item ∧ ItemsExact items

def MembersExact : List (Str × Value) → Prop
  | [] => True
  | (_, value) :: members => Exact value ∧ MembersExact members

end

section
variable {floatRepr : Str → Str}

/-- The text of the items of an array, or of the members of an object, and what closes it. -/
theorem intercalate_tail (p q : Str) (parts : List Str) (rest : Str) :
    (str ", ").intercalate (p :: q :: parts) ++ rest =
      p ++ chr ',' :: chr ' ' :: ((str ", ").intercalate (q :: parts) ++ rest) := by
  have hcomma : str ", " = [chr ',', chr ' '] := rfl
  rw [List.intercalate_cons_cons, hcomma]
  simp

mutual

/-- The reader takes the text of a value for the value. -/
theorem scanValue_text : ∀ {value : Value}, Exact value → ∀ {fuel depth : ℕ} {rest : Str},
    Ends rest → nesting value ≤ depth → 2 * (text floatRepr value ++ rest).length < fuel →
    scanValue fuel depth (text floatRepr value ++ rest) = .ok (value, rest)
  | _, _, 0, _, _, _, _, hfuel => absurd hfuel (Nat.not_lt_zero _)
  | .null, _, fuel + 1, depth, rest, _, _, _ => scanValue_other (by decide) fuel depth _
  | .bool true, _, fuel + 1, depth, rest, _, _, _ => scanValue_other (by decide) fuel depth _
  | .bool false, _, fuel + 1, depth, rest, _, _, _ => scanValue_other (by decide) fuel depth _
  | .int n, hexact, fuel + 1, depth, rest, hends, _, _ => scanValue_int hexact hends fuel depth
  | .float s, hexact, _ + 1, _, _, _, _, _ => hexact.elim
  | .str s, _, fuel + 1, depth, rest, _, _, _ => scanValue_stringText fuel depth s rest
  | .arr [], _, fuel + 1, 0, _, _, hdepth, _ => absurd hdepth (by simp [nesting])
  | .obj [], _, fuel + 1, 0, _, _, hdepth, _ => absurd hdepth (by simp [nesting])
  | .arr (_ :: _), _, fuel + 1, 0, _, _, hdepth, _ => absurd hdepth (by simp [nesting])
  | .obj (_ :: _), _, fuel + 1, 0, _, _, hdepth, _ => absurd hdepth (by simp [nesting])
  | .arr [], _, fuel + 1, depth + 1, rest, _, _, _ => by
    have hbracket : chr '[' ≠ quote ∧ chr '[' ≠ chr '\x7b' := by decide
    have hskip : skip (chr ']' :: rest) = chr ']' :: rest := skip_of_head (by decide) rest
    have htext : text floatRepr (.arr []) ++ rest = chr '[' :: chr ']' :: rest := rfl
    rw [htext, scanValue.eq_def]
    simp [hbracket, hskip, expect]
  | .arr (item :: items), hexact, fuel + 1, depth + 1, rest, _, hdepth, hfuel => by
    have htext : text floatRepr (.arr (item :: items)) ++ rest = chr '[' ::
        ((str ", ").intercalate (itemTexts floatRepr (item :: items)) ++ chr ']' :: rest) := by
      simp [text]
    have hitems := @scanItems_text (item :: items) (List.cons_ne_nil _ _) hexact fuel depth [] rest
      (by simp only [nesting] at hdepth; omega)
      (by rw [htext, List.length_cons] at hfuel; omega)
    rw [htext]
    exact scanValue_arr blank_nil hitems
  | .obj [], _, fuel + 1, depth + 1, rest, _, _, _ => by
    have hbrace : chr '\x7b' ≠ quote := by decide
    have hskip : skip (chr '\x7d' :: rest) = chr '\x7d' :: rest := skip_of_head (by decide) rest
    have htext : text floatRepr (.obj []) ++ rest = chr '\x7b' :: chr '\x7d' :: rest := rfl
    rw [htext, scanValue.eq_def]
    simp [hbrace, hskip, expect]
  | .obj (member :: members), hexact, fuel + 1, depth + 1, rest, _, hdepth, hfuel => by
    have htext : text floatRepr (.obj (member :: members)) ++ rest = chr '\x7b' ::
        ((str ", ").intercalate (memberTexts floatRepr (member :: members)) ++
          chr '\x7d' :: rest) := by
      simp [text]
    have hmembers := @scanMembers_text (member :: members) (List.cons_ne_nil _ _) hexact.2 fuel
      depth [] rest hexact.1 (by simp only [nesting] at hdepth; omega)
      (by rw [htext, List.length_cons] at hfuel; omega)
    rw [htext]
    exact scanValue_obj blank_nil hmembers

theorem scanItems_text : ∀ {items : List Value}, items ≠ [] → ItemsExact items →
    ∀ {fuel depth : ℕ} (acc : List Value) {rest : Str}, itemsNesting items ≤ depth →
    2 * ((str ", ").intercalate (itemTexts floatRepr items) ++ chr ']' :: rest).length + 1 < fuel →
    scanItems fuel depth acc
        ((str ", ").intercalate (itemTexts floatRepr items) ++ chr ']' :: rest) =
      .ok (.arr (acc ++ items), rest)
  | [], hne, _, _, _, _, _, _, _ => absurd rfl hne
  | _ :: _, _, _, 0, _, _, _, _, hfuel => absurd hfuel (Nat.not_lt_zero _)
  | [item], _, hexact, fuel + 1, depth, acc, rest, hdepth, hfuel => by
    have hvalue := @scanValue_text item hexact.1 fuel depth (chr ']' :: rest) (ends_bracket rest)
      (by simp only [itemsNesting] at hdepth; omega)
      (by simp only [itemTexts, List.intercalate_singleton] at hfuel; omega)
    rw [itemTexts, itemTexts, List.intercalate_singleton]
    exact scanItems_last blank_nil hvalue
  | item :: next :: items, _, hexact, fuel + 1, depth, acc, rest, hdepth, hfuel => by
    have htail := intercalate_tail (text floatRepr item) (text floatRepr next)
      (itemTexts floatRepr items) (chr ']' :: rest)
    rw [itemTexts, itemTexts, htail] at hfuel ⊢
    rw [← itemTexts] at hfuel ⊢
    simp only [List.length_append, List.length_cons] at hfuel
    simp only [itemsNesting] at hdepth
    have hvalue := @scanValue_text item hexact.1 fuel depth _ (ends_comma (chr ' ' ::
      ((str ", ").intercalate (itemTexts floatRepr (next :: items)) ++ chr ']' :: rest)))
      (by omega) (by simp only [List.length_append, List.length_cons]; omega)
    have hitems := @scanItems_text (next :: items) (List.cons_ne_nil _ _) hexact.2 fuel depth
      (acc ++ [item]) rest (by simp only [itemsNesting]; omega)
      (by simp only [List.length_append, List.length_cons]; omega)
    rw [scanItems_next blank_space hvalue hitems, List.append_assoc]
    rfl

theorem scanMembers_text : ∀ {members : List (Str × Value)}, members ≠ [] →
    MembersExact members → ∀ {fuel depth : ℕ} (acc : List (Str × Value)) {rest : Str},
    ((acc ++ members).map Prod.fst).Nodup → membersNesting members ≤ depth →
    2 * ((str ", ").intercalate (memberTexts floatRepr members) ++ chr '\x7d' :: rest).length + 1 <
      fuel →
    scanMembers fuel depth acc
        ((str ", ").intercalate (memberTexts floatRepr members) ++ chr '\x7d' :: rest) =
      .ok (.obj (acc ++ members), rest)
  | [], hne, _, _, _, _, _, _, _, _ => absurd rfl hne
  | _ :: _, _, _, 0, _, _, _, _, _, hfuel => absurd hfuel (Nat.not_lt_zero _)
  | [(key, value)], _, hexact, fuel + 1, depth, acc, rest, hnodup, hdepth, hfuel => by
    simp only [memberTexts, List.intercalate_singleton, List.append_assoc] at hfuel ⊢
    simp only [List.length_append] at hfuel
    have hvalue := @scanValue_text value hexact.1 fuel depth (chr '\x7d' :: rest) (ends_brace rest)
      (by simp only [membersNesting] at hdepth; omega)
      (by rw [List.length_append]; omega)
    exact scanMembers_last blank_nil (key_not_mem hnodup) hvalue
  | (key, value) :: (nextKey, next) :: members, _, hexact, fuel + 1, depth, acc, rest, hnodup, hdepth,
      hfuel => by
    have htail := intercalate_tail (stringText key ++ str ": " ++ text floatRepr value)
      (stringText nextKey ++ str ": " ++ text floatRepr next) (memberTexts floatRepr members)
      (chr '\x7d' :: rest)
    rw [memberTexts, memberTexts, htail] at hfuel ⊢
    rw [← memberTexts] at hfuel ⊢
    simp only [List.length_append, List.length_cons] at hfuel
    simp only [membersNesting] at hdepth
    have hvalue := @scanValue_text value hexact.1 fuel depth _ (ends_comma (chr ' ' ::
      ((str ", ").intercalate (memberTexts floatRepr ((nextKey, next) :: members)) ++ chr '\x7d' :: rest)))
      (by omega) (by simp only [List.length_append, List.length_cons]; omega)
    have hmembers := @scanMembers_text ((nextKey, next) :: members) (List.cons_ne_nil _ _) hexact.2 fuel depth
      (acc ++ [(key, value)]) rest (by rw [List.append_assoc]; exact hnodup)
      (by simp only [membersNesting]; omega)
      (by simp only [List.length_append, List.length_cons]; omega)
    rw [List.append_assoc, List.append_assoc,
      scanMembers_next blank_space (key_not_mem hnodup) hvalue hmembers, List.append_assoc]
    rfl

end

/-- A line with a value, and the line feed after it or not, is read as the value. -/
theorem loads_text {value : Value} (hexact : Exact value) {maxDepth : ℕ}
    (hdepth : nesting value ≤ maxDepth) {rest : Str} (hrest : rest = [] ∨ rest = [0x0A]) :
    loads maxDepth (text floatRepr value ++ rest) = .ok value := by
  have hends : Ends rest := by
    rcases hrest with rfl | rfl
    · exact .nil
    · exact .cons [] (by decide)
  have hskip : skip rest = [] := by
    rcases hrest with rfl | rfl <;> decide
  exact loads_of_scanValue (scanValue_text hexact hends hdepth (by omega)) hskip

end

end Json
