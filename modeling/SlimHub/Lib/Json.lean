import SlimHub.Lib.Dict
import SlimHub.Lib.Text

/-! JSON texts, as the Python standard library reads and writes them.

        loads: text ──scanValue──▶ value          dumps(ensure_ascii=False): value ──▶ text

    The reader keeps escaped lone surrogates, lets the last of several equal keys win, accepts NaN
    and the infinities, refuses integers of more than 4300 digits and gives up below a nesting
    depth. A float is kept as the text it was read from. Every scan consumes what it reads, which
    bounds the number of calls (`loads_ne_fuel`). -/

namespace Json
open Text

inductive Value where
  | null
  | bool (b : Bool)
  | int (n : ℤ)
  | float (text : Str)
  | str (s : Str)
  | arr (items : List Value)
  | obj (members : List (Str × Value))

/-- Why a text is not read: it is no JSON (`JSONDecodeError`), it nests too deeply
    (`RecursionError`), or an integer in it is too long (`ValueError`). -/
inductive Fault where
  | notJson
  | depth
  | digits
  | fuel
  deriving DecidableEq

def quote : CodePoint := 0x22
def backslash : CodePoint := 0x5C

/-- `[ \t\n\r]`. -/
def isBlank (c : CodePoint) : Bool := c.val = 0x20 ∨ c.val = 0x09 ∨ c.val = 0x0A ∨ c.val = 0x0D

/-- `[ \t\n\r]*`. -/
def skip (s : Str) : Str := s.dropWhile isBlank

/-- One required character. -/
def expect (c : CodePoint) : Str → Except Fault Str
  | [] => .error .notJson
  | d :: s => if d = c then .ok s else .error .notJson

/-! ### Strings -/

/-- A part of a string: a character, or the code unit of a `\uXXXX` escape. -/
inductive Piece where
  | char (c : CodePoint)
  | unit (n : ℕ)

/-- The one-letter escapes. -/
def escapes : List (CodePoint × CodePoint) :=
  [(quote, quote), (backslash, backslash), (chr '/', chr '/'), (chr 'b', 0x08), (chr 'f', 0x0C),
    (chr 'n', 0x0A), (chr 'r', 0x0D), (chr 't', 0x09)]

/-- A string after its opening quote, up to its closing one. -/
def scanPieces : Str → Except Fault (List Piece × Str)
  | [] => .error .notJson
  | c :: s =>
    if c = quote then .ok ([], s)
    else if c.val < 0x20 then .error .notJson
    else if c = backslash then
      match s with
      | [] => .error .notJson
      | e :: s =>
        if e = chr 'u' then
          match s with
          | h₁ :: h₂ :: h₃ :: h₄ :: s =>
            if [h₁, h₂, h₃, h₄].all isHexDigit then
              (scanPieces s).map fun r => (.unit (hexNat [h₁, h₂, h₃, h₄]) :: r.1, r.2)
            else .error .notJson
          | _ => .error .notJson
        else
          match escapes.lookup e with
          | none => .error .notJson
          | some c => (scanPieces s).map fun r => (.char c :: r.1, r.2)
    else (scanPieces s).map fun r => (.char c :: r.1, r.2)

def isHigh (n : ℕ) : Bool := 0xD800 ≤ n ∧ n ≤ 0xDBFF
def isLow (n : ℕ) : Bool := 0xDC00 ≤ n ∧ n ≤ 0xDFFF

/-- An escaped high surrogate joins an escaped low one right after it; others stay alone. -/
def joinPieces : List Piece → Str
  | [] => []
  | .char c :: ps => c :: joinPieces ps
  | .unit h :: .unit l :: ps =>
    if isHigh h ∧ isLow l then
      Fin.ofNat _ (0x10000 + (h - 0xD800) * 0x400 + (l - 0xDC00)) :: joinPieces ps
    else Fin.ofNat _ h :: joinPieces (.unit l :: ps)
  | .unit h :: ps => Fin.ofNat _ h :: joinPieces ps

/-! ### Numbers -/

/-- `-?(0|[1-9]\d*)`: the sign, the digits, and the rest. -/
def scanWhole (s : Str) : Option (Bool × Str × Str) :=
  let negative := s.head? = some (chr '-')
  match if negative then s.tail else s with
  | [] => none
  | c :: s =>
    if c = chr '0' then some (negative, [c], s)
    else if isDigit c then some (negative, c :: s.takeWhile isDigit, s.dropWhile isDigit)
    else none

/-- `(\.\d+)?`. -/
def scanFraction : Str → Str × Str
  | [] => ([], [])
  | c :: s =>
    if c = chr '.' ∧ s.takeWhile isDigit ≠ [] then (c :: s.takeWhile isDigit, s.dropWhile isDigit)
    else ([], c :: s)

/-- `([eE][-+]?\d+)?`. -/
def scanExponent : Str → Str × Str
  | [] => ([], [])
  | c :: s =>
    let sign := s.takeWhile (fun d => d = chr '-' ∨ d = chr '+') |>.take 1
    let digits := (s.drop sign.length).takeWhile isDigit
    if (c = chr 'e' ∨ c = chr 'E') ∧ digits ≠ [] then
      (c :: sign ++ digits, s.drop (sign.length + digits.length))
    else ([], c :: s)

/-- `sys.get_int_max_str_digits()`. -/
def maxIntDigits : ℕ := 4300

def scanNumber (s : Str) : Except Fault (Value × Str) :=
  match scanWhole s with
  | none => .error .notJson
  | some (negative, digits, s) =>
    let fraction := scanFraction s
    let exponent := scanExponent fraction.2
    if fraction.1 = [] ∧ exponent.1 = [] then
      if digits.length > maxIntDigits then .error .digits
      else .ok (.int (if negative then -decNat digits else decNat digits), exponent.2)
    else
      let sign := if negative then [chr '-'] else []
      .ok (.float (sign ++ digits ++ fraction.1 ++ exponent.1), exponent.2)

/-! ### Values -/

/-- The literals, with their values. -/
def constants : List (Str × Value) :=
  [(str "null", .null), (str "true", .bool true), (str "false", .bool false),
    (str "NaN", .float (str "NaN")), (str "Infinity", .float (str "Infinity")),
    (str "-Infinity", .float (str "-Infinity"))]

def scanConstant (s : Str) : Option (Value × Str) :=
  (constants.find? fun c => c.1.isPrefixOf s).map fun c => (c.2, s.drop c.1.length)

mutual

/-- `scan_once`: one value at the front of a text. -/
def scanValue : ℕ → ℕ → Str → Except Fault (Value × Str)
  | 0, _, _ => .error .fuel
  | _ + 1, _, [] => .error .notJson
  | fuel + 1, depth, c :: s =>
    if c = quote then (scanPieces s).map fun r => (.str (joinPieces r.1), r.2)
    else if c = chr '\x7b' then
      match depth with
      | 0 => .error .depth
      | depth + 1 =>
        match expect (chr '\x7d') (skip s) with
        | .ok s => .ok (.obj [], s)
        | .error _ => scanMembers fuel depth [] (skip s)
    else if c = chr '[' then
      match depth with
      | 0 => .error .depth
      | depth + 1 =>
        match expect (chr ']') (skip s) with
        | .ok s => .ok (.arr [], s)
        | .error _ => scanItems fuel depth [] (skip s)
    else
      match scanConstant (c :: s) with
      | some r => .ok r
      | none => scanNumber (c :: s)

/-- The items of an array that has some. -/
def scanItems : ℕ → ℕ → List Value → Str → Except Fault (Value × Str)
  | 0, _, _, _ => .error .fuel
  | fuel + 1, depth, items, s =>
    match scanValue fuel depth s with
    | .error e => .error e
    | .ok (item, s) =>
      match skip s with
      | [] => .error .notJson
      | c :: s =>
        if c = chr ']' then .ok (.arr (items ++ [item]), s)
        else if c = chr ',' then scanItems fuel depth (items ++ [item]) (skip s)
        else .error .notJson

/-- The members of an object that has some. -/
def scanMembers : ℕ → ℕ → List (Str × Value) → Str → Except Fault (Value × Str)
  | 0, _, _, _ => .error .fuel
  | fuel + 1, depth, members, s =>
    match expect quote s with
    | .error e => .error e
    | .ok s =>
      match scanPieces s with
      | .error e => .error e
      | .ok (key, s) =>
        match expect (chr ':') (skip s) with
        | .error e => .error e
        | .ok s =>
          match scanValue fuel depth (skip s) with
          | .error e => .error e
          | .ok (value, s) =>
            match skip s with
            | [] => .error .notJson
            | c :: s =>
              if c = chr '\x7d' then .ok (.obj (Dict.put (joinPieces key) value members), s)
              else if c = chr ',' then
                scanMembers fuel depth (Dict.put (joinPieces key) value members) (skip s)
              else .error .notJson

end

/-- `json.loads`, with the interpreter's nesting limit. -/
def loads (maxDepth : ℕ) (s : Str) : Except Fault Value :=
  if s.head? = some 0xFEFF then .error .notJson
  else
    match scanValue (2 * s.length + 1) maxDepth (skip s) with
    | .error e => .error e
    | .ok (value, rest) => if skip rest = [] then .ok value else .error .notJson

/-! ### Every scan consumes -/

/-- A scan that does not run out of fuel and consumes some of the text. -/
def Consumes {α : Type} (s : Str) : Except Fault (α × Str) → Prop
  | .error e => e ≠ .fuel
  | .ok (_, t) => t.length < s.length

theorem Consumes.map {α β : Type} {s t : Str} {r : Except Fault (α × Str)} (h : Consumes s r)
    (hst : s.length ≤ t.length) (f : α × Str → β) : Consumes t (r.map fun x => (f x, x.2)) := by
  cases r with
  | error e => exact h
  | ok x => exact lt_of_lt_of_le (h : x.2.length < s.length) hst

theorem length_skip_le (s : Str) : (skip s).length ≤ s.length :=
  (List.dropWhile_suffix _).length_le

theorem scanPieces_consumes (s : Str) : Consumes s (scanPieces s) := by
  have hsyntax : Fault.notJson ≠ .fuel := by decide
  fun_induction scanPieces s with
  | case1 => exact hsyntax
  | case2 => exact Nat.lt_succ_self _
  | case3 => exact hsyntax
  | case4 => exact hsyntax
  | case5 =>
    rename_i ih
    exact ih.map (by simp only [List.length_cons]; omega) _
  | case6 => exact hsyntax
  | case7 => exact hsyntax
  | case8 => exact hsyntax
  | case9 =>
    rename_i ih
    exact ih.map (by simp only [List.length_cons]; omega) _
  | case10 =>
    rename_i ih
    exact ih.map (Nat.le_succ _) _

theorem expect_cases (c : CodePoint) (s : Str) :
    expect c s = .error .notJson ∨ ∃ t, expect c s = .ok t ∧ t.length < s.length := by
  cases s with
  | nil => exact Or.inl rfl
  | cons d s =>
    rcases eq_or_ne d c with h | h
    · exact Or.inr ⟨s, if_pos h, Nat.lt_succ_self _⟩
    · exact Or.inl (if_neg h)

theorem length_scanFraction_le (s : Str) : (scanFraction s).2.length ≤ s.length := by
  cases s with
  | nil => exact le_rfl
  | cons c s =>
    rw [scanFraction]
    split
    · exact (List.dropWhile_suffix _).length_le.trans (Nat.le_succ _)
    · exact le_rfl

theorem length_scanExponent_le (s : Str) : (scanExponent s).2.length ≤ s.length := by
  cases s with
  | nil => exact le_rfl
  | cons c s =>
    simp only [scanExponent]
    split
    · rw [List.length_drop, List.length_cons]; omega
    · exact le_rfl

theorem length_scanWhole_lt {s t digits : Str} {negative : Bool}
    (h : scanWhole s = some (negative, digits, t)) : t.length < s.length := by
  have htail : ∀ (p : Prop) [Decidable p], (if p then s.tail else s).length ≤ s.length := by
    intro p _
    split
    · rw [List.length_tail]; omega
    · exact le_rfl
  simp only [scanWhole] at h
  split at h
  · cases h
  · rename_i c u hu
    have hlen := htail (s.head? = some (chr '-'))
    rw [hu, List.length_cons] at hlen
    split at h
    · cases h; omega
    · split at h
      · cases h
        have := (List.dropWhile_suffix (l := u) isDigit).length_le
        omega
      · cases h

theorem scanNumber_consumes (s : Str) : Consumes s (scanNumber s) := by
  unfold scanNumber
  cases h : scanWhole s with
  | none => exact (by decide : Fault.notJson ≠ .fuel)
  | some r =>
    obtain ⟨negative, digits, t⟩ := r
    have hlt := length_scanWhole_lt h
    have hrest : (scanExponent (scanFraction t).2).2.length < s.length :=
      ((length_scanExponent_le _).trans (length_scanFraction_le t)).trans_lt hlt
    simp only
    split
    · split
      · exact (by decide : Fault.digits ≠ .fuel)
      · exact hrest
    · exact hrest

theorem length_scanConstant_lt {s t : Str} {v : Value} (h : scanConstant s = some (v, t)) :
    t.length < s.length := by
  have hpos : ∀ c ∈ constants.map Prod.fst, 0 < c.length := by decide
  obtain ⟨c, hc, hr⟩ := Option.map_eq_some_iff.mp h
  obtain ⟨_, rfl⟩ := Prod.mk.inj hr
  have hpre : c.1 <+: s := List.isPrefixOf_iff_prefix.mp (by simpa using List.find?_some hc)
  have h0 := hpos c.1 (List.mem_map_of_mem (List.mem_of_find?_eq_some hc))
  have hle := hpre.length_le
  rw [List.length_drop]
  omega

theorem Consumes.of_le {α : Type} {s t : Str} {r : Except Fault (α × Str)} (h : Consumes s r)
    (hst : s.length ≤ t.length) : Consumes t r := by
  cases r with
  | error e => exact h
  | ok x => exact lt_of_lt_of_le (h : x.2.length < s.length) hst

mutual

theorem scanValue_consumes : ∀ (fuel depth : ℕ) (s : Str), 2 * s.length < fuel →
    Consumes s (scanValue fuel depth s)
  | 0, _, _, h => absurd h (Nat.not_lt_zero _)
  | _ + 1, _, [], _ => (by decide : Fault.notJson ≠ .fuel)
  | fuel + 1, depth, c :: s, h => by
    have hskip := length_skip_le s
    rw [List.length_cons] at h
    rw [scanValue.eq_def]
    simp only
    split
    · exact (scanPieces_consumes s).map (Nat.le_succ _) _
    · split
      · cases depth with
        | zero => exact (by decide : Fault.depth ≠ .fuel)
        | succ depth =>
          rcases expect_cases (chr '\x7d') (skip s) with he | ⟨t, he, ht⟩
          · simp only [he]
            exact (scanMembers_consumes fuel depth [] (skip s) (by omega)).of_le
              (hskip.trans (Nat.le_succ _))
          · simp only [he]
            exact (ht.trans_le hskip).trans (Nat.lt_succ_self _)
      · split
        · cases depth with
          | zero => exact (by decide : Fault.depth ≠ .fuel)
          | succ depth =>
            rcases expect_cases (chr ']') (skip s) with he | ⟨t, he, ht⟩
            · simp only [he]
              exact (scanItems_consumes fuel depth [] (skip s) (by omega)).of_le
                (hskip.trans (Nat.le_succ _))
            · simp only [he]
              exact (ht.trans_le hskip).trans (Nat.lt_succ_self _)
        · cases hc : scanConstant (c :: s) with
          | some r => exact length_scanConstant_lt hc
          | none => exact scanNumber_consumes (c :: s)

theorem scanItems_consumes : ∀ (fuel depth : ℕ) (items : List Value) (s : Str),
    2 * s.length + 1 < fuel → Consumes s (scanItems fuel depth items s)
  | 0, _, _, _, h => absurd h (Nat.not_lt_zero _)
  | fuel + 1, depth, items, s, h => by
    have hvalue := scanValue_consumes fuel depth s (by omega)
    rw [scanItems]
    cases hv : scanValue fuel depth s with
    | error e => rw [hv] at hvalue; exact hvalue
    | ok r =>
      obtain ⟨item, t⟩ := r
      rw [hv] at hvalue
      have hlt : t.length < s.length := hvalue
      have hskip := length_skip_le t
      cases ht : skip t with
      | nil =>
        simp only [ht]
        exact (by decide : Fault.notJson ≠ .fuel)
      | cons c u =>
        rw [ht, List.length_cons] at hskip
        have hu := length_skip_le u
        simp only [ht]
        split
        · exact (by omega : u.length < s.length)
        · split
          · exact (scanItems_consumes fuel depth _ (skip u) (by omega)).of_le (by omega)
          · exact (by decide : Fault.notJson ≠ .fuel)

theorem scanMembers_consumes : ∀ (fuel depth : ℕ) (members : List (Str × Value)) (s : Str),
    2 * s.length + 1 < fuel → Consumes s (scanMembers fuel depth members s)
  | 0, _, _, _, h => absurd h (Nat.not_lt_zero _)
  | fuel + 1, depth, members, s, h => by
    rw [scanMembers]
    rcases expect_cases quote s with he | ⟨t, he, ht⟩
    · simp only [he]
      exact (by decide : Fault.notJson ≠ .fuel)
    · have hpieces := scanPieces_consumes t
      simp only [he]
      cases hp : scanPieces t with
      | error e => rw [hp] at hpieces; exact hpieces
      | ok r =>
        obtain ⟨key, u⟩ := r
        rw [hp] at hpieces
        have hu : u.length < t.length := hpieces
        have hskip := length_skip_le u
        simp only
        rcases expect_cases (chr ':') (skip u) with he' | ⟨w, he', hw⟩
        · simp only [he']
          exact (by decide : Fault.notJson ≠ .fuel)
        · have hskip' := length_skip_le w
          have hvalue := scanValue_consumes fuel depth (skip w) (by omega)
          simp only [he']
          cases hv : scanValue fuel depth (skip w) with
          | error e => rw [hv] at hvalue; exact hvalue
          | ok r =>
            obtain ⟨value, x⟩ := r
            rw [hv] at hvalue
            have hx : x.length < (skip w).length := hvalue
            have hskip'' := length_skip_le x
            cases hy : skip x with
            | nil =>
              simp only [hy]
              exact (by decide : Fault.notJson ≠ .fuel)
            | cons c y =>
              rw [hy, List.length_cons] at hskip''
              have hskipy := length_skip_le y
              simp only [hy]
              split
              · exact (by omega : y.length < s.length)
              · split
                · exact (scanMembers_consumes fuel depth _ (skip y) (by omega)).of_le (by omega)
                · exact (by decide : Fault.notJson ≠ .fuel)

end

/-- The reader always has enough calls left. -/
theorem loads_ne_fuel (maxDepth : ℕ) (s : Str) : loads maxDepth s ≠ .error .fuel := by
  have hskip := length_skip_le s
  have hscan := scanValue_consumes (2 * s.length + 1) maxDepth (skip s) (by omega)
  intro h
  unfold loads at h
  split at h
  · cases h
  · cases hv : scanValue (2 * s.length + 1) maxDepth (skip s) with
    | error e =>
      rw [hv] at hscan h
      exact hscan (Except.error.inj h)
    | ok r =>
      simp only [hv] at h
      split at h <;> cases h

/-! ### Writing -/

/-- `py_encode_basestring`, one character. -/
def escapeChar (c : CodePoint) : Str :=
  if c = quote then [backslash, quote]
  else if c = backslash then [backslash, backslash]
  else if c.val = 0x0A then [backslash, chr 'n']
  else if c.val = 0x0D then [backslash, chr 'r']
  else if c.val = 0x09 then [backslash, chr 't']
  else if c.val = 0x0C then [backslash, chr 'f']
  else if c.val = 0x08 then [backslash, chr 'b']
  else if c.val < 0x20 then
    [backslash, chr 'u', chr '0', chr '0', digit (c.val / 16),
      if c.val % 16 < 10 then digit (c.val % 16) else Fin.ofNat _ (87 + c.val % 16)]
  else [c]

def stringText (s : Str) : Str := quote :: s.flatMap escapeChar ++ [quote]

mutual

/-- The text of a value; `floatRepr` is `float.__repr__` on the float that a text stands for. -/
def text (floatRepr : Str → Str) : Value → Str
  | .null => str "null"
  | .bool true => str "true"
  | .bool false => str "false"
  | .int n => intText n
  | .float s => floatRepr s
  | .str s => stringText s
  | .arr items => chr '[' :: (str ", ").intercalate (itemTexts floatRepr items) ++ [chr ']']
  | .obj members =>
    chr '\x7b' :: (str ", ").intercalate (memberTexts floatRepr members) ++ [chr '\x7d']

def itemTexts (floatRepr : Str → Str) : List Value → List Str
  | [] => []
  | item :: items => text floatRepr item :: itemTexts floatRepr items

def memberTexts (floatRepr : Str → Str) : List (Str × Value) → List Str
  | [] => []
  | (key, value) :: members =>
    (stringText key ++ str ": " ++ text floatRepr value) :: memberTexts floatRepr members

end

mutual

/-- How deeply arrays and objects nest in a value. -/
def nesting : Value → ℕ
  | .arr items => 1 + itemsNesting items
  | .obj members => 1 + membersNesting members
  | _ => 0

def itemsNesting : List Value → ℕ
  | [] => 0
  | item :: items => max (nesting item) (itemsNesting items)

def membersNesting : List (Str × Value) → ℕ
  | [] => 0
  | (_, value) :: members => max (nesting value) (membersNesting members)

end

/-- `json.dumps(value, ensure_ascii=False)`, with the interpreter's nesting limit. -/
def dumps (floatRepr : Str → Str) (maxDepth : ℕ) (value : Value) : Except Fault Str :=
  if nesting value > maxDepth then .error .depth else .ok (text floatRepr value)

end Json
