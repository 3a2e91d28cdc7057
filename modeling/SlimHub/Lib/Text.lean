import Mathlib

/-! Byte strings and texts.

    A byte string is a list of `UInt8`. A text is a list of code points, surrogates included, so
    that a text need not be encodable: `utf8Encode` refuses exactly the surrogates. Little-endian
    numbers, hexadecimal digits, ASCII and the two UTF-8 decoders (strict and replacing) are the
    ones of the Python standard library. -/

namespace Text

abbrev Bytes := List UInt8

/-- A Unicode code point, surrogates included. -/
abbrev CodePoint := Fin 0x110000

instance codePointCount : NeZero 0x110000 := ⟨by decide⟩

abbrev Str := List CodePoint

def chr (c : Char) : CodePoint :=
  ⟨c.toNat, by
    rcases c.valid with h | ⟨_, h⟩ <;> simp only [Char.toNat, UInt32.toNat] at * <;> omega⟩

/-- The text of a literal. -/
def str (s : String) : Str := s.toList.map chr

/-! ### Little-endian numbers -/

/-- `int.from_bytes(b, "little", signed=False)`. -/
def fromLittle : Bytes → ℕ
  | [] => 0
  | b :: bs => b.toNat + 256 * fromLittle bs

/-- `n.to_bytes(width, "little", signed=False)`, for `n` in range. -/
def toLittle : ℕ → ℕ → Bytes
  | 0, _ => []
  | width + 1, n => UInt8.ofNat n :: toLittle width (n / 256)

@[simp] theorem length_toLittle : ∀ width n, (toLittle width n).length = width
  | 0, _ => rfl
  | width + 1, n => by rw [toLittle, List.length_cons, length_toLittle width]

theorem fromLittle_toLittle : ∀ width n, n < 256 ^ width → fromLittle (toLittle width n) = n
  | 0, n, h => by simp at h; simp [toLittle, fromLittle, h]
  | width + 1, n, h => by
    have hdiv : n / 256 < 256 ^ width := by
      rw [Nat.div_lt_iff_lt_mul (by decide)]; rw [pow_succ] at h; exact h
    rw [toLittle, fromLittle, fromLittle_toLittle width _ hdiv, UInt8.toNat_ofNat']
    omega

theorem fromLittle_lt : ∀ b : Bytes, fromLittle b < 256 ^ b.length
  | [] => by simp [fromLittle]
  | b :: bs => by
    have ih := fromLittle_lt bs
    have hb := b.toNat_lt
    rw [fromLittle, List.length_cons, pow_succ]
    omega

theorem toLittle_fromLittle : ∀ b : Bytes, toLittle b.length (fromLittle b) = b
  | [] => rfl
  | b :: bs => by
    have hb := b.toNat_lt
    have hdiv : (b.toNat + 256 * fromLittle bs) / 256 = fromLittle bs := by omega
    have hhead : UInt8.ofNat (b.toNat + 256 * fromLittle bs) = b := by
      apply UInt8.toNat_inj.mp
      rw [UInt8.toNat_ofNat']; omega
    rw [fromLittle, List.length_cons, toLittle, hdiv, hhead, toLittle_fromLittle bs]

/-! ### Hexadecimal digits -/

/-- `string.hexdigits`. -/
def hexdigits : Str := str "0123456789abcdefABCDEF"

/-- `c in string.hexdigits`. -/
def isHexDigit (c : CodePoint) : Bool := c ∈ hexdigits

@[simp] theorem isHexDigit_iff {c : CodePoint} : isHexDigit c = true ↔ c ∈ hexdigits :=
  decide_eq_true_iff

/-- `str.upper` on ASCII. -/
def upper (c : CodePoint) : CodePoint :=
  if 97 ≤ c.val ∧ c.val ≤ 122 then c - 32 else c

/-- The value of a hexadecimal digit. -/
def nibble (c : CodePoint) : ℕ :=
  if c.val ≤ 57 then c.val - 48 else if c.val ≤ 70 then c.val - 55 else c.val - 87

/-- The upper-case hexadecimal digit of a value below 16. -/
def digit (n : ℕ) : CodePoint := if n < 10 then Fin.ofNat _ (48 + n) else Fin.ofNat _ (55 + n)

/-- `int(part, 16)` on hexadecimal digits. -/
def hexNat (part : Str) : ℕ := part.foldl (fun acc c => acc * 16 + nibble c) 0

/-- `f"{byte:02X}"`. -/
def hexByte (b : UInt8) : Str := [digit (b.toNat / 16), digit (b.toNat % 16)]

theorem digit_mem : ∀ n < 16, digit n ∈ hexdigits := by decide

theorem nibble_digit : ∀ n < 16, nibble (digit n) = n := by decide

theorem nibble_lt : ∀ c ∈ hexdigits, nibble c < 16 := by
  have h : hexdigits.all (fun c => nibble c < 16) = true := by decide
  simpa only [List.all_eq_true, decide_eq_true_eq] using h

theorem digit_nibble : ∀ c ∈ hexdigits, digit (nibble c) = upper c := by
  have h : hexdigits.all (fun c => digit (nibble c) = upper c) = true := by decide
  simpa only [List.all_eq_true, decide_eq_true_eq] using h

/-- Reading back the two digits of a byte. -/
theorem hexNat_hexByte (b : UInt8) : hexNat (hexByte b) = b.toNat := by
  have hb := b.toNat_lt
  have h1 := nibble_digit (b.toNat / 16) (by omega)
  have h2 := nibble_digit (b.toNat % 16) (by omega)
  simp only [hexNat, hexByte, List.foldl_cons, List.foldl_nil, h1, h2]
  omega

/-- Writing the byte of two digits gives them back in upper case. -/
theorem hexByte_hexNat {c d : CodePoint} (hc : c ∈ hexdigits) (hd : d ∈ hexdigits) :
    hexByte (UInt8.ofNat (hexNat [c, d])) = [upper c, upper d] := by
  have h1 := nibble_lt c hc
  have h2 := nibble_lt d hd
  have hval : hexNat [c, d] = nibble c * 16 + nibble d := by simp [hexNat]
  have hdiv : (nibble c * 16 + nibble d) % 2 ^ 8 / 16 = nibble c := by omega
  have hmod : (nibble c * 16 + nibble d) % 2 ^ 8 % 16 = nibble d := by omega
  rw [hexByte, hval, UInt8.toNat_ofNat', hdiv, hmod, digit_nibble c hc, digit_nibble d hd]

/-! ### Decimal digits -/

/-- `str(n)`. -/
def natText (n : ℕ) : Str := (Nat.toDigits 10 n).map chr

def intText (n : ℤ) : Str := if n < 0 then chr '-' :: natText n.natAbs else natText n.natAbs

/-- `int(s)` on decimal digits. -/
def decNat (s : Str) : ℕ := s.foldl (fun acc c => acc * 10 + nibble c) 0

def isDigit (c : CodePoint) : Bool := 48 ≤ c.val ∧ c.val ≤ 57

/-- `f"{n:0{width}d}"`, for a natural number. -/
def padded (width n : ℕ) : Str :=
  List.replicate (width - (natText n).length) (chr '0') ++ natText n

theorem isDigit_of_mem_natText {n : ℕ} {c : CodePoint} (h : c ∈ natText n) : isDigit c = true := by
  obtain ⟨d, hd, rfl⟩ := List.mem_map.mp h
  have hdigit := Nat.isDigit_of_mem_toDigits (by decide) (by decide) hd
  simp only [Char.isDigit, Bool.and_eq_true, decide_eq_true_eq] at hdigit
  exact decide_eq_true ⟨UInt32.le_iff_toNat_le.mp hdigit.1, UInt32.le_iff_toNat_le.mp hdigit.2⟩

theorem isDigit_of_mem_padded {width n : ℕ} {c : CodePoint} (h : c ∈ padded width n) :
    isDigit c = true := by
  rcases List.mem_append.mp h with h | h
  · rw [List.eq_of_mem_replicate h]
    decide
  · exact isDigit_of_mem_natText h

/-- What stands between the parts of a joined text is the separator. -/
theorem mem_of_mem_intercalate {s : Str} {parts : List Str} {c : CodePoint}
    (h : c ∈ s.intercalate parts) : c ∈ s ∨ ∃ p ∈ parts, c ∈ p := by
  induction parts with
  | nil => cases h
  | cons p parts ih =>
    cases parts with
    | nil =>
      rw [List.intercalate_singleton] at h
      exact .inr ⟨p, List.mem_singleton_self p, h⟩
    | cons q parts =>
      rw [List.intercalate_cons_cons] at h
      rcases List.mem_append.mp h with h | h
      · rcases List.mem_append.mp h with h | h
        · exact .inr ⟨p, List.mem_cons_self, h⟩
        · exact .inl h
      · rcases ih h with hs | ⟨r, hr, hc⟩
        · exact .inl hs
        · exact .inr ⟨r, List.mem_cons_of_mem _ hr, hc⟩

theorem natText_of_lt {n : ℕ} (h : n < 10) : natText n = [digit n] := by
  have hdigit : ∀ m < 10, chr m.digitChar = digit m := by decide
  rw [natText, Nat.toDigits_of_lt_base h, List.map_singleton, hdigit n h]

theorem natText_of_le {n : ℕ} (h : 10 ≤ n) : natText n = natText (n / 10) ++ [digit (n % 10)] := by
  have hdigit : ∀ m < 10, chr m.digitChar = digit m := by decide
  rw [natText, Nat.toDigits_of_base_le (by decide) h, List.map_append, List.map_singleton,
    hdigit _ (Nat.mod_lt n (by decide)), natText]

/-- `int(str(n))`. -/
theorem decNat_natText (n : ℕ) : decNat (natText n) = n := by
  induction n using Nat.strongRecOn with
  | ind n ih =>
    rcases Nat.lt_or_ge n 10 with h | h
    · have hval := nibble_digit n (by omega)
      rw [natText_of_lt h, decNat, List.foldl_cons, List.foldl_nil, hval, zero_mul, zero_add]
    · have hval := nibble_digit (n % 10) (by omega)
      have hrest := ih (n / 10) (by omega)
      rw [decNat] at hrest
      rw [natText_of_le h, decNat, List.foldl_append, hrest, List.foldl_cons, List.foldl_nil, hval]
      omega

theorem decNat_concat (s : Str) (c : CodePoint) : decNat (s ++ [c]) = decNat s * 10 + nibble c := by
  rw [decNat, List.foldl_concat, decNat]

theorem decNat_append (s t : Str) : decNat (s ++ t) = decNat s * 10 ^ t.length + decNat t := by
  induction t using List.reverseRecOn with
  | nil => simp [decNat]
  | append_singleton t c ih =>
    rw [← List.append_assoc, decNat_concat, ih, decNat_concat, List.length_append,
      List.length_singleton, pow_succ]
    ring

/-- Zeros in front do not count. -/
theorem decNat_padded (width n : ℕ) : decNat (padded width n) = n := by
  have hzeros (k : ℕ) : decNat (List.replicate k (chr '0')) = 0 := by
    induction k with
    | zero => rfl
    | succ k ih =>
      have hzero : decNat [chr '0'] = 0 := by decide
      rw [List.replicate_succ', decNat_append, ih, hzero, zero_mul]
  rw [padded, decNat_append, hzeros, zero_mul, zero_add, decNat_natText]

theorem length_padded {width n : ℕ} (hwidth : 0 < width) (h : n < 10 ^ width) :
    (padded width n).length = width := by
  have hlength : (natText n).length ≤ width := by
    rw [natText, List.length_map]
    exact Nat.toDigits_length 10 n width hwidth h
  rw [padded, List.length_append, List.length_replicate]
  omega

/-- No digit stands before a number but the zero itself. -/
theorem natText_cases (n : ℕ) : (n = 0 ∧ natText n = [chr '0']) ∨
    ∃ c s, natText n = c :: s ∧ c ≠ chr '0' := by
  induction n using Nat.strongRecOn with
  | ind n ih =>
    rcases Nat.lt_or_ge n 10 with h | h
    · rcases Nat.eq_zero_or_pos n with rfl | hpos
      · exact .inl ⟨rfl, natText_of_lt h⟩
      · have hne : ∀ m < 10, 0 < m → digit m ≠ chr '0' := by decide
        exact .inr ⟨_, _, natText_of_lt h, hne n h hpos⟩
    · rcases ih (n / 10) (by omega) with ⟨hzero, _⟩ | ⟨c, s, hs, hc⟩
      · omega
      · exact .inr ⟨c, s ++ [digit (n % 10)], by rw [natText_of_le h, hs, List.cons_append], hc⟩

theorem natText_ne_nil (n : ℕ) : natText n ≠ [] := by
  rw [natText, ne_eq, List.map_eq_nil_iff]
  exact Nat.toDigits_ne_nil

/-! ### ASCII -/

/-- `s.encode("ascii")`: `none` where `UnicodeEncodeError` is raised. -/
def asciiEncode (s : Str) : Option Bytes :=
  if s.all (·.val < 128) then some (s.map fun c => UInt8.ofNat c.val) else none

/-- `b.decode("ascii")`: `none` where `UnicodeDecodeError` is raised. -/
def asciiDecode (b : Bytes) : Option Str :=
  if b.all (· < 128) then some (b.map fun x => Fin.ofNat _ x.toNat) else none

theorem asciiEncode_asciiDecode {b : Bytes} {s : Str} (h : asciiDecode b = some s) :
    asciiEncode s = some b := by
  unfold asciiDecode at h
  split at h
  · next hall =>
    simp only [List.all_eq_true, decide_eq_true_eq] at hall
    obtain rfl := Option.some.inj h
    have hlt : ∀ x ∈ b, x.toNat < 128 := fun x hx => UInt8.lt_iff_toNat_lt.mp (hall x hx)
    have hval : ∀ x ∈ b, (Fin.ofNat 0x110000 x.toNat).val = x.toNat := fun x hx => by
      rw [Fin.val_ofNat]; exact Nat.mod_eq_of_lt (by have := hlt x hx; omega)
    rw [asciiEncode, if_pos, List.map_map]
    · congr 1
      conv_rhs => rw [← List.map_id b]
      refine List.map_congr_left fun x hx => ?_
      rw [Function.comp_apply, hval x hx, id_eq, UInt8.ofNat_toNat]
    · simp only [List.all_map, List.all_eq_true, Function.comp_apply, decide_eq_true_eq]
      intro x hx
      rw [hval x hx]; exact hlt x hx
  · simp at h

/-! ### UTF-8 -/

def isSurrogate (c : CodePoint) : Bool := 0xD800 ≤ c.val ∧ c.val ≤ 0xDFFF

/-- The UTF-8 form of one code point; none for a surrogate. -/
def utf8Char (c : CodePoint) : Option Bytes :=
  let n := c.val
  if n < 0x80 then some [UInt8.ofNat n]
  else if n < 0x800 then some [UInt8.ofNat (0xC0 + n / 64), UInt8.ofNat (0x80 + n % 64)]
  else if isSurrogate c then none
  else if n < 0x10000 then
    some [UInt8.ofNat (0xE0 + n / 4096), UInt8.ofNat (0x80 + n / 64 % 64),
      UInt8.ofNat (0x80 + n % 64)]
  else
    some [UInt8.ofNat (0xF0 + n / 262144), UInt8.ofNat (0x80 + n / 4096 % 64),
      UInt8.ofNat (0x80 + n / 64 % 64), UInt8.ofNat (0x80 + n % 64)]

/-- `s.encode("utf-8")`: `none` where `UnicodeEncodeError` is raised. -/
def utf8Encode (s : Str) : Option Bytes := (s.mapM utf8Char).map List.flatten

/-- U+FFFD. -/
def replacement : CodePoint := 0xFFFD

/-- A continuation byte. -/
def isTail (b : UInt8) : Bool := 0x80 ≤ b ∧ b ≤ 0xBF

/-- Whether `b` may follow the lead byte `a` of a sequence of three or four bytes. -/
def isSecond (a b : UInt8) : Bool :=
  if a = 0xE0 then 0xA0 ≤ b ∧ b ≤ 0xBF
  else if a = 0xED then 0x80 ≤ b ∧ b ≤ 0x9F
  else if a = 0xF0 then 0x90 ≤ b ∧ b ≤ 0xBF
  else if a = 0xF4 then 0x80 ≤ b ∧ b ≤ 0x8F
  else isTail b

/-- The code point of payload bits. -/
def point (n : ℕ) : CodePoint := Fin.ofNat _ n

/-- `b.decode("utf-8")`: `none` where `UnicodeDecodeError` is raised. -/
def utf8Decode : Bytes → Option Str
  | [] => some []
  | a :: rest =>
    if a < 0x80 then (utf8Decode rest).map (point a.toNat :: ·)
    else if 0xC2 ≤ a ∧ a ≤ 0xDF then
      match rest with
      | b :: rest =>
        if isTail b then (utf8Decode rest).map (point (a.toNat % 32 * 64 + b.toNat % 64) :: ·)
        else none
      | [] => none
    else if 0xE0 ≤ a ∧ a ≤ 0xEF then
      match rest with
      | b :: c :: rest =>
        if isSecond a b ∧ isTail c then
          (utf8Decode rest).map
            (point (a.toNat % 16 * 4096 + b.toNat % 64 * 64 + c.toNat % 64) :: ·)
        else none
      | _ => none
    else if 0xF0 ≤ a ∧ a ≤ 0xF4 then
      match rest with
      | b :: c :: d :: rest =>
        if isSecond a b ∧ isTail c ∧ isTail d then
          (utf8Decode rest).map
            (point (a.toNat % 8 * 262144 + b.toNat % 64 * 4096 + c.toNat % 64 * 64
              + d.toNat % 64) :: ·)
        else none
      | _ => none
    else none

/-- `b.decode("utf-8", errors="replace")`: each maximal part of a sequence that cannot be completed
    becomes one U+FFFD. -/
def utf8DecodeReplace : Bytes → Str
  | [] => []
  | a :: rest =>
    if a < 0x80 then point a.toNat :: utf8DecodeReplace rest
    else if 0xC2 ≤ a ∧ a ≤ 0xDF then
      match rest with
      | b :: rest' =>
        if isTail b then point (a.toNat % 32 * 64 + b.toNat % 64) :: utf8DecodeReplace rest'
        else replacement :: utf8DecodeReplace (b :: rest')
      | [] => [replacement]
    else if 0xE0 ≤ a ∧ a ≤ 0xEF then
      match rest with
      | b :: c :: rest' =>
        if isSecond a b then
          if isTail c then
            point (a.toNat % 16 * 4096 + b.toNat % 64 * 64 + c.toNat % 64) ::
              utf8DecodeReplace rest'
          else replacement :: utf8DecodeReplace (c :: rest')
        else replacement :: utf8DecodeReplace (b :: c :: rest')
      | [b] => if isSecond a b then [replacement] else replacement :: utf8DecodeReplace [b]
      | [] => [replacement]
    else if 0xF0 ≤ a ∧ a ≤ 0xF4 then
      match rest with
      | b :: c :: d :: rest' =>
        if isSecond a b then
          if isTail c then
            if isTail d then
              point (a.toNat % 8 * 262144 + b.toNat % 64 * 4096 + c.toNat % 64 * 64
                + d.toNat % 64) :: utf8DecodeReplace rest'
            else replacement :: utf8DecodeReplace (d :: rest')
          else replacement :: utf8DecodeReplace (c :: d :: rest')
        else replacement :: utf8DecodeReplace (b :: c :: d :: rest')
      | [b, c] =>
        if isSecond a b then
          if isTail c then [replacement] else replacement :: utf8DecodeReplace [c]
        else replacement :: utf8DecodeReplace [b, c]
      | [b] => if isSecond a b then [replacement] else replacement :: utf8DecodeReplace [b]
      | [] => [replacement]
    else replacement :: utf8DecodeReplace rest

/-- Python's `'\xe2\x82A\xf0\x9f\x98\x80\xed\xa0'` under `errors="replace"`. -/
example : utf8DecodeReplace [0xE2, 0x82, 0x41, 0xF0, 0x9F, 0x98, 0x80, 0xED, 0xA0] =
    [replacement, 0x41, 0x1F600, replacement, replacement] := by decide

/-! ### Encoding, then decoding -/

theorem point_val {c : CodePoint} {n : ℕ} (h : n = c.val) : point n = c := by
  subst h
  exact Fin.ext (Nat.mod_eq_of_lt c.isLt)

theorem toNat_ofNat_lt {n : ℕ} (h : n < 256) : (UInt8.ofNat n).toNat = n := by
  rw [UInt8.toNat_ofNat']
  exact Nat.mod_eq_of_lt h

theorem isTail_iff {b : UInt8} : isTail b = true ↔ 128 ≤ b.toNat ∧ b.toNat ≤ 191 := by
  simp [isTail, UInt8.le_iff_toNat_le]

theorem isSecond_iff {a b : UInt8} : isSecond a b = true ↔
    (if a.toNat = 224 then 160 ≤ b.toNat else if a.toNat = 240 then 144 ≤ b.toNat else
      128 ≤ b.toNat) ∧
    (if a.toNat = 237 then b.toNat ≤ 159 else if a.toNat = 244 then b.toNat ≤ 143 else
      b.toNat ≤ 191) := by
  have heq : ∀ n : UInt8, a = n ↔ a.toNat = n.toNat := fun n => UInt8.toNat_inj.symm
  simp only [isSecond, isTail, heq, UInt8.le_iff_toNat_le]
  norm_num
  split_ifs <;> simp_all

theorem utf8Decode_one {a : UInt8} (h : a.toNat < 128) (rest : Bytes) :
    utf8Decode (a :: rest) = (utf8Decode rest).map (point a.toNat :: ·) := by
  rw [utf8Decode.eq_def]
  simp only
  rw [if_pos (UInt8.lt_iff_toNat_lt.mpr h)]

theorem utf8Decode_two {a b : UInt8} (ha : 194 ≤ a.toNat ∧ a.toNat ≤ 223) (hb : isTail b = true)
    (rest : Bytes) : utf8Decode (a :: b :: rest) =
      (utf8Decode rest).map (point (a.toNat % 32 * 64 + b.toNat % 64) :: ·) := by
  have h1 : ¬ a < 0x80 := by
    simp [UInt8.lt_iff_toNat_lt]
    omega
  rw [utf8Decode.eq_def]
  simp only [if_neg h1]
  rw [if_pos (by simp [UInt8.le_iff_toNat_le]; omega), if_pos hb]

theorem utf8Decode_three {a b c : UInt8} (ha : 224 ≤ a.toNat ∧ a.toNat ≤ 239)
    (hb : isSecond a b = true) (hc : isTail c = true) (rest : Bytes) :
    utf8Decode (a :: b :: c :: rest) = (utf8Decode rest).map
      (point (a.toNat % 16 * 4096 + b.toNat % 64 * 64 + c.toNat % 64) :: ·) := by
  have h1 : ¬ a < 0x80 := by
    simp [UInt8.lt_iff_toNat_lt]
    omega
  have h2 : ¬ (0xC2 ≤ a ∧ a ≤ 0xDF) := by
    simp [UInt8.le_iff_toNat_le]
    omega
  rw [utf8Decode.eq_def]
  simp only [if_neg h1, if_neg h2]
  rw [if_pos (by simp [UInt8.le_iff_toNat_le]; omega), if_pos ⟨hb, hc⟩]

theorem utf8Decode_four {a b c d : UInt8} (ha : 240 ≤ a.toNat ∧ a.toNat ≤ 244)
    (hb : isSecond a b = true) (hc : isTail c = true) (hd : isTail d = true) (rest : Bytes) :
    utf8Decode (a :: b :: c :: d :: rest) = (utf8Decode rest).map
      (point (a.toNat % 8 * 262144 + b.toNat % 64 * 4096 + c.toNat % 64 * 64 + d.toNat % 64)
        :: ·) := by
  have h1 : ¬ a < 0x80 := by
    simp [UInt8.lt_iff_toNat_lt]
    omega
  have h2 : ¬ (0xC2 ≤ a ∧ a ≤ 0xDF) := by
    simp [UInt8.le_iff_toNat_le]
    omega
  have h3 : ¬ (0xE0 ≤ a ∧ a ≤ 0xEF) := by
    simp [UInt8.le_iff_toNat_le]
    omega
  rw [utf8Decode.eq_def]
  simp only [if_neg h1, if_neg h2, if_neg h3]
  rw [if_pos (by simp [UInt8.le_iff_toNat_le]; omega), if_pos ⟨hb, hc, hd⟩]

/-- The bytes of one code point are read back as it. -/
theorem utf8Decode_utf8Char {c : CodePoint} {bytes : Bytes} (h : utf8Char c = some bytes)
    (rest : Bytes) : utf8Decode (bytes ++ rest) = (utf8Decode rest).map (c :: ·) := by
  have hlt := c.isLt
  simp only [utf8Char] at h
  split at h
  · obtain rfl := Option.some.inj h
    have ha := toNat_ofNat_lt (n := c.val) (by omega)
    rw [List.singleton_append, utf8Decode_one (by omega), ha, point_val rfl]
  · split at h
    · obtain rfl := Option.some.inj h
      have ha := toNat_ofNat_lt (n := 0xC0 + c.val / 64) (by omega)
      have hb := toNat_ofNat_lt (n := 0x80 + c.val % 64) (by omega)
      simp only [List.cons_append, List.nil_append]
      rw [utf8Decode_two (by omega) (isTail_iff.mpr (by omega)), ha, hb, point_val (c := c) (by omega)]
    · split at h
      · cases h
      · rename_i hsur
        simp only [isSurrogate, decide_eq_true_eq] at hsur
        split at h
        · obtain rfl := Option.some.inj h
          have ha := toNat_ofNat_lt (n := 0xE0 + c.val / 4096) (by omega)
          have hb := toNat_ofNat_lt (n := 0x80 + c.val / 64 % 64) (by omega)
          have hc := toNat_ofNat_lt (n := 0x80 + c.val % 64) (by omega)
          simp only [List.cons_append, List.nil_append]
          rw [utf8Decode_three (by omega) (isSecond_iff.mpr (by rw [ha, hb]; split_ifs <;> omega))
            (isTail_iff.mpr (by omega)), ha, hb, hc, point_val (c := c) (by omega)]
        · obtain rfl := Option.some.inj h
          have ha := toNat_ofNat_lt (n := 0xF0 + c.val / 262144) (by omega)
          have hb := toNat_ofNat_lt (n := 0x80 + c.val / 4096 % 64) (by omega)
          have hc := toNat_ofNat_lt (n := 0x80 + c.val / 64 % 64) (by omega)
          have hd := toNat_ofNat_lt (n := 0x80 + c.val % 64) (by omega)
          simp only [List.cons_append, List.nil_append]
          rw [utf8Decode_four (by omega) (isSecond_iff.mpr (by rw [ha, hb]; split_ifs <;> omega))
            (isTail_iff.mpr (by omega)) (isTail_iff.mpr (by omega)), ha, hb, hc, hd,
            point_val (c := c) (by omega)]

@[simp] theorem utf8Encode_nil : utf8Encode [] = some [] := rfl

theorem utf8Encode_cons (c : CodePoint) (s : Str) : utf8Encode (c :: s) =
    (utf8Char c).bind fun bytes => (utf8Encode s).map (bytes ++ ·) := by
  simp only [utf8Encode, List.mapM_cons]
  cases utf8Char c with
  | none => rfl
  | some bytes =>
    cases List.mapM utf8Char s <;> rfl

/-- What is encoded is decoded. -/
theorem utf8Decode_utf8Encode : ∀ {s : Str} {bytes : Bytes}, utf8Encode s = some bytes →
    utf8Decode bytes = some s
  | [], bytes, h => by
    obtain rfl := Option.some.inj h
    rfl
  | c :: s, bytes, h => by
    rw [utf8Encode_cons] at h
    obtain ⟨head, hhead, h⟩ := Option.bind_eq_some_iff.mp h
    obtain ⟨tail, htail, rfl⟩ := Option.map_eq_some_iff.mp h
    rw [utf8Decode_utf8Char hhead, utf8Decode_utf8Encode htail]
    rfl

theorem utf8Encode_append (s t : Str) : utf8Encode (s ++ t) =
    (utf8Encode s).bind fun bytes => (utf8Encode t).map (bytes ++ ·) := by
  induction s with
  | nil => simp
  | cons c s ih =>
    rw [List.cons_append, utf8Encode_cons, utf8Encode_cons, ih]
    cases utf8Char c <;> cases utf8Encode s <;> cases utf8Encode t <;> simp

/-- A text is encoded unless it holds a surrogate. -/
theorem utf8Char_eq_none {c : CodePoint} : utf8Char c = none ↔ isSurrogate c = true := by
  simp only [utf8Char]
  split
  · simp only [isSurrogate, decide_eq_true_eq, reduceCtorEq, false_iff]
    omega
  · split
    · simp only [isSurrogate, decide_eq_true_eq, reduceCtorEq, false_iff]
      omega
    · split
      · simpa
      · split <;> simp_all

theorem utf8Encode_eq_none {s : Str} : utf8Encode s = none ↔ ∃ c ∈ s, isSurrogate c = true := by
  induction s with
  | nil => simp
  | cons c s ih =>
    rw [utf8Encode_cons, List.exists_mem_cons_iff, ← utf8Char_eq_none, ← ih]
    cases utf8Char c <;> cases utf8Encode s <;> simp

/-- Only a line feed is encoded with the byte of one. -/
theorem mem_utf8Char_newline {c : CodePoint} {bytes : Bytes} (h : utf8Char c = some bytes)
    (hmem : 0x0A ∈ bytes) : c.val = 0x0A := by
  have hlt := c.isLt
  have hval : ∀ {n : ℕ}, n < 256 → (0x0A : UInt8) = UInt8.ofNat n → n = 0x0A := by
    intro n hn heq
    rw [← toNat_ofNat_lt hn, ← heq]
    rfl
  simp only [utf8Char] at h
  split at h
  · obtain rfl := Option.some.inj h
    exact hval (by omega) (List.mem_singleton.mp hmem)
  · exfalso
    split at h
    · obtain rfl := Option.some.inj h
      simp only [List.mem_cons, List.not_mem_nil, or_false] at hmem
      rcases hmem with heq | heq
      · have := hval (by omega) heq
        omega
      · have := hval (by omega) heq
        omega
    · split at h
      · cases h
      · split at h
        · obtain rfl := Option.some.inj h
          simp only [List.mem_cons, List.not_mem_nil, or_false] at hmem
          rcases hmem with heq | heq | heq
          all_goals
            have := hval (by omega) heq
            omega
        · obtain rfl := Option.some.inj h
          simp only [List.mem_cons, List.not_mem_nil, or_false] at hmem
          rcases hmem with heq | heq | heq | heq
          all_goals
            have := hval (by omega) heq
            omega

theorem newline_of_mem_utf8Encode : ∀ {s : Str} {bytes : Bytes}, utf8Encode s = some bytes →
    0x0A ∈ bytes → ∃ c ∈ s, c.val = 0x0A
  | [], bytes, h, hmem => by
    obtain rfl := Option.some.inj h
    cases hmem
  | c :: s, bytes, h, hmem => by
    rw [utf8Encode_cons] at h
    obtain ⟨head, hhead, h⟩ := Option.bind_eq_some_iff.mp h
    obtain ⟨tail, htail, rfl⟩ := Option.map_eq_some_iff.mp h
    rcases List.mem_append.mp hmem with hmem | hmem
    · exact ⟨c, List.mem_cons_self, mem_utf8Char_newline hhead hmem⟩
    · obtain ⟨d, hd, hval⟩ := newline_of_mem_utf8Encode htail hmem
      exact ⟨d, List.mem_cons_of_mem c hd, hval⟩

theorem isSurrogate_point {n : ℕ} (hlt : n < 0x110000) (h : n < 0xD800 ∨ 0xDFFF < n) :
    isSurrogate (point n) = false := by
  have hval : (point n).val = n := Nat.mod_eq_of_lt hlt
  simp only [isSurrogate, hval, decide_eq_false_iff_not]
  omega

/-- What is decoded holds no surrogate. -/
theorem isSurrogate_of_utf8Decode {bytes : Bytes} {s : Str} (h : utf8Decode bytes = some s) :
    ∀ c ∈ s, isSurrogate c = false := by
  have hcons : ∀ {c : CodePoint} {rest : Option Str} {s : Str}, isSurrogate c = false →
      (∀ {t : Str}, rest = some t → ∀ d ∈ t, isSurrogate d = false) →
      rest.map (c :: ·) = some s → ∀ d ∈ s, isSurrogate d = false := by
    intro c rest s hc hrest hs d hd
    obtain ⟨t, ht, rfl⟩ := Option.map_eq_some_iff.mp hs
    rcases List.mem_cons.mp hd with rfl | hd
    · exact hc
    · exact hrest ht d hd
  fun_induction utf8Decode bytes generalizing s with
  | case1 =>
    obtain rfl := Option.some.inj h
    intro c hc
    cases hc
  | case2 a rest ha ih =>
    have hlt := UInt8.lt_iff_toNat_lt.mp ha
    have h128 : (0x80 : UInt8).toNat = 128 := rfl
    exact hcons (isSurrogate_point (by omega) (.inl (by omega))) ih h
  | case3 a _ ha b rest hb ih =>
    exact hcons (isSurrogate_point (by omega) (.inl (by omega))) ih h
  | case6 a _ _ ha b c rest hbc ih =>
    simp only [UInt8.le_iff_toNat_le] at ha
    have h224 : (0xE0 : UInt8).toNat = 224 := rfl
    have h239 : (0xEF : UInt8).toNat = 239 := rfl
    obtain ⟨hb, hc⟩ := hbc
    have hsecond := isSecond_iff.mp hb
    have hthird := isTail_iff.mp hc
    refine hcons (isSurrogate_point (by omega) ?_) ih h
    split_ifs at hsecond <;> omega
  | case9 a _ _ _ ha b c d rest hbcd ih =>
    simp only [UInt8.le_iff_toNat_le] at ha
    have h240 : (0xF0 : UInt8).toNat = 240 := rfl
    have h244 : (0xF4 : UInt8).toNat = 244 := rfl
    obtain ⟨hb, hc, hd⟩ := hbcd
    have hsecond := isSecond_iff.mp hb
    have hthird := isTail_iff.mp hc
    have hfourth := isTail_iff.mp hd
    refine hcons (isSurrogate_point ?_ (.inr ?_)) ih h
    · split_ifs at hsecond <;> omega
    · split_ifs at hsecond <;> omega
  | _ => cases h

end Text
