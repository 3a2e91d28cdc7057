import SlimHub.Lib.Text

/-! Packed little-endian structures, the `struct` module's `"<..."` formats.

    A format is a list of type codes. `unpack` reads a buffer of exactly the format's size and
    fails on every other one; `pack` writes values that fit their fields. The two are inverse to
    each other. -/

namespace Struct
open Text

/-- Type codes: unsigned byte, unsigned 16-bit word, signed byte. -/
inductive Code where | B | H | b
  deriving DecidableEq

def Code.size : Code → ℕ
  | .B => 1
  | .H => 2
  | .b => 1

/-- `struct.calcsize`. -/
def calcsize (fmt : List Code) : ℕ := (fmt.map Code.size).sum

/-- The value that a field's bytes stand for. -/
def Code.read : Code → Bytes → ℤ
  | .B, bytes => fromLittle bytes
  | .H, bytes => fromLittle bytes
  | .b, bytes => if fromLittle bytes < 128 then fromLittle bytes else (fromLittle bytes : ℤ) - 256

/-- The fields one after another. -/
def readAll : List Code → Bytes → List ℤ
  | [], _ => []
  | c :: fmt, buf => c.read (buf.take c.size) :: readAll fmt (buf.drop c.size)

/-- `struct.unpack`: `none` where `struct.error` is raised. -/
def unpack (fmt : List Code) (buf : Bytes) : Option (List ℤ) :=
  if buf.length = calcsize fmt then some (readAll fmt buf) else none

theorem length_readAll : ∀ fmt buf, (readAll fmt buf).length = fmt.length
  | [], _ => rfl
  | c :: fmt, buf => by rw [readAll, List.length_cons, length_readAll fmt, List.length_cons]

theorem unpack_of_length {fmt : List Code} {buf : Bytes} (h : buf.length = calcsize fmt) :
    unpack fmt buf = some (readAll fmt buf) := if_pos h

theorem readAll_append (fmt more : List Code) (buf : Bytes) :
    readAll (fmt ++ more) buf = readAll fmt buf ++ readAll more (buf.drop (calcsize fmt)) := by
  induction fmt generalizing buf with
  | nil => rfl
  | cons c fmt ih =>
    rw [List.cons_append, readAll, ih, readAll, List.drop_drop, List.cons_append, calcsize,
      calcsize, List.map_cons, List.sum_cons]

/-- What comes after the fields is not read. -/
theorem readAll_take {fmt : List Code} {n : ℕ} (h : calcsize fmt ≤ n) (buf : Bytes) :
    readAll fmt (buf.take n) = readAll fmt buf := by
  induction fmt generalizing n buf with
  | nil => rfl
  | cons c fmt ih =>
    have hsize : calcsize (c :: fmt) = c.size + calcsize fmt := by simp [calcsize]
    rw [hsize] at h
    rw [readAll, readAll, List.take_take, Nat.min_eq_left (by omega), List.drop_take,
      ih (by omega)]

/-! ### Packing -/

/-- The values that a field can hold. -/
def Code.Fits : Code → ℤ → Prop
  | .B, n => 0 ≤ n ∧ n < 256
  | .H, n => 0 ≤ n ∧ n < 65536
  | .b, n => -128 ≤ n ∧ n < 128

instance (c : Code) (n : ℤ) : Decidable (c.Fits n) := by
  cases c <;> exact instDecidableAnd

/-- The bytes of a value, in two's complement. -/
def Code.write (c : Code) (n : ℤ) : Bytes := toLittle c.size (n % 256 ^ c.size).toNat

/-- `struct.pack`: `none` where `struct.error` is raised. -/
def pack : List Code → List ℤ → Option Bytes
  | [], [] => some []
  | c :: fmt, n :: values =>
    if c.Fits n then (pack fmt values).map (c.write n ++ ·) else none
  | [], _ :: _ => none
  | _ :: _, [] => none

@[simp] theorem Code.length_write (c : Code) (n : ℤ) : (c.write n).length = c.size :=
  length_toLittle _ _

theorem Code.read_write {c : Code} {n : ℤ} (h : c.Fits n) : c.read (c.write n) = n := by
  have hpos : (0 : ℤ) < 256 ^ c.size := by positivity
  have hlow := Int.emod_nonneg n hpos.ne'
  have hhigh := Int.emod_lt_of_pos n hpos
  have hlittle : (fromLittle (c.write n) : ℤ) = n % 256 ^ c.size := by
    rw [Code.write, fromLittle_toLittle, Int.toNat_of_nonneg hlow]
    zify
    rwa [Int.toNat_of_nonneg hlow]
  cases c with
  | B =>
    obtain ⟨h₀, h₁⟩ := h
    rw [Code.read, hlittle, Code.size]
    omega
  | H =>
    obtain ⟨h₀, h₁⟩ := h
    rw [Code.read, hlittle, Code.size]
    omega
  | b =>
    obtain ⟨h₀, h₁⟩ := h
    simp only [Code.size] at hlittle
    rw [Code.read]
    split_ifs with hneg
    · omega
    · omega

theorem Code.fits_read {c : Code} {bytes : Bytes} (h : bytes.length = c.size) :
    c.Fits (c.read bytes) := by
  have hlt := fromLittle_lt bytes
  rw [h] at hlt
  cases c with
  | B => exact ⟨by simp [Code.read], by simpa [Code.read, Code.size] using mod_cast hlt⟩
  | H => exact ⟨by simp [Code.read], by simpa [Code.read, Code.size] using mod_cast hlt⟩
  | b =>
    simp only [Code.size] at hlt
    rw [Code.Fits, Code.read]
    split_ifs with hneg
    · omega
    · omega

theorem Code.write_read {c : Code} {bytes : Bytes} (h : bytes.length = c.size) :
    c.write (c.read bytes) = bytes := by
  have hlt := fromLittle_lt bytes
  have hback := toLittle_fromLittle bytes
  rw [h] at hlt hback
  have hmod : (c.read bytes % 256 ^ c.size).toNat = fromLittle bytes := by
    cases c with
    | B =>
      simp only [Code.read, Code.size] at hlt ⊢
      omega
    | H =>
      simp only [Code.read, Code.size] at hlt ⊢
      omega
    | b =>
      simp only [Code.read, Code.size] at hlt ⊢
      split_ifs with hneg
      · omega
      · omega
  rw [Code.write, hmod, hback]

/-- What is read from a buffer of the right size fits the fields. -/
theorem fits_readAll {fmt : List Code} {buf : Bytes} (h : buf.length = calcsize fmt) :
    List.Forall₂ Code.Fits fmt (readAll fmt buf) := by
  induction fmt generalizing buf with
  | nil => exact .nil
  | cons c fmt ih =>
    have hsize : calcsize (c :: fmt) = c.size + calcsize fmt := by simp [calcsize]
    rw [hsize] at h
    refine .cons (Code.fits_read ?_) (ih ?_)
    · rw [List.length_take]
      omega
    · rw [List.length_drop]
      omega

/-- Packing and unpacking are inverse to each other. -/
theorem pack_eq_some_iff {fmt : List Code} {values : List ℤ} {buf : Bytes} :
    pack fmt values = some buf ↔ unpack fmt buf = some values := by
  induction fmt generalizing values buf with
  | nil =>
    cases values with
    | nil => simp [pack, unpack, calcsize, readAll, List.length_eq_zero_iff, eq_comm]
    | cons n values => simp [pack, unpack, readAll]
  | cons c fmt ih =>
    have hsize : calcsize (c :: fmt) = c.size + calcsize fmt := by simp [calcsize]
    cases values with
    | nil => simp [pack, unpack, readAll]
    | cons n values =>
      constructor
      · intro h
        rw [pack] at h
        split_ifs at h with hfits
        obtain ⟨rest, hrest, rfl⟩ := Option.map_eq_some_iff.mp h
        have hunpack := ih.mp hrest
        rw [unpack] at hunpack
        split_ifs at hunpack with hlen
        rw [unpack_of_length (by simp [hsize, hlen]), readAll, List.take_left' (by simp),
          List.drop_left' (by simp), Code.read_write hfits, Option.some.inj hunpack]
      · intro h
        rw [unpack] at h
        split_ifs at h with hlen
        rw [hsize] at hlen
        rw [readAll, Option.some.injEq, List.cons.injEq] at h
        obtain ⟨rfl, hvalues⟩ := h
        have htake : (buf.take c.size).length = c.size := by rw [List.length_take]; omega
        have hdrop : (buf.drop c.size).length = calcsize fmt := by rw [List.length_drop]; omega
        have hrest : pack fmt values = some (buf.drop c.size) :=
          ih.mpr ((unpack_of_length hdrop).trans (congrArg some hvalues))
        rw [pack, if_pos (Code.fits_read htake), hrest, Code.write_read htake, Option.map_some,
          List.take_append_drop]

theorem pack_of_fits {fmt : List Code} {values : List ℤ} (h : List.Forall₂ Code.Fits fmt values) :
    ∃ buf, pack fmt values = some buf := by
  induction h with
  | nil => exact ⟨[], rfl⟩
  | cons hfits _ ih =>
    obtain ⟨rest, hrest⟩ := ih
    exact ⟨_, by rw [pack, if_pos hfits, hrest, Option.map_some]⟩

end Struct
