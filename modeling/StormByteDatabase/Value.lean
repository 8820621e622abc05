import Mathlib.Tactic.Positivity
import StormByteDatabase.Lib.Binary64
import StormByteDatabase.Typedefs

/-!
# Values

A `Value` is one alternative of `ValuesVariant`; `m_type` follows from the alternative. The two
integral types of `long int` have 32 or 64 bits, so values are over a `LongWidth`, and a number
carries the bounds of its type. `Num.cast` is `static_cast` between integral types, which keeps the
numbers that fit and no others (`cast_eq_iff`).
-/

namespace StormByteDatabase

open Lib

/-- The width of `long int`: 64 bits on Linux and macOS, 32 on Windows. -/
inductive LongWidth
  | bits32
  | bits64
  deriving DecidableEq, Repr

def LongWidth.bits : LongWidth → Nat
  | .bits32 => 32
  | .bits64 => 64

/-- The integral alternatives of `ValuesVariant`, `bool` apart. -/
inductive IntType
  | int
  | unsignedInt
  | longInt
  | unsignedLongInt
  deriving DecidableEq, Repr

namespace IntType

def bits (w : LongWidth) : IntType → Nat
  | .int | .unsignedInt => 32
  | .longInt | .unsignedLongInt => w.bits

def isSigned : IntType → Bool
  | .int | .longInt => true
  | .unsignedInt | .unsignedLongInt => false

/-- `std::numeric_limits<T>::lowest()`. -/
def lowest (w : LongWidth) (t : IntType) : Int :=
  if t.isSigned then -2 ^ (t.bits w - 1) else 0

/-- `std::numeric_limits<T>::max()`. -/
def max (w : LongWidth) (t : IntType) : Int :=
  if t.isSigned then 2 ^ (t.bits w - 1) - 1 else 2 ^ t.bits w - 1

end IntType

/-- A number of an integral type. -/
structure Num (w : LongWidth) (t : IntType) where
  val : Int
  lower : t.lowest w ≤ val
  upper : val ≤ t.max w
  deriving DecidableEq, Repr

namespace Num

theorem bits_pos (w : LongWidth) (t : IntType) : 0 < t.bits w := by
  cases t <;> cases w <;> decide

/-- The number of the type that is congruent to `n`. -/
def wrap (w : LongWidth) (t : IntType) (n : Int) : Int := (n - t.lowest w) % 2 ^ t.bits w + t.lowest w

theorem max_eq (w : LongWidth) (t : IntType) : t.max w = t.lowest w + 2 ^ t.bits w - 1 := by
  have hsplit : (2 : Int) ^ t.bits w = 2 * 2 ^ (t.bits w - 1) := by
    rw [← Int.pow_succ', Nat.sub_add_cancel (bits_pos w t)]
  unfold IntType.max IntType.lowest
  split_ifs
  · omega
  · omega

/-- `static_cast` to the type. -/
def cast (w : LongWidth) (t : IntType) (n : Int) : Num w t where
  val := wrap w t n
  lower := by
    have hpos : (0 : Int) < 2 ^ t.bits w := by positivity
    have := Int.emod_nonneg (n - t.lowest w) hpos.ne'
    unfold wrap
    omega
  upper := by
    have hpos : (0 : Int) < 2 ^ t.bits w := by positivity
    have := Int.emod_lt_of_pos (n - t.lowest w) hpos
    rw [max_eq]
    unfold wrap
    omega

theorem cast_of_mem {w : LongWidth} {t : IntType} {n : Int} (hlo : t.lowest w ≤ n)
    (hhi : n ≤ t.max w) : (cast w t n).val = n := by
  rw [max_eq] at hhi
  show (n - t.lowest w) % 2 ^ t.bits w + t.lowest w = n
  rw [Int.emod_eq_of_lt (by omega) (by omega)]
  omega

theorem cast_eq_iff {w : LongWidth} {t : IntType} {n : Int} :
    (cast w t n).val = n ↔ t.lowest w ≤ n ∧ n ≤ t.max w :=
  ⟨fun h => h ▸ ⟨(cast w t n).lower, (cast w t n).upper⟩, fun h => cast_of_mem h.1 h.2⟩

theorem cast_congr {w : LongWidth} {t : IntType} {n m : Int}
    (h : n % 2 ^ t.bits w = m % 2 ^ t.bits w) : cast w t n = cast w t m := by
  have hwrap : wrap w t n = wrap w t m := by
    unfold wrap
    rw [Int.sub_emod, h, ← Int.sub_emod]
  unfold cast
  simp only [hwrap]

theorem int_bounds {w : LongWidth} (n : Num w .int) : -2 ^ 31 ≤ n.val ∧ n.val < 2 ^ 31 :=
  ⟨n.lower, Int.lt_of_le_sub_one n.upper⟩

theorem longInt_bounds {w : LongWidth} (n : Num w .longInt) : -2 ^ 63 ≤ n.val ∧ n.val < 2 ^ 63 := by
  have hlo : -2 ^ (w.bits - 1) ≤ n.val := n.lower
  have hhi : n.val ≤ 2 ^ (w.bits - 1) - 1 := n.upper
  cases w with
  | bits32 =>
    simp only [LongWidth.bits] at hlo hhi
    omega
  | bits64 =>
    simp only [LongWidth.bits] at hlo hhi
    omega

end Num

/-- `Value::Type`. -/
inductive ValueType
  | null
  | integer
  | unsignedInteger
  | longInteger
  | unsignedLongInteger
  | double
  | text
  | blob
  | boolean
  deriving DecidableEq, Repr

inductive Value (w : LongWidth)
  | null
  | integer (n : Num w .int)
  | unsignedInteger (n : Num w .unsignedInt)
  | longInteger (n : Num w .longInt)
  | unsignedLongInteger (n : Num w .unsignedLongInt)
  | double (x : Binary64)
  | text (s : Bytes)
  | blob (b : Bytes)
  | boolean (b : Bool)
  deriving DecidableEq, Repr

/-- `Value::Type()`. -/
def Value.type {w : LongWidth} : Value w → ValueType
  | .null => .null
  | .integer _ => .integer
  | .unsignedInteger _ => .unsignedInteger
  | .longInteger _ => .longInteger
  | .unsignedLongInteger _ => .unsignedLongInteger
  | .double _ => .double
  | .text _ => .text
  | .blob _ => .blob
  | .boolean _ => .boolean

/-- `int` where the number fits, `long int` otherwise. The readers of all backends store an integer
of 64 bits in this way. -/
def intOrLong (w : LongWidth) (v : Int) : Value w :=
  if v > IntType.max w .int ∨ v < IntType.lowest w .int then .longInteger (Num.cast w .longInt v)
  else .integer (Num.cast w .int v)

theorem intOrLong_ne {w : LongWidth} {v : Int} {u : Value w} (hint : u.type ≠ .integer)
    (hlong : u.type ≠ .longInteger) : intOrLong w v ≠ u := by
  unfold intOrLong
  split_ifs
  · rintro rfl
    exact hlong rfl
  · rintro rfl
    exact hint rfl

theorem intOrLong_ne_null {w : LongWidth} {v : Int} : intOrLong w v ≠ .null :=
  intOrLong_ne (by simp [Value.type]) (by simp [Value.type])

end StormByteDatabase
