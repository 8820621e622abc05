import StormByteDatabase.Lib.Rounding
import StormByteDatabase.Value

/-!
# Reading a value as a type

`Value::Get<T>` gives the stored alternative itself where it is of type `T`, converts between
arithmetic types by `convert_numeric`, and throws `WrongValueType` otherwise. The result of a
conversion of a floating number to an integral type that cannot represent its integral part is not
defined, so an `Outcome` is a result, an exception or neither.

`convertsExactly`: between integral types the number is kept or the conversion throws.
`get_double_of_integral_iff`: to a double it is rounded without a check, so that it is kept exactly
if it has at most 53 significant bits.
`get_double_exact_iff`: from a double the conversion is exact as well, except for the finite numbers
out of the range of `std::intmax_t`, where a cast without a defined result is made.
-/

namespace StormByteDatabase

open Lib

/-- The integral types among the alternatives. -/
inductive Integral
  | bool
  | num (t : IntType)
  deriving DecidableEq, Repr

namespace Integral

def isSigned : Integral → Bool
  | .bool => false
  | .num t => t.isSigned

/-- `std::numeric_limits<T>::lowest()`. -/
def lowest (w : LongWidth) : Integral → Int
  | .bool => 0
  | .num t => t.lowest w

/-- `std::numeric_limits<T>::max()`. -/
def max (w : LongWidth) : Integral → Int
  | .bool => 1
  | .num t => t.max w

def Carrier (w : LongWidth) : Integral → Type
  | .bool => Bool
  | .num t => Num w t

instance (w : LongWidth) : ∀ t : Integral, DecidableEq (t.Carrier w)
  | .bool => inferInstanceAs (DecidableEq Bool)
  | .num t => inferInstanceAs (DecidableEq (Num w t))

/-- The number an object of the type stands for. -/
def toInt {w : LongWidth} : ∀ {t : Integral}, t.Carrier w → Int
  | .bool, b => Bool.toNat b
  | .num _, n => Num.val n

/-- `static_cast` to the type. -/
def cast (w : LongWidth) : (t : Integral) → Int → t.Carrier w
  | .bool, n => decide (n ≠ 0)
  | .num t, n => Num.cast w t n

variable {w : LongWidth} {t : Integral}

theorem toInt_bounds (x : t.Carrier w) : t.lowest w ≤ toInt x ∧ toInt x ≤ t.max w := by
  cases t with
  | bool =>
    show (0 : Int) ≤ Bool.toNat x ∧ (Bool.toNat x : Int) ≤ 1
    cases x <;> decide
  | num t => exact ⟨Num.lower x, Num.upper x⟩

theorem toInt_cast {n : Int} (hlo : t.lowest w ≤ n) (hhi : n ≤ t.max w) :
    toInt (t.cast w n) = n := by
  cases t with
  | bool =>
    have hcases : n = 0 ∨ n = 1 := by
      have : 0 ≤ n := hlo
      have : n ≤ 1 := hhi
      omega
    rcases hcases with rfl | rfl <;> rfl
  | num t => exact Num.cast_of_mem hlo hhi

theorem toInt_inj {x y : t.Carrier w} (h : toInt x = toInt y) : x = y := by
  cases t with
  | bool => cases x <;> cases y <;> first | rfl | cases h
  | num t =>
    obtain ⟨n, _, _⟩ := x
    obtain ⟨m, _, _⟩ := y
    obtain rfl : n = m := h
    rfl

theorem cast_toInt (x : t.Carrier w) : t.cast w (toInt x) = x :=
  toInt_inj (toInt_cast (toInt_bounds x).1 (toInt_bounds x).2)

theorem lowest_nonpos (w : LongWidth) (t : Integral) : t.lowest w ≤ 0 := by
  cases t with
  | bool => exact Int.le_refl 0
  | num t => cases t <;> cases w <;> decide

theorem lowest_of_unsigned (h : t.isSigned = false) : t.lowest w = 0 := by
  cases t with
  | bool => rfl
  | num t => exact if_neg (by simpa [isSigned] using h)

end Integral

/-- The type arguments of `Get`, `std::monostate` apart. -/
inductive Dest
  | integral (t : Integral)
  | double
  | text
  | blob
  deriving DecidableEq, Repr

abbrev Dest.Carrier (w : LongWidth) : Dest → Type
  | .integral t => t.Carrier w
  | .double => Binary64
  | .text => Bytes
  | .blob => Bytes

/-- What a call of `Get` comes to. -/
inductive Outcome (α : Type)
  | returned (x : α)
  /-- `WrongValueType` with its text. -/
  | threw (what : Bytes)
  /-- A cast without a defined result was made. -/
  | undefined
  deriving DecidableEq, Repr

/-! ### The conversions -/

variable (w : LongWidth)

/-- A number held in a `std::intmax_t` against the limits of the type. -/
def narrow (t : Integral) (overflow : Bytes) (tmp : Int) : Outcome (t.Carrier w) :=
  if t.isSigned then
    if tmp < t.lowest w ∨ tmp > t.max w then .threw overflow else .returned (t.cast w tmp)
  else if tmp < 0 then .threw (ascii "Negative value cannot be converted to unsigned.")
  else if tmp > t.max w then .threw overflow
  else .returned (t.cast w tmp)

/-- `convert_numeric` between integral types. -/
def convertIntegral (source dest : Integral) (val : Int) : Outcome (dest.Carrier w) :=
  let overflow := ascii "Integer conversion would overflow/narrow."
  if source.isSigned then narrow w dest overflow val
  else if val > dest.max w then .threw overflow
  else .returned (dest.cast w val)

/-- `convert_numeric` from a double to an integral type. -/
def convertDouble (dest : Integral) (val : Binary64) : Outcome (dest.Carrier w) :=
  if ¬ val.IsFinite then .threw (ascii "Non-finite floating conversion to integer.")
  else if val.trunc * 2 ^ 1074 ≠ val.exact then
    .threw (ascii "Floating value has fractional part; would lose data.")
  -- the cast to `std::intmax_t`
  else if val.trunc < -2 ^ 63 ∨ 2 ^ 63 ≤ val.trunc then .undefined
  else narrow w dest (ascii "Floating to integer conversion would overflow/narrow.") val.trunc

/-- `static_cast<double>` of a number. -/
def toDouble (n : Int) : Binary64 := Binary64.ofQuotient (n < 0) n.natAbs 1

variable {w}

/-- `Get`. -/
def Value.get : (t : Dest) → Value w → Outcome (t.Carrier w)
  | _, .null => .threw (ascii "Requested type does not match stored type (null).")
  | .integral .bool, .boolean b => .returned b
  | .integral (.num .int), .integer n => .returned n
  | .integral (.num .unsignedInt), .unsignedInteger n => .returned n
  | .integral (.num .longInt), .longInteger n => .returned n
  | .integral (.num .unsignedLongInt), .unsignedLongInteger n => .returned n
  | .double, .double x => .returned x
  | .text, .text s => .returned s
  | .blob, .blob b => .returned b
  | .integral t, .boolean b => convertIntegral w .bool t b.toNat
  | .integral t, .integer n => convertIntegral w (.num .int) t n.val
  | .integral t, .unsignedInteger n => convertIntegral w (.num .unsignedInt) t n.val
  | .integral t, .longInteger n => convertIntegral w (.num .longInt) t n.val
  | .integral t, .unsignedLongInteger n => convertIntegral w (.num .unsignedLongInt) t n.val
  | .integral t, .double x => convertDouble w t x
  | .double, .boolean b => .returned (toDouble b.toNat)
  | .double, .integer n => .returned (toDouble n.val)
  | .double, .unsignedInteger n => .returned (toDouble n.val)
  | .double, .longInteger n => .returned (toDouble n.val)
  | .double, .unsignedLongInteger n => .returned (toDouble n.val)
  | _, _ => .threw (ascii "Requested type does not match stored type.")

/-- The constructor of `Value` for the type. -/
def Value.ofIntegral : (t : Integral) → t.Carrier w → Value w
  | .bool, b => .boolean b
  | .num .int, n => .integer n
  | .num .unsignedInt, n => .unsignedInteger n
  | .num .longInt, n => .longInteger n
  | .num .unsignedLongInt, n => .unsignedLongInteger n

/-! ### Between integral types -/

/-- The number is one of the type. -/
def Integral.InRange (w : LongWidth) (t : Integral) (n : Int) : Prop :=
  t.lowest w ≤ n ∧ n ≤ t.max w

instance (t : Integral) (n : Int) : Decidable (t.InRange w n) :=
  inferInstanceAs (Decidable (_ ∧ _))

variable {source dest t : Integral} {overflow : Bytes} {n : Int}

theorem narrow_of_inRange (h : t.InRange w n) : narrow w t overflow n = .returned (t.cast w n) := by
  obtain ⟨hlo, hhi⟩ := h
  unfold narrow
  split_ifs with hsigned hout hneg hover
  · omega
  · rfl
  · have := Integral.lowest_of_unsigned (w := w) (by simpa using hsigned)
    omega
  · omega
  · rfl

theorem narrow_of_not_inRange (h : ¬ t.InRange w n) : ∃ what, narrow w t overflow n = .threw what := by
  unfold narrow
  unfold Integral.InRange at h
  split_ifs with hsigned hout hneg hover
  · exact ⟨_, rfl⟩
  · omega
  · exact ⟨_, rfl⟩
  · exact ⟨_, rfl⟩
  · have := Integral.lowest_of_unsigned (w := w) (by simpa using hsigned)
    omega

open Integral (toInt toInt_bounds cast_toInt)

theorem convertIntegral_of_inRange (x : source.Carrier w) (h : dest.InRange w (toInt x)) :
    convertIntegral w source dest (toInt x) = .returned (dest.cast w (toInt x)) := by
  unfold convertIntegral
  split_ifs with hsigned hover
  · exact narrow_of_inRange h
  · exact absurd h.2 (by omega)
  · rfl

theorem convertIntegral_of_not_inRange (x : source.Carrier w) (h : ¬ dest.InRange w (toInt x)) :
    ∃ what, convertIntegral w source dest (toInt x) = .threw what := by
  unfold convertIntegral
  split_ifs with hsigned hover
  · exact narrow_of_not_inRange h
  · exact ⟨_, rfl⟩
  · -- a number of an unsigned type is not below any destination
    have hpos := (toInt_bounds x).1
    rw [Integral.lowest_of_unsigned (by simpa using hsigned)] at hpos
    have hlow := Integral.lowest_nonpos w dest
    exact absurd ⟨by omega, by omega⟩ h

theorem get_ofIntegral (source dest : Integral) (x : source.Carrier w) :
    (Value.ofIntegral source x).get (.integral dest) = convertIntegral w source dest (toInt x) := by
  by_cases hsame : source = dest
  · subst hsame
    rw [convertIntegral_of_inRange x (toInt_bounds x), cast_toInt]
    rcases source with _ | _ | _ | _ | _ <;> rfl
  · rcases source with _ | _ | _ | _ | _ <;> rcases dest with _ | _ | _ | _ | _ <;>
      first | rfl | exact absurd rfl hsame

theorem get_ofIntegral_eq_returned_iff (x : source.Carrier w) (y : dest.Carrier w) :
    (Value.ofIntegral source x).get (.integral dest) = .returned y ↔ toInt x = toInt y := by
  rw [get_ofIntegral]
  by_cases hrange : dest.InRange w (toInt x)
  · have hcast : toInt (dest.cast w (toInt x)) = toInt x := Integral.toInt_cast hrange.1 hrange.2
    rw [convertIntegral_of_inRange x hrange]
    constructor
    · intro h
      rw [← hcast, Outcome.returned.inj h]
    · intro h
      rw [Integral.toInt_inj (hcast.trans h)]
  · obtain ⟨what, hwhat⟩ := convertIntegral_of_not_inRange x hrange
    rw [hwhat]
    refine iff_of_false (fun h => by cases h) fun h => hrange ?_
    rw [h]
    exact toInt_bounds y

/-- `Get` of an integral type for a number of an integral type: it returns that number or throws, and
what it returns leads back. -/
structure ConvertsExactly (w : LongWidth) (source dest : Integral) (x : source.Carrier w) :
    Prop where
  returns : (∃ y, (Value.ofIntegral source x).get (.integral dest) = .returned y) ↔
    dest.InRange w (toInt x)
  same : ∀ y, (Value.ofIntegral source x).get (.integral dest) = .returned y → toInt y = toInt x
  throws : ¬ dest.InRange w (toInt x) →
    ∃ what, (Value.ofIntegral source x).get (.integral dest) = .threw what
  back : ∀ y, (Value.ofIntegral source x).get (.integral dest) = .returned y →
    (Value.ofIntegral dest y).get (.integral source) = .returned x

/-- **Conversions between integral types are exact.** -/
theorem convertsExactly (w : LongWidth) (source dest : Integral) (x : source.Carrier w) :
    ConvertsExactly w source dest x where
  returns := by
    constructor
    · rintro ⟨y, hy⟩
      rw [(get_ofIntegral_eq_returned_iff x y).mp hy]
      exact toInt_bounds y
    · intro hrange
      refine ⟨dest.cast w (toInt x), ?_⟩
      rw [get_ofIntegral, convertIntegral_of_inRange x hrange]
  same y hy := ((get_ofIntegral_eq_returned_iff x y).mp hy).symm
  throws hrange := by
    rw [get_ofIntegral]
    exact convertIntegral_of_not_inRange x hrange
  back y hy := by
    rw [get_ofIntegral_eq_returned_iff] at hy ⊢
    exact hy.symm

/-- The number a value of an integral type stores. -/
def Value.number : Value w → Option Int
  | .integer n => some n.val
  | .unsignedInteger n => some n.val
  | .longInteger n => some n.val
  | .unsignedLongInteger n => some n.val
  | .boolean b => some b.toNat
  | _ => none

theorem number_ofIntegral (x : t.Carrier w) : (Value.ofIntegral t x).number = some (toInt x) := by
  rcases t with _ | _ | _ | _ | _ <;> rfl

theorem exists_ofIntegral {v : Value w} (h : v.number = some n) :
    ∃ (t : Integral) (x : t.Carrier w), v = .ofIntegral t x ∧ toInt x = n := by
  cases v with
  | integer m => exact ⟨.num .int, m, rfl, Option.some.inj h⟩
  | unsignedInteger m => exact ⟨.num .unsignedInt, m, rfl, Option.some.inj h⟩
  | longInteger m => exact ⟨.num .longInt, m, rfl, Option.some.inj h⟩
  | unsignedLongInteger m => exact ⟨.num .unsignedLongInt, m, rfl, Option.some.inj h⟩
  | boolean b => exact ⟨.bool, b, rfl, Option.some.inj h⟩
  | null | double | text | blob => cases h

theorem get_eq_returned_iff {v : Value w} (h : v.number = some n) (y : dest.Carrier w) :
    v.get (.integral dest) = .returned y ↔ n = toInt y := by
  obtain ⟨t, x, rfl, rfl⟩ := exists_ofIntegral h
  exact get_ofIntegral_eq_returned_iff x y

/-- The readers of results keep a number exactly when `long int` has it. -/
theorem number_intOrLong_iff :
    (intOrLong w n).number = some n ↔ (Integral.num .longInt).InRange w n := by
  have hint : IntType.lowest w .longInt ≤ IntType.lowest w .int ∧
      IntType.max w .int ≤ IntType.max w .longInt := by
    cases w <;> decide
  unfold intOrLong
  split_ifs with hout
  · constructor
    · intro h
      have hval : (Num.cast w .longInt n).val = n := Option.some.inj h
      exact hval ▸ ⟨(Num.cast w .longInt n).lower, (Num.cast w .longInt n).upper⟩
    · exact fun h => congrArg some (Num.cast_of_mem h.1 h.2)
  · refine iff_of_true (congrArg some (Num.cast_of_mem (by omega) (by omega))) ?_
    show IntType.lowest w .longInt ≤ n ∧ n ≤ IntType.max w .longInt
    omega

/-- `u` holds what `v` does: the same number of whatever integral type, or the same value. -/
def Value.Same (v u : Value w) : Prop :=
  match v.number with
  | some n => u.number = some n
  | none => u = v

theorem same_of_number {v u : Value w} (h : v.number = some n) : v.Same u ↔ u.number = some n := by
  unfold Value.Same
  rw [h]

theorem same_of_no_number {v u : Value w} (h : v.number = none) : v.Same u ↔ u = v := by
  unfold Value.Same
  rw [h]

theorem same_null_iff {v : Value w} : v.Same .null ↔ v = .null := by
  cases hnumber : v.number with
  | some n =>
    refine (same_of_number hnumber).trans (iff_of_false ?_ ?_)
    · exact fun h => by cases h
    · rintro rfl
      cases hnumber
  | none => exact (same_of_no_number hnumber).trans eq_comm

/-! ### To a double -/

/-- `Get<double>` throws or gives the double that is the number. -/
def ExactDouble (w : LongWidth) (t : Integral) (x : t.Carrier w) : Prop :=
  (∃ what, (Value.ofIntegral t x).get .double = .threw what) ∨
    ∃ d, (Value.ofIntegral t x).get .double = .returned d ∧ d.Denotes (toInt x)

theorem get_double_of_integral (x : t.Carrier w) :
    (Value.ofIntegral t x).get .double = .returned (toDouble (toInt x)) := by
  rcases t with _ | _ | _ | _ | _ <;> rfl

theorem exactDouble_iff (x : t.Carrier w) :
    ExactDouble w t x ↔ (toDouble (toInt x)).Denotes (toInt x) := by
  have hget := get_double_of_integral x
  constructor
  · rintro (⟨what, hthrew⟩ | ⟨d, hd, hdenotes⟩)
    · cases hget.symm.trans hthrew
    · rwa [Outcome.returned.inj (hget.symm.trans hd)]
  · exact fun h => .inr ⟨_, hget, h⟩

theorem Integral.natAbs_lt (x : t.Carrier w) : (toInt x).natAbs < 2 ^ 64 := by
  have hbounds := toInt_bounds x
  have hlimits : -2 ^ 63 ≤ t.lowest w ∧ t.max w < 2 ^ 64 := by
    rcases t with _ | _ | _ | _ | _ <;> cases w <;> decide
  omega

/-- **Integers become the doubles they are** exactly when they have at most 53 significant bits. -/
theorem get_double_of_integral_iff (w : LongWidth) (t : Integral) (x : t.Carrier w) :
    ExactDouble w t x ↔ Binary64.FitsSignificand (toInt x).natAbs :=
  (exactDouble_iff x).trans (Binary64.denotes_ofQuotient_iff (by decide) (Integral.natAbs_lt x))

/-- 2^53 + 1 as a `long int`. -/
def twoPow53Succ : Num .bits64 .longInt := ⟨2 ^ 53 + 1, by decide, by decide⟩

/-- 2^53 + 1 becomes the double 2^53. -/
theorem get_double_rounded :
    ¬ ∀ (t : IntType) (x : Num .bits64 t), ExactDouble .bits64 (.num t) x := by
  intro h
  have hdenotes := (exactDouble_iff (t := .num .longInt) twoPow53Succ).mp (h .longInt twoPow53Succ)
  have hexact : (toDouble (2 ^ 53 + 1)).exact ≠ (2 ^ 53 + 1) * 2 ^ 1074 := by
    decide +kernel
  exact hexact hdenotes.2

/-! ### From a double -/

/-- The conversion of the double is exact: it returns the integers of the type that the double is,
throws for everything else, and makes no cast without a result. -/
structure ExactTo (w : LongWidth) (t : Integral) (x : Binary64) : Prop where
  returns : ∀ n, (∃ r, (Value.double x).get (.integral t) = .returned r ∧ toInt (w := w) r = n) ↔
    x.Denotes n ∧ t.InRange w n
  throws : (¬ ∃ n, x.Denotes n ∧ t.InRange w n) →
    ∃ what, (Value.double (w := w) x).get (.integral t) = .threw what
  defined : (Value.double (w := w) x).get (.integral t) ≠ .undefined

/-- The integral part of a finite number can be held in a `std::intmax_t`. -/
def FitsIntmax (x : Binary64) : Prop :=
  x.IsFinite → -2 ^ 63 * 2 ^ 1074 ≤ x.exact ∧ x.exact < 2 ^ 63 * 2 ^ 1074

theorem get_double (x : Binary64) :
    (Value.double x).get (.integral t) = convertDouble w t x := by
  rcases t with _ | _ | _ | _ | _ <;> rfl

theorem convertDouble_of_not_denotes {x : Binary64} (h : ¬ ∃ n, x.Denotes n) :
    ∃ what, convertDouble w t x = .threw what := by
  unfold convertDouble
  by_cases hfin : x.IsFinite
  · by_cases hint : x.trunc * 2 ^ 1074 = x.exact
    · exact absurd ⟨_, Binary64.denotes_trunc hfin hint⟩ h
    · rw [if_neg (not_not.mpr hfin), if_pos hint]
      exact ⟨_, rfl⟩
  · rw [if_pos hfin]
    exact ⟨_, rfl⟩

theorem convertDouble_of_denotes {x : Binary64} (h : x.Denotes n) :
    convertDouble w t x = if n < -2 ^ 63 ∨ 2 ^ 63 ≤ n then .undefined
      else narrow w t (ascii "Floating to integer conversion would overflow/narrow.") n := by
  unfold convertDouble
  rw [if_neg (not_not.mpr h.1), h.trunc_eq, if_neg (not_not.mpr h.2.symm)]

theorem fitsIntmax_of_denotes {x : Binary64} (h : x.Denotes n) :
    FitsIntmax x ↔ -2 ^ 63 ≤ n ∧ n < 2 ^ 63 := by
  have hunit := Binary64.unit_pos
  unfold FitsIntmax
  rw [h.2, mul_le_mul_iff_of_pos_right hunit, mul_lt_mul_iff_of_pos_right hunit]
  exact ⟨fun himp => himp h.1, fun hn _ => hn⟩

theorem fitsIntmax_of_not_denotes {x : Binary64} (h : ¬ ∃ n, x.Denotes n) : FitsIntmax x := by
  intro hfin
  by_contra hout
  refine h (Binary64.exists_denotes hfin ?_)
  have hunit : (0 : Int) < 2 ^ 1074 := Binary64.unit_pos
  have hlarge : (2 : Int) ^ 63 * 2 ^ 1074 ≤ x.exact.natAbs := by
    generalize (2 : Int) ^ 1074 = u at hout hunit ⊢
    omega
  have hscale : (2 : Int) ^ 53 * 2 ^ 1074 ≤ 2 ^ 63 * 2 ^ 1074 := by
    generalize (2 : Int) ^ 1074 = u at hunit ⊢
    omega
  exact_mod_cast hscale.trans hlarge

theorem exactTo_of_returned {x : Binary64} (hn : x.Denotes n) (hrange : t.InRange w n)
    (hget : (Value.double x).get (.integral t) = .returned (t.cast w n)) : ExactTo w t x where
  returns m := by
    constructor
    · rintro ⟨r, hr, rfl⟩
      obtain rfl : t.cast w n = r := Outcome.returned.inj (hget.symm.trans hr)
      rw [Integral.toInt_cast hrange.1 hrange.2]
      exact ⟨hn, hrange⟩
    · rintro ⟨hm, _⟩
      obtain rfl : n = m := hn.trunc_eq.symm.trans hm.trunc_eq
      exact ⟨_, hget, Integral.toInt_cast hrange.1 hrange.2⟩
  throws hnone := absurd ⟨n, hn, hrange⟩ hnone
  defined hundef := by
    rw [hget] at hundef
    cases hundef

theorem exactTo_of_threw {x : Binary64} {what : Bytes} (hnone : ¬ ∃ n, x.Denotes n ∧ t.InRange w n)
    (hget : (Value.double (w := w) x).get (.integral t) = .threw what) : ExactTo w t x where
  returns m := by
    constructor
    · rintro ⟨r, hr, _⟩
      rw [hget] at hr
      cases hr
    · exact fun hm => absurd ⟨m, hm⟩ hnone
  throws _ := ⟨what, hget⟩
  defined hundef := by
    rw [hget] at hundef
    cases hundef

/-- **Reading a double as an integer is exact** except for the finite numbers that a
`std::intmax_t` cannot hold. -/
theorem get_double_exact_iff (w : LongWidth) (t : Integral) (x : Binary64) :
    ExactTo w t x ↔ FitsIntmax x := by
  by_cases hint : ∃ n, x.Denotes n
  · obtain ⟨n, hn⟩ := hint
    rw [fitsIntmax_of_denotes hn]
    constructor
    · intro h
      by_contra hout
      have hcast : n < -2 ^ 63 ∨ 2 ^ 63 ≤ n := by omega
      refine h.defined ?_
      rw [get_double, convertDouble_of_denotes hn, if_pos hcast]
    · intro hfit
      have hcast : ¬ (n < -2 ^ 63 ∨ 2 ^ 63 ≤ n) := by omega
      have hget : (Value.double x).get (.integral t) =
          narrow w t (ascii "Floating to integer conversion would overflow/narrow.") n := by
        rw [get_double, convertDouble_of_denotes hn, if_neg hcast]
      by_cases hrange : t.InRange w n
      · rw [narrow_of_inRange hrange] at hget
        exact exactTo_of_returned hn hrange hget
      · obtain ⟨what, hwhat⟩ := narrow_of_not_inRange (w := w) (t := t) hrange
        refine exactTo_of_threw ?_ (hget.trans hwhat)
        rintro ⟨m, hm, hmrange⟩
        obtain rfl : n = m := hn.trunc_eq.symm.trans hm.trunc_eq
        exact hrange hmrange
  · obtain ⟨what, hwhat⟩ := convertDouble_of_not_denotes (w := w) (t := t) hint
    refine iff_of_true ?_ (fitsIntmax_of_not_denotes hint)
    exact exactTo_of_threw (fun ⟨n, hn, _⟩ => hint ⟨n, hn⟩) ((get_double x).trans hwhat)

/-- 2^63, a number of `unsigned long int`. -/
def twoPow63 : Binary64 := ⟨false, 1086 * 2 ^ 52, by decide⟩

/-- Asked for 2^63 as `unsigned long int`, `Get` makes a cast without a result. -/
theorem get_two_pow_63 :
    ¬ ∀ (t : Integral) (x : Binary64), ExactTo .bits64 t x := by
  intro h
  have hundef : convertDouble .bits64 (.num .unsignedLongInt) twoPow63 = .undefined := by
    decide +kernel
  exact (h (.num .unsignedLongInt) twoPow63).defined ((get_double twoPow63).trans hundef)

end StormByteDatabase
