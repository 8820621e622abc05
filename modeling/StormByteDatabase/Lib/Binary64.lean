import Mathlib.Algebra.Group.Int.Defs
import Mathlib.Algebra.Group.Nat.Defs
import Mathlib.Algebra.Order.Group.Unbundled.Int
import Mathlib.Tactic.Common

/-!
# Double precision numbers

A `Binary64` is a sign and a magnitude, and the magnitude is the 63 bit pattern below the sign bit
read as a number. Finite patterns are in the order of the values they stand for: `scaled k` is the
value of the pattern `k` in units of 2^-1074, the least positive one.

`nearest n d` is the pattern nearest to the quotient `n / d`, ties to even, and infinity from the
halfway point after the largest finite value on.

`Underflows n d` is the underflow exception of that rounding. `IsSingle` picks out the values that a
float of single precision has.

`exact` is the value of a finite number with its sign, `trunc` its integral part, and `Denotes x n`
says that `x` is the integer `n`; `exists_denotes` says that every finite number of magnitude 2^53
or more is one.
-/

namespace Lib

/-- The quotient rounded to the nearest integer, ties to even. -/
def divHalfEven (n d : Nat) : Nat :=
  let q := n / d
  let r := 2 * (n % d)
  if r < d ∨ (r = d ∧ q % 2 = 0) then q else q + 1

structure Binary64 where
  negative : Bool
  pattern : Nat
  lt : pattern < 2 ^ 63
  deriving DecidableEq, Repr

namespace Binary64

/-- The pattern of infinity; those above it are not numbers. -/
def infPattern : Nat := 2047 * 2 ^ 52

def IsNaN (x : Binary64) : Prop := infPattern < x.pattern

def IsInfinite (x : Binary64) : Prop := x.pattern = infPattern

def IsFinite (x : Binary64) : Prop := x.pattern < infPattern

instance (x : Binary64) : Decidable x.IsNaN := inferInstanceAs (Decidable (_ < _))
instance (x : Binary64) : Decidable x.IsInfinite := inferInstanceAs (Decidable (_ = _))
instance (x : Binary64) : Decidable x.IsFinite := inferInstanceAs (Decidable (_ < _))

/-- The value of a finite pattern in units of 2^-1074. -/
def scaled (k : Nat) : Nat :=
  if k / 2 ^ 52 = 0 then k else (2 ^ 52 + k % 2 ^ 52) * 2 ^ (k / 2 ^ 52 - 1)

/-- A significand of 53 bits is cut off `s` bits above the unit; a carry out of it lands on the next
pattern by itself. -/
def nearest (n d : Nat) : Nat :=
  let s := Nat.log2 (n * 2 ^ 1074 / d) - 52
  min infPattern (s * 2 ^ 52 + divHalfEven (n * 2 ^ 1074) (d * 2 ^ s))

theorem nearest_lt (n d : Nat) : nearest n d < 2 ^ 63 :=
  Nat.lt_of_le_of_lt (Nat.min_le_left _ _) (by decide)

/-- The quotient `n / d` with a sign, rounded to nearest. -/
def ofQuotient (negative : Bool) (n d : Nat) : Binary64 := ⟨negative, nearest n d, nearest_lt n d⟩

theorem isFinite_ofQuotient {negative : Bool} {n d : Nat}
    (h : ¬ (ofQuotient negative n d).IsInfinite) : (ofQuotient negative n d).IsFinite :=
  Nat.lt_of_le_of_ne (Nat.min_le_left _ _) h

theorem ofQuotient_eq_iff {x : Binary64} {n d : Nat} :
    ofQuotient x.negative n d = x ↔ nearest n d = x.pattern := by
  obtain ⟨negative, pattern, hlt⟩ := x
  simp [ofQuotient]

/-- The rounding of the quotient underflows: it is tiny, which is seen after it was rounded to 53 bits
whatever the exponent, and the result is not exact. -/
def Underflows (n d : Nat) : Prop :=
  4 * (n * 2 ^ 1074) < (2 ^ 54 - 1) * d ∧ scaled (nearest n d) * d ≠ n * 2 ^ 1074

instance (n d : Nat) : Decidable (Underflows n d) := inferInstanceAs (Decidable (_ ∧ _))

/-- Not zero, and with less than the 53 bits of a significand. -/
def IsSubnormal (x : Binary64) : Prop := x.pattern ≠ 0 ∧ x.pattern < 2 ^ 52

instance (x : Binary64) : Decidable x.IsSubnormal := inferInstanceAs (Decidable (_ ∧ _))

/-- A significand of 24 bits and an exponent from -149 to 104. -/
def IsSingle (x : Binary64) : Prop :=
  ∃ n s, n < 2 ^ 24 ∧ 925 ≤ s ∧ s ≤ 1178 ∧ scaled x.pattern = n * 2 ^ s

/-- The value of a finite number in units of 2^-1074. -/
def exact (x : Binary64) : Int := if x.negative then -(scaled x.pattern : Int) else scaled x.pattern

/-- The integral part of a finite number, toward zero. -/
def trunc (x : Binary64) : Int := x.exact.tdiv (2 ^ 1074)

/-- `==`, which a NaN is not to itself, while the two zeros are equal. -/
def equal (x y : Binary64) : Bool :=
  decide (¬ x.IsNaN ∧ x.pattern = y.pattern ∧ (x.negative = y.negative ∨ x.pattern = 0))

/-- The number is the integer `n`. -/
def Denotes (x : Binary64) (n : Int) : Prop := x.IsFinite ∧ x.exact = n * 2 ^ 1074

theorem unit_pos : (0 : Int) < 2 ^ 1074 := Int.pow_pos (by decide)

theorem Denotes.trunc_eq {x : Binary64} {n : Int} (h : x.Denotes n) : x.trunc = n := by
  unfold trunc
  rw [h.2, Int.mul_tdiv_cancel n unit_pos.ne']

theorem denotes_trunc {x : Binary64} (hfin : x.IsFinite) (h : x.trunc * 2 ^ 1074 = x.exact) :
    x.Denotes x.trunc :=
  ⟨hfin, h.symm⟩

/-- A value that does not fit the 53 bits of a significand is a multiple of the bits below. -/
theorem dvd_scaled {k u : Nat} (hle : 2 ^ 53 * 2 ^ u ≤ scaled k) : 2 ^ u ∣ scaled k := by
  have hunit : 0 < 2 ^ u := Nat.two_pow_pos u
  unfold scaled at hle ⊢
  split_ifs at hle ⊢ with hzero
  · have hk : k < 2 ^ 52 := by omega
    have hlarge : 2 ^ 53 ≤ k := Nat.le_trans (Nat.le_mul_of_pos_right _ hunit) hle
    omega
  · have hsig : 2 ^ 52 + k % 2 ^ 52 < 2 ^ 53 := by omega
    have hexp : u ≤ k / 2 ^ 52 - 1 := by
      by_contra hlt
      have hpow : 2 ^ (k / 2 ^ 52 - 1) ≤ 2 ^ u := Nat.pow_le_pow_right (by decide) (by omega)
      have hsmall := Nat.mul_le_mul_left (2 ^ 52 + k % 2 ^ 52) hpow
      have hlarge := Nat.mul_lt_mul_of_pos_right hsig hunit
      exact Nat.lt_irrefl _ (Nat.lt_of_le_of_lt (Nat.le_trans hle hsmall) hlarge)
    exact Nat.dvd_trans (Nat.pow_dvd_pow 2 hexp) (Nat.dvd_mul_left _ _)

theorem natAbs_exact (x : Binary64) : x.exact.natAbs = scaled x.pattern := by
  unfold exact
  split_ifs <;> simp

theorem natAbs_mul_two_pow (n : Int) (u : Nat) : (n * 2 ^ u).natAbs = n.natAbs * 2 ^ u := by
  rw [Int.natAbs_mul, Int.natAbs_pow]
  rfl

theorem Denotes.scaled_eq {x : Binary64} {n : Int} (h : x.Denotes n) :
    scaled x.pattern = n.natAbs * 2 ^ 1074 :=
  (natAbs_exact x).symm.trans ((congrArg Int.natAbs h.2).trans (natAbs_mul_two_pow n 1074))

theorem exists_exact_eq {x : Binary64} {u : Nat} (hle : 2 ^ 53 * 2 ^ u ≤ x.exact.natAbs) :
    ∃ n : Int, x.exact = n * 2 ^ u := by
  have hdvd : 2 ^ u ∣ x.exact.natAbs := by
    rw [natAbs_exact] at hle ⊢
    exact dvd_scaled hle
  obtain ⟨n, hn⟩ := Int.natCast_dvd.mpr hdvd
  rw [Int.natCast_pow, Int.mul_comm] at hn
  exact ⟨n, hn⟩

/-- From 2^53 on every finite number is an integer. -/
theorem exists_denotes {x : Binary64} (hfin : x.IsFinite)
    (hle : 2 ^ 53 * 2 ^ 1074 ≤ x.exact.natAbs) : ∃ n, x.Denotes n := by
  obtain ⟨n, hn⟩ := exists_exact_eq (u := 1074) hle
  exact ⟨n, hfin, hn⟩

/-! ### Comparison -/

variable {x y : Binary64}

theorem equal_iff : x.equal y = true ↔
    ¬ x.IsNaN ∧ x.pattern = y.pattern ∧ (x.negative = y.negative ∨ x.pattern = 0) :=
  decide_eq_true_iff

theorem equal_self_iff : x.equal x = true ↔ ¬ x.IsNaN := by
  rw [equal_iff]
  exact and_iff_left ⟨rfl, .inl rfl⟩

theorem equal_comm (x y : Binary64) : x.equal y = y.equal x := by
  unfold equal IsNaN
  rw [decide_eq_decide]
  constructor
  · rintro ⟨hnan, hpattern, hsign⟩
    exact ⟨hpattern ▸ hnan, hpattern.symm, hpattern ▸ hsign.imp_left Eq.symm⟩
  · rintro ⟨hnan, hpattern, hsign⟩
    exact ⟨hpattern ▸ hnan, hpattern.symm, hpattern ▸ hsign.imp_left Eq.symm⟩

theorem isFinite_of_equal (h : x.equal y = true) : x.IsFinite ↔ y.IsFinite := by
  unfold IsFinite
  rw [(equal_iff.mp h).2.1]

end Binary64

end Lib
