import Mathlib.Algebra.Order.Field.Power
import Mathlib.Data.Rat.Floor
import Mathlib.Tactic.FieldSimp
import Mathlib.Tactic.Linarith
import Mathlib.Tactic.Positivity
import StormByteDatabase.Lib.Rounding

/-!
# Decimals that stand for a double

`decimal m e` is `m * 10 ^ e`, and `nearestRat q` the pattern nearest to a rational number. A double is
written as one of two decimals. `Closest c x q`: no decimal of at most `c` significant digits is nearer
to `x` than `q`, which is one. `Precise x q`: `q` has at most 17 digits and is rounded to `x`, and no
decimal with the same last place that is rounded to `x` is nearer.

`closest_rounds_iff`: the closest decimal is rounded to a number that is not subnormal exactly when any
of so many digits is. `precise_underflows_iff`: the rounding of a precise decimal underflows exactly when
the number is subnormal.

Proof. A decimal that is rounded to `x` is within half a unit in the last of 53 bits, and there is no
room for two of 15 digits. A subnormal number has more than 17 digits, so that its decimal is not exact.
At 2^-1022 the decimals that underflow although they are rounded to it are further away than the one
that ends in 14.
-/

namespace Lib.Binary64

/-- The pattern nearest to a rational number that is not negative. -/
def nearestRat (q : ℚ) : Nat := nearest q.num.natAbs q.den

/-- The value of a finite number without its sign. -/
def magnitude (x : Binary64) : ℚ := scaled x.pattern / 2 ^ 1074

def decimal (m : ℕ) (e : ℤ) : ℚ := m * 10 ^ e

structure Closest (c : ℕ) (x : Binary64) (q : ℚ) : Prop where
  digits : ∃ m e, m < 10 ^ c ∧ q = decimal m e
  nearer : ∀ m e, m < 10 ^ c → |q - x.magnitude| ≤ |decimal m e - x.magnitude|

structure Precise (x : Binary64) (q : ℚ) : Prop where
  rounds : nearestRat q = x.pattern
  nearer : ∃ m e, m < 10 ^ 17 ∧ q = decimal m e ∧ ∀ m', nearestRat (decimal m' e) = x.pattern →
    |q - x.magnitude| ≤ |decimal m' e - x.magnitude|

variable {x : Binary64} {q : ℚ} {k : Nat}

theorem decimal_nonneg (m : ℕ) (e : ℤ) : 0 ≤ decimal m e := by
  unfold decimal
  positivity

theorem natAbs_num_div_den (hq : 0 ≤ q) : (q.num.natAbs : ℚ) / q.den = q := by
  have hnum : ((q.num.natAbs : ℤ) : ℚ) = q.num := by
    rw [Int.natAbs_of_nonneg (Rat.num_nonneg.mpr hq)]
  rw [← Int.cast_natCast, hnum, Rat.num_div_den]

theorem nearestRat_div {n d : Nat} (hd : 0 < d) : nearestRat ((n : ℚ) / d) = nearest n d := by
  have hvalue := natAbs_num_div_den (q := (n : ℚ) / d) (by positivity)
  refine nearest_eq_of_mul_eq (Rat.den_pos _) hd ?_
  have hden : (0 : ℚ) < ((n : ℚ) / d).den := by exact_mod_cast Rat.den_pos _
  have hd' : (0 : ℚ) < d := by exact_mod_cast hd
  rw [div_eq_div_iff hden.ne' hd'.ne'] at hvalue
  exact_mod_cast hvalue

/-! ### Units of 2^-1074 -/

def units (q : ℚ) : ℚ := q * 2 ^ 1074

theorem two_pow_pos : (0 : ℚ) < 2 ^ 1074 := by
  positivity

theorem units_sub (a b : ℚ) : units (a - b) = units a - units b := sub_mul _ _ _

theorem units_le_units {a b : ℚ} : units a ≤ units b ↔ a ≤ b := mul_le_mul_iff_of_pos_right two_pow_pos

theorem units_div (a b : ℚ) : units (a / b) = units a / b := div_mul_eq_mul_div _ _ _

theorem abs_units (a : ℚ) : |units a| = units |a| := by
  unfold units
  rw [abs_mul, abs_of_pos two_pow_pos]

theorem units_magnitude (x : Binary64) : units x.magnitude = scaled x.pattern :=
  div_mul_cancel₀ _ two_pow_pos.ne'

theorem units_natCast_div (n d : Nat) : units ((n : ℚ) / d) = ((n * 2 ^ 1074 : ℕ) : ℚ) / d := by
  rw [units_div, units, Nat.cast_mul, Nat.cast_pow, Nat.cast_ofNat]

/-! ### The interval of a pattern -/

theorem mids_of_nearestRat (hq : 0 ≤ q) (hfin : k < infPattern) (h : nearestRat q = k) :
    (∀ j, j + 1 = k → (mid j : ℚ) ≤ 2 * units q) ∧ 2 * units q ≤ mid k := by
  have hrounds := (nearest_eq_iff (Rat.den_pos q) hfin).mp h
  have hden : (0 : ℚ) < q.den := by exact_mod_cast Rat.den_pos q
  have hunits : units q * q.den = ((q.num.natAbs * 2 ^ 1074 : ℕ) : ℚ) := by
    conv_lhs => rw [← natAbs_num_div_den hq, units_natCast_div]
    rw [natAbs_num_div_den hq, div_mul_cancel₀ _ hden.ne']
  generalize q.num.natAbs * 2 ^ 1074 = N at hrounds hunits
  constructor
  · intro j hj
    have hlower : mid j * q.den ≤ 2 * N := by
      have := hrounds.lower j hj
      omega
    have hcast : (mid j : ℚ) * q.den ≤ 2 * N := by exact_mod_cast hlower
    refine le_of_mul_le_mul_right ?_ hden
    rw [mul_assoc, hunits]
    exact hcast
  · have hupper : 2 * N ≤ mid k * q.den := by
      have := hrounds.upper
      omega
    have hcast : 2 * (N : ℚ) ≤ mid k * q.den := by exact_mod_cast hupper
    refine le_of_mul_le_mul_right ?_ hden
    rw [mul_assoc, hunits]
    exact hcast

theorem natCast_mul_pow (a f : ℕ) : ((a * 10 ^ f : ℕ) : ℚ) = a * 10 ^ f := by
  rw [Nat.cast_mul, Nat.cast_pow, Nat.cast_ofNat]

theorem decimal_mul_pow {m f : ℕ} {e : ℤ} (h : 0 ≤ e + f) :
    decimal m e * 10 ^ f = ((m * 10 ^ (e + f).toNat : ℕ) : ℚ) := by
  have hpow : (10 : ℚ) ^ (e + f).toNat = 10 ^ e * 10 ^ f := by
    rw [← zpow_natCast, Int.toNat_of_nonneg h, zpow_add₀ (by norm_num), zpow_natCast]
  rw [decimal, Nat.cast_mul, Nat.cast_pow, Nat.cast_ofNat, hpow, mul_assoc]

theorem units_decimal_mul {m f : ℕ} {e : ℤ} (h : 0 ≤ e + f) :
    units (decimal m e) * 10 ^ f = ((m * 10 ^ (e + f).toNat * 2 ^ 1074 : ℕ) : ℚ) := by
  rw [units, mul_right_comm, decimal_mul_pow h, Nat.cast_mul (m * _) (2 ^ 1074), Nat.cast_pow 2,
    Nat.cast_ofNat]

theorem decimal_eq_div (m f : ℕ) : decimal m (-f) = (m : ℚ) / (10 ^ f : ℕ) := by
  rw [decimal, zpow_neg, zpow_natCast, Nat.cast_pow, Nat.cast_ofNat]
  rfl

theorem decimal_eq_quotient (m : ℕ) (e : ℤ) :
    decimal m e = ((m * 10 ^ e.toNat : ℕ) : ℚ) / (10 ^ (-e).toNat : ℕ) := by
  rcases le_total 0 e with he | he
  · obtain ⟨k, rfl⟩ := Int.eq_ofNat_of_zero_le he
    rw [decimal, Int.toNat_neg_natCast, pow_zero, Nat.cast_one, div_one, Int.toNat_natCast,
      natCast_mul_pow, zpow_natCast]
  · obtain ⟨k, rfl⟩ := Int.exists_eq_neg_ofNat he
    rw [decimal_eq_div, Int.toNat_neg_natCast, pow_zero, mul_one, neg_neg, Int.toNat_natCast]

theorem magnitude_eq_zero (h : x.pattern = 0) : x.magnitude = 0 := by
  rw [magnitude, h]
  exact zero_div _

theorem nearest_zero_left {d : Nat} (hd : 0 < d) : nearest 0 d = 0 := by
  have hzero : 0 * 2 ^ 1074 = scaled 0 * d := by
    rw [Nat.zero_mul]
    exact (Nat.zero_mul d).symm
  exact (nearest_eq_iff hd (by decide)).mpr (rounds_of_eq hd hzero)

theorem nearest_zero : nearest 0 1 = 0 := nearest_zero_left Nat.one_pos

theorem nearestRat_zero : nearestRat 0 = 0 := nearest_zero

theorem Closest.eq_zero {c : ℕ} (h : Closest c x q) (hzero : x.pattern = 0) : q = 0 := by
  have hnear := h.nearer 0 0 (by positivity)
  simpa [magnitude_eq_zero hzero, decimal] using hnear

theorem units_mul {n d : Nat} (hd : 0 < d) (hq : q = (n : ℚ) / d) :
    units q * d = ((n * 2 ^ 1074 : ℕ) : ℚ) := by
  have hd' : (0 : ℚ) < d := by exact_mod_cast hd
  rw [hq, units_natCast_div, div_mul_cancel₀ _ hd'.ne']

theorem units_eq_iff {n d : Nat} (hd : 0 < d) (hq : q = (n : ℚ) / d) :
    units q = k ↔ k * d = n * 2 ^ 1074 := by
  have hd' : (0 : ℚ) < d := by exact_mod_cast hd
  rw [← mul_left_inj' hd'.ne', units_mul hd hq, ← Nat.cast_mul, Nat.cast_inj]
  exact eq_comm

theorem tiny_iff {n d : Nat} (hd : 0 < d) (hq : q = (n : ℚ) / d) :
    4 * (n * 2 ^ 1074) < (2 ^ 54 - 1) * d ↔ 4 * units q < 2 ^ 54 - 1 := by
  have hd' : (0 : ℚ) < d := by exact_mod_cast hd
  have hcast : (((2 ^ 54 - 1) * d : ℕ) : ℚ) = (2 ^ 54 - 1) * d := by
    rw [Nat.cast_mul]
    norm_num
  rw [← mul_lt_mul_iff_of_pos_right hd', mul_assoc, units_mul hd hq, ← hcast]
  generalize n * 2 ^ 1074 = N
  exact_mod_cast Iff.rfl

theorem Precise.eq_zero (h : Precise x q) (hzero : x.pattern = 0) : q = 0 := by
  obtain ⟨m, e, _, _, hnear⟩ := h.nearer
  have hdecimal : decimal 0 e = 0 := by simp [decimal]
  have hle := hnear 0 (by rw [hdecimal, nearestRat_zero, hzero])
  simpa [magnitude_eq_zero hzero, hdecimal] using hle

theorem lt_of_five_pow_dvd {m f : ℕ} (hm : m < 10 ^ 17) (hpos : 0 < m)
    (hdvd : 5 ^ f ∣ m * 2 ^ 1074) : f < 25 := by
  have hcoprime : ∀ u, Nat.Coprime (5 ^ f) (2 ^ u) := fun u => Nat.Coprime.pow f u (by decide)
  have hle : 5 ^ f ≤ m := Nat.le_of_dvd hpos ((hcoprime 1074).dvd_of_dvd_mul_right hdvd)
  by_contra hge
  have hpow : 5 ^ 25 ≤ 5 ^ f := Nat.pow_le_pow_right (by decide) (Nat.le_of_not_lt hge)
  have hlarge : 10 ^ 17 < 5 ^ 25 := by decide
  omega

/-- No decimal of 17 digits is a subnormal number. -/
theorem units_ne_of_subnormal {m k : ℕ} {e : ℤ} (hm : m < 10 ^ 17) (hpos : 0 < k)
    (hlt : k < 2 ^ 52) : units (decimal m e) ≠ k := by
  intro heq
  have hmul : ∀ f : ℕ, 0 ≤ e + f → m * 10 ^ (e + f).toNat * 2 ^ 1074 = k * 10 ^ f := by
    intro f hf
    have hcast : ((m * 10 ^ (e + f).toNat * 2 ^ 1074 : ℕ) : ℚ) = ((k * 10 ^ f : ℕ) : ℚ) := by
      rw [← units_decimal_mul hf, heq, Nat.cast_mul, Nat.cast_pow, Nat.cast_ofNat]
    exact Nat.cast_injective hcast
  have hunit : 2 ^ 52 * 10 ^ 25 < 2 ^ 1074 := by decide +kernel
  have hm0 : 0 < m := by
    rcases Nat.eq_zero_or_pos m with rfl | h
    · have hzero := hmul (-e).toNat (by omega)
      rw [Nat.zero_mul, Nat.zero_mul] at hzero
      have : 0 < k * 10 ^ (-e).toNat := by positivity
      omega
    · exact h
  rcases le_total 0 e with he | he
  · have hint := hmul 0 (by omega)
    have hle : 1 * 2 ^ 1074 ≤ m * 10 ^ (e + 0).toNat * 2 ^ 1074 :=
      Nat.mul_le_mul_right _ (Nat.mul_pos hm0 (by positivity))
    rw [Nat.cast_zero] at hint
    rw [hint] at hle
    generalize 2 ^ 1074 = U at hle hunit
    omega
  · obtain ⟨f, rfl⟩ : ∃ f : ℕ, e = -f := ⟨e.natAbs, by omega⟩
    have hfrac := hmul f (by omega)
    rw [neg_add_cancel, Int.toNat_zero, Nat.pow_zero, Nat.mul_one] at hfrac
    have hdvd : 5 ^ f ∣ m * 2 ^ 1074 := by
      rw [hfrac]
      exact Nat.dvd_mul_left_of_dvd (pow_dvd_pow_of_dvd (by decide) f) k
    have hf := lt_of_five_pow_dvd hm hm0 hdvd
    have hle : 1 * 2 ^ 1074 ≤ m * 2 ^ 1074 := Nat.mul_le_mul_right _ hm0
    have hpow : k * 10 ^ f ≤ 2 ^ 52 * 10 ^ 25 :=
      Nat.mul_le_mul hlt.le (Nat.pow_le_pow_right (by decide) hf.le)
    rw [hfrac] at hle
    generalize 2 ^ 1074 = U at hle hunit
    omega

/-! The decimals between (2^54 - 2) / 4 and (2^54 - 1) / 4 units are rounded to 2^-1022 and underflow. -/

/-- Seventeen digits do not reach up to them from this place. -/
theorem units_lt_of_place_lt {m : ℕ} {e : ℤ} (hm : m < 10 ^ 17) (he : e < -324) :
    4 * units (decimal m e) < ((2 ^ 54 - 2 : ℕ) : ℚ) := by
  have hpow : (0 : ℚ) < 10 ^ 325 := by positivity
  have hle : units (decimal m e) ≤ units (decimal m (-(325 : ℕ))) :=
    units_le_units.mpr (mul_le_mul_of_nonneg_left
      (zpow_le_zpow_right₀ (by norm_num) (by omega)) (Nat.cast_nonneg m))
  have hunits := units_decimal_mul (m := m) (f := 325) (e := -(325 : ℕ)) (by omega)
  rw [neg_add_cancel, Int.toNat_zero, Nat.pow_zero, Nat.mul_one] at hunits
  have hshort : 4 * (m * 2 ^ 1074) < (2 ^ 54 - 2) * 10 ^ 325 := by
    have hbound : 4 * (10 ^ 17 * 2 ^ 1074) < (2 ^ 54 - 2) * 10 ^ 325 := by decide +kernel
    have hmul := Nat.mul_le_mul_right (2 ^ 1074) hm.le
    generalize 10 ^ 17 * 2 ^ 1074 = A at *
    generalize m * 2 ^ 1074 = B at *
    exact Nat.lt_of_le_of_lt (Nat.mul_le_mul_left 4 hmul) hbound
  refine lt_of_mul_lt_mul_right ?_ hpow.le
  calc 4 * units (decimal m e) * 10 ^ 325
      ≤ 4 * units (decimal m (-(325 : ℕ))) * 10 ^ 325 :=
        mul_le_mul_of_nonneg_right (mul_le_mul_of_nonneg_left hle (by norm_num)) hpow.le
    _ = ((4 * (m * 2 ^ 1074) : ℕ) : ℚ) := by rw [mul_assoc, hunits, Nat.cast_mul 4, Nat.cast_ofNat]
    _ < ((2 ^ 54 - 2 : ℕ) : ℚ) * 10 ^ 325 := by
        rw [← natCast_mul_pow]
        exact Nat.cast_lt.mpr hshort

/-- With one digit less none is there: they lie between two neighbours of 16 digits. -/
theorem not_between_of_lt_place {m : ℕ} {e : ℤ} (he : -324 < e) :
    ¬ (((2 ^ 54 - 2 : ℕ) : ℚ) ≤ 4 * units (decimal m e) ∧
      4 * units (decimal m e) < ((2 ^ 54 - 1 : ℕ) : ℚ)) := by
  have hpow : (0 : ℚ) < 10 ^ 323 := by positivity
  have hunits := units_decimal_mul (m := m) (f := 323) (e := e) (by omega)
  have hbelow : 4 * (2225073858507201 * 2 ^ 1074) < (2 ^ 54 - 2) * 10 ^ 323 := by decide +kernel
  have habove : (2 ^ 54 - 1) * 10 ^ 323 ≤ 4 * (2225073858507202 * 2 ^ 1074) := by decide +kernel
  generalize m * 10 ^ (e + (323 : ℕ)).toNat = K at hunits
  rintro ⟨hlow, hhigh⟩
  have hlo : (2 ^ 54 - 2) * 10 ^ 323 ≤ 4 * (K * 2 ^ 1074) := by
    rw [← Nat.cast_le (α := ℚ), natCast_mul_pow, Nat.cast_mul 4, ← hunits, ← mul_assoc]
    exact mul_le_mul_of_nonneg_right hlow hpow.le
  have hhi : 4 * (K * 2 ^ 1074) < (2 ^ 54 - 1) * 10 ^ 323 := by
    rw [← Nat.cast_lt (α := ℚ), natCast_mul_pow, Nat.cast_mul 4, ← hunits, ← mul_assoc]
    exact mul_lt_mul_of_pos_right hhigh hpow
  rcases Nat.lt_or_ge K 2225073858507202 with hlt | hge
  · have hle := Nat.mul_le_mul_right (2 ^ 1074) (Nat.le_of_lt_succ hlt)
    exact Nat.not_lt.mpr hlo (Nat.lt_of_le_of_lt (Nat.mul_le_mul_left 4 hle) hbelow)
  · have hle := Nat.mul_le_mul_right (2 ^ 1074) hge
    exact Nat.not_lt.mpr (Nat.le_trans habove (Nat.mul_le_mul_left 4 hle)) hhi

theorem least_normal_decimal :
    nearestRat (decimal 22250738585072014 (-324)) = 2 ^ 52 ∧
      ((2 ^ 52 : ℕ) : ℚ) ≤ units (decimal 22250738585072014 (-324)) ∧
      4 * units (decimal 22250738585072014 (-324)) ≤ ((2 ^ 54 + 1 : ℕ) : ℚ) := by
  have hexp : (-324 : ℤ) = -(324 : ℕ) := rfl
  have hpow : (0 : ℚ) < 10 ^ 324 := by positivity
  have hunits := units_decimal_mul (m := 22250738585072014) (f := 324) (e := -(324 : ℕ)) (by omega)
  rw [hexp]
  refine ⟨?_, le_of_mul_le_mul_right ?_ hpow, le_of_mul_le_mul_right ?_ hpow⟩
  · rw [decimal_eq_div, nearestRat_div (by positivity)]
    decide +kernel
  · rw [hunits, ← natCast_mul_pow, Nat.cast_le]
    decide +kernel
  · rw [mul_assoc, hunits, ← natCast_mul_pow, ← Nat.cast_ofNat (R := ℚ), ← Nat.cast_mul 4,
      Nat.cast_le]
    decide +kernel

/-- The decimals that are rounded to 2^-1022 and underflow are not the nearest to it. -/
theorem Precise.not_tiny (h : Precise x q) (hleast : x.pattern = 2 ^ 52) :
    2 ^ 54 - 1 ≤ 4 * units q := by
  obtain ⟨m, e, hm, rfl, hnear⟩ := h.nearer
  by_contra htiny
  have hhigh : 4 * units (decimal m e) < ((2 ^ 54 - 1 : ℕ) : ℚ) := by
    rw [not_le] at htiny
    norm_num at htiny ⊢
    exact htiny
  have hlow : ((2 ^ 54 - 2 : ℕ) : ℚ) ≤ 4 * units (decimal m e) := by
    have hfin : x.pattern < infPattern := by
      rw [hleast]
      decide
    have hmid := (mids_of_nearestRat (decimal_nonneg m e) hfin h.rounds).1 (2 ^ 52 - 1) hleast.symm
    rw [mid, scaled_of_le (by decide), scaled_of_le (by decide)] at hmid
    norm_num at hmid ⊢
    linarith
  rcases lt_trichotomy e (-324) with he | rfl | he
  · exact absurd (units_lt_of_place_lt hm he) (not_lt_of_ge hlow)
  · obtain ⟨hrounds, hbelow, habove⟩ := least_normal_decimal
    have hclose := hnear _ (hrounds.trans hleast.symm)
    rw [← units_le_units, ← abs_units, ← abs_units, units_sub, units_sub, units_magnitude, hleast,
      scaled_of_le (by decide), abs_of_nonneg (sub_nonneg.mpr hbelow)] at hclose
    have hleft := (abs_le.mp hclose).1
    norm_num at hhigh hbelow habove hleft
    linarith
  · exact not_between_of_lt_place he ⟨hlow, hhigh⟩

/-- **The rounding of a precise decimal underflows** exactly when the number is subnormal. -/
theorem precise_underflows_iff {n d : Nat} (hd : 0 < d) (hq : q = (n : ℚ) / d) (hfin : x.IsFinite)
    (h : Precise x q) : Underflows n d ↔ x.IsSubnormal := by
  have hnearest : nearest n d = x.pattern := by rw [← nearestRat_div hd, ← hq, h.rounds]
  rcases Nat.lt_trichotomy x.pattern (2 ^ 52) with hlt | heq | hgt
  · have hscaled : scaled x.pattern = x.pattern := scaled_of_le (by omega)
    rw [underflows_iff_of_lt hd (hnearest ▸ hlt), hnearest, hscaled, ne_eq, ← units_eq_iff hd hq]
    constructor
    · intro hne
      refine ⟨fun hzero => hne ?_, hlt⟩
      rw [h.eq_zero hzero, hzero]
      simp [units]
    · rintro ⟨hpos, _⟩
      obtain ⟨m, e, hm, rfl, _⟩ := h.nearer
      exact units_ne_of_subnormal hm (Nat.pos_of_ne_zero hpos) hlt
  · refine iff_of_false ?_ fun hsub => by have := hsub.2; omega
    exact fun hunder => not_lt_of_ge (h.not_tiny heq) ((tiny_iff hd hq).mp hunder.1)
  · refine iff_of_false ?_ fun hsub => by have := hsub.2; omega
    exact not_underflows_of_lt hd (hnearest ▸ hfin) (hnearest ▸ hgt)

/-! ### Numbers of single precision, and exact decimals -/

theorem precise_of_exact {m : ℕ} {e : ℤ} (hm : m < 10 ^ 17) (hfin : x.IsFinite)
    (h : scaled x.pattern * 10 ^ (-e).toNat = m * 10 ^ e.toNat * 2 ^ 1074) :
    Precise x (decimal m e) := by
  have hd : 0 < 10 ^ (-e).toNat := Nat.pow_pos (by decide)
  have hq := decimal_eq_quotient m e
  have hunits : units (decimal m e) = units x.magnitude := by
    rw [units_magnitude]
    exact (units_eq_iff hd hq).mpr h
  have hexact : decimal m e = x.magnitude := mul_right_cancel₀ two_pow_pos.ne' hunits
  constructor
  · rw [hq, nearestRat_div hd]
    exact (nearest_eq_iff hd hfin).mpr (rounds_of_eq hd h.symm)
  · refine ⟨m, e, hm, rfl, fun m' _ => ?_⟩
    rw [hexact, sub_self, abs_zero]
    exact abs_nonneg _

end Lib.Binary64
