import StormByteDatabase.Lib.Binary64

/-!
# Rounding to a double

`Rounds N D k`: in units of 2^-1074 the quotient `N / D` lies between the midpoints on the two sides
of the pattern `k`, on a midpoint only if `k` is even. `nearest_eq_iff` says that `nearest` gives the
only pattern there is. A quotient is rounded to `k` if it lies between the value of `k` and one that is
(`Rounds.of_between`), or on the other side and not further away (`Rounds.of_above`,
`Rounds.of_below`), except below a power of two, where the patterns are twice as close.

Every pattern is `s * 2^52 + h` with a significand `h` below 2^53 that has its top bit unless `s` is
zero, and stands for `h * 2^s` (`scaled_place`). Its successor stands for `(h + 1) * 2^s`.
-/

namespace Lib.Binary64

/-! ### Patterns and their values -/

theorem scaled_place {s h : Nat} (hnormal : s = 0 ∨ 2 ^ 52 ≤ h) (hle : h ≤ 2 ^ 53) :
    scaled (s * 2 ^ 52 + h) = h * 2 ^ s := by
  unfold scaled
  rcases Nat.lt_or_ge h (2 ^ 52) with hsmall | hlarge
  · obtain rfl : s = 0 := by omega
    rw [if_pos (by omega)]
    omega
  · rw [if_neg (by omega)]
    rcases Nat.lt_or_ge h (2 ^ 53) with hlt | hge
    · have hexp : (s * 2 ^ 52 + h) / 2 ^ 52 - 1 = s := by omega
      have hsig : 2 ^ 52 + (s * 2 ^ 52 + h) % 2 ^ 52 = h := by omega
      rw [hexp, hsig]
    · obtain rfl : h = 2 ^ 53 := by omega
      have hexp : (s * 2 ^ 52 + 2 ^ 53) / 2 ^ 52 - 1 = s + 1 := by omega
      have hsig : 2 ^ 52 + (s * 2 ^ 52 + 2 ^ 53) % 2 ^ 52 = 2 ^ 52 := by omega
      rw [hexp, hsig, Nat.pow_succ]
      omega

theorem exists_place (k : Nat) :
    ∃ s h, k = s * 2 ^ 52 + h ∧ (s = 0 ∨ 2 ^ 52 ≤ h) ∧ h < 2 ^ 53 := by
  rcases Nat.lt_or_ge k (2 ^ 53) with hlt | hge
  · exact ⟨0, k, by omega, .inl rfl, hlt⟩
  · exact ⟨k / 2 ^ 52 - 1, k % 2 ^ 52 + 2 ^ 52, by omega, .inr (by omega), by omega⟩

theorem scaled_lt_succ (k : Nat) : scaled k < scaled (k + 1) := by
  obtain ⟨s, h, rfl, hnormal, hlt⟩ := exists_place k
  rw [Nat.add_assoc, scaled_place hnormal hlt.le, scaled_place (by omega) (by omega), Nat.add_mul]
  have := Nat.two_pow_pos s
  omega

theorem scaled_strictMono : StrictMono scaled := strictMono_nat_of_lt_succ scaled_lt_succ

theorem equal_iff_exact {x y : Binary64} (hx : x.IsFinite) : x.equal y = true ↔ x.exact = y.exact := by
  have hnan : ¬ x.IsNaN := Nat.lt_asymm hx
  have hzero : scaled 0 = 0 := rfl
  rw [equal_iff, and_iff_right hnan]
  constructor
  · rintro ⟨hpattern, hsign | hpos⟩
    · unfold exact
      rw [hpattern, hsign]
    · unfold exact
      rw [← hpattern, hpos, hzero]
      split_ifs <;> rfl
  · intro hexact
    have habs : scaled x.pattern = scaled y.pattern := by
      rw [← natAbs_exact, ← natAbs_exact, hexact]
    refine ⟨scaled_strictMono.injective habs, ?_⟩
    by_contra hsign
    obtain ⟨hsign, hpos⟩ := not_or.mp hsign
    -- a number that is its own opposite is zero
    have hlt : scaled 0 < scaled x.pattern := scaled_strictMono (Nat.pos_of_ne_zero hpos)
    unfold exact at hexact
    rw [← habs] at hexact
    split_ifs at hexact with hnegx hnegy hnegy
    · exact hsign (hnegx.trans hnegy.symm)
    · omega
    · omega
    · exact hsign ((Bool.eq_false_iff.mpr hnegx).trans (Bool.eq_false_iff.mpr hnegy).symm)

/-- The midpoint after a pattern, doubled. -/
def mid (k : Nat) : Nat := scaled k + scaled (k + 1)

theorem mid_strictMono : StrictMono mid := fun _ _ h =>
  Nat.add_lt_add (scaled_strictMono h) (scaled_strictMono (Nat.succ_lt_succ h))

/-- The patterns on the two sides are at the same distance, or the upper one at twice the distance of
the lower one, which is so at the powers of two. -/
theorem neighbours (k : Nat) :
    scaled k + scaled (k + 2) = 2 * scaled (k + 1) ∨
      ∃ s, scaled (k + 1) = 2 ^ (52 + s) ∧ scaled (k + 2) = scaled (k + 1) + 2 ^ s ∧
        2 * scaled (k + 1) < scaled k + scaled (k + 2) := by
  obtain ⟨s, h, rfl, hnormal, hlt⟩ := exists_place k
  have hk : scaled (s * 2 ^ 52 + h) = h * 2 ^ s := scaled_place hnormal hlt.le
  have hk1 : scaled (s * 2 ^ 52 + h + 1) = (h + 1) * 2 ^ s := by
    rw [Nat.add_assoc]
    exact scaled_place (by omega) (by omega)
  rcases Nat.lt_or_ge (h + 1) (2 ^ 53) with hroom | hfull
  · have hk2 : scaled (s * 2 ^ 52 + h + 2) = (h + 2) * 2 ^ s := by
      rw [Nat.add_assoc]
      exact scaled_place (by omega) (by omega)
    left
    rw [hk, hk1, hk2, ← Nat.add_mul, ← Nat.mul_assoc]
    congr 1
    omega
  · obtain rfl : h = 2 ^ 53 - 1 := by omega
    have hplace : s * 2 ^ 52 + (2 ^ 53 - 1) + 2 = (s + 1) * 2 ^ 52 + (2 ^ 52 + 1) := by omega
    have hk2 : scaled (s * 2 ^ 52 + (2 ^ 53 - 1) + 2) = (2 ^ 52 + 1) * 2 ^ (s + 1) := by
      rw [hplace]
      exact scaled_place (by omega) (by omega)
    right
    rw [hk, hk1, hk2]
    have hpos := Nat.two_pow_pos s
    refine ⟨s + 1, ?_, ?_, ?_⟩
    · have hsplit : 52 + (s + 1) = 53 + s := by omega
      rw [hsplit, Nat.pow_add]
      congr 1
    · rw [Nat.pow_succ]
      omega
    · rw [Nat.pow_succ]
      omega

/-! ### The rounded quotient -/

structure Rounds (N D k : Nat) : Prop where
  lower : ∀ j, j + 1 = k → mid j * D < 2 * N ∨ (mid j * D = 2 * N ∧ k % 2 = 0)
  upper : 2 * N < mid k * D ∨ (2 * N = mid k * D ∧ k % 2 = 0)

variable {N D k : Nat}

theorem Rounds.le_of_rounds {j : Nat} (hD : 0 < D) (hk : Rounds N D k) (hj : Rounds N D j) :
    k ≤ j := by
  by_contra hlt
  obtain ⟨i, rfl⟩ : ∃ i, k = i + 1 := ⟨k - 1, by omega⟩
  have hmid : mid j ≤ mid i := mid_strictMono.monotone (by omega)
  have hmul : mid j * D ≤ mid i * D := Nat.mul_le_mul_right D hmid
  have hlower := hk.lower i rfl
  have hupper := hj.upper
  have heq : mid j * D = mid i * D := by omega
  have hsame : j = i := mid_strictMono.injective (Nat.eq_of_mul_eq_mul_right hD heq)
  omega

theorem Rounds.unique {j : Nat} (hD : 0 < D) (hk : Rounds N D k) (hj : Rounds N D j) : k = j :=
  Nat.le_antisymm (hk.le_of_rounds hD hj) (hj.le_of_rounds hD hk)

theorem rounds_of_eq (hD : 0 < D) (h : N = scaled k * D) : Rounds N D k where
  lower j hj := by
    subst hj h
    left
    rw [mid, Nat.two_mul, ← Nat.add_mul]
    exact Nat.mul_lt_mul_of_pos_right (Nat.add_lt_add_right (scaled_lt_succ j) _) hD
  upper := by
    subst h
    left
    rw [mid, Nat.two_mul, ← Nat.add_mul]
    exact Nat.mul_lt_mul_of_pos_right (Nat.add_lt_add_left (scaled_lt_succ k) _) hD

theorem divHalfEven_cases (n d : Nat) :
    (divHalfEven n d = n / d ∧ (2 * (n % d) < d ∨ (2 * (n % d) = d ∧ n / d % 2 = 0))) ∨
      (divHalfEven n d = n / d + 1 ∧ (d < 2 * (n % d) ∨ (2 * (n % d) = d ∧ n / d % 2 = 1))) := by
  unfold divHalfEven
  simp only
  split_ifs with h
  · exact .inl ⟨rfl, h⟩
  · exact .inr ⟨rfl, by omega⟩

theorem quotient_bounds {s : Nat} (hs : Nat.log2 (N / D) - 52 = s) :
    (s = 0 ∨ 2 ^ 52 ≤ N / (D * 2 ^ s)) ∧ N / (D * 2 ^ s) < 2 ^ 53 := by
  have hunit : 0 < 2 ^ s := Nat.two_pow_pos s
  rw [← Nat.div_div_eq_div_mul]
  constructor
  · rcases Nat.eq_zero_or_pos s with h | h
    · exact .inl h
    · right
      have hlog : 52 + s = Nat.log2 (N / D) := by omega
      have hne : N / D ≠ 0 := by
        intro hzero
        rw [hzero, Nat.log2_zero] at hlog
        omega
      rw [Nat.le_div_iff_mul_le hunit, ← Nat.pow_add, hlog]
      exact Nat.log2_self_le hne
  · rw [Nat.div_lt_iff_lt_mul hunit, ← Nat.pow_add]
    exact Nat.lt_of_lt_of_le Nat.lt_log2_self (Nat.pow_le_pow_right (by decide) (by omega))

theorem rounds_place (hD : 0 < D) :
    Rounds N D ((Nat.log2 (N / D) - 52) * 2 ^ 52 +
      divHalfEven N (D * 2 ^ (Nat.log2 (N / D) - 52))) := by
  generalize hs : Nat.log2 (N / D) - 52 = s
  obtain ⟨hnormal, hlt⟩ := quotient_bounds hs
  have hW : 0 < D * 2 ^ s := Nat.mul_pos hD (Nat.two_pow_pos s)
  have hcomm : ∀ h, h * 2 ^ s * D = h * (D * 2 ^ s) := fun h => by
    rw [Nat.mul_assoc, Nat.mul_comm (2 ^ s)]
  have hround := divHalfEven_cases N (D * 2 ^ s)
  have hN := Nat.div_add_mod' N (D * 2 ^ s)
  have hmod := Nat.mod_lt N hW
  generalize D * 2 ^ s = W at *
  generalize N / W = q at *
  have hvalue : scaled (s * 2 ^ 52 + q) * D = q * W := by
    rw [scaled_place hnormal hlt.le, hcomm]
  have hnext : scaled (s * 2 ^ 52 + q + 1) * D = q * W + W := by
    rw [Nat.add_assoc, scaled_place (by omega) (by omega), hcomm, Nat.add_mul, Nat.one_mul]
  have hhalf : mid (s * 2 ^ 52 + q) * D = 2 * (q * W) + W := by
    rw [mid, Nat.add_mul, hvalue, hnext]
    omega
  rcases hround with ⟨hround, hr⟩ | ⟨hround, hr⟩
  · rw [hround]
    constructor
    · -- the midpoint below is less than the value itself
      intro j hj
      left
      have hlow : mid j < 2 * scaled (s * 2 ^ 52 + q) := by
        have := scaled_lt_succ j
        rw [← hj, mid]
        omega
      have := Nat.mul_lt_mul_of_pos_right hlow hD
      rw [Nat.mul_assoc, hvalue] at this
      omega
    · omega
  · rw [hround, ← Nat.add_assoc]
    constructor
    · intro j hj
      obtain rfl : j = s * 2 ^ 52 + q := Nat.succ.inj hj
      omega
    · left
      have hhigh : 2 * scaled (s * 2 ^ 52 + q + 1) < mid (s * 2 ^ 52 + q + 1) := by
        have := scaled_lt_succ (s * 2 ^ 52 + q + 1)
        rw [mid]
        omega
      have := Nat.mul_lt_mul_of_pos_right hhigh hD
      rw [Nat.mul_assoc, hnext] at this
      omega

/-- **`nearest` is the pattern the quotient is rounded to**, below infinity. -/
theorem nearest_eq_iff {n d : Nat} (hd : 0 < d) (hfin : k < infPattern) :
    nearest n d = k ↔ Rounds (n * 2 ^ 1074) d k := by
  have hplace := rounds_place (N := n * 2 ^ 1074) hd
  unfold nearest
  simp only
  constructor
  · intro h
    have hrounds := (min_choice _ _).resolve_left (fun hinf => hfin.ne (h.symm.trans hinf))
    rw [hrounds] at h
    exact h ▸ hplace
  · intro h
    rw [hplace.unique hd h]
    exact min_eq_right hfin.le

theorem Rounds.mul_right {c : Nat} (hc : 0 < c) (h : Rounds N D k) : Rounds (N * c) (D * c) k where
  lower j hj := by
    have hmul : ∀ {a b : Nat}, a < b → a * c < b * c := fun hlt => Nat.mul_lt_mul_of_pos_right hlt hc
    rw [← Nat.mul_assoc, ← Nat.mul_assoc]
    exact (h.lower j hj).imp hmul fun heq => ⟨congrArg (· * c) heq.1, heq.2⟩
  upper := by
    have hmul : ∀ {a b : Nat}, a < b → a * c < b * c := fun hlt => Nat.mul_lt_mul_of_pos_right hlt hc
    rw [← Nat.mul_assoc, ← Nat.mul_assoc]
    exact h.upper.imp hmul fun heq => ⟨congrArg (· * c) heq.1, heq.2⟩

theorem nearest_eq_of_mul_eq {n d n' d' : Nat} (hd : 0 < d) (hd' : 0 < d') (h : n * d' = n' * d) :
    nearest n d = nearest n' d' := by
  have hplace := (rounds_place (N := n * 2 ^ 1074) hd).mul_right hd'
  have hplace' := (rounds_place (N := n' * 2 ^ 1074) hd').mul_right hd
  have hN : n * 2 ^ 1074 * d' = n' * 2 ^ 1074 * d := by
    rw [Nat.mul_right_comm, h, Nat.mul_right_comm]
  rw [hN, Nat.mul_comm d d'] at hplace
  unfold nearest
  simp only
  rw [hplace.unique (Nat.mul_pos hd' hd) hplace']

/-! ### Underflow -/

theorem scaled_of_le {k : Nat} (h : k ≤ 2 ^ 53) : scaled k = k := by
  have hplace := scaled_place (s := 0) (h := k) (.inl rfl) h
  rwa [Nat.zero_mul, Nat.zero_add, Nat.pow_zero, Nat.mul_one] at hplace

theorem mid_le_of_subnormal {k : Nat} (h : k < 2 ^ 52) : mid k ≤ 2 ^ 53 - 1 := by
  have hmono : mid k ≤ mid (2 ^ 52 - 1) := mid_strictMono.monotone (by omega)
  have hlast : mid (2 ^ 52 - 1) = scaled (2 ^ 52 - 1) + scaled (2 ^ 52) := rfl
  rw [hlast, scaled_of_le (by decide), scaled_of_le (by decide)] at hmono
  exact hmono

theorem not_underflows_of_lt {n d : Nat} (hd : 0 < d) (hfin : nearest n d < infPattern)
    (hlt : 2 ^ 52 < nearest n d) : ¬ Underflows n d := by
  have hrounds := (nearest_eq_iff hd hfin).mp rfl
  obtain ⟨j, hj⟩ : ∃ j, nearest n d = j + 1 := ⟨nearest n d - 1, by omega⟩
  have hmid : 2 ^ 53 + 1 ≤ mid j := by
    have hmono : mid (2 ^ 52) ≤ mid j := mid_strictMono.monotone (by omega)
    rwa [mid, scaled_of_le (by decide), scaled_of_le (by decide)] at hmono
  have hmul := Nat.mul_le_mul_right d hmid
  have hlower := hrounds.lower j hj.symm
  rintro ⟨htiny, _⟩
  omega

theorem underflows_iff_of_lt {n d : Nat} (hd : 0 < d) (hlt : nearest n d < 2 ^ 52) :
    Underflows n d ↔ scaled (nearest n d) * d ≠ n * 2 ^ 1074 := by
  refine and_iff_right ?_
  have hfin : nearest n d < infPattern := Nat.lt_trans hlt (by decide)
  have hupper := ((nearest_eq_iff hd hfin).mp rfl).upper
  have hmul := Nat.mul_le_mul_right d (mid_le_of_subnormal hlt)
  omega

/-! ### Numbers that are values -/

/-- The number has at most 53 significant bits. -/
def FitsSignificand (m : Nat) : Prop := ∃ e, 2 ^ e ∣ m ∧ m < 2 ^ 53 * 2 ^ e

theorem exists_scaled_eq_iff {m : Nat} : (∃ k, scaled k = m) ↔ FitsSignificand m := by
  constructor
  · rintro ⟨k, rfl⟩
    obtain ⟨s, h, rfl, hnormal, hlt⟩ := exists_place k
    rw [scaled_place hnormal hlt.le]
    exact ⟨s, Nat.dvd_mul_left _ _, Nat.mul_lt_mul_of_pos_right hlt (Nat.two_pow_pos s)⟩
  · rintro ⟨e, hdvd, hlt⟩
    obtain ⟨hnormal, hsig⟩ := quotient_bounds (N := m) (D := 1) rfl
    rw [Nat.one_mul, Nat.div_one] at hnormal hsig
    have hexp : Nat.log2 m - 52 ≤ e := by
      by_contra hgt
      have hne : m ≠ 0 := by
        intro hzero
        rw [hzero, Nat.log2_zero] at hgt
        omega
      have hlog : 2 ^ (53 + e) ≤ 2 ^ Nat.log2 m := Nat.pow_le_pow_right (by decide) (by omega)
      rw [← Nat.pow_add] at hlt
      exact Nat.lt_irrefl _ (Nat.lt_of_lt_of_le hlt (hlog.trans (Nat.log2_self_le hne)))
    refine ⟨_, (scaled_place hnormal hsig.le).trans ?_⟩
    exact Nat.div_mul_cancel (Nat.dvd_trans (Nat.pow_dvd_pow 2 hexp) hdvd)

theorem lt_infPattern {n b u : Nat} (hb : b + u ≤ 2098) (hn : n < 2 ^ b)
    (h : scaled k = n * 2 ^ u) : k < infPattern := by
  by_contra hle
  obtain ⟨s, hs⟩ : ∃ s, s = 2046 := ⟨_, rfl⟩
  have hplace : infPattern = s * 2 ^ 52 + 2 ^ 52 := by
    rw [hs]
    rfl
  have hmono := scaled_strictMono.monotone (Nat.le_of_not_lt hle)
  rw [hplace, scaled_place (.inr (Nat.le_refl _)) (by decide), ← Nat.pow_add] at hmono
  have hpow : 2 ^ (b + u) ≤ 2 ^ (52 + s) := Nat.pow_le_pow_right (by decide) (by omega)
  have hlt : scaled k < 2 ^ (b + u) := by
    rw [h, Nat.pow_add]
    exact Nat.mul_lt_mul_of_pos_right hn (Nat.two_pow_pos u)
  exact Nat.lt_irrefl _ (Nat.lt_of_lt_of_le hlt (hpow.trans hmono))

theorem fitsSignificand_mul_iff {n u : Nat} : FitsSignificand (n * 2 ^ u) ↔ FitsSignificand n := by
  have hunit : 0 < 2 ^ u := Nat.two_pow_pos u
  constructor
  · rintro ⟨e, hdvd, hlt⟩
    rcases Nat.le_total u e with hle | hle
    · obtain ⟨f, rfl⟩ := Nat.exists_eq_add_of_le' hle
      rw [Nat.pow_add] at hdvd hlt
      rw [← Nat.mul_assoc] at hlt
      exact ⟨f, Nat.dvd_of_mul_dvd_mul_right hunit hdvd, Nat.lt_of_mul_lt_mul_right hlt⟩
    · refine ⟨0, Nat.one_dvd n, ?_⟩
      have hpow : 2 ^ 53 * 2 ^ e ≤ 2 ^ 53 * 2 ^ u :=
        Nat.mul_le_mul_left _ (Nat.pow_le_pow_right (by decide) hle)
      exact Nat.lt_of_mul_lt_mul_right (Nat.lt_of_lt_of_le hlt hpow)
  · rintro ⟨e, hdvd, hlt⟩
    refine ⟨e + u, ?_, ?_⟩
    · rw [Nat.pow_add]
      exact Nat.mul_dvd_mul_right hdvd _
    · rw [Nat.pow_add, ← Nat.mul_assoc]
      exact Nat.mul_lt_mul_of_pos_right hlt hunit

theorem exact_ofQuotient_iff {n : Int} {d u : Nat} :
    (ofQuotient (n < 0) n.natAbs d).exact = n * 2 ^ u ↔
      scaled (nearest n.natAbs d) = n.natAbs * 2 ^ u := by
  have hunit : ((2 ^ u : Nat) : Int) = 2 ^ u := Int.natCast_pow 2 u
  unfold exact
  rw [← hunit]
  by_cases hneg : n < 0
  · have hn : n = -(n.natAbs : Int) := by omega
    simp only [ofQuotient, hneg, decide_true, if_true]
    generalize n.natAbs = a at hn ⊢
    rw [hn, Int.neg_mul, Int.neg_inj]
    exact Int.natCast_inj
  · have hn : n = n.natAbs := by omega
    simp only [ofQuotient, hneg, decide_false, Bool.false_eq_true, if_false]
    generalize n.natAbs = a at hn ⊢
    rw [hn]
    exact Int.natCast_inj

/-- **An integer is rounded to itself** exactly when it has at most 53 significant bits. -/
theorem denotes_ofQuotient_iff {n : Int} {b : Nat} (hb : b ≤ 1024) (hn : n.natAbs < 2 ^ b) :
    (ofQuotient (n < 0) n.natAbs 1).Denotes n ↔ FitsSignificand n.natAbs := by
  have hfin : ∀ k, scaled k = n.natAbs * 2 ^ 1074 → k < infPattern := fun k hk =>
    lt_infPattern (by omega) hn hk
  refine Iff.trans ?_ (exists_scaled_eq_iff.trans (fitsSignificand_mul_iff (u := 1074)))
  refine (and_congr_right fun _ => exact_ofQuotient_iff).trans ?_
  constructor
  · exact fun h => ⟨_, h.2⟩
  · rintro ⟨k, hk⟩
    have hrounds : Rounds (n.natAbs * 2 ^ 1074) 1 k :=
      rounds_of_eq Nat.one_pos (hk.symm.trans (Nat.mul_one _).symm)
    have hnearest : nearest n.natAbs 1 = k := (nearest_eq_iff Nat.one_pos (hfin k hk)).mpr hrounds
    subst hnearest
    exact ⟨hfin _ hk, hk⟩

/-! ### Quotients near a value -/

/-- The interval of the quotients rounded to `k` is convex around the value of `k`. -/
theorem Rounds.of_between {N' : Nat} (hD : 0 < D) (h : Rounds N D k)
    (hbetween : (N ≤ N' ∧ N' ≤ scaled k * D) ∨ (scaled k * D ≤ N' ∧ N' ≤ N)) : Rounds N' D k := by
  have hself := rounds_of_eq (k := k) hD rfl
  constructor
  · intro j hj
    have hlower := h.lower j hj
    have hvalue := hself.lower j hj
    omega
  · have hupper := h.upper
    have hvalue := hself.upper
    omega

theorem mid_add_mid (k : Nat) :
    mid k + mid (k + 1) = scaled k + scaled (k + 2) + 2 * scaled (k + 1) := by
  show scaled k + scaled (k + 1) + (scaled (k + 1) + scaled (k + 2)) = _
  omega

theorem exists_succ_of_lt (h : N < scaled k * D) : ∃ j, k = j + 1 := by
  refine ⟨k - 1, (Nat.succ_pred_eq_of_ne_zero ?_).symm⟩
  rintro rfl
  have hzero : scaled 0 * D = 0 := Nat.zero_mul D
  omega

/-- The next pattern is not nearer than the one before, so that a quotient below can be reflected to
the other side. -/
theorem Rounds.of_above {N' : Nat} (h : Rounds N D k) (hbelow : N < scaled k * D)
    (habove : scaled k * D < N') (hcloser : N' + N ≤ 2 * (scaled k * D)) : Rounds N' D k := by
  obtain ⟨j, rfl⟩ := exists_succ_of_lt hbelow
  have hlower := h.lower j rfl
  have hgap : 4 * scaled (j + 1) ≤ mid j + mid (j + 1) := by
    have hmid := mid_add_mid j
    rcases neighbours j with heq | ⟨s, _, _, hlt⟩
    · omega
    · omega
  have hmul := Nat.mul_le_mul_right D hgap
  rw [Nat.add_mul, Nat.mul_assoc] at hmul
  constructor
  · intro i hi
    obtain rfl : i = j := Nat.succ.inj hi
    omega
  · omega

theorem Rounds.of_below {N' : Nat} (hD : 0 < D) (h : Rounds N D k) (hbelow : N' < scaled k * D)
    (habove : scaled k * D < N) (hcloser : 2 * (scaled k * D) ≤ N' + N)
    (hpower : ∀ s, scaled k = 2 ^ (52 + s) → N < scaled k * D + 2 ^ s * D → False) :
    Rounds N' D k := by
  obtain ⟨j, rfl⟩ := exists_succ_of_lt hbelow
  have hupper := h.upper
  have hmid := mid_add_mid j
  rcases neighbours j with heq | ⟨s, hvalue, hnext, _⟩
  · have hgap : 4 * scaled (j + 1) = mid j + mid (j + 1) := by omega
    have hmul := congrArg (· * D) hgap
    simp only [Nat.add_mul, Nat.mul_assoc] at hmul
    constructor
    · intro i hi
      obtain rfl : i = j := Nat.succ.inj hi
      omega
    · omega
  · exfalso
    refine hpower s hvalue ?_
    have hstep : mid (j + 1) * D = 2 * (scaled (j + 1) * D) + 2 ^ s * D := by
      rw [mid, hnext, Nat.add_mul, Nat.add_mul]
      omega
    have := Nat.mul_pos (Nat.two_pow_pos s) hD
    omega

/-! ### Rounding to a grid and back -/

theorem divHalfEven_close (n : Nat) {d : Nat} (hd : 0 < d) (m : Nat) :
    (((divHalfEven n d * d : Nat) : Int) - n).natAbs ≤ (((m * d : Nat) : Int) - n).natAbs := by
  have hround := divHalfEven_cases n d
  have hn := Nat.div_add_mod' n d
  have hmod := Nat.mod_lt n hd
  have hside : m * d ≤ n / d * d ∨ (n / d + 1) * d ≤ m * d := by
    rcases Nat.lt_or_ge (n / d) m with hlt | hge
    · exact .inr (Nat.mul_le_mul_right d hlt)
    · exact .inl (Nat.mul_le_mul_right d hge)
  generalize n / d = q at *
  generalize n % d = r at *
  rw [Nat.add_mul, Nat.one_mul] at hside
  rcases hround with ⟨hu, hr⟩ | ⟨hu, hr⟩
  · rw [hu]
    omega
  · rw [hu, Nat.add_mul, Nat.one_mul]
    omega

theorem divHalfEven_mul_cancel {n d : Nat} (hd : 0 < d) (h : d ∣ n) : divHalfEven n d * d = n := by
  obtain ⟨m, rfl⟩ := h
  have hclose := divHalfEven_close (d * m) hd m
  rw [Nat.mul_comm m d] at hclose
  omega

/-- **A pattern survives a grid** that has a point rounded to it: the point nearest to its value is
rounded to it as well. -/
theorem rounds_grid {u m : Nat} (hD : 0 < D) (hle : D ≤ 2 ^ 52) (h : Rounds (m * 2 ^ u) D k) :
    Rounds (divHalfEven (scaled k * D) (2 ^ u) * 2 ^ u) D k := by
  have hunit : 0 < 2 ^ u := Nat.two_pow_pos u
  have hclose := divHalfEven_close (scaled k * D) hunit m
  by_cases heq : divHalfEven (scaled k * D) (2 ^ u) * 2 ^ u = scaled k * D
  · exact rounds_of_eq hD heq
  rcases Nat.lt_or_gt_of_ne heq with hg | hg
  · rcases Nat.le_total (m * 2 ^ u) (scaled k * D) with hm | hm
    · exact h.of_between hD (.inl (by omega))
    · refine h.of_below hD hg (by omega) (by omega) ?_
      -- the grid is finer than the patterns here, so the value is on it
      intro s hvalue hnear
      refine heq (divHalfEven_mul_cancel hunit ?_)
      have hstep : divHalfEven (scaled k * D) (2 ^ u) * 2 ^ u + 2 ^ u ≤ m * 2 ^ u := by
        have hlt : divHalfEven (scaled k * D) (2 ^ u) < m :=
          Nat.lt_of_mul_lt_mul_right (a := 2 ^ u) (by omega)
        rw [← Nat.succ_mul]
        exact Nat.mul_le_mul_right _ hlt
      have hfine : 2 ^ u < 2 ^ (53 + s) := by
        have hD' : 2 ^ s * D ≤ 2 ^ s * 2 ^ 52 := Nat.mul_le_mul_left _ hle
        rw [Nat.pow_add]
        omega
      have hexp : u < 53 + s := (Nat.pow_lt_pow_iff_right (by decide)).mp hfine
      rw [hvalue]
      exact Nat.dvd_mul_right_of_dvd (Nat.pow_dvd_pow 2 (by omega)) D
  · rcases Nat.le_total (m * 2 ^ u) (scaled k * D) with hm | hm
    · exact h.of_above (by omega) hg (by omega)
    · exact h.of_between hD (.inr (by omega))

end Lib.Binary64
