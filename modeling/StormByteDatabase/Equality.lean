import StormByteDatabase.Conversion

/-!
# What `Get` can tell apart

`operator==` compares the variants, so values of two types are never equal. `Get` converts, so a caller
can get the same from values that are not equal. `get_agrees_iff`: two values give the same for every
type asked for, results compared with `==` and exceptions by their being there, exactly when they are
equal or stand for the same integer. What differs is then the type alone, which only `Type()` shows.
A double stands for the integer it is as long as `std::intmax_t` has it.

Proof. A number is told from every other one by `Get` for the type it is stored in; what a double is
converted to follows from its exact value.
-/

namespace StormByteDatabase

open Lib
open Integral (toInt)

variable {w : LongWidth}

/-- `operator==`, which compares the alternatives of the variant. -/
def Value.equal : Value w → Value w → Bool
  | .null, .null => true
  | .integer n, .integer m => n = m
  | .unsignedInteger n, .unsignedInteger m => n = m
  | .longInteger n, .longInteger m => n = m
  | .unsignedLongInteger n, .unsignedLongInteger m => n = m
  | .double x, .double y => x.equal y
  | .text s, .text s' => s = s'
  | .blob b, .blob b' => b = b'
  | .boolean b, .boolean b' => b = b'
  | _, _ => false

/-- `==` for what `Get` returns. -/
def Dest.equal : (t : Dest) → t.Carrier w → t.Carrier w → Bool
  | .integral _, x, y => x = y
  | .double, x, y => x.equal y
  | .text, s, s' => s = s'
  | .blob, b, b' => b = b'

/-- The calls of `Get` return what is equal, or both throw, or neither has a defined result. -/
def GetAgrees (v u : Value w) (t : Dest) : Prop :=
  match v.get t, u.get t with
  | .returned x, .returned y => t.equal x y = true
  | .threw _, .threw _ => True
  | .undefined, .undefined => True
  | _, _ => False

/-- The value is the integer, of whatever arithmetic type. -/
def Value.StandsFor (v : Value w) (n : Int) : Prop :=
  v.number = some n ∨ ∃ x, v = .double x ∧ x.Denotes n ∧ -2 ^ 63 ≤ n ∧ n < 2 ^ 63

/-- The values are equal, or the same integer. -/
def Value.Alike (v u : Value w) : Prop :=
  v.equal u = true ∨ ∃ n, v.StandsFor n ∧ u.StandsFor n

/-! ### What `Get` gives -/

section

variable {v u : Value w} {n m : Int} {x y : Binary64} {t : Integral} {d : Dest}

theorem get_of_inRange (h : v.number = some n) (hrange : t.InRange w n) :
    v.get (.integral t) = .returned (t.cast w n) := by
  rw [get_eq_returned_iff h, Integral.toInt_cast hrange.1 hrange.2]

theorem get_of_not_inRange (h : v.number = some n) (hrange : ¬ t.InRange w n) :
    ∃ what, v.get (.integral t) = .threw what := by
  obtain ⟨s, z, rfl, rfl⟩ := exists_ofIntegral h
  rw [get_ofIntegral]
  exact convertIntegral_of_not_inRange z hrange

theorem get_double_of_number (h : v.number = some n) : v.get .double = .returned (toDouble n) := by
  obtain ⟨s, z, rfl, rfl⟩ := exists_ofIntegral h
  exact get_double_of_integral z

theorem get_text_of_number (h : v.number = some n) : ∃ what, v.get .text = .threw what := by
  obtain ⟨s, z, rfl, rfl⟩ := exists_ofIntegral h
  rcases s with _ | _ | _ | _ | _ <;> exact ⟨_, rfl⟩

theorem get_blob_of_number (h : v.number = some n) : ∃ what, v.get .blob = .threw what := by
  obtain ⟨s, z, rfl, rfl⟩ := exists_ofIntegral h
  rcases s with _ | _ | _ | _ | _ <;> exact ⟨_, rfl⟩

theorem exists_get (h : v.number = some n) :
    ∃ (t : Integral) (z : t.Carrier w), v.get (.integral t) = .returned z ∧ toInt z = n := by
  obtain ⟨t, z, rfl, rfl⟩ := exists_ofIntegral h
  exact ⟨t, z, (get_eq_returned_iff h z).mpr rfl, rfl⟩

/-- A double gives an integer if it is that integer and `std::intmax_t` has it. -/
theorem get_double_eq_returned_iff {z : t.Carrier w} :
    (Value.double x).get (.integral t) = .returned z ↔
      x.Denotes (toInt z) ∧ -2 ^ 63 ≤ toInt z ∧ toInt z < 2 ^ 63 := by
  rw [get_double]
  by_cases hint : ∃ k, x.Denotes k
  · obtain ⟨k, hk⟩ := hint
    rw [convertDouble_of_denotes hk]
    have hsame : x.Denotes (toInt z) ↔ k = toInt z := by
      constructor
      · exact fun hz => hk.trunc_eq.symm.trans hz.trunc_eq
      · rintro rfl
        exact hk
    rw [hsame]
    split_ifs with hcast
    · refine iff_of_false (fun h => by cases h) ?_
      rintro ⟨rfl, hlo, hhi⟩
      omega
    · by_cases hrange : t.InRange w k
      · rw [narrow_of_inRange hrange, Outcome.returned.injEq]
        constructor
        · rintro rfl
          rw [Integral.toInt_cast hrange.1 hrange.2]
          exact ⟨rfl, by omega, by omega⟩
        · rintro ⟨rfl, _⟩
          exact Integral.cast_toInt z
      · obtain ⟨what, hwhat⟩ := narrow_of_not_inRange (w := w) (t := t) hrange
        rw [hwhat]
        refine iff_of_false (fun h => by cases h) ?_
        rintro ⟨rfl, _⟩
        exact hrange (Integral.toInt_bounds z)
  · obtain ⟨what, hwhat⟩ := convertDouble_of_not_denotes (w := w) (t := t) hint
    rw [hwhat]
    exact iff_of_false (fun h => by cases h) fun h => hint ⟨_, h.1⟩

theorem get_double_of_denotes (hx : x.Denotes n) (hlo : -2 ^ 63 ≤ n) (hhi : n < 2 ^ 63)
    (hrange : ¬ t.InRange w n) :
    ∃ what, (Value.double (w := w) x).get (.integral t) = .threw what := by
  rw [get_double, convertDouble_of_denotes hx, if_neg (by omega)]
  exact narrow_of_not_inRange hrange

theorem get_of_equal (h : x.equal y = true) :
    (Value.double (w := w) x).get (.integral t) = (Value.double y).get (.integral t) := by
  rw [get_double, get_double]
  have hfinite : x.IsFinite ↔ y.IsFinite := Binary64.isFinite_of_equal h
  by_cases hx : x.IsFinite
  · have hexact : x.exact = y.exact := (Binary64.equal_iff_exact hx).mp h
    unfold convertDouble Binary64.trunc
    rw [hexact, if_neg (not_not.mpr hx), if_neg (not_not.mpr (hfinite.mp hx))]
  · have hy : ¬ y.IsFinite := fun hy => hx (hfinite.mpr hy)
    unfold convertDouble
    rw [if_pos hx, if_pos hy]

/-! ### Agreement -/

theorem equal_self (hd : d ≠ .double) (z : d.Carrier w) : d.equal z z = true := by
  cases d with
  | integral t => exact decide_eq_true rfl
  | double => exact absurd rfl hd
  | text => exact decide_eq_true rfl
  | blob => exact decide_eq_true rfl

theorem equal_iff (hd : d ≠ .double) {z z' : d.Carrier w} : d.equal z z' = true ↔ z = z' := by
  cases d with
  | integral t => exact decide_eq_true_iff
  | double => exact absurd rfl hd
  | text => exact decide_eq_true_iff
  | blob => exact decide_eq_true_iff

theorem getAgrees_of_returned {z z' : d.Carrier w} (hv : v.get d = .returned z)
    (hu : u.get d = .returned z') : GetAgrees v u d ↔ d.equal z z' = true := by
  unfold GetAgrees
  rw [hv, hu]

theorem getAgrees_of_threw {a b : Bytes} (hv : v.get d = .threw a) (hu : u.get d = .threw b) :
    GetAgrees v u d := by
  unfold GetAgrees
  rw [hv, hu]
  trivial

theorem getAgrees_of_eq (hd : d ≠ .double) (h : v.get d = u.get d) : GetAgrees v u d := by
  unfold GetAgrees
  rw [h]
  cases u.get d with
  | returned z => exact equal_self hd z
  | threw what => trivial
  | undefined => trivial

theorem get_of_getAgrees {z : d.Carrier w} (hd : d ≠ .double) (h : GetAgrees v u d)
    (hv : v.get d = .returned z) : u.get d = .returned z := by
  unfold GetAgrees at h
  rw [hv] at h
  cases hu : u.get d with
  | returned z' =>
    rw [hu] at h
    rw [(equal_iff hd).mp h]
  | threw what =>
    rw [hu] at h
    cases h
  | undefined =>
    rw [hu] at h
    cases h

theorem getAgrees_comm : GetAgrees v u d ↔ GetAgrees u v d := by
  have hequal : ∀ z z' : d.Carrier w, d.equal z z' = d.equal z' z := by
    intro z z'
    cases d with
    | integral t => exact decide_eq_decide.mpr eq_comm
    | double => exact Binary64.equal_comm z z'
    | text => exact decide_eq_decide.mpr eq_comm
    | blob => exact decide_eq_decide.mpr eq_comm
  unfold GetAgrees
  cases v.get d <;> cases u.get d <;> simp only [hequal]

/-! ### Which values agree -/

theorem toDouble_equal_self (n : Int) : (toDouble n).equal (toDouble n) = true :=
  Binary64.equal_self_iff.mpr (Nat.not_lt.mpr (Nat.min_le_left _ _))

theorem toDouble_equal (hx : x.Denotes n) (hlo : -2 ^ 63 ≤ n) (hhi : n < 2 ^ 63) :
    (toDouble n).equal x = true := by
  have hfits : Binary64.FitsSignificand n.natAbs :=
    Binary64.fitsSignificand_mul_iff.mp (Binary64.exists_scaled_eq_iff.mp ⟨_, hx.scaled_eq⟩)
  have hdenotes : (toDouble n).Denotes n :=
    (Binary64.denotes_ofQuotient_iff (b := 64) (by decide) (by omega)).mpr hfits
  rw [Binary64.equal_iff_exact hdenotes.1, hdenotes.2, hx.2]

theorem numbers_agree_iff (hv : v.number = some n) (hu : u.number = some m) :
    (∀ d, GetAgrees v u d) ↔ n = m := by
  constructor
  · intro h
    obtain ⟨t, z, hz, rfl⟩ := exists_get hv
    have hget := get_of_getAgrees (fun hd => by cases hd) (h (.integral t)) hz
    exact ((get_eq_returned_iff hu z).mp hget).symm
  · rintro rfl d
    cases d with
    | integral t =>
      by_cases hrange : t.InRange w n
      · apply getAgrees_of_eq (fun hd => by cases hd)
        rw [get_of_inRange hv hrange, get_of_inRange hu hrange]
      · obtain ⟨a, ha⟩ := get_of_not_inRange hv hrange
        obtain ⟨b, hb⟩ := get_of_not_inRange hu hrange
        exact getAgrees_of_threw ha hb
    | double =>
      rw [getAgrees_of_returned (get_double_of_number hv) (get_double_of_number hu)]
      exact toDouble_equal_self n
    | text =>
      obtain ⟨a, ha⟩ := get_text_of_number hv
      obtain ⟨b, hb⟩ := get_text_of_number hu
      exact getAgrees_of_threw ha hb
    | blob =>
      obtain ⟨a, ha⟩ := get_blob_of_number hv
      obtain ⟨b, hb⟩ := get_blob_of_number hu
      exact getAgrees_of_threw ha hb

theorem number_double_agree_iff (hv : v.number = some n) :
    (∀ d, GetAgrees v (.double x) d) ↔ x.Denotes n ∧ -2 ^ 63 ≤ n ∧ n < 2 ^ 63 := by
  constructor
  · intro h
    obtain ⟨t, z, hz, rfl⟩ := exists_get hv
    have hget := get_of_getAgrees (fun hd => by cases hd) (h (.integral t)) hz
    exact get_double_eq_returned_iff.mp hget
  · rintro ⟨hx, hlo, hhi⟩ d
    cases d with
    | integral t =>
      by_cases hrange : t.InRange w n
      · have hcast : toInt (t.cast w n) = n := Integral.toInt_cast hrange.1 hrange.2
        apply getAgrees_of_eq (fun hd => by cases hd)
        rw [get_of_inRange hv hrange, eq_comm, get_double_eq_returned_iff, hcast]
        exact ⟨hx, hlo, hhi⟩
      · obtain ⟨a, ha⟩ := get_of_not_inRange hv hrange
        obtain ⟨b, hb⟩ := get_double_of_denotes hx hlo hhi hrange
        exact getAgrees_of_threw ha hb
    | double =>
      rw [getAgrees_of_returned (get_double_of_number hv) rfl]
      exact toDouble_equal hx hlo hhi
    | text =>
      obtain ⟨a, ha⟩ := get_text_of_number hv
      exact getAgrees_of_threw ha rfl
    | blob =>
      obtain ⟨a, ha⟩ := get_blob_of_number hv
      exact getAgrees_of_threw ha rfl

theorem doubles_agree_iff :
    (∀ d, GetAgrees (.double x : Value w) (.double y) d) ↔ x.equal y = true := by
  constructor
  · exact fun h => h .double
  · intro h d
    cases d with
    | integral t => exact getAgrees_of_eq (fun hd => by cases hd) (get_of_equal h)
    | double => exact h
    | text => trivial
    | blob => trivial

theorem others_agree_iff (hv : v.number = none) (hdouble : v.type ≠ .double) :
    (∀ d, GetAgrees v u d) ↔ u = v := by
  constructor
  · intro h
    cases v with
    | null =>
      cases u with
      | null => rfl
      | integer z => exact (h (.integral (.num .int))).elim
      | unsignedInteger z => exact (h (.integral (.num .unsignedInt))).elim
      | longInteger z => exact (h (.integral (.num .longInt))).elim
      | unsignedLongInteger z => exact (h (.integral (.num .unsignedLongInt))).elim
      | double z => exact (h .double).elim
      | text z => exact (h .text).elim
      | blob z => exact (h .blob).elim
      | boolean z => exact (h (.integral .bool)).elim
    | text s =>
      have hget : u.get .text = .returned s := get_of_getAgrees (fun hd => by cases hd) (h .text) rfl
      cases u <;> cases hget
      rfl
    | blob b =>
      have hget : u.get .blob = .returned b := get_of_getAgrees (fun hd => by cases hd) (h .blob) rfl
      cases u <;> cases hget
      rfl
    | double => exact absurd rfl hdouble
    | integer | unsignedInteger | longInteger | unsignedLongInteger | boolean => cases hv
  · rintro rfl d
    cases d with
    | integral t => exact getAgrees_of_eq (fun hd => by cases hd) rfl
    | double =>
      cases u with
      | double => exact absurd rfl hdouble
      | null | text | blob => trivial
      | integer | unsignedInteger | longInteger | unsignedLongInteger | boolean => cases hv
    | text => exact getAgrees_of_eq (fun hd => by cases hd) rfl
    | blob => exact getAgrees_of_eq (fun hd => by cases hd) rfl

end

/-! ### Equality -/

namespace Value

variable {v u : Value w} {n m : Int} {x y : Binary64}

theorem equal_comm (v u : Value w) : v.equal u = u.equal v := by
  cases v <;> cases u <;> simp only [equal, Binary64.equal_comm, eq_comm]

theorem number_of_equal (h : v.equal u = true) (hv : v.number = some n) : u.number = some n := by
  cases v <;> cases u <;> simp_all [equal, number]

theorem equal_iff_of_other (hv : v.number = none) (hdouble : v.type ≠ .double) :
    v.equal u = true ↔ u = v := by
  cases v <;> cases u <;> simp_all [equal, number, type, eq_comm]

theorem standsFor_of_number (hv : v.number = some n) : v.StandsFor m ↔ n = m := by
  constructor
  · rintro (hm | ⟨x, rfl, _⟩)
    · exact Option.some.inj (hv.symm.trans hm)
    · cases hv
  · rintro rfl
    exact .inl hv

theorem standsFor_double : (.double x : Value w).StandsFor n ↔
    x.Denotes n ∧ -2 ^ 63 ≤ n ∧ n < 2 ^ 63 := by
  constructor
  · rintro (hn | ⟨y, hy, h⟩)
    · cases hn
    · rwa [Value.double.inj hy]
  · exact fun h => .inr ⟨x, rfl, h⟩

theorem not_standsFor (hv : v.number = none) (hdouble : v.type ≠ .double) : ¬ v.StandsFor n := by
  rintro (hn | ⟨x, rfl, _⟩)
  · rw [hv] at hn
    cases hn
  · exact hdouble rfl

theorem alike_comm : v.Alike u ↔ u.Alike v := by
  unfold Alike
  rw [equal_comm]
  simp only [and_comm]

theorem numbers_alike_iff (hv : v.number = some n) (hu : u.number = some m) :
    v.Alike u ↔ n = m := by
  constructor
  · rintro (hequal | ⟨k, hvk, huk⟩)
    · exact Option.some.inj ((number_of_equal hequal hv).symm.trans hu)
    · rw [(standsFor_of_number hv).mp hvk, (standsFor_of_number hu).mp huk]
  · rintro rfl
    exact .inr ⟨n, .inl hv, .inl hu⟩

theorem number_double_alike_iff (hv : v.number = some n) :
    v.Alike (.double x) ↔ x.Denotes n ∧ -2 ^ 63 ≤ n ∧ n < 2 ^ 63 := by
  constructor
  · rintro (hequal | ⟨k, hvk, hx⟩)
    · cases number_of_equal hequal hv
    · obtain rfl := (standsFor_of_number hv).mp hvk
      exact standsFor_double.mp hx
  · exact fun hx => .inr ⟨n, .inl hv, standsFor_double.mpr hx⟩

theorem doubles_alike_iff : (.double x : Value w).Alike (.double y) ↔ x.equal y = true := by
  constructor
  · rintro (hequal | ⟨k, hx, hy⟩)
    · exact hequal
    · have hxk := (standsFor_double.mp hx).1
      rw [Binary64.equal_iff_exact hxk.1, hxk.2, (standsFor_double.mp hy).1.2]
  · exact .inl

theorem other_alike_iff (hv : v.number = none) (hdouble : v.type ≠ .double) :
    v.Alike u ↔ u = v := by
  refine (or_iff_left ?_).trans (equal_iff_of_other hv hdouble)
  rintro ⟨n, hn, _⟩
  exact not_standsFor hv hdouble hn

theorem number_or_double (v : Value w) :
    (∃ n, v.number = some n) ∨ (∃ x, v = .double x) ∨ v.number = none ∧ v.type ≠ .double := by
  cases v with
  | integer | unsignedInteger | longInteger | unsignedLongInteger | boolean => exact .inl ⟨_, rfl⟩
  | double x => exact .inr (.inl ⟨x, rfl⟩)
  | null | text | blob => exact .inr (.inr ⟨rfl, fun h => by cases h⟩)

end Value

/-- **What `Get` can tell apart.** Two values give the same for every type exactly when they are equal or
stand for the same integer. -/
theorem get_agrees_iff (v u : Value w) : (∀ d, GetAgrees v u d) ↔ v.Alike u := by
  have hcomm : (∀ d, GetAgrees v u d) ↔ ∀ d, GetAgrees u v d := forall_congr' fun _ => getAgrees_comm
  rcases v.number_or_double with ⟨n, hv⟩ | ⟨x, rfl⟩ | ⟨hv, hdouble⟩
  · rcases u.number_or_double with ⟨m, hu⟩ | ⟨y, rfl⟩ | ⟨hu, hdouble⟩
    · rw [numbers_agree_iff hv hu, Value.numbers_alike_iff hv hu]
    · rw [number_double_agree_iff hv, Value.number_double_alike_iff hv]
    · rw [hcomm, Value.alike_comm, others_agree_iff hu hdouble, Value.other_alike_iff hu hdouble]
  · rcases u.number_or_double with ⟨m, hu⟩ | ⟨y, rfl⟩ | ⟨hu, hdouble⟩
    · rw [hcomm, Value.alike_comm, number_double_agree_iff hu, Value.number_double_alike_iff hu]
    · rw [doubles_agree_iff, Value.doubles_alike_iff]
    · rw [hcomm, Value.alike_comm, others_agree_iff hu hdouble, Value.other_alike_iff hu hdouble]
  · rw [others_agree_iff hv hdouble, Value.other_alike_iff hv hdouble]

/-- What holds the same gives the same for every type, a NaN apart, which is not equal to itself. -/
theorem getAgrees_of_same {v u : Value w} (h : v.Same u) (hnan : ∀ x, v = .double x → ¬ x.IsNaN)
    (d : Dest) : GetAgrees v u d := by
  rcases v.number_or_double with ⟨n, hv⟩ | ⟨x, rfl⟩ | ⟨hv, hdouble⟩
  · exact (numbers_agree_iff hv ((same_of_number hv).mp h)).mpr rfl d
  · obtain rfl := (same_of_no_number rfl).mp h
    exact doubles_agree_iff.mpr (Binary64.equal_self_iff.mpr (hnan x rfl)) d
  · exact (others_agree_iff hv hdouble).mpr ((same_of_no_number hv).mp h) d

end StormByteDatabase
