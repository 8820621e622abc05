import StormByteDatabase.Conversion
import StormByteDatabase.Postgres.PreparedStmt
import StormByteDatabase.Postgres.ResultFetch

/-!
# Numbers sent to PostgreSQL and read back

`Binder` sends a number as text. `double_kept_iff`: the server reads the text of a finite double as
the same double exactly when it is the one nearest to some number of millionths, as `std::to_string`
writes no more decimals. `integer_round_trip`: an integer that comes back in an integer column is
read without an exception and `Get` gives it back.

Proof. `std::to_string` writes the number of millionths nearest to the double, and if any number of
millionths is rounded to the double, so is the nearest one (`Binary64.rounds_grid`). For integers the
text is read back by `std::stoll`, and `intOrLong` keeps what a `long int` of 64 bits has.
-/

namespace StormByteDatabase.Postgres

open Lib Decimal
open Integral (toInt)

/-! ### Doubles -/

/-- What the server makes of a parameter in fixed notation: the exact decimal, rounded to nearest,
which is refused when it is too large. -/
def float8in (s : Bytes) : Option Binary64 :=
  let (negative, s) := Cxx.sign s
  let whole := s.takeWhile isDigit
  match s.dropWhile isDigit with
  | 46 :: frac =>
    let x := Binary64.ofQuotient negative (ofDigits (whole ++ frac)) (10 ^ frac.length)
    if whole ≠ [] ∧ frac.all isDigit ∧ ¬ x.IsInfinite then some x else none
  | _ => none

theorem float8in_fixed (negative : Bool) (u : Nat) :
    float8in ((if negative then ascii "-" else []) ++ Cxx.fixed u) =
      if (Binary64.ofQuotient negative u (10 ^ 6)).IsInfinite then none
      else some (Binary64.ofQuotient negative u (10 ^ 6)) := by
  obtain ⟨frac, hfixed, hlen, hdigits, hfrac⟩ := Cxx.exists_fixed_eq u
  have hwhole : ∀ c ∈ digits (u / 10 ^ 6), isDigit c = true := isDigit_of_mem_digits _
  have hsign : Cxx.sign ((if negative then ascii "-" else []) ++ Cxx.fixed u) =
      (negative, Cxx.fixed u) := by
    cases negative with
    | true => rfl
    | false =>
      refine Cxx.sign_of_head fun c hc => ?_
      rw [hfixed] at hc
      simp only [Bool.false_eq_true, if_false, List.nil_append] at hc
      rw [List.head?_append_of_ne_nil _ (digits_ne_nil _)] at hc
      exact hwhole c (List.mem_of_head? hc)
  have htake : (Cxx.fixed u).takeWhile isDigit = digits (u / 10 ^ 6) := by
    rw [hfixed, List.takeWhile_append_of_pos hwhole, List.takeWhile_cons_of_neg (by decide),
      List.append_nil]
  have hdrop : (Cxx.fixed u).dropWhile isDigit = 46 :: frac := by
    rw [hfixed, List.dropWhile_append_of_pos hwhole, List.dropWhile_cons_of_neg (by decide)]
  have hvalue : ofDigits (digits (u / 10 ^ 6) ++ frac) = u := by
    rw [ofDigits_append, ofDigits_digits, hfrac, hlen]
    omega
  unfold float8in
  rw [hsign]
  simp only [htake, hdrop]
  rw [hvalue, hlen]
  by_cases hinf : (Binary64.ofQuotient negative u (10 ^ 6)).IsInfinite
  · rw [if_pos hinf, if_neg fun h => h.2.2 hinf]
  · rw [if_neg hinf, if_pos ⟨digits_ne_nil _, List.all_eq_true.mpr hdigits, hinf⟩]

theorem isFinite_of_float8in {s : Bytes} {x : Binary64} (h : float8in s = some x) : x.IsFinite := by
  unfold float8in at h
  dsimp only at h
  split at h
  · split_ifs at h with hread
    obtain rfl := Option.some.inj h
    exact Binary64.isFinite_ofQuotient hread.2.2
  · cases h

/-- The server has the double that was bound. -/
def DoubleKept (w : LongWidth) (x : Binary64) : Prop :=
  ∃ s, text (w := w) (.double x) = some s ∧ float8in s = some x

/-- **The doubles that a parameter keeps** are those nearest to a number of millionths. -/
theorem double_kept_iff (w : LongWidth) (x : Binary64) (hfin : x.IsFinite) :
    DoubleKept w x ↔ ∃ m, Binary64.nearest m (10 ^ 6) = x.pattern := by
  have hnan : ¬ x.IsNaN := Nat.not_lt.mpr (Nat.le_of_lt hfin)
  have hinf : ¬ x.IsInfinite := Nat.ne_of_lt hfin
  generalize hu : divHalfEven (Binary64.scaled x.pattern * 10 ^ 6) (2 ^ 1074) = u
  have htext : Cxx.toStringDouble x = (if x.negative then ascii "-" else []) ++ Cxx.fixed u := by
    unfold Cxx.toStringDouble
    rw [if_neg hnan, if_neg hinf, hu]
  have hkept : DoubleKept w x ↔ Binary64.nearest u (10 ^ 6) = x.pattern := by
    constructor
    · rintro ⟨s, hs, hread⟩
      obtain rfl : Cxx.toStringDouble x = s := Option.some.inj hs
      rw [htext, float8in_fixed] at hread
      split_ifs at hread
      exact Binary64.ofQuotient_eq_iff.mp (Option.some.inj hread)
    · intro hpattern
      refine ⟨_, rfl, ?_⟩
      rw [htext, float8in_fixed, Binary64.ofQuotient_eq_iff.mpr hpattern, if_neg hinf]
  rw [hkept]
  constructor
  · exact fun h => ⟨u, h⟩
  · rintro ⟨m, hm⟩
    rw [Binary64.nearest_eq_iff (by decide) hfin] at hm ⊢
    rw [← hu]
    exact Binary64.rounds_grid (by decide) (by decide) hm

/-- One half. -/
def half : Binary64 := ⟨false, 0x3FE0000000000000, by decide⟩

theorem half_kept : half.IsFinite ∧ DoubleKept .bits64 half :=
  ⟨by decide, (double_kept_iff .bits64 half (by decide)).mpr ⟨500000, by decide +kernel⟩⟩

/-- The double nearest to 10^-7. -/
def tenMillionth : Binary64 := ⟨false, 0x3E7AD7F29ABCAF48, by decide⟩

/-- 10^-7 is sent as 0.000000. -/
theorem double_lost : ¬ ∀ x : Binary64, x.IsFinite → DoubleKept .bits64 x := by
  intro h
  obtain ⟨s, hs, hread⟩ := h tenMillionth (by decide)
  obtain rfl : Cxx.toStringDouble tenMillionth = s := Option.some.inj hs
  have hzero : float8in (Cxx.toStringDouble tenMillionth) ≠ some tenMillionth := by
    decide +kernel
  exact hzero hread

/-! ### Integers -/

/-- In row `i` and column `j` the server returns the text that was sent for the value, in a column of
type `int2`, `int4` or `int8`. -/
structure Echoed {w : LongWidth} (v : Value w) (res : PGResult) (i j : Nat) : Prop where
  status : res.status = .tuplesOk
  type : ∃ field, res.fields[j]? = some field ∧ field.ftype ∈ [20, 21, 23]
  cell : ∃ row s, res.rows[i]? = some row ∧ text v = some s ∧ row[j]? = some (some s)

/-- The value that `StepResults` puts into row `i` and column `j`. -/
def valueAt {w : LongWidth} (rows : ExpectedRows w) (i j : Nat) : Option (Value w) :=
  match rows with
  | .ok rows => (rows[i]?.bind fun row => row.data[j]?).map (·.value)
  | .error _ => none

theorem valueAt_stepResults {w : LongWidth} {unescapeBytea : Bytes → Option Bytes}
    {res : PGResult} (hstatus : res.status = .tuplesOk) {i j : Nat} {field : Field}
    {row : List (Option Bytes)} {cell : Option Bytes} (hfield : res.fields[j]? = some field)
    (hrow : res.rows[i]? = some row) (hcell : row[j]? = some cell) :
    valueAt (stepResults w unescapeBytea (some res)) i j =
      some (textValue w unescapeBytea field cell) := by
  have hzip : (res.fields.zip row)[j]? = some (field, cell) :=
    List.getElem?_zip_eq_some.mpr ⟨hfield, hcell⟩
  simp [valueAt, stepResults, hstatus, hrow, stepRow_data, hzip]

theorem text_ofIntegral {w : LongWidth} (t : IntType) (x : Num w t) :
    text (.ofIntegral (.num t) x) = some (Cxx.toString x.val) := by
  cases t <;> rfl

theorem longLong_bounds {t : IntType} (x : Num .bits64 t)
    (hx : t = .unsignedLongInt → x.val ≤ 2 ^ 63 - 1) : -2 ^ 63 ≤ x.val ∧ x.val < 2 ^ 63 := by
  cases t with
  | int =>
    have hbounds := x.int_bounds
    omega
  | unsignedInt =>
    have hlo : 0 ≤ x.val := x.lower
    have hhi : x.val ≤ 2 ^ 32 - 1 := x.upper
    omega
  | longInt => exact x.longInt_bounds
  | unsignedLongInt =>
    have hlo : 0 ≤ x.val := x.lower
    have hhi := hx rfl
    omega

theorem intOrLong_type (n : Int) : (intOrLong .bits64 n).type =
    if (Integral.num .int).InRange .bits64 n then .integer else .longInteger := by
  have hiff : (Integral.num .int).InRange .bits64 n ↔
      ¬ (n > IntType.max .bits64 .int ∨ n < IntType.lowest .bits64 .int) := by
    show IntType.lowest .bits64 .int ≤ n ∧ n ≤ IntType.max .bits64 .int ↔ _
    omega
  simp only [hiff, ite_not]
  unfold intOrLong
  split_ifs <;> rfl

/-- What the reader makes of the text of a number. -/
structure ReadsNumber {t : IntType} (x : Num .bits64 t) (s : Bytes) (u : Value .bits64) : Prop where
  /-- `std::stoll` does not throw. -/
  parses : Cxx.stoll s = some x.val
  type : u.type = if (Integral.num .int).InRange .bits64 x.val then .integer else .longInteger
  get : u.get (.integral (.num t)) = .returned x

/-- **Integers sent to PostgreSQL are read back**, with a `long int` of 64 bits. -/
theorem integer_round_trip (unescapeBytea : Bytes → Option Bytes) {t : IntType}
    (x : Num .bits64 t) (hx : t = .unsignedLongInt → x.val ≤ 2 ^ 63 - 1) {res : PGResult}
    {i j : Nat} (hecho : Echoed (.ofIntegral (.num t) x) res i j) :
    ∃ s u, text (.ofIntegral (.num t) x) = some s ∧
      valueAt (stepResults .bits64 unescapeBytea (some res)) i j = some u ∧ ReadsNumber x s u := by
  obtain ⟨hstatus, ⟨field, hfield, hftype⟩, row, s, hrow, htext, hcell⟩ := hecho
  obtain rfl : Cxx.toString x.val = s := Option.some.inj ((text_ofIntegral t x).symm.trans htext)
  have hbounds := longLong_bounds x hx
  have hparse : Cxx.stoll (Cxx.toString x.val) = some x.val :=
    Cxx.stoll_toString hbounds.1 hbounds.2
  have hvalue : textValue .bits64 unescapeBytea field (some (Cxx.toString x.val)) =
      intOrLong .bits64 x.val := by
    simp only [List.mem_cons, List.not_mem_nil, or_false] at hftype
    rcases hftype with h | h | h <;> simp only [textValue, cellValue, h, hparse, Option.getD_some]
  refine ⟨_, _, htext, valueAt_stepResults hstatus hfield hrow hcell, hparse, ?_, ?_⟩
  · rw [hvalue, intOrLong_type]
  · rw [hvalue]
    have hnumber : (intOrLong .bits64 x.val).number = some x.val :=
      number_intOrLong_iff.mpr ⟨hbounds.1, Int.le_sub_one_of_lt hbounds.2⟩
    apply (get_eq_returned_iff hnumber _).mpr
    rfl

/-- 2^40 as an `unsigned long int`. -/
def twoPow40 : Num .bits64 .unsignedLongInt := ⟨2 ^ 40, by decide, by decide⟩

/-- A result of one `int8` cell. -/
def oneCell (val : Bytes) : PGResult where
  status := .tuplesOk
  errorMessage := none
  fields := [⟨some (ascii "n"), 20⟩]
  rows := [[some val]]
  width := by simp

theorem integer_round_trip_two_pow_40 :
    ∃ s u, text (.ofIntegral (.num .unsignedLongInt) twoPow40) = some s ∧
      valueAt (stepResults .bits64 (fun _ => none) (some (oneCell (ascii "1099511627776")))) 0 0 =
        some u ∧ ReadsNumber twoPow40 s u :=
  integer_round_trip (fun _ => none) twoPow40 (fun _ => by decide)
    ⟨rfl, ⟨_, rfl, by decide⟩, _, _, rfl, by decide +kernel, rfl⟩

end StormByteDatabase.Postgres
