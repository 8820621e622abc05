import StormByteDatabase.Sqlite.PreparedStmt

/-!
# Values written to SQLite and read back

A value is bound by `Binder`, stored unchanged in a column and read by `StepResults`. SQLite is taken
to accept its size, which `SQLITE_LIMIT_LENGTH` bounds, an option of its build.
`integral_round_trip_iff`: `Get` then gives a number of an integral type back unless it is an
`unsigned int` of 2^31 or more, which is bound as an `int`, or an `unsigned long int` of 2^63 or
more, which no SQLite integer is. `text_round_trip_iff`: a text comes back exactly when it has no
NUL byte, where both the writer and the reader stop. `blob_round_trip_iff`: a blob comes back exactly
when it has bytes, and fewer than 2^31; an empty one is bound by a null pointer and comes back as
NULL.

Proof. An integral value is bound as one integer, the reader stores that integer, and `Get` returns
an object exactly when it stands for the number stored.
-/

namespace StormByteDatabase.SQLite

open Lib
open Integral (toInt toInt_bounds)

variable {w : LongWidth}

/-- A value bound to a column is read back as one whose `Get` returns `x`. -/
def RoundTrips (name : Option Bytes) (v : Value w) (t : Dest) (x : t.Carrier w) : Prop :=
  ∃ cell u, (binder v).cell = some cell ∧
    stepResults w (some ⟨[[⟨name, cell⟩]], .done⟩) = .ok [({} : Row w).add (name.getD []) u] ∧
    u.get t = .returned x

theorem roundTrips_iff {name : Option Bytes} {v : Value w} {t : Dest} {x : t.Carrier w}
    {cell : Cell} (hcell : (binder v).cell = some cell) :
    RoundTrips name v t x ↔ (cellValue w cell).get t = .returned x := by
  constructor
  · rintro ⟨cell', u, hcell', hrows, hget⟩
    obtain rfl : cell = cell' := Option.some.inj (hcell.symm.trans hcell')
    have hvalue : cellValue w cell = u := by
      simpa [stepResults, stepRow, Row.add] using hrows
    rw [hvalue]
    exact hget
  · exact fun hget => ⟨cell, _, hcell, rfl, hget⟩

/-! ### Integral values -/

/-- The number is one that is bound as it is. -/
def BoundAsItIs (t : Integral) (n : Int) : Prop :=
  (t = .num .unsignedInt → n < 2 ^ 31) ∧ (t = .num .unsignedLongInt → n < 2 ^ 63)

instance (t : Integral) (n : Int) : Decidable (BoundAsItIs t n) :=
  inferInstanceAs (Decidable ((_ → _) ∧ (_ → _)))

theorem bindable_ofIntegral_iff (t : Integral) (x : t.Carrier .bits64) :
    Bindable (.ofIntegral t x) ↔ BoundAsItIs t (toInt x) := by
  rcases t with _ | _ | _ | _ | _
  · exact iff_of_true trivial ⟨nofun, nofun⟩
  · exact iff_of_true trivial ⟨nofun, nofun⟩
  · exact ⟨fun h => ⟨fun _ => h, nofun⟩, fun h => h.1 rfl⟩
  · exact iff_of_true trivial ⟨nofun, nofun⟩
  · exact ⟨fun h => ⟨nofun, fun _ => h⟩, fun h => h.2 rfl⟩

theorem cell_ofIntegral (t : Integral) (x : t.Carrier .bits64) :
    ∃ m : Int64, (binder (.ofIntegral t x)).cell = some (.integer m) ∧
      (m.toInt = toInt x ↔ BoundAsItIs t (toInt x)) := by
  have hcell : ∃ m : Int64, (binder (.ofIntegral t x)).cell = some (.integer m) := by
    rcases t with _ | _ | _ | _ | _ <;> exact ⟨_, rfl⟩
  obtain ⟨m, hm⟩ := hcell
  have hdenotes : Cell.Denotes (.integer m) (.ofIntegral t x) ↔ m.toInt = toInt x := by
    show (Value.ofIntegral t x).number = some m.toInt ↔ m.toInt = toInt x
    rw [number_ofIntegral, Option.some.injEq, eq_comm]
  refine ⟨m, hm, ?_⟩
  rw [← hdenotes, ← denotes_of_cell hm, exists_cell_denotes_iff, bindable_ofIntegral_iff]

/-- **Integers written to SQLite are read back**, `unsigned int` from 2^31 on and
`unsigned long int` from 2^63 on apart. -/
theorem integral_round_trip_iff (name : Option Bytes) (t : Integral) (x : t.Carrier .bits64) :
    RoundTrips name (.ofIntegral t x) (.integral t) x ↔ BoundAsItIs t (toInt x) := by
  obtain ⟨m, hcell, hm⟩ := cell_ofIntegral t x
  have hnumber : (cellValue .bits64 (.integer m)).number = some m.toInt :=
    number_intOrLong_iff.mpr ⟨m.le_toInt, Int.le_sub_one_of_lt m.toInt_lt⟩
  exact (roundTrips_iff hcell).trans ((get_eq_returned_iff hnumber x).trans hm)

/-- 2^31 as an `unsigned int`. -/
def twoPow31 : Num .bits64 .unsignedInt := ⟨2 ^ 31, by decide, by decide⟩

/-- 2^31 as an `unsigned int` is bound as -2^31. -/
theorem unsigned_not_read_back :
    ¬ ∀ (name : Option Bytes) (t : Integral) (x : t.Carrier .bits64),
      (t = .num .unsignedLongInt → toInt x < 2 ^ 63) →
        RoundTrips name (.ofIntegral t x) (.integral t) x := by
  intro h
  have hcell : (binder (.ofIntegral (.num .unsignedInt) twoPow31)).cell =
      some (.integer (-2 ^ 31)) := by
    decide
  have hthrew : (cellValue .bits64 (.integer (-2 ^ 31))).get (.integral (.num .unsignedInt)) =
      .threw (ascii "Negative value cannot be converted to unsigned.") := by
    rfl
  have hget := (roundTrips_iff hcell).mp (h none (.num .unsignedInt) twoPow31 nofun)
  cases hthrew.symm.trans hget

/-! ### Texts -/

/-- **Texts written to SQLite are read back** exactly when they have no NUL byte. -/
theorem text_round_trip_iff (w : LongWidth) (name : Option Bytes) (s : Bytes) :
    RoundTrips (w := w) name (.text s) .text s ↔ 0 ∉ s := by
  have hcell : (binder (w := w) (.text s)).cell = some (.text (cString s)) := rfl
  have hread : cString (cString s) = cString s := cString_eq_self_iff.mpr (zero_not_mem_cString s)
  rw [← cString_eq_self_iff, roundTrips_iff hcell]
  show Outcome.returned (cString (cString s)) = .returned s ↔ cString s = s
  rw [hread, Outcome.returned.injEq]

/-- A text with a NUL byte is cut off there. -/
theorem text_cut_off :
    ¬ ∀ (name : Option Bytes) (s : Bytes), RoundTrips (w := .bits64) name (.text s) .text s := by
  intro h
  have hcell : (binder (w := .bits64) (.text [97, 0, 98])).cell = some (.text [97]) := by decide
  have hback := (roundTrips_iff hcell).mp (h none [97, 0, 98])
  exact absurd (Outcome.returned.inj hback) (by decide)

/-! ### Blobs and NULL -/

/-- What the column holds; where SQLite refuses to bind, the parameter is the NULL it was reset to. -/
def stored (v : Value w) : Cell := (binder v).cell.getD .null

/-- A value bound to a column is read back as `u`. -/
def ReadsBack (name : Option Bytes) (v u : Value w) : Prop :=
  stepResults w (some ⟨[[⟨name, stored v⟩]], .done⟩) = .ok [({} : Row w).add (name.getD []) u]

theorem readsBack_iff {name : Option Bytes} {v u : Value w} :
    ReadsBack name v u ↔ cellValue w (stored v) = u := by
  simp [ReadsBack, stepResults, stepRow, Row.add]

/-- The value is bound as a NULL only if it is one. -/
def KeepsNull : Value w → Prop
  | .double x => ¬ x.IsNaN
  | .blob b => b ≠ [] ∧ 0 ≤ Cxx.toInt b.length
  | _ => True

theorem cellValue_blob {b : Bytes} (h : b.length < 2 ^ 31) : cellValue w (.blob b) = .blob b := by
  have hsize : Cxx.toInt b.length = b.length := Cxx.toInt_of_lt h
  by_cases hnil : b = []
  · subst hnil
    rfl
  · have hpos : 0 < b.length := List.length_pos_iff.mpr hnil
    simp only [cellValue, columnBlob, if_neg hnil, hsize]
    rw [if_pos (by omega), Int.toNat_natCast, List.take_length]

theorem stored_blob (b : Bytes) :
    (stored (w := w) (.blob b) = .null ∧ ¬ KeepsNull (w := w) (.blob b)) ∨
      ∃ b', (binder (w := w) (.blob b)).cell = some (.blob b') ∧ b'.length < 2 ^ 31 ∧
        KeepsNull (w := w) (.blob b) := by
  by_cases hnil : b = []
  · subst hnil
    exact .inl ⟨rfl, fun h => h.1 rfl⟩
  · have hbind : binder (w := w) (.blob b) = .blob (some b) (Cxx.toInt b.length) := if_neg hnil
    have hupper := Cxx.toInt_lt b.length
    by_cases hneg : Cxx.toInt b.length < 0
    · left
      refine ⟨?_, fun h => absurd hneg (Int.not_lt.mpr h.2)⟩
      simp only [stored, hbind, BindCall.cell, if_pos hneg, Option.getD_none]
    · right
      refine ⟨b.take (Cxx.toInt b.length).toNat, ?_, ?_, hnil, Int.not_lt.mp hneg⟩
      · simp only [hbind, BindCall.cell, if_neg hneg]
      · have := List.length_take_le (Cxx.toInt b.length).toNat b
        omega

theorem readsBack_blob_iff (name : Option Bytes) (b : Bytes) :
    ReadsBack (w := w) name (.blob b) (.blob b) ↔ b ≠ [] ∧ b.length < 2 ^ 31 := by
  rw [readsBack_iff, ← cell_blob_iff (w := w)]
  rcases stored_blob (w := w) b with ⟨hnull, _⟩ | ⟨b', hcell, hlen, _⟩
  · rw [hnull]
    refine iff_of_false nofun fun hcell => ?_
    rw [stored, hcell] at hnull
    cases hnull
  · rw [stored, hcell, Option.getD_some, cellValue_blob hlen, Value.blob.injEq, Option.some.injEq,
      Cell.blob.injEq]

theorem stored_null_iff (v : Value w) : (stored v = .null ↔ v = .null) ↔ KeepsNull v := by
  cases v with
  | null => exact iff_of_true (iff_of_true rfl rfl) trivial
  | integer | unsignedInteger | longInteger | unsignedLongInteger | text | boolean =>
    exact iff_of_true (iff_of_false nofun nofun) trivial
  | double x =>
    refine (iff_false_right nofun).trans ?_
    show ¬ (if x.IsNaN then Cell.null else .float x) = .null ↔ ¬ x.IsNaN
    split_ifs with hnan
    · exact iff_of_false (not_not.mpr rfl) (not_not.mpr hnan)
    · exact iff_of_true nofun hnan
  | blob b =>
    refine (iff_false_right nofun).trans ?_
    rcases stored_blob (w := w) b with ⟨hnull, hkeeps⟩ | ⟨b', hcell, _, hkeeps⟩
    · exact iff_of_false (not_not.mpr hnull) hkeeps
    · refine iff_of_true (fun hnull => ?_) hkeeps
      rw [stored, hcell] at hnull
      cases hnull

/-- **Blobs written to SQLite are read back** exactly when they have bytes, and NULL is read back for
NULL alone but for the doubles that are not a number, empty blobs and blobs that cannot be bound. -/
theorem blob_round_trip_iff (w : LongWidth) (name : Option Bytes) :
    (∀ b : Bytes, ReadsBack (w := w) name (.blob b) (.blob b) ↔ b ≠ [] ∧ b.length < 2 ^ 31) ∧
      ∀ v : Value w, (ReadsBack name v .null ↔ v = .null) ↔ KeepsNull v := by
  refine ⟨readsBack_blob_iff name, fun v => ?_⟩
  rw [readsBack_iff, cellValue_null_iff]
  exact stored_null_iff v

/-- An empty blob is read back as NULL. -/
theorem empty_blob_not_read_back :
    ¬ ∀ (name : Option Bytes) (b : Bytes), b.length ≤ 2 ^ 31 - 1 →
      ReadsBack (w := .bits64) name (.blob b) (.blob b) := by
  intro h
  have hvalue := readsBack_iff.mp (h none [] (by decide))
  cases hvalue

end StormByteDatabase.SQLite
