import StormByteDatabase.Conversion
import StormByteDatabase.Mariadb.Decode
import StormByteDatabase.Postgres.ResultFetch
import StormByteDatabase.Sqlite.ResultFetch

/-!
# Integer cells of the three backends

An integer cell reaches `StepResults` as a number from SQLite and as its numeral from the other two.
`integer_results_exact_iff`: the value added to the row stores the number of the cell exactly when
`long int` has 64 bits or the number fits an `int`, with a column that MariaDB declares as a boolean
read as one. `text_integer_kept_iff`: with a `long int` of 64 bits the text results of MariaDB keep
the numbers below 2^63 of every integer column that is not read as a boolean; the numbers of
`BIGINT UNSIGNED` above become 0, as the exception of `std::stoll` is dropped.

Proof. A numeral is read back (`Cxx.stoll_toString`), so that all three end in `intOrLong` or in the
cast to `long int`, and either keeps a number exactly when `long int` has it.
-/

namespace StormByteDatabase.IntegerResults

open Lib

/-- An integer cell that stores `v`, with the row of the result it is in. -/
inductive IntegerCell (v : Int64)
  | sqlite (columns : List SQLite.Column) (i : Nat) (name : Option Bytes)
      (column : columns[i]? = some ⟨name, .integer v⟩)
  /-- Of type `int2`, `int4` or `int8`. -/
  | postgres (unescapeBytea : Bytes → Option Bytes) (fields : List Postgres.Field)
      (row : List (Option Bytes)) (i : Nat) (field : Postgres.Field)
      (column : fields[i]? = some field) (integer : field.ftype ∈ [20, 21, 23])
      (cell : row[i]? = some (some (Cxx.toString v.toInt)))
  | mariaDB (fields : List (Option MariaDB.Field)) (row : List (Option Bytes)) (i : Nat)
      (field : MariaDB.Field) (column : fields[i]? = some (some field))
      (integer : (MariaDB.integerBits field.type).isSome) (signed : field.unsigned = false)
      (cell : row[i]? = some (some (Cxx.toString v.toInt)))

variable {v : Int64}

/-- The row `StepResults` builds. -/
def IntegerCell.row (w : LongWidth) : IntegerCell v → Row w
  | .sqlite columns _ _ _ => SQLite.stepRow w columns
  | .postgres unescapeBytea fields row _ _ _ _ _ => Postgres.stepRow w unescapeBytea fields row
  | .mariaDB fields row _ _ _ _ _ _ => MariaDB.stepRow w fields row

/-- The place of the cell in its row. -/
def IntegerCell.index : IntegerCell v → Nat
  | .sqlite _ i _ _ => i
  | .postgres _ _ _ i _ _ _ _ => i
  | .mariaDB _ _ i _ _ _ _ _ => i

/-- The cell is of a MariaDB column that is read as a boolean, `TINYINT(1)`. -/
def IntegerCell.isBoolean : IntegerCell v → Bool
  | .sqlite _ _ _ _ => false
  | .postgres _ _ _ _ _ _ _ _ => false
  | .mariaDB _ _ _ field _ _ _ _ => field.type = .tiny && MariaDB.isBoolean (some field)

/-- The number stored by the value added for the cell. -/
def IntegerCell.stored (w : LongWidth) (cell : IntegerCell v) : Option Int :=
  (cell.row w).data[cell.index]?.bind fun nv => nv.value.number

theorem stoll_toString (v : Int64) : (Cxx.stoll (Cxx.toString v.toInt)).getD 0 = v.toInt := by
  rw [Cxx.stoll_toString v.le_toInt v.toInt_lt, Option.getD_some]

theorem stored_sqlite {w : LongWidth} {columns : List SQLite.Column} {i : Nat} {name : Option Bytes}
    (column : columns[i]? = some ⟨name, .integer v⟩) :
    (IntegerCell.sqlite columns i name column).stored w = (intOrLong w v.toInt).number := by
  simp [IntegerCell.stored, IntegerCell.row, IntegerCell.index, SQLite.stepRow_data, column,
    SQLite.cellValue]

theorem stored_postgres {w : LongWidth} {unescapeBytea : Bytes → Option Bytes}
    {fields : List Postgres.Field} {row : List (Option Bytes)} {i : Nat} {field : Postgres.Field}
    (column : fields[i]? = some field) (integer : field.ftype ∈ [20, 21, 23])
    (cell : row[i]? = some (some (Cxx.toString v.toInt))) :
    (IntegerCell.postgres unescapeBytea fields row i field column integer cell).stored w =
      (intOrLong w v.toInt).number := by
  have hzip : (fields.zip row)[i]? = some (field, some (Cxx.toString v.toInt)) :=
    List.getElem?_zip_eq_some.mpr ⟨column, cell⟩
  have hvalue : Postgres.cellValue w unescapeBytea field.ftype (Cxx.toString v.toInt) =
      intOrLong w v.toInt := by
    simp only [List.mem_cons, List.not_mem_nil, or_false] at integer
    rcases integer with h | h | h <;> simp only [Postgres.cellValue, h, stoll_toString]
  simp only [IntegerCell.stored, IntegerCell.row, IntegerCell.index, Postgres.stepRow_data,
    List.getElem?_map, hzip, Option.map_some, Option.bind_some, Postgres.textValue, hvalue]

theorem stored_mariaDB {w : LongWidth} {fields : List (Option MariaDB.Field)}
    {row : List (Option Bytes)} {i : Nat} {field : MariaDB.Field}
    (column : fields[i]? = some (some field)) (integer : (MariaDB.integerBits field.type).isSome)
    (signed : field.unsigned = false) (cell : row[i]? = some (some (Cxx.toString v.toInt))) :
    (IntegerCell.mariaDB fields row i field column integer signed cell).stored w =
      (MariaDB.cellValue w (some field) (Cxx.toString v.toInt)).number := by
  have hzip : (fields.zip row)[i]? = some (some field, some (Cxx.toString v.toInt)) :=
    List.getElem?_zip_eq_some.mpr ⟨column, cell⟩
  simp only [IntegerCell.stored, IntegerCell.row, IntegerCell.index, MariaDB.stepRow_data,
    List.getElem?_map, hzip, Option.map_some, Option.bind_some, MariaDB.textValue]

theorem inRange_longInt_iff (w : LongWidth) (v : Int64) :
    (Integral.num .longInt).InRange w v.toInt ↔
      w = .bits64 ∨ (-2 ^ 31 ≤ v.toInt ∧ v.toInt < 2 ^ 31) := by
  have hlo := v.le_toInt
  have hhi := v.toInt_lt
  cases w with
  | bits32 =>
    show -2 ^ 31 ≤ v.toInt ∧ v.toInt ≤ 2 ^ 31 - 1 ↔ _
    simp only [reduceCtorEq, false_or]
    omega
  | bits64 =>
    show -2 ^ 63 ≤ v.toInt ∧ v.toInt ≤ 2 ^ 63 - 1 ↔ _
    simp only [true_or, iff_true]
    omega

/-- A column that is read as a boolean keeps the two numbers a boolean has. -/
theorem number_boolean_iff (w : LongWidth) (n : Int) :
    (Value.boolean (w := w) (decide ((Cxx.toString n).head? ≠ some 48))).number = some n ↔
      n = 0 ∨ n = 1 := by
  simp only [Value.number, MariaDB.head_toString_iff, Option.some.injEq, ne_eq, decide_not]
  by_cases hzero : n = 0
  · simp [hzero]
  · simp [hzero, eq_comm]

theorem mariaDB_cases {field : MariaDB.Field} (integer : (MariaDB.integerBits field.type).isSome) :
    field.type = .tiny ∨ (field.type = .short ∨ field.type = .int24 ∨ field.type = .long) ∨
      field.type = .longlong := by
  unfold MariaDB.integerBits at integer
  cases ht : field.type <;> simp_all

theorem mariaDB_number_iff {w : LongWidth} {field : MariaDB.Field}
    (integer : (MariaDB.integerBits field.type).isSome) :
    (MariaDB.cellValue w (some field) (Cxx.toString v.toInt)).number = some v.toInt ↔
      if field.type = .tiny ∧ MariaDB.isBoolean (some field) then v.toInt = 0 ∨ v.toInt = 1
      else (Integral.num .longInt).InRange w v.toInt := by
  have hladder : ∀ u, u = intOrLong w ((Cxx.stoll (Cxx.toString v.toInt)).getD 0) →
      (u.number = some v.toInt ↔ (Integral.num .longInt).InRange w v.toInt) := by
    rintro u rfl
    rw [stoll_toString]
    exact number_intOrLong_iff
  rcases mariaDB_cases integer with ht | ht | ht
  · by_cases hbool : MariaDB.isBoolean (some field) = true
    · rw [if_pos ⟨ht, hbool⟩, ← number_boolean_iff w]
      simp only [MariaDB.cellValue, MariaDB.fieldType, ht, hbool, if_true]
    · rw [if_neg fun h => hbool h.2]
      refine hladder _ ?_
      simp only [MariaDB.cellValue, MariaDB.fieldType, ht, hbool, Bool.false_eq_true, if_false]
  · have hne : field.type ≠ .tiny := by rcases ht with ht | ht | ht <;> simp [ht]
    rw [if_neg fun h => hne h.1]
    refine hladder _ ?_
    rcases ht with ht | ht | ht <;> simp only [MariaDB.cellValue, MariaDB.fieldType, ht]
  · rw [if_neg fun h => by simp [ht] at h]
    simp only [MariaDB.cellValue, MariaDB.fieldType, ht, stoll_toString]
    show some (Num.cast w .longInt v.toInt).val = some v.toInt ↔ _
    rw [Option.some.injEq, Num.cast_eq_iff]
    rfl

/-- **The integer cells of all backends are stored exactly** where `long int` has the number, in
columns that are not read as booleans. -/
theorem integer_results_exact_iff (w : LongWidth) (v : Int64) (cell : IntegerCell v) :
    cell.stored w = some v.toInt ↔
      (w = .bits64 ∨ (-2 ^ 31 ≤ v.toInt ∧ v.toInt < 2 ^ 31)) ∧
        (cell.isBoolean = true → v.toInt = 0 ∨ v.toInt = 1) := by
  rw [← inRange_longInt_iff]
  cases cell with
  | sqlite columns i name column =>
    rw [stored_sqlite, number_intOrLong_iff]
    exact (and_iff_left nofun).symm
  | postgres unescapeBytea fields row i field column integer cell =>
    rw [stored_postgres, number_intOrLong_iff]
    exact (and_iff_left nofun).symm
  | mariaDB fields row i field column integer signed cell =>
    rw [stored_mariaDB, mariaDB_number_iff integer]
    have hbool : (IntegerCell.mariaDB fields row i field column integer signed cell).isBoolean =
        true ↔ field.type = .tiny ∧ MariaDB.isBoolean (some field) = true := by
      simp [IntegerCell.isBoolean]
    rw [hbool]
    split_ifs with h
    · -- the two numbers of a boolean fit every `long int`
      have hfits : v.toInt = 0 ∨ v.toInt = 1 → (Integral.num .longInt).InRange w v.toInt := by
        intro hv
        rw [inRange_longInt_iff]
        omega
      exact ⟨fun hv => ⟨hfits hv, fun _ => hv⟩, fun hboth => hboth.2 h⟩
    · exact (and_iff_left fun h' => absurd h' h).symm

/-- With a `long int` of 32 bits the SQLite integer 2^31 is stored as -2^31. -/
theorem wrapped_on_32_bits :
    ¬ ∀ (w : LongWidth) (v : Int64) (cell : IntegerCell v),
      cell.isBoolean = false → cell.stored w = some v.toInt := by
  intro h
  have hstored := h .bits32 (2 ^ 31) (.sqlite [⟨none, .integer (2 ^ 31)⟩] 0 none rfl) rfl
  exact absurd hstored (by decide)

/-! ### Unsigned columns of MariaDB -/

/-- A cell of an integer column with the number `n`, in a row of a text result. The column is none
that is read as a boolean. -/
structure TextCell (n : Int) where
  fields : List (Option MariaDB.Field)
  row : List (Option Bytes)
  index : Nat
  field : MariaDB.Field
  column : fields[index]? = some (some field)
  holds : MariaDB.CellOf (some field) (.integer n)
  notBoolean : field.type = .tiny → MariaDB.isBoolean (some field) = false
  cell : row[index]? = some (some (Cxx.toString n))

variable {n : Int}

/-- The value `StepResults` adds for the cell. -/
def TextCell.value (c : TextCell n) : Option (Value .bits64) :=
  (MariaDB.stepRow .bits64 c.fields c.row).data[c.index]?.map (·.value)

/-- The value is an integer and stores the number. -/
def StoresInteger (u : Value .bits64) (n : Int) : Prop :=
  u.type ∈ [.integer, .unsignedInteger, .longInteger, .unsignedLongInteger] ∧ u.number = some n

theorem TextCell.value_eq (c : TextCell n) :
    c.value = some (MariaDB.cellValue .bits64 (some c.field) (Cxx.toString n)) := by
  have hzip : (c.fields.zip c.row)[c.index]? = some (some c.field, some (Cxx.toString n)) :=
    List.getElem?_zip_eq_some.mpr ⟨c.column, c.cell⟩
  simp only [TextCell.value, MariaDB.stepRow_data, List.getElem?_map, hzip, Option.map_some,
    MariaDB.textValue]

theorem storesInteger_iff {u : Value .bits64} {v m : Int} (htype : u.type ∈
    [ValueType.integer, .unsignedInteger, .longInteger, .unsignedLongInteger])
    (hnumber : u.number = some v) : StoresInteger u m ↔ v = m := by
  unfold StoresInteger
  rw [and_iff_right htype, hnumber, Option.some.injEq]

theorem TextCell.bits (c : TextCell n) :
    ∃ bits ∈ MariaDB.integerBits c.field.type, bits ≤ 64 ∧
      MariaDB.InColumn bits c.field.unsigned n := by
  obtain ⟨bits, hbits, hin⟩ := c.holds
  have htype : MariaDB.integerBits c.field.type = some bits := hbits
  refine ⟨bits, hbits, ?_, hin⟩
  unfold MariaDB.integerBits at htype
  split at htype <;> cases htype <;> decide

theorem TextCell.stores_iff (c : TextCell n) (m : Int) :
    StoresInteger (MariaDB.cellValue .bits64 (some c.field) (Cxx.toString n)) m ↔
      (Cxx.stoll (Cxx.toString n)).getD 0 = m := by
  have hbounds : -2 ^ 63 ≤ (Cxx.stoll (Cxx.toString n)).getD 0 ∧
      (Cxx.stoll (Cxx.toString n)).getD 0 < 2 ^ 63 := by
    rw [Cxx.stoll_toString_eq]
    split_ifs
    · decide
    · rw [Option.getD_some]
      omega
  obtain ⟨bits, hbits, _⟩ := c.bits
  have hladder : ∀ v, -2 ^ 63 ≤ v ∧ v < 2 ^ 63 →
      (StoresInteger (intOrLong .bits64 v) m ↔ v = m) := by
    intro v hv
    refine storesInteger_iff ?_ (number_intOrLong_iff.mpr ⟨hv.1, Int.le_sub_one_of_lt hv.2⟩)
    unfold intOrLong
    split_ifs <;> simp [Value.type]
  rcases mariaDB_cases (Option.isSome_of_mem hbits) with ht | ht | ht
  · have hvalue := c.notBoolean ht
    simp only [MariaDB.cellValue, MariaDB.fieldType, ht, hvalue, Bool.false_eq_true, if_false]
    exact hladder _ hbounds
  · rcases ht with ht | ht | ht <;> simp only [MariaDB.cellValue, MariaDB.fieldType, ht] <;>
      exact hladder _ hbounds
  · simp only [MariaDB.cellValue, MariaDB.fieldType, ht]
    refine storesInteger_iff (by simp [Value.type]) (congrArg some ?_)
    exact Num.cast_of_mem hbounds.1 (Int.le_sub_one_of_lt hbounds.2)

theorem TextCell.lower (c : TextCell n) : -2 ^ 63 ≤ n := by
  obtain ⟨bits, _, hle, hin⟩ := c.bits
  unfold MariaDB.InColumn at hin
  have hpow : (2 : Int) ^ (bits - 1) ≤ 2 ^ 63 := pow_le_pow_right₀ (by decide) (by omega)
  split_ifs at hin <;> omega

/-- **The text results of MariaDB keep the integers** below 2^63. -/
theorem text_integer_kept_iff (n : Int) (c : TextCell n) :
    (∃ u, c.value = some u ∧ StoresInteger u n) ↔ n < 2 ^ 63 := by
  have hlow := c.lower
  rw [c.value_eq]
  simp only [Option.some.injEq, exists_eq_left']
  rw [c.stores_iff, Cxx.stoll_toString_eq]
  split_ifs with hout
  · rw [Option.getD_none]
    omega
  · rw [Option.getD_some]
    omega

/-- A `BIGINT UNSIGNED` cell with 2^63. -/
def bigintUnsigned : TextCell (2 ^ 63) where
  fields := [some ⟨ascii "n", .longlong, true, 20, 63⟩]
  row := [some (Cxx.toString (2 ^ 63))]
  index := 0
  field := ⟨ascii "n", .longlong, true, 20, 63⟩
  column := rfl
  holds := ⟨64, rfl, by unfold MariaDB.InColumn; decide⟩
  notBoolean := nofun
  cell := rfl

/-- 2^63 becomes 0. -/
theorem text_integer_replaced :
    ¬ ∀ (n : Int) (c : TextCell n), ∃ u, c.value = some u ∧ StoresInteger u n := by
  intro h
  obtain ⟨u, hvalue, hstores⟩ := h (2 ^ 63) bigintUnsigned
  have hzero : bigintUnsigned.value = some (.longInteger (Num.cast .bits64 .longInt 0)) := by
    decide +kernel
  obtain rfl := Option.some.inj (hzero.symm.trans hvalue)
  exact absurd (Option.some.inj hstores.2) (by decide)

end StormByteDatabase.IntegerResults
