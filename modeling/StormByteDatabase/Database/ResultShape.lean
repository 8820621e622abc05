import StormByteDatabase.Mariadb.ResultFetch
import StormByteDatabase.Postgres.ResultFetch
import StormByteDatabase.Sqlite.ResultFetch

/-!
# The shape of results

A `View` is a result as its driver has it, rows of cells under columns, each cell NULL or not.
`View.Shown` says that rows of the library are this result: as many, in the same order, each with the
names and the values of the columns in theirs, and NULL where the driver has NULL.

`keepsShape_iff`: whatever a driver holds, the three `StepResults` read nothing that is not there and
return the result in its shape or an error, with one exception. The reader of MariaDB counts rows and
columns in an `int` that is cast from wider counts, so from 2^31 on it returns fewer of them
(`rows_dropped`). The other two drivers count in `int`s themselves, and the steps of a SQLite
statement are not counted.

Proof. By `stepResultsLoop_eq` and `stepResultsLoop_rows` the loops give what the readers make of
the rows one by one, cut off at the counts.
-/

namespace StormByteDatabase

variable {w : LongWidth} {γ κ : Type}

/-- The value in row `i` and column `j`. -/
def cellAt (rows : Rows w) (i j : Nat) : Option (Value w) :=
  (rows[i]?.bind fun row => row.data[j]?).map (·.value)

/-- A result of a driver, with what a reader makes of a cell in a column. -/
structure View (w : LongWidth) (γ κ : Type) where
  columns : List γ
  cells : List (List κ)
  name : γ → Bytes
  read : γ → κ → Value w
  null : κ → Prop
  width : ∀ row ∈ cells, row.length = columns.length
  read_null : ∀ column cell, read column cell = .null ↔ null cell

namespace View

/-- The rows are the result. As the names are those of the columns, each row has one value for each
column. -/
structure Shown (v : View w γ κ) (rows : Rows w) : Prop where
  count : rows.length = v.cells.length
  names : ∀ row ∈ rows, row.data.map (·.name) = v.columns.map v.name
  values : ∀ i j row cell column, v.cells[i]? = some row → row[j]? = some cell →
    v.columns[j]? = some column → cellAt rows i j = some (v.read column cell)
  nulls : ∀ i j row cell, v.cells[i]? = some row → row[j]? = some cell →
    (cellAt rows i j = some .null ↔ v.null cell)

/-- A row that has a named value for each of the cells. -/
def RowOf (v : View w γ κ) (cells : List κ) (row : Row w) : Prop :=
  row.data = (v.columns.zip cells).map fun p => ⟨v.name p.1, v.read p.1 p.2⟩

variable {v : View w γ κ} {f : List κ → Row w}

theorem names_of_rowOf {cells : List κ} {row : Row w} (hmem : cells ∈ v.cells)
    (h : v.RowOf cells row) : row.data.map (·.name) = v.columns.map v.name := by
  have hfst : (v.columns.zip cells).map Prod.fst = v.columns :=
    List.map_fst_zip (Nat.le_of_eq (v.width cells hmem).symm)
  calc row.data.map (·.name) = (v.columns.zip cells).map (v.name ∘ Prod.fst) := by
        rw [h, List.map_map]
        rfl
    _ = ((v.columns.zip cells).map Prod.fst).map v.name := List.map_map.symm
    _ = v.columns.map v.name := by rw [hfst]

theorem cellAt_of_rowOf (hf : ∀ row ∈ v.cells, v.RowOf row (f row)) {i j : Nat} {row : List κ}
    {cell : κ} {column : γ} (hrow : v.cells[i]? = some row) (hcell : row[j]? = some cell)
    (hcolumn : v.columns[j]? = some column) :
    cellAt (v.cells.map f) i j = some (v.read column cell) := by
  have hzip : (v.columns.zip row)[j]? = some (column, cell) :=
    List.getElem?_zip_eq_some.mpr ⟨hcolumn, hcell⟩
  have hdata : (f row).data = _ := hf row (List.mem_of_getElem? hrow)
  simp only [cellAt, List.getElem?_map, hrow, Option.map_some, Option.bind_some, hdata, hzip]

theorem shown_map (hf : ∀ row ∈ v.cells, v.RowOf row (f row)) : v.Shown (v.cells.map f) where
  count := List.length_map f
  names := by
    intro row hmem
    obtain ⟨cells, hcells, rfl⟩ := List.mem_map.mp hmem
    exact names_of_rowOf hcells (hf cells hcells)
  values i j row cell column hrow hcell hcolumn := cellAt_of_rowOf hf hrow hcell hcolumn
  nulls i j row cell hrow hcell := by
    have hj : j < v.columns.length := by
      rw [← v.width row (List.mem_of_getElem? hrow)]
      exact (List.getElem?_eq_some_iff.mp hcell).1
    rw [cellAt_of_rowOf hf hrow hcell (List.getElem?_eq_getElem hj), Option.some.injEq, v.read_null]

theorem shown_take_iff {g : List κ → Row w} {n k : Nat} (hn : n ≤ v.cells.length)
    (hg : ∀ row ∈ v.cells, (g row).data.length = k)
    (hwhole : k = v.columns.length → ∀ row ∈ v.cells, v.RowOf row (g row)) :
    v.Shown ((v.cells.take n).map g) ↔
      n = v.cells.length ∧ (v.cells = [] ∨ k = v.columns.length) := by
  constructor
  · intro h
    have hcount := h.count
    rw [List.length_map, List.length_take, Nat.min_eq_left hn] at hcount
    refine ⟨hcount, ?_⟩
    cases hcells : v.cells with
    | nil => exact .inl rfl
    | cons row rest =>
      right
      have hmem : row ∈ v.cells := hcells ▸ List.mem_cons_self
      have hfirst : g row ∈ (v.cells.take n).map g := by
        rw [hcount, List.take_length]
        exact List.mem_map_of_mem hmem
      rw [← hg row hmem, ← List.length_map (f := (·.name)), h.names _ hfirst, List.length_map]
  · rintro ⟨rfl, hcolumns⟩
    rw [List.take_length]
    apply shown_map
    intro row hmem
    rcases hcolumns with hempty | hk
    · rw [hempty] at hmem
      cases hmem
    · exact hwhole hk row hmem

end View

/-! ### The three drivers -/

namespace MariaDB

theorem textValue_null_iff {field : Option Field} {cell : Option Bytes} :
    textValue w field cell = .null ↔ cell = none := by
  cases cell with
  | none => simp [textValue]
  | some cell =>
    simp only [textValue, cellValue, reduceCtorEq, iff_false]
    cases fieldType field <;> simp only <;> try split_ifs
    all_goals simp [intOrLong_ne_null]

/-- A null pointer is NULL. -/
def Result.view (w : LongWidth) (res : Result) : View w (Option Field) (Option Bytes) where
  columns := res.fields
  cells := res.rows
  name := fieldName
  read := textValue w
  null := (· = none)
  width := res.width
  read_null _ _ := textValue_null_iff

end MariaDB

namespace Postgres

theorem textValue_null_iff {unescapeBytea : Bytes → Option Bytes} {field : Field}
    {cell : Option Bytes} : textValue w unescapeBytea field cell = .null ↔ cell = none := by
  cases cell with
  | none => simp [textValue]
  | some val =>
    simp only [textValue, cellValue, reduceCtorEq, iff_false]
    split <;> simp [intOrLong_ne_null]

/-- `PQgetisnull` is NULL. -/
def PGResult.view (w : LongWidth) (unescapeBytea : Bytes → Option Bytes) (res : PGResult) :
    View w Field (Option Bytes) where
  columns := res.fields
  cells := res.rows
  name field := field.name.getD []
  read := textValue w unescapeBytea
  null := (· = none)
  width := res.width
  read_null _ _ := textValue_null_iff

end Postgres

namespace SQLite

/-- `SQLITE_NULL` is NULL. -/
def Cursor.view (w : LongWidth) (stmt : Cursor) : View w (Option Bytes) Cell where
  columns := stmt.columnNames
  cells := stmt.rows
  name colName := colName.getD []
  read _ := cellValue w
  null := (· = .null)
  width := stmt.width
  read_null _ _ := cellValue_null_iff

end SQLite

/-- What a driver holds when `StepResults` is called on it. -/
inductive DriverResult
  | mariaDB (res : MariaDB.Result)
  | postgres (unescapeBytea : Bytes → Option Bytes) (res : Postgres.HeldResult)
  | sqlite (stmt : SQLite.Cursor)

namespace DriverResult

/-- `StepResults`; `none` is a read of what the driver does not have. -/
def stepResults (w : LongWidth) : DriverResult → Option (ExpectedRows w)
  | .mariaDB res => MariaDB.stepResultsLoop w (some res)
  | .postgres unescapeBytea res => Postgres.stepResultsLoop w unescapeBytea (some res)
  | .sqlite stmt => SQLite.stepResultsLoop w (some stmt)

/-- The rows are those that the driver holds. -/
def Shown : DriverResult → Rows w → Prop
  | .mariaDB res, rows => (res.view w).Shown rows
  | .postgres unescapeBytea res, rows => (res.toPGResult.view w unescapeBytea).Shown rows
  | .sqlite stmt, rows => (stmt.view w).Shown rows

/-- The driver reports no error: a stored result has none, and the last step is `SQLITE_DONE`. -/
def Complete : DriverResult → Prop
  | .mariaDB _ => True
  | .postgres _ res => res.status = .tuplesOk ∨ res.status = .commandOk
  | .sqlite stmt => stmt.final = .done

/-- The counts of the driver are counts of the reader. -/
def Counted : DriverResult → Prop
  | .mariaDB res => res.rows.length < 2 ^ 31 ∧ (res.rows = [] ∨ res.fields.length < 2 ^ 31)
  | .postgres _ _ => True
  | .sqlite _ => True

end DriverResult

/-- The reader returns, with rows exactly when the driver reports no error, and these are all that
the driver holds. -/
structure KeepsShape (w : LongWidth) (r : DriverResult) : Prop where
  defined : ∃ result, r.stepResults w = some result
  success : (∃ rows, r.stepResults w = some (.ok rows)) ↔ r.Complete
  shape : ∀ rows, r.stepResults w = some (.ok rows) → r.Shown rows

theorem keepsShape_ok_iff {r : DriverResult} {rows : Rows w}
    (h : r.stepResults w = some (.ok rows)) (hcomplete : r.Complete) :
    KeepsShape w r ↔ r.Shown rows := by
  constructor
  · intro hkeeps
    exact hkeeps.shape rows h
  · intro hshown
    refine ⟨⟨_, h⟩, iff_of_true ⟨rows, h⟩ hcomplete, fun rows' h' => ?_⟩
    have heq : rows = rows' := by simpa [h] using h'
    exact heq ▸ hshown

theorem keepsShape_of_error {r : DriverResult} {e : QueryException}
    (h : r.stepResults w = some (.error e)) (hfailed : ¬ r.Complete) : KeepsShape w r := by
  refine ⟨⟨_, h⟩, iff_of_false ?_ hfailed, fun rows h' => ?_⟩
  · rintro ⟨rows, h'⟩
    simp [h] at h'
  · simp [h] at h'

theorem keepsShape_mariaDB_iff (res : MariaDB.Result) :
    KeepsShape w (.mariaDB res) ↔ (DriverResult.mariaDB res).Counted := by
  obtain ⟨n, hn⟩ : ∃ n, n = (Cxx.toInt res.rows.length).toNat := ⟨_, rfl⟩
  obtain ⟨k, hk⟩ : ∃ k, k = (Cxx.toInt res.fields.length).toNat := ⟨_, rfl⟩
  have hnle : n ≤ res.rows.length := hn ▸ Cxx.toNat_toInt_le _
  have hkle : k ≤ res.fields.length := hk ▸ Cxx.toNat_toInt_le _
  have hloop : (DriverResult.mariaDB res).stepResults w = some (.ok ((res.rows.take n).map
      fun row => MariaDB.stepRow w (res.fields.take k) (row.take k))) :=
    MariaDB.stepResultsLoop_rows res hn hk
  have hlength : ∀ row ∈ res.rows,
      (MariaDB.stepRow w (res.fields.take k) (row.take k)).data.length = k := by
    intro row hmem
    rw [MariaDB.stepRow_data, List.length_map, List.length_zip, List.length_take, List.length_take,
      res.width row hmem, Nat.min_self, Nat.min_eq_left hkle]
  have hwhole : k = res.fields.length → ∀ row ∈ res.rows,
      (res.view w).RowOf row (MariaDB.stepRow w (res.fields.take k) (row.take k)) := by
    intro heq row hmem
    have hrow : row.take k = row := by rw [heq, ← res.width row hmem, List.take_length]
    rw [heq, List.take_length, ← heq, hrow]
    exact MariaDB.stepRow_data w res.fields row
  have hrows : n = res.rows.length ↔ res.rows.length < 2 ^ 31 := hn ▸ Cxx.toNat_toInt_eq_iff
  have hfields : k = res.fields.length ↔ res.fields.length < 2 ^ 31 := hk ▸ Cxx.toNat_toInt_eq_iff
  have hshown : (res.view w).Shown _ ↔ n = res.rows.length ∧
      (res.rows = [] ∨ k = res.fields.length) := View.shown_take_iff hnle hlength hwhole
  rw [hrows, hfields] at hshown
  exact (keepsShape_ok_iff hloop trivial).trans hshown

theorem keepsShape_postgres (unescapeBytea : Bytes → Option Bytes) (res : Postgres.HeldResult) :
    KeepsShape w (.postgres unescapeBytea res) := by
  have hloop : (DriverResult.postgres unescapeBytea res).stepResults w = _ :=
    Postgres.stepResultsLoop_eq res
  by_cases hstatus : res.status = .tuplesOk ∨ res.status = .commandOk
  · rw [Postgres.stepResults, if_neg (by tauto)] at hloop
    rw [keepsShape_ok_iff hloop hstatus]
    exact View.shown_map (v := res.toPGResult.view w unescapeBytea)
      fun row _ => Postgres.stepRow_data w unescapeBytea res.fields row
  · rw [Postgres.stepResults, if_pos (by tauto)] at hloop
    exact keepsShape_of_error hloop hstatus

theorem keepsShape_sqlite (stmt : SQLite.Cursor) : KeepsShape w (.sqlite stmt) := by
  have hloop : (DriverResult.sqlite stmt).stepResults w = _ := SQLite.stepResultsLoop_eq stmt
  simp only [SQLite.stepResults, SQLite.Cursor.steps] at hloop
  cases hfinal : stmt.final with
  | done =>
    simp only [hfinal, List.map_map] at hloop
    rw [keepsShape_ok_iff hloop hfinal]
    apply View.shown_map (v := stmt.view w)
    intro row _
    refine (SQLite.stepRow_data w (stmt.columns row)).trans ?_
    rw [SQLite.Cursor.columns, List.map_map]
    rfl
  | failed handle =>
    simp only [hfinal] at hloop
    apply keepsShape_of_error hloop
    simp [DriverResult.Complete, hfinal]

/-- **Results keep their shape** exactly when the reader can count them. -/
theorem keepsShape_iff (w : LongWidth) (r : DriverResult) : KeepsShape w r ↔ r.Counted := by
  cases r with
  | mariaDB res => exact keepsShape_mariaDB_iff res
  | postgres unescapeBytea res => exact iff_of_true (keepsShape_postgres unescapeBytea res) trivial
  | sqlite stmt => exact iff_of_true (keepsShape_sqlite stmt) trivial

/-- `n` rows of one column, all NULL. -/
def nullColumn (n : Nat) : MariaDB.Result where
  fields := [none]
  rows := List.replicate n [none]
  columns := List.cons_ne_nil _ _
  width row hmem := by rw [List.eq_of_mem_replicate hmem]; rfl

theorem stepResults_nullColumn {n : Nat} (hn : (Cxx.toInt n).toNat = 0) :
    (DriverResult.mariaDB (nullColumn n)).stepResults w = some (.ok []) := by
  have hcount : 0 = (Cxx.toInt (nullColumn n).rows.length).toNat := by
    rw [nullColumn, List.length_replicate, hn]
  exact MariaDB.stepResultsLoop_rows (nullColumn n) hcount rfl

theorem not_shown_nullColumn {n : Nat} (hn : n ≠ 0) :
    ¬ (DriverResult.mariaDB (nullColumn n)).Shown ([] : Rows w) := by
  intro h
  have hcount : 0 = (List.replicate n [(none : Option Bytes)]).length := h.count
  rw [List.length_replicate] at hcount
  exact hn hcount.symm

/-- Of 2^31 rows the reader returns none. -/
theorem rows_dropped : ¬ ∀ r, KeepsShape .bits64 r := by
  intro h
  have hloop : (DriverResult.mariaDB (nullColumn (2 ^ 31))).stepResults .bits64 = some (.ok []) :=
    stepResults_nullColumn (by decide)
  exact not_shown_nullColumn (by decide) ((h _).shape [] hloop)

end StormByteDatabase
