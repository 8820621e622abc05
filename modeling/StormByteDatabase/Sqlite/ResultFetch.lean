import StormByteDatabase.Conversion
import StormByteDatabase.Cxx
import StormByteDatabase.Lib.Loop
import StormByteDatabase.Row

/-!
# The rows of a SQLite statement

A `Cell` is what SQLite holds for a column or a parameter. `sqlite3_step` gives the rows one after
the other and then a code that is not `SQLITE_ROW`; `cellValue` is the switch of `StepResults` over
the type of a column.

`stepResultsLoop` is `StepResults` with its two loops over a `Cursor`, each branch of the switch
adding to the row. `stepResultsLoop_eq`: it gives what `stepResults` gives.
-/

namespace StormByteDatabase.SQLite

open Lib

/-- A value by its storage class; `sqlite3_int64` is `Int64`. -/
inductive Cell
  | null
  | integer (n : Int64)
  | float (x : Binary64)
  | text (s : Bytes)
  | blob (b : Bytes)
  deriving DecidableEq, Repr

/-- A column of the current row; a name that is `none` is a null pointer. -/
structure Column where
  name : Option Bytes
  cell : Cell
  deriving DecidableEq, Repr

/-- What `sqlite3_step` returns after the rows. -/
inductive Final
  | done
  /-- An error, with `sqlite3_db_handle` and, where it is not null, `sqlite3_errmsg`. -/
  | failed (handle : Option (Option Bytes))
  deriving DecidableEq, Repr

/-- What the calls of `sqlite3_step` on a statement give. -/
structure Steps where
  rows : List (List Column)
  final : Final
  deriving DecidableEq, Repr

/-- `sqlite3_column_blob`, a null pointer for no bytes. -/
def columnBlob (b : Bytes) : Option Bytes := if b = [] then none else some b

variable (w : LongWidth)

/-- The value of a column. A text is read as a C string. -/
def cellValue : Cell → Value w
  | .integer v => intOrLong w v.toInt
  | .float x => .double x
  | .text s => .text (cString s)
  | .blob b =>
    let blobSize := Cxx.toInt b.length
    match columnBlob b with
    | some blobData => if blobSize > 0 then .blob (blobData.take blobSize.toNat) else .blob []
    | none => .blob []
  | .null => .null

theorem cellValue_null_iff {w : LongWidth} {cell : Cell} :
    cellValue w cell = .null ↔ cell = .null := by
  cases cell with
  | null => exact iff_of_true rfl rfl
  | integer n => simp [cellValue, intOrLong_ne_null]
  | float => simp [cellValue]
  | text => simp [cellValue]
  | blob b =>
    simp only [cellValue, reduceCtorEq, iff_false]
    split
    · split_ifs <;> simp
    · simp

def stepRow (columns : List Column) : Row w :=
  columns.foldl (fun row c => row.add (c.name.getD []) (cellValue w c.cell)) {}

theorem stepRow_data (columns : List Column) :
    (stepRow w columns).data = columns.map fun c => ⟨c.name.getD [], cellValue w c.cell⟩ :=
  data_foldl_add _ _ _ _

def errMsg : Option (Option Bytes) → Bytes
  | some (some text) => text
  | _ => ascii "Unknown SQLite error"

/-- `StepResults`; `none` is a null statement. -/
def stepResults (stmt : Option Steps) : ExpectedRows w :=
  match stmt with
  | none => .error (.executeError (ascii "Invalid SQLite statement provided."))
  | some steps =>
    match steps.final with
    | .done => .ok (steps.rows.map (stepRow w))
    | .failed handle => .error (.executeError (errMsg handle))

/-! ### With its loops -/

/-- A statement to be stepped. Its columns are the same in all rows, and SQLite counts them in an
`int`. -/
structure Cursor where
  columnNames : List (Option Bytes)
  rows : List (List Cell)
  final : Final
  width : ∀ row ∈ rows, row.length = columnNames.length
  columnCount : columnNames.length < 2 ^ 31

def Cursor.columns (stmt : Cursor) (cells : List Cell) : List Column :=
  (stmt.columnNames.zip cells).map fun p => ⟨p.1, p.2⟩

/-- What the calls of `sqlite3_step` give. -/
def Cursor.steps (stmt : Cursor) : Steps := ⟨stmt.rows.map stmt.columns, stmt.final⟩

/-- The body of the inner loop: every branch adds to the row. -/
def addCell (name : Option Bytes) (cell : Cell) (row : Row w) : Row w :=
  let colName := name.getD []
  match cell with
  | .integer v => row.addInteger colName v.toInt
  | .float x => row.add colName (.double x)
  | .text s => row.add colName (.text (cString s))
  | .blob b =>
    let blobSize := Cxx.toInt b.length
    let blobVec :=
      match columnBlob b with
      | some blobData => if blobSize > 0 then blobData.take blobSize.toNat else []
      | none => []
    row.add colName (.blob blobVec)
  | .null => row.add colName .null

/-- One round of the inner loop; there is no result where the column does not exist. -/
def readCell (stmt : Cursor) (cells : List Cell) (i : Nat) (row : Row w) : Option (Row w) := do
  let name ← stmt.columnNames[i]?
  let cell ← cells[i]?
  some (addCell w name cell row)

def readRow (stmt : Cursor) (cells : List Cell) : Option (Row w) :=
  let colCount := Cxx.toInt stmt.columnNames.length
  forLoop (readCell w stmt cells) colCount.toNat {}

/-- The outer loop, by the rows that `sqlite3_step` has yet to give. -/
def stepLoop (stmt : Cursor) : List (List Cell) → Rows w → Option (Rows w)
  | [], rows => some rows
  | cells :: rest, rows => do
    let row ← readRow w stmt cells
    stepLoop stmt rest (rows ++ [row])

/-- `StepResults`. -/
def stepResultsLoop (stmt : Option Cursor) : Option (ExpectedRows w) :=
  match stmt with
  | none => some (.error (.executeError (ascii "Invalid SQLite statement provided.")))
  | some stmt => do
    let rows ← stepLoop w stmt stmt.rows []
    match stmt.final with
    | .done => some (.ok rows)
    | .failed handle => some (.error (.executeError (errMsg handle)))

variable {w}

theorem addCell_eq (name : Option Bytes) (cell : Cell) (row : Row w) :
    addCell w name cell row = row.add (name.getD []) (cellValue w cell) := by
  cases cell with
  | integer v => exact row.addInteger_eq _ _
  | float x => rfl
  | text s => rfl
  | blob b =>
    simp only [addCell, cellValue]
    cases columnBlob b with
    | none => rfl
    | some blobData =>
      simp only
      split_ifs <;> rfl
  | null => rfl

theorem readRow_eq {stmt : Cursor} {cells : List Cell} (h : cells ∈ stmt.rows) :
    readRow w stmt cells = some (stepRow w (stmt.columns cells)) := by
  have hlength : (stmt.columns cells).length = stmt.columnNames.length := by
    rw [Cursor.columns, List.length_map, List.length_zip, stmt.width cells h, Nat.min_self]
  have hbody : ∀ i (c : Column) (row : Row w), (stmt.columns cells)[i]? = some c →
      readCell w stmt cells i row = some (row.add (c.name.getD []) (cellValue w c.cell)) := by
    intro i c row hc
    rw [Cursor.columns, List.getElem?_map] at hc
    obtain ⟨p, hp, rfl⟩ := Option.map_eq_some_iff.mp hc
    obtain ⟨hname, hcell⟩ := List.getElem?_zip_eq_some.mp hp
    unfold readCell
    simp only [hname, hcell, Option.bind_eq_bind, Option.bind_some, addCell_eq]
  unfold readRow stepRow
  simp only [Cxx.toNat_toInt_eq_iff.mpr stmt.columnCount]
  rw [forLoop_eq_foldl (Nat.le_of_eq hlength.symm) hbody, ← hlength, List.take_length]

theorem stepLoop_eq {stmt : Cursor} {rest : List (List Cell)} (h : ∀ cells ∈ rest, cells ∈ stmt.rows)
    (rows : Rows w) :
    stepLoop w stmt rest rows =
      some (rows ++ rest.map fun cells => stepRow w (stmt.columns cells)) := by
  induction rest generalizing rows with
  | nil => simp [stepLoop]
  | cons cells rest ih =>
    have hrest : ∀ cells ∈ rest, cells ∈ stmt.rows := fun c hc => h c (List.mem_cons_of_mem _ hc)
    rw [stepLoop, readRow_eq (h cells List.mem_cons_self)]
    simp only [Option.bind_eq_bind, Option.bind_some, ih hrest, List.map_cons, List.append_assoc,
      List.singleton_append]

/-- **The loops of `StepResults`** give the rows of `stepResults`. -/
theorem stepResultsLoop_eq (stmt : Cursor) :
    stepResultsLoop w (some stmt) = some (stepResults w (some stmt.steps)) := by
  unfold stepResultsLoop stepResults Cursor.steps
  simp only [stepLoop_eq fun _ h => h, Option.bind_eq_bind, Option.bind_some, List.nil_append,
    List.map_map]
  cases stmt.final with
  | done => rfl
  | failed handle => rfl

end StormByteDatabase.SQLite
