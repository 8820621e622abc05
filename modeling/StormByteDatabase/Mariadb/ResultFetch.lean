import StormByteDatabase.Cxx
import StormByteDatabase.Lib.Loop
import StormByteDatabase.Row

/-!
# Text results of the MariaDB connector

A stored result has its columns and, for each row, the text of every cell, where `none` is NULL.
`cellValue` is the switch of `StepResults` over the type of the column, and `stepResults` the loop
over the rows. The number of rows goes through an `int`.

`stepResultsLoop` is `StepResults` with its counters and its calls of the connector, each branch of
the switch adding to the row. `stepResultsLoop_eq`: it reads nothing that is not there, and its rows
are those of `stepResults` as long as the number of columns is an `int` too.
-/

namespace StormByteDatabase.MariaDB

open Lib

/-- `enum_field_types`. -/
inductive FieldType
  | decimal
  | tiny
  | short
  | long
  | float
  | double
  | null
  | timestamp
  | longlong
  | int24
  | date
  | time
  | datetime
  | year
  | newdate
  | varchar
  | bit
  | json
  | newdecimal
  | enum
  | set
  | tinyBlob
  | mediumBlob
  | longBlob
  | blob
  | varString
  | string
  | geometry
  deriving DecidableEq, Repr

/-- `MYSQL_FIELD`; `unsigned` is `UNSIGNED_FLAG`. -/
structure Field where
  name : Bytes
  type : FieldType
  unsigned : Bool
  length : Nat
  charsetnr : Nat
  deriving DecidableEq, Repr

/-- `MYSQL_RES`. -/
structure Result where
  fields : List (Option Field)
  rows : List (List (Option Bytes))
  columns : fields ≠ []
  width : ∀ row ∈ rows, row.length = fields.length
  deriving DecidableEq, Repr

/-- `field ? field->type : MYSQL_TYPE_STRING`. -/
def fieldType (field : Option Field) : FieldType :=
  match field with
  | some f => f.type
  | none => .string

def fieldName (field : Option Field) : Bytes :=
  match field with
  | some f => f.name
  | none => []

def isUnsigned (field : Option Field) : Bool := field.any (·.unsigned)

/-- A signed column of declared length one, which both readers take for a boolean. -/
def isBoolean (field : Option Field) : Bool := field.any fun f => !f.unsigned && f.length = 1

/-- `field && field->charsetnr == 63`. -/
def isBinary (field : Option Field) : Bool := field.any (·.charsetnr = 63)

variable (w : LongWidth)

/-- The value of a cell that is not NULL. -/
def cellValue (field : Option Field) (cell : Bytes) : Value w :=
  match fieldType field with
  | .tiny =>
    if isBoolean field then .boolean (cell.head? ≠ some 48)
    else intOrLong w ((Cxx.stoll cell).getD 0)
  | .short | .long | .int24 => intOrLong w ((Cxx.stoll cell).getD 0)
  | .longlong => .longInteger (Num.cast w .longInt ((Cxx.stoll cell).getD 0))
  | .float | .double | .decimal | .newdecimal =>
    .double ((Cxx.stod cell).getD (Binary64.ofQuotient false 0 1))
  | .tinyBlob | .mediumBlob | .longBlob | .blob => if isBinary field then .blob cell else .text cell
  | _ => .text cell

/-- One cell of a row. -/
def textValue (field : Option Field) (cell : Option Bytes) : Value w :=
  match cell with
  | none => .null
  | some cell => cellValue w field cell

def stepRow (fields : List (Option Field)) (row : List (Option Bytes)) : Row w :=
  (fields.zip row).foldl (fun prow p => prow.add (fieldName p.1) (textValue w p.1 p.2)) {}

theorem stepRow_data (fields : List (Option Field)) (row : List (Option Bytes)) :
    (stepRow w fields row).data =
      (fields.zip row).map fun p => ⟨fieldName p.1, textValue w p.1 p.2⟩ :=
  data_foldl_add _ _ _ _

/-- `StepResults`; the rows read are those below the number of rows as an `int`. -/
def stepResults (res : Option Result) : ExpectedRows w :=
  match res with
  | none => .error (.executeError (ascii "Invalid MYSQL_RES provided."))
  | some res => .ok ((res.rows.take (Cxx.toInt res.rows.length).toNat).map (stepRow w res.fields))

/-! ### With its loops -/

/-- The body of the inner loop: every branch adds to the row. -/
def addCell (field : Option Field) (cell : Option Bytes) (prow : Row w) : Row w :=
  let colName := fieldName field
  match cell with
  | none => prow.add colName .null
  | some cell =>
    match fieldType field with
    | .tiny =>
      if isBoolean field then prow.add colName (.boolean (cell.head? ≠ some 48))
      else prow.addInteger colName ((Cxx.stoll cell).getD 0)
    | .short | .long | .int24 => prow.addInteger colName ((Cxx.stoll cell).getD 0)
    | .longlong =>
      prow.add colName (.longInteger (Num.cast w .longInt ((Cxx.stoll cell).getD 0)))
    | .float | .double | .decimal | .newdecimal =>
      prow.add colName (.double ((Cxx.stod cell).getD (Binary64.ofQuotient false 0 1)))
    | .tinyBlob | .mediumBlob | .longBlob | .blob =>
      if isBinary field then prow.add colName (.blob cell) else prow.add colName (.text cell)
    | _ => prow.add colName (.text cell)

/-- One round of the inner loop. `row` is what `mysql_fetch_row` gave, a null pointer after the last
row; there is no result where it is read all the same, or a column that does not exist. -/
def readCell (res : Result) (row : Option (List (Option Bytes))) (c : Nat) (prow : Row w) :
    Option (Row w) := do
  let field ← res.fields[c]?
  let cells ← row
  let cell ← cells[c]?
  some (addCell w field cell prow)

def readRow (res : Result) (row : Option (List (Option Bytes))) : Option (Row w) :=
  let nfields := Cxx.toInt res.fields.length
  forLoop (readCell w res row) nfields.toNat {}

/-- `StepResults`; the state of the outer loop is the position of `mysql_fetch_row` and the rows. -/
def stepResultsLoop (res : Option Result) : Option (ExpectedRows w) :=
  match res with
  | none => some (.error (.executeError (ascii "Invalid MYSQL_RES provided.")))
  | some res => do
    let nrows := Cxx.toInt res.rows.length
    let (_, rows) ← forLoop (fun _ (s : Nat × Rows w) =>
      (readRow w res res.rows[s.1]?).map fun prow => (s.1 + 1, s.2 ++ [prow])) nrows.toNat (0, [])
    some (.ok rows)

variable {w}

theorem addCell_eq (field : Option Field) (cell : Option Bytes) (prow : Row w) :
    addCell w field cell prow = prow.add (fieldName field) (textValue w field cell) := by
  cases cell with
  | none => rfl
  | some cell =>
    unfold addCell textValue cellValue
    cases fieldType field <;> simp only [Row.addInteger_eq] <;> split_ifs <;> rfl

theorem readCell_eq {res : Result} {row : List (Option Bytes)} {c : Nat}
    {p : Option Field × Option Bytes} (hp : (res.fields.zip row)[c]? = some p) (prow : Row w) :
    readCell w res (some row) c prow =
      some (prow.add (fieldName p.1) (textValue w p.1 p.2)) := by
  obtain ⟨hfield, hcell⟩ := List.getElem?_zip_eq_some.mp hp
  unfold readCell
  simp only [hfield, hcell, Option.bind_eq_bind, Option.bind_some, addCell_eq]

theorem readRow_eq {res : Result} {row : List (Option Bytes)} (h : row ∈ res.rows) {k : Nat}
    (hk : k = (Cxx.toInt res.fields.length).toNat) :
    readRow w res (some row) = some (stepRow w (res.fields.take k) (row.take k)) := by
  have hle : k ≤ (res.fields.zip row).length := by
    rw [List.length_zip, res.width row h, Nat.min_self, hk]
    exact Cxx.toNat_toInt_le _
  unfold readRow stepRow
  simp only [← hk]
  rw [forLoop_eq_foldl hle fun c p prow hp => readCell_eq hp prow]
  simp only [List.zip_eq_zipWith, List.take_zipWith]

theorem stepResultsLoop_rows (res : Result) {n k : Nat} (hn : n = (Cxx.toInt res.rows.length).toNat)
    (hk : k = (Cxx.toInt res.fields.length).toNat) :
    stepResultsLoop w (some res) =
      some (.ok ((res.rows.take n).map fun row => stepRow w (res.fields.take k) (row.take k))) := by
  have hle : n ≤ res.rows.length := hn ▸ Cxx.toNat_toInt_le _
  unfold stepResultsLoop
  simp only [← hn]
  rw [forLoop_cursor hle fun row hrow => readRow_eq hrow hk]
  rfl

/-- **The loops of `StepResults`** read what is there and give the rows of `stepResults`. -/
theorem stepResultsLoop_eq (res : Result) (h : res.fields.length < 2 ^ 31) :
    stepResultsLoop w (some res) = some (stepResults w (some res)) := by
  have hk : res.fields.length = (Cxx.toInt res.fields.length).toNat :=
    (Cxx.toNat_toInt_eq_iff.mpr h).symm
  rw [stepResultsLoop_rows res rfl hk]
  unfold stepResults
  apply congrArg fun rows => some (Except.ok rows)
  apply List.map_congr_left
  intro row hrow
  rw [List.take_length, ← res.width row (List.mem_of_mem_take hrow), List.take_length]

end StormByteDatabase.MariaDB
