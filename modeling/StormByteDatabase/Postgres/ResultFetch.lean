import StormByteDatabase.Cxx
import StormByteDatabase.Lib.Loop
import StormByteDatabase.Row

/-!
# Results of the PostgreSQL client library

A `PGresult` has a status, its fields and, for each row, the text of every cell, where `none` is
NULL. `cellValue` is the switch of `StepResults` over the type of the column, by its object
identifier. `PQunescapeBytea` is a function of the library and stands as a parameter.

`stepResultsLoop` is `StepResults` with its counters and its calls of the library, each branch of the
switch adding to the row. `stepResultsLoop_eq`: it gives what `stepResults` gives.
-/

namespace StormByteDatabase.Postgres

open Lib

/-- `ExecStatusType`, the other codes in one. -/
inductive ExecStatus
  | tuplesOk
  | commandOk
  | other
  deriving DecidableEq, Repr

/-- `PQfname`, where `none` is a null pointer, and `PQftype`. -/
structure Field where
  name : Option Bytes
  ftype : Nat
  deriving DecidableEq, Repr

/-- `PGresult`. -/
structure PGResult where
  status : ExecStatus
  errorMessage : Option Bytes
  fields : List Field
  rows : List (List (Option Bytes))
  width : ∀ row ∈ rows, row.length = fields.length
  deriving DecidableEq, Repr

/-- `std::tolower` in the C locale. -/
def toLower (c : UInt8) : UInt8 := if 65 ≤ c ∧ c ≤ 90 then c + 32 else c

/-- The text of a boolean cell. -/
def isTrue (val : Bytes) : Bool :=
  val.head? = some 116 || val.head? = some 49 || (cString val).map toLower = ascii "true"

variable (w : LongWidth) (unescapeBytea : Bytes → Option Bytes)

/-- The value of a cell that is not NULL. -/
def cellValue (ftype : Nat) (val : Bytes) : Value w :=
  match ftype with
  | 16 => .boolean (isTrue val)
  | 20 | 21 | 23 => intOrLong w ((Cxx.stoll val).getD 0)
  | 700 | 701 => .double ((Cxx.stod val).getD (Binary64.ofQuotient false 0 1))
  | 17 => .blob ((unescapeBytea (cString val)).getD [])
  | _ => .text val

def textValue (field : Field) (cell : Option Bytes) : Value w :=
  match cell with
  | none => .null
  | some val => cellValue w unescapeBytea field.ftype val

def stepRow (fields : List Field) (row : List (Option Bytes)) : Row w :=
  (fields.zip row).foldl
    (fun prow p => prow.add (p.1.name.getD []) (textValue w unescapeBytea p.1 p.2)) {}

theorem stepRow_data (fields : List Field) (row : List (Option Bytes)) :
    (stepRow w unescapeBytea fields row).data =
      (fields.zip row).map fun p => ⟨p.1.name.getD [], textValue w unescapeBytea p.1 p.2⟩ :=
  data_foldl_add _ _ _ _

/-- `StepResults`. -/
def stepResults (res : Option PGResult) : ExpectedRows w :=
  match res with
  | none => .error (.executeError (ascii "Invalid PGresult provided."))
  | some res =>
    if res.status ≠ .tuplesOk ∧ res.status ≠ .commandOk then
      .error (.executeError (res.errorMessage.getD (ascii "Unknown PG error")))
    else .ok (res.rows.map (stepRow w unescapeBytea res.fields))

/-! ### With its loops -/

/-- A `PGresult` of the library, which counts its rows and its columns in `int`s. -/
structure HeldResult extends PGResult where
  ntuples : rows.length < 2 ^ 31
  nfields : fields.length < 2 ^ 31

/-- The body of the inner loop: every branch adds to the row. -/
def addCell (field : Field) (cell : Option Bytes) (row : Row w) : Row w :=
  let colName := field.name.getD []
  match cell with
  | none => row.add colName .null
  | some val =>
    match field.ftype with
    | 16 => row.add colName (.boolean (isTrue val))
    | 20 | 21 | 23 => row.addInteger colName ((Cxx.stoll val).getD 0)
    | 700 | 701 => row.add colName (.double ((Cxx.stod val).getD (Binary64.ofQuotient false 0 1)))
    | 17 => row.add colName (.blob ((unescapeBytea (cString val)).getD []))
    | _ => row.add colName (.text val)

/-- One round of the inner loop; there is no result where the cell does not exist. -/
def readCell (res : PGResult) (r c : Nat) (row : Row w) : Option (Row w) := do
  let field ← res.fields[c]?
  let cells ← res.rows[r]?
  let cell ← cells[c]?
  some (addCell w unescapeBytea field cell row)

def readRow (res : PGResult) (r : Nat) : Option (Row w) :=
  let nfields := Cxx.toInt res.fields.length
  forLoop (readCell w unescapeBytea res r) nfields.toNat {}

/-- `StepResults`. -/
def stepResultsLoop (res : Option HeldResult) : Option (ExpectedRows w) :=
  match res with
  | none => some (.error (.executeError (ascii "Invalid PGresult provided.")))
  | some res =>
    if res.status ≠ .tuplesOk ∧ res.status ≠ .commandOk then
      some (.error (.executeError (res.errorMessage.getD (ascii "Unknown PG error"))))
    else do
      let nrows := Cxx.toInt res.rows.length
      let rows ← forLoop (fun r (rows : Rows w) =>
        (readRow w unescapeBytea res.toPGResult r).map fun row => rows ++ [row]) nrows.toNat []
      some (.ok rows)

variable {w unescapeBytea}

theorem addCell_eq (field : Field) (cell : Option Bytes) (row : Row w) :
    addCell w unescapeBytea field cell row =
      row.add (field.name.getD []) (textValue w unescapeBytea field cell) := by
  cases cell with
  | none => rfl
  | some val =>
    unfold addCell textValue cellValue
    simp only [Row.addInteger_eq]
    split <;> rfl

theorem readCell_eq {res : PGResult} {r c : Nat} {cells : List (Option Bytes)}
    (hrow : res.rows[r]? = some cells) {p : Field × Option Bytes}
    (hp : (res.fields.zip cells)[c]? = some p) (row : Row w) :
    readCell w unescapeBytea res r c row =
      some (row.add (p.1.name.getD []) (textValue w unescapeBytea p.1 p.2)) := by
  obtain ⟨hfield, hcell⟩ := List.getElem?_zip_eq_some.mp hp
  unfold readCell
  simp only [hfield, hrow, hcell, Option.bind_eq_bind, Option.bind_some, addCell_eq]

theorem readRow_eq {res : PGResult} (hnfields : res.fields.length < 2 ^ 31) {r : Nat}
    {cells : List (Option Bytes)} (hrow : res.rows[r]? = some cells) :
    readRow w unescapeBytea res r = some (stepRow w unescapeBytea res.fields cells) := by
  have hlength : (res.fields.zip cells).length = res.fields.length := by
    rw [List.length_zip, res.width cells (List.mem_of_getElem? hrow), Nat.min_self]
  unfold readRow stepRow
  simp only [Cxx.toNat_toInt_eq_iff.mpr hnfields]
  rw [forLoop_eq_foldl (Nat.le_of_eq hlength.symm) fun c p row hp => readCell_eq hrow hp row,
    ← hlength, List.take_length]

/-- **The loops of `StepResults`** give the rows of `stepResults`. -/
theorem stepResultsLoop_eq (res : HeldResult) :
    stepResultsLoop w unescapeBytea (some res) =
      some (stepResults w unescapeBytea (some res.toPGResult)) := by
  unfold stepResultsLoop stepResults
  simp only [Cxx.toNat_toInt_eq_iff.mpr res.ntuples]
  split_ifs
  · rfl
  · rw [forLoop_append (Nat.le_refl _) fun r cells hrow => readRow_eq res.nfields hrow,
      List.take_length]
    rfl

end StormByteDatabase.Postgres
