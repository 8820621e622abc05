import StormByteDatabase.Mariadb.ResultFetch

/-!
# Output buffers of a MariaDB prepared statement

`DoExecute` chooses a buffer for each column by the type of its field (`bindKind`), and builds the
value of a cell by a second switch over the type (`rowValue`).
-/

namespace StormByteDatabase.MariaDB

open Lib

/-- The vector whose entry is bound to a column. -/
inductive OutKind
  | outBool
  | outInt
  | outUint
  | outLl
  | outUll
  | outDbl
  | outStr
  deriving DecidableEq, Repr

/-- The entries of the output vectors for one column. -/
structure OutColumn where
  isNull : Bool
  len : Nat
  outBool : BitVec 8
  outInt : BitVec 32
  outUint : BitVec 32
  outLl : BitVec 64
  outUll : BitVec 64
  outDbl : Binary64
  outStr : Bytes
  deriving DecidableEq, Repr

/-- The entries as the vectors are made. -/
def OutColumn.empty : OutColumn := ⟨false, 0, 0, 0, 0, 0, 0, Binary64.ofQuotient false 0 1, []⟩

/-- The switch that binds the output buffers. -/
def bindKind (field : Option Field) : OutKind :=
  match fieldType field with
  | .tiny => if isBoolean field then .outBool else if isUnsigned field then .outUint else .outInt
  | .short | .long => if isUnsigned field then .outUint else .outInt
  | .longlong => if isUnsigned field then .outUll else .outLl
  | .float | .double => .outDbl
  | _ => .outStr

variable (w : LongWidth)

/-- The value of a cell in a column with a string buffer. -/
def stringValue (field : Option Field) (s : Bytes) : Value w :=
  match fieldType field with
  | .blob => if isBinary field then .blob s else .text s
  | _ => .text s

/-- The switch that builds the value of a cell. -/
def rowValue (field : Option Field) (o : OutColumn) : Value w :=
  if o.isNull then .null
  else
    match fieldType field with
    | .tiny =>
      if isBoolean field then .boolean (o.outBool ≠ 0)
      else if isUnsigned field then .unsignedInteger (Num.cast w .unsignedInt o.outUint.toNat)
      else .integer (Num.cast w .int o.outInt.toInt)
    | .short | .long =>
      if isUnsigned field then .unsignedInteger (Num.cast w .unsignedInt o.outUint.toNat)
      else .integer (Num.cast w .int o.outInt.toInt)
    | .longlong =>
      if isUnsigned field then .unsignedLongInteger (Num.cast w .unsignedLongInt o.outUll.toNat)
      else .longInteger (Num.cast w .longInt o.outLl.toInt)
    | .float | .double => .double o.outDbl
    | _ => stringValue w field (o.outStr.take o.len)

variable {w}

theorem rowValue_null {field : Option Field} {o : OutColumn} (h : o.isNull = true) :
    rowValue w field o = .null :=
  if_pos h

theorem rowValue_outStr {field : Option Field} {o : OutColumn} (hkind : bindKind field = .outStr)
    (h : o.isNull = false) : rowValue w field o = stringValue w field (o.outStr.take o.len) := by
  unfold bindKind at hkind
  unfold rowValue
  rw [if_neg (by simp [h])]
  cases ht : fieldType field <;> simp only [ht] at hkind <;> first
    | rfl
    | (split_ifs at hkind)
    | cases hkind

end StormByteDatabase.MariaDB
