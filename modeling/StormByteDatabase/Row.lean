import StormByteDatabase.Exception
import StormByteDatabase.Value

/-!
# Rows

A `Row` is a list of named values with an index of the names that is built at the first lookup and
dropped by `add`.
-/

namespace StormByteDatabase

structure NamedValue (w : LongWidth) where
  name : Bytes
  value : Value w
  deriving DecidableEq, Repr

structure Row (w : LongWidth) where
  data : List (NamedValue w) := []
  /-- `m_name_index`, by the position of each name. -/
  nameIndex : Option (List (Bytes × Nat)) := none
  deriving DecidableEq, Repr

def Row.add {w : LongWidth} (r : Row w) (columnName : Bytes) (value : Value w) : Row w :=
  { data := r.data ++ [⟨columnName, value⟩], nameIndex := none }

theorem data_foldl_add {α : Type*} {w : LongWidth} (name : α → Bytes) (value : α → Value w)
    (l : List α) (r : Row w) :
    (l.foldl (fun row a => row.add (name a) (value a)) r).data =
      r.data ++ l.map fun a => ⟨name a, value a⟩ := by
  induction l generalizing r with
  | nil => simp
  | cons a l ih =>
    rw [List.foldl_cons, ih]
    simp [Row.add]

/-- The addition of an integer of 64 bits, as `int` or as `long int`. -/
def Row.addInteger {w : LongWidth} (r : Row w) (columnName : Bytes) (v : Int) : Row w :=
  if v > IntType.max w .int ∨ v < IntType.lowest w .int then
    r.add columnName (.longInteger (Num.cast w .longInt v))
  else r.add columnName (.integer (Num.cast w .int v))

theorem Row.addInteger_eq {w : LongWidth} (r : Row w) (columnName : Bytes) (v : Int) :
    r.addInteger columnName v = r.add columnName (intOrLong w v) := by
  unfold Row.addInteger intOrLong
  split_ifs <;> rfl

abbrev Rows (w : LongWidth) := List (Row w)

abbrev ExpectedRows (w : LongWidth) := Except QueryException (Rows w)

end StormByteDatabase
