import StormByteDatabase.Sqlite.ResultFetch

/-!
# SQLite prepared statements

`Binder` makes one `sqlite3_bind_*` call for an argument, and `BindCall.cell` is what SQLite binds by
it. `exists_cell_denotes_iff`: a value is bound as what it stands for unless it is an `unsigned int`
of 2^31 or more or an `unsigned long int` of 2^63 or more, a double that is not a number, a text with
a NUL byte, or a blob that is empty or has 2^31 bytes or more.
-/

namespace StormByteDatabase.SQLite

open Lib

variable {w : LongWidth}

/-- A `sqlite3_bind_*` call, less the statement and the index. -/
inductive BindCall (w : LongWidth)
  | null
  | int (n : Num w .int)
  | int64 (n : Int64)
  | double (x : Binary64)
  /-- A text with a NUL after it, and the number of bytes. -/
  | text (s : Bytes) (n : Int)
  /-- `none` is a null pointer. -/
  | blob (data : Option Bytes) (n : Int)
  deriving DecidableEq, Repr

/-- What SQLite binds. A negative number of bytes means up to the first NUL for a text and is not
allowed for a blob; a double that is not a number becomes NULL. -/
def BindCall.cell : BindCall w → Option Cell
  | .null => some .null
  | .int n => some (.integer (Int64.ofInt n.val))
  | .int64 n => some (.integer n)
  | .double x => some (if x.IsNaN then .null else .float x)
  | .text s n => some (.text (if n < 0 then cString s else s.take n.toNat))
  | .blob none _ => some .null
  | .blob (some data) n => if n < 0 then none else some (.blob (data.take n.toNat))

/-- `Binder`, from the null check on. -/
def binder : Value w → BindCall w
  | .null => .null
  | .integer n => .int n
  | .unsignedInteger n => .int (Num.cast w .int n.val)
  | .longInteger n => .int64 (Int64.ofInt n.val)
  | .unsignedLongInteger n => .int64 (Int64.ofInt n.val)
  | .double x => .double x
  | .boolean b => .int (Num.cast w .int (if b then 1 else 0))
  | .text s => .text s (-1)
  | .blob bv => if bv = [] then .blob none 0 else .blob (some bv) (Cxx.toInt bv.length)

/-! ### What a cell stands for -/

def Cell.Denotes : Cell → Value w → Prop
  | .null, v => v = .null
  | .integer m, v => v.number = some m.toInt
  | .float x, v => v = .double x
  | .text s, v => v = .text s
  | .blob b, v => v = .blob b

/-- The value is bound as what it stands for. -/
def Bindable : Value w → Prop
  | .unsignedInteger n => n.val < 2 ^ 31
  | .unsignedLongInteger n => n.val < 2 ^ 63
  | .double x => ¬ x.IsNaN
  | .text s => 0 ∉ s
  | .blob b => b ≠ [] ∧ b.length < 2 ^ 31
  | _ => True

theorem toInt_ofInt_iff {n : Int} : (Int64.ofInt n).toInt = n ↔ -2 ^ 63 ≤ n ∧ n < 2 ^ 63 :=
  ⟨fun h => h ▸ ⟨(Int64.ofInt n).le_toInt, (Int64.ofInt n).toInt_lt⟩,
    fun h => Int64.toInt_ofInt_of_le h.1 h.2⟩

theorem toInt_ofInt_int (n : Num w .int) : (Int64.ofInt n.val).toInt = n.val := by
  have hbounds := n.int_bounds
  exact toInt_ofInt_iff.mpr (by omega)

theorem cell_blob_iff (b : Bytes) :
    (binder (w := w) (.blob b)).cell = some (.blob b) ↔ b ≠ [] ∧ b.length < 2 ^ 31 := by
  by_cases hnil : b = []
  · subst hnil
    exact iff_of_false (fun h => by cases h) fun h => h.1 rfl
  · have hbind : binder (w := w) (.blob b) = .blob (some b) (Cxx.toInt b.length) := if_neg hnil
    have hupper := Cxx.toInt_lt b.length
    have hsame : b.length < 2 ^ 31 → Cxx.toInt b.length = b.length := Cxx.toInt_of_lt
    rw [hbind, and_iff_right hnil]
    simp only [BindCall.cell]
    split_ifs with hneg
    · exact iff_of_false nofun (by omega)
    · rw [Option.some.injEq, Cell.blob.injEq, List.take_eq_self_iff]
      omega

theorem denotes_of_cell {v : Value w} {cell : Cell} (h : (binder v).cell = some cell) :
    (∃ cell ∈ (binder v).cell, cell.Denotes v) ↔ cell.Denotes v := by
  simp [h]

/-- **Which values are bound as what they stand for.** -/
theorem exists_cell_denotes_iff (v : Value w) :
    (∃ cell ∈ (binder v).cell, cell.Denotes v) ↔ Bindable v := by
  cases v with
  | null => exact iff_of_true ⟨_, rfl, rfl⟩ trivial
  | integer n => exact iff_of_true ⟨_, rfl, congrArg some (toInt_ofInt_int n).symm⟩ trivial
  | unsignedInteger n =>
    have hpos : 0 ≤ n.val := n.lower
    refine (denotes_of_cell rfl).trans ?_
    show some n.val = some (Int64.ofInt (Num.cast w .int n.val).val).toInt ↔ n.val < 2 ^ 31
    rw [Option.some.injEq, toInt_ofInt_int, eq_comm, Num.cast_eq_iff]
    show -2 ^ 31 ≤ n.val ∧ n.val ≤ 2 ^ 31 - 1 ↔ n.val < 2 ^ 31
    omega
  | longInteger n =>
    have hsame : (Int64.ofInt n.val).toInt = n.val := toInt_ofInt_iff.mpr n.longInt_bounds
    exact iff_of_true ⟨_, rfl, congrArg some hsame.symm⟩ trivial
  | unsignedLongInteger n =>
    have hpos : 0 ≤ n.val := n.lower
    refine (denotes_of_cell rfl).trans ?_
    show some n.val = some (Int64.ofInt n.val).toInt ↔ n.val < 2 ^ 63
    rw [Option.some.injEq, eq_comm, toInt_ofInt_iff]
    omega
  | double x =>
    refine (denotes_of_cell rfl).trans ?_
    show Cell.Denotes (if x.IsNaN then .null else .float x) (.double x) ↔ ¬ x.IsNaN
    split_ifs with hnan
    · exact iff_of_false nofun (not_not.mpr hnan)
    · exact iff_of_true rfl hnan
  | boolean b =>
    have hlimits : IntType.lowest w .int ≤ 0 ∧ 1 ≤ IntType.max w .int := by
      cases w <;> decide
    have hfits : (Num.cast w .int (if b then 1 else 0)).val = b.toNat := by
      cases b
      · exact Num.cast_of_mem (n := 0) hlimits.1 (by omega)
      · exact Num.cast_of_mem (n := 1) (by omega) hlimits.2
    exact iff_of_true ⟨_, rfl, congrArg some ((toInt_ofInt_int _).trans hfits).symm⟩ trivial
  | text s =>
    refine (denotes_of_cell rfl).trans ?_
    show Value.text s = .text (cString s) ↔ 0 ∉ s
    rw [Value.text.injEq, eq_comm, cString_eq_self_iff]
  | blob b =>
    refine Iff.trans ?_ (cell_blob_iff (w := w) b)
    constructor
    · rintro ⟨cell, hcell, hdenotes⟩
      cases cell with
      | blob b' =>
        obtain rfl : b = b' := Value.blob.inj hdenotes
        exact hcell
      | null | integer | float | text => cases hdenotes
    · exact fun hcell => ⟨_, hcell, rfl⟩

end StormByteDatabase.SQLite
