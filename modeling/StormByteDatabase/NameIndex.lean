import StormByteDatabase.Lib.FirstIndex
import StormByteDatabase.Lib.Machine
import StormByteDatabase.Lib.Objects
import StormByteDatabase.Row

/-!
# Lookup of columns by name

The first lookup by name builds `m_name_index`, and `add` drops it. The rows of a program are a table
of objects, and an action is one operation on them, with what the library leaves in the containers it
moves from.

`name_lookup_iff`: every lookup that could be made at any point of a run is right exactly when no
assignment to an element moves the first column of a name while the index is there, and a moved-from
index agrees with the columns left. The assignment through `row[0]` in `renamed_column` is the first
of these.
-/

namespace StormByteDatabase

open Lib FirstIndex

variable {w : LongWidth}

namespace Row

/-- `BuildNameIndex`. -/
def buildNameIndex (r : Row w) : Row w :=
  match r.nameIndex with
  | some _ => r
  | none => { r with nameIndex := some (index NamedValue.name r.data) }

/-- The place of the column that `operator[]` gives; `none` is `ColumnNotFound`. -/
def find (r : Row w) (columnName : Bytes) : Option Nat :=
  r.buildNameIndex.nameIndex.bind (List.lookup columnName)

/-- Assignment to the value of a column, through a `Value&`. -/
def setValue (r : Row w) (i : Nat) (value : Value w) : Row w :=
  { r with data := r.data.modify i fun nv => { nv with value := value } }

/-- `operator[]` of an rvalue: the value is moved out of the column. -/
def moveOut (r : Row w) (columnName : Bytes) (leftover : Value w) : Row w :=
  match r.find columnName with
  | some i => r.buildNameIndex.setValue i leftover
  | none => r.buildNameIndex

/-- Assignments to elements in order. -/
def write (r : Row w) (writes : List (Nat × NamedValue w)) : Row w :=
  { r with data := writes.foldl (fun data p => data.set p.1 p.2) r.data }

/-- `row[columnName]` refers to the first column of the name, and throws only if there is none. -/
def Right (r : Row w) : Prop :=
  ∀ columnName, r.find columnName = first NamedValue.name r.data columnName

end Row

/-- What is left in the containers of a row that is moved from. -/
structure Leftover (w : LongWidth) where
  data : List (NamedValue w)
  index : List (Bytes × Nat)
  deriving DecidableEq, Repr

/-- The two agree, as two empty containers do. -/
def Leftover.Agrees (left : Leftover w) : Prop :=
  ∀ columnName, left.index.lookup columnName = first NamedValue.name left.data columnName

/-- A row after a move; its `std::optional` stays engaged. -/
def Row.movedFrom (r : Row w) (left : Leftover w) : Row w :=
  { data := left.data, nameIndex := r.nameIndex.map fun _ => left.index }

/-- One operation on the rows of a program. -/
inductive RowAction (w : LongWidth)
  | construct
  | add (row : Nat) (columnName : Bytes) (value : Value w)
  /-- `operator[]` of an lvalue, const or not. -/
  | lookup (row : Nat) (columnName : Bytes)
  | lookupRvalue (row : Nat) (columnName : Bytes) (leftover : Value w)
  | setValue (row i : Nat) (value : Value w)
  /-- Assignment through references to elements, by index or in a loop. There are several writes where
  elements are swapped or moved from one another. -/
  | assign (row : Nat) (writes : List (Nat × NamedValue w))
  | copyConstruct (source : Nat)
  | copyAssign (dest source : Nat)
  | moveConstruct (source : Nat) (left : Leftover w)
  | moveAssign (dest source : Nat) (left : Leftover w)
  | destroy (row : Nat)
  deriving DecidableEq, Repr

namespace RowAction

/-- `none` where an operand does not exist. -/
def step (s : Objects (Row w)) : RowAction w → Option (Objects (Row w))
  | construct => some (s.add {})
  | add i columnName value => (s.get i).map fun r => s.put i (r.add columnName value)
  | lookup i _ => (s.get i).map fun r => s.put i r.buildNameIndex
  | lookupRvalue i columnName leftover =>
    (s.get i).map fun r => s.put i (r.moveOut columnName leftover)
  | setValue i j value => (s.get i).map fun r => s.put i (r.setValue j value)
  | assign i writes => (s.get i).map fun r => s.put i (r.write writes)
  | copyConstruct i => (s.get i).map fun r => s.add r
  | copyAssign d i =>
    (s.get d).bind fun _ => (s.get i).map fun r => if d = i then s else s.put d r
  | moveConstruct i left => (s.get i).map fun r => (s.add r).put i (r.movedFrom left)
  -- a row that is moved to itself is left like any other
  | moveAssign d i left =>
    (s.get d).bind fun _ => (s.get i).map fun r => (s.put d r).put i (r.movedFrom left)
  | destroy i => (s.get i).map fun _ => s.drop i

/-- The operation moves no first column away under an index. -/
def KeepsNames (s : Objects (Row w)) : RowAction w → Prop
  | assign i writes => ∀ r ∈ s.get i, r.nameIndex = none ∨
      SameFirst NamedValue.name r.data (r.write writes).data
  | moveConstruct i left => ∀ r ∈ s.get i, r.nameIndex = none ∨ left.Agrees
  | moveAssign _ i left => ∀ r ∈ s.get i, r.nameIndex = none ∨ left.Agrees
  | _ => True

end RowAction

/-- The runs of programs over rows. -/
def rowMachine (w : LongWidth) : Machine (Objects (Row w)) (RowAction w) where
  init := .empty
  step := RowAction.step

/-! ### What the operations do to a row -/

namespace Row

variable {r : Row w} {data : List (NamedValue w)} {ix : List (Bytes × Nat)}

theorem find_of_index (h : r.nameIndex = some ix) (columnName : Bytes) :
    r.find columnName = ix.lookup columnName := by
  unfold find buildNameIndex
  simp only [h, Option.bind_some]

theorem right_of_none (h : r.nameIndex = none) : r.Right := by
  intro columnName
  unfold find buildNameIndex
  simp only [h, Option.bind_some]
  apply lookup_index

theorem right_iff : r.Right ↔ ∀ ix ∈ r.nameIndex, ∀ columnName,
    ix.lookup columnName = first NamedValue.name r.data columnName := by
  cases h : r.nameIndex with
  | none =>
    apply iff_of_true (right_of_none h)
    exact fun ix hix => absurd hix (Option.not_mem_none ix)
  | some ix =>
    unfold Right
    simp only [find_of_index h, Option.mem_some_iff, forall_eq']

theorem right_add (columnName : Bytes) (value : Value w) : (r.add columnName value).Right :=
  right_of_none rfl

theorem right_buildNameIndex (h : r.Right) : r.buildNameIndex.Right := by
  rw [right_iff] at h ⊢
  unfold buildNameIndex
  split
  · exact h
  · intro ix hix columnName
    obtain rfl := Option.some.inj hix
    apply lookup_index

theorem right_set_data_iff (h : r.Right) : ({ r with data := data } : Row w).Right ↔
    r.nameIndex = none ∨ SameFirst NamedValue.name r.data data := by
  rw [right_iff] at h ⊢
  show (∀ ix ∈ r.nameIndex, ∀ columnName,
    ix.lookup columnName = first NamedValue.name data columnName) ↔ _
  cases hix : r.nameIndex with
  | none => exact iff_of_true (fun ix hmem => absurd hmem (Option.not_mem_none ix)) (.inl rfl)
  | some ix =>
    have hcurrent := h ix hix
    rw [or_iff_right (Option.some_ne_none ix)]
    simp only [Option.mem_some_iff, forall_eq', hcurrent]
    exact forall_congr' fun _ => eq_comm

theorem right_setValue (h : r.Right) (i : Nat) (value : Value w) : (r.setValue i value).Right := by
  apply (right_set_data_iff h).mpr
  right
  apply sameFirst_of_map_eq
  apply List.ext_getElem?
  intro j
  simp only [List.getElem?_map, List.getElem?_modify]
  cases r.data[j]? with
  | none => rfl
  | some nv =>
    apply congrArg some
    split_ifs <;> rfl

theorem right_moveOut (h : r.Right) (columnName : Bytes) (leftover : Value w) :
    (r.moveOut columnName leftover).Right := by
  unfold moveOut
  split
  · exact right_setValue (right_buildNameIndex h) _ _
  · exact right_buildNameIndex h

theorem right_movedFrom_iff {left : Leftover w} :
    (r.movedFrom left).Right ↔ r.nameIndex = none ∨ left.Agrees := by
  rw [right_iff]
  cases hix : r.nameIndex with
  | none =>
    refine iff_of_true ?_ (.inl rfl)
    simp only [movedFrom, hix, Option.map_none]
    exact fun ix hmem => absurd hmem (Option.not_mem_none ix)
  | some ix =>
    rw [or_iff_right (Option.some_ne_none ix)]
    simp only [movedFrom, hix, Option.map_some, Option.mem_some_iff, forall_eq']
    rfl

/-- One assignment keeps the first columns exactly if the name is the same, or the old and the new
name both have a column before. -/
theorem sameFirst_write_iff {i : Nat} {old : NamedValue w} (h : r.data[i]? = some old)
    (nv : NamedValue w) : SameFirst NamedValue.name r.data (r.write [(i, nv)]).data ↔
      nv.name = old.name ∨ (∃ c ∈ r.data.take i, c.name = old.name) ∧
        ∃ c ∈ r.data.take i, c.name = nv.name :=
  sameFirst_set_iff h

end Row

/-! ### Runs -/

namespace RowAction

variable {s s' : Objects (Row w)} {a : RowAction w}

/-- Of the row it is about, an operation makes one that is right exactly if the names keep their
first columns. -/
theorem step_right_iff (hall : s.All Row.Right) (hstep : step s a = some s') :
    KeepsNames s a ↔ s'.All Row.Right := by
  cases a with
  | construct =>
    obtain rfl := Option.some.inj hstep
    exact iff_of_true trivial ((Objects.all_add hall).mpr (Row.right_of_none rfl))
  | add i columnName value =>
    obtain ⟨r, hget, rfl⟩ := Option.map_eq_some_iff.mp hstep
    exact iff_of_true trivial ((Objects.all_put hget hall).mpr (Row.right_add _ _))
  | lookup i columnName =>
    obtain ⟨r, hget, rfl⟩ := Option.map_eq_some_iff.mp hstep
    have hright := Objects.all_iff.mp hall i r hget
    exact iff_of_true trivial ((Objects.all_put hget hall).mpr (Row.right_buildNameIndex hright))
  | lookupRvalue i columnName leftover =>
    obtain ⟨r, hget, rfl⟩ := Option.map_eq_some_iff.mp hstep
    have hright := Objects.all_iff.mp hall i r hget
    exact iff_of_true trivial ((Objects.all_put hget hall).mpr (Row.right_moveOut hright _ _))
  | setValue i j value =>
    obtain ⟨r, hget, rfl⟩ := Option.map_eq_some_iff.mp hstep
    have hright := Objects.all_iff.mp hall i r hget
    exact iff_of_true trivial ((Objects.all_put hget hall).mpr (Row.right_setValue hright _ _))
  | assign i writes =>
    obtain ⟨r, hget, rfl⟩ := Option.map_eq_some_iff.mp hstep
    have hright := Objects.all_iff.mp hall i r hget
    rw [Objects.all_put hget hall]
    simp only [KeepsNames, hget, Option.mem_some_iff, forall_eq']
    exact (Row.right_set_data_iff hright).symm
  | copyConstruct i =>
    obtain ⟨r, hget, rfl⟩ := Option.map_eq_some_iff.mp hstep
    exact iff_of_true trivial ((Objects.all_add hall).mpr (Objects.all_iff.mp hall i r hget))
  | copyAssign d i =>
    obtain ⟨old, hold, hstep⟩ := Option.bind_eq_some_iff.mp hstep
    obtain ⟨r, hget, rfl⟩ := Option.map_eq_some_iff.mp hstep
    refine iff_of_true trivial ?_
    split_ifs
    · exact hall
    · exact (Objects.all_put hold hall).mpr (Objects.all_iff.mp hall i r hget)
  | moveConstruct i left =>
    obtain ⟨r, hget, rfl⟩ := Option.map_eq_some_iff.mp hstep
    have hadd := (Objects.all_add hall).mpr (Objects.all_iff.mp hall i r hget)
    have hsource : (s.add r).get i = some r := by
      rw [Objects.get_add, if_neg (Objects.ne_size_of_get hget), hget]
    rw [Objects.all_put hsource hadd, Row.right_movedFrom_iff]
    simp only [KeepsNames, hget, Option.mem_some_iff, forall_eq']
  | moveAssign d i left =>
    obtain ⟨old, hold, hstep⟩ := Option.bind_eq_some_iff.mp hstep
    obtain ⟨r, hget, rfl⟩ := Option.map_eq_some_iff.mp hstep
    have hput := (Objects.all_put hold hall).mpr (Objects.all_iff.mp hall i r hget)
    have hsource : (s.put d r).get i = some r := by
      rw [Objects.get_put hold, hget]
      split_ifs <;> rfl
    rw [Objects.all_put hsource hput, Row.right_movedFrom_iff]
    simp only [KeepsNames, hget, Option.mem_some_iff, forall_eq']
  | destroy i =>
    obtain ⟨r, _, rfl⟩ := Option.map_eq_some_iff.mp hstep
    exact iff_of_true trivial (Objects.all_drop hall)

end RowAction

/-- **Lookup by name is right** at every point of a run exactly when every operation keeps the first
columns of the names where an index has them. -/
theorem name_lookup_iff {as : List (RowAction w)} {s : Objects (Row w)}
    (hrun : (rowMachine w).run as = some s) :
    (rowMachine w).Visits (fun s => s.All Row.Right) as ↔
      (rowMachine w).Meets RowAction.KeepsNames as := by
  apply Machine.visitsFrom_iff_meetsFrom (I := fun _ => True)
  · exact fun _ _ _ _ _ _ => trivial
  · exact fun _ _ _ _ hall hstep => RowAction.step_right_iff hall hstep
  · trivial
  · exact fun o ho => by cases ho
  · exact hrun

/-- A row is filled, searched, copied and moved. -/
theorem name_lookup_iff_moved :
    let as : List (RowAction .bits64) := [.construct, .add 0 (ascii "a") .null, .lookup 0 (ascii "a"),
      .copyConstruct 0, .moveAssign 1 0 ⟨[], []⟩]
    (rowMachine .bits64).Visits (fun s => s.All Row.Right) as ↔
      (rowMachine .bits64).Meets RowAction.KeepsNames as :=
  name_lookup_iff (s := ⟨[some ⟨[], some []⟩,
    some ⟨[⟨ascii "a", .null⟩], some [(ascii "a", 0)]⟩]⟩) (by decide)

/-- A column is looked up and then renamed through `row[0]`; its new name is not found. -/
theorem renamed_column :
    ¬ ∀ (as : List (RowAction .bits64)) (s : Objects (Row .bits64)),
      (rowMachine .bits64).run as = some s →
        (rowMachine .bits64).Visits (fun s => s.All Row.Right) as := by
  intro h
  let row : Row .bits64 := ⟨[⟨ascii "b", .null⟩], some [(ascii "a", 0)]⟩
  have hrun : (rowMachine .bits64).run [.construct, .add 0 (ascii "a") .null, .lookup 0 (ascii "a"),
      .assign 0 [(0, ⟨ascii "b", .null⟩)]] = some ⟨[some row]⟩ := by
    decide
  have hall := Machine.VisitsFrom.last _ (h _ _ hrun) hrun
  have hright := Objects.all_iff.mp hall 0 row rfl (ascii "b")
  exact absurd hright (by decide)

end StormByteDatabase
