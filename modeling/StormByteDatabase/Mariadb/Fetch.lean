import StormByteDatabase.Lib.Buffer
import StormByteDatabase.Mariadb.OutputBinding

/-!
# The rows of a MariaDB prepared statement

`DoExecute` binds a buffer of the declared length to each string column. `mysql_stmt_bind_result`
copies the bindings, and `mysql_stmt_fetch` writes through the copy what fits; a longer cell is
fetched again after `out_str` and the binding of `DoExecute` were enlarged, but not the copy.

A write through the copy to a block that `out_str` has left can do anything: another column or a row
may have the block by then. What it does is a parameter, `wild`, and what holds has to hold for all of
them. `long_cells_delivered_iff`: the rows have the cells the server sent, whatever such a write does,
exactly when in no column the connector writes anything for a cell after a long one
(`NothingAfterLong`). `shorter_after_long` is a column where the write does nothing, and the second row
gets bytes of the first.

Proof. Until a write to a left block rows are fetched column by column, since a column that needs
another fetch is one whose cell was truncated (`fetchRow_eq`). A column's copy has its block until the
first long cell and never again; `Next` says what one cell does in both cases, and the rest are
inductions over the cells. The first write to a left block takes the row with it if `wild` does.
-/

namespace StormByteDatabase.MariaDB

open Lib

/-- What the connector writes for the bytes of a cell to a buffer of some size: what fits of them, and
where there is room possibly more, such as a zero. -/
structure Connector where
  written : Nat → Bytes → Bytes
  take_written : ∀ size s, s.take size <+: written size s
  length_written : ∀ size s, (written size s).length ≤ size

/-- The part of a `MYSQL_BIND` for a string buffer. -/
structure Bind where
  buffer : Nat
  bufferLength : Nat
  deriving DecidableEq, Repr

/-- A column that is bound as a string. -/
structure StringField where
  field : Option Field
  kind : bindKind field = .outStr
  deriving DecidableEq, Repr

/-- What a column has in the vectors of `DoExecute` and in the connector. -/
structure Column where
  info : StringField
  /-- The copy that `mysql_stmt_bind_result` made of `bindOut`. -/
  copied : Bind
  bindOut : Bind
  outStr : Buffer
  outLen : Nat
  outIsNull : Bool
  deriving DecidableEq, Repr

/-- The cells of a row; `none` is NULL. -/
abbrev Cells (n : Nat) := Fin n → Option Bytes

/-- `(f && f->length) ? f->length : 1024`. -/
def blen (field : Option Field) : Nat :=
  match field with
  | some f => if f.length ≠ 0 then f.length else 1024
  | none => 1024

variable (con : Connector) (g : Buffer.Growth)

def bindResult (f : StringField) : Column :=
  let outStr := Buffer.empty.resize g (blen f.field + 1)
  let bind := ⟨outStr.block, outStr.bytes.length⟩
  { info := f, copied := bind, bindOut := bind, outStr := outStr, outLen := 0, outIsNull := false }

/-- The cell does not fit the buffer the connector knows. -/
def Column.truncates (c : Column) (cell : Option Bytes) : Bool :=
  cell.any fun s => c.copied.bufferLength < s.length

/-- `mysql_stmt_fetch` for one column, as far as `out_str` has the block that is written to. -/
def Column.store (c : Column) : Option Bytes → Column
  | none => { c with outIsNull := true }
  | some s =>
    { c with
      outIsNull := false
      outLen := s.length
      outStr := c.outStr.writeAt c.copied.buffer (con.written c.copied.bufferLength s) }

/-- The fetch writes to a block that `out_str` has left. -/
def Column.writesFreed (c : Column) (cell : Option Bytes) : Bool :=
  c.copied.buffer ≠ c.outStr.block &&
    cell.any fun s => con.written c.copied.bufferLength s ≠ []

/-- One turn of the loop after a truncated fetch, with `mysql_stmt_fetch_column`. -/
def Column.refetch (c : Column) (cell : Option Bytes) : Column :=
  if c.outIsNull then c
  else if c.outLen > c.bindOut.bufferLength then
    let outStr := c.outStr.resize g (c.outLen + 1)
    let bind := ⟨outStr.block, outStr.bytes.length⟩
    { c with
      bindOut := bind
      outStr := outStr.writeAt bind.buffer (con.written bind.bufferLength (cell.getD [])) }
  else c

variable {n : Nat} (wild : (Fin n → Column) → Fin n → Column)

/-- One turn of the fetch loop, up to the row. -/
def fetchRow (cols : Fin n → Column) (cells : Cells n) : Fin n → Column :=
  let fetched i := (cols i).store con (cells i)
  let stored := if ∃ i, (cols i).writesFreed con (cells i) then wild fetched else fetched
  if ∃ i, (cols i).truncates (cells i) then fun i => (stored i).refetch con g (cells i) else stored

/-- The entries of the output vectors. -/
def Column.out (c : Column) : OutColumn :=
  { OutColumn.empty with isNull := c.outIsNull, len := c.outLen, outStr := c.outStr.bytes }

variable (w : LongWidth)

/-- A row made of a name and a value for each column. -/
def rowOf (name : Fin n → Bytes) (value : Fin n → Value w) : Row w :=
  (List.finRange n).foldl (fun prow i => prow.add (name i) (value i)) {}

def fetchLoop : (Fin n → Column) → List (Cells n) → Rows w
  | _, [] => []
  | cols, cells :: rest =>
    let cols := fetchRow con g wild cols cells
    let prow := rowOf w (fun i => fieldName (cols i).info.field)
      fun i => rowValue w (cols i).info.field (cols i).out
    prow :: fetchLoop cols rest

/-- `DoExecute` from the binding of the result on. -/
def stmtRows (fields : Fin n → StringField) (rows : List (Cells n)) : Rows w :=
  fetchLoop con g wild w (fun i => bindResult g (fields i)) rows

/-! ### What must be delivered -/

/-- The value with exactly the bytes of the cell. -/
def sentValue (field : Option Field) : Option Bytes → Value w
  | none => .null
  | some s => stringValue w field s

def sentRow (fields : Fin n → StringField) (cells : Cells n) : Row w :=
  rowOf w (fun i => fieldName (fields i).field) fun i => sentValue w (fields i).field (cells i)

/-- Every row is as the server sent it. -/
def RowsAsSent (fields : Fin n → StringField) (rows : List (Cells n)) : Prop :=
  stmtRows con g wild w fields rows = rows.map (sentRow w fields)

instance (fields : Fin n → StringField) (rows : List (Cells n)) :
    Decidable (RowsAsSent con g wild w fields rows) :=
  inferInstanceAs (Decidable (_ = _))

/-- Nothing is written for the cells after one longer than `size`, the size of the buffer. -/
def NothingAfterLong (size : Nat) (cells : List (Option Bytes)) : Prop :=
  ∀ pre s post, cells = pre ++ some s :: post → size < s.length →
    ∀ cell ∈ post, ∀ t ∈ cell, con.written size t = []

/-! ### One cell of a column -/

/-- The connector's copy has the block of `outStr`. -/
def Column.Kept (c : Column) : Prop := c.copied.buffer = c.outStr.block

instance (c : Column) : Decidable c.Kept := inferInstanceAs (Decidable (_ = _))

/-- What holds of a column between two rows. -/
structure Column.Consistent (c : Column) : Prop where
  bound : c.bindOut = ⟨c.outStr.block, c.outStr.bytes.length⟩
  le : c.copied.bufferLength ≤ c.outStr.bytes.length
  pos : 0 < c.copied.bufferLength
  older : c.copied.buffer ≤ c.outStr.block
  full : c.Kept → c.outStr.capacity = c.copied.bufferLength

/-- The column after a cell, fetched again where it is too long. -/
def Column.next (c : Column) (cell : Option Bytes) : Column :=
  (c.store con cell).refetch con g cell

/-- What a cell does: `c'` is the column after it. -/
structure Next (c : Column) (cell : Option Bytes) (c' : Column) : Prop where
  info : c'.info = c.info
  copied : c'.copied = c.copied
  consistent : c'.Consistent
  kept : c'.Kept ↔ c.Kept ∧ c.truncates cell = false
  value : c.writesFreed con cell = false →
    rowValue w c.info.field c'.out = sentValue w c.info.field cell

variable {con g w} {c : Column} {cell : Option Bytes}

theorem written_of_le {size : Nat} {s : Bytes} (h : s.length ≤ size) :
    ∃ more, con.written size s = s ++ more := by
  obtain ⟨more, hmore⟩ := con.take_written size s
  exact ⟨more, by rw [← hmore, List.take_of_length_le h]⟩

theorem eq_nil_of_written {size : Nat} {s : Bytes} (hsize : 0 < size)
    (h : con.written size s = []) : s = [] := by
  have htake : s.take size = [] := List.prefix_nil.mp (h ▸ con.take_written size s)
  rcases List.take_eq_nil_iff.mp htake with hzero | hnil
  · omega
  · exact hnil

theorem consistent_bindResult (f : StringField) : (bindResult g f).Consistent where
  bound := rfl
  le := Nat.le_refl _
  pos := by
    show 0 < (Buffer.empty.resize g (blen f.field + 1)).bytes.length
    rw [Buffer.length_resize]
    omega
  older := Nat.le_refl _
  full _ := by
    show (Buffer.empty.resize g (blen f.field + 1)).capacity =
      (Buffer.empty.resize g (blen f.field + 1)).bytes.length
    rw [Buffer.capacity_resize_empty, Buffer.length_resize]

theorem size_bindResult (f : StringField) :
    (bindResult g f).copied.bufferLength = blen f.field + 1 :=
  Buffer.length_resize

theorem consistent_store (h : c.Consistent) : (c.store con cell).Consistent := by
  cases cell with
  | none => exact ⟨h.bound, h.le, h.pos, h.older, h.full⟩
  | some s =>
    refine ⟨?_, ?_, h.pos, ?_, ?_⟩
    · simpa [Column.store] using h.bound
    · simpa [Column.store] using h.le
    · simpa [Column.store] using h.older
    · intro hkept
      have hkept' : c.Kept := by simpa [Column.Kept, Column.store] using hkept
      simpa [Column.store] using h.full hkept'

theorem kept_store : (c.store con cell).Kept ↔ c.Kept := by
  cases cell with
  | none => exact Iff.rfl
  | some s => simp [Column.Kept, Column.store]

theorem stringValue_inj {field : Option Field} {s t : Bytes} :
    stringValue w field s = stringValue w field t ↔ s = t := by
  refine ⟨fun heq => ?_, fun heq => heq ▸ rfl⟩
  unfold stringValue at heq
  split at heq
  · split_ifs at heq
    · exact Value.blob.inj heq
    · exact Value.text.inj heq
  · exact Value.text.inj heq

theorem rowValue_eq_iff {s : Bytes} (hnull : c.outIsNull = false) :
    rowValue w c.info.field c.out = sentValue w c.info.field (some s) ↔
      c.outStr.bytes.take c.outLen = s := by
  rw [rowValue_outStr c.info.kind hnull]
  show stringValue w c.info.field (c.outStr.bytes.take c.outLen) = stringValue w c.info.field s ↔ _
  exact stringValue_inj

theorem refetch_store_of_le {s : Bytes} (h : s.length ≤ c.bindOut.bufferLength) :
    (c.store con (some s)).refetch con g (some s) = c.store con (some s) := by
  unfold Column.refetch
  have hnull : (c.store con (some s)).outIsNull = false := rfl
  rw [if_neg (by simp [hnull]), if_neg]
  show ¬ s.length > c.bindOut.bufferLength
  omega

theorem refetch_store_null : (c.store con none).refetch con g none = c.store con none := if_pos rfl

theorem next_null (h : c.Consistent) : Next con w c none (c.next con g none) := by
  have hnext : c.next con g none = c.store con none := refetch_store_null
  rw [hnext]
  exact ⟨rfl, rfl, consistent_store h, (and_iff_left rfl).symm, fun _ => rowValue_null rfl⟩

theorem next_short (h : c.Consistent) {s : Bytes} (hs : s.length ≤ c.outStr.bytes.length) :
    Next con w c (some s) (c.next con g (some s)) := by
  have hbound : s.length ≤ c.bindOut.bufferLength := by
    rw [h.bound]
    exact hs
  have hnext : c.next con g (some s) = c.store con (some s) := refetch_store_of_le hbound
  have hfit : c.Kept → s.length ≤ c.copied.bufferLength := by
    intro hkept
    have hcapacity := h.full hkept
    have hsize := c.outStr.size_le
    omega
  rw [hnext]
  refine ⟨rfl, rfl, consistent_store h, ?_, fun hlive => (rowValue_eq_iff rfl).mpr ?_⟩
  · rw [kept_store]
    refine ⟨fun hkept => ⟨hkept, ?_⟩, And.left⟩
    have hle := hfit hkept
    show decide (c.copied.bufferLength < s.length) = false
    exact decide_eq_false (by omega)
  · show (c.outStr.writeAt c.copied.buffer (con.written c.copied.bufferLength s)).bytes.take
      s.length = s
    by_cases hkept : c.Kept
    · obtain ⟨more, hmore⟩ : ∃ more, con.written c.copied.bufferLength s = s ++ more :=
        written_of_le (hfit hkept)
      have hlength := con.length_written c.copied.bufferLength s
      have hle := h.le
      rw [hkept, Buffer.writeAt_block, hmore]
      rw [hmore] at hlength
      exact Buffer.take_write_append (by omega)
    · -- the copy has lost its block, so nothing was written
      have hnothing : con.written c.copied.bufferLength s = [] := by
        have hne : c.copied.buffer ≠ c.outStr.block := hkept
        simpa [Column.writesFreed, hne] using hlive
      rw [eq_nil_of_written h.pos hnothing]
      rfl

/-- `out_str` after it was enlarged for the cell. -/
def Column.enlarged (con : Connector) (g : Buffer.Growth) (c : Column) (s : Bytes) : Buffer :=
  (c.store con (some s)).outStr.resize g (s.length + 1)

theorem length_enlarged {s : Bytes} : (c.enlarged con g s).bytes.length = s.length + 1 :=
  Buffer.length_resize

theorem next_of_long (h : c.Consistent) {s : Bytes} (hs : c.outStr.bytes.length < s.length) :
    c.next con g (some s) = { c.store con (some s) with
      bindOut := ⟨(c.enlarged con g s).block, (c.enlarged con g s).bytes.length⟩
      outStr := (c.enlarged con g s).write
        (con.written (c.enlarged con g s).bytes.length s) } := by
  have hlong : (c.store con (some s)).outLen > (c.store con (some s)).bindOut.bufferLength := by
    show s.length > c.bindOut.bufferLength
    rw [h.bound]
    exact hs
  unfold Column.next Column.refetch
  rw [if_neg (by simp [Column.store]), if_pos hlong]
  show { c.store con (some s) with
    bindOut := ⟨(c.enlarged con g s).block, (c.enlarged con g s).bytes.length⟩
    outStr := (c.enlarged con g s).writeAt (c.enlarged con g s).block
      (con.written (c.enlarged con g s).bytes.length s) } = _
  rw [Buffer.writeAt_block]

/-- The enlarged buffer is in a block that the copy does not have: the block of the copy is full, and
once left it is never entered again. -/
theorem copied_lt_enlarged (h : c.Consistent) {s : Bytes} (hs : c.outStr.bytes.length < s.length) :
    c.copied.buffer < (c.enlarged con g s).block := by
  have holder := h.older
  have hstored : (c.store con (some s)).outStr.block = c.outStr.block := Buffer.block_writeAt
  by_cases hkept : c.Kept
  · have hfull : (c.store con (some s)).outStr.capacity < s.length + 1 := by
      show (c.outStr.writeAt _ _).capacity < s.length + 1
      rw [Buffer.capacity_writeAt, h.full hkept]
      have hle := h.le
      omega
    have hnew : (c.enlarged con g s).block = (c.store con (some s)).outStr.block + 1 :=
      Buffer.block_resize hfull
    omega
  · have hne : c.copied.buffer ≠ c.outStr.block := hkept
    have hle : (c.store con (some s)).outStr.block ≤ (c.enlarged con g s).block :=
      Buffer.block_le_resize
    omega

theorem next_long (h : c.Consistent) {s : Bytes} (hs : c.outStr.bytes.length < s.length) :
    Next con w c (some s) (c.next con g (some s)) := by
  have hle := h.le
  have hsize : (c.enlarged con g s).bytes.length = s.length + 1 := length_enlarged
  have hleft : c.copied.buffer ≠ (c.enlarged con g s).block := Nat.ne_of_lt (copied_lt_enlarged h hs)
  have htruncates : c.truncates (some s) = true := decide_eq_true (by omega)
  rw [next_of_long h hs]
  refine ⟨rfl, rfl, ⟨?_, ?_, h.pos, Nat.le_of_lt (copied_lt_enlarged h hs), ?_⟩, ?_,
    fun _ => (rowValue_eq_iff rfl).mpr ?_⟩
  · show (⟨(c.enlarged con g s).block, (c.enlarged con g s).bytes.length⟩ : Bind) =
      ⟨(c.enlarged con g s).block, ((c.enlarged con g s).write _).bytes.length⟩
    rw [Buffer.length_write]
  · show c.copied.bufferLength ≤ ((c.enlarged con g s).write _).bytes.length
    rw [Buffer.length_write]
    omega
  · intro hkept
    exact absurd hkept hleft
  · rw [htruncates]
    exact ⟨fun hkept => absurd hkept hleft, fun hfits => absurd hfits.2 (by decide)⟩
  · obtain ⟨more, hmore⟩ : ∃ more, con.written (s.length + 1) s = s ++ more :=
      written_of_le (Nat.le_succ s.length)
    have hlength := con.length_written (s.length + 1) s
    show ((c.enlarged con g s).write (con.written _ s)).bytes.take s.length = s
    rw [hsize, hmore]
    rw [hmore] at hlength
    exact Buffer.take_write_append (by omega)

theorem next_of_consistent (h : c.Consistent) : Next con w c cell (c.next con g cell) := by
  cases cell with
  | none => exact next_null h
  | some s =>
    rcases Nat.lt_or_ge c.outStr.bytes.length s.length with hlong | hshort
    · exact next_long h hlong
    · exact next_short h hshort

/-! ### The cells of a column -/

/-- No cell is written to a block that `out_str` has left. -/
def Column.Clean (con : Connector) (g : Buffer.Growth) (c : Column) : List (Option Bytes) → Prop
  | [] => True
  | cell :: rest => c.writesFreed con cell = false ∧ (c.next con g cell).Clean con g rest

theorem writesFreed_of_kept (hkept : c.Kept) : c.writesFreed con cell = false := by
  have heq : c.copied.buffer = c.outStr.block := hkept
  simp [Column.writesFreed, heq]

theorem writesFreed_of_left (hleft : ¬ c.Kept) : c.writesFreed con cell = false ↔
    ∀ t ∈ cell, con.written c.copied.bufferLength t = [] := by
  have hne : c.copied.buffer ≠ c.outStr.block := hleft
  cases cell <;> simp [Column.writesFreed, hne]

theorem clean_left {cells : List (Option Bytes)} (h : c.Consistent) (hleft : ¬ c.Kept) :
    c.Clean con g cells ↔ ∀ cell ∈ cells, ∀ t ∈ cell, con.written c.copied.bufferLength t = [] := by
  induction cells generalizing c with
  | nil => exact iff_of_true trivial fun cell hcell => absurd hcell List.not_mem_nil
  | cons cell rest ih =>
    have hnext : Next con .bits64 c cell (c.next con g cell) := next_of_consistent h
    have hstill : ¬ (c.next con g cell).Kept := fun hkept => hleft (hnext.kept.mp hkept).1
    show c.writesFreed con cell = false ∧ (c.next con g cell).Clean con g rest ↔ _
    rw [writesFreed_of_left hleft, ih hnext.consistent hstill, hnext.copied, List.forall_mem_cons]

theorem nothingAfterLong_nil (size : Nat) : NothingAfterLong con size [] := by
  intro pre s post heq
  exact absurd heq.symm (List.append_ne_nil_of_right_ne_nil _ (List.cons_ne_nil _ _))

theorem nothingAfterLong_cons {size : Nat} {rest : List (Option Bytes)} :
    NothingAfterLong con size (cell :: rest) ↔
      (∀ s ∈ cell, size < s.length → ∀ cell ∈ rest, ∀ t ∈ cell, con.written size t = []) ∧
        NothingAfterLong con size rest := by
  constructor
  · intro h
    refine ⟨fun s hs hlong => ?_, fun pre s post heq hlong => ?_⟩
    · exact h [] s rest (by rw [Option.mem_def.mp hs, List.nil_append]) hlong
    · exact h (cell :: pre) s post (by rw [heq, List.cons_append]) hlong
  · rintro ⟨hfirst, hrest⟩ pre s post heq hlong
    cases pre with
    | nil =>
      obtain ⟨rfl, rfl⟩ := List.cons.inj heq
      exact hfirst s rfl hlong
    | cons head pre =>
      obtain ⟨rfl, rfl⟩ := List.cons.inj heq
      exact hrest pre s post rfl hlong

theorem nothingAfterLong_single (size : Nat) (cell : Option Bytes) :
    NothingAfterLong con size [cell] := by
  rw [nothingAfterLong_cons]
  exact ⟨fun _ _ _ cell hcell => absurd hcell List.not_mem_nil, nothingAfterLong_nil size⟩

theorem clean_kept {cells : List (Option Bytes)} (h : c.Consistent) (hkept : c.Kept) :
    c.Clean con g cells ↔ NothingAfterLong con c.copied.bufferLength cells := by
  induction cells generalizing c with
  | nil => exact iff_of_true trivial (nothingAfterLong_nil _)
  | cons cell rest ih =>
    have hnext : Next con .bits64 c cell (c.next con g cell) := next_of_consistent h
    show c.writesFreed con cell = false ∧ (c.next con g cell).Clean con g rest ↔ _
    rw [nothingAfterLong_cons, and_iff_right (writesFreed_of_kept hkept)]
    cases htruncates : c.truncates cell with
    | false =>
      have hfits : ∀ s ∈ cell, ¬ c.copied.bufferLength < s.length := by
        intro s hs
        rw [Option.mem_def.mp hs] at htruncates
        exact of_decide_eq_false htruncates
      rw [ih hnext.consistent (hnext.kept.mpr ⟨hkept, htruncates⟩), hnext.copied]
      exact (and_iff_right fun s hs hlong => absurd hlong (hfits s hs)).symm
    | true =>
      have hleft : ¬ (c.next con g cell).Kept := by
        intro hstill
        rw [hnext.kept, htruncates] at hstill
        exact absurd hstill.2 (by decide)
      rw [clean_left hnext.consistent hleft, hnext.copied]
      constructor
      · refine fun hnothing => ⟨fun _ _ _ => hnothing, ?_⟩
        intro pre s post heq _ later hlater
        exact hnothing later (by simp [heq, hlater])
      · rintro ⟨hafter, _⟩
        obtain ⟨s, hs, hlong⟩ := (Option.any_eq_true _ _).mp htruncates
        exact hafter s hs (of_decide_eq_true hlong)

theorem clean_bindResult (f : StringField) (cells : List (Option Bytes)) :
    (bindResult g f).Clean con g cells ↔ NothingAfterLong con (blen f.field + 1) cells := by
  rw [clean_kept (consistent_bindResult f) rfl, size_bindResult]

/-! ### All columns -/

section

variable {cols : Fin n → Column} {rows : List (Cells n)}

/-- Where nothing is written to a left block, a row is fetched column by column: where no cell was
truncated, none is fetched again. -/
theorem fetchRow_eq {cells : Cells n} (h : ∀ i, (cols i).Consistent)
    (hlive : ∀ i, (cols i).writesFreed con (cells i) = false) :
    fetchRow con g wild cols cells = fun i => (cols i).next con g (cells i) := by
  have hno : ¬ ∃ i, (cols i).writesFreed con (cells i) = true := by
    rintro ⟨i, hi⟩
    rw [hlive i] at hi
    cases hi
  unfold fetchRow
  dsimp only
  rw [if_neg hno]
  split_ifs with htruncated
  · rfl
  · funext i
    show (cols i).store con (cells i) = ((cols i).store con (cells i)).refetch con g (cells i)
    cases hcell : cells i with
    | none => exact refetch_store_null.symm
    | some s =>
      have hfits : ¬ (cols i).truncates (some s) = true := fun ht => htruncated ⟨i, hcell ▸ ht⟩
      have hle : s.length ≤ (cols i).copied.bufferLength :=
        Nat.le_of_not_lt fun hlong => hfits (decide_eq_true hlong)
      refine (refetch_store_of_le ?_).symm
      rw [(h i).bound]
      exact Nat.le_trans hle (h i).le

/-- A write to a left block that makes every cell NULL. -/
def lost (cols : Fin n → Column) (i : Fin n) : Column := { cols i with outIsNull := true }

theorem fetchRow_lost {cells : Cells n} {i : Fin n}
    (hfreed : (cols i).writesFreed con (cells i) = true) (j : Fin n) :
    fetchRow con g lost cols cells j = lost (fun i => (cols i).store con (cells i)) j := by
  have hexists : ∃ i, (cols i).writesFreed con (cells i) = true := ⟨i, hfreed⟩
  unfold fetchRow
  simp only [if_pos hexists]
  split_ifs
  · exact if_pos rfl
  · rfl

theorem rowOf_inj {name : Fin n → Bytes} {value value' : Fin n → Value w} :
    rowOf w name value = rowOf w name value' ↔ ∀ i, value i = value' i := by
  refine ⟨fun heq i => ?_, fun heq => ?_⟩
  · have hdata := congrArg Row.data heq
    simp only [rowOf, data_foldl_add, List.nil_append] at hdata
    have hcell := List.map_inj_left.mp hdata i (List.mem_finRange i)
    exact congrArg NamedValue.value hcell
  · rw [funext heq]

theorem info_store : (c.store con cell).info = c.info := by
  cases cell <;> rfl

theorem sentValue_ne_null {field : Option Field} (s : Bytes) :
    sentValue w field (some s) ≠ .null := by
  show stringValue w field s ≠ .null
  unfold stringValue
  split
  · split_ifs <;> exact fun h => by cases h
  · exact fun h => by cases h

/-- Rows that come back although a write to a left block would lose them come back without one. -/
theorem clean_of_sent {fields : Fin n → StringField} (h : ∀ i, (cols i).Consistent)
    (hinfo : ∀ i, (cols i).info = fields i)
    (hsent : fetchLoop con g lost w cols rows = rows.map (sentRow w fields)) :
    ∀ i, (cols i).Clean con g (rows.map (· i)) := by
  induction rows generalizing cols with
  | nil => exact fun _ => trivial
  | cons cells rest ih =>
    obtain ⟨hfirst, hlater⟩ := List.cons.inj hsent
    have hlive : ∀ i, (cols i).writesFreed con (cells i) = false := by
      intro i
      by_contra hfreed
      rw [Bool.not_eq_false] at hfreed
      obtain ⟨s, hs, _⟩ := (Option.any_eq_true _ _).mp (Bool.and_eq_true_iff.mp hfreed).2
      simp only [sentRow, fetchRow_lost hfreed, lost, info_store, hinfo, rowOf_inj] at hfirst
      have hnull := (hfirst i).symm.trans (rowValue_null rfl)
      rw [hs] at hnull
      exact sentValue_ne_null s hnull
    have hnext : ∀ i, Next con w (cols i) (cells i) ((cols i).next con g (cells i)) := fun i =>
      next_of_consistent (h i)
    rw [fetchRow_eq lost h hlive] at hlater
    have hrest := ih (fun i => (hnext i).consistent) (fun i => (hnext i).info.trans (hinfo i)) hlater
    exact fun i => ⟨hlive i, hrest i⟩

theorem sent_of_clean {fields : Fin n → StringField} (h : ∀ i, (cols i).Consistent)
    (hinfo : ∀ i, (cols i).info = fields i)
    (hclean : ∀ i, (cols i).Clean con g (rows.map (· i))) :
    fetchLoop con g wild w cols rows = rows.map (sentRow w fields) := by
  induction rows generalizing cols with
  | nil => rfl
  | cons cells rest ih =>
    have hnext : ∀ i, Next con w (cols i) (cells i) ((cols i).next con g (cells i)) := fun i =>
      next_of_consistent (h i)
    have hinfo' : ∀ i, ((cols i).next con g (cells i)).info = fields i := fun i =>
      (hnext i).info.trans (hinfo i)
    have hvalue : ∀ i, rowValue w (fields i).field ((cols i).next con g (cells i)).out =
        sentValue w (fields i).field (cells i) := by
      intro i
      rw [← hinfo i]
      exact (hnext i).value (hclean i).1
    show rowOf w _ _ :: fetchLoop con g wild w (fetchRow con g wild cols cells) rest = _ :: _
    rw [fetchRow_eq wild h fun i => (hclean i).1,
      ih (fun i => (hnext i).consistent) hinfo' fun i => (hclean i).2]
    simp only [sentRow, hinfo', hvalue]

end

/-- **When long cells are delivered.** The rows are as the server sent them, whatever a write to a
freed block does, exactly when in no column anything is written for a cell after one longer than its
buffer. -/
theorem long_cells_delivered_iff (con : Connector) (g : Buffer.Growth) (w : LongWidth)
    (fields : Fin n → StringField) (rows : List (Cells n)) :
    (∀ wild, RowsAsSent con g wild w fields rows) ↔
      ∀ i, NothingAfterLong con (blen (fields i).field + 1) (rows.map (· i)) := by
  have hcols : ∀ i, (bindResult g (fields i)).Consistent := fun i => consistent_bindResult _
  have hclean : (∀ wild, RowsAsSent con g wild w fields rows) ↔
      ∀ i, (bindResult g (fields i)).Clean con g (rows.map (· i)) :=
    ⟨fun hsent => clean_of_sent hcols (fun _ => rfl) (hsent lost),
      fun hclean wild => sent_of_clean wild hcols (fun _ => rfl) hclean⟩
  exact hclean.trans (forall_congr' fun i => clean_bindResult (fields i) _)

/-- A vector that at least doubles. -/
def doubling : Buffer.Growth := ⟨fun c n => max (2 * c) n, fun _ _ => Nat.le_max_right _ _, by simp⟩

/-- A connector that ends a cell with a zero where there is room. -/
def zeroEnded : Connector where
  written size s := s.take size ++ if s.length < size then [0] else []
  take_written size s := List.prefix_append _ _
  length_written size s := by
    rw [List.length_append, List.length_take]
    split_ifs
    · show min size s.length + 1 ≤ size
      omega
    · show min size s.length + 0 ≤ size
      omega

/-- A column declared with 3 characters. -/
def shortField : StringField := ⟨some ⟨ascii "s", .varString, false, 3, 33⟩, rfl⟩

/-- A long cell and a shorter one. -/
def shortAfterLong : List (Cells 1) := [fun _ => some (ascii "abcdefgh"), fun _ => some (ascii "xy")]

/-- After `abcdefgh` the cell `xy` comes back as `ab`, even if the write to the freed block does
nothing else. -/
theorem shorter_after_long :
    stmtRows zeroEnded doubling id .bits64 (fun _ => shortField) shortAfterLong =
        List.map (sentRow .bits64 fun _ : Fin 1 => shortField)
          [fun _ => some (ascii "abcdefgh"), fun _ => some (ascii "ab")] ∧
      ¬ RowsAsSent zeroEnded doubling id .bits64 (fun _ => shortField) shortAfterLong := by
  decide

end StormByteDatabase.MariaDB
