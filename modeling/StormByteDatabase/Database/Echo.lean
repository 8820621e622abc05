import StormByteDatabase.Database.Execute
import StormByteDatabase.Mariadb.StmtResult
import StormByteDatabase.Sqlite.RoundTrip

/-!
# Arguments that come back

A statement that returns its parameters, as `SELECT ?1, ..., ?k` does, gives one row. A call of
`Execute` binds its arguments and reads the row, so arguments come back when neither the way to the
driver nor the way from it changes them, whatever calls there were before.

`SQLite.sqlite_echo_iff`: the values of the row are the same as the arguments, in their order and under the
names of the columns, exactly when there are as many arguments as parameters and each is NULL, or is
accepted, is bound as what it stands for (`Bindable`) and has no number that is not one of `long int`.
`MariaDB.mariadb_echo_iff`: the same holds exactly when there are as many arguments as parameters, the array
of bindings is accepted, each argument is encodable, and the type of its column is read as what the
argument is.

Proof. On the way to the driver each parameter holds what its own argument left there. The row is then
looked at value by value.
-/

namespace StormByteDatabase

open Lib

variable {w : LongWidth}

/-- The result is one row with these columns and values that are the same as the arguments. -/
def EchoedRow (names : List Bytes) (args : List (Value w)) (result : ExpectedRows w) : Prop :=
  ∃ row, result = .ok [row] ∧ row.data.map NamedValue.name = names ∧
    List.Forall₂ Value.Same args (row.data.map NamedValue.value)

theorem echoedRow_iff {names : List Bytes} {args values : List (Value w)} {result : ExpectedRows w}
    {row : Row w} (hresult : result = .ok [row]) (hnames : row.data.map NamedValue.name = names)
    (hvalues : row.data.map NamedValue.value = values) :
    EchoedRow names args result ↔ List.Forall₂ Value.Same args values := by
  rw [← hvalues]
  constructor
  · rintro ⟨row', hrow', _, hsame⟩
    obtain rfl : row = row' := by simpa using Except.ok.inj (hresult.symm.trans hrow')
    exact hsame
  · exact fun hsame => ⟨row, hresult, hnames, hsame⟩

theorem forall₂_ofFn_iff {α β : Type} {R : α → β → Prop} {l : List α} {f : Fin l.length → β} :
    List.Forall₂ R l (List.ofFn f) ↔ ∀ i : Fin l.length, R l[i] (f i) := by
  rw [List.forall₂_iff_get, and_iff_right List.length_ofFn.symm]
  constructor
  · intro h i
    simpa using h i.val i.isLt (by simp)
  · intro h i hi hi'
    simpa using h ⟨i, hi⟩

/-! ### SQLite -/

namespace SQLite

/-- `SELECT ?1, ..., ?k` with these names for the columns. -/
def echo (names : List (Option Bytes)) (bindings : List Cell) : Steps :=
  ⟨[(names.zip bindings).map fun p => ⟨p.1, p.2⟩], .done⟩

/-- What the parameter of an argument holds. -/
def Argument.stored (a : Argument w) : Cell := a.cell.getD .null

/-- The argument comes back. -/
def Argument.Echoes (a : Argument w) : Prop :=
  a.value = .null ∨ a.refused = false ∧ Bindable a.value ∧
    ∀ n ∈ a.value.number, (Integral.num .longInt).InRange w n

theorem bindAll_new {args : List (Argument w)} {pre : List Cell} :
    (Stmt.bindAll pre.length args ⟨pre ++ List.replicate args.length .null⟩).bindings =
      pre ++ args.map Argument.stored := by
  induction args generalizing pre with
  | nil => simp [Stmt.bindAll]
  | cons a args ih =>
    have hbind : Stmt.bind ⟨pre ++ List.replicate (a :: args).length .null⟩ pre.length a =
        ⟨(pre ++ [a.stored]) ++ List.replicate args.length .null⟩ := by
      unfold Stmt.bind Argument.stored
      cases a.cell with
      | none => simp [List.replicate_succ]
      | some cell => simp [List.replicate_succ]
    have hlength : pre.length + 1 = (pre ++ [a.stored]).length := by simp
    rw [Stmt.bindAll, hbind, hlength, ih, List.append_assoc]
    rfl

theorem bindings_of_length {args : List (Argument w)} {k : Nat} (h : args.length = k) :
    ((Stmt.new k).reset.bindAll 0 args).bindings = args.map Argument.stored := by
  subst h
  have hreset : (Stmt.new args.length).reset = ⟨[] ++ List.replicate args.length .null⟩ := by
    simp [Stmt.reset, Stmt.new]
  rw [hreset]
  exact @bindAll_new w args []

theorem same_integer_iff {v : Value w} {n : Int} {m : Int64} (hv : v.number = some n)
    (hm : m.toInt = n ∨ (Integral.num .longInt).InRange w m.toInt) :
    v.Same (cellValue w (.integer m)) ↔
      Cell.Denotes (.integer m) v ∧ (Integral.num .longInt).InRange w n := by
  rw [same_of_number hv]
  show (intOrLong w m.toInt).number = some n ↔ v.number = some m.toInt ∧ _
  rw [hv, Option.some.injEq]
  constructor
  · intro hread
    rcases hm with rfl | hrange
    · exact ⟨rfl, number_intOrLong_iff.mp hread⟩
    · rw [number_intOrLong_iff.mpr hrange, Option.some.injEq] at hread
      exact ⟨hread.symm, hread ▸ hrange⟩
  · rintro ⟨rfl, hrange⟩
    exact number_intOrLong_iff.mpr hrange

theorem inRange_int (n : Num w .int) :
    (Integral.num .longInt).InRange w (Int64.ofInt n.val).toInt := by
  have hlimits : IntType.lowest w .longInt ≤ IntType.lowest w .int ∧
      IntType.max w .int ≤ IntType.max w .longInt := by
    cases w <;> decide
  rw [toInt_ofInt_int]
  exact ⟨hlimits.1.trans n.lower, n.upper.trans hlimits.2⟩

theorem cell_unsignedLong (n : Num w .unsignedLongInt) :
    (Int64.ofInt n.val).toInt = n.val ∨
      (Integral.num .longInt).InRange w (Int64.ofInt n.val).toInt := by
  have hlo : 0 ≤ n.val := n.lower
  cases w with
  | bits32 =>
    have hhi : n.val ≤ 2 ^ 32 - 1 := n.upper
    exact .inl (toInt_ofInt_iff.mpr (by omega))
  | bits64 =>
    have hword := (Int64.ofInt n.val).le_toInt
    exact .inr ⟨hword, Int.le_sub_one_of_lt (Int64.ofInt n.val).toInt_lt⟩

theorem cell_of_number {v : Value w} {n : Int} (hv : v.number = some n) :
    ∃ m : Int64, (binder v).cell = some (.integer m) ∧
      (m.toInt = n ∨ (Integral.num .longInt).InRange w m.toInt) := by
  cases v with
  | integer x => exact ⟨_, rfl, .inr (inRange_int x)⟩
  | unsignedInteger x => exact ⟨_, rfl, .inr (inRange_int _)⟩
  | longInteger x =>
    obtain rfl := Option.some.inj hv
    exact ⟨_, rfl, .inl (toInt_ofInt_iff.mpr x.longInt_bounds)⟩
  | unsignedLongInteger x =>
    obtain rfl := Option.some.inj hv
    exact ⟨_, rfl, cell_unsignedLong x⟩
  | boolean b => exact ⟨_, rfl, .inr (inRange_int _)⟩
  | null | double | text | blob => cases hv

theorem same_other_iff {v : Value w} (hv : v.number = none) :
    v.Same (cellValue w (stored v)) ↔ Bindable v := by
  rw [same_of_no_number hv]
  cases v with
  | null => exact iff_of_true rfl trivial
  | double x =>
    show cellValue w (if x.IsNaN then .null else .float x) = .double x ↔ ¬ x.IsNaN
    split_ifs with hnan
    · exact iff_of_false (fun h => by cases h) (not_not.mpr hnan)
    · exact iff_of_true rfl hnan
  | text s =>
    have hread : cString (cString s) = cString s := cString_eq_self_iff.mpr (zero_not_mem_cString s)
    show Value.text (cString (cString s)) = .text s ↔ 0 ∉ s
    rw [hread, Value.text.injEq, cString_eq_self_iff]
  | blob b => exact readsBack_iff.symm.trans (readsBack_blob_iff none b)
  | integer | unsignedInteger | longInteger | unsignedLongInteger | boolean => cases hv

theorem same_stored_iff (a : Argument w) :
    a.value.Same (cellValue w a.stored) ↔ a.Echoes := by
  unfold Argument.stored Argument.cell Argument.Echoes
  cases hrefused : a.refused with
  | true =>
    rw [if_pos rfl]
    refine same_null_iff.trans (or_iff_left ?_).symm
    exact fun h => absurd h.1 (by decide)
  | false =>
    rw [if_neg (by decide), and_iff_right rfl]
    have hnull : a.value = .null → Bindable a.value ∧
        ∀ n ∈ a.value.number, (Integral.num .longInt).InRange w n := by
      intro h
      rw [h]
      exact ⟨trivial, fun n hn => by cases hn⟩
    rw [or_iff_right_of_imp hnull]
    cases hnumber : a.value.number with
    | some n =>
      obtain ⟨m, hcell, hm⟩ := cell_of_number hnumber
      rw [hcell, Option.getD_some, same_integer_iff hnumber hm, ← exists_cell_denotes_iff,
        denotes_of_cell hcell]
      simp
    | none =>
      refine (same_other_iff hnumber).trans (and_iff_left ?_).symm
      exact fun n hn => by cases hn

theorem echoedRow_echo_iff {names : List (Option Bytes)} {bindings : List Cell}
    {args : List (Value w)} (h : bindings.length = names.length) :
    EchoedRow (names.map (·.getD [])) args (stepResults w (some (echo names bindings))) ↔
      List.Forall₂ Value.Same args (bindings.map (cellValue w)) := by
  have hresult : stepResults w (some (echo names bindings)) =
      .ok [stepRow w ((names.zip bindings).map fun p => ⟨p.1, p.2⟩)] := rfl
  apply echoedRow_iff hresult
  · rw [stepRow_data, List.map_map, List.map_map]
    show (names.zip bindings).map ((·.getD []) ∘ Prod.fst) = _
    rw [← List.map_map, List.map_fst_zip (Nat.le_of_eq h.symm)]
  · rw [stepRow_data, List.map_map, List.map_map]
    show (names.zip bindings).map (cellValue w ∘ Prod.snd) = _
    rw [← List.map_map, List.map_snd_zip (Nat.le_of_eq h)]

/-- **Arguments returned by SQLite.** After any history of calls on a statement that returns its
parameters, the row has the arguments exactly when there is one for each parameter and each comes
back. -/
theorem sqlite_echo_iff (w : LongWidth) (names : List (Option Bytes)) (history : List (Call w))
    (args : List (Argument w)) :
    EchoedRow (names.map (·.getD [])) (args.map Argument.value)
        (execute ⟨args, echo names⟩ (after history (.new names.length))).2.result ↔
      args.length = names.length ∧ ∀ a ∈ args, a.Echoes := by
  have hlength : ((Stmt.new names.length).reset.bindAll 0 args).bindings.length = names.length := by
    rw [length_bindAll]
    simp [Stmt.reset, Stmt.new]
  rw [after_new]
  show EchoedRow _ _ (stepResults w (some (echo names _))) ↔ _
  rw [echoedRow_echo_iff hlength]
  by_cases hcount : args.length = names.length
  · rw [and_iff_right hcount, bindings_of_length hcount, List.forall₂_map_left_iff, List.map_map,
      List.forall₂_map_right_iff, List.forall₂_same]
    exact forall₂_congr fun a _ => same_stored_iff a
  · refine iff_of_false (fun hsame => hcount ?_) fun hexact => hcount hexact.1
    have heq := hsame.length_eq
    rwa [List.length_map, List.length_map, hlength] at heq

end SQLite

/-! ### MariaDB -/

namespace MariaDB

/-- A call of `Execute` where the answer depends on the parameters. -/
def executeWith (respond : List (Option MysqlBind) → ExpectedRows w) (args : List (Value w))
    (bindError : Option Bytes) (s : Stmt) : ExpectedRows w :=
  let e := (execute ⟨args, bindError, .ok []⟩ s).2
  match e.ran with
  | some params => respond params
  | none => e.result

/-- A parameter that the server sends back. -/
def Param.cell : Param → Cell
  | .null => .null
  | .integer n => .integer n
  | .real x => .real x
  | .bytes s => .bytes s

/-- The cell for an entry of the array, NULL where the connector finds none. -/
def entryCell (entry : Option MysqlBind) : Cell :=
  match entry.bind MysqlBind.denotes with
  | some p => p.cell
  | none => .null

/-- `SELECT ?, ..., ?` with columns of these fields. -/
def echo (con : Connector) (g : Buffer.Growth) (raw : Cell → Bytes)
    (wild : ∀ n, (Fin n → Output) → Fin n → Output) {k : Nat} (fields : Fin k → Option Field)
    (params : List (Option MysqlBind)) : ExpectedRows w :=
  doExecuteResult con g raw w wild (.result k fields none none
    (fetchesOf [(fun i => entryCell (params.getD i.val none), false)]))

/-- The type of the column is read as what the value is. -/
def ReadAs (field : Option Field) (v : Value w) : Prop :=
  match v with
  | .null | .double _ => True
  | .text _ => fieldType field = .blob → isBinary field = false
  | .blob _ => fieldType field = .blob ∧ isBinary field = true
  | v => bindKind field ≠ .outStr ∧
      (bindKind field = .outBool → v.number = some 0 ∨ v.number = some 1)

section

variable {k : Nat} {fields : Fin k → Option Field} {con : Connector} {g : Buffer.Growth}
  {raw : Cell → Bytes} {wild : ∀ n, (Fin n → Output) → Fin n → Output}

/-! What is sent. -/

theorem params_of_length {args : List (Value w)} (s : Stmt) (h : args.length = s.paramCount) :
    (s.bindParam (args.map bindEntry)).params = some (args.map fun v => some (bindEntry v)) := by
  have hread := map_range_getElem? (args.map bindEntry)
  rw [List.length_map, h, List.map_map] at hread
  unfold Stmt.params Stmt.bindParam
  dsimp only
  split_ifs with hzero
  · rw [List.length_eq_zero_iff.mp (h.trans hzero)]
    rfl
  · rw [hread]
    rfl

theorem ofValue_number {v : Value w} {n : Int} (hv : v.number = some n) :
    Param.ofValue v = .integer n := by
  cases v with
  | integer x | unsignedInteger x | longInteger x | unsignedLongInteger x | boolean x =>
    exact congrArg Param.integer (Option.some.inj hv)
  | null | double | text | blob => cases hv

theorem entryCell_number {v : Value w} {n : Int} (hv : v.number = some n) :
    ∃ m, entryCell (some (bindEntry v)) = .integer m ∧ (m = n ↔ Encodable v) := by
  have hsent : ∃ m, (bindEntry v).denotes = some (.integer m) := by
    cases v with
    | integer | unsignedInteger | longInteger | unsignedLongInteger | boolean => exact ⟨_, rfl⟩
    | null | double | text | blob => cases hv
  obtain ⟨m, hm⟩ := hsent
  refine ⟨m, ?_, ?_⟩
  · unfold entryCell
    rw [Option.bind_some, hm]
    rfl
  · rw [← denotes_bindEntry_iff, hm, ofValue_number hv, Option.some.injEq, Param.integer.injEq]

theorem encodable_of_lt {v : Value w} {n : Int} (hv : v.number = some n) (hn : n < 2 ^ 31) :
    Encodable v := by
  cases v with
  | unsignedInteger x =>
    obtain rfl := Option.some.inj hv
    exact hn
  | unsignedLongInteger x =>
    obtain rfl := Option.some.inj hv
    show x.val < 2 ^ 63
    omega
  | integer | longInteger | boolean => trivial
  | null | double | text | blob => cases hv

theorem entryCell_bytes {v : Value w} {s : Bytes} (hv : v = .text s ∨ v = .blob s) :
    ∃ s', entryCell (some (bindEntry v)) = .bytes s' ∧ (s' = s ↔ Encodable v) := by
  have hsent : ∃ s', (bindEntry v).denotes = some (.bytes s') := by
    rcases hv with rfl | rfl <;> exact ⟨_, rfl⟩
  have hvalue : Param.ofValue v = .bytes s := by
    rcases hv with rfl | rfl <;> rfl
  obtain ⟨s', hs'⟩ := hsent
  refine ⟨s', ?_, ?_⟩
  · unfold entryCell
    rw [Option.bind_some, hs']
    rfl
  · rw [← denotes_bindEntry_iff, hs', hvalue, Option.some.injEq, Param.bytes.injEq]

/-! What is read. -/

theorem number_stringValue (field : Option Field) (s : Bytes) :
    (stringValue w field s).number = none := by
  unfold stringValue
  split
  · split_ifs <;> rfl
  · rfl

theorem same_number_iff {field : Option Field} {v : Value .bits64} {n m : Int}
    (hv : v.number = some n) (hm : m = n ↔ Encodable v) (hcell : CellOf field (.integer m)) :
    v.Same (sentCell .bits64 field (.integer m)) ↔ Encodable v ∧
      bindKind field ≠ .outStr ∧ (bindKind field = .outBool → n = 0 ∨ n = 1) := by
  rw [same_of_number hv]
  by_cases hstr : bindKind field = .outStr
  · have hnone : (sentCell .bits64 field (.integer m)).number = none := by
      simp only [sentCell, hstr, number_stringValue]
    rw [hnone]
    exact iff_of_false (fun h => by cases h) fun h => h.2.1 hstr
  · rw [and_iff_right hstr]
    by_cases hbool : bindKind field = .outBool
    · have hread : (sentCell .bits64 field (.integer m)).number =
          some (if m = 0 then 0 else 1) := by
        simp only [sentCell, hbool]
        by_cases hzero : m = 0 <;> simp [Value.number, hzero]
      rw [hread, Option.some.injEq, ← hm]
      constructor
      · intro hn
        have hsmall : n < 2 ^ 31 := by split_ifs at hn <;> omega
        have hsame : m = n := hm.mpr (encodable_of_lt hv hsmall)
        exact ⟨hsame, fun _ => by split_ifs at hn <;> omega⟩
      · rintro ⟨rfl, hbit⟩
        rcases hbit hbool with rfl | rfl <;> rfl
    · rw [number_sentCell hcell hstr hbool, Option.some.injEq, hm]
      exact (and_iff_left fun h => absurd h hbool).symm

theorem readAs_number {field : Option Field} {v : Value w} {n : Int} (hv : v.number = some n) :
    ReadAs field v ↔ bindKind field ≠ .outStr ∧ (bindKind field = .outBool → n = 0 ∨ n = 1) := by
  have hiff : v.number = some 0 ∨ v.number = some 1 ↔ n = 0 ∨ n = 1 := by
    rw [hv, Option.some.injEq, Option.some.injEq]
  rw [← hiff]
  cases v with
  | integer | unsignedInteger | longInteger | unsignedLongInteger | boolean => exact Iff.rfl
  | null | double | text | blob => cases hv

theorem stringValue_eq_text_iff {field : Option Field} {s s' : Bytes} :
    stringValue w field s' = .text s ↔
      s' = s ∧ (fieldType field = .blob → isBinary field = false) := by
  unfold stringValue
  split
  · rename_i ht
    cases hbinary : isBinary field <;> simp [ht]
  · rename_i ht
    rw [Value.text.injEq]
    exact (and_iff_left fun hblob => absurd hblob ht).symm

theorem stringValue_eq_blob_iff {field : Option Field} {s s' : Bytes} :
    stringValue w field s' = .blob s ↔
      s' = s ∧ fieldType field = .blob ∧ isBinary field = true := by
  unfold stringValue
  split
  · rename_i ht
    cases hbinary : isBinary field <;> simp [ht]
  · rename_i ht
    exact iff_of_false (fun h => by cases h) fun h => ht h.2.1

/-- The value read for an argument is the same exactly when that is encodable and its column is read
as what it is. -/
theorem same_entryCell_iff {field : Option Field} {v : Value .bits64}
    (hcell : CellOf field (entryCell (some (bindEntry v)))) :
    v.Same (sentCell .bits64 field (entryCell (some (bindEntry v)))) ↔
      Encodable v ∧ ReadAs field v := by
  cases hnumber : v.number with
  | some n =>
    obtain ⟨m, hm, hiff⟩ := @entryCell_number .bits64 v n hnumber
    rw [hm] at hcell ⊢
    rw [same_number_iff hnumber hiff hcell, readAs_number hnumber]
  | none =>
    rw [same_of_no_number hnumber]
    cases v with
    | null => exact iff_of_true rfl ⟨trivial, trivial⟩
    | double x => exact iff_of_true rfl ⟨trivial, trivial⟩
    | text s =>
      obtain ⟨s', hs', hiff⟩ := @entryCell_bytes .bits64 (.text s) s (.inl rfl)
      rw [hs', ← hiff]
      exact stringValue_eq_text_iff
    | blob s =>
      obtain ⟨s', hs', hiff⟩ := @entryCell_bytes .bits64 (.blob s) s (.inr rfl)
      rw [hs', ← hiff]
      exact stringValue_eq_blob_iff
    | integer | unsignedInteger | longInteger | unsignedLongInteger | boolean => cases hnumber

/-! The row. -/

theorem data_rowOf (name : Fin k → Bytes) (value : Fin k → Value w) :
    (rowOf w name value).data = List.ofFn fun i => ⟨name i, value i⟩ := by
  unfold rowOf
  rw [data_foldl_add, List.nil_append, List.ofFn_eq_map]

theorem length_data_fetchAll {n : Nat} {wild : (Fin n → Output) → Fin n → Output}
    {cols : Fin n → Output} {fetches : List (FetchAnswer n)} {rows : Rows w}
    (hok : fetchAll con g raw wild w cols fetches = .ok rows) :
    ∀ row ∈ rows, row.data.length = n := by
  induction fetches generalizing cols rows with
  | nil =>
    obtain rfl := Except.ok.inj hok
    exact fun row hrow => absurd hrow List.not_mem_nil
  | cons f rest ih =>
    cases f with
    | failed error => cases hok
    | row cells reported columnError =>
      unfold fetchAll at hok
      split at hok
      · cases hok
      · obtain ⟨later, hlater, rfl⟩ := exists_of_map_ok hok
        rw [List.forall_mem_cons]
        refine ⟨?_, ih hlater⟩
        rw [outputRow, data_rowOf, List.length_ofFn]

/-- A single row comes back as it was sent. -/
theorem echo_eq {params : List (Option MysqlBind)}
    (h : ∀ i, CellOf (fields i) (entryCell (params.getD i.val none))) :
    echo con g raw wild fields params = .ok [rowOf w (fun i => fieldName (fields i))
      fun i => sentCell w (fields i) (entryCell (params.getD i.val none))] :=
  fetchAll_fetchesOf con g raw (wild k) w (by simpa using h) fun _ _ => nothingAfterLong_single _ _

theorem result_of_ran_none {c : Call w} {s : Stmt} (h : (execute c s).2.ran = none) :
    ∃ error, (execute c s).2.result = .error error := by
  have hrun : ∀ (s' : Stmt), (s'.run c.answer).ran = none →
      ∃ error, (s'.run c.answer).result = .error error := by
    intro s' hran
    unfold Stmt.run at hran ⊢
    cases hparams : s'.params with
    | none => exact ⟨_, rfl⟩
    | some params =>
      rw [hparams] at hran
      cases hran
  by_cases hargs : c.args = []
  · rw [execute_of_nil hargs] at h ⊢
    exact hrun s h
  · cases herror : c.bindError with
    | some text =>
      rw [execute_of_refused hargs herror]
      exact ⟨_, rfl⟩
    | none =>
      rw [execute_of_binds ⟨hargs, herror⟩] at h ⊢
      exact hrun _ h

theorem length_data_executeWith {args : List (Value w)} {bindError : Option Bytes} {s : Stmt}
    {rows : Rows w} (hok : executeWith (echo con g raw wild fields) args bindError s = .ok rows) :
    ∀ row ∈ rows, row.data.length = k := by
  unfold executeWith at hok
  cases hran : (execute ⟨args, bindError, .ok []⟩ s).2.ran with
  | some params =>
    simp only [hran] at hok
    exact length_data_fetchAll hok
  | none =>
    simp only [hran] at hok
    obtain ⟨error, herror⟩ := result_of_ran_none hran
    rw [herror] at hok
    cases hok

theorem executeWith_of_length {respond : List (Option MysqlBind) → ExpectedRows w}
    {args : List (Value w)} {bindError : Option Bytes} {s : Stmt} (hcount : args.length = s.paramCount)
    (hbind : args = [] ∨ bindError = none) :
    executeWith respond args bindError s = respond (args.map fun v => some (bindEntry v)) := by
  unfold executeWith
  by_cases hargs : args = []
  · have hparams : s.params = some [] := if_pos (by rw [← hcount, hargs, List.length_nil])
    rw [execute_of_nil (c := ⟨args, bindError, .ok []⟩) hargs, run_of_params hparams, hargs]
    rfl
  · have hbinds : Call.Binds ⟨args, bindError, .ok []⟩ := ⟨hargs, hbind.resolve_left hargs⟩
    rw [execute_of_binds hbinds, run_of_params (params_of_length s hcount)]

theorem executeWith_of_refused {respond : List (Option MysqlBind) → ExpectedRows w}
    {args : List (Value w)} {bindError : Option Bytes} (s : Stmt)
    (hbind : ¬ (args = [] ∨ bindError = none)) :
    ∃ error, executeWith respond args bindError s = .error error := by
  obtain ⟨hargs, herror⟩ := not_or.mp hbind
  obtain ⟨text, rfl⟩ := Option.ne_none_iff_exists'.mp herror
  refine ⟨.executeError text, ?_⟩
  unfold executeWith
  rw [execute_of_refused (c := ⟨args, some text, .ok []⟩) hargs rfl]

end

/-- **Arguments returned by MariaDB.** After any history of calls on a statement that returns its
parameters in columns of which each can hold what its entry denotes, the row has the arguments exactly
when there is one for each parameter, the array is accepted, and each argument is encodable and of
what its column is read as. -/
theorem mariadb_echo_iff (con : Connector) (g : Buffer.Growth) (raw : Cell → Bytes)
    (wild : ∀ n, (Fin n → Output) → Fin n → Output) {k : Nat} (fields : Fin k → Option Field)
    (history : List (Call .bits64)) (args : List (Value .bits64)) (bindError : Option Bytes)
    (hstored : ∀ (i : Fin k) (v : Value .bits64), args[i.val]? = some v →
      CellOf (fields i) (entryCell (some (bindEntry v)))) :
    EchoedRow (List.ofFn fun i => fieldName (fields i)) args
        (executeWith (echo con g raw wild fields) args bindError (after history (.new k))) ↔
      args.length = k ∧ (args = [] ∨ bindError = none) ∧
        ∀ (i : Fin k) (v : Value .bits64), args[i.val]? = some v →
          Encodable v ∧ ReadAs (fields i) v := by
  have hparamCount : (after history (.new k)).paramCount = k := (after_stmt history (.new k)).1
  by_cases hcount : args.length = k
  · by_cases hbind : args = [] ∨ bindError = none
    · rw [and_iff_right hcount, and_iff_right hbind,
        executeWith_of_length (hcount.trans hparamCount.symm) hbind]
      subst hcount
      have hentry : ∀ i : Fin args.length,
          (args.map fun v => some (bindEntry v)).getD i.val none = some (bindEntry args[i]) := by
        intro i
        simp
      have hcell : ∀ i : Fin args.length, CellOf (fields i)
          (entryCell ((args.map fun v => some (bindEntry v)).getD i.val none)) := by
        intro i
        rw [hentry i]
        exact hstored i args[i] (by simp)
      have hsame : ∀ i : Fin args.length, args[i].Same (sentCell .bits64 (fields i)
          (entryCell ((args.map fun v => some (bindEntry v)).getD i.val none))) ↔
            Encodable args[i] ∧ ReadAs (fields i) args[i] := by
        intro i
        rw [hentry i]
        exact same_entryCell_iff (hstored i args[i] (by simp))
      rw [echoedRow_iff (echo_eq hcell) (by rw [data_rowOf, List.map_ofFn]; rfl)
        (by rw [data_rowOf, List.map_ofFn])]
      refine forall₂_ofFn_iff.trans (forall_congr' fun i => (hsame i).trans ?_)
      refine ⟨fun h v hv => ?_, fun h => h args[i] (by simp)⟩
      obtain rfl : args[i] = v := by simpa using hv
      exact h
    · obtain ⟨error, herror⟩ := @executeWith_of_refused _ (echo con g raw wild fields) args bindError
        (after history (.new k)) hbind
      refine iff_of_false ?_ fun hexact => hbind hexact.2.1
      rintro ⟨row, hrow, _⟩
      rw [herror] at hrow
      cases hrow
  · refine iff_of_false ?_ fun hexact => hcount hexact.1
    rintro ⟨row, hrow, _, hsame⟩
    have hlength : row.data.length = k := length_data_executeWith hrow row List.mem_cons_self
    have heq := hsame.length_eq
    rw [List.length_map, hlength] at heq
    exact hcount heq

/-- A number and a text that come back after a call with a blob for the text. -/
def mixedArgs : List (Value .bits64) := [.integer ⟨-8, by decide, by decide⟩, .text (ascii "abc")]

def mixedHistory : List (Call .bits64) := [⟨[.null, .blob [0]], none, .ok []⟩]

theorem mixedArgs_stored (i : Fin 2) (v : Value .bits64) (hv : mixedArgs[i.val]? = some v) :
    CellOf (mixedFields i) (entryCell (some (bindEntry v))) := by
  match i with
  | 0 =>
    obtain rfl := Option.some.inj hv
    have hrange : InColumn 32 false (-8) := by
      rw [InColumn, if_neg (by decide)]
      decide
    exact ⟨32, rfl, hrange⟩
  | 1 =>
    obtain rfl := Option.some.inj hv
    exact ⟨rfl, by decide, by decide⟩

theorem mariadb_echo_mixed :
    EchoedRow [ascii "n", ascii "s"] mixedArgs
      (executeWith (echo zeroEnded doubling (fun _ => []) (fun _ => lostOutputs) mixedFields) mixedArgs none
        (after mixedHistory (.new 2))) := by
  apply (mariadb_echo_iff zeroEnded doubling (fun _ => []) (fun _ => lostOutputs) mixedFields
    mixedHistory mixedArgs none mixedArgs_stored).mpr
  refine ⟨rfl, .inr rfl, fun i v hv => ?_⟩
  match i with
  | 0 =>
    obtain rfl := Option.some.inj hv
    exact ⟨trivial, by decide, fun h => absurd h (by decide)⟩
  | 1 =>
    obtain rfl := Option.some.inj hv
    have hencodable : (ascii "abc").length < 2 ^ 64 := by decide
    exact ⟨hencodable, fun h => absurd h (by decide)⟩

end MariaDB

end StormByteDatabase
