import Mathlib.Data.List.Forall2
import StormByteDatabase.Mariadb.PreparedStmt
import StormByteDatabase.Sqlite.PreparedStmt

/-!
# The arguments of one call of `Execute`

`Execute` resets the statement, binds its arguments one after the other, executes and resets again.
`Execution.Uses` says what a call owes its caller: the driver executes the statement with parameters
that denote the arguments, or, where their number is not that of the parameters or the driver refuses
one, the call fails and the statement is not executed.

`execute_uses_arguments_iff`, after any history of calls: SQLite keeps to this exactly when the number
is right, no argument is refused, since no return code of a bind is looked at, and each is bound as
what it stands for; MariaDB keeps to it exactly when the number is right and the array denotes the
arguments, when the connector refuses the array, or when nothing is passed and nothing was ever
bound, since an empty list is not bound at all and leaves what was bound before.

Proof. SQLite clears the bindings in each reset, so a history leaves nothing. In the MariaDB connector
it leaves whether anything was bound (`after_stmt`).
-/

namespace StormByteDatabase

variable {w : LongWidth} {π : Type}

/-- What one call of `Execute` does: the parameters the driver executes the statement with, if it
does, and what is returned. -/
structure Execution (π : Type) (w : LongWidth) where
  ran : Option (List π)
  result : ExpectedRows w

/-- The statement is executed with parameters that denote these values; with `none`, it is not and
the call fails. -/
def Execution.Uses (e : Execution π w) (denotes : π → Value w → Prop) :
    Option (List (Value w)) → Prop
  | some args => ∃ params, e.ran = some params ∧ List.Forall₂ denotes params args
  | none => e.ran = none ∧ ∃ error, e.result = .error error

/-! ### SQLite -/

namespace SQLite

/-- An argument; `refused` says whether SQLite refuses it, for want of memory or for its size. -/
structure Argument (w : LongWidth) where
  value : Value w
  refused : Bool

/-- What is bound for an argument, if it is accepted. -/
def Argument.cell (a : Argument w) : Option Cell :=
  if a.refused then none else (binder a.value).cell

/-- `sqlite3_stmt`, by what is bound to its parameters. -/
structure Stmt where
  bindings : List Cell

/-- A new statement has nothing bound to its `k` parameters. -/
def Stmt.new (k : Nat) : Stmt := ⟨List.replicate k .null⟩

/-- `sqlite3_clear_bindings`, in `Reset`. -/
def Stmt.reset (s : Stmt) : Stmt := .new s.bindings.length

/-- `Binder`. An index beyond the parameters changes nothing, and neither does a refused value. -/
def Stmt.bind (s : Stmt) (index : Nat) (a : Argument w) : Stmt :=
  match a.cell with
  | some cell => ⟨s.bindings.set index cell⟩
  | none => s

def Stmt.bindAll : Nat → List (Argument w) → Stmt → Stmt
  | _, [], s => s
  | index, a :: args, s => bindAll (index + 1) args (s.bind index a)

/-- A call of `Execute`, with what the database gives for the parameters. -/
structure Call (w : LongWidth) where
  args : List (Argument w)
  steps : List Cell → Steps

def execute (c : Call w) (s : Stmt) : Stmt × Execution Cell w :=
  let s := s.reset.bindAll 0 c.args
  (s.reset, ⟨some s.bindings, stepResults w (some (c.steps s.bindings))⟩)

/-- The statement after the calls. -/
def after (history : List (Call w)) (s : Stmt) : Stmt :=
  history.foldl (fun s c => (execute c s).1) s

/-- SQLite refuses none of the arguments. -/
def Accepted (args : List (Argument w)) : Prop := ∀ a ∈ args, a.cell.isSome

instance (args : List (Argument w)) : Decidable (Accepted args) := List.decidableBAll _ args

/-- What a statement with `k` placeholders is to be executed with. -/
def expected (k : Nat) (args : List (Argument w)) : Option (List (Value w)) :=
  if args.length = k ∧ Accepted args then some (args.map Argument.value) else none

theorem length_bind (s : Stmt) (index : Nat) (a : Argument w) :
    (s.bind index a).bindings.length = s.bindings.length := by
  unfold Stmt.bind
  split
  · exact List.length_set
  · rfl

theorem length_bindAll (args : List (Argument w)) (index : Nat) (s : Stmt) :
    (s.bindAll index args).bindings.length = s.bindings.length := by
  induction args generalizing index s with
  | nil => rfl
  | cons a args ih => rw [Stmt.bindAll, ih, length_bind]

theorem execute_new (c : Call w) (k : Nat) : (execute c (.new k)).1 = .new k := by
  have hlength : ((Stmt.new k).reset.bindAll 0 c.args).bindings.length = k := by
    rw [length_bindAll]
    simp [Stmt.reset, Stmt.new]
  exact congrArg Stmt.new hlength

theorem after_new (history : List (Call w)) (k : Nat) : after history (.new k) = .new k := by
  induction history with
  | nil => rfl
  | cons c history ih =>
    rw [after, List.foldl_cons, execute_new]
    exact ih

theorem bindAll_of_accepted {args : List (Argument w)} {pre post : List Cell}
    (haccepted : Accepted args) (hpost : post.length = args.length) :
    (Stmt.bindAll pre.length args ⟨pre ++ post⟩).bindings = pre ++ args.filterMap Argument.cell := by
  induction args generalizing pre post with
  | nil => simp [Stmt.bindAll, List.length_eq_zero_iff.mp hpost]
  | cons a args ih =>
    obtain ⟨cell, hcell⟩ := Option.isSome_iff_exists.mp (haccepted a List.mem_cons_self)
    obtain ⟨p, post, rfl⟩ := List.exists_cons_of_length_eq_add_one hpost
    have hbind : Stmt.bind ⟨pre ++ p :: post⟩ pre.length a = ⟨(pre ++ [cell]) ++ post⟩ := by
      simp [Stmt.bind, hcell]
    have hlength : pre.length + 1 = (pre ++ [cell]).length := by simp
    have hrest : Accepted args := fun b hb => haccepted b (List.mem_cons_of_mem a hb)
    rw [Stmt.bindAll, hbind, hlength, ih hrest (Nat.succ.inj hpost), List.filterMap_cons_some hcell,
      List.append_assoc]
    rfl

theorem Argument.denotes_iff (a : Argument w) :
    (∃ cell ∈ a.cell, cell.Denotes a.value) ↔ a.refused = false ∧ Bindable a.value := by
  rw [← exists_cell_denotes_iff, Argument.cell]
  cases a.refused <;> simp

theorem accepted_of_denotes {args : List (Argument w)}
    (h : ∀ a ∈ args, a.refused = false ∧ Bindable a.value) : Accepted args := by
  intro a ha
  obtain ⟨cell, hcell, _⟩ := a.denotes_iff.mpr (h a ha)
  exact Option.isSome_iff_exists.mpr ⟨cell, hcell⟩

theorem forall₂_denotes_iff {args : List (Argument w)} (haccepted : Accepted args) :
    List.Forall₂ Cell.Denotes (args.filterMap Argument.cell) (args.map Argument.value) ↔
      ∀ a ∈ args, a.refused = false ∧ Bindable a.value := by
  induction args with
  | nil => simp
  | cons a args ih =>
    obtain ⟨cell, hcell⟩ := Option.isSome_iff_exists.mp (haccepted a List.mem_cons_self)
    have hrest : Accepted args := fun b hb => haccepted b (List.mem_cons_of_mem a hb)
    have hhead : (∃ cell ∈ a.cell, cell.Denotes a.value) ↔ cell.Denotes a.value := by simp [hcell]
    rw [List.filterMap_cons_some hcell, List.map_cons, List.forall₂_cons, ih hrest, ← hhead,
      a.denotes_iff, List.forall_mem_cons]

theorem execute_uses_iff (c : Call w) (k : Nat) :
    (execute c (.new k)).2.Uses Cell.Denotes (expected k c.args) ↔
      c.args.length = k ∧ ∀ a ∈ c.args, a.refused = false ∧ Bindable a.value := by
  unfold expected
  split_ifs with h
  · have hlength : (List.replicate k Cell.null).length = c.args.length := by simp [h.1]
    have hreset : (Stmt.new k).reset = ⟨[] ++ List.replicate k .null⟩ := by
      simp [Stmt.reset, Stmt.new]
    have hran : (execute c (.new k)).2.ran = some (c.args.filterMap Argument.cell) := by
      show some ((Stmt.new k).reset.bindAll 0 c.args).bindings = _
      rw [hreset, ← List.length_nil (α := Cell), bindAll_of_accepted h.2 hlength, List.nil_append]
    rw [and_iff_right h.1, ← forall₂_denotes_iff h.2]
    simp [Execution.Uses, hran]
  · refine iff_of_false (fun huses => by cases huses.1) fun hexact => h ⟨hexact.1, ?_⟩
    exact accepted_of_denotes hexact.2

end SQLite

/-! ### MariaDB -/

namespace MariaDB

/-- `MYSQL_STMT`: the number of its parameters and the entries last bound, where an entry is `none`
if it lies behind the end of the array. -/
structure Stmt where
  paramCount : Nat
  bound : Option (List (Option MysqlBind))

def Stmt.new (k : Nat) : Stmt := ⟨k, none⟩

/-- `mysql_stmt_bind_param`, which reads an entry for each parameter. -/
def Stmt.bindParam (s : Stmt) (bindIn : List MysqlBind) : Stmt :=
  { s with bound := some ((List.range s.paramCount).map fun i => bindIn[i]?) }

/-- The parameters of `mysql_stmt_execute`, which refuses a statement with parameters to which
nothing was ever bound. -/
def Stmt.params (s : Stmt) : Option (List (Option MysqlBind)) :=
  if s.paramCount = 0 then some [] else s.bound

/-- A call of `Execute`, with the error of binding the array, should that be done and refused, and
with what is returned once the statement was executed. -/
structure Call (w : LongWidth) where
  args : List (Value w)
  bindError : Option Bytes
  answer : ExpectedRows w

/-- `DoExecute` from `mysql_stmt_execute` on. -/
def Stmt.run (s : Stmt) (answer : ExpectedRows w) : Execution (Option MysqlBind) w :=
  match s.params with
  | some params => ⟨some params, answer⟩
  | none => ⟨none, .error (.executeError (ascii "No data supplied for parameters in prepared statement"))⟩

def execute (c : Call w) (s : Stmt) : Stmt × Execution (Option MysqlBind) w :=
  let bindIn := bindIn (bindAll 0 c.args [])
  if bindIn = [] then (s, s.run c.answer)
  else
    match c.bindError with
    | some text => (s, ⟨none, .error (.executeError text)⟩)
    | none => (s.bindParam bindIn, (s.bindParam bindIn).run c.answer)

def after (history : List (Call w)) (s : Stmt) : Stmt :=
  history.foldl (fun s c => (execute c s).1) s

/-- The array of the call is bound. -/
def Call.Binds (c : Call w) : Prop := c.args ≠ [] ∧ c.bindError = none

/-- An entry that the connector reads as the value. -/
def Denotes (entry : Option MysqlBind) (v : Value w) : Prop :=
  entry.bind MysqlBind.denotes = some (Param.ofValue v)

/-- What a statement with `k` placeholders is to be executed with. -/
def expected (k : Nat) (c : Call w) : Option (List (Value w)) :=
  if c.args.length = k ∧ (c.args = [] ∨ c.bindError = none) then some c.args else none

theorem bindIn_eq (args : List (Value w)) : bindIn (bindAll 0 args []) = args.map bindEntry :=
  congrArg bindIn (bindAll_eq args [])

theorem execute_of_nil {c : Call w} (hargs : c.args = []) (s : Stmt) :
    execute c s = (s, s.run c.answer) := by
  simp [execute, bindIn_eq, hargs]

theorem execute_of_refused {c : Call w} {text : Bytes} (hargs : c.args ≠ [])
    (herror : c.bindError = some text) (s : Stmt) :
    execute c s = (s, ⟨none, .error (.executeError text)⟩) := by
  simp [execute, bindIn_eq, hargs, herror]

theorem execute_of_binds {c : Call w} (hbinds : c.Binds) (s : Stmt) :
    execute c s = (s.bindParam (c.args.map bindEntry),
      (s.bindParam (c.args.map bindEntry)).run c.answer) := by
  simp [execute, bindIn_eq, hbinds.1, hbinds.2]

/-- A call keeps the number of parameters, and leaves something bound if something was or the call
bound its array. -/
theorem execute_stmt (c : Call w) (s : Stmt) :
    (execute c s).1.paramCount = s.paramCount ∧
      ((execute c s).1.bound.isSome ↔ s.bound.isSome ∨ c.Binds) := by
  by_cases hargs : c.args = []
  · rw [execute_of_nil hargs]
    exact ⟨rfl, (or_iff_left fun hbinds => hbinds.1 hargs).symm⟩
  · cases herror : c.bindError with
    | some text =>
      rw [execute_of_refused hargs herror]
      refine ⟨rfl, (or_iff_left fun hbinds => ?_).symm⟩
      cases herror.symm.trans hbinds.2
    | none =>
      rw [execute_of_binds ⟨hargs, herror⟩]
      exact ⟨rfl, iff_of_true rfl (.inr ⟨hargs, herror⟩)⟩

theorem after_stmt (history : List (Call w)) (s : Stmt) :
    (after history s).paramCount = s.paramCount ∧
      ((after history s).bound.isSome ↔ s.bound.isSome ∨ ∃ c ∈ history, c.Binds) := by
  induction history generalizing s with
  | nil => simp [after]
  | cons c history ih =>
    obtain ⟨hcount, hbound⟩ := execute_stmt c s
    obtain ⟨hcounts, hbounds⟩ := ih (execute c s).1
    refine ⟨hcounts.trans hcount, hbounds.trans ?_⟩
    rw [hbound]
    simp [or_assoc]

theorem map_range_getElem? {α : Type} (l : List α) :
    (List.range l.length).map (fun i => l[i]?) = l.map some := by
  apply List.ext_getElem?
  intro i
  by_cases hi : i < l.length
  · simp [hi]
  · simp [Nat.not_lt.mp hi]

theorem run_of_params {s : Stmt} {params : List (Option MysqlBind)} (h : s.params = some params)
    (answer : ExpectedRows w) : s.run answer = ⟨some params, answer⟩ := by
  simp [Stmt.run, h]

theorem forall₂_denotes_iff (args : List (Value w)) :
    List.Forall₂ Denotes (args.map fun v => some (bindEntry v)) args ↔ ∀ v ∈ args, Encodable v := by
  rw [List.forall₂_map_left_iff, List.forall₂_same]
  exact forall₂_congr fun v _ => denotes_bindEntry_iff v

/-- A call without arguments uses what was bound before. -/
theorem uses_of_nil {c : Call w} (hargs : c.args = []) (s : Stmt) :
    (execute c s).2.Uses Denotes (expected s.paramCount c) ↔ s.paramCount = 0 ∨ s.bound = none := by
  rw [execute_of_nil hargs]
  by_cases hcount : s.paramCount = 0
  · have hparams : s.params = some [] := if_pos hcount
    have hexpected : expected s.paramCount c = some [] := by simp [expected, hargs, hcount]
    rw [hexpected, run_of_params hparams]
    exact iff_of_true ⟨[], rfl, List.Forall₂.nil⟩ (.inl hcount)
  · have hparams : s.params = s.bound := if_neg hcount
    have hexpected : expected s.paramCount c = none := by simp [expected, hargs, Ne.symm hcount]
    rw [hexpected, or_iff_right hcount]
    cases hbound : s.bound with
    | none =>
      simp only [Stmt.run, hparams, hbound, iff_true]
      exact ⟨rfl, _, rfl⟩
    | some params =>
      rw [run_of_params (hparams.trans hbound)]
      exact iff_of_false (fun huses => by cases huses.1) nofun

theorem uses_of_binds {c : Call w} (hbinds : c.Binds) (s : Stmt) :
    (execute c s).2.Uses Denotes (expected s.paramCount c) ↔
      c.args.length = s.paramCount ∧ ∀ v ∈ c.args, Encodable v := by
  obtain ⟨hargs, herror⟩ := hbinds
  rw [execute_of_binds ⟨hargs, herror⟩]
  by_cases hlength : c.args.length = s.paramCount
  · have hexpected : expected s.paramCount c = some c.args := by simp [expected, hlength, herror]
    have hcount : s.paramCount ≠ 0 := fun hzero =>
      hargs (List.length_eq_zero_iff.mp (hlength.trans hzero))
    have hparams : (s.bindParam (c.args.map bindEntry)).params =
        some (c.args.map fun v => some (bindEntry v)) := by
      have hread := map_range_getElem? (c.args.map bindEntry)
      rw [List.length_map, hlength, List.map_map] at hread
      rw [Stmt.params, Stmt.bindParam, if_neg hcount, hread]
      rfl
    rw [hexpected, run_of_params hparams, and_iff_right hlength, ← forall₂_denotes_iff]
    simp [Execution.Uses]
  · have hexpected : expected s.paramCount c = none := by simp [expected, hlength]
    have hparams : ∃ params, (s.bindParam (c.args.map bindEntry)).params = some params := by
      unfold Stmt.params
      split_ifs
      · exact ⟨_, rfl⟩
      · exact ⟨_, rfl⟩
    obtain ⟨params, hparams⟩ := hparams
    rw [hexpected, run_of_params hparams]
    exact iff_of_false (fun huses => by cases huses.1) fun hexact => hlength hexact.1

theorem execute_uses_iff (c : Call w) (s : Stmt) :
    (execute c s).2.Uses Denotes (expected s.paramCount c) ↔
      (c.args.length = s.paramCount ∧ ∀ v ∈ c.args, Encodable v) ∨
        (c.args ≠ [] ∧ c.bindError ≠ none) ∨ (c.args = [] ∧ s.bound = none) := by
  by_cases hargs : c.args = []
  · rw [uses_of_nil hargs]
    simp [hargs, eq_comm]
  · cases herror : c.bindError with
    | some text =>
      have hexpected : expected s.paramCount c = none := by simp [expected, hargs, herror]
      rw [execute_of_refused hargs herror, hexpected]
      exact iff_of_true ⟨rfl, _, rfl⟩ (.inr (.inl ⟨hargs, nofun⟩))
    | none =>
      rw [uses_of_binds ⟨hargs, herror⟩]
      simp [hargs]

end MariaDB

/-- **`Execute` uses exactly its arguments**, after any history of calls on a statement with `k`
parameters: for SQLite, when their number is right, none is refused and each is bound as what it
stands for; for MariaDB, when their number is right and each is encodable, or the connector refuses
them, or there are none and none was ever bound. -/
theorem execute_uses_arguments_iff (w : LongWidth) (k : Nat) :
    (∀ (history : List (SQLite.Call w)) (c : SQLite.Call w),
      (SQLite.execute c (SQLite.after history (.new k))).2.Uses SQLite.Cell.Denotes
          (SQLite.expected k c.args) ↔
        c.args.length = k ∧ ∀ a ∈ c.args, a.refused = false ∧ SQLite.Bindable a.value) ∧
    (∀ (history : List (MariaDB.Call w)) (c : MariaDB.Call w),
      (MariaDB.execute c (MariaDB.after history (.new k))).2.Uses MariaDB.Denotes
          (MariaDB.expected k c) ↔
        (c.args.length = k ∧ ∀ v ∈ c.args, MariaDB.Encodable v) ∨
          (c.args ≠ [] ∧ c.bindError ≠ none) ∨ (c.args = [] ∧ ∀ h ∈ history, ¬ h.Binds)) := by
  constructor
  · intro history c
    rw [SQLite.after_new]
    exact SQLite.execute_uses_iff c k
  · intro history c
    obtain ⟨hcount, hbound⟩ := MariaDB.after_stmt history (.new k)
    have huses := MariaDB.execute_uses_iff c (MariaDB.after history (.new k))
    have hnone : (MariaDB.after history (.new k)).bound = none ↔ ∀ h ∈ history, ¬ h.Binds := by
      rw [← Option.not_isSome_iff_eq_none, hbound]
      simp [MariaDB.Stmt.new]
    rw [hcount, hnone] at huses
    exact huses

/-- A second call without arguments runs the statement with the argument of the first. -/
theorem execute_with_leftover :
    ¬ ∀ (k : Nat) (history : List (MariaDB.Call .bits64)) (c : MariaDB.Call .bits64),
      (MariaDB.execute c (MariaDB.after history (.new k))).2.Uses MariaDB.Denotes
        (MariaDB.expected k c) := by
  intro h
  have huses := h 1 [⟨[.boolean true], none, .ok []⟩] ⟨[], none, .ok []⟩
  exact absurd huses.1 (by decide)

end StormByteDatabase
