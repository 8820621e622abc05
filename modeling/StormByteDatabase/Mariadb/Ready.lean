import StormByteDatabase.Lib.Machine
import StormByteDatabase.Mariadb.Query

/-!
# Results left unread on a MariaDB connection

The connector refuses a command while a result of the one before is unread: the rows of a result set,
or what follows a result set after `CALL`. A run is a sequence of calls on a connected object, with
every answer of the server and of the connector.

`always_ready_iff`: no call of a run leaves a result unread exactly when no statement sent by
`DoSilentQuery` is answered by a result set, which it does not store, no `Query` with a result set
has a warning to log, since `SHOW WARNINGS` is sent before the rows are stored, and no result set of a
`Query` has further results behind it, nor one of a prepared statement unless the connector reads
them when it resets the statement. `silent_select` is a `SELECT` given to `SilentQuery`.

Proof. The logging of warnings leaves the rows of the connection as it finds them, so what a call does
to them is decided by the answer to its own statement. `Execute` resets the statement on each path,
which reads what a failed `DoExecute` has left.
-/

namespace StormByteDatabase.MariaDB

open Lib

/-- The answers to a statement and to the `SHOW WARNINGS` that may follow it; `more` says that further
results follow the result set, as after `CALL`. -/
structure Answers where
  answer : Answer
  showAnswer : Answer
  more : Bool

/-- Results follow the first one. -/
def Answers.HasMore (a : Answers) : Prop :=
  match a.answer with
  | .resultSet _ _ _ => a.more = true
  | .error _ | .noResult _ => False

instance (a : Answers) : Decidable a.HasMore :=
  match h : a.answer with
  | .resultSet _ _ _ => decidable_of_iff (a.more = true) (by simp [Answers.HasMore, h])
  | .error _ | .noResult _ => isFalse (by simp [Answers.HasMore, h])

/-- Results that follow the first one stay on the connection when that is stored. -/
def leaveFurther (a : Answers) (db : Database) : Database :=
  if a.HasMore then { db with conn := db.conn.map fun c => { c with unread := true } } else db

/-- `DoSilentQuery`. -/
def doSilentQuery (a : Answers) (db : Database) : Database × Bool :=
  match db.connected, db.conn with
  | true, some c =>
    match realQuery a.answer c with
    | (c, false) => ({ db with conn := some c }, false)
    | (c, true) =>
      ({ db with conn := some (logMariaDBWarnings db.logger a.showAnswer c).1 }, true)
  | _, _ => (db, false)

/-- `DoBeginTransaction`; `set` is about `SET TRANSACTION ISOLATION LEVEL`, should it be sent. -/
def doBeginTransaction (level : IsolationLevel) (set start : Answers) (db : Database) : Database :=
  match level with
  | .default => (doSilentQuery start db).1
  | _ => (doSilentQuery start (doSilentQuery set db).1).1

/-- Where `DoExecute` fails once the statement gave a result set. -/
inductive StmtFailure
  | resultMetadata
  | bindResult
  | storeResult
  /-- `mysql_stmt_fetch` or `mysql_stmt_fetch_column`. -/
  | fetch
  deriving DecidableEq, Repr

/-- The answer to `mysql_stmt_execute`, with the failure of what follows it. -/
inductive StmtAnswer
  | error (text : Bytes)
  | noResult (warnings : Nat)
  | resultSet (columns warnings : Nat) (failure : Option StmtFailure) (more : Bool)
  deriving DecidableEq, Repr

/-- What of a statement is unread. -/
structure StmtUnread where
  rows : Bool
  /-- Results that follow the first one. -/
  further : Bool
  deriving DecidableEq, Repr

/-- `DoExecute` from `mysql_stmt_execute` on, with what of the statement is unread when it returns.
Storing the rows, also with an error, leaves none. -/
def doExecute (a : StmtAnswer) (c : Conn) : Conn × StmtUnread :=
  if c.unread then ({ c with error := outOfSync }, ⟨false, false⟩)
  else
    match a with
    | .error text => ({ c with error := text }, ⟨false, false⟩)
    | .noResult warnings =>
      ({ c with fieldCount := 0, warningCount := warnings, error := [] }, ⟨false, false⟩)
    | .resultSet columns warnings failure more =>
      let c := { c with unread := true, fieldCount := columns, warningCount := warnings, error := [] }
      match failure with
      | some .resultMetadata | some .bindResult => (c, ⟨true, more⟩)
      | some .storeResult | some .fetch | none => ({ c with unread := more }, ⟨false, more⟩)

/-- `mysql_stmt_reset`, which reads the rows of the statement that are unread; `readsFurther` says
that the connector also reads what follows them. -/
def stmtReset (readsFurther : Bool) (u : StmtUnread) (c : Conn) : Conn :=
  if u.further then { c with unread := !readsFurther }
  else if u.rows then { c with unread := false }
  else c

/-- `ExecuteSTMT`; without an answer there is no prepared statement of the name. -/
def executeSTMT (readsFurther : Bool) (a : Option StmtAnswer) (db : Database) : Database :=
  match a, db.conn with
  | some a, some c =>
    let (c, unread) := doExecute a (stmtReset readsFurther ⟨false, false⟩ c)
    { db with conn := some (stmtReset readsFurther unread c) }
  | _, _ => db

/-- A call on the object. -/
inductive Op
  | query (a : Answers)
  | silentQuery (a : Answers)
  | executeSTMT (a : Option StmtAnswer)
  | beginTransaction (level : IsolationLevel) (set start : Answers)
  | commit (a : Answers)
  | rollback (a : Answers)

variable (w : LongWidth) (readsFurther : Bool)

def Op.run (db : Database) : Op → Database
  | .query a => leaveFurther a (MariaDB.query w a.answer a.showAnswer db).1
  | .silentQuery a => (doSilentQuery a db).1
  | .executeSTMT a => MariaDB.executeSTMT readsFurther a db
  | .beginTransaction level set start => doBeginTransaction level set start db
  | .commit a => (doSilentQuery a db).1
  | .rollback a => (doSilentQuery a db).1

/-- A connected object, from its connection on. -/
def system (logger : Bool) : Machine Database Op :=
  ⟨⟨true, some newConn, logger⟩, fun db op => some (op.run w readsFurther db)⟩

/-- No result is unread. -/
def Database.Ready (db : Database) : Prop := ∀ c ∈ db.conn, c.unread = false

/-- A `Query` with a result set has no warning to log. -/
def Answers.NotLogged (logger : Bool) (a : Answers) : Prop :=
  match a.answer with
  | .resultSet _ warnings _ => logger = false ∨ warnings = 0
  | .error _ | .noResult _ => True

/-- The statements of the call leave nothing to read: those of `DoSilentQuery` have no result set, a
`Query` with a result set has no warning to log, and nothing follows a result set. -/
def Op.LeavesNothing (db : Database) : Op → Prop
  | .query a => a.NotLogged db.logger ∧ ¬ a.HasMore
  | .silentQuery a => a.answer.HasNoResult
  | .executeSTMT (some (.resultSet _ _ _ more)) => more = true → readsFurther = true
  | .executeSTMT _ => True
  | .beginTransaction level set start =>
    (level ≠ .default → set.answer.HasNoResult) ∧ start.answer.HasNoResult
  | .commit a => a.answer.HasNoResult
  | .rollback a => a.answer.HasNoResult

/-! ### What each call does to the rows -/

variable {w} {readsFurther} {c : Conn} {logger : Bool}

theorem realQuery_unread (a : Answer) (hc : c.unread = false) :
    (realQuery a c).1.unread = false ↔ a.HasNoResult := by
  cases a <;> simp [realQuery, hc, Answer.HasNoResult]

theorem realQuery_of_unread (a : Answer) (hc : c.unread = true) :
    (realQuery a c).1.unread = true := by
  simp [realQuery, hc]

theorem logMariaDBWarnings_unread (logger : Bool) (showAnswer : Answer) (c : Conn) :
    (logMariaDBWarnings logger showAnswer c).1.unread = c.unread := by
  unfold logMariaDBWarnings
  split_ifs
  · rfl
  · cases hc : c.unread with
    | true => simp [realQuery, hc]
    | false =>
      cases showAnswer with
      | error text => simp [realQuery, hc]
      | noResult warnings => simp [realQuery, storeResult, hc]
      | resultSet res warnings storeError => cases storeError <;> simp [realQuery, storeResult, hc]

theorem doSilentQuery_spec (a : Answers) (c : Conn) (logger : Bool) :
    ∃ c', (doSilentQuery a ⟨true, some c, logger⟩).1 = ⟨true, some c', logger⟩ ∧
      c'.unread = (realQuery a.answer c).1.unread := by
  unfold doSilentQuery
  cases hsent : realQuery a.answer c with
  | mk c' ok =>
    cases ok with
    | false => exact ⟨c', by simp [hsent], rfl⟩
    | true =>
      refine ⟨(logMariaDBWarnings logger a.showAnswer c').1, by simp [hsent], ?_⟩
      exact logMariaDBWarnings_unread logger a.showAnswer c'

theorem doSilentQuery_ready (logger : Bool) (a : Answers) (hc : c.unread = false) :
    ∃ c', (doSilentQuery a ⟨true, some c, logger⟩).1 = ⟨true, some c', logger⟩ ∧
      (c'.unread = false ↔ a.answer.HasNoResult) := by
  obtain ⟨c', hrun, hunread⟩ := doSilentQuery_spec a c logger
  exact ⟨c', hrun, by rw [hunread, realQuery_unread a.answer hc]⟩

theorem doBeginTransaction_ready (level : IsolationLevel) (set start : Answers)
    (hc : c.unread = false) :
    ∃ c', doBeginTransaction level set start ⟨true, some c, logger⟩ = ⟨true, some c', logger⟩ ∧
      (c'.unread = false ↔ (level ≠ .default → set.answer.HasNoResult) ∧
        start.answer.HasNoResult) := by
  by_cases hlevel : level = .default
  · subst hlevel
    obtain ⟨c', hrun, hunread⟩ := doSilentQuery_ready logger start hc
    exact ⟨c', hrun, hunread.trans (and_iff_right fun h => absurd rfl h).symm⟩
  · have hbegin : doBeginTransaction level set start ⟨true, some c, logger⟩ =
        (doSilentQuery start (doSilentQuery set ⟨true, some c, logger⟩).1).1 := by
      cases level with
      | default => exact absurd rfl hlevel
      | _ => rfl
    obtain ⟨c₁, hset, hunread₁⟩ := doSilentQuery_ready logger set hc
    rw [hbegin, hset]
    by_cases hnone : set.answer.HasNoResult
    · obtain ⟨c', hrun, hunread⟩ := doSilentQuery_ready logger start (hunread₁.mpr hnone)
      exact ⟨c', hrun, hunread.trans (and_iff_right fun _ => hnone).symm⟩
    · -- the rows of the first statement are unread, and `BEGIN` is refused
      have hstuck : c₁.unread = true := by simpa using mt hunread₁.mp hnone
      obtain ⟨c', hrun, hunread⟩ := doSilentQuery_spec start c₁ logger
      rw [realQuery_of_unread start.answer hstuck] at hunread
      exact ⟨c', hrun, iff_of_false (by simp [hunread]) fun h => hnone (h.1 hlevel)⟩

theorem fetchResult_unread (c : Conn) :
    (fetchResult w c).1.unread = false ↔ c.unread = false ∨ c.current.isSome := by
  unfold fetchResult
  cases hcurrent : c.current with
  | none => simp [storeResult, hcurrent]
  | some current =>
    obtain ⟨res, storeError⟩ := current
    cases storeError <;> simp [storeResult, hcurrent]

theorem logMariaDBWarnings_current (showAnswer : Answer) (hc : c.unread = true)
    (hcurrent : c.current.isSome) :
    (logMariaDBWarnings logger showAnswer c).1.current.isSome ↔
      logger = false ∨ c.warningCount = 0 := by
  unfold logMariaDBWarnings
  split_ifs with hquiet
  · exact iff_of_true hcurrent hquiet
  · exact iff_of_false (by simp [realQuery, hc]) hquiet

theorem query_conn_of_error {answer showAnswer : Answer} {c' : Conn}
    (h : realQuery answer c = (c', false)) :
    (query w answer showAnswer ⟨true, some c, logger⟩).1 = ⟨true, some c', logger⟩ := by
  simp only [query, h]

theorem query_conn_of_sent {answer showAnswer : Answer} {c' : Conn}
    (h : realQuery answer c = (c', true)) :
    (query w answer showAnswer ⟨true, some c, logger⟩).1 =
      ⟨true, some (fetchResult w (logMariaDBWarnings logger showAnswer c').1).1, logger⟩ := by
  simp only [query, h]

theorem leaveFurther_eq (logger : Bool) (a : Answers) (c : Conn) :
    ∃ c', leaveFurther a ⟨true, some c, logger⟩ = ⟨true, some c', logger⟩ ∧
      (c'.unread = false ↔ c.unread = false ∧ ¬ a.HasMore) := by
  unfold leaveFurther
  split_ifs with hmore
  · exact ⟨_, rfl, iff_of_false nofun fun h => h.2 hmore⟩
  · exact ⟨c, rfl, (and_iff_left hmore).symm⟩

/-- `Query` stores its first result, unless `SHOW WARNINGS` has taken the columns away. -/
theorem query_spec (logger : Bool) (a : Answers) (hc : c.unread = false) :
    ∃ c', (query w a.answer a.showAnswer ⟨true, some c, logger⟩).1 = ⟨true, some c', logger⟩ ∧
      (c'.unread = false ↔ a.NotLogged logger) := by
  obtain ⟨answer, showAnswer, more⟩ := a
  have hsent : ¬ c.unread = true := by simp [hc]
  cases answer with
  | error text => exact ⟨_, query_conn_of_error (if_neg hsent), iff_of_true hc trivial⟩
  | noResult warnings =>
    refine ⟨_, query_conn_of_sent (if_neg hsent), iff_of_true ?_ trivial⟩
    rw [fetchResult_unread, logMariaDBWarnings_unread]
    exact .inl hc
  | resultSet res warnings storeError =>
    refine ⟨_, query_conn_of_sent (if_neg hsent), ?_⟩
    rw [fetchResult_unread, logMariaDBWarnings_unread, or_iff_right (by simp),
      logMariaDBWarnings_current showAnswer rfl rfl]
    rfl

theorem query_ready (a : Answers) (hc : c.unread = false) :
    ∃ c', leaveFurther a (query w a.answer a.showAnswer ⟨true, some c, logger⟩).1 =
        ⟨true, some c', logger⟩ ∧
      (c'.unread = false ↔ (Op.query a).LeavesNothing readsFurther ⟨true, some c, logger⟩) := by
  obtain ⟨c₁, hquery, hunread₁⟩ := query_spec (w := w) logger a hc
  obtain ⟨c', hfurther, hunread⟩ := leaveFurther_eq logger a c₁
  rw [hquery]
  exact ⟨c', hfurther, hunread.trans (and_congr hunread₁ Iff.rfl)⟩

/-- The second reset reads the rows that `DoExecute` has left. -/
theorem stmtReset_doExecute (a : StmtAnswer) (hc : c.unread = false) :
    (stmtReset readsFurther (doExecute a c).2 (doExecute a c).1).unread = false ↔
      (Op.executeSTMT (some a)).LeavesNothing readsFurther ⟨true, some c, logger⟩ := by
  have hsent : ¬ c.unread = true := by simp [hc]
  unfold doExecute
  rw [if_neg hsent]
  cases a with
  | error text => exact iff_of_true hc trivial
  | noResult warnings => exact iff_of_true hc trivial
  | resultSet columns warnings failure more =>
    rcases failure with _ | _ | _ | _ | _ <;> cases more <;> cases readsFurther <;>
      simp [stmtReset, Op.LeavesNothing]

theorem executeSTMT_ready (a : Option StmtAnswer) (hc : c.unread = false) :
    ∃ c', executeSTMT readsFurther a ⟨true, some c, logger⟩ = ⟨true, some c', logger⟩ ∧
      (c'.unread = false ↔
        (Op.executeSTMT a).LeavesNothing readsFurther ⟨true, some c, logger⟩) := by
  cases a with
  | none => exact ⟨c, rfl, iff_of_true hc trivial⟩
  | some a => exact ⟨_, rfl, stmtReset_doExecute a hc⟩

theorem run_ready (readsFurther logger : Bool) (op : Op) (hc : c.unread = false) :
    ∃ c', op.run w readsFurther ⟨true, some c, logger⟩ = ⟨true, some c', logger⟩ ∧
      (c'.unread = false ↔ op.LeavesNothing readsFurther ⟨true, some c, logger⟩) := by
  cases op with
  | query a => exact query_ready a hc
  | silentQuery a => exact doSilentQuery_ready logger a hc
  | executeSTMT a => exact executeSTMT_ready a hc
  | beginTransaction level set start => exact doBeginTransaction_ready level set start hc
  | commit a => exact doSilentQuery_ready logger a hc
  | rollback a => exact doSilentQuery_ready logger a hc

theorem run_connected (readsFurther logger : Bool) (op : Op) (c : Conn) :
    ∃ c', op.run w readsFurther ⟨true, some c, logger⟩ = ⟨true, some c', logger⟩ := by
  have hsilent : ∀ (a : Answers) c, ∃ c',
      (doSilentQuery a ⟨true, some c, logger⟩).1 = ⟨true, some c', logger⟩ := fun a c =>
    (doSilentQuery_spec a c logger).imp fun _ h => h.1
  cases op with
  | query a =>
    have hquery : ∃ c',
        (MariaDB.query w a.answer a.showAnswer ⟨true, some c, logger⟩).1 =
          ⟨true, some c', logger⟩ := by
      cases hsent : realQuery a.answer c with
      | mk c' ok =>
        cases ok with
        | false => exact ⟨_, query_conn_of_error hsent⟩
        | true => exact ⟨_, query_conn_of_sent hsent⟩
    obtain ⟨c₁, hc₁⟩ := hquery
    obtain ⟨c', hc', _⟩ := leaveFurther_eq logger a c₁
    exact ⟨c', (congrArg (leaveFurther a) hc₁).trans hc'⟩
  | silentQuery a => exact hsilent a c
  | executeSTMT a => cases a <;> exact ⟨_, rfl⟩
  | beginTransaction level set start =>
    obtain ⟨c₁, hset⟩ := hsilent set c
    have hstart := hsilent start c₁
    rw [← hset] at hstart
    cases level <;> first | exact hstart | exact hsilent start c
  | commit a => exact hsilent a c
  | rollback a => exact hsilent a c

theorem ready_iff : Database.Ready ⟨true, some c, logger⟩ ↔ c.unread = false := by
  simp [Database.Ready]

/-- **The connection is always ready** in a run exactly when each of its calls leaves nothing to
read. -/
theorem always_ready_iff (w : LongWidth) (readsFurther logger : Bool) (ops : List Op) :
    (system w readsFurther logger).Visits Database.Ready ops ↔
      (system w readsFurther logger).Meets (fun db op => op.LeavesNothing readsFurther db) ops := by
  obtain ⟨t, hrun⟩ := Machine.exists_runFrom (M := system w readsFurther logger)
    (fun db op => ⟨_, rfl⟩) (system w readsFurther logger).init ops
  refine Machine.visitsFrom_iff_meetsFrom (I := fun db => ∃ c, db = ⟨true, some c, logger⟩)
    ?_ ?_ ⟨newConn, rfl⟩ (ready_iff.mpr rfl) hrun
  · rintro db op db' ⟨c, rfl⟩ _ hstep
    obtain ⟨c', hc'⟩ := run_connected (w := w) readsFurther logger op c
    exact ⟨c', (Option.some.inj hstep).symm.trans hc'⟩
  · rintro db op db' ⟨c, rfl⟩ hready hstep
    obtain ⟨c', hc', hunread⟩ := run_ready (w := w) readsFurther logger op (ready_iff.mp hready)
    obtain rfl : op.run w readsFurther ⟨true, some c, logger⟩ = db' := Option.some.inj hstep
    rw [hc', ready_iff, hunread]

/-- A `SELECT` given to `SilentQuery` leaves its rows unread. -/
theorem silent_select :
    ¬ ∀ (readsFurther logger : Bool) (ops : List Op),
      (system .bits64 readsFurther logger).Visits Database.Ready ops := by
  intro h
  obtain ⟨_, hnext⟩ := h true false [.silentQuery ⟨.resultSet oneRow 0 none, .noResult 0, false⟩]
  have hready := hnext _ rfl _ rfl
  exact absurd hready (by decide)

end StormByteDatabase.MariaDB
