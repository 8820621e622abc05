import StormByteDatabase.Database.Lifecycle

/-!
# Driver calls and the open handle

The operations of a connected object call the driver with `m_database` or `m_conn`. MariaDB and
PostgreSQL ask first whether that handle is null. SQLite asks for `m_connected` only, which
`Disconnect` clears after its last hook, and for nothing at all when it prepares a statement.

A run is one of `Lifecycle` with the operations between its steps, in hooks and outside, and a log of
the calls. `driver_calls_open_iff`: every call of a run is on an open handle, and without one the
operation fails, exactly when SQLite is never asked without a handle; and wherever code of the subclass
or the client runs, `IsConnected()` means an open handle exactly when no overridden
`DoPostDisconnect` runs in a `Disconnect` of a connected object. `query_after_close` is the run of a
subclass of `SQLite3` that queries in `DoPostDisconnect`.

Proof. A handle that is not null was opened and not closed since, so a call is on an open handle
exactly when that is not null; each operation is looked at once for whether it reaches the driver.
For the second part, the only states with `m_connected` and a null handle are those in which
`DoPostDisconnect` runs.
-/

namespace StormByteDatabase.DriverCalls

open Lib
open HandleOwnership (ConnectAnswer)
open Lifecycle (Subclass)

/-- The functions of the drivers that are given the connection. -/
inductive DriverFunction
  | sqlite3BusyTimeout
  | sqlite3PrepareV2
  | sqlite3Exec
  | sqlite3Errmsg
  | mysqlRealConnect
  | mysqlRealQuery
  | mysqlQuery
  | mysqlWarningCount
  | mysqlStoreResult
  | mysqlFieldCount
  | mysqlError
  | mysqlStmtInit
  | pqStatus
  | pqSetNoticeProcessor
  | pqExec
  | pqErrorMessage
  | pqPrepare
  deriving DecidableEq, Repr

/-- A call of a driver; a handle is numbered, and `none` is the null pointer. -/
inductive Entry
  | opened (h : Nat)
  | called (f : DriverFunction) (handle : Option Nat)
  | closed (h : Nat)
  deriving DecidableEq, Repr

def Entry.event : Entry → Event (Option Nat)
  | .opened h => .opened (some h)
  | .called _ handle => .used handle
  | .closed h => .closed (some h)

/-- What the driver answers while an operation runs; a backend reads what it asks for. -/
structure Answers where
  /-- The statement is accepted. -/
  accepted : Bool
  /-- SQLite: there is a statement, as there is not for an empty query. -/
  statement : Bool
  /-- SQLite: the last step is `SQLITE_DONE`. -/
  done : Bool
  /-- MariaDB: `mysql_warning_count` is not zero. -/
  warnings : Bool
  /-- MariaDB: `SHOW WARNINGS` is accepted. -/
  shown : Bool
  /-- MariaDB: `mysql_store_result` gives a result. -/
  stored : Bool
  /-- MariaDB: `mysql_field_count` is zero. -/
  noFields : Bool
  /-- PostgreSQL: `PQexec` gives a result. -/
  result : Bool
  deriving DecidableEq, Repr

/-- The calls of an operation on the connection, in order, and whether it succeeds. -/
structure Request where
  calls : List DriverFunction
  ok : Bool
  deriving DecidableEq, Repr

/-- The operation returns its error before any call. -/
def notConnected : Request := ⟨[], false⟩

/-! ### SQLite -/

namespace SQLite3

/-- `Query`. `StepResults` reads the error of a statement from its connection. -/
def query (a : Answers) (s : Lifecycle.State) : Request :=
  if !s.connected then notConnected
  else if !a.accepted then ⟨[.sqlite3PrepareV2, .sqlite3Errmsg], false⟩
  else if !a.statement then ⟨[.sqlite3PrepareV2], false⟩
  else if a.done then ⟨[.sqlite3PrepareV2], true⟩
  else ⟨[.sqlite3PrepareV2, .sqlite3Errmsg], false⟩

def doSilentQuery (a : Answers) (s : Lifecycle.State) : Request :=
  if !s.connected then notConnected else ⟨[.sqlite3Exec], a.accepted⟩

/-- The calls of `CreatePreparedSTMT`. -/
def prepareCalls (_ : Lifecycle.State) : List DriverFunction := [.sqlite3PrepareV2]

/-- The calls of `DoConnect` on a handle that `sqlite3_open` gave, with it open or not. -/
def connectCalls (logger ok : Bool) : List DriverFunction :=
  if ok then [.sqlite3BusyTimeout] else if logger then [.sqlite3Errmsg] else []

end SQLite3

/-! ### MariaDB -/

namespace MariaDB

/-- `mysql_error(conn) ? mysql_error(conn) : ...`. -/
def errorText : List DriverFunction := [.mysqlError, .mysqlError]

def logMariaDBWarnings (logger : Bool) (a : Answers) : List DriverFunction :=
  if !logger then []
  else if !a.warnings then [.mysqlWarningCount]
  else if !a.shown then [.mysqlWarningCount, .mysqlQuery]
  else [.mysqlWarningCount, .mysqlQuery, .mysqlStoreResult]

/-- `Query`. -/
def query (logger : Bool) (a : Answers) (s : Lifecycle.State) : Request :=
  if !s.connected || s.conn.isNone then notConnected
  else if !a.accepted then ⟨.mysqlRealQuery :: errorText, false⟩
  else
    let sent := .mysqlRealQuery :: logMariaDBWarnings logger a ++ [.mysqlStoreResult]
    if a.stored then ⟨sent, true⟩
    else if a.noFields then ⟨sent ++ [.mysqlFieldCount], true⟩
    else ⟨sent ++ .mysqlFieldCount :: errorText, false⟩

def doSilentQuery (logger : Bool) (a : Answers) (s : Lifecycle.State) : Request :=
  if !s.connected || s.conn.isNone then notConnected
  else if !a.accepted then ⟨.mysqlRealQuery :: (if logger then errorText else []), false⟩
  else ⟨.mysqlRealQuery :: logMariaDBWarnings logger a, true⟩

/-- The calls of `CreatePreparedSTMT`. -/
def prepareCalls (s : Lifecycle.State) : List DriverFunction :=
  if s.conn.isNone then [] else [.mysqlStmtInit]

/-- The calls of `DoConnect` on a handle of `mysql_init`. -/
def connectCalls (logger ok : Bool) : List DriverFunction :=
  if ok then [.mysqlRealConnect]
  else .mysqlRealConnect :: if logger then errorText else []

end MariaDB

/-! ### PostgreSQL -/

namespace Postgres

/-- `PQerrorMessage(conn) ? PQerrorMessage(conn) : ...`. -/
def errorText : List DriverFunction := [.pqErrorMessage, .pqErrorMessage]

/-- `Query`. -/
def query (a : Answers) (s : Lifecycle.State) : Request :=
  if !s.connected || s.conn.isNone then notConnected
  else if !a.result then ⟨[.pqExec], false⟩
  else if !a.accepted then ⟨.pqExec :: errorText, false⟩
  else ⟨[.pqExec], true⟩

def doSilentQuery (logger : Bool) (a : Answers) (s : Lifecycle.State) : Request :=
  if !s.connected || s.conn.isNone then notConnected
  else if !a.result then ⟨[.pqExec], false⟩
  else if !a.accepted then ⟨.pqExec :: (if logger then errorText else []), false⟩
  else ⟨[.pqExec], true⟩

/-- The calls of `CreatePreparedSTMT`. -/
def prepareCalls (s : Lifecycle.State) : List DriverFunction :=
  if s.conn.isNone then [] else [.pqPrepare]

/-- The calls of `DoConnect` on a handle of `PQconnectdb`. -/
def connectCalls (logger ok : Bool) : List DriverFunction :=
  if ok then (if logger then [.pqStatus, .pqSetNoticeProcessor] else [.pqStatus])
  else .pqStatus :: if logger then errorText else []

end Postgres

/-! ### The operations of an object -/

def query (b : Backend) (logger : Bool) (a : Answers) (s : Lifecycle.State) : Request :=
  match b with
  | .sqlite3 => SQLite3.query a s
  | .mariaDB => MariaDB.query logger a s
  | .postgres => Postgres.query a s

def doSilentQuery (b : Backend) (logger : Bool) (a : Answers) (s : Lifecycle.State) : Request :=
  match b with
  | .sqlite3 => SQLite3.doSilentQuery a s
  | .mariaDB => MariaDB.doSilentQuery logger a s
  | .postgres => Postgres.doSilentQuery logger a s

/-- `CreatePreparedSTMT`, which succeeds where it gives a statement. -/
def createPreparedSTMT (b : Backend) (name query : Bytes) (accepted : Bool) (s : Lifecycle.State) :
    Request :=
  let calls :=
    match b with
    | .sqlite3 => SQLite3.prepareCalls s
    | .mariaDB => MariaDB.prepareCalls s
    | .postgres => Postgres.prepareCalls s
  ⟨calls, (Lifecycle.createPreparedSTMT b name query accepted s).isSome⟩

def connectCalls (b : Backend) (logger ok : Bool) : List DriverFunction :=
  match b with
  | .sqlite3 => SQLite3.connectCalls logger ok
  | .mariaDB => MariaDB.connectCalls logger ok
  | .postgres => Postgres.connectCalls logger ok

/-- The operations that leave the object as it is. Each `DoSilentQuery` has its answers; MariaDB sets
a level that is not the default in one of its own. -/
inductive Operation
  | query (a : Answers)
  | silentQuery (a : Answers)
  | beginTransaction (level : IsolationLevel) (set start : Answers)
  | commitTransaction (a : Answers)
  | rollbackTransaction (a : Answers)
  deriving DecidableEq, Repr

/-- `DoBeginTransaction`. -/
def doBeginTransaction (b : Backend) (logger : Bool) (level : IsolationLevel) (set start : Answers)
    (s : Lifecycle.State) : List Request :=
  match b, level with
  | .mariaDB, .default => [doSilentQuery b logger start s]
  | .mariaDB, _ => [doSilentQuery b logger set s, doSilentQuery b logger start s]
  | _, _ => [doSilentQuery b logger start s]

def Operation.requests (b : Backend) (logger : Bool) (s : Lifecycle.State) :
    Operation → List Request
  | .query a => [DriverCalls.query b logger a s]
  | .silentQuery a => [doSilentQuery b logger a s]
  | .beginTransaction level set start => doBeginTransaction b logger level set start s
  | .commitTransaction a => [doSilentQuery b logger a s]
  | .rollbackTransaction a => [doSilentQuery b logger a s]

/-! ### Runs -/

/-- What became of a request made with this handle. -/
structure Outcome where
  handle : Option Nat
  ok : Bool
  deriving DecidableEq, Repr

/-- `log` and `outcomes` have the latest first. -/
structure State where
  db : Lifecycle.State
  log : List Entry
  outcomes : List Outcome
  deriving DecidableEq, Repr

inductive Act
  | lifecycle (a : Lifecycle.Act)
  | operation (op : Operation)
  deriving DecidableEq, Repr

/-- The log after these calls. -/
def called (handle : Option Nat) (calls : List DriverFunction) (log : List Entry) : List Entry :=
  calls.foldl (fun log f => .called f handle :: log) log

def State.perform (s : State) (r : Request) : State :=
  { s with
    log := called s.db.conn r.calls s.log
    outcomes := ⟨s.db.conn, r.ok⟩ :: s.outcomes }

/-- `DoConnect` on the fresh handle `h`; a `sqlite3_open` that fails without a handle leaves a null
pointer, as one that is refused. -/
def connectLog (b : Backend) (logger : Bool) (h : Nat) (log : List Entry) :
    ConnectAnswer → List Entry
  | .connected => called (some h) (connectCalls b logger true) (.opened h :: log)
  | .refused => .closed h :: called (some h) (connectCalls b logger false) (.opened h :: log)
  | .noHandle => log

/-- `DoDisconnect`. -/
def closeLog (conn : Option Nat) (log : List Entry) : List Entry :=
  match conn with
  | some h => .closed h :: log
  | none => log

/-- The driver's part of a step of the object. -/
def State.drive (c : Subclass) (logger : Bool) (s : State) : Lifecycle.Act → State
  | .preConnectReturns answer =>
    if s.db.connected then s
    else { s with log := connectLog c.backend logger s.db.nextConn s.log answer }
  | .preDisconnectReturns => { s with log := closeLog s.db.conn s.log }
  | .destroy => { s with log := closeLog s.db.conn s.log }
  | .prepareSTMT name query accepted =>
    s.perform (createPreparedSTMT c.backend name query accepted s.db)
  | _ => s

def step (c : Subclass) (logger : Bool) (s : State) : Act → Option State
  | .lifecycle a =>
    (Lifecycle.step c s.db a).map fun db => { s.drive c logger a with db := db }
  | .operation op =>
    if s.db.inClientCode c then
      some ((op.requests c.backend logger s.db).foldl State.perform s)
    else none

/-- A new object of the class. -/
def system (c : Subclass) (logger : Bool) : Machine State Act :=
  ⟨⟨(Lifecycle.system c).init, [], []⟩, step c logger⟩

def State.events (s : State) : List (Event (Option Nat)) := s.log.map Entry.event

/-- Every call was on an open handle, and what was asked without one failed. -/
structure CallsOpen (s : State) : Prop where
  calls : UsesOpen s.events
  fails : ∀ o ∈ s.outcomes, o.handle = none → o.ok = false

/-- Where code of the subclass or the client runs, `IsConnected()` means an open handle. -/
def ConnectedOpen (c : Subclass) (s : State) : Prop :=
  s.db.inClientCode c = true → s.db.connected = true → IsOpen s.events s.db.conn

/-- SQLite is asked with a handle. -/
def AskedWithHandle (c : Subclass) (s : State) : Act → Prop
  | .lifecycle (.prepareSTMT _ _ _) => c.backend = .sqlite3 → s.db.conn ≠ none
  | .lifecycle _ => True
  | .operation _ => c.backend = .sqlite3 → s.db.connected = true → s.db.conn ≠ none

/-- No code of a subclass runs between the close of a connected object and the end of `Disconnect`. -/
def ClosedUnseen (c : Subclass) (s : State) : Act → Prop
  | .lifecycle .preDisconnectReturns =>
    s.db.connected = true → c.overrides .doPostDisconnect = false
  | _ => True

/-! ### What reaches the driver -/

/-- The driver is called exactly where `reached` holds, and otherwise the operation fails. -/
structure Request.Guarded (r : Request) (reached : Prop) : Prop where
  calls : r.calls ≠ [] ↔ reached
  fails : ¬ reached → r.ok = false

/-- What `Query` and `DoSilentQuery` ask for. -/
def Reaches (b : Backend) (s : Lifecycle.State) : Prop :=
  s.connected = true ∧ (b = .sqlite3 ∨ s.conn ≠ none)

theorem guarded_notConnected {reached : Prop} (h : ¬ reached) : notConnected.Guarded reached :=
  ⟨iff_of_false (fun hne => hne rfl) h, fun _ => rfl⟩

theorem guarded_of_calls {r : Request} {reached : Prop} (hcalls : r.calls ≠ []) (h : reached) :
    r.Guarded reached :=
  ⟨iff_of_true hcalls h, fun hn => absurd h hn⟩

theorem guarded_sqlite3 {r : Request} {s : Lifecycle.State} (hcalls : r.calls ≠ []) :
    (if !s.connected then notConnected else r).Guarded (Reaches .sqlite3 s) := by
  split_ifs with h
  · apply guarded_notConnected
    rintro ⟨hc, _⟩
    simp [hc] at h
  · exact guarded_of_calls hcalls ⟨by simpa using h, .inl rfl⟩

theorem guarded_handle {r : Request} {b : Backend} {s : Lifecycle.State} (hb : b ≠ .sqlite3)
    (hcalls : r.calls ≠ []) :
    (if !s.connected || s.conn.isNone then notConnected else r).Guarded (Reaches b s) := by
  split_ifs with h
  · apply guarded_notConnected
    rintro ⟨hc, hsqlite | hconn⟩
    · exact hb hsqlite
    · rcases Option.ne_none_iff_exists'.mp hconn with ⟨k, hk⟩
      simp [hc, hk] at h
  · apply guarded_of_calls hcalls
    simp only [Bool.or_eq_true, Bool.not_eq_true', not_or, Bool.not_eq_false,
      Option.isNone_iff_eq_none] at h
    exact ⟨h.1, .inr h.2⟩

theorem query_guarded (b : Backend) (logger : Bool) (a : Answers) (s : Lifecycle.State) :
    (query b logger a s).Guarded (Reaches b s) := by
  cases b with
  | sqlite3 =>
    apply guarded_sqlite3
    split_ifs <;> simp
  | mariaDB =>
    apply guarded_handle (by simp)
    split_ifs <;> simp
  | postgres =>
    apply guarded_handle (by simp)
    split_ifs <;> simp

theorem doSilentQuery_guarded (b : Backend) (logger : Bool) (a : Answers) (s : Lifecycle.State) :
    (doSilentQuery b logger a s).Guarded (Reaches b s) := by
  cases b with
  | sqlite3 =>
    apply guarded_sqlite3
    simp
  | mariaDB =>
    apply guarded_handle (by simp)
    split_ifs <;> simp
  | postgres =>
    apply guarded_handle (by simp)
    split_ifs <;> simp

theorem requests_guarded {b : Backend} {logger : Bool} {s : Lifecycle.State} {op : Operation} :
    ∀ r ∈ op.requests b logger s, r.Guarded (Reaches b s) := by
  intro r hr
  cases op with
  | query a =>
    obtain rfl := List.mem_singleton.mp hr
    exact query_guarded b logger a s
  | beginTransaction level set start =>
    simp only [Operation.requests, doBeginTransaction] at hr
    split at hr <;> simp only [List.mem_cons, List.not_mem_nil, or_false] at hr
    · exact hr ▸ doSilentQuery_guarded _ logger start s
    · rcases hr with rfl | rfl
      · exact doSilentQuery_guarded _ logger set s
      · exact doSilentQuery_guarded _ logger start s
    · exact hr ▸ doSilentQuery_guarded _ logger start s
  | silentQuery a =>
    obtain rfl := List.mem_singleton.mp hr
    exact doSilentQuery_guarded b logger a s
  | commitTransaction a =>
    obtain rfl := List.mem_singleton.mp hr
    exact doSilentQuery_guarded b logger a s
  | rollbackTransaction a =>
    obtain rfl := List.mem_singleton.mp hr
    exact doSilentQuery_guarded b logger a s

theorem requests_ne_nil {b : Backend} {logger : Bool} {s : Lifecycle.State} (op : Operation) :
    op.requests b logger s ≠ [] := by
  cases op <;> simp only [Operation.requests, doBeginTransaction, ne_eq, List.cons_ne_nil,
    not_false_eq_true]
  split <;> simp

theorem createPreparedSTMT_calls (b : Backend) (name query : Bytes) (accepted : Bool)
    (s : Lifecycle.State) :
    (createPreparedSTMT b name query accepted s).calls ≠ [] ↔ b = .sqlite3 ∨ s.conn ≠ none := by
  cases b with
  | sqlite3 => simp [createPreparedSTMT, SQLite3.prepareCalls]
  | mariaDB => simp [createPreparedSTMT, MariaDB.prepareCalls]
  | postgres => simp [createPreparedSTMT, Postgres.prepareCalls]

theorem createPreparedSTMT_fails (b : Backend) (name query : Bytes) (accepted : Bool)
    {s : Lifecycle.State} (h : s.conn = none) :
    (createPreparedSTMT b name query accepted s).ok = false := by
  simp [createPreparedSTMT, Lifecycle.createPreparedSTMT, h]

/-! ### The log -/

theorem isOpen_called {handle r : Option Nat} {calls : List DriverFunction} {log : List Entry} :
    IsOpen ((called handle calls log).map Entry.event) r ↔ IsOpen (log.map Entry.event) r := by
  induction calls generalizing log with
  | nil => exact Iff.rfl
  | cons f calls ih => exact ih

theorem usesOpen_called {handle : Option Nat} {calls : List DriverFunction} {log : List Entry} :
    UsesOpen ((called handle calls log).map Entry.event) ↔
      (calls ≠ [] → IsOpen (log.map Entry.event) handle) ∧ UsesOpen (log.map Entry.event) := by
  induction calls generalizing log with
  | nil => simp [called]
  | cons f calls ih =>
    refine ih.trans ?_
    simp only [List.map_cons, Entry.event, isOpen_used, usesOpen_used]
    constructor
    · rintro ⟨_, hopen, h⟩
      exact ⟨fun _ => hopen, h⟩
    · rintro ⟨hopen, h⟩
      exact ⟨fun _ => hopen (List.cons_ne_nil _ _), hopen (List.cons_ne_nil _ _), h⟩

theorem not_isOpen_none (log : List Entry) : ¬ IsOpen (log.map Entry.event) none := by
  induction log with
  | nil => exact id
  | cons e log ih =>
    cases e with
    | opened h => simpa [Entry.event] using ih
    | called f handle => simpa [Entry.event] using ih
    | closed h => simpa [Entry.event] using ih

theorem usesOpen_connectLog {b : Backend} {logger : Bool} {h : Nat} {log : List Entry}
    {answer : ConnectAnswer} :
    UsesOpen ((connectLog b logger h log answer).map Entry.event) ↔
      UsesOpen (log.map Entry.event) := by
  cases answer with
  | noHandle => exact Iff.rfl
  | connected => simp [connectLog, usesOpen_called, Entry.event]
  | refused => simp [connectLog, usesOpen_called, isOpen_called, Entry.event]

/-- A handle that is not null is open. -/
def HandleOpen (s : State) : Prop := ∀ k, s.db.conn = some k → IsOpen s.events (some k)

theorem isOpen_conn_iff {s : State} (hs : HandleOpen s) :
    IsOpen s.events s.db.conn ↔ s.db.conn ≠ none := by
  cases hconn : s.db.conn with
  | none => exact iff_of_false (not_isOpen_none s.log) (fun h => h rfl)
  | some k => exact iff_of_true (hs k hconn) (by simp)

theorem usesOpen_closeLog {s : State} (hs : HandleOpen s) :
    UsesOpen ((closeLog s.db.conn s.log).map Entry.event) ↔ UsesOpen s.events := by
  unfold closeLog
  split
  · rename_i k hconn
    exact and_iff_right (hs k hconn)
  · exact Iff.rfl

theorem usesOpen_of_closeLog {conn : Option Nat} {log : List Entry}
    (h : UsesOpen ((closeLog conn log).map Entry.event)) : UsesOpen (log.map Entry.event) := by
  unfold closeLog at h
  split at h
  · exact h.2
  · exact h

/-! ### Requests -/

theorem callsOpen_of_perform {s : State} {r : Request} (h : CallsOpen (s.perform r)) :
    CallsOpen s :=
  ⟨(usesOpen_called.mp h.calls).2, fun o ho => h.fails o (List.mem_cons_of_mem _ ho)⟩

theorem handleOpen_perform {s : State} {r : Request} (hs : HandleOpen s) :
    HandleOpen (s.perform r) := fun k hk => isOpen_called.mpr (hs k hk)

/-- A request keeps to open handles exactly when it finds one or makes no call. -/
theorem callsOpen_perform {s : State} {r : Request} (hs : HandleOpen s) (h : CallsOpen s)
    (hfails : s.db.conn = none → r.calls = [] → r.ok = false) :
    CallsOpen (s.perform r) ↔ (r.calls ≠ [] → s.db.conn ≠ none) := by
  constructor
  · intro h' hcalls
    exact (isOpen_conn_iff hs).mp ((usesOpen_called.mp h'.calls).1 hcalls)
  · intro himp
    refine ⟨usesOpen_called.mpr ⟨fun hcalls => (isOpen_conn_iff hs).mpr (himp hcalls), h.calls⟩, ?_⟩
    intro o ho hnone
    rcases List.mem_cons.mp ho with rfl | ho
    · exact hfails hnone (not_not.mp fun hcalls => himp hcalls hnone)
    · exact h.fails o ho hnone

theorem foldl_perform_db (rs : List Request) (s : State) : (rs.foldl State.perform s).db = s.db := by
  induction rs generalizing s with
  | nil => rfl
  | cons r rs ih => exact ih (s.perform r)

theorem handleOpen_foldl {rs : List Request} {s : State} (hs : HandleOpen s) :
    HandleOpen (rs.foldl State.perform s) := by
  induction rs generalizing s with
  | nil => exact hs
  | cons r rs ih => exact ih (handleOpen_perform hs)

theorem callsOpen_of_foldl {rs : List Request} {s : State}
    (h : CallsOpen (rs.foldl State.perform s)) : CallsOpen s := by
  induction rs generalizing s with
  | nil => exact h
  | cons r rs ih => exact callsOpen_of_perform (ih h)

theorem callsOpen_foldl {rs : List Request} {s : State} (hs : HandleOpen s) (h : CallsOpen s)
    (hfails : ∀ r ∈ rs, s.db.conn = none → r.calls = [] → r.ok = false) :
    CallsOpen (rs.foldl State.perform s) ↔ ∀ r ∈ rs, r.calls ≠ [] → s.db.conn ≠ none := by
  induction rs generalizing s with
  | nil => exact iff_of_true h fun _ hr => absurd hr List.not_mem_nil
  | cons r rs ih =>
    have hone := callsOpen_perform hs h (hfails r List.mem_cons_self)
    rw [List.forall_mem_cons]
    constructor
    · intro hall
      have hfirst : CallsOpen (s.perform r) := callsOpen_of_foldl hall
      exact ⟨hone.mp hfirst, (ih (handleOpen_perform hs) hfirst fun r hr =>
        hfails r (List.mem_cons_of_mem _ hr)).mp hall⟩
    · rintro ⟨hfirst, hrest⟩
      exact (ih (handleOpen_perform hs) (hone.mpr hfirst) fun r hr =>
        hfails r (List.mem_cons_of_mem _ hr)).mpr hrest

/-! ### One step -/

theorem callsOpen_db {s : State} {db : Lifecycle.State} :
    CallsOpen { s with db := db } ↔ CallsOpen s :=
  ⟨fun h => ⟨h.calls, h.fails⟩, fun h => ⟨h.calls, h.fails⟩⟩

theorem callsOpen_log {s : State} {log : List Entry}
    (h : UsesOpen (log.map Entry.event) ↔ UsesOpen s.events) :
    CallsOpen { s with log := log } ↔ CallsOpen s :=
  ⟨fun h' => ⟨h.mp h'.calls, h'.fails⟩, fun h' => ⟨h.mpr h'.calls, h'.fails⟩⟩

theorem operation_callsOpen {c : Subclass} {logger : Bool} {s : State} {op : Operation}
    (hs : HandleOpen s) (h : CallsOpen s) :
    AskedWithHandle c s (.operation op) ↔
      CallsOpen ((op.requests c.backend logger s.db).foldl State.perform s) := by
  have hguarded : ∀ r ∈ op.requests c.backend logger s.db, r.Guarded (Reaches c.backend s.db) :=
    requests_guarded
  rw [callsOpen_foldl hs h]
  · constructor
    · intro hasked r hr hcalls
      obtain ⟨hconnected, hsqlite | hconn⟩ := (hguarded r hr).calls.mp hcalls
      · exact hasked hsqlite hconnected
      · exact hconn
    · intro hall hsqlite hconnected
      obtain ⟨r, hr⟩ := List.exists_mem_of_ne_nil _ (requests_ne_nil op)
      exact hall r hr ((hguarded r hr).calls.mpr ⟨hconnected, .inl hsqlite⟩)
  · intro r hr _ hnil
    exact (hguarded r hr).fails fun hreached => (hguarded r hr).calls.mpr hreached hnil

theorem drive_callsOpen {c : Subclass} {logger : Bool} {s : State} {a : Lifecycle.Act}
    (hs : HandleOpen s) (h : CallsOpen s) :
    AskedWithHandle c s (.lifecycle a) ↔ CallsOpen (s.drive c logger a) := by
  cases a with
  | prepareSTMT name query accepted =>
    have hperform := callsOpen_perform hs h fun hnone _ =>
      createPreparedSTMT_fails c.backend name query accepted hnone
    refine .trans ?_ hperform.symm
    rw [createPreparedSTMT_calls]
    constructor
    · rintro hasked (hsqlite | hconn)
      · exact hasked hsqlite
      · exact hconn
    · intro himp hsqlite
      exact himp (.inl hsqlite)
  | preConnectReturns answer =>
    refine iff_of_true trivial ?_
    simp only [State.drive]
    split_ifs
    · exact h
    · exact (callsOpen_log usesOpen_connectLog).mpr h
  | preDisconnectReturns => exact iff_of_true trivial ((callsOpen_log (usesOpen_closeLog hs)).mpr h)
  | destroy => exact iff_of_true trivial ((callsOpen_log (usesOpen_closeLog hs)).mpr h)
  | connect => exact iff_of_true trivial h
  | postConnectReturns => exact iff_of_true trivial h
  | disconnect => exact iff_of_true trivial h
  | postDisconnectReturns => exact iff_of_true trivial h
  | erase name => exact iff_of_true trivial h
  | clear => exact iff_of_true trivial h

theorem callsOpen_of_drive {c : Subclass} {logger : Bool} {s : State} {a : Lifecycle.Act}
    (h : CallsOpen (s.drive c logger a)) : CallsOpen s := by
  unfold State.drive at h
  split at h
  · split_ifs at h
    · exact h
    · exact (callsOpen_log usesOpen_connectLog).mp h
  · exact ⟨usesOpen_of_closeLog h.calls, h.fails⟩
  · exact ⟨usesOpen_of_closeLog h.calls, h.fails⟩
  · exact callsOpen_of_perform h
  · exact h

theorem handleOpen_lifecycle {c : Subclass} {logger : Bool} {s : State} {a : Lifecycle.Act}
    {db : Lifecycle.State} (hs : HandleOpen s) (hstep : Lifecycle.step c s.db a = some db) :
    HandleOpen { s.drive c logger a with db := db } := by
  cases Lifecycle.step_inversion hstep with
  | @preConnectReturns answer rest hhooks =>
    rcases Lifecycle.connectBody_cases answer rest s.db with
      ⟨hkept, heq⟩ | ⟨hc, rfl, heq⟩ | ⟨hc, rfl, heq⟩
    · rw [heq, State.drive]
      rcases hkept with hconnected | rfl
      · rw [if_pos hconnected]
        exact hs
      · split_ifs <;> exact hs
    · rw [heq, State.drive, hc]
      rintro k ⟨⟩
      exact isOpen_called.mpr (.inl rfl)
    · rw [heq]
      rintro k ⟨⟩
  | preDisconnectReturns hhooks => rintro k ⟨⟩
  | prepareSTMT hclient =>
    rw [Lifecycle.doPrepareSTMT_map]
    exact fun k hk => isOpen_called.mpr (hs k hk)
  | destroy hhooks halive => rintro k ⟨⟩
  | connect hclient => exact hs
  | postConnectReturns hhooks => exact hs
  | disconnect hclient => exact hs
  | postDisconnectReturns hhooks => exact hs
  | erase hclient => exact hs
  | clear hclient => exact hs

theorem step_cases {c : Subclass} {logger : Bool} {s s' : State} {a : Act}
    (hstep : step c logger s a = some s') :
    (∃ act db, a = .lifecycle act ∧ Lifecycle.step c s.db act = some db ∧
      s' = { s.drive c logger act with db := db }) ∨
    (∃ op, a = .operation op ∧ s.db.inClientCode c = true ∧
      s' = (op.requests c.backend logger s.db).foldl State.perform s) := by
  cases a with
  | lifecycle act =>
    obtain ⟨db, hdb, rfl⟩ := Option.map_eq_some_iff.mp hstep
    exact .inl ⟨act, db, rfl, hdb, rfl⟩
  | operation op =>
    simp only [step] at hstep
    split_ifs at hstep with hclient
    exact .inr ⟨op, rfl, hclient, (Option.some.inj hstep).symm⟩

theorem step_handleOpen (c : Subclass) (logger : Bool) :
    (system c logger).Preserves (fun _ _ => True) HandleOpen := by
  intro s a s' hs _ hstep
  rcases step_cases hstep with ⟨act, db, rfl, hdb, rfl⟩ | ⟨op, rfl, _, rfl⟩
  · exact handleOpen_lifecycle hs hdb
  · exact handleOpen_foldl hs

theorem callsOpen_step {c : Subclass} {logger : Bool} {s s' : State} {a : Act} (hs : HandleOpen s)
    (h : CallsOpen s) (hstep : step c logger s a = some s') :
    AskedWithHandle c s a ↔ CallsOpen s' := by
  rcases step_cases hstep with ⟨act, db, rfl, _, rfl⟩ | ⟨op, rfl, _, rfl⟩
  · exact (drive_callsOpen hs h).trans callsOpen_db.symm
  · exact operation_callsOpen hs h

theorem callsOpen_of_step {c : Subclass} {logger : Bool} {s s' : State} {a : Act}
    (hstep : step c logger s a = some s') (h : CallsOpen s') : CallsOpen s := by
  rcases step_cases hstep with ⟨act, db, rfl, _, rfl⟩ | ⟨op, rfl, _, rfl⟩
  · exact callsOpen_of_drive (callsOpen_db.mp h)
  · exact callsOpen_of_foldl h

/-! ### Between the close and the end of `Disconnect` -/

/-- With `m_connected` the handle is null only while the backend's own `DoPostDisconnect` runs. -/
structure NullInPost (c : Subclass) (s : Lifecycle.State) : Prop where
  post : s.connected = true → s.conn = none →
    ∃ rest, s.hooks = .doPostDisconnect :: rest ∧ c.overrides .doPostDisconnect = false
  idle : s.destroyed = true → s.hooks = []

theorem NullInPost.conn_ne_none {c : Subclass} {s : Lifecycle.State} (h : NullInPost c s)
    (hclient : s.inClientCode c = true) (hconnected : s.connected = true) : s.conn ≠ none := by
  intro hnone
  obtain ⟨rest, hhooks, hown⟩ := h.post hconnected hnone
  unfold Lifecycle.State.inClientCode at hclient
  simp [hhooks, hown] at hclient

theorem NullInPost.conn_ne_none_of_head {c : Subclass} {s : Lifecycle.State} {hook : Lifecycle.Hook}
    {rest : List Lifecycle.Hook} (h : NullInPost c s) (hhooks : s.hooks = hook :: rest)
    (hhook : hook ≠ .doPostDisconnect) (hconnected : s.connected = true) : s.conn ≠ none := by
  intro hnone
  obtain ⟨rest', hpost, _⟩ := h.post hconnected hnone
  rw [hhooks] at hpost
  exact hhook (List.cons.inj hpost).1

theorem nullInPost_of_open {c : Subclass} {s : Lifecycle.State}
    (hopen : s.connected = true → s.conn ≠ none) (hidle : s.destroyed = true → s.hooks = []) :
    NullInPost c s :=
  ⟨fun hconnected hnone => absurd hnone (hopen hconnected), hidle⟩

theorem not_destroyed_of_inClientCode {c : Subclass} {s : Lifecycle.State}
    (h : s.inClientCode c = true) : s.destroyed = false := by
  unfold Lifecycle.State.inClientCode at h
  simp only [Bool.and_eq_true, Bool.not_eq_true'] at h
  exact h.1

theorem NullInPost.not_destroyed {c : Subclass} {s : Lifecycle.State} {hook : Lifecycle.Hook}
    {rest : List Lifecycle.Hook} (h : NullInPost c s) (hhooks : s.hooks = hook :: rest) :
    s.destroyed = false := by
  by_contra hdestroyed
  have hnil := h.idle (by simpa using hdestroyed)
  rw [hhooks] at hnil
  cases hnil

/-- In code of the subclass or the client the handle is open, so its calls may enter a hook. -/
theorem NullInPost.of_client {c : Subclass} {s s' : Lifecycle.State} (h : NullInPost c s)
    (hclient : s.inClientCode c = true) (hconnected : s'.connected = s.connected)
    (hconn : s'.conn = s.conn) (hdestroyed : s'.destroyed = s.destroyed) : NullInPost c s' := by
  apply nullInPost_of_open
  · rw [hconnected, hconn]
    exact h.conn_ne_none hclient
  · rw [hdestroyed, not_destroyed_of_inClientCode hclient]
    intro hfalse
    cases hfalse

theorem connectBody_nullInPost {c : Subclass} {s : Lifecycle.State} {answer : ConnectAnswer}
    {rest : List Lifecycle.Hook} (hopen : s.connected = true → s.conn ≠ none)
    (halive : s.destroyed = false) : NullInPost c (Lifecycle.connectBody answer rest s) := by
  rcases Lifecycle.connectBody_cases answer rest s with ⟨_, heq⟩ | ⟨_, _, heq⟩ | ⟨hc, _, heq⟩
  · rw [heq]
    exact nullInPost_of_open hopen (by simp [halive])
  · rw [heq]
    exact nullInPost_of_open (by simp) (by simp [halive])
  · rw [heq]
    exact nullInPost_of_open (by simp [hc]) (by simp [halive])

theorem lifecycle_nullInPost {c : Subclass} {s : State} {a : Lifecycle.Act} {db : Lifecycle.State}
    (h : NullInPost c s.db) (hunseen : ClosedUnseen c s (.lifecycle a))
    (hstep : Lifecycle.step c s.db a = some db) : NullInPost c db := by
  cases Lifecycle.step_inversion hstep with
  | preConnectReturns hhooks =>
    exact connectBody_nullInPost (h.conn_ne_none_of_head hhooks (by simp)) (h.not_destroyed hhooks)
  | postConnectReturns hhooks =>
    exact nullInPost_of_open (h.conn_ne_none_of_head hhooks (by simp))
      (by simp [h.not_destroyed hhooks])
  | @preDisconnectReturns rest hhooks =>
    rw [Lifecycle.disconnectBody_map]
    exact ⟨fun hconnected _ => ⟨rest, rfl, hunseen hconnected⟩, by simp [h.not_destroyed hhooks]⟩
  | postDisconnectReturns hhooks =>
    exact nullInPost_of_open (by simp) (by simp [h.not_destroyed hhooks])
  | destroy hhooks halive =>
    rw [Lifecycle.doPreDisconnect_map]
    exact nullInPost_of_open (by simp) fun _ => hhooks
  | prepareSTMT hclient =>
    rw [Lifecycle.doPrepareSTMT_map]
    exact h.of_client hclient rfl rfl rfl
  | connect hclient => exact h.of_client hclient rfl rfl rfl
  | disconnect hclient => exact h.of_client hclient rfl rfl rfl
  | erase hclient => exact h.of_client hclient rfl rfl rfl
  | clear hclient => exact h.of_client hclient rfl rfl rfl

/-- The state is one of a run in which no code of a subclass saw a closed handle. -/
structure Unseen (c : Subclass) (s : State) : Prop where
  handle : HandleOpen s
  null : NullInPost c s.db

theorem step_unseen (c : Subclass) (logger : Bool) :
    (system c logger).Preserves (ClosedUnseen c) (Unseen c) := by
  intro s a s' hs hunseen hstep
  refine ⟨step_handleOpen c logger s a s' hs.handle trivial hstep, ?_⟩
  rcases step_cases hstep with ⟨act, db, rfl, hdb, rfl⟩ | ⟨op, rfl, _, rfl⟩
  · exact lifecycle_nullInPost hs.null hunseen hdb
  · rw [foldl_perform_db]
    exact hs.null

theorem connectedOpen_of_unseen {c : Subclass} {s : State} (hs : Unseen c s) : ConnectedOpen c s :=
  fun hclient hconnected =>
    (isOpen_conn_iff hs.handle).mpr (hs.null.conn_ne_none hclient hconnected)

theorem not_connectedOpen_of_seen {c : Subclass} {logger : Bool} {s s' : State} {a : Act}
    (hs : Unseen c s) (hstep : step c logger s a = some s') (hseen : ¬ ClosedUnseen c s a) :
    ¬ ConnectedOpen c s' := by
  unfold ClosedUnseen at hseen
  split at hseen
  · simp only [not_forall, Bool.not_eq_false] at hseen
    obtain ⟨hconnected, hoverride⟩ := hseen
    obtain ⟨db, hdb, rfl⟩ := Option.map_eq_some_iff.mp hstep
    cases Lifecycle.step_inversion hdb with
    | @preDisconnectReturns rest hhooks =>
      rw [Lifecycle.disconnectBody_map]
      intro h
      refine not_isOpen_none _ (h ?_ hconnected)
      simp [Lifecycle.State.inClientCode, hs.null.not_destroyed hhooks, hoverride]
  · exact absurd trivial hseen

/-! ### Whole runs -/

theorem init_handleOpen (c : Subclass) (logger : Bool) : HandleOpen (system c logger).init :=
  fun _ hk => by cases hk

theorem init_unseen (c : Subclass) (logger : Bool) : Unseen c (system c logger).init :=
  ⟨init_handleOpen c logger, nullInPost_of_open (fun hc => by cases hc) fun hd => by cases hd⟩

theorem init_callsOpen (c : Subclass) (logger : Bool) : CallsOpen (system c logger).init :=
  ⟨trivial, fun _ ho => absurd ho List.not_mem_nil⟩

/-- **Driver calls are on an open handle**, and what is asked without one fails, exactly when SQLite
is never asked without one; and **`IsConnected()` means an open handle** in all code of the subclass
and the client exactly when no overridden `DoPostDisconnect` runs after the close of a connected
object. -/
theorem driver_calls_open_iff (c : Subclass) (logger : Bool) (as : List Act) (s : State)
    (hrun : (system c logger).run as = some s) :
    (CallsOpen s ↔ (system c logger).Meets (AskedWithHandle c) as) ∧
      ((system c logger).Visits (ConnectedOpen c) as ↔
        (system c logger).Meets (ClosedUnseen c) as) := by
  constructor
  · exact Machine.final_iff_meets (I := HandleOpen)
      (fun s a s' hs _ hstep => step_handleOpen c logger s a s' hs trivial hstep)
      (fun _ _ _ hstep h => callsOpen_of_step hstep h)
      (fun _ _ _ hs h hstep => callsOpen_step hs h hstep) (init_handleOpen c logger)
      (init_callsOpen c logger) hrun
  · exact Machine.visitsFrom_iff_of_preserves (step_unseen c logger)
      (fun _ hs => connectedOpen_of_unseen hs)
      (fun _ _ _ hs hstep hseen => not_connectedOpen_of_seen hs hstep hseen)
      (init_unseen c logger) hrun

/-- A subclass of `Postgres` asks in its hooks before the connect and after the close. -/
theorem driver_calls_open_iff_hooks :
    let c : Subclass := ⟨.postgres, (· ≠ .doPreDisconnect)⟩
    let yes : Answers := ⟨true, true, true, false, true, true, false, true⟩
    let as : List Act :=
      [.lifecycle .connect, .operation (.query yes), .lifecycle (.preConnectReturns .connected),
        .lifecycle (.prepareSTMT [97] [98] true), .lifecycle .postConnectReturns,
        .operation (.beginTransaction .serializable yes yes), .operation (.commitTransaction yes),
        .lifecycle .disconnect, .lifecycle .preDisconnectReturns, .operation (.silentQuery yes),
        .lifecycle .postDisconnectReturns]
    let s : State :=
      ⟨⟨false, none, [], [], 1, false⟩,
        [.closed 0, .called .pqExec (some 0), .called .pqExec (some 0),
          .called .pqPrepare (some 0), .called .pqStatus (some 0), .opened 0],
        [⟨none, false⟩, ⟨some 0, true⟩, ⟨some 0, true⟩, ⟨some 0, true⟩, ⟨none, false⟩]⟩
    (CallsOpen s ↔ (system c false).Meets (AskedWithHandle c) as) ∧
      ((system c false).Visits (ConnectedOpen c) as ↔
        (system c false).Meets (ClosedUnseen c) as) :=
  driver_calls_open_iff _ _ _ _ (by decide)

/-- A subclass of `SQLite3` that sends a query in `DoPostDisconnect` is connected there, and
`sqlite3_exec` is given a null handle. -/
theorem query_after_close :
    ¬ ∀ (c : Subclass) (logger : Bool) (as : List Act) (s : State),
      (system c logger).run as = some s →
        CallsOpen s ∧ (system c logger).Visits (ConnectedOpen c) as := by
  intro h
  have hbad := h ⟨.sqlite3, (· = .doPostDisconnect)⟩ false
    [.lifecycle .connect, .lifecycle (.preConnectReturns .connected),
      .lifecycle .postConnectReturns, .lifecycle .disconnect, .lifecycle .preDisconnectReturns,
      .operation (.silentQuery ⟨false, true, true, false, true, true, false, true⟩)]
    ⟨⟨true, none, [], [.doPostDisconnect], 1, false⟩,
      [.called .sqlite3Exec none, .closed 0, .called .sqlite3BusyTimeout (some 0), .opened 0],
      [⟨none, false⟩]⟩ (by decide)
  exact absurd hbad.1.calls (by decide)

end StormByteDatabase.DriverCalls
