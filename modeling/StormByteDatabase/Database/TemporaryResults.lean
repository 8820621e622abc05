import StormByteDatabase.Lib.ResourceLog
import StormByteDatabase.Mariadb.StmtResult
import StormByteDatabase.Postgres.ResultFetch
import StormByteDatabase.Sqlite.ResultFetch
import StormByteDatabase.Mariadb.Query

/-!
# Results that a call opens

A query opens what it has to give back before it returns: the statement and the error text of SQLite,
the `MYSQL_RES` of a query, of `SHOW WARNINGS` and of the metadata of a statement, the `PGresult`, and
in it the buffer of each `bytea` cell. Nothing closes them but a call on each path, and the paths part
at every answer of the driver.

`results_released_once`: after any calls on any objects, whatever the drivers answered and whatever the
connections were in, each of these was closed exactly once, and used before that only.

Proof. Every function leaves held what its caller holds (`Lib.ResourceLog.Holds`): one lemma for each
function, by the paths through it, and one induction for each loop.
-/

namespace StormByteDatabase.TemporaryResults

open Lib

/-! ### SQLite -/

namespace SQLite3

/-- What `sqlite3_prepare_v2` gives `Query`: an error, with a statement or not, or a statement with
what its steps give; there is none for a text without one. -/
inductive Prepared
  | refused (stmt : Bool)
  | accepted (steps : Option SQLite.Steps)
  deriving DecidableEq, Repr

/-- The calls on the statement that read a column. -/
def cellCalls : SQLite.Cell → Nat
  | .null => 2
  | .integer _ | .float _ | .text _ => 3
  | .blob _ => 4

def stepRow (stmt : Nat) (L : ResourceLog) (row : List SQLite.Column) : ResourceLog :=
  row.foldl (fun L c => L.uses stmt (cellCalls c.cell)) (L.uses stmt 2)

/-- `StepResults` of a statement that is not null. -/
def stepResults (stmt : Nat) (steps : SQLite.Steps) (L : ResourceLog) : ResourceLog :=
  let L := steps.rows.foldl (stepRow stmt) L
  match steps.final with
  | .done => L.uses stmt 1
  | .failed none => L.uses stmt 2
  | .failed (some _) => L.uses stmt 3

def query (connected : Bool) (a : Prepared) (L : ResourceLog) : ResourceLog :=
  if connected then
    match a with
    | .refused false => L
    | .refused true => L.acquire.release L.next
    | .accepted none => L
    | .accepted (some steps) => (stepResults L.next steps L.acquire).release L.next
  else L

/-- The end of `sqlite3_exec`; an error may come with a text. -/
inductive Executed
  | done
  | failed (errMsg : Bool)
  deriving DecidableEq, Repr

def doSilentQuery (connected logger : Bool) (a : Executed) (L : ResourceLog) : ResourceLog :=
  if connected then
    match a with
    | .done => L
    | .failed false => L
    | .failed true => (L.acquire.uses L.next (if logger then 1 else 0)).release L.next
  else L

end SQLite3

/-! ### PostgreSQL -/

namespace Postgres

/-- `PQresultErrorMessage(res) ? PQresultErrorMessage(res) : ...`. -/
def errorCalls (res : Postgres.PGResult) : Nat := if res.errorMessage.isSome then 2 else 1

def isOk (res : Postgres.PGResult) : Bool :=
  decide (res.status = .tuplesOk) || decide (res.status = .commandOk)

variable (unescapeBytea : Bytes → Option Bytes)

/-- One turn of the inner loop of `StepResults`; a `bytea` gets a buffer from the library. -/
def readCell (res : Nat) (L : ResourceLog) (p : Postgres.Field × Option Bytes) : ResourceLog :=
  match p.2 with
  | none => L.uses res 2
  | some val =>
    let L := L.uses res 5
    match p.1.ftype, unescapeBytea (cString val) with
    | 17, some out => (L.acquire.uses L.next (if out = [] then 0 else 1)).release L.next
    | _, _ => L

/-- `StepResults` of a result that is not null. -/
def stepResults (res : Nat) (result : Postgres.PGResult) (L : ResourceLog) : ResourceLog :=
  let L := L.uses res 1
  if isOk result then
    result.rows.foldl (fun L row => (result.fields.zip row).foldl (readCell unescapeBytea res) L)
      (L.uses res 2)
  else L.uses res (errorCalls result)

/-- `Query`, and `DoExecute`, from the answer on; without a result the pointer is null. -/
def fetch (result : Option Postgres.PGResult) (L : ResourceLog) : ResourceLog :=
  match result with
  | none => L
  | some result =>
    let res := L.next
    let L := L.acquire.uses res 1
    if isOk result then (stepResults unescapeBytea res result L).release res else L.release res

/-- `Query`; `connected` is `m_connected && m_conn`. -/
def query (connected : Bool) (result : Option Postgres.PGResult) (L : ResourceLog) : ResourceLog :=
  if connected then fetch unescapeBytea result L else L

/-- `DoExecute` of a prepared statement. -/
def doExecute (conn : Bool) (result : Option Postgres.PGResult) (L : ResourceLog) : ResourceLog :=
  if conn then fetch unescapeBytea result L else L

def doSilentQuery (connected : Bool) (result : Option Postgres.PGResult) (L : ResourceLog) :
    ResourceLog :=
  if connected then
    match result with
    | none => L
    | some result =>
      let res := L.next
      let L := L.acquire.uses res 1
      if isOk result then L.release res else L.release res
  else L

def createPreparedSTMT (conn logger : Bool) (result : Option Postgres.PGResult) (L : ResourceLog) :
    ResourceLog :=
  if conn then
    match result with
    | none => L
    | some result =>
      let res := L.next
      let L := L.acquire.uses res 1
      if isOk result then L.release res
      else (if logger then L.uses res (errorCalls result) else L).release res
  else L

end Postgres

/-! ### MariaDB -/

namespace MariaDB

/-- `LogMariaDBWarnings`. -/
def logMariaDBWarnings (logger : Bool) (showAnswer : MariaDB.Answer) (c : MariaDB.Conn)
    (L : ResourceLog) : ResourceLog :=
  if logger = false ∨ c.warningCount = 0 then L
  else
    match MariaDB.realQuery showAnswer c with
    | (_, false) => L
    | (c, true) =>
      match MariaDB.storeResult c with
      | (_, none) => L
      | (_, some res) => (L.acquire.uses L.next (res.rows.length + 1)).release L.next

/-- `StepResults` of a result that is not null: the counts, then for each row the row, its lengths and
its fields. -/
def stepResults (res : Nat) (result : MariaDB.Result) (L : ResourceLog) : ResourceLog :=
  (result.rows.take (Cxx.toInt result.rows.length).toNat).foldl
    (fun L row => L.uses res (2 + row.length)) (L.uses res 2)

def query (answer showAnswer : MariaDB.Answer) (db : MariaDB.Database) (L : ResourceLog) :
    ResourceLog :=
  match db.connected, db.conn with
  | true, some c =>
    match MariaDB.realQuery answer c with
    | (_, false) => L
    | (c, true) =>
      let L := logMariaDBWarnings db.logger showAnswer c L
      let (c, _) := StormByteDatabase.MariaDB.logMariaDBWarnings db.logger showAnswer c
      match MariaDB.storeResult c with
      | (_, none) => L
      | (_, some result) => (stepResults L.next result L.acquire).release L.next
  | _, _ => L

def doSilentQuery (answer showAnswer : MariaDB.Answer) (db : MariaDB.Database) (L : ResourceLog) :
    ResourceLog :=
  match db.connected, db.conn with
  | true, some c =>
    match MariaDB.realQuery answer c with
    | (_, false) => L
    | (c, true) => logMariaDBWarnings db.logger showAnswer c L
  | _, _ => L

variable (con : MariaDB.Connector) (g : Buffer.Growth) (raw : MariaDB.Cell → Bytes)

/-- The fetch loop of `DoExecute`, with the end of the metadata on each way out. -/
def fetchAll {n : Nat} (wild : (Fin n → MariaDB.Output) → Fin n → MariaDB.Output) (res : Nat) :
    (Fin n → MariaDB.Output) → List (MariaDB.FetchAnswer n) → ResourceLog → ResourceLog
  | _, [], L => L.release res
  | _, .failed _ :: _, L => L.release res
  | cols, .row cells reported columnError :: rest, L =>
    match MariaDB.fetchOutputs con g raw wild cols cells reported columnError with
    | .error _ => L.release res
    | .ok cols => fetchAll wild res cols rest (L.uses res n)

/-- `DoExecute` from `mysql_stmt_execute` on. -/
def doExecute (wild : ∀ n, (Fin n → MariaDB.Output) → Fin n → MariaDB.Output)
    (a : MariaDB.ExecuteAnswer) (L : ResourceLog) : ResourceLog :=
  match a with
  | .refused _ => L
  | .noMetadata _ _ => L
  | .result n fields bindError storeError fetches =>
    let res := L.next
    let L := L.acquire.uses res (1 + n)
    match bindError, storeError with
    | some _, _ => L.release res
    | none, some _ => L.release res
    | none, none =>
      fetchAll con g raw (wild n) res (fun i => MariaDB.bindOutput g (fields i)) fetches L

end MariaDB

/-! ### The calls -/

/-- A call on an object, with the answers of the driver and what it finds of the connection. -/
inductive Call
  | sqliteQuery (connected : Bool) (a : SQLite3.Prepared)
  | sqliteSilentQuery (connected logger : Bool) (a : SQLite3.Executed)
  | postgresQuery (connected : Bool) (result : Option Postgres.PGResult)
  | postgresSilentQuery (connected : Bool) (result : Option Postgres.PGResult)
  | postgresPrepare (conn logger : Bool) (result : Option Postgres.PGResult)
  | postgresExecute (conn : Bool) (result : Option Postgres.PGResult)
  | mariadbQuery (answer showAnswer : MariaDB.Answer) (db : MariaDB.Database)
  | mariadbSilentQuery (answer showAnswer : MariaDB.Answer) (db : MariaDB.Database)
  | mariadbExecute (a : MariaDB.ExecuteAnswer)

def Call.run (unescapeBytea : Bytes → Option Bytes) (con : MariaDB.Connector) (g : Buffer.Growth)
    (raw : MariaDB.Cell → Bytes) (wild : ∀ n, (Fin n → MariaDB.Output) → Fin n → MariaDB.Output)
    (L : ResourceLog) : Call → ResourceLog
  | .sqliteQuery connected a => SQLite3.query connected a L
  | .sqliteSilentQuery connected logger a => SQLite3.doSilentQuery connected logger a L
  | .postgresQuery connected result => Postgres.query unescapeBytea connected result L
  | .postgresSilentQuery connected result => Postgres.doSilentQuery connected result L
  | .postgresPrepare conn logger result => Postgres.createPreparedSTMT conn logger result L
  | .postgresExecute conn result => Postgres.doExecute unescapeBytea conn result L
  | .mariadbQuery answer showAnswer db => MariaDB.query answer showAnswer db L
  | .mariadbSilentQuery answer showAnswer db => MariaDB.doSilentQuery answer showAnswer db L
  | .mariadbExecute a => MariaDB.doExecute con g raw wild a L

/-! ### What each function leaves held -/

section

variable {held : List Nat} {L : ResourceLog} {r : Nat}

namespace SQLite3

theorem holds_stepResults (h : L.Holds held) (hr : r ∈ held) (steps : SQLite.Steps) :
    (stepResults r steps L).Holds held := by
  have hrows : (steps.rows.foldl (stepRow r) L).Holds held :=
    h.foldl (fun L row hL => (hL.uses hr 2).foldl (fun L c hL => hL.uses hr _) row) steps.rows
  unfold stepResults
  dsimp only
  split
  · exact hrows.uses hr 1
  · exact hrows.uses hr 2
  · exact hrows.uses hr 3

theorem holds_query (h : L.Holds held) (connected : Bool) (a : Prepared) :
    (query connected a L).Holds held := by
  unfold query
  split_ifs
  · split
    · exact h
    · exact h.acquire.release
    · exact h
    · exact (holds_stepResults h.acquire List.mem_cons_self _).release
  · exact h

theorem holds_doSilentQuery (h : L.Holds held) (connected logger : Bool) (a : Executed) :
    (doSilentQuery connected logger a L).Holds held := by
  cases connected with
  | false => exact h
  | true =>
    unfold doSilentQuery
    rw [if_pos rfl]
    split
    · exact h
    · exact h
    · exact (h.acquire.uses List.mem_cons_self _).release

end SQLite3

namespace Postgres

variable {unescapeBytea : Bytes → Option Bytes}

theorem holds_readCell (h : L.Holds held) (hr : r ∈ held) (p : Postgres.Field × Option Bytes) :
    (readCell unescapeBytea r L p).Holds held := by
  unfold readCell
  split
  · exact h.uses hr 2
  · dsimp only
    split
    · exact ((h.uses hr 5).acquire.uses List.mem_cons_self _).release
    · exact h.uses hr 5

theorem holds_stepResults (h : L.Holds held) (hr : r ∈ held) (result : Postgres.PGResult) :
    (stepResults unescapeBytea r result L).Holds held := by
  have hstatus := h.uses hr 1
  unfold stepResults
  dsimp only
  split_ifs
  · apply (hstatus.uses hr 2).foldl
    exact fun L row hL => hL.foldl (fun L p hL => holds_readCell hL hr p) _
  · exact hstatus.uses hr _

theorem holds_fetch (h : L.Holds held) (result : Option Postgres.PGResult) :
    (fetch unescapeBytea result L).Holds held := by
  unfold fetch
  split
  · exact h
  · have hstatus := h.acquire.uses List.mem_cons_self 1
    dsimp only
    split_ifs
    · exact (holds_stepResults hstatus List.mem_cons_self _).release
    · exact hstatus.release

theorem holds_query (h : L.Holds held) (connected : Bool) (result : Option Postgres.PGResult) :
    (query unescapeBytea connected result L).Holds held := by
  unfold query
  split_ifs
  · exact holds_fetch h result
  · exact h

theorem holds_doExecute (h : L.Holds held) (conn : Bool) (result : Option Postgres.PGResult) :
    (doExecute unescapeBytea conn result L).Holds held := by
  unfold doExecute
  split_ifs
  · exact holds_fetch h result
  · exact h

theorem holds_doSilentQuery (h : L.Holds held) (connected : Bool)
    (result : Option Postgres.PGResult) : (doSilentQuery connected result L).Holds held := by
  unfold doSilentQuery
  split_ifs
  · split
    · exact h
    · have hstatus := h.acquire.uses List.mem_cons_self 1
      dsimp only
      split_ifs <;> exact hstatus.release
  · exact h

theorem holds_createPreparedSTMT (h : L.Holds held) (conn logger : Bool)
    (result : Option Postgres.PGResult) :
    (createPreparedSTMT conn logger result L).Holds held := by
  cases conn with
  | false => exact h
  | true =>
    unfold createPreparedSTMT
    rw [if_pos rfl]
    split
    · exact h
    · have hstatus := h.acquire.uses List.mem_cons_self 1
      dsimp only
      split_ifs
      · exact hstatus.release
      · exact (hstatus.uses List.mem_cons_self _).release
      · exact hstatus.release

end Postgres

namespace MariaDB

theorem holds_logMariaDBWarnings (h : L.Holds held) (logger : Bool) (showAnswer : MariaDB.Answer)
    (c : MariaDB.Conn) : (logMariaDBWarnings logger showAnswer c L).Holds held := by
  unfold logMariaDBWarnings
  split_ifs
  · exact h
  · split
    · exact h
    · split
      · exact h
      · exact (h.acquire.uses List.mem_cons_self _).release

theorem holds_stepResults (h : L.Holds held) (hr : r ∈ held) (result : MariaDB.Result) :
    (stepResults r result L).Holds held :=
  (h.uses hr 2).foldl (fun _ _ hL => hL.uses hr _) _

theorem holds_query (h : L.Holds held) (answer showAnswer : MariaDB.Answer)
    (db : MariaDB.Database) : (query answer showAnswer db L).Holds held := by
  unfold query
  split
  · split
    · exact h
    · have hlogged := holds_logMariaDBWarnings h db.logger showAnswer
      dsimp only
      split
      · exact hlogged _
      · exact (holds_stepResults (hlogged _).acquire List.mem_cons_self _).release
  · exact h

theorem holds_doSilentQuery (h : L.Holds held) (answer showAnswer : MariaDB.Answer)
    (db : MariaDB.Database) : (doSilentQuery answer showAnswer db L).Holds held := by
  unfold doSilentQuery
  split
  · split
    · exact h
    · exact holds_logMariaDBWarnings h db.logger showAnswer _
  · exact h

variable {con : MariaDB.Connector} {g : Buffer.Growth} {raw : MariaDB.Cell → Bytes}

/-- Every way out of the loop gives the metadata back. -/
theorem holds_fetchAll {n : Nat} {wild : (Fin n → MariaDB.Output) → Fin n → MariaDB.Output}
    (cols : Fin n → MariaDB.Output) (fetches : List (MariaDB.FetchAnswer n))
    (h : L.Holds (r :: held)) : (fetchAll con g raw wild r cols fetches L).Holds held := by
  induction fetches generalizing cols L with
  | nil => exact h.release
  | cons fetch rest ih =>
    cases fetch with
    | failed error => exact h.release
    | row cells reported columnError =>
      unfold fetchAll
      split
      · exact h.release
      · exact ih _ (h.uses List.mem_cons_self n)

theorem holds_doExecute {wild : ∀ n, (Fin n → MariaDB.Output) → Fin n → MariaDB.Output}
    (h : L.Holds held) (a : MariaDB.ExecuteAnswer) :
    (doExecute con g raw wild a L).Holds held := by
  cases a with
  | refused error => exact h
  | noMetadata fieldCount error => exact h
  | result n fields bindError storeError fetches =>
    have hfields := h.acquire.uses List.mem_cons_self (1 + n)
    unfold doExecute
    dsimp only
    split
    · exact hfields.release
    · exact hfields.release
    · exact holds_fetchAll _ fetches hfields

end MariaDB

end

/-- **Results are released once.** After any calls, each result that was opened has been closed exactly
once, and was used and closed only while it was open. -/
theorem results_released_once (unescapeBytea : Bytes → Option Bytes) (con : MariaDB.Connector)
    (g : Buffer.Growth) (raw : MariaDB.Cell → Bytes)
    (wild : ∀ n, (Fin n → MariaDB.Output) → Fin n → MariaDB.Output) (calls : List Call) :
    let L := calls.foldl (Call.run unescapeBytea con g raw wild) .empty
    Ordered L.log ∧ ∀ r, .opened r ∈ L.log → L.log.count (.closed r) = 1 := by
  have hcall : ∀ (L : ResourceLog) (c : Call), L.Holds [] →
      (c.run unescapeBytea con g raw wild L).Holds [] := by
    intro L c h
    cases c with
    | sqliteQuery connected a => exact SQLite3.holds_query h connected a
    | sqliteSilentQuery connected logger a => exact SQLite3.holds_doSilentQuery h connected logger a
    | postgresQuery connected result => exact Postgres.holds_query h connected result
    | postgresSilentQuery connected result => exact Postgres.holds_doSilentQuery h connected result
    | postgresPrepare conn logger result =>
      exact Postgres.holds_createPreparedSTMT h conn logger result
    | postgresExecute conn result => exact Postgres.holds_doExecute h conn result
    | mariadbQuery answer showAnswer db => exact MariaDB.holds_query h answer showAnswer db
    | mariadbSilentQuery answer showAnswer db =>
      exact MariaDB.holds_doSilentQuery h answer showAnswer db
    | mariadbExecute a => exact MariaDB.holds_doExecute h a
  have h := ResourceLog.holds_empty.foldl hcall calls
  exact ⟨h.owned.ordered, fun r hr => h.count_closed hr⟩

end StormByteDatabase.TemporaryResults
