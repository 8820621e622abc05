import StormByteDatabase.Mariadb.ResultFetch

/-!
# MariaDB queries and the logging of warnings

The connector keeps one current result for a connection. `mysql_store_result` and
`mysql_field_count` are about the latest query, and a query sent while rows are still unread is
refused and drops the metadata of the current result. `LogMariaDBWarnings` sends a query of its own
between `mysql_real_query` and `mysql_store_result` when there is a logger and there are warnings.

`logging_transparent_iff`: `Query` gives the same result with a logger as without one exactly when
`WarningsHarmless`, and `select_with_warning` is a `SELECT` that loses its rows.

Proof. Without warnings the logger does nothing. With warnings and a result set, the second query is
refused and the rows can no longer be stored: `Query` reports success with no rows. With warnings and
no result set, the column count read afterwards is that of `SHOW WARNINGS`.
-/

namespace StormByteDatabase.MariaDB

/-- What the server answers to a statement. -/
inductive Answer
  | error (text : Bytes)
  | noResult (warnings : Nat)
  /-- A result set; `storeError` is the error of storing it, if there is one. -/
  | resultSet (res : Result) (warnings : Nat) (storeError : Option Bytes)
  deriving DecidableEq, Repr

/-- `MYSQL`. -/
structure Conn where
  /-- Rows of a result set have not been read. -/
  unread : Bool
  /-- The result set of the latest query, until it is stored or dropped. -/
  current : Option (Result × Option Bytes)
  fieldCount : Nat
  warningCount : Nat
  error : Bytes
  deriving DecidableEq, Repr

def outOfSync : Bytes := ascii "Commands out of sync; you can't run this command now"

/-- `mysql_real_query` and `mysql_query`; the flag is success. -/
def realQuery (a : Answer) (c : Conn) : Conn × Bool :=
  if c.unread then ({ c with current := none, fieldCount := 0, error := outOfSync }, false)
  else
    match a with
    | .error text => ({ c with current := none, fieldCount := 0, error := text }, false)
    | .noResult warnings =>
      ({ c with current := none, fieldCount := 0, warningCount := warnings, error := [] }, true)
    | .resultSet res warnings storeError =>
      ({ unread := true, current := some (res, storeError), fieldCount := res.fields.length,
         warningCount := warnings, error := [] }, true)

/-- `mysql_store_result`. -/
def storeResult (c : Conn) : Conn × Option Result :=
  match c.current with
  | none => (c, none)
  | some (res, none) => ({ c with unread := false, current := none }, some res)
  | some (_, some text) => ({ c with unread := false, current := none, error := text }, none)

/-- The members `Query` uses; `logger` says whether `m_logger` is set. -/
structure Database where
  connected : Bool
  conn : Option Conn
  logger : Bool
  deriving DecidableEq, Repr

/-- The level, the code and the message of a warning. -/
abbrev Notice := Bytes × Bytes × Bytes

/-- A cell as `LogMariaDBWarnings` writes it. -/
def noticeCell (row : List (Option Bytes)) (i : Nat) : Bytes := (row[i]?.join).getD []

def notices (res : Result) : List Notice :=
  res.rows.map fun row => (noticeCell row 0, noticeCell row 1, noticeCell row 2)

/-- `LogMariaDBWarnings`; `showAnswer` is the answer to `SHOW WARNINGS` should it be sent. -/
def logMariaDBWarnings (logger : Bool) (showAnswer : Answer) (c : Conn) : Conn × List Notice :=
  if logger = false ∨ c.warningCount = 0 then (c, [])
  else
    match realQuery showAnswer c with
    | (c, false) => (c, [])
    | (c, true) =>
      match storeResult c with
      | (c, none) => (c, [])
      | (c, some res) => (c, notices res)

variable (w : LongWidth)

/-- `Query` after the statement was sent and the warnings were logged. -/
def fetchResult (c : Conn) : Conn × ExpectedRows w :=
  match storeResult c with
  | (c, none) => (c, if c.fieldCount = 0 then .ok [] else .error (.executeError c.error))
  | (c, some res) => (c, stepResults w (some res))

/-- `MariaDB::Query`, with what it logs. -/
def query (answer showAnswer : Answer) (db : Database) :
    Database × ExpectedRows w × List Notice :=
  match db.connected, db.conn with
  | true, some c =>
    match realQuery answer c with
    | (c, false) => ({ db with conn := some c }, .error (.executeError c.error), [])
    | (c, true) =>
      let (c, logged) := logMariaDBWarnings db.logger showAnswer c
      let (c, rows) := fetchResult w c
      ({ db with conn := some c }, rows, logged)
  | _, _ => (db, .error (.executeError (ascii "Database not connected")), [])

/-! ### Two runs -/

variable {w}

/-- The same rows, or an error on both sides. -/
def SameResult : ExpectedRows w → ExpectedRows w → Prop
  | .ok rows, .ok rows' => rows = rows'
  | .error _, .error _ => True
  | _, _ => False

instance : ∀ r r' : ExpectedRows w, Decidable (SameResult r r')
  | .ok rows, .ok rows' => inferInstanceAs (Decidable (rows = rows'))
  | .error _, .error _ => inferInstanceAs (Decidable True)
  | .ok _, .error _ => inferInstanceAs (Decidable False)
  | .error _, .ok _ => inferInstanceAs (Decidable False)

theorem SameResult.refl (r : ExpectedRows w) : SameResult r r := by
  cases r with
  | ok rows => exact rfl
  | error e => trivial

/-- The server answers `SHOW WARNINGS` with no result set. -/
def Answer.HasNoResult : Answer → Prop
  | .resultSet _ _ _ => False
  | _ => True

/-- What the logging does not spoil: no warnings; or a statement without a result set, when
`SHOW WARNINGS` has none either; or a result set that can be stored and has no rows to return. -/
def WarningsHarmless (showAnswer : Answer) : Answer → Prop
  | .error _ => True
  | .noResult warnings => warnings = 0 ∨ showAnswer.HasNoResult
  | .resultSet res warnings storeError =>
    warnings = 0 ∨ (storeError = none ∧ Cxx.toInt res.rows.length ≤ 0)

theorem logMariaDBWarnings_none {logger : Bool} {showAnswer : Answer} {c : Conn}
    (h : logger = false ∨ c.warningCount = 0) : logMariaDBWarnings logger showAnswer c = (c, []) :=
  if_pos h

theorem stepResults_nil_iff (res : Result) :
    stepResults w (some res) = .ok [] ↔ Cxx.toInt res.rows.length ≤ 0 := by
  simp only [stepResults, Except.ok.injEq, List.map_eq_nil_iff, List.take_eq_nil_iff]
  constructor
  · rintro (h | h)
    · omega
    · rw [h]
      decide
  · intro h
    left
    omega

/-- The second query is refused and takes the columns of the first with it. -/
theorem fetch_after_refused {showAnswer : Answer} {c : Conn} (hunread : c.unread = true)
    (hwarn : c.warningCount ≠ 0) :
    (fetchResult w (logMariaDBWarnings true showAnswer c).1).2 = .ok [] := by
  have hlog : (logMariaDBWarnings true showAnswer c).1 =
      { c with current := none, fieldCount := 0, error := outOfSync } := by
    simp [logMariaDBWarnings, realQuery, hunread, hwarn]
  rw [hlog]
  rfl

/-- After a statement without a result set, the columns counted are those of the second query. -/
theorem fetch_after_show {showAnswer : Answer} {c : Conn} (hunread : c.unread = false)
    (hwarn : c.warningCount ≠ 0) :
    SameResult (fetchResult w (logMariaDBWarnings true showAnswer c).1).2 (.ok []) ↔
      showAnswer.HasNoResult := by
  cases showAnswer with
  | error text =>
    have hlog : (logMariaDBWarnings true (.error text) c).1 =
        { c with current := none, fieldCount := 0, error := text } := by
      simp [logMariaDBWarnings, realQuery, hunread, hwarn]
    rw [hlog]
    exact ⟨fun _ => trivial, fun _ => rfl⟩
  | noResult warnings =>
    have hlog : (logMariaDBWarnings true (.noResult warnings) c).1 =
        { c with current := none, fieldCount := 0, warningCount := warnings, error := [] } := by
      simp [logMariaDBWarnings, realQuery, storeResult, hunread, hwarn]
    rw [hlog]
    exact ⟨fun _ => trivial, fun _ => rfl⟩
  | resultSet res warnings storeError =>
    have hcount : res.fields.length ≠ 0 := fun h => res.columns (List.length_eq_zero_iff.mp h)
    have hlog : (logMariaDBWarnings true (.resultSet res warnings storeError) c).1.current = none ∧
        (logMariaDBWarnings true (.resultSet res warnings storeError) c).1.fieldCount =
          res.fields.length := by
      cases storeError <;> simp [logMariaDBWarnings, realQuery, storeResult, hunread, hwarn]
    simp only [fetchResult, storeResult, hlog.1, hlog.2, if_neg hcount]
    exact ⟨fun h => h, fun h => h⟩

theorem query_connected {answer showAnswer : Answer} {logger : Bool} {c c' : Conn}
    (h : realQuery answer c = (c', true)) :
    (query w answer showAnswer ⟨true, some c, logger⟩).2.1 =
      (fetchResult w (logMariaDBWarnings logger showAnswer c').1).2 := by
  simp only [query, h]

theorem query_refused {answer showAnswer : Answer} {logger : Bool} {c c' : Conn}
    (h : realQuery answer c = (c', false)) :
    (query w answer showAnswer ⟨true, some c, logger⟩).2.1 = .error (.executeError c'.error) := by
  simp only [query, h]

theorem fetch_without_logger {showAnswer : Answer} {c : Conn} :
    (fetchResult w (logMariaDBWarnings false showAnswer c).1).2 = (fetchResult w c).2 := by
  rw [logMariaDBWarnings_none (.inl rfl)]

theorem resultSet_transparent {res : Result} {warnings : Nat} {storeError : Option Bytes}
    {showAnswer : Answer} {c : Conn}
    (h : realQuery (.resultSet res warnings storeError) c =
      (⟨true, some (res, storeError), res.fields.length, warnings, []⟩, true)) :
    SameResult (query w (.resultSet res warnings storeError) showAnswer ⟨true, some c, true⟩).2.1
        (query w (.resultSet res warnings storeError) showAnswer ⟨true, some c, false⟩).2.1 ↔
      WarningsHarmless showAnswer (.resultSet res warnings storeError) := by
  rw [query_connected h, query_connected h, fetch_without_logger]
  simp only [WarningsHarmless]
  by_cases hwarn : warnings = 0
  · rw [logMariaDBWarnings_none (.inr hwarn)]
    exact ⟨fun _ => .inl hwarn, fun _ => SameResult.refl _⟩
  · rw [fetch_after_refused rfl hwarn, or_iff_right hwarn]
    cases storeError with
    | none =>
      rw [← stepResults_nil_iff (w := w)]
      show SameResult (.ok []) (stepResults w (some res)) ↔ _
      simp only [stepResults, SameResult, true_and, Except.ok.injEq]
      exact eq_comm
    | some text =>
      have hcount : res.fields.length ≠ 0 := fun h => res.columns (List.length_eq_zero_iff.mp h)
      have hfetch : (fetchResult w ⟨true, some (res, some text), res.fields.length, warnings, []⟩).2 =
          .error (.executeError text) := by
        simp only [fetchResult, storeResult]
        rw [if_neg hcount]
      rw [hfetch]
      exact ⟨fun h => h.elim, fun h => by cases h.1⟩

theorem noResult_transparent {warnings : Nat} {showAnswer : Answer} {c c' : Conn}
    (h : realQuery (.noResult warnings) c = (c', true)) (hunread : c'.unread = false)
    (hwarn : c'.warningCount = warnings) (hplain : (fetchResult w c').2 = .ok []) :
    SameResult (query w (.noResult warnings) showAnswer ⟨true, some c, true⟩).2.1
        (query w (.noResult warnings) showAnswer ⟨true, some c, false⟩).2.1 ↔
      WarningsHarmless showAnswer (.noResult warnings) := by
  rw [query_connected h, query_connected h, fetch_without_logger, hplain]
  simp only [WarningsHarmless]
  by_cases hzero : warnings = 0
  · rw [logMariaDBWarnings_none (.inr (hwarn.trans hzero)), hplain]
    exact ⟨fun _ => .inl hzero, fun _ => rfl⟩
  · rw [fetch_after_show hunread (hwarn ▸ hzero), or_iff_right hzero]

/-- **Logging is transparent**: a query gives the same result with and without a logger exactly when
there is no connection, the connection is out of sync, or the warnings do no harm. -/
theorem logging_transparent_iff (answer showAnswer : Answer) (connected : Bool)
    (conn : Option Conn) :
    SameResult (query w answer showAnswer ⟨connected, conn, true⟩).2.1
        (query w answer showAnswer ⟨connected, conn, false⟩).2.1 ↔
      (connected = true → ∀ c ∈ conn, c.unread = false → WarningsHarmless showAnswer answer) := by
  cases connected with
  | false => exact ⟨fun _ h => absurd h (by decide), fun _ => trivial⟩
  | true =>
    cases conn with
    | none => exact ⟨fun _ _ c hc => absurd hc (Option.not_mem_none c), fun _ => trivial⟩
    | some c =>
      simp only [Option.mem_def, Option.some.injEq, forall_eq', true_implies]
      by_cases hunread : c.unread = true
      · have hrefused : (realQuery answer c).2 = false := by simp [realQuery, hunread]
        have hpair : realQuery answer c = ((realQuery answer c).1, false) := by rw [← hrefused]
        rw [query_refused hpair, query_refused hpair]
        exact ⟨fun _ hf => by simp [hunread] at hf, fun _ => trivial⟩
      · have hunread : c.unread = false := by simpa using hunread
        simp only [hunread, true_implies]
        cases answer with
        | error text =>
          have hpair : realQuery (.error text) c =
              ({ c with current := none, fieldCount := 0, error := text }, false) := by
            simp [realQuery, hunread]
          rw [query_refused hpair, query_refused hpair]
          exact ⟨fun _ => trivial, fun _ => trivial⟩
        | noResult warnings =>
          have hpair : realQuery (.noResult warnings) c =
              ({ c with current := none, fieldCount := 0, warningCount := warnings, error := [] },
                true) := by
            simp [realQuery, hunread]
          exact noResult_transparent hpair hunread rfl rfl
        | resultSet res warnings storeError =>
          exact resultSet_transparent (by simp [realQuery, hunread])

/-- A new connection. -/
def newConn : Conn := ⟨false, none, 0, 0, []⟩

/-- One row with one cell. -/
def oneRow : Result := ⟨[some ⟨ascii "n", .long, false, 11, 63⟩], [[some (ascii "7")]], by decide, by decide⟩

/-- A `SELECT` with a warning loses its row when there is a logger. -/
theorem select_with_warning :
    ¬ ∀ (answer showAnswer : Answer) (connected : Bool) (conn : Option Conn),
      SameResult (query .bits64 answer showAnswer ⟨connected, conn, true⟩).2.1
        (query .bits64 answer showAnswer ⟨connected, conn, false⟩).2.1 := by
  intro h
  have hbad := h (.resultSet oneRow 1 none) (.noResult 0) true (some newConn)
  exact absurd hbad (by decide)

end StormByteDatabase.MariaDB
