import StormByteDatabase.Sqlite.ResultFetch

/-!
# Scripts of several SQL statements

`Query` compiles a text with `sqlite3_prepare_v2`, which reads the first statement only, and passes
no pointer for the rest. `SilentQuery` gives the text to `sqlite3_exec`, which runs the statements in
order up to the first failure. The database is any type of states, and a statement is what compiling
and stepping it comes to in a state.

`query_silentQuery_agree_iff`: the two leave the same state and agree on success exactly when the
first statement fails, or the statements after it all succeed and together change nothing.
-/

namespace StormByteDatabase.SQLite

variable {σ : Type}

/-- What a statement comes to in a state. -/
inductive Execution (σ : Type)
  /-- It is not compiled, with the text of `sqlite3_errmsg`. -/
  | refused (error : Bytes)
  /-- What the calls of `sqlite3_step` give, up to the last, and the state after it. -/
  | ran (steps : Steps) (state : σ)

abbrev Statement (σ : Type) := σ → Execution σ

/-- `m_connected` and the database behind `m_database`. -/
structure Session (σ : Type) where
  connected : Bool
  database : σ

/-- `sqlite3_exec`: whether it returns `SQLITE_OK`, and the state it leaves. -/
def sqlite3Exec : List (Statement σ) → σ → Bool × σ
  | [], s => (true, s)
  | stmt :: rest, s =>
    match stmt s with
    | .refused _ => (false, s)
    | .ran steps s' =>
      match steps.final with
      | .done => sqlite3Exec rest s'
      | .failed _ => (false, s')

/-- `Query`. A text without a statement compiles to a null statement. -/
def query (w : LongWidth) (script : List (Statement σ)) (c : Session σ) :
    ExpectedRows w × Session σ :=
  if c.connected then
    match script with
    | [] => (stepResults w none, c)
    | stmt :: _ =>
      match stmt c.database with
      | .refused error => (.error (.executeError error), c)
      | .ran steps s => (stepResults w (some steps), { c with database := s })
  else (.error (.executeError (ascii "Database not connected")), c)

/-- `SilentQuery`, which is `DoSilentQuery`. -/
def silentQuery (script : List (Statement σ)) (c : Session σ) : Bool × Session σ :=
  if c.connected then
    let (ok, s) := sqlite3Exec script c.database
    (ok, { c with database := s })
  else (false, c)

/-- The same state, and success for both or for neither. -/
def Agree (w : LongWidth) (script : List (Statement σ)) (c : Session σ) : Prop :=
  (query w script c).2 = (silentQuery script c).2 ∧
    ((∃ rows, (query w script c).1 = .ok rows) ↔ (silentQuery script c).1 = true)

/-! ### What a script does -/

/-- The statement succeeds and leads from `s` to `t`. -/
def Succeeds (stmt : Statement σ) (s t : σ) : Prop :=
  ∃ steps, stmt s = .ran steps t ∧ steps.final = .done

/-- All statements succeed, one after the other, and lead from `s` to `t`. -/
inductive AllSucceed : List (Statement σ) → σ → σ → Prop
  | nil (s : σ) : AllSucceed [] s s
  | cons {stmt : Statement σ} {rest : List (Statement σ)} {s t u : σ} (head : Succeeds stmt s t)
      (tail : AllSucceed rest t u) : AllSucceed (stmt :: rest) s u

variable {stmt : Statement σ} {rest : List (Statement σ)} {s t u : σ}

theorem Succeeds.unique (h : Succeeds stmt s t) (h' : Succeeds stmt s u) : t = u := by
  obtain ⟨steps, hran, _⟩ := h
  obtain ⟨steps', hran', _⟩ := h'
  exact (Execution.ran.inj (hran.symm.trans hran')).2

theorem exec_of_succeeds (h : Succeeds stmt s t) :
    sqlite3Exec (stmt :: rest) s = sqlite3Exec rest t := by
  obtain ⟨steps, hran, hdone⟩ := h
  simp only [sqlite3Exec, hran, hdone]

theorem exec_of_fails (h : ¬ ∃ t, Succeeds stmt s t) : (sqlite3Exec (stmt :: rest) s).1 = false := by
  unfold sqlite3Exec
  split
  · rfl
  · rename_i steps s' hran
    split
    · rename_i hdone
      exact absurd ⟨s', steps, hran, hdone⟩ h
    · rfl

theorem exec_eq_true_iff (script : List (Statement σ)) (s u : σ) :
    sqlite3Exec script s = (true, u) ↔ AllSucceed script s u := by
  induction script generalizing s with
  | nil =>
    constructor
    · intro h
      obtain rfl : s = u := congrArg Prod.snd h
      exact .nil s
    · intro h
      cases h
      rfl
  | cons stmt rest ih =>
    by_cases hsucceeds : ∃ t, Succeeds stmt s t
    · obtain ⟨t, ht⟩ := hsucceeds
      rw [exec_of_succeeds ht, ih]
      constructor
      · exact fun htail => .cons ht htail
      · intro h
        cases h with
        | cons head tail => exact ht.unique head ▸ tail
    · refine iff_of_false (fun h => ?_) fun h => ?_
      · have hfalse : (sqlite3Exec (stmt :: rest) s).1 = false := exec_of_fails hsucceeds
        rw [h] at hfalse
        cases hfalse
      · cases h with
        | cons head _ => exact hsucceeds ⟨_, head⟩

/-! ### The two calls -/

theorem query_of_succeeds (w : LongWidth) (h : Succeeds stmt s t) :
    ∃ rows, query w (stmt :: rest) ⟨true, s⟩ = (.ok rows, ⟨true, t⟩) := by
  obtain ⟨steps, hran, hdone⟩ := h
  refine ⟨steps.rows.map (stepRow w), ?_⟩
  simp only [query, if_true, hran, stepResults, hdone]

theorem agree_of_failures {w : LongWidth} {script : List (Statement σ)} {c d : Session σ}
    {error : QueryException} (hquery : query w script c = (.error error, d))
    (hsilent : silentQuery script c = (false, d)) : Agree w script c := by
  unfold Agree
  rw [hquery, hsilent]
  refine ⟨rfl, iff_of_false ?_ nofun⟩
  intro ⟨rows, hrows⟩
  cases hrows

theorem agree_of_fails (w : LongWidth) (h : ¬ ∃ t, Succeeds stmt s t) :
    Agree w (stmt :: rest) ⟨true, s⟩ := by
  cases hran : stmt s with
  | refused error =>
    apply agree_of_failures (d := ⟨true, s⟩)
    · simp only [query, hran, if_true]
      rfl
    · simp only [silentQuery, sqlite3Exec, hran, if_true]
  | ran steps t =>
    cases hfinal : steps.final with
    | done => exact absurd ⟨t, steps, hran, hfinal⟩ h
    | failed handle =>
      apply agree_of_failures (d := ⟨true, t⟩)
      · simp only [query, hran, if_true, stepResults, hfinal]
        rfl
      · simp only [silentQuery, sqlite3Exec, hran, hfinal, if_true]

theorem agree_of_succeeds_iff (w : LongWidth) (h : Succeeds stmt s t) :
    Agree w (stmt :: rest) ⟨true, s⟩ ↔ AllSucceed rest t t := by
  obtain ⟨rows, hquery⟩ : ∃ rows, query w (stmt :: rest) ⟨true, s⟩ = (.ok rows, ⟨true, t⟩) :=
    query_of_succeeds w h
  rw [← exec_eq_true_iff]
  unfold Agree
  rw [hquery]
  unfold silentQuery
  simp only [if_true, exec_of_succeeds h]
  constructor
  · rintro ⟨hstate, hok⟩
    have hstate' : t = (sqlite3Exec rest t).2 := congrArg Session.database hstate
    have hok' : (sqlite3Exec rest t).1 = true := hok.mp ⟨rows, rfl⟩
    exact Prod.ext hok' hstate'.symm
  · intro hexec
    rw [hexec]
    exact ⟨rfl, iff_of_true ⟨rows, rfl⟩ rfl⟩

/-- **`Query` and `SilentQuery` agree** on a script exactly when its first statement fails or the
others succeed without a lasting effect. -/
theorem query_silentQuery_agree_iff (w : LongWidth) (stmt : Statement σ)
    (rest : List (Statement σ)) (s : σ) :
    Agree w (stmt :: rest) ⟨true, s⟩ ↔ ∀ t, Succeeds stmt s t → AllSucceed rest t t := by
  by_cases hsucceeds : ∃ t, Succeeds stmt s t
  · obtain ⟨t, ht⟩ := hsucceeds
    rw [agree_of_succeeds_iff w ht]
    constructor
    · intro hrest t' ht'
      exact ht.unique ht' ▸ hrest
    · exact fun h => h t ht
  · refine iff_of_true (agree_of_fails w hsucceeds) fun t ht => ?_
    exact absurd ⟨t, ht⟩ hsucceeds

/-- An `INSERT` into a table that is the number of its rows. -/
def insertRow : Statement Nat := fun rows => .ran ⟨[], .done⟩ (rows + 1)

/-- Of two insertions `Query` makes one. -/
theorem second_statement_dropped :
    ¬ ∀ (σ : Type) (stmt : Statement σ) (rest : List (Statement σ)) (s : σ),
      Agree .bits64 (stmt :: rest) ⟨true, s⟩ := by
  intro h
  have hstate := (h Nat insertRow [insertRow] 0).1
  have hrows : 1 = 2 := congrArg Session.database hstate
  exact absurd hrows (by decide)

end StormByteDatabase.SQLite
