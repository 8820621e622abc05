import Mathlib.Data.List.Induction
import Mathlib.Data.List.Pairwise
import StormByteDatabase.Database.Lifecycle

/-!
# The statements registered on one connection

`DoPrepareSTMT` asks the server to prepare a query and enters the statement under its name unless the
name is taken; `ExecuteSTMT` looks the name up. A PostgreSQL statement is the name itself, up to its
first NUL byte, and the server refuses a name in use. The statement under the empty name ends with the
next preparation under it, whether that succeeds or not.

`registry_iff`: after any preparations, `ExecuteSTMT` runs the first query that was prepared under the
name, and reports an unknown statement exactly when none was, always for SQLite; for MariaDB exactly
when the first preparation under the name succeeded, since a refused one is registered all the same;
and for PostgreSQL exactly when the name is not empty on the server, or nothing was prepared under it,
or the last preparation under the empty name succeeded, with the query that was the first under this
name. `refused_blocks` is a MariaDB statement that is refused and then accepted.

Proof. The registry finds under a name the first statement that was made for it (`find?_emplace`), so
that only what is made for a refused preparation, and what the server holds, tell the backends apart.
-/

namespace StormByteDatabase.Registry

open Lifecycle (PreparedSTMT State createPreparedSTMT doPrepareSTMT emplace executeSTMT)

/-- A call of `DoPrepareSTMT`; `accepted` says whether the server takes the query. -/
structure Preparation where
  name : Bytes
  query : Bytes
  accepted : Bool
  deriving DecidableEq, Repr

/-- The object, the names and queries of the preparations that succeeded, in order, and the query of
the statement that a PostgreSQL server holds under the empty name. -/
structure Session where
  state : State
  succeeded : List (Bytes × Bytes)
  unnamed : Option Bytes

/-- A connection that was just opened. -/
def opened : Session := ⟨⟨true, some 0, [], [], 1, false⟩, [], none⟩

/-- The preparation succeeds. -/
def grants (b : Backend) (succeeded : List (Bytes × Bytes)) (p : Preparation) : Bool :=
  match b with
  | .sqlite3 | .mariaDB => p.accepted
  | .postgres =>
    p.accepted && (cString p.name = [] || !succeeded.any fun q => cString q.1 = cString p.name)

def prepare (b : Backend) (s : Session) (p : Preparation) : Session :=
  let granted := grants b s.succeeded p
  { state := doPrepareSTMT b p.name p.query granted s.state
    succeeded := if granted then s.succeeded ++ [(p.name, p.query)] else s.succeeded
    -- the unnamed statement lasts until the next preparation, and a refused one ends it too
    unnamed := if cString p.name = [] then (if granted then some p.query else none) else s.unnamed }

/-- The session after the preparations. -/
def after (b : Backend) (ps : List Preparation) : Session := ps.foldl (prepare b) opened

/-- The query the PostgreSQL server holds under a name. -/
def Session.held (s : Session) (name : Bytes) : Option Bytes :=
  if name = [] then s.unnamed else (s.succeeded.find? fun q => cString q.1 = name).map (·.2)

/-- The query that `Execute` runs. -/
def Session.run (b : Backend) (s : Session) (stmt : PreparedSTMT) : Except QueryException Bytes :=
  if stmt.prepared = false then .error (.executeError (ascii "No DB connection or statement"))
  else
    match b with
    | .sqlite3 | .mariaDB => .ok stmt.query
    | .postgres =>
      match s.held (cString stmt.name) with
      | some query => .ok query
      | none => .error (.executeError (ascii "prepared statement does not exist"))

/-- The query that `ExecuteSTMT` runs. -/
def Session.execute (b : Backend) (s : Session) (name : Bytes) : Except QueryException Bytes :=
  match executeSTMT name s.state with
  | .ok stmt => s.run b stmt
  | .error e => .error e

/-- The query that `ExecuteSTMT` is to run: the first one prepared under the name. -/
def Session.expected (s : Session) (name : Bytes) : Except QueryException Bytes :=
  match s.succeeded.find? (·.1 = name) with
  | some q => .ok q.2
  | none => .error (.unknownSTMT name)

/-- The preparation is under the empty name on the server. -/
def Preparation.isUnnamed (p : Preparation) : Bool := cString p.name = []

/-- The preparation is of this name, and the server takes the query. -/
def Preparation.isAcceptedAs (name : Bytes) (p : Preparation) : Bool := p.accepted && p.name = name

/-- What decides, by the backend. -/
def Faithful (b : Backend) (ps : List Preparation) (name : Bytes) : Prop :=
  match b with
  | .sqlite3 => True
  | .mariaDB => ∀ p ∈ ps.find? (·.name = name), p.accepted = true
  | .postgres => cString name = [] → ∀ p ∈ ps.find? (·.isAcceptedAs name),
    ∀ last ∈ (ps.filter (·.isUnnamed)).getLast?, last.accepted = true ∧ last.query = p.query

/-! ### The registry -/

variable {b : Backend} {s : Session} {p : Preparation} {ps : List Preparation} {name : Bytes}

/-- The statement registered under the name. -/
def Session.lookup (s : Session) (name : Bytes) : Option PreparedSTMT :=
  s.state.preparedStmts.find? (·.name = name)

/-- A name that is taken keeps its statement. -/
theorem find?_emplace (stmts : List PreparedSTMT) (stmt : PreparedSTMT) (name : Bytes) :
    (emplace stmts stmt).find? (·.name = name) =
      (stmts.find? (·.name = name)).or (if stmt.name = name then some stmt else none) := by
  unfold emplace
  split_ifs with htaken hname hname
  · have hsome : (stmts.find? (·.name = name)).isSome := by
      rw [List.find?_isSome]
      simpa [hname] using htaken
    rw [Option.or_of_isSome hsome]
  · rw [Option.or_none]
  · have hnone : stmts.find? (·.name = name) = none := by
      rw [List.find?_eq_none]
      simpa [hname] using htaken
    rw [hnone, Option.none_or, List.find?_cons_of_pos (by simpa using hname)]
  · rw [Option.or_none, List.find?_cons_of_neg (by simpa using hname)]

/-- What `CreatePreparedSTMT` makes on a connection. -/
def made (b : Backend) (granted : Bool) (p : Preparation) : Option PreparedSTMT :=
  match b with
  | .mariaDB => some ⟨p.name, p.query, 0, granted⟩
  | .sqlite3 | .postgres => if granted then some ⟨p.name, p.query, 0, true⟩ else none

theorem prepare_spec (b : Backend) (p : Preparation) (hconn : s.state.conn = some 0) :
    (prepare b s p).state.conn = some 0 ∧
      ∀ name, (prepare b s p).lookup name = (s.lookup name).or
        ((made b (grants b s.succeeded p) p).filter (·.name = name)) := by
  have hcreate : ∀ granted, createPreparedSTMT b p.name p.query granted s.state =
      made b granted p := fun granted => by
    simp only [createPreparedSTMT, hconn]
    cases b <;> rfl
  simp only [prepare, doPrepareSTMT, hcreate, Session.lookup]
  cases made b (grants b s.succeeded p) p with
  | none => exact ⟨hconn, fun name => by simp⟩
  | some stmt =>
    refine ⟨hconn, fun name => (find?_emplace _ _ _).trans ?_⟩
    simp [Option.filter]

theorem after_append (b : Backend) (ps : List Preparation) (p : Preparation) :
    after b (ps ++ [p]) = prepare b (after b ps) p := by
  simp [after]

theorem conn_after (b : Backend) (ps : List Preparation) : (after b ps).state.conn = some 0 := by
  induction ps using List.reverseRecOn with
  | nil => rfl
  | append_singleton ps p ih =>
    rw [after_append]
    exact (prepare_spec b p ih).1

theorem lookup_mariaDB (ps : List Preparation) (name : Bytes) :
    (after .mariaDB ps).lookup name =
      (ps.find? (·.name = name)).map fun p => ⟨p.name, p.query, 0, p.accepted⟩ := by
  induction ps using List.reverseRecOn with
  | nil => rfl
  | append_singleton ps p ih =>
    rw [after_append, (prepare_spec .mariaDB p (conn_after .mariaDB ps)).2, ih, List.find?_append,
      Option.map_or]
    by_cases hname : p.name = name <;> simp [made, grants, hname, Option.filter]

theorem lookup_of_ne_mariaDB (hb : b ≠ .mariaDB) (ps : List Preparation) (name : Bytes) :
    (after b ps).lookup name =
      ((after b ps).succeeded.find? (·.1 = name)).map fun q => ⟨q.1, q.2, 0, true⟩ := by
  induction ps using List.reverseRecOn with
  | nil => rfl
  | append_singleton ps p ih =>
    have hmade : ∀ granted, made b granted p =
        if granted then some ⟨p.name, p.query, 0, true⟩ else none := fun granted => by
      cases b <;> first | rfl | exact absurd rfl hb
    rw [after_append, (prepare_spec b p (conn_after b ps)).2, ih, hmade]
    simp only [prepare]
    cases grants b (after b ps).succeeded p with
    | false => simp
    | true =>
      rw [if_pos rfl, if_pos rfl, List.find?_append, Option.map_or]
      by_cases hname : p.name = name <;> simp [hname, Option.filter]

theorem succeeded_of_ne_postgres (hb : b ≠ .postgres) (ps : List Preparation) :
    (after b ps).succeeded = (ps.filter (·.accepted)).map fun p => (p.name, p.query) := by
  induction ps using List.reverseRecOn with
  | nil => rfl
  | append_singleton ps p ih =>
    have hgrants : grants b (after b ps).succeeded p = p.accepted := by
      cases b <;> first | rfl | exact absurd rfl hb
    rw [after_append]
    simp only [prepare, hgrants]
    rw [ih]
    cases hp : p.accepted <;> simp [hp]

/-! ### The PostgreSQL server -/

theorem pairwise_succeeded (ps : List Preparation) :
    (after .postgres ps).succeeded.Pairwise fun q q' =>
      cString q.1 = cString q'.1 → cString q.1 = [] := by
  induction ps using List.reverseRecOn with
  | nil => exact .nil
  | append_singleton ps p ih =>
    rw [after_append]
    simp only [prepare]
    split_ifs with hgrants
    · refine List.pairwise_append.mpr ⟨ih, List.pairwise_singleton _ _, ?_⟩
      intro q hq q' hq' heq
      obtain rfl := List.mem_singleton.mp hq'
      simp only [grants, Bool.and_eq_true, Bool.or_eq_true, decide_eq_true_eq,
        Bool.not_eq_true', List.any_eq_false] at hgrants
      rcases hgrants.2 with hempty | hfresh
      · exact heq.trans hempty
      · exact absurd heq (hfresh q hq)
    · exact ih

theorem held_of_mem {q : Bytes × Bytes} (hq : q ∈ (after .postgres ps).succeeded)
    (hne : cString q.1 ≠ []) : (after .postgres ps).held (cString q.1) = some q.2 := by
  have hsymm : Std.Symm fun q q' : Bytes × Bytes =>
      cString q.1 = cString q'.1 → cString q.1 = [] :=
    ⟨fun a b h heq => heq.trans (h heq.symm)⟩
  have hfound : ((after .postgres ps).succeeded.find? fun q' =>
      cString q'.1 = cString q.1).isSome := by
    rw [List.find?_isSome]
    exact ⟨q, hq, by simp⟩
  obtain ⟨q', hq'⟩ := Option.isSome_iff_exists.mp hfound
  have hmem : q' ∈ (after .postgres ps).succeeded := List.mem_of_find?_eq_some hq'
  have hname : cString q'.1 = cString q.1 := by simpa using List.find?_some hq'
  have hsame : q = q' := by
    by_contra hdiff
    exact hne ((pairwise_succeeded ps).forall hq hmem hdiff hname.symm)
  rw [Session.held, if_neg hne, hq', ← hsame]
  rfl

/-- The last preparation under the empty name is what the server holds under it. -/
theorem unnamed_after (ps : List Preparation) :
    (after .postgres ps).unnamed =
      (ps.filter (·.isUnnamed)).getLast?.bind fun p => if p.accepted then some p.query else none := by
  induction ps using List.reverseRecOn with
  | nil => rfl
  | append_singleton ps p ih =>
    rw [after_append, List.filter_append]
    simp only [prepare, ih]
    by_cases hname : cString p.name = []
    · simp [hname, Preparation.isUnnamed, grants]
    · simp [hname, Preparation.isUnnamed]

theorem find?_succeeded (ps : List Preparation) (hname : cString name = []) :
    (after .postgres ps).succeeded.find? (·.1 = name) =
      (ps.find? (·.isAcceptedAs name)).map fun p => (p.name, p.query) := by
  induction ps using List.reverseRecOn with
  | nil => rfl
  | append_singleton ps p ih =>
    rw [after_append, List.find?_append, Option.map_or, ← ih]
    simp only [prepare]
    by_cases hp : p.name = name
    · have hgrants : grants .postgres (after .postgres ps).succeeded p = p.accepted := by
        simp [grants, hp, hname]
      rw [hgrants]
      cases hacc : p.accepted <;> simp [hp, hacc, Preparation.isAcceptedAs]
    · split_ifs <;> simp [hp, Preparation.isAcceptedAs]

/-! ### What `ExecuteSTMT` runs -/

theorem execute_of_lookup {stmt : PreparedSTMT} (h : s.lookup name = some stmt) :
    s.execute b name = s.run b stmt := by
  have hfind : s.state.preparedStmts.find? (·.name = name) = some stmt := h
  simp only [Session.execute, executeSTMT, hfind]

theorem execute_of_unknown (h : s.lookup name = none) :
    s.execute b name = .error (.unknownSTMT name) := by
  have hfind : s.state.preparedStmts.find? (·.name = name) = none := h
  simp only [Session.execute, executeSTMT, hfind]

theorem expected_of_find? {q : Bytes × Bytes} (h : s.succeeded.find? (·.1 = name) = some q) :
    s.expected name = .ok q.2 := by
  simp only [Session.expected, h]

theorem expected_of_none (h : s.succeeded.find? (·.1 = name) = none) :
    s.expected name = .error (.unknownSTMT name) := by
  simp only [Session.expected, h]

theorem sqlite_faithful (ps : List Preparation) (name : Bytes) :
    (after .sqlite3 ps).execute .sqlite3 name = (after .sqlite3 ps).expected name := by
  have hlookup := lookup_of_ne_mariaDB (b := .sqlite3) (by decide) ps name
  cases hfind : (after .sqlite3 ps).succeeded.find? (·.1 = name) with
  | none =>
    rw [hfind] at hlookup
    rw [execute_of_unknown hlookup, expected_of_none hfind]
  | some q =>
    rw [hfind] at hlookup
    rw [execute_of_lookup hlookup, expected_of_find? hfind]
    rfl

theorem find?_accepted (h : ps.find? (·.name = name) = some p) (hp : p.accepted = true) :
    ps.find? (·.isAcceptedAs name) = some p := by
  obtain ⟨hname, before, later, rfl, hbefore⟩ := List.find?_eq_some_iff_append.mp h
  refine List.find?_eq_some_iff_append.mpr ⟨?_, before, later, rfl, ?_⟩
  · simpa [Preparation.isAcceptedAs, hp] using hname
  · intro q hq
    have hother : ¬ q.name = name := by simpa using hbefore q hq
    simp [Preparation.isAcceptedAs, hother]

theorem mariaDB_iff (ps : List Preparation) (name : Bytes) :
    (after .mariaDB ps).execute .mariaDB name = (after .mariaDB ps).expected name ↔
      ∀ p ∈ ps.find? (·.name = name), p.accepted = true := by
  have hlookup := lookup_mariaDB ps name
  have hsucceeded : (after .mariaDB ps).succeeded.find? (·.1 = name) =
      (ps.find? (·.isAcceptedAs name)).map fun p => (p.name, p.query) := by
    rw [succeeded_of_ne_postgres (b := .mariaDB) (by decide), List.find?_map, List.find?_filter]
    simp [Preparation.isAcceptedAs]
  cases hfind : ps.find? (·.name = name) with
  | none =>
    rw [hfind] at hlookup
    have hnone : (after .mariaDB ps).succeeded.find? (·.1 = name) = none := by
      rw [hsucceeded, Option.map_eq_none_iff, List.find?_eq_none]
      intro p hp
      have hother : ¬ p.name = name := by simpa using List.find?_eq_none.mp hfind p hp
      simp [Preparation.isAcceptedAs, hother]
    rw [execute_of_unknown hlookup, expected_of_none hnone]
    exact iff_of_true rfl nofun
  | some p =>
    rw [hfind] at hlookup
    rw [execute_of_lookup hlookup]
    cases hp : p.accepted with
    | true =>
      rw [find?_accepted hfind hp] at hsucceeded
      rw [expected_of_find? hsucceeded]
      refine iff_of_true ?_ fun q hq => ?_
      · simp [Session.run, hp]
      · rw [← Option.some.inj hq, hp]
    | false =>
      -- the object without a statement fails, which is neither a query nor an unknown name
      refine iff_of_false (fun heq => ?_) fun h => ?_
      · cases hany : (after .mariaDB ps).succeeded.find? (·.1 = name) with
        | none =>
          rw [expected_of_none hany] at heq
          simp [Session.run, hp] at heq
        | some q =>
          rw [expected_of_find? hany] at heq
          simp [Session.run, hp] at heq
      · rw [h p rfl] at hp
        cases hp

theorem held_empty_iff (hname : cString name = [])
    (hp : ps.find? (·.isAcceptedAs name) = some p) :
    (after .postgres ps).held [] = some p.query ↔
      ∀ last ∈ (ps.filter (·.isUnnamed)).getLast?, last.accepted = true ∧ last.query = p.query := by
  have hmem : p ∈ ps.filter (·.isUnnamed) := by
    have hfound := List.find?_some hp
    simp only [Preparation.isAcceptedAs, Bool.and_eq_true, decide_eq_true_eq] at hfound
    rw [List.mem_filter]
    exact ⟨List.mem_of_find?_eq_some hp, by simp [Preparation.isUnnamed, hfound.2, hname]⟩
  rw [Session.held, if_pos rfl, unnamed_after]
  cases hlast : (ps.filter (·.isUnnamed)).getLast? with
  | none =>
    rw [List.getLast?_eq_none_iff] at hlast
    rw [hlast] at hmem
    cases hmem
  | some last => cases hacc : last.accepted <;> simp [hacc]

theorem postgres_iff (ps : List Preparation) (name : Bytes) :
    (after .postgres ps).execute .postgres name = (after .postgres ps).expected name ↔
      Faithful .postgres ps name := by
  have hlookup := lookup_of_ne_mariaDB (b := .postgres) (by decide) ps name
  cases hfind : (after .postgres ps).succeeded.find? (·.1 = name) with
  | none =>
    rw [hfind] at hlookup
    rw [execute_of_unknown hlookup, expected_of_none hfind]
    refine iff_of_true rfl fun hname p hp => ?_
    rw [find?_succeeded ps hname, hp] at hfind
    cases hfind
  | some q =>
    rw [hfind] at hlookup
    have hname : q.1 = name := by simpa using List.find?_some hfind
    rw [execute_of_lookup hlookup, expected_of_find? hfind]
    have hrun : (after .postgres ps).run .postgres ⟨q.1, q.2, 0, true⟩ = .ok q.2 ↔
        (after .postgres ps).held (cString name) = some q.2 := by
      rw [← hname]
      simp only [Session.run, Bool.true_eq_false, if_false]
      cases (after .postgres ps).held (cString q.1) <;> simp
    refine hrun.trans ?_
    by_cases hempty : cString name = []
    · rw [find?_succeeded ps hempty] at hfind
      obtain ⟨p, hp, rfl⟩ := Option.map_eq_some_iff.mp hfind
      rw [hempty]
      refine (held_empty_iff hempty hp).trans ⟨fun h _ p' hp' => ?_, fun h => h hempty p hp⟩
      obtain rfl : p = p' := Option.some.inj (hp.symm.trans hp')
      exact h
    · have hmem : q ∈ (after .postgres ps).succeeded := List.mem_of_find?_eq_some hfind
      subst hname
      exact iff_of_true (held_of_mem hmem hempty) fun h => absurd h hempty

/-- **`ExecuteSTMT` runs the first query prepared under the name**, and knows no other names, exactly
when `Faithful` says so. -/
theorem registry_iff (b : Backend) (ps : List Preparation) (name : Bytes) :
    (after b ps).execute b name = (after b ps).expected name ↔ Faithful b ps name := by
  cases b with
  | sqlite3 => exact iff_of_true (sqlite_faithful ps name) trivial
  | mariaDB => exact mariaDB_iff ps name
  | postgres => exact postgres_iff ps name

/-- After a refused preparation of a MariaDB statement a successful one does not get through. -/
theorem refused_blocks :
    ¬ ∀ (b : Backend) (ps : List Preparation) (name : Bytes),
      (after b ps).execute b name = (after b ps).expected name := by
  intro h
  have hrun := h .mariaDB [⟨[97], [98], false⟩, ⟨[97], [99], true⟩] [97]
  have hexecute : (after .mariaDB [⟨[97], [98], false⟩, ⟨[97], [99], true⟩]).execute .mariaDB [97] =
      .error (.executeError (ascii "No DB connection or statement")) := rfl
  have hexpected : (after .mariaDB [⟨[97], [98], false⟩, ⟨[97], [99], true⟩]).expected [97] =
      .ok [99] := rfl
  rw [hexecute, hexpected] at hrun
  cases hrun

end StormByteDatabase.Registry
