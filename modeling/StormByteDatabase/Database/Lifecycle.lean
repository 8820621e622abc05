import StormByteDatabase.Database.HandleOwnership
import StormByteDatabase.Exception

/-!
# Statements and the connection they were prepared on

`Connect` and `Disconnect` call the hooks of a subclass, whose code may call both again and may
prepare or drop statements. A run is the sequence of what the subclass and the client do, in hooks
and outside, with `hooks` the stack of the hooks that are running; where a hook is not overridden
nothing but its return happens in it.

A statement stays registered past its connection when the handle is closed or replaced with the
statement map not empty. `statements_follow_connection`: in a run every registered statement belongs
to the open connection, at every point, exactly when this never happens under an overridden
`DoPreDisconnect` or in a connect. `meets_of_own_hooks` says that it cannot happen in a subclass
that leaves the two disconnect hooks to the backend, and `hook_keeps_statement` is the run of one
that overrides `DoPreDisconnect` with an empty body.

Proof. One step at a time: a step other than those two changes the map and the handle together.
A new handle differs from the old one, so a statement of the old one does not fit the new one.
-/

namespace StormByteDatabase.Lifecycle

open Lib
open HandleOwnership (ConnectAnswer)

/-- The hooks documented as no-ops. -/
inductive Hook
  | doPreConnect
  | doPostConnect
  | doPreDisconnect
  | doPostDisconnect
  deriving DecidableEq, Repr

/-- A class derived from a backend, by the hooks it overrides. -/
structure Subclass where
  backend : Backend
  overrides : Hook → Bool

/-- `conn` is the connection the statement was prepared on, and `prepared` says whether the driver's
statement exists. -/
structure PreparedSTMT where
  name : Bytes
  query : Bytes
  conn : Nat
  prepared : Bool
  deriving DecidableEq, Repr

/-- `connected` is `m_connected`, `conn` is `m_database` or `m_conn`, and `preparedStmts` is
`m_prepared_stmts`, in which a statement is found by its name. -/
structure State where
  connected : Bool
  conn : Option Nat
  preparedStmts : List PreparedSTMT
  /-- The hooks that are running, innermost first. -/
  hooks : List Hook
  /-- The next handle of the native library. -/
  nextConn : Nat
  destroyed : Bool
  deriving DecidableEq, Repr

/-- What happens next. Only code of the subclass or the client can call, so the calls need `hooks`
to be empty or headed by an overridden hook. -/
inductive Act
  | connect
  /-- The return of `DoPreConnect`, and `DoConnect`. -/
  | preConnectReturns (answer : ConnectAnswer)
  | postConnectReturns
  | disconnect
  /-- The return of `DoPreDisconnect`, and `DoDisconnect`. -/
  | preDisconnectReturns
  /-- The return of `DoPostDisconnect`, and the end of `Disconnect`. -/
  | postDisconnectReturns
  /-- `DoPrepareSTMT`; `accepted` is the answer of the driver should it be asked. -/
  | prepareSTMT (name query : Bytes) (accepted : Bool)
  /-- `m_prepared_stmts.erase(name)` in code of the subclass. -/
  | erase (name : Bytes)
  /-- `m_prepared_stmts.clear()` in code of the subclass. -/
  | clear
  /-- The destructor of the backend: the subclass is gone, so the hooks are the backend's own. -/
  | destroy
  deriving DecidableEq, Repr

/-- Code of the subclass or the client is running. -/
def State.inClientCode (c : Subclass) (s : State) : Bool :=
  !s.destroyed && match s.hooks with
    | [] => true
    | h :: _ => c.overrides h

/-- `DoConnect`, whose result is the flag. A failure after the library gave a handle closes that
handle and leaves a null pointer. -/
def doConnect (answer : ConnectAnswer) (s : State) : State × Bool :=
  if s.connected then (s, false)
  else
    match answer with
    | .connected => ({ s with conn := some s.nextConn, nextConn := s.nextConn + 1 }, true)
    | .noHandle => (s, false)
    | .refused => ({ s with conn := none }, false)

/-- The backend's own `DoPreDisconnect`. -/
def doPreDisconnect (b : Backend) (s : State) : State :=
  match b with
  | .sqlite3 => if s.conn.isSome then { s with preparedStmts := [] } else s
  | .mariaDB => { s with preparedStmts := [] }
  | .postgres => { s with preparedStmts := [] }

def doDisconnect (s : State) : State := { s with conn := none }

/-- `CreatePreparedSTMT`. A `MariaDB` statement exists as an object also when the driver refused it;
`sqlite3_prepare_v2` refuses a null connection. -/
def createPreparedSTMT (b : Backend) (name query : Bytes) (accepted : Bool) (s : State) :
    Option PreparedSTMT :=
  match s.conn with
  | none => none
  | some h =>
    match b with
    | .mariaDB => some ⟨name, query, h, accepted⟩
    | .sqlite3 | .postgres => if accepted then some ⟨name, query, h, true⟩ else none

/-- `m_prepared_stmts.emplace`: a name already present keeps its statement. -/
def emplace (stmts : List PreparedSTMT) (stmt : PreparedSTMT) : List PreparedSTMT :=
  if stmts.any (·.name = stmt.name) then stmts else stmt :: stmts

def doPrepareSTMT (b : Backend) (name query : Bytes) (accepted : Bool) (s : State) : State :=
  match createPreparedSTMT b name query accepted s with
  | some stmt => { s with preparedStmts := emplace s.preparedStmts stmt }
  | none => s

theorem doPrepareSTMT_map (b : Backend) (name query : Bytes) (accepted : Bool) (s : State) :
    doPrepareSTMT b name query accepted s =
      { s with preparedStmts := (doPrepareSTMT b name query accepted s).preparedStmts } := by
  unfold doPrepareSTMT
  split <;> rfl

theorem doPreDisconnect_map (b : Backend) (s : State) :
    doPreDisconnect b s = { s with preparedStmts := (doPreDisconnect b s).preparedStmts } := by
  cases b with
  | sqlite3 =>
    unfold doPreDisconnect
    split_ifs <;> rfl
  | mariaDB => rfl
  | postgres => rfl

/-- The statement whose `Execute` an `ExecuteSTMT` calls. -/
def executeSTMT (name : Bytes) (s : State) : Except QueryException PreparedSTMT :=
  match s.preparedStmts.find? (·.name = name) with
  | some stmt => .ok stmt
  | none => .error (.unknownSTMT name)

/-- `Connect` after its first hook. -/
def connectBody (answer : ConnectAnswer) (rest : List Hook) (s : State) : State :=
  match doConnect answer s with
  | (s', true) => { s' with connected := true, hooks := .doPostConnect :: rest }
  | (s', false) => { s' with hooks := rest }

/-- `Disconnect` after its first hook, which was the backend's own unless overridden. -/
def disconnectBody (c : Subclass) (rest : List Hook) (s : State) : State :=
  let s' := if c.overrides .doPreDisconnect then s else doPreDisconnect c.backend s
  { doDisconnect s' with hooks := .doPostDisconnect :: rest }

theorem disconnectBody_map (c : Subclass) (rest : List Hook) (s : State) :
    disconnectBody c rest s =
      { s with conn := none, hooks := .doPostDisconnect :: rest,
               preparedStmts := (disconnectBody c rest s).preparedStmts } := by
  unfold disconnectBody
  split_ifs
  · rfl
  · rw [doPreDisconnect_map]
    rfl

def step (c : Subclass) (s : State) : Act → Option State
  | .connect =>
    if s.inClientCode c then some { s with hooks := .doPreConnect :: s.hooks } else none
  | .preConnectReturns answer =>
    match s.hooks with
    | .doPreConnect :: rest => some (connectBody answer rest s)
    | _ => none
  | .postConnectReturns =>
    match s.hooks with
    | .doPostConnect :: rest => some { s with hooks := rest }
    | _ => none
  | .disconnect =>
    if s.inClientCode c then some { s with hooks := .doPreDisconnect :: s.hooks } else none
  | .preDisconnectReturns =>
    match s.hooks with
    | .doPreDisconnect :: rest => some (disconnectBody c rest s)
    | _ => none
  | .postDisconnectReturns =>
    match s.hooks with
    | .doPostDisconnect :: rest => some { s with connected := false, hooks := rest }
    | _ => none
  | .prepareSTMT name query accepted =>
    if s.inClientCode c then some (doPrepareSTMT c.backend name query accepted s) else none
  | .erase name =>
    if s.inClientCode c then
      some { s with preparedStmts := s.preparedStmts.filter (·.name ≠ name) }
    else none
  | .clear => if s.inClientCode c then some { s with preparedStmts := [] } else none
  | .destroy =>
    if s.hooks = [] ∧ s.destroyed = false then
      some { doDisconnect (doPreDisconnect c.backend s) with connected := false, destroyed := true }
    else none

/-- A new object of the class. -/
def system (c : Subclass) : Machine State Act := ⟨⟨false, none, [], [], 0, false⟩, step c⟩

/-! ### Every step -/

/-- Every registered statement was prepared on the connection that is open, and with no connection
every name is unknown. -/
structure FollowsConnection (s : State) : Prop where
  registered : ∀ stmt ∈ s.preparedStmts, s.conn = some stmt.conn
  unknown : s.conn = none → ∀ name, executeSTMT name s = .error (.unknownSTMT name)

theorem executeSTMT_of_empty {s : State} (h : s.preparedStmts = []) (name : Bytes) :
    executeSTMT name s = .error (.unknownSTMT name) := by
  simp [executeSTMT, h]

theorem FollowsConnection.of_registered {s : State}
    (h : ∀ stmt ∈ s.preparedStmts, s.conn = some stmt.conn) : FollowsConnection s := by
  refine ⟨h, fun hnone => executeSTMT_of_empty ?_⟩
  refine List.eq_nil_iff_forall_not_mem.mpr fun stmt hmem => ?_
  have := h stmt hmem
  rw [hnone] at this
  cases this

theorem FollowsConnection.empty {s : State} (h : s.preparedStmts = []) : FollowsConnection s :=
  .of_registered fun stmt hmem => by
    rw [h] at hmem
    cases hmem

theorem FollowsConnection.of_subset {s s' : State} (h : FollowsConnection s)
    (hconn : s'.conn = s.conn) (hsub : ∀ stmt ∈ s'.preparedStmts, stmt ∈ s.preparedStmts) :
    FollowsConnection s' :=
  .of_registered fun stmt hmem => hconn ▸ h.registered stmt (hsub stmt hmem)

theorem followsConnection_iff_empty {s s' : State} (h : FollowsConnection s)
    (hstmts : s'.preparedStmts = s.preparedStmts) (hconn : ∀ k ∈ s.conn, s'.conn ≠ some k) :
    FollowsConnection s' ↔ s.preparedStmts = [] := by
  constructor
  · intro h'
    refine List.eq_nil_iff_forall_not_mem.mpr fun stmt hmem => ?_
    exact hconn _ (h.registered stmt hmem) (h'.registered stmt (hstmts ▸ hmem))
  · intro hempty
    exact .empty (hstmts.trans hempty)

theorem mem_emplace {stmts : List PreparedSTMT} {a stmt : PreparedSTMT}
    (h : stmt ∈ emplace stmts a) : stmt = a ∨ stmt ∈ stmts := by
  unfold emplace at h
  split_ifs at h
  · exact .inr h
  · exact List.mem_cons.mp h

theorem createPreparedSTMT_conn {b : Backend} {name query : Bytes} {accepted : Bool} {s : State}
    {stmt : PreparedSTMT} (h : createPreparedSTMT b name query accepted s = some stmt) :
    s.conn = some stmt.conn := by
  unfold createPreparedSTMT at h
  cases hconn : s.conn with
  | none => simp [hconn] at h
  | some k =>
    cases b <;> simp only [hconn] at h
    · split_ifs at h
      exact Option.some.inj h ▸ rfl
    · exact Option.some.inj h ▸ rfl
    · split_ifs at h
      exact Option.some.inj h ▸ rfl

theorem doPrepareSTMT_follows {b : Backend} {name query : Bytes} {accepted : Bool} {s : State}
    (h : FollowsConnection s) : FollowsConnection (doPrepareSTMT b name query accepted s) := by
  unfold doPrepareSTMT
  cases hcreate : createPreparedSTMT b name query accepted s with
  | none => exact h
  | some a =>
    refine .of_registered fun stmt hmem => ?_
    rcases mem_emplace hmem with rfl | hmem
    · exact createPreparedSTMT_conn hcreate
    · exact h.registered stmt hmem

/-- The backend's own hook leaves the map empty when the statements belong to the connection; with
no connection there was none. -/
theorem doPreDisconnect_stmts {b : Backend} {s : State} (h : FollowsConnection s) :
    (doPreDisconnect b s).preparedStmts = [] := by
  cases b with
  | sqlite3 =>
    unfold doPreDisconnect
    split_ifs with hconn
    · rfl
    · refine List.eq_nil_iff_forall_not_mem.mpr fun stmt hmem => hconn ?_
      simp [h.registered stmt hmem]
  | mariaDB => rfl
  | postgres => rfl

/-- The handles given so far are below the next one. -/
def Fresh (s : State) : Prop := ∀ k ∈ s.conn, k < s.nextConn

/-- What the step does to the handle it may replace or close: nothing, or the map is empty. -/
def EmptyAtClose (c : Subclass) (s : State) : Act → Prop
  | .preConnectReturns answer =>
    s.connected = false → answer ≠ .noHandle → s.preparedStmts = []
  | .preDisconnectReturns => c.overrides .doPreDisconnect = true → s.preparedStmts = []
  | _ => True

instance (c : Subclass) (s : State) (a : Act) : Decidable (EmptyAtClose c s a) := by
  unfold EmptyAtClose
  split <;> infer_instance

theorem connectBody_cases (answer : ConnectAnswer) (rest : List Hook) (s : State) :
    ((s.connected = true ∨ answer = .noHandle) ∧
      connectBody answer rest s = { s with hooks := rest }) ∨
    (s.connected = false ∧ answer = .connected ∧
      connectBody answer rest s =
        { s with connected := true, conn := some s.nextConn, nextConn := s.nextConn + 1,
                 hooks := .doPostConnect :: rest }) ∨
    (s.connected = false ∧ answer = .refused ∧
      connectBody answer rest s = { s with conn := none, hooks := rest }) := by
  unfold connectBody doConnect
  cases hc : s.connected with
  | true => simp [hc]
  | false => cases answer <;> simp [hc]

theorem connectBody_follows {s : State} {answer : ConnectAnswer} {rest : List Hook}
    (hfresh : Fresh s) (h : FollowsConnection s) :
    (s.connected = false → answer ≠ .noHandle → s.preparedStmts = []) ↔
      FollowsConnection (connectBody answer rest s) := by
  rcases connectBody_cases answer rest s with ⟨hkept, heq⟩ | ⟨hc, rfl, heq⟩ | ⟨hc, rfl, heq⟩
  · rw [heq]
    refine iff_of_true (fun hc hne => ?_) (h.of_subset rfl fun _ hmem => hmem)
    rcases hkept with hconnected | hno
    · simp [hc] at hconnected
    · exact absurd hno hne
  · rw [heq]
    refine .trans ⟨fun himp => himp hc (by simp), fun hempty _ _ => hempty⟩
      (followsConnection_iff_empty h (by rfl) fun k hk hnew => ?_).symm
    have hlt := hfresh k hk
    have hnew : s.nextConn = k := Option.some.inj hnew
    omega
  · rw [heq]
    exact .trans ⟨fun himp => himp hc (by simp), fun hempty _ _ => hempty⟩
      (followsConnection_iff_empty h (by rfl) fun k _ hnew => by cases hnew).symm

theorem disconnectBody_follows {c : Subclass} {s : State} {rest : List Hook}
    (h : FollowsConnection s) :
    (c.overrides .doPreDisconnect = true → s.preparedStmts = []) ↔
      FollowsConnection (disconnectBody c rest s) := by
  unfold disconnectBody
  by_cases ho : c.overrides .doPreDisconnect = true
  · rw [if_pos ho]
    exact .trans ⟨fun himp => himp ho, fun hempty _ => hempty⟩
      (followsConnection_iff_empty h (by rfl) fun k _ heq => by cases heq).symm
  · rw [if_neg ho]
    exact ⟨fun _ => .empty (doPreDisconnect_stmts h), fun _ hf => absurd hf ho⟩

/-- The steps of `step`, with what they ask for. -/
inductive Step (c : Subclass) (s : State) : Act → State → Prop
  | connect (hclient : s.inClientCode c = true) :
    Step c s .connect { s with hooks := .doPreConnect :: s.hooks }
  | preConnectReturns {answer : ConnectAnswer} {rest : List Hook}
    (hhooks : s.hooks = .doPreConnect :: rest) :
    Step c s (.preConnectReturns answer) (connectBody answer rest s)
  | postConnectReturns {rest : List Hook} (hhooks : s.hooks = .doPostConnect :: rest) :
    Step c s .postConnectReturns { s with hooks := rest }
  | disconnect (hclient : s.inClientCode c = true) :
    Step c s .disconnect { s with hooks := .doPreDisconnect :: s.hooks }
  | preDisconnectReturns {rest : List Hook} (hhooks : s.hooks = .doPreDisconnect :: rest) :
    Step c s .preDisconnectReturns (disconnectBody c rest s)
  | postDisconnectReturns {rest : List Hook} (hhooks : s.hooks = .doPostDisconnect :: rest) :
    Step c s .postDisconnectReturns { s with connected := false, hooks := rest }
  | prepareSTMT {name query : Bytes} {accepted : Bool} (hclient : s.inClientCode c = true) :
    Step c s (.prepareSTMT name query accepted) (doPrepareSTMT c.backend name query accepted s)
  | erase {name : Bytes} (hclient : s.inClientCode c = true) :
    Step c s (.erase name) { s with preparedStmts := s.preparedStmts.filter (·.name ≠ name) }
  | clear (hclient : s.inClientCode c = true) : Step c s .clear { s with preparedStmts := [] }
  | destroy (hhooks : s.hooks = []) (halive : s.destroyed = false) :
    Step c s .destroy
      { doDisconnect (doPreDisconnect c.backend s) with connected := false, destroyed := true }

theorem step_inversion {c : Subclass} {s s' : State} {a : Act} (hstep : step c s a = some s') :
    Step c s a s' := by
  cases a <;> simp only [step] at hstep
  case preConnectReturns answer =>
    split at hstep
    · rename_i rest hhooks
      exact Option.some.inj hstep ▸ .preConnectReturns hhooks
    · cases hstep
  case postConnectReturns =>
    split at hstep
    · rename_i rest hhooks
      exact Option.some.inj hstep ▸ .postConnectReturns hhooks
    · cases hstep
  case preDisconnectReturns =>
    split at hstep
    · rename_i rest hhooks
      exact Option.some.inj hstep ▸ .preDisconnectReturns hhooks
    · cases hstep
  case postDisconnectReturns =>
    split at hstep
    · rename_i rest hhooks
      exact Option.some.inj hstep ▸ .postDisconnectReturns hhooks
    · cases hstep
  case destroy =>
    split_ifs at hstep with hidle
    exact Option.some.inj hstep ▸ .destroy hidle.1 hidle.2
  -- the calls of client code
  all_goals
    split_ifs at hstep with hclient
    obtain rfl := Option.some.inj hstep
    constructor
    exact hclient

theorem follows_step {c : Subclass} {s s' : State} {a : Act} (hfresh : Fresh s)
    (h : FollowsConnection s) (hstep : step c s a = some s') :
    EmptyAtClose c s a ↔ FollowsConnection s' := by
  cases step_inversion hstep with
  | preConnectReturns hhooks => exact connectBody_follows hfresh h
  | preDisconnectReturns hhooks => exact disconnectBody_follows h
  | prepareSTMT hclient => exact iff_of_true trivial (doPrepareSTMT_follows h)
  | destroy hhooks halive => exact iff_of_true trivial (.empty (doPreDisconnect_stmts h))
  | erase hclient =>
    exact iff_of_true trivial (h.of_subset rfl fun _ hmem => List.mem_of_mem_filter hmem)
  | clear hclient => exact iff_of_true trivial (.empty rfl)
  | connect hclient => exact iff_of_true trivial (h.of_subset rfl fun _ hmem => hmem)
  | disconnect hclient => exact iff_of_true trivial (h.of_subset rfl fun _ hmem => hmem)
  | postConnectReturns hhooks => exact iff_of_true trivial (h.of_subset rfl fun _ hmem => hmem)
  | postDisconnectReturns hhooks => exact iff_of_true trivial (h.of_subset rfl fun _ hmem => hmem)

theorem step_fresh (c : Subclass) : (system c).Preserves (fun _ _ => True) Fresh := by
  intro s a s' hs _ hstep k hk
  cases step_inversion hstep with
  | @preConnectReturns answer rest hhooks =>
    rcases connectBody_cases answer rest s with ⟨_, heq⟩ | ⟨_, _, heq⟩ | ⟨_, _, heq⟩
    · rw [heq] at hk ⊢
      exact hs k hk
    · rw [heq] at hk ⊢
      have hnew : s.nextConn = k := Option.some.inj hk
      show k < s.nextConn + 1
      omega
    · rw [heq] at hk
      cases hk
  | preDisconnectReturns hhooks =>
    rw [disconnectBody_map] at hk
    cases hk
  | prepareSTMT hclient =>
    rw [doPrepareSTMT_map] at hk ⊢
    exact hs k hk
  | destroy hhooks halive => cases hk
  | connect hclient => exact hs k hk
  | postConnectReturns hhooks => exact hs k hk
  | disconnect hclient => exact hs k hk
  | postDisconnectReturns hhooks => exact hs k hk
  | erase hclient => exact hs k hk
  | clear hclient => exact hs k hk

theorem init_follows (c : Subclass) : FollowsConnection (system c).init := .empty rfl

/-! ### Whole runs -/

/-- **Statements follow their connection** in every state of a run exactly when the statement map is
empty whenever an overridden `DoPreDisconnect` returns, and whenever a connect opens a handle or
fails after it had one. -/
theorem statements_follow_connection (c : Subclass) (as : List Act) (s : State)
    (hrun : (system c).run as = some s) :
    (system c).Visits FollowsConnection as ↔ (system c).Meets (EmptyAtClose c) as :=
  Machine.visitsFrom_iff_meetsFrom (step_fresh c)
    (fun _ _ _ hs hQ hstep => follows_step hs hQ hstep) (fun _ hk => by cases hk)
    (init_follows c) hrun

/-- A hook prepares a statement, and the override of `DoPreDisconnect` drops it. -/
theorem statements_follow_connection_override :
    let c : Subclass := ⟨.postgres, (· ≠ .doPreConnect)⟩
    let as : List Act :=
      [.connect, .preConnectReturns .connected, .prepareSTMT [97] [98] true, .postConnectReturns,
        .disconnect, .clear, .preDisconnectReturns, .postDisconnectReturns, .connect,
        .preConnectReturns .refused]
    (system c).Visits FollowsConnection as ↔ (system c).Meets (EmptyAtClose c) as :=
  statements_follow_connection _ _
    ⟨false, none, [], [], 1, false⟩ (by decide)

/-- A subclass of `SQLite3` whose `DoPreDisconnect` is empty keeps its statement past the
connection. -/
theorem hook_keeps_statement :
    ¬ ∀ (c : Subclass) (as : List Act) (s : State), (system c).run as = some s →
      FollowsConnection s := by
  intro h
  have hbad := h ⟨.sqlite3, (· = .doPreDisconnect)⟩
    [.connect, .preConnectReturns .connected, .postConnectReturns, .prepareSTMT [97] [98] true,
      .disconnect, .preDisconnectReturns, .postDisconnectReturns]
    ⟨false, none, [⟨[97], [98], 0, true⟩], [], 1, false⟩ (by decide)
  exact absurd (hbad.unknown rfl [97]) (by decide)

/-! ### Subclasses that leave the disconnect hooks alone -/

/-- With no code of a subclass in `DoPostDisconnect`, that hook only runs between the close and the
end of `Disconnect`, so nothing connects there. -/
structure ClosedUnlessConnected (s : State) : Prop where
  closed : s.connected = false → s.conn = none
  post : ∀ rest, s.hooks = .doPostDisconnect :: rest → s.conn = none
  tail : .doPostDisconnect ∉ s.hooks.tail

theorem not_post_of_inClientCode {c : Subclass} {s : State}
    (hown : c.overrides .doPostDisconnect = false) (h : ClosedUnlessConnected s)
    (hclient : s.inClientCode c = true) : .doPostDisconnect ∉ s.hooks := by
  have htail := h.tail
  unfold State.inClientCode at hclient
  cases hhooks : s.hooks with
  | nil => simp
  | cons hook rest =>
    rw [hhooks] at hclient htail
    intro hmem
    rcases List.mem_cons.mp hmem with rfl | hmem
    · simp [hown] at hclient
    · exact htail hmem

theorem closedUnlessConnected_push {c : Subclass} {s : State} {hook : Hook}
    (hown : c.overrides .doPostDisconnect = false) (h : ClosedUnlessConnected s)
    (hclient : s.inClientCode c = true) (hne : hook ≠ .doPostDisconnect) :
    ClosedUnlessConnected { s with hooks := hook :: s.hooks } := by
  refine ⟨h.closed, fun rest heq => ?_, not_post_of_inClientCode hown h hclient⟩
  exact absurd (List.cons.inj heq).1 hne

theorem closedUnlessConnected_pop {s s' : State} {hook : Hook} {rest : List Hook}
    (h : ClosedUnlessConnected s) (hhooks : s.hooks = hook :: rest) (hrest : s'.hooks = rest)
    (hclosed : s'.connected = false → s'.conn = none) : ClosedUnlessConnected s' := by
  have htail := h.tail
  rw [hhooks, List.tail_cons] at htail
  refine ⟨hclosed, fun rest' heq => ?_, fun hmem => htail ?_⟩
  · rw [hrest] at heq
    exact absurd (heq ▸ List.mem_cons_self) htail
  · exact hrest ▸ List.mem_of_mem_tail hmem

theorem closedUnlessConnected_map {s s' : State} (h : ClosedUnlessConnected s)
    (heq : s' = { s with preparedStmts := s'.preparedStmts }) : ClosedUnlessConnected s' := by
  rw [heq]
  exact ⟨h.closed, h.post, h.tail⟩

theorem connectBody_closed {s : State} {answer : ConnectAnswer} {rest : List Hook}
    (h : ClosedUnlessConnected s) (hhooks : s.hooks = .doPreConnect :: rest) :
    ClosedUnlessConnected (connectBody answer rest s) := by
  rcases connectBody_cases answer rest s with ⟨_, heq⟩ | ⟨_, _, heq⟩ | ⟨_, _, heq⟩
  · rw [heq]
    exact closedUnlessConnected_pop h hhooks rfl h.closed
  · rw [heq]
    have htail := h.tail
    rw [hhooks] at htail
    refine ⟨fun hf => ?_, fun rest' hpost => ?_, htail⟩
    · cases hf
    · cases hpost
  · rw [heq]
    exact closedUnlessConnected_pop h hhooks rfl fun _ => rfl

theorem step_closed {c : Subclass} (hown : c.overrides .doPostDisconnect = false) :
    (system c).Preserves (fun _ _ => True) ClosedUnlessConnected := by
  intro s a s' h _ hstep
  cases step_inversion hstep with
  | connect hclient => exact closedUnlessConnected_push hown h hclient (by decide)
  | disconnect hclient => exact closedUnlessConnected_push hown h hclient (by decide)
  | preConnectReturns hhooks => exact connectBody_closed h hhooks
  | postConnectReturns hhooks => exact closedUnlessConnected_pop h hhooks rfl h.closed
  | preDisconnectReturns hhooks =>
    have htail := h.tail
    rw [hhooks] at htail
    exact ⟨fun _ => rfl, fun _ _ => rfl, htail⟩
  | @postDisconnectReturns rest hhooks =>
    exact closedUnlessConnected_pop h hhooks rfl fun _ => h.post rest hhooks
  | prepareSTMT hclient => exact closedUnlessConnected_map h (doPrepareSTMT_map ..)
  | erase hclient => exact closedUnlessConnected_map h rfl
  | clear hclient => exact closedUnlessConnected_map h rfl
  | destroy hhooks halive =>
    have hempty : (doPreDisconnect c.backend s).hooks = [] := by
      rw [doPreDisconnect_map, hhooks]
    refine ⟨fun _ => rfl, fun _ _ => rfl, ?_⟩
    simp [doDisconnect, hempty]

/-- A subclass that overrides neither `DoPreDisconnect` nor `DoPostDisconnect` meets the condition in
every run, whatever its connect hooks do. -/
theorem meets_of_own_hooks {c : Subclass} (hpre : c.overrides .doPreDisconnect = false)
    (hpost : c.overrides .doPostDisconnect = false) (as : List Act) :
    (system c).Meets (EmptyAtClose c) as := by
  have hcond : ∀ s a, ClosedUnlessConnected s → FollowsConnection s → EmptyAtClose c s a := by
    intro s a hclosed hfollows
    unfold EmptyAtClose
    split
    · intro hconn _
      refine List.eq_nil_iff_forall_not_mem.mpr fun stmt hmem => ?_
      have := hfollows.registered stmt hmem
      rw [hclosed.closed hconn] at this
      cases this
    · intro ho
      rw [hpre] at ho
      cases ho
    · trivial
  have hinit : Fresh (system c).init ∧ ClosedUnlessConnected (system c).init ∧
      FollowsConnection (system c).init := by
    refine ⟨fun _ hk => ?_, ⟨fun _ => rfl, ?_, ?_⟩, init_follows c⟩
    · cases hk
    · simp [system]
    · simp [system]
  refine Machine.meets_of_invariant (I := fun s => Fresh s ∧ ClosedUnlessConnected s ∧
    FollowsConnection s) hinit ?_ (fun s a _ hs _ => hcond s a hs.2.1 hs.2.2) as
  rintro s a s' ⟨hfresh, hclosed, hfollows⟩ _ hstep
  exact ⟨step_fresh c s a s' hfresh trivial hstep, step_closed hpost s a s' hclosed trivial hstep,
    (follows_step hfresh hfollows hstep).mp (hcond s a hclosed hfollows)⟩

end StormByteDatabase.Lifecycle
