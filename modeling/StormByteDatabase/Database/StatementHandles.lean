import StormByteDatabase.Database.Lifecycle

/-!
# Statements of the driver

A registered statement of SQLite or MariaDB has a `sqlite3_stmt` or a `MYSQL_STMT`, which its
destructor gives back; a statement of PostgreSQL has nothing to give back. The map owns the statement
objects, and a new one whose name is taken is destroyed by `emplace`. `sqlite3_close` refuses to close
a connection with a statement that is not finalized, and the object forgets that connection all the
same.

A run is one of `Lifecycle` with calls of `ExecuteSTMT` between its steps, in hooks and outside.
`statements_owned_once`: in every run each statement of the driver is opened once, used only until it
is closed, held under one name while it is open, and closed exactly once when the object is gone.
`connection_lost_iff`: an open connection is lost, for good, exactly when a connect of an object that
is not connected finds one, or an overridden `DoPreDisconnect` of SQLite returns with a statement of
the connection registered; `connections_closed_once`: a subclass that leaves the disconnect hooks to
the backend loses none.

Proof. The names and the calls form a ledger (`Lib.Owned`) of which each operation is a rule; the map
of `Lifecycle` lists the same statements. A connection of the past is not lost by a later step, and the
present one is open.
-/

namespace StormByteDatabase.StatementHandles

open Lib
open HandleOwnership (ConnectAnswer)
open Lifecycle (Subclass PreparedSTMT)

/-- `sqlite3_stmt` or `MYSQL_STMT`, with the connection it was prepared on. -/
structure Handle where
  id : Nat
  conn : Nat
  deriving DecidableEq, Repr

/-- The statements of the driver: `held` has the `m_stmt` of each registered statement where that is
not null, and `calls` what was called on them, latest first. -/
structure Statements where
  held : List (Bytes × Handle)
  nextHandle : Nat
  calls : List (Event Handle)
  deriving DecidableEq, Repr

/-- `m_prepared_stmts.emplace` of a statement with this handle. -/
def Statements.emplace (taken : Bool) (name : Bytes) (h : Handle) (m : Statements) : Statements :=
  if taken then { m with calls := .closed h :: m.calls } else { m with held := (name, h) :: m.held }

/-- What `CreatePreparedSTMT` asks of the driver, then `emplace`. `initialised` says whether
`mysql_stmt_init` gives a handle for a statement that `mysql_stmt_prepare` does not accept. -/
def Statements.create (b : Backend) (initialised taken : Bool) (stmt : PreparedSTMT)
    (m : Statements) : Statements :=
  let h : Handle := ⟨m.nextHandle, stmt.conn⟩
  match b with
  | .sqlite3 =>
    { m with nextHandle := m.nextHandle + 1, calls := .opened h :: m.calls }.emplace taken stmt.name h
  | .mariaDB =>
    let asked : Statements :=
      { m with nextHandle := m.nextHandle + 1, calls := .used h :: .opened h :: m.calls }
    if stmt.prepared then asked.emplace taken stmt.name h
    else if initialised then { asked with calls := .closed h :: asked.calls }
    else m
  | .postgres => m

/-- The destructors of the registered statements that `p` chooses, in some order. -/
def Statements.destroy (p : Bytes × Handle → Bool) (m : Statements) : Statements :=
  { m with
    held := m.held.filter fun q => !p q
    calls := closeAll ((m.held.filter p).map Prod.snd) m.calls }

def Statements.clear (m : Statements) : Statements := m.destroy fun _ => true

/-- `Execute` of a registered statement, with the number of its calls on the handle. -/
def Statements.execute (name : Bytes) (calls : Nat) (m : Statements) : Statements :=
  match m.held.find? (·.1 = name) with
  | some q => { m with calls := List.replicate calls (.used q.2) ++ m.calls }
  | none => m

/-- A statement of the connection was not given back. -/
def Statements.unfinalized (m : Statements) (conn : Nat) : Bool :=
  m.calls.any fun e =>
    match e with
    | .opened h => decide (h.conn = conn) && decide (.closed h ∉ m.calls)
    | _ => false

/-- The end of a connection; `busy` is a `sqlite3_close` that is refused. -/
inductive ConnCall
  | opened (h : Nat)
  | closed (h : Nat)
  | busy (h : Nat)
  deriving DecidableEq, Repr

/-- `conns` has the connections of `DoConnect` that it does not close itself, latest first. -/
structure State where
  db : Lifecycle.State
  stmts : Statements
  conns : List ConnCall
  deriving DecidableEq, Repr

inductive Act
  | lifecycle (a : Lifecycle.Act) (initialised : Bool)
  /-- `ExecuteSTMT`. -/
  | execute (name : Bytes) (calls : Nat)
  deriving DecidableEq, Repr

/-- The backend's own `DoPreDisconnect`. -/
def State.doPreDisconnect (b : Backend) (s : State) : State :=
  match b with
  | .sqlite3 => if s.db.conn.isSome then { s with stmts := s.stmts.clear } else s
  | .mariaDB | .postgres => { s with stmts := s.stmts.clear }

def State.doDisconnect (b : Backend) (s : State) : State :=
  match s.db.conn with
  | none => s
  | some h =>
    if b = .sqlite3 ∧ s.stmts.unfinalized h = true then { s with conns := .busy h :: s.conns }
    else { s with conns := .closed h :: s.conns }

/-- The driver's part of a step of the object. -/
def State.drive (c : Subclass) (initialised : Bool) (s : State) : Lifecycle.Act → State
  | .preConnectReturns answer =>
    if s.db.connected = false ∧ answer = .connected then
      { s with conns := .opened s.db.nextConn :: s.conns }
    else s
  | .preDisconnectReturns =>
    (if c.overrides .doPreDisconnect then s else s.doPreDisconnect c.backend).doDisconnect c.backend
  | .prepareSTMT name query accepted =>
    match Lifecycle.createPreparedSTMT c.backend name query accepted s.db with
    | some stmt =>
      let taken := s.db.preparedStmts.any (·.name = stmt.name)
      { s with stmts := s.stmts.create c.backend initialised taken stmt }
    | none => s
  | .erase name => { s with stmts := s.stmts.destroy (·.1 = name) }
  | .clear => { s with stmts := s.stmts.clear }
  | .destroy =>
    -- the members are destroyed last, with what is left of the map
    let s := (s.doPreDisconnect c.backend).doDisconnect c.backend
    { s with stmts := s.stmts.clear }
  | _ => s

def step (c : Subclass) (s : State) : Act → Option State
  | .lifecycle a initialised =>
    (Lifecycle.step c s.db a).map fun db => { s.drive c initialised a with db := db }
  | .execute name calls =>
    if s.db.inClientCode c then some { s with stmts := s.stmts.execute name calls } else none

/-- A new object of the class. -/
def system (c : Subclass) : Machine State Act :=
  ⟨⟨(Lifecycle.system c).init, ⟨[], 0, []⟩, []⟩, step c⟩

/-! ### The ledger of statements -/

structure Statements.Inv (m : Statements) : Prop where
  owned : Owned (Listed m.held) m.calls
  once : (m.held.map Prod.snd).Nodup
  below : ∀ h, .opened h ∈ m.calls → h.id < m.nextHandle

section

variable {m : Statements} {name : Bytes} {h : Handle}

theorem inv_opened (hm : m.Inv) (name : Bytes) (conn : Nat) :
    Statements.Inv
      { held := (name, ⟨m.nextHandle, conn⟩) :: m.held
        nextHandle := m.nextHandle + 1
        calls := .opened ⟨m.nextHandle, conn⟩ :: m.calls } := by
  have hfresh : .opened ⟨m.nextHandle, conn⟩ ∉ m.calls := fun hmem =>
    Nat.lt_irrefl _ (hm.below _ hmem)
  refine ⟨hm.owned.acquireListed hfresh, ?_, fun k hk => ?_⟩
  · rw [List.map_cons, List.nodup_cons]
    refine ⟨fun hmem => ?_, hm.once⟩
    obtain ⟨⟨other, k⟩, hq, heq⟩ := List.mem_map.mp hmem
    obtain rfl : k = ⟨m.nextHandle, conn⟩ := heq
    exact hfresh (hm.owned.live other _ hq).1
  · rcases List.mem_cons.mp hk with heq | hk
    · obtain rfl := Event.opened.inj heq
      exact Nat.lt_succ_self _
    · exact Nat.lt_succ_of_lt (hm.below k hk)

theorem inv_used (hm : m.Inv) (hheld : (name, h) ∈ m.held) :
    Statements.Inv { m with calls := .used h :: m.calls } := by
  refine ⟨hm.owned.use (i := name) hheld, hm.once, fun k hk => hm.below k ?_⟩
  simpa using hk

theorem inv_replicate_used (hm : m.Inv) (hheld : (name, h) ∈ m.held) (n : Nat) :
    Statements.Inv { m with calls := List.replicate n (.used h) ++ m.calls } := by
  induction n with
  | zero => exact hm
  | succ n ih => exact inv_used ih hheld

theorem inv_closed {held : List (Bytes × Handle)} {next : Nat} {calls : List (Event Handle)}
    (hm : Statements.Inv ⟨(name, h) :: held, next, calls⟩) :
    Statements.Inv ⟨held, next, .closed h :: calls⟩ := by
  have honce := hm.once
  rw [List.map_cons, List.nodup_cons] at honce
  refine ⟨hm.owned.release (i := name) List.mem_cons_self fun j s => ?_, honce.2, fun k hk => ?_⟩
  · constructor
    · intro hmem
      refine ⟨List.mem_cons_of_mem _ hmem, ?_⟩
      rintro rfl
      exact honce.1 (List.mem_map.mpr ⟨(j, s), hmem, rfl⟩)
    · rintro ⟨hmem, hne⟩
      rcases List.mem_cons.mp hmem with heq | hmem
      · exact absurd (Prod.mk.inj heq).2 hne
      · exact hmem
  · exact hm.below k (by simpa using hk)

theorem inv_emplace {held : List (Bytes × Handle)} {next : Nat} {calls : List (Event Handle)}
    (hm : Statements.Inv ⟨(name, h) :: held, next, calls⟩) (taken : Bool) :
    (Statements.emplace taken name h ⟨held, next, calls⟩).Inv := by
  unfold Statements.emplace
  split_ifs
  · exact inv_closed hm
  · exact hm

theorem inv_create (hm : m.Inv) (b : Backend) (initialised taken : Bool) (stmt : PreparedSTMT) :
    (m.create b initialised taken stmt).Inv := by
  have hopened := inv_opened hm stmt.name stmt.conn
  have hused := inv_used hopened List.mem_cons_self
  unfold Statements.create
  cases b with
  | sqlite3 => exact inv_emplace hopened taken
  | mariaDB =>
    dsimp only
    split_ifs
    · exact inv_emplace hused taken
    · exact inv_closed hused
    · exact hm
  | postgres => exact hm

theorem inv_destroy (hm : m.Inv) (p : Bytes × Handle → Bool) : (m.destroy p).Inv :=
  ⟨hm.owned.dropListed p hm.once, hm.once.sublist (List.filter_sublist.map Prod.snd),
    fun h hh => hm.below h (opened_mem_closeAll.mp hh)⟩

theorem inv_execute (hm : m.Inv) (name : Bytes) (calls : Nat) : (m.execute name calls).Inv := by
  unfold Statements.execute
  split
  · rename_i q hfind
    exact inv_replicate_used hm (List.mem_of_find?_eq_some hfind) calls
  · exact hm

end

/-! ### The map of the object -/

/-- The statement has a handle of the driver. -/
def hasHandle (b : Backend) (stmt : PreparedSTMT) : Bool := decide (b ≠ .postgres) && stmt.prepared

/-- The names and connections of the statements with a handle, by the map and by the driver. -/
def mapKeys (b : Backend) (stmts : List PreparedSTMT) : List (Bytes × Nat) :=
  (stmts.filter (hasHandle b)).map fun stmt => (stmt.name, stmt.conn)

def Statements.keys (m : Statements) : List (Bytes × Nat) := m.held.map fun q => (q.1, q.2.conn)

/-- The map has each name once and the driver the statements of the map, until that is destroyed. -/
structure Agrees (b : Backend) (db : Lifecycle.State) (m : Statements) : Prop where
  names : (db.preparedStmts.map (·.name)).Nodup
  same : db.destroyed = false → m.keys = mapKeys b db.preparedStmts
  gone : db.destroyed = true → m.held = []

section

variable {b : Backend} {m : Statements} {stmts : List PreparedSTMT} {stmt : PreparedSTMT}

theorem nodup_emplace (h : (stmts.map (·.name)).Nodup) :
    ((Lifecycle.emplace stmts stmt).map (·.name)).Nodup := by
  unfold Lifecycle.emplace
  split_ifs with htaken
  · exact h
  · rw [List.map_cons, List.nodup_cons]
    refine ⟨fun hmem => htaken ?_, h⟩
    obtain ⟨other, hother, hname⟩ := List.mem_map.mp hmem
    exact List.any_eq_true.mpr ⟨other, hother, by simpa using hname⟩

theorem mapKeys_cons (b : Backend) (stmt : PreparedSTMT) (stmts : List PreparedSTMT) :
    mapKeys b (stmt :: stmts) =
      if hasHandle b stmt then (stmt.name, stmt.conn) :: mapKeys b stmts else mapKeys b stmts := by
  unfold mapKeys
  rw [List.filter_cons]
  split_ifs <;> rfl

theorem held_create (b : Backend) (initialised taken : Bool) (stmt : PreparedSTMT) (m : Statements)
    (hb : b = .sqlite3 → stmt.prepared = true) :
    (m.create b initialised taken stmt).held =
      if hasHandle b stmt = true ∧ taken = false then (stmt.name, ⟨m.nextHandle, stmt.conn⟩) :: m.held
      else m.held := by
  unfold Statements.create Statements.emplace hasHandle
  cases b with
  | sqlite3 =>
    rw [hb rfl]
    cases taken <;> rfl
  | mariaDB => cases stmt.prepared <;> cases initialised <;> cases taken <;> rfl
  | postgres => rfl

theorem keys_create (initialised : Bool) (hb : b = .sqlite3 → stmt.prepared = true)
    (h : m.keys = mapKeys b stmts) :
    (m.create b initialised (stmts.any (·.name = stmt.name)) stmt).keys =
      mapKeys b (Lifecycle.emplace stmts stmt) := by
  unfold Lifecycle.emplace Statements.keys
  rw [held_create b initialised _ stmt m hb]
  cases htaken : stmts.any (·.name = stmt.name) with
  | true =>
    rw [if_neg (by simp), if_pos rfl]
    exact h
  | false =>
    have hnew : mapKeys b (if false = true then stmts else stmt :: stmts) =
        mapKeys b (stmt :: stmts) := rfl
    rw [hnew, mapKeys_cons, ← h]
    by_cases hhandle : hasHandle b stmt = true
    · rw [if_pos ⟨hhandle, rfl⟩, if_pos hhandle]
      rfl
    · rw [if_neg fun hc => hhandle hc.1, if_neg hhandle]
      rfl

theorem keys_destroy_name (name : Bytes) (h : m.keys = mapKeys b stmts) :
    (m.destroy (·.1 = name)).keys = mapKeys b (stmts.filter (·.name ≠ name)) := by
  have hheld : (m.destroy (·.1 = name)).keys = m.keys.filter (·.1 ≠ name) := by
    unfold Statements.keys
    rw [List.filter_map]
    simp only [Statements.destroy, ← decide_not]
    rfl
  have hmap : mapKeys b (stmts.filter (·.name ≠ name)) = (mapKeys b stmts).filter (·.1 ≠ name) := by
    unfold mapKeys
    rw [List.filter_map, List.filter_filter, List.filter_filter]
    refine congrArg _ (List.filter_congr fun stmt _ => ?_)
    exact Bool.and_comm _ _
  rw [hheld, hmap, h]

theorem held_clear (m : Statements) : m.clear.held = [] := by
  simp [Statements.clear, Statements.destroy]

theorem held_execute (name : Bytes) (calls : Nat) (m : Statements) :
    (m.execute name calls).held = m.held := by
  unfold Statements.execute
  split <;> rfl

/-- SQLite has an object for a statement only where the driver has one. -/
theorem prepared_of_createPreparedSTMT {name query : Bytes} {accepted : Bool} {db : Lifecycle.State}
    (h : Lifecycle.createPreparedSTMT b name query accepted db = some stmt) :
    b = .sqlite3 → stmt.prepared = true := by
  rintro rfl
  unfold Lifecycle.createPreparedSTMT at h
  cases hconn : db.conn with
  | none => simp [hconn] at h
  | some k =>
    simp only [hconn] at h
    split_ifs at h
    exact Option.some.inj h ▸ rfl

theorem Agrees.congr {db db' : Lifecycle.State} {m m' : Statements} (h : Agrees b db m)
    (hdestroyed : db'.destroyed = db.destroyed) (hstmts : db'.preparedStmts = db.preparedStmts)
    (hheld : m'.held = m.held) : Agrees b db' m' := by
  refine ⟨hstmts ▸ h.names, fun halive => ?_, fun hgone => ?_⟩
  · rw [Statements.keys, hheld, hstmts]
    exact h.same (hdestroyed ▸ halive)
  · exact hheld.trans (h.gone (hdestroyed ▸ hgone))

theorem agrees_empty {db : Lifecycle.State} {m : Statements} (hstmts : db.preparedStmts = [])
    (hheld : m.held = []) : Agrees b db m := by
  refine ⟨by simp [hstmts], fun _ => ?_, fun _ => hheld⟩
  rw [Statements.keys, hheld, hstmts]
  rfl

end

/-! ### One step -/

structure Inv (c : Subclass) (s : State) : Prop where
  ledger : s.stmts.Inv
  agrees : Agrees c.backend s.db s.stmts

section

variable {b : Backend} {c : Subclass} {s : State} {name query : Bytes} {accepted : Bool}

theorem stmts_doDisconnect (b : Backend) (s : State) : (s.doDisconnect b).stmts = s.stmts := by
  unfold State.doDisconnect
  split
  · rfl
  · split_ifs <;> rfl

theorem doPreDisconnect_cases (b : Backend) (s : State) :
    (Lifecycle.doPreDisconnect b s.db = s.db ∧ (s.doPreDisconnect b).stmts = s.stmts) ∨
      (Lifecycle.doPreDisconnect b s.db = { s.db with preparedStmts := [] } ∧
        (s.doPreDisconnect b).stmts = s.stmts.clear) := by
  unfold Lifecycle.doPreDisconnect State.doPreDisconnect
  cases b with
  | sqlite3 =>
    dsimp only
    split_ifs
    · exact .inr ⟨rfl, rfl⟩
    · exact .inl ⟨rfl, rfl⟩
  | mariaDB | postgres => exact .inr ⟨rfl, rfl⟩

theorem inv_doPreDisconnect (h : s.stmts.Inv) (b : Backend) : (s.doPreDisconnect b).stmts.Inv := by
  rcases doPreDisconnect_cases b s with ⟨_, heq⟩ | ⟨_, heq⟩
  · exact heq ▸ h
  · exact heq ▸ inv_destroy h _

theorem agrees_doPreDisconnect (h : Agrees b s.db s.stmts) :
    Agrees b (Lifecycle.doPreDisconnect b s.db) (s.doPreDisconnect b).stmts := by
  rcases doPreDisconnect_cases b s with ⟨hdb, heq⟩ | ⟨hdb, heq⟩
  · rw [hdb, heq]
    exact h
  · rw [hdb, heq]
    exact agrees_empty rfl (held_clear s.stmts)

theorem inv_drive (h : s.stmts.Inv) (initialised : Bool) (a : Lifecycle.Act) :
    (s.drive c initialised a).stmts.Inv := by
  cases a <;> simp only [State.drive]
  case preConnectReturns answer => split_ifs <;> exact h
  case preDisconnectReturns =>
    rw [stmts_doDisconnect]
    split_ifs
    · exact h
    · exact inv_doPreDisconnect h _
  case prepareSTMT name query accepted =>
    split
    · exact inv_create h ..
    · exact h
  case erase name => exact inv_destroy h _
  case clear => exact inv_destroy h _
  case destroy =>
    refine inv_destroy ?_ _
    rw [stmts_doDisconnect]
    exact inv_doPreDisconnect h _
  all_goals exact h

theorem agrees_prepareSTMT (h : Agrees c.backend s.db s.stmts) (halive : s.db.destroyed = false)
    (initialised : Bool) :
    Agrees c.backend (Lifecycle.doPrepareSTMT c.backend name query accepted s.db)
      (s.drive c initialised (.prepareSTMT name query accepted)).stmts := by
  simp only [State.drive]
  unfold Lifecycle.doPrepareSTMT
  cases hcreate : Lifecycle.createPreparedSTMT c.backend name query accepted s.db with
  | none => exact h
  | some stmt =>
    refine ⟨nodup_emplace h.names, fun _ => ?_, fun hgone => ?_⟩
    · exact keys_create initialised (prepared_of_createPreparedSTMT hcreate) (h.same halive)
    · cases halive.symm.trans hgone

theorem alive_of_inClientCode (h : s.db.inClientCode c = true) : s.db.destroyed = false := by
  unfold Lifecycle.State.inClientCode at h
  simp only [Bool.and_eq_true, Bool.not_eq_true'] at h
  exact h.1

theorem connectBody_map (answer : ConnectAnswer) (rest : List Lifecycle.Hook)
    (db : Lifecycle.State) :
    (Lifecycle.connectBody answer rest db).destroyed = db.destroyed ∧
      (Lifecycle.connectBody answer rest db).preparedStmts = db.preparedStmts := by
  rcases Lifecycle.connectBody_cases answer rest db with ⟨_, heq⟩ | ⟨_, _, heq⟩ | ⟨_, _, heq⟩ <;>
    rw [heq] <;> exact ⟨rfl, rfl⟩

theorem agrees_drive {db' : Lifecycle.State} {a : Lifecycle.Act} (initialised : Bool)
    (h : Agrees c.backend s.db s.stmts) (hstep : Lifecycle.step c s.db a = some db') :
    Agrees c.backend db' (s.drive c initialised a).stmts := by
  cases Lifecycle.step_inversion hstep with
  | connect hclient => exact h.congr rfl rfl rfl
  | postConnectReturns hhooks => exact h.congr rfl rfl rfl
  | disconnect hclient => exact h.congr rfl rfl rfl
  | postDisconnectReturns hhooks => exact h.congr rfl rfl rfl
  | @preConnectReturns answer rest hhooks =>
    obtain ⟨hdestroyed, hstmts⟩ := connectBody_map answer rest s.db
    refine h.congr hdestroyed hstmts ?_
    simp only [State.drive]
    split_ifs <;> rfl
  | @preDisconnectReturns rest hhooks =>
    simp only [State.drive, stmts_doDisconnect]
    unfold Lifecycle.disconnectBody
    split_ifs
    · exact h.congr rfl rfl rfl
    · exact (agrees_doPreDisconnect h).congr rfl rfl rfl
  | prepareSTMT hclient => exact agrees_prepareSTMT h (alive_of_inClientCode hclient) initialised
  | @erase name hclient =>
    refine ⟨h.names.sublist (List.filter_sublist.map _), fun halive => ?_, fun hgone => ?_⟩
    · exact keys_destroy_name name (h.same halive)
    · cases (alive_of_inClientCode hclient).symm.trans hgone
  | clear hclient => exact agrees_empty rfl (held_clear s.stmts)
  | destroy hhooks halive =>
    refine ⟨(agrees_doPreDisconnect h).names, fun hf => ?_, fun _ => held_clear _⟩
    cases hf

theorem step_inv (c : Subclass) : (system c).Preserves (fun _ _ => True) (Inv c) := by
  intro s a s' h _ hstep
  cases a with
  | lifecycle a initialised =>
    obtain ⟨db', hdb, rfl⟩ := Option.map_eq_some_iff.mp hstep
    exact ⟨inv_drive h.ledger initialised a, agrees_drive initialised h.agrees hdb⟩
  | execute name calls =>
    simp only [system, step] at hstep
    split_ifs at hstep
    obtain rfl := Option.some.inj hstep
    exact ⟨inv_execute h.ledger name calls,
      h.agrees.congr rfl rfl (held_execute name calls s.stmts)⟩

theorem init_inv (c : Subclass) : Inv c (system c).init := by
  refine ⟨⟨.nil fun _ _ h => ?_, List.nodup_nil, fun _ h => ?_⟩, agrees_empty rfl rfl⟩
  · cases h
  · cases h

end

/-! ### Whole runs -/

/-- Each statement of the driver is opened once and not touched after it is closed; while it is open
it is held under one name, which is that of a registered statement; a name holds one at most; and when
the object is gone it has been closed exactly once. -/
structure StatementsOwnedOnce (c : Subclass) (s : State) : Prop where
  untouched : Ordered s.stmts.calls
  heldOnce : ∀ h, .opened h ∈ s.stmts.calls → .closed h ∉ s.stmts.calls →
    ∃! name, (name, h) ∈ s.stmts.held
  single : ∀ name h h', (name, h) ∈ s.stmts.held → (name, h') ∈ s.stmts.held → h = h'
  registered : s.db.destroyed = false → ∀ name conn,
    (∃ stmt ∈ s.db.preparedStmts, hasHandle c.backend stmt = true ∧ stmt.name = name ∧
        stmt.conn = conn) ↔
      ∃ h, (name, h) ∈ s.stmts.held ∧ h.conn = conn
  closedOnce : s.db.destroyed = true → ∀ h, .opened h ∈ s.stmts.calls →
    s.stmts.calls.count (.closed h) = 1

section

variable {c : Subclass} {s : State}

/-- A name is in the map once, so it holds one statement. -/
theorem nodup_held_names (h : Inv c s) : (s.stmts.held.map Prod.fst).Nodup := by
  cases hdestroyed : s.db.destroyed with
  | true =>
    rw [h.agrees.gone hdestroyed]
    exact List.nodup_nil
  | false =>
    have hkeys : s.stmts.held.map Prod.fst = s.stmts.keys.map Prod.fst := by
      rw [Statements.keys, List.map_map]
      rfl
    have hmap : (mapKeys c.backend s.db.preparedStmts).map Prod.fst =
        (s.db.preparedStmts.filter (hasHandle c.backend)).map (·.name) := by
      rw [mapKeys, List.map_map]
      rfl
    rw [hkeys, h.agrees.same hdestroyed, hmap]
    exact h.agrees.names.sublist (List.filter_sublist.map _)

theorem ownedOnce_of_inv (h : Inv c s) : StatementsOwnedOnce c s where
  untouched := h.ledger.owned.ordered
  heldOnce k hopened hclosed := by
    obtain ⟨name, hname⟩ := h.ledger.owned.covered k hopened hclosed
    exact ⟨name, hname, fun other hother => h.ledger.owned.exclusive other name k hother hname⟩
  single name k k' hk hk' := by
    have heq := List.inj_on_of_nodup_map (nodup_held_names h) hk hk' rfl
    exact (Prod.mk.inj heq).2
  registered halive name conn := by
    have hmem : (name, conn) ∈ mapKeys c.backend s.db.preparedStmts ↔
        (name, conn) ∈ s.stmts.keys := by
      rw [h.agrees.same halive]
    simp only [mapKeys, Statements.keys, List.mem_map, List.mem_filter, Prod.mk.injEq, and_assoc]
      at hmem
    rw [hmem]
    constructor
    · rintro ⟨⟨_, k⟩, hk, rfl, hconn⟩
      exact ⟨k, hk, hconn⟩
    · rintro ⟨k, hk, hconn⟩
      exact ⟨(name, k), hk, rfl, hconn⟩
  closedOnce hgone k hk := by
    refine h.ledger.owned.count_closed (fun name r hr => ?_) hk
    unfold Listed at hr
    rw [h.agrees.gone hgone] at hr
    cases hr

end

/-- **Statements are owned once.** This holds in every state that a run reaches, whatever the hooks of
the subclass do. -/
theorem statements_owned_once (c : Subclass) (as : List Act) (s : State)
    (hrun : (system c).run as = some s) : StatementsOwnedOnce c s :=
  ownedOnce_of_inv (Machine.invariant (init_inv c) (step_inv c) hrun)

/-- A name is prepared twice in a hook and executed; a connection is closed with its statement
registered, and the object is destroyed. -/
theorem statements_owned_once_hooks :
    StatementsOwnedOnce ⟨.sqlite3, fun _ => true⟩
      ⟨⟨false, none, [⟨[97], [98], 0, true⟩], [], 1, true⟩,
        ⟨[], 2, [.closed ⟨0, 0⟩, .used ⟨0, 0⟩, .used ⟨0, 0⟩, .closed ⟨1, 0⟩, .opened ⟨1, 0⟩,
          .opened ⟨0, 0⟩]⟩,
        [.busy 0, .opened 0]⟩ :=
  statements_owned_once ⟨.sqlite3, fun _ => true⟩
    [.lifecycle .connect true, .lifecycle (.preConnectReturns .connected) true,
      .lifecycle (.prepareSTMT [97] [98] true) true, .lifecycle (.prepareSTMT [97] [99] true) true,
      .lifecycle .postConnectReturns true, .execute [97] 2, .lifecycle .disconnect true,
      .lifecycle .preDisconnectReturns true, .lifecycle .postDisconnectReturns true,
      .lifecycle .destroy true]
    _ (by decide)

/-! ### Connections -/

/-- A connection that was opened is neither closed nor the one of the object. -/
def Lost (conn : Option Nat) (conns : List ConnCall) : Prop :=
  ∃ k, .opened k ∈ conns ∧ .closed k ∉ conns ∧ conn ≠ some k

/-- A connect finds an open handle, or SQLite is left with a statement that is not finalized. -/
def LosesConnection (c : Subclass) (s : State) : Act → Prop
  | .lifecycle (.preConnectReturns answer) _ =>
    s.db.connected = false ∧ answer ≠ .noHandle ∧ s.db.conn ≠ none
  | .lifecycle .preDisconnectReturns _ =>
    c.backend = .sqlite3 ∧ c.overrides .doPreDisconnect = true ∧
      ∃ q ∈ s.stmts.held, s.db.conn = some q.2.conn
  | _ => False

/-- The handle of the object is open, a connection is closed once at most, and the next one is new. -/
structure ConnInv (conn : Option Nat) (next : Nat) (conns : List ConnCall) : Prop where
  current : ∀ k ∈ conn, .opened k ∈ conns ∧ .closed k ∉ conns
  below : ∀ k, .opened k ∈ conns ∨ .closed k ∈ conns → k < next
  once : ∀ k, conns.count (.closed k) ≤ 1

section

variable {conn : Option Nat} {next k : Nat} {conns : List ConnCall}

theorem lost_of_current (h : ConnInv conn next conns) {conn' : Option Nat}
    (hne : ∀ k ∈ conn, conn' ≠ some k) (hbelow : ∀ k, .opened k ∈ conns → conn' ≠ some k) :
    Lost conn' conns ↔ Lost conn conns ∨ conn ≠ none := by
  constructor
  · rintro ⟨k, hopened, hclosed, _⟩
    by_cases hk : conn = some k
    · exact .inr (by simp [hk])
    · exact .inl ⟨k, hopened, hclosed, hk⟩
  · rintro (⟨k, hopened, hclosed, _⟩ | hsome)
    · exact ⟨k, hopened, hclosed, hbelow k hopened⟩
    · obtain ⟨k, rfl⟩ := Option.ne_none_iff_exists'.mp hsome
      exact ⟨k, (h.current k rfl).1, (h.current k rfl).2, hne k rfl⟩

theorem lost_none (h : ConnInv conn next conns) : Lost none conns ↔ Lost conn conns ∨ conn ≠ none :=
  lost_of_current h (fun _ _ hf => by cases hf) fun _ _ hf => by cases hf

theorem lost_opened (h : ConnInv conn next conns) :
    Lost (some next) (.opened next :: conns) ↔ Lost conn conns ∨ conn ≠ none := by
  have hnew : ∀ k, .opened k ∈ conns → some next ≠ some k := by
    intro k hk heq
    have hlt := h.below k (.inl hk)
    have hsame : next = k := Option.some.inj heq
    omega
  rw [← lost_of_current h (fun k hk => hnew k (h.current k hk).1) hnew]
  constructor
  · rintro ⟨k, hopened, hclosed, hne⟩
    refine ⟨k, ?_, fun hmem => hclosed (List.mem_cons_of_mem _ hmem), hne⟩
    rcases List.mem_cons.mp hopened with heq | hopened
    · exact absurd (congrArg some (ConnCall.opened.inj heq).symm) hne
    · exact hopened
  · rintro ⟨k, hopened, hclosed, hne⟩
    exact ⟨k, List.mem_cons_of_mem _ hopened, by simpa using hclosed, hne⟩

theorem lost_closed : Lost none (.closed k :: conns) ↔ Lost (some k) conns := by
  constructor
  · rintro ⟨j, hopened, hclosed, _⟩
    rw [List.mem_cons, not_or] at hclosed
    refine ⟨j, by simpa using hopened, hclosed.2, fun heq => hclosed.1 ?_⟩
    rw [Option.some.inj heq]
  · rintro ⟨j, hopened, hclosed, hne⟩
    refine ⟨j, List.mem_cons_of_mem _ hopened, ?_, fun hf => by cases hf⟩
    rw [List.mem_cons, not_or]
    exact ⟨fun heq => hne (congrArg some (ConnCall.closed.inj heq).symm), hclosed⟩

theorem lost_busy (h : ConnInv (some k) next conns) : Lost none (.busy k :: conns) := by
  obtain ⟨hopened, hclosed⟩ := h.current k rfl
  exact ⟨k, List.mem_cons_of_mem _ hopened, by simpa using hclosed, fun hf => by cases hf⟩

theorem connInv_none (h : ConnInv conn next conns) : ConnInv none next conns :=
  ⟨fun _ hk => (by cases hk), h.below, h.once⟩

theorem connInv_opened (h : ConnInv conn next conns) :
    ConnInv (some next) (next + 1) (.opened next :: conns) := by
  refine ⟨fun k hk => ?_, fun k hk => ?_, fun k => ?_⟩
  · obtain rfl := Option.some.inj hk
    refine ⟨List.mem_cons_self, fun hmem => ?_⟩
    have hlt := h.below next (.inr (by simpa using hmem))
    omega
  · by_cases heq : k = next
    · omega
    · have hlt := h.below k (by simpa [heq] using hk)
      omega
  · simpa [List.count_cons] using h.once k

theorem connInv_closed (h : ConnInv (some k) next conns) :
    ConnInv none next (.closed k :: conns) := by
  obtain ⟨hopened, hclosed⟩ := h.current k rfl
  refine ⟨fun _ hj => (by cases hj), fun j hj => ?_, fun j => ?_⟩
  · by_cases heq : j = k
    · exact heq ▸ h.below k (.inl hopened)
    · exact h.below j (by simpa [heq] using hj)
  · rw [List.count_cons]
    by_cases heq : j = k
    · subst heq
      simp [List.count_eq_zero_of_not_mem hclosed]
    · have hne : ¬ (ConnCall.closed k == .closed j) = true := by
        simpa using fun h => heq h.symm
      rw [if_neg hne]
      exact h.once j

theorem connInv_busy (h : ConnInv conn next conns) : ConnInv none next (.busy k :: conns) := by
  refine ⟨fun _ hj => (by cases hj), fun j hj => h.below j (by simpa using hj), fun j => ?_⟩
  simpa [List.count_cons] using h.once j

end

section

variable {b : Backend} {c : Subclass} {s : State}

theorem unfinalized_iff {m : Statements} (hm : m.Inv) (conn : Nat) :
    m.unfinalized conn = true ↔ ∃ q ∈ m.held, q.2.conn = conn := by
  unfold Statements.unfinalized
  rw [List.any_eq_true]
  constructor
  · rintro ⟨e, he, hlive⟩
    cases e with
    | opened h =>
      simp only [Bool.and_eq_true, decide_eq_true_eq] at hlive
      obtain ⟨name, hname⟩ := hm.owned.covered h he hlive.2
      exact ⟨(name, h), hname, hlive.1⟩
    | used h => cases hlive
    | closed h => cases hlive
  · rintro ⟨⟨name, h⟩, hheld, hconn⟩
    obtain ⟨hopened, hclosed⟩ := hm.owned.live name h hheld
    exact ⟨.opened h, hopened, by simpa using ⟨hconn, hclosed⟩⟩

theorem conns_doDisconnect (b : Backend) (s : State) :
    (s.db.conn = none ∧ (s.doDisconnect b).conns = s.conns) ∨
      (∃ k, s.db.conn = some k ∧ (b = .sqlite3 ∧ s.stmts.unfinalized k = true) ∧
        (s.doDisconnect b).conns = .busy k :: s.conns) ∨
      (∃ k, s.db.conn = some k ∧ ¬ (b = .sqlite3 ∧ s.stmts.unfinalized k = true) ∧
        (s.doDisconnect b).conns = .closed k :: s.conns) := by
  unfold State.doDisconnect
  cases hconn : s.db.conn with
  | none => exact .inl ⟨rfl, rfl⟩
  | some k =>
    dsimp only
    split_ifs with hbusy
    · exact .inr (.inl ⟨k, rfl, hbusy, rfl⟩)
    · exact .inr (.inr ⟨k, rfl, hbusy, rfl⟩)

theorem connInv_doDisconnect (h : ConnInv s.db.conn s.db.nextConn s.conns) :
    ConnInv none s.db.nextConn (s.doDisconnect b).conns := by
  rcases conns_doDisconnect b s with ⟨hconn, heq⟩ | ⟨k, hconn, _, heq⟩ | ⟨k, hconn, _, heq⟩ <;>
    rw [heq] <;> rw [hconn] at h
  · exact h
  · exact connInv_busy h
  · exact connInv_closed h

theorem lost_doDisconnect (h : ConnInv s.db.conn s.db.nextConn s.conns) (hs : s.stmts.Inv) :
    Lost none (s.doDisconnect b).conns ↔ Lost s.db.conn s.conns ∨
      (b = .sqlite3 ∧ ∃ q ∈ s.stmts.held, s.db.conn = some q.2.conn) := by
  rcases conns_doDisconnect b s with ⟨hconn, heq⟩ | ⟨k, hconn, hbusy, heq⟩ | ⟨k, hconn, hbusy, heq⟩ <;>
    rw [heq, hconn] <;> rw [hconn] at h
  · exact (or_iff_left fun hf => by simp at hf).symm
  · obtain ⟨q, hq, hqk⟩ := (unfinalized_iff hs k).mp hbusy.2
    exact iff_of_true (lost_busy h) (.inr ⟨hbusy.1, q, hq, congrArg some hqk.symm⟩)
  · refine lost_closed.trans (or_iff_left ?_).symm
    rintro ⟨hb, q, hq, hqk⟩
    exact hbusy ⟨hb, (unfinalized_iff hs k).mpr ⟨q, hq, (Option.some.inj hqk).symm⟩⟩

theorem held_doPreDisconnect (b : Backend) (s : State) (h : s.db.conn ≠ none) :
    (s.doPreDisconnect b).stmts.held = [] := by
  unfold State.doPreDisconnect
  cases b with
  | sqlite3 =>
    rw [if_pos (Option.isSome_iff_ne_none.mpr h)]
    exact held_clear s.stmts
  | mariaDB | postgres => exact held_clear s.stmts

theorem db_doPreDisconnect (b : Backend) (s : State) :
    (s.doPreDisconnect b).db = s.db ∧ (s.doPreDisconnect b).conns = s.conns := by
  unfold State.doPreDisconnect
  cases b with
  | sqlite3 => split_ifs <;> exact ⟨rfl, rfl⟩
  | mariaDB | postgres => exact ⟨rfl, rfl⟩

theorem lost_own_disconnect (h : ConnInv s.db.conn s.db.nextConn s.conns) (hs : s.stmts.Inv) :
    Lost none ((s.doPreDisconnect b).doDisconnect b).conns ↔ Lost s.db.conn s.conns := by
  obtain ⟨hdb, hconns⟩ := db_doPreDisconnect b s
  have hpre : ConnInv (s.doPreDisconnect b).db.conn (s.doPreDisconnect b).db.nextConn
      (s.doPreDisconnect b).conns := by rwa [hdb, hconns]
  rw [lost_doDisconnect hpre (inv_doPreDisconnect hs b), hdb, hconns]
  apply or_iff_left
  rintro ⟨_, q, hq, hqconn⟩
  rw [held_doPreDisconnect b s (by simp [hqconn])] at hq
  cases hq

/-- What holds in every state. -/
structure RunInv (c : Subclass) (s : State) : Prop extends Inv c s where
  conn : ConnInv s.db.conn s.db.nextConn s.conns

/-- What a step does to the connections: it keeps the invariant, and it loses one exactly where
`LosesConnection` says so. -/
structure ConnStep (s : State) (db' : Lifecycle.State) (conns' : List ConnCall) (loses : Prop) :
    Prop where
  inv : ConnInv db'.conn db'.nextConn conns'
  lost : Lost db'.conn conns' ↔ Lost s.db.conn s.conns ∨ loses

theorem connStep_same {db' : Lifecycle.State} {conns' : List ConnCall} {loses : Prop}
    (h : ConnInv s.db.conn s.db.nextConn s.conns) (hkeeps : ¬ loses) (hconn : db'.conn = s.db.conn)
    (hnext : db'.nextConn = s.db.nextConn) (hconns : conns' = s.conns) :
    ConnStep s db' conns' loses := by
  refine ⟨?_, ?_⟩
  · rwa [hconn, hnext, hconns]
  · rw [hconn, hconns]
    exact (or_iff_left hkeeps).symm

theorem conns_prepareSTMT (initialised : Bool) (name query : Bytes) (accepted : Bool) :
    (s.drive c initialised (.prepareSTMT name query accepted)).conns = s.conns := by
  simp only [State.drive]
  split <;> rfl

theorem connStep_connect (h : RunInv c s) (initialised : Bool) (answer : ConnectAnswer)
    (rest : List Lifecycle.Hook) :
    ConnStep s (Lifecycle.connectBody answer rest s.db)
      (s.drive c initialised (.preConnectReturns answer)).conns
      (s.db.connected = false ∧ answer ≠ .noHandle ∧ s.db.conn ≠ none) := by
  rcases Lifecycle.connectBody_cases answer rest s.db with
    ⟨hkept, heq⟩ | ⟨hc, rfl, heq⟩ | ⟨hc, rfl, heq⟩
  · have hdrive : (s.drive c initialised (.preConnectReturns answer)).conns = s.conns := by
      simp only [State.drive]
      rw [if_neg]
      rintro ⟨hc, rfl⟩
      rcases hkept with hkept | hkept
      · cases hc.symm.trans hkept
      · cases hkept
    rw [heq]
    refine connStep_same h.conn ?_ rfl rfl hdrive
    rintro ⟨hc, hne, _⟩
    rcases hkept with hkept | hkept
    · cases hc.symm.trans hkept
    · exact hne hkept
  · rw [heq]
    simp only [State.drive, hc, and_self, if_true]
    refine ⟨connInv_opened h.conn, (lost_opened h.conn).trans (or_congr_right ?_)⟩
    exact ⟨fun hne => ⟨trivial, by decide, hne⟩, fun hloses => hloses.2.2⟩
  · rw [heq]
    have hno : ¬ (s.db.connected = false ∧ ConnectAnswer.refused = .connected) :=
      fun hf => by cases hf.2
    simp only [State.drive, if_neg hno]
    refine ⟨connInv_none h.conn, (lost_none h.conn).trans (or_congr_right ?_)⟩
    exact ⟨fun hne => ⟨hc, by decide, hne⟩, fun hloses => hloses.2.2⟩

theorem connStep_drive {db' : Lifecycle.State} {a : Lifecycle.Act} (h : RunInv c s)
    (initialised : Bool) (hstep : Lifecycle.step c s.db a = some db') :
    ConnStep s db' (s.drive c initialised a).conns
      (LosesConnection c s (.lifecycle a initialised)) := by
  cases Lifecycle.step_inversion hstep with
  | connect hclient => exact connStep_same h.conn id rfl rfl rfl
  | postConnectReturns hhooks => exact connStep_same h.conn id rfl rfl rfl
  | disconnect hclient => exact connStep_same h.conn id rfl rfl rfl
  | postDisconnectReturns hhooks => exact connStep_same h.conn id rfl rfl rfl
  | erase hclient => exact connStep_same h.conn id rfl rfl rfl
  | clear hclient => exact connStep_same h.conn id rfl rfl rfl
  | @preConnectReturns answer rest hhooks => exact connStep_connect h initialised answer rest
  | @prepareSTMT name query accepted hclient =>
    rw [Lifecycle.doPrepareSTMT_map]
    exact connStep_same h.conn id rfl rfl (conns_prepareSTMT initialised name query accepted)
  | @preDisconnectReturns rest hhooks =>
    rw [Lifecycle.disconnectBody_map]
    simp only [State.drive]
    split_ifs with howns
    · refine ⟨connInv_doDisconnect h.conn, (lost_doDisconnect h.conn h.ledger).trans ?_⟩
      refine or_congr_right ⟨fun hloses => ⟨hloses.1, howns, hloses.2⟩, fun hloses => ?_⟩
      exact ⟨hloses.1, hloses.2.2⟩
    · obtain ⟨hdb, hconns⟩ := db_doPreDisconnect c.backend s
      have hpre : ConnInv (s.doPreDisconnect c.backend).db.conn
          (s.doPreDisconnect c.backend).db.nextConn (s.doPreDisconnect c.backend).conns := by
        rw [hdb, hconns]
        exact h.conn
      have hinv := connInv_doDisconnect (b := c.backend) hpre
      rw [hdb] at hinv
      refine ⟨hinv, (lost_own_disconnect h.conn h.ledger).trans (or_iff_left ?_).symm⟩
      exact fun hloses => howns hloses.2.1
  | destroy hhooks halive =>
    obtain ⟨hdb, hconns⟩ := db_doPreDisconnect c.backend s
    have hpre : ConnInv (s.doPreDisconnect c.backend).db.conn
        (s.doPreDisconnect c.backend).db.nextConn (s.doPreDisconnect c.backend).conns := by
      rw [hdb, hconns]
      exact h.conn
    have hinv := connInv_doDisconnect (b := c.backend) hpre
    rw [hdb] at hinv
    rw [Lifecycle.doPreDisconnect_map]
    exact ⟨hinv, (lost_own_disconnect h.conn h.ledger).trans (or_iff_left id).symm⟩

theorem connStep_step {s' : State} {a : Act} (h : RunInv c s) (hstep : step c s a = some s') :
    ConnStep s s'.db s'.conns (LosesConnection c s a) := by
  cases a with
  | lifecycle a initialised =>
    obtain ⟨db', hdb, rfl⟩ := Option.map_eq_some_iff.mp hstep
    exact connStep_drive h initialised hdb
  | execute name calls =>
    simp only [step] at hstep
    split_ifs at hstep
    obtain rfl := Option.some.inj hstep
    exact connStep_same h.conn id rfl rfl rfl

theorem step_runInv (c : Subclass) : (system c).Preserves (fun _ _ => True) (RunInv c) := by
  intro s a s' h _ hstep
  exact ⟨step_inv c s a s' h.toInv trivial hstep, (connStep_step h hstep).inv⟩

theorem init_runInv (c : Subclass) : RunInv c (system c).init := by
  refine ⟨init_inv c, fun k hk => ?_, fun k hk => ?_, fun k => Nat.zero_le 1⟩
  · cases hk
  · simp [system] at hk

end

/-- In every run a connection is lost exactly when a step lost one. -/
theorem lost_iff_occurs {c : Subclass} {as : List Act} {s : State}
    (hrun : (system c).run as = some s) :
    Lost s.db.conn s.conns ↔ (system c).Occurs (LosesConnection c) as := by
  have hinit : ¬ Lost (system c).init.db.conn (system c).init.conns := by
    rintro ⟨k, hopened, _⟩
    cases hopened
  have hlost := Machine.holds_iff_occursFrom (P := LosesConnection c)
    (Q := fun s => Lost s.db.conn s.conns) (step_runInv c)
    (fun _ _ _ h hstep => (connStep_step h hstep).lost) (init_runInv c) hrun
  exact hlost.trans (or_iff_right hinit)

/-- **When a connection is lost.** In every run a connection is closed once at most, and one that was
opened is neither closed nor that of the object exactly when some step of the run lost one. -/
theorem connection_lost_iff (c : Subclass) (as : List Act) (s : State)
    (hrun : (system c).run as = some s) :
    (∀ k, s.conns.count (.closed k) ≤ 1) ∧
      (Lost s.db.conn s.conns ↔ (system c).Occurs (LosesConnection c) as) := by
  have h : RunInv c s := Machine.invariant (init_runInv c) (step_runInv c) hrun
  exact ⟨h.conn.once, lost_iff_occurs hrun⟩

/-- The override of `DoPreDisconnect` leaves the statement of a connection registered. -/
theorem connection_lost_busy :
    let c : Subclass := ⟨.sqlite3, (· = .doPreDisconnect)⟩
    let as : List Act :=
      [.lifecycle .connect true, .lifecycle (.preConnectReturns .connected) true,
        .lifecycle .postConnectReturns true, .lifecycle (.prepareSTMT [97] [98] true) true,
        .lifecycle .disconnect true, .lifecycle .preDisconnectReturns true]
    (∀ k, [ConnCall.busy 0, .opened 0].count (.closed k) ≤ 1) ∧
      (Lost none [.busy 0, .opened 0] ↔ (system c).Occurs (LosesConnection c) as) :=
  connection_lost_iff _ _
    ⟨⟨true, none, [⟨[97], [98], 0, true⟩], [.doPostDisconnect], 1, false⟩,
      ⟨[([97], ⟨0, 0⟩)], 1, [.opened ⟨0, 0⟩]⟩, [.busy 0, .opened 0]⟩ (by decide)

/-! ### Subclasses that leave the disconnect hooks alone -/

section

variable {c : Subclass} {s : State}

/-- What such a subclass has in every state. -/
structure KeepsConnections (c : Subclass) (s : State) : Prop extends RunInv c s where
  closed : Lifecycle.ClosedUnlessConnected s.db
  none : ¬ Lost s.db.conn s.conns

theorem not_losesConnection (hpre : c.overrides .doPreDisconnect = false)
    (h : Lifecycle.ClosedUnlessConnected s.db) (a : Act) : ¬ LosesConnection c s a := by
  unfold LosesConnection
  split
  · exact fun hloses => hloses.2.2 (h.closed hloses.1)
  · exact fun hloses => absurd hloses.2.1 (by simp [hpre])
  · exact id

theorem closed_step {s' : State} {a : Act} (hpost : c.overrides .doPostDisconnect = false)
    (h : Lifecycle.ClosedUnlessConnected s.db) (hstep : step c s a = some s') :
    Lifecycle.ClosedUnlessConnected s'.db := by
  cases a with
  | lifecycle a initialised =>
    obtain ⟨db', hdb, rfl⟩ := Option.map_eq_some_iff.mp hstep
    exact Lifecycle.step_closed hpost s.db a db' h trivial hdb
  | execute name calls =>
    simp only [step] at hstep
    split_ifs at hstep
    obtain rfl := Option.some.inj hstep
    exact h

theorem step_keepsConnections (hpre : c.overrides .doPreDisconnect = false)
    (hpost : c.overrides .doPostDisconnect = false) :
    (system c).Preserves (fun _ _ => True) (KeepsConnections c) := by
  intro s a s' h _ hstep
  refine ⟨step_runInv c s a s' h.toRunInv trivial hstep, closed_step hpost h.closed hstep, ?_⟩
  rw [(connStep_step h.toRunInv hstep).lost, or_iff_left (not_losesConnection hpre h.closed a)]
  exact h.none

theorem init_keepsConnections (c : Subclass) : KeepsConnections c (system c).init := by
  refine ⟨init_runInv c, ⟨fun _ => rfl, fun _ hf => ?_, ?_⟩, ?_⟩
  · cases hf
  · exact List.not_mem_nil
  · rintro ⟨k, hopened, _⟩
    cases hopened

end

/-- **Connections are closed once.** In every run of a subclass that overrides neither
`DoPreDisconnect` nor `DoPostDisconnect`, each connection that was opened has been closed exactly once,
unless it is the one the object has. -/
theorem connections_closed_once (c : Subclass) (hpre : c.overrides .doPreDisconnect = false)
    (hpost : c.overrides .doPostDisconnect = false) (as : List Act) (s : State)
    (hrun : (system c).run as = some s) (k : Nat) (hk : .opened k ∈ s.conns) :
    s.conns.count (.closed k) = if s.db.conn = some k then 0 else 1 := by
  have h : KeepsConnections c s :=
    Machine.invariant (init_keepsConnections c) (step_keepsConnections hpre hpost) hrun
  split_ifs with hcurrent
  · exact List.count_eq_zero_of_not_mem (h.conn.current k hcurrent).2
  · have hclosed : .closed k ∈ s.conns := by
      by_contra hopen
      exact h.none ⟨k, hk, hopen, hcurrent⟩
    have hle := h.conn.once k
    have hpos := List.count_pos_iff.mpr hclosed
    omega

/-- A connect hook prepares a statement; the object connects, disconnects and connects again. -/
theorem connections_closed_once_hooks :
    [ConnCall.opened 1, .closed 0, .opened 0].count (.closed 0) = if some 1 = some 0 then 0 else 1 :=
  connections_closed_once ⟨.sqlite3, (· = .doPostConnect)⟩ rfl rfl
    [.lifecycle .connect true, .lifecycle (.preConnectReturns .connected) true,
      .lifecycle (.prepareSTMT [97] [98] true) true, .lifecycle .postConnectReturns true,
      .lifecycle .disconnect true, .lifecycle .preDisconnectReturns true,
      .lifecycle .postDisconnectReturns true, .lifecycle .connect true,
      .lifecycle (.preConnectReturns .connected) true]
    ⟨⟨true, some 1, [], [.doPostConnect], 2, false⟩,
      ⟨[], 1, [.closed ⟨0, 0⟩, .opened ⟨0, 0⟩]⟩, [.opened 1, .closed 0, .opened 0]⟩
    (by decide) 0 (by decide)

end StormByteDatabase.StatementHandles
