import Mathlib.Data.List.DropRight
import StormByteDatabase.Database.Lifecycle

/-!
# Names of prepared statements on a PostgreSQL server

A PostgreSQL statement is a name on the server, up to its first NUL byte. The server refuses a name in
use, except the empty one, whose statement ends with the next preparation under it and with the next
`PQexec`, and forgets the names with the connection. `Postgres` never gives a name back: neither the
destructor of a statement nor an `emplace` that finds the name taken sends a `DEALLOCATE`. A run is one
of `Lifecycle` with the queries and the executions of the client, in which the server answers to each
`PQprepare` by the names it holds. No query and no statement of the client is a `PREPARE`, a
`DEALLOCATE` or a `DISCARD`.

`runs_own`: in every run a registered statement whose name is not empty on the server executes its own
text there, whatever was erased, prepared again or executed. `registrable_iff`: a name that is not
registered can be registered again on an open connection exactly when it is empty on the server or the
server does not hold it, so that an erased name is spent until the next connection.

Proof. On one connection the server holds a name once, the empty one apart, and what is registered was
held at its preparation. The connection of the past does not come back.
-/

namespace StormByteDatabase.PreparedNames

open Lib
open Lifecycle (Hook Act PreparedSTMT executeSTMT)

def isspace (c : UInt8) : Bool := c = 32 || (9 ≤ c && c ≤ 13)

/-- The text that `CreatePreparedSTMT` gives to `PQprepare`. -/
def preparedText (query : Bytes) : Bytes := cString (query.rdropWhile fun c => c = 59 || isspace c)

/-- A statement that a server holds for a connection. -/
structure Held where
  conn : Nat
  name : Bytes
  text : Bytes
  deriving DecidableEq, Repr

/-- What happens next. -/
inductive Call
  | act (a : Act)
  /-- `ExecuteSTMT`, which sends a `PQexecPrepared` for the statement that has the name. -/
  | executeSTMT (name : Bytes)
  /-- `Query`, `SilentQuery` or a statement of a transaction, which send a `PQexec`. -/
  | query
  deriving DecidableEq, Repr

/-- `held` has what was prepared on the servers, latest first. -/
structure State where
  db : Lifecycle.State
  held : List Held
  deriving DecidableEq, Repr

/-- The server holds a statement under the name for the connection. -/
def State.uses (s : State) (conn : Nat) (name : Bytes) : Bool :=
  s.held.any fun q => q.conn = conn && q.name = name

/-- The text that `PQexecPrepared` runs. -/
def State.text (s : State) (stmt : PreparedSTMT) : Option Bytes :=
  (s.held.find? fun q => q.conn = stmt.conn && q.name = cString stmt.name).map Held.text

/-- The answer of the server to `PQprepare`; `accepted` is about the query. -/
def State.grants (s : State) (conn : Nat) (name : Bytes) (accepted : Bool) : Bool :=
  accepted && (cString name = [] || !s.uses conn (cString name))

/-- `DoPrepareSTMT` with the answer of the server, should it be asked. -/
def State.serve (s : State) : Act → Act
  | .prepareSTMT name query accepted =>
    .prepareSTMT name query (s.db.conn.any fun conn => s.grants conn name accepted)
  | a => a

/-- What the servers hold once the unnamed statement of the connection has ended. -/
def State.endUnnamed (s : State) (conn : Nat) : List Held :=
  s.held.filter fun q => !(q.conn = conn && q.name = [])

/-- What the servers hold after a step. -/
def State.heldAfter (s : State) : Call → List Held
  | .act (.prepareSTMT name query accepted) =>
    match s.db.conn with
    | some conn =>
      let kept := if cString name = [] then s.endUnnamed conn else s.held
      if s.grants conn name accepted then ⟨conn, cString name, preparedText query⟩ :: kept else kept
    | none => s.held
  | .query =>
    match s.db.conn with
    | some conn => if s.db.connected then s.endUnnamed conn else s.held
    | none => s.held
  | .act _ | .executeSTMT _ => s.held

def State.dbAfter (overrides : Hook → Bool) (s : State) : Call → Option Lifecycle.State
  | .act a => Lifecycle.step ⟨.postgres, overrides⟩ s.db (s.serve a)
  | .executeSTMT _ | .query =>
    if s.db.inClientCode ⟨.postgres, overrides⟩ then some s.db else none

def step (overrides : Hook → Bool) (s : State) (c : Call) : Option State :=
  (s.dbAfter overrides c).map fun db => ⟨db, s.heldAfter c⟩

/-- A new object of a class derived from `Postgres`. -/
def system (overrides : Hook → Bool) : Machine State Call :=
  ⟨⟨(Lifecycle.system ⟨.postgres, overrides⟩).init, []⟩, step overrides⟩

/-! ### What the servers hold -/

structure Inv (s : State) : Prop where
  fresh : Lifecycle.Fresh s.db
  below : ∀ q ∈ s.held, q.conn < s.db.nextConn
  /-- A name is held once, the empty one apart. -/
  once : ∀ q ∈ s.held, ∀ q' ∈ s.held, q.conn = q'.conn → q.name = q'.name → q.name ≠ [] → q = q'
  registered : ∀ stmt ∈ s.db.preparedStmts, cString stmt.name ≠ [] →
    ⟨stmt.conn, cString stmt.name, preparedText stmt.query⟩ ∈ s.held

/-- What remains of the statements is all of them but unnamed ones. -/
structure Remains (held held' : List Held) : Prop where
  mem : ∀ q ∈ held', q ∈ held
  named : ∀ q ∈ held, q.name ≠ [] → q ∈ held'

theorem Remains.refl (held : List Held) : Remains held held := ⟨fun _ hq => hq, fun _ hq _ => hq⟩

theorem remains_endUnnamed (s : State) (conn : Nat) : Remains s.held (s.endUnnamed conn) :=
  ⟨fun _ hq => List.mem_of_mem_filter hq,
    fun q hq hname => List.mem_filter.mpr ⟨hq, by simp [hname]⟩⟩

section

variable {s : State} {name : Bytes}

theorem uses_iff {conn : Nat} : s.uses conn name = true ↔ ∃ text, ⟨conn, name, text⟩ ∈ s.held := by
  unfold State.uses
  rw [List.any_eq_true]
  constructor
  · rintro ⟨⟨conn', name', text⟩, hmem, heq⟩
    obtain ⟨rfl, rfl⟩ : conn' = conn ∧ name' = name := by simpa using heq
    exact ⟨text, hmem⟩
  · rintro ⟨text, hmem⟩
    exact ⟨_, hmem, by simp⟩

theorem text_of_mem (hs : Inv s) {stmt : PreparedSTMT} {text : Bytes}
    (hmem : ⟨stmt.conn, cString stmt.name, text⟩ ∈ s.held) (hname : cString stmt.name ≠ []) :
    s.text stmt = some text := by
  unfold State.text
  cases hfind : s.held.find? fun q => q.conn = stmt.conn && q.name = cString stmt.name with
  | none => simpa using List.find?_eq_none.mp hfind _ hmem
  | some q =>
    have hq : q.conn = stmt.conn ∧ q.name = cString stmt.name := by
      simpa using List.find?_some hfind
    have heq : q = ⟨stmt.conn, cString stmt.name, text⟩ := by
      apply hs.once q (List.mem_of_find?_eq_some hfind) _ hmem hq.1 hq.2
      rwa [hq.2]
    rw [heq]
    rfl

theorem prepare_cases (name query : Bytes) (accepted : Bool) (s : State) :
    (Remains s.held (s.heldAfter (.act (.prepareSTMT name query accepted))) ∧
        ∃ granted, s.serve (.prepareSTMT name query accepted) = .prepareSTMT name query granted ∧
          Lifecycle.doPrepareSTMT .postgres name query granted s.db = s.db) ∨
      ∃ conn held, s.db.conn = some conn ∧
        (cString name ≠ [] → s.uses conn (cString name) = false) ∧ Remains s.held held ∧
        s.heldAfter (.act (.prepareSTMT name query accepted)) =
          ⟨conn, cString name, preparedText query⟩ :: held ∧
        s.serve (.prepareSTMT name query accepted) = .prepareSTMT name query true := by
  unfold State.heldAfter State.serve
  cases hconn : s.db.conn with
  | none =>
    refine .inl ⟨.refl s.held, false, rfl, ?_⟩
    simp [Lifecycle.doPrepareSTMT, Lifecycle.createPreparedSTMT, hconn]
  | some conn =>
    have hkept : Remains s.held (if cString name = [] then s.endUnnamed conn else s.held) := by
      split_ifs
      · exact remains_endUnnamed s conn
      · exact .refl s.held
    cases hgrants : s.grants conn name accepted with
    | false =>
      refine .inl ⟨by simpa [hgrants] using hkept, false, by simp [hgrants], ?_⟩
      simp [Lifecycle.doPrepareSTMT, Lifecycle.createPreparedSTMT, hconn]
    | true =>
      refine .inr ⟨conn, _, rfl, fun hname => ?_, hkept, by simp [hgrants], by simp [hgrants]⟩
      simpa [State.grants, hname] using (Bool.and_eq_true_iff.mp hgrants).2

end

/-! ### One step -/

/-- What a step does to the object: a preparation, or nothing that adds to the map. A connection that
is open after it was open before, or is new. -/
structure Kept (db db' : Lifecycle.State) : Prop where
  nextConn : db.nextConn ≤ db'.nextConn
  conn : ∀ k, db'.conn = some k → db.conn = some k ∨ k = db.nextConn
  stmts : ∀ stmt ∈ db'.preparedStmts, stmt ∈ db.preparedStmts

theorem Kept.of_same {db db' : Lifecycle.State} (hnext : db'.nextConn = db.nextConn)
    (hconn : db'.conn = db.conn) (hstmts : db'.preparedStmts = db.preparedStmts) : Kept db db' :=
  ⟨Nat.le_of_eq hnext.symm, fun _ hk => .inl (hconn ▸ hk), fun _ hmem => hstmts ▸ hmem⟩

section

variable {overrides : Hook → Bool} {s s' : State} {c : Call}

theorem kept_of_step {a : Act} {db db' : Lifecycle.State}
    (hstep : Lifecycle.step ⟨.postgres, overrides⟩ db a = some db')
    (ha : ∀ name query accepted, a ≠ .prepareSTMT name query accepted) : Kept db db' := by
  cases Lifecycle.step_inversion hstep with
  | prepareSTMT hclient => exact absurd rfl (ha _ _ _)
  | @preConnectReturns answer rest hhooks =>
    rcases Lifecycle.connectBody_cases answer rest db with ⟨_, heq⟩ | ⟨_, _, heq⟩ | ⟨_, _, heq⟩
    · rw [heq]
      exact .of_same rfl rfl rfl
    · rw [heq]
      exact ⟨Nat.le_succ _, fun k hk => .inr (Option.some.inj hk).symm, fun _ hmem => hmem⟩
    · rw [heq]
      exact ⟨Nat.le_refl _, fun k hk => (by cases hk), fun _ hmem => hmem⟩
  | @preDisconnectReturns rest hhooks =>
    have hstmts : ∀ stmt ∈ (Lifecycle.disconnectBody ⟨.postgres, overrides⟩ rest db).preparedStmts,
        stmt ∈ db.preparedStmts := by
      unfold Lifecycle.disconnectBody
      split_ifs
      · exact fun _ hmem => hmem
      · exact fun _ hmem => by cases hmem
    rw [Lifecycle.disconnectBody_map]
    exact ⟨Nat.le_refl _, fun k hk => (by cases hk), hstmts⟩
  | destroy hhooks halive =>
    exact ⟨Nat.le_refl _, fun k hk => (by cases hk), fun _ hmem => by cases hmem⟩
  | erase hclient =>
    exact ⟨Nat.le_refl _, fun k hk => .inl hk, fun _ hmem => List.mem_of_mem_filter hmem⟩
  | clear hclient => exact ⟨Nat.le_refl _, fun k hk => .inl hk, fun _ hmem => by cases hmem⟩
  | connect hclient | disconnect hclient => exact .of_same rfl rfl rfl
  | postConnectReturns hhooks | postDisconnectReturns hhooks => exact .of_same rfl rfl rfl

theorem serve_of_ne {a : Act} (ha : ∀ name query accepted, a ≠ .prepareSTMT name query accepted) :
    s.serve a = a ∧ s.heldAfter (.act a) = s.held := by
  cases a with
  | prepareSTMT name query accepted => exact absurd rfl (ha name query accepted)
  | _ => exact ⟨rfl, rfl⟩

theorem remains_query (s : State) : Remains s.held (s.heldAfter .query) := by
  unfold State.heldAfter
  cases s.db.conn with
  | none => exact .refl s.held
  | some conn =>
    dsimp only
    split_ifs
    · exact remains_endUnnamed s conn
    · exact .refl s.held

/-- A preparation that the server takes, or a step after which it holds what it held, but for the
unnamed statement. -/
theorem step_cases (hstep : step overrides s c = some s') :
    (Kept s.db s'.db ∧ Remains s.held s'.held) ∨
      ∃ name query conn held, s.db.conn = some conn ∧
        (cString name ≠ [] → s.uses conn (cString name) = false) ∧ Remains s.held held ∧
        s'.held = ⟨conn, cString name, preparedText query⟩ :: held ∧
        s'.db = Lifecycle.doPrepareSTMT .postgres name query true s.db := by
  obtain ⟨db', hdb, rfl⟩ := Option.map_eq_some_iff.mp hstep
  cases c with
  | executeSTMT name =>
    obtain ⟨-, heq⟩ := Option.ite_none_right_eq_some.mp hdb
    obtain rfl : s.db = db' := Option.some.inj heq
    exact .inl ⟨.of_same rfl rfl rfl, .refl s.held⟩
  | query =>
    obtain ⟨-, heq⟩ := Option.ite_none_right_eq_some.mp hdb
    obtain rfl : s.db = db' := Option.some.inj heq
    exact .inl ⟨.of_same rfl rfl rfl, remains_query s⟩
  | act a =>
    replace hdb : Lifecycle.step ⟨.postgres, overrides⟩ s.db (s.serve a) = some db' := hdb
    by_cases hprepare : ∃ name query accepted, a = .prepareSTMT name query accepted
    · obtain ⟨name, query, accepted, rfl⟩ := hprepare
      rcases prepare_cases name query accepted s with
        ⟨hheld, granted, hserve, hsame⟩ | ⟨conn, held, hconn, hnew, hremains, hheld, hserve⟩
      · refine .inl ⟨?_, hheld⟩
        rw [hserve] at hdb
        cases Lifecycle.step_inversion hdb with
        | prepareSTMT hclient =>
          show Kept s.db (Lifecycle.doPrepareSTMT .postgres name query granted s.db)
          rw [hsame]
          exact .of_same rfl rfl rfl
      · refine .inr ⟨name, query, conn, held, hconn, hnew, hremains, hheld, ?_⟩
        rw [hserve] at hdb
        cases Lifecycle.step_inversion hdb with
        | prepareSTMT hclient => rfl
    · have hne : ∀ name query accepted, a ≠ .prepareSTMT name query accepted :=
        fun name query accepted heq => hprepare ⟨name, query, accepted, heq⟩
      obtain ⟨hserve, hheld⟩ := serve_of_ne (s := s) hne
      rw [hserve] at hdb
      refine .inl ⟨kept_of_step hdb hne, ?_⟩
      show Remains s.held (s.heldAfter (.act a))
      rw [hheld]
      exact .refl s.held

theorem stmts_prepare {name query : Bytes} {conn : Nat} {db : Lifecycle.State}
    (hconn : db.conn = some conn) :
    ∀ stmt ∈ (Lifecycle.doPrepareSTMT .postgres name query true db).preparedStmts,
      stmt = ⟨name, query, conn, true⟩ ∨ stmt ∈ db.preparedStmts := by
  intro stmt hmem
  simp only [Lifecycle.doPrepareSTMT, Lifecycle.createPreparedSTMT, hconn, if_true] at hmem
  exact Lifecycle.mem_emplace hmem

theorem step_fresh (hfresh : Lifecycle.Fresh s.db) (hstep : step overrides s c = some s') :
    Lifecycle.Fresh s'.db := by
  obtain ⟨db', hdb, rfl⟩ := Option.map_eq_some_iff.mp hstep
  cases c with
  | act a => exact Lifecycle.step_fresh _ s.db _ db' hfresh trivial hdb
  | executeSTMT _ | query =>
    obtain ⟨-, heq⟩ := Option.ite_none_right_eq_some.mp hdb
    obtain rfl : s.db = db' := Option.some.inj heq
    exact hfresh

theorem step_inv (overrides : Hook → Bool) :
    (system overrides).Preserves (fun _ _ => True) Inv := by
  intro s c s' hs _ hstep
  have hfresh : Lifecycle.Fresh s'.db := step_fresh hs.fresh hstep
  rcases step_cases hstep with
    ⟨hkept, hremains⟩ | ⟨name, query, conn, held, hconn, hnew, hremains, hheld, hdb⟩
  · refine ⟨hfresh, fun q hq => ?_, fun q hq q' hq' => ?_, fun stmt hmem hname => ?_⟩
    · exact Nat.lt_of_lt_of_le (hs.below q (hremains.mem q hq)) hkept.nextConn
    · exact hs.once q (hremains.mem q hq) q' (hremains.mem q' hq')
    · exact hremains.named _ (hs.registered stmt (hkept.stmts stmt hmem) hname) hname
  · have hbelow : conn < s.db.nextConn := hs.fresh conn hconn
    refine ⟨hfresh, ?_, ?_, ?_⟩
    · rw [hheld, hdb, Lifecycle.doPrepareSTMT_map]
      intro q hq
      rcases List.mem_cons.mp hq with rfl | hq
      · exact hbelow
      · exact hs.below q (hremains.mem q hq)
    · rw [hheld]
      have hother : ∀ q ∈ held, q.conn = conn → q.name = cString name → cString name = [] := by
        intro q hq hqconn hqname
        by_contra hname
        have huses : s.uses conn (cString name) = true :=
          uses_iff.mpr ⟨q.text, hqconn ▸ hqname ▸ hremains.mem q hq⟩
        rw [hnew hname] at huses
        cases huses
      intro q hq q' hq' hconns hnames hname
      rcases List.mem_cons.mp hq with rfl | hq
      · rcases List.mem_cons.mp hq' with rfl | hq'
        · rfl
        · exact absurd (hother q' hq' hconns.symm hnames.symm) hname
      · rcases List.mem_cons.mp hq' with rfl | hq'
        · exact absurd (hnames.trans (hother q hq hconns hnames)) hname
        · exact hs.once q (hremains.mem q hq) q' (hremains.mem q' hq') hconns hnames hname
    · rw [hheld, hdb]
      intro stmt hmem hname
      rcases stmts_prepare hconn stmt hmem with rfl | hmem
      · exact List.mem_cons_self
      · exact List.mem_cons_of_mem _ (hremains.named _ (hs.registered stmt hmem hname) hname)

theorem init_inv (overrides : Hook → Bool) : Inv (system overrides).init :=
  ⟨fun _ hk => (by cases hk), fun _ hq => (by cases hq), fun _ hq => (by cases hq),
    fun _ hmem => (by cases hmem)⟩

end

/-! ### Runs -/

/-- **A statement executes its own text.** In every run a registered statement whose name is not empty
on the server is one that the server holds for the connection it was prepared on, with the text of its
query. -/
theorem runs_own (overrides : Hook → Bool) (cs : List Call) (s : State)
    (hrun : (system overrides).run cs = some s) (stmt : PreparedSTMT)
    (hstmt : stmt ∈ s.db.preparedStmts) (hname : cString stmt.name ≠ []) :
    s.text stmt = some (preparedText stmt.query) := by
  have hs : Inv s := Machine.invariant (init_inv overrides) (step_inv overrides) hrun
  exact text_of_mem hs (hs.registered stmt hstmt hname) hname

/-- A name is erased and another one prepared, whose text loses its end. -/
theorem runs_own_erased :
    State.text
        ⟨⟨true, some 0, [⟨[99], [100, 59, 32], 0, true⟩], [], 1, false⟩,
          [⟨0, [99], [100]⟩, ⟨0, [97], [98]⟩]⟩ ⟨[99], [100, 59, 32], 0, true⟩ =
      some (preparedText [100, 59, 32]) :=
  runs_own (fun _ => false)
    [.act .connect, .act (.preConnectReturns .connected), .act .postConnectReturns,
      .act (.prepareSTMT [97] [98, 59] true), .act (.erase [97]),
      .act (.prepareSTMT [99] [100, 59, 32] true), .executeSTMT [99],
      .act (.prepareSTMT [97] [101] true), .query]
    _ (by decide) _ (by decide) (by decide)

/-! ### Names that the server keeps -/

section

variable {overrides : Hook → Bool} {s : State} {conn : Nat} {name : Bytes}

theorem unknown_iff {db : Lifecycle.State} :
    executeSTMT name db = .error (.unknownSTMT name) ↔
      ∀ stmt ∈ db.preparedStmts, stmt.name ≠ name := by
  unfold executeSTMT
  cases hfind : db.preparedStmts.find? (·.name = name) with
  | none =>
    refine iff_of_true rfl fun stmt hmem => ?_
    simpa using List.find?_eq_none.mp hfind stmt hmem
  | some stmt =>
    have hname : stmt.name = name := by simpa using List.find?_some hfind
    refine iff_of_false (fun heq => by cases heq) fun hall => ?_
    exact hall stmt (List.mem_of_find?_eq_some hfind) hname

/-- The server holds the name for the connection, and while that is open the object does not have it
registered. -/
structure Spent (conn : Nat) (name : Bytes) (s : State) : Prop where
  past : conn < s.db.nextConn
  held : s.uses conn (cString name) = true
  unknown : s.db.conn = some conn → ∀ stmt ∈ s.db.preparedStmts, stmt.name ≠ name

theorem uses_of_remains {held : List Held} {db : Lifecycle.State} (hname : name ≠ [])
    (hremains : Remains s.held held) (h : s.uses conn name = true) :
    State.uses ⟨db, held⟩ conn name = true := by
  obtain ⟨text, hmem⟩ := uses_iff.mp h
  exact uses_iff.mpr ⟨text, hremains.named _ hmem hname⟩

theorem step_spent (hname : cString name ≠ []) :
    (system overrides).Preserves (fun _ _ => True) (Spent conn name) := by
  intro s c s' hs _ hstep
  rcases step_cases hstep with
    ⟨hkept, hremains⟩ | ⟨name', query, conn', held, hconn, hnew, hremains, hheld, hdb⟩
  · refine ⟨Nat.lt_of_lt_of_le hs.past hkept.nextConn, ?_, fun hopen stmt hmem => ?_⟩
    · exact uses_of_remains hname hremains hs.held
    · have hbefore : s.db.conn = some conn := by
        rcases hkept.conn conn hopen with hbefore | hnext
        · exact hbefore
        · exact absurd hs.past (by omega)
      exact hs.unknown hbefore stmt (hkept.stmts stmt hmem)
  · refine ⟨?_, ?_, fun hopen stmt hmem => ?_⟩
    · rw [hdb, Lifecycle.doPrepareSTMT_map]
      exact hs.past
    · obtain ⟨text, hmem⟩ := uses_iff.mp hs.held
      exact uses_iff.mpr ⟨text, hheld ▸ List.mem_cons_of_mem _ (hremains.named _ hmem hname)⟩
    · rw [hdb] at hopen hmem
      rw [Lifecycle.doPrepareSTMT_map] at hopen
      have hopen : s.db.conn = some conn := hopen
      obtain rfl : conn' = conn := Option.some.inj (hconn.symm.trans hopen)
      rcases stmts_prepare hconn stmt hmem with rfl | hmem
      · -- the server refuses the name
        rintro rfl
        have hused := hs.held
        rw [hnew hname] at hused
        cases hused
      · exact hs.unknown hopen stmt hmem

theorem registered_of_prepare (query : Bytes)
    (hclient : s.db.inClientCode ⟨.postgres, overrides⟩ = true) (hconn : s.db.conn = some conn)
    (hfree : s.grants conn name true = true) :
    ∃ t, (system overrides).runFrom s [.act (.prepareSTMT name query true)] = some t ∧
      t.db.conn = some conn ∧ ∃ stmt ∈ t.db.preparedStmts, stmt.name = name := by
  have hserve : s.serve (.prepareSTMT name query true) = .prepareSTMT name query true := by
    simp [State.serve, hconn, hfree]
  have hdb : s.dbAfter overrides (.act (.prepareSTMT name query true)) =
      some (Lifecycle.doPrepareSTMT .postgres name query true s.db) := by
    show Lifecycle.step _ s.db (s.serve (.prepareSTMT name query true)) = _
    rw [hserve]
    exact if_pos hclient
  have hstep : step overrides s (.act (.prepareSTMT name query true)) =
      some ⟨Lifecycle.doPrepareSTMT .postgres name query true s.db,
        s.heldAfter (.act (.prepareSTMT name query true))⟩ := by
    simp only [step, hdb, Option.map_some]
  have hrun : (system overrides).runFrom s [.act (.prepareSTMT name query true)] =
      some ⟨Lifecycle.doPrepareSTMT .postgres name query true s.db,
        s.heldAfter (.act (.prepareSTMT name query true))⟩ := by
    simp only [Machine.runFrom, system, hstep, Option.bind_some]
  refine ⟨_, hrun, ?_, ?_⟩
  · rw [Lifecycle.doPrepareSTMT_map]
    exact hconn
  · simp only [Lifecycle.doPrepareSTMT, Lifecycle.createPreparedSTMT, hconn, if_true]
    unfold Lifecycle.emplace
    split_ifs with htaken
    · obtain ⟨stmt, hmem, hname⟩ := List.any_eq_true.mp htaken
      exact ⟨stmt, hmem, by simpa using hname⟩
    · exact ⟨_, List.mem_cons_self, rfl⟩

end

/-- **A name that is spent.** In client code, on an open connection, a name that is not registered can
be registered again on this connection exactly when it is empty on the server, or the server holds
nothing under it. -/
theorem registrable_iff (overrides : Hook → Bool) (cs : List Call) (s : State)
    (hrun : (system overrides).run cs = some s)
    (hclient : s.db.inClientCode ⟨.postgres, overrides⟩ = true) (conn : Nat)
    (hconn : s.db.conn = some conn) (name : Bytes)
    (hunknown : executeSTMT name s.db = .error (.unknownSTMT name)) :
    (∃ bs t, (system overrides).runFrom s bs = some t ∧ t.db.conn = some conn ∧
        executeSTMT name t.db ≠ .error (.unknownSTMT name)) ↔
      cString name = [] ∨ s.uses conn (cString name) = false := by
  have hs : Inv s := Machine.invariant (init_inv overrides) (step_inv overrides) hrun
  constructor
  · rintro ⟨bs, t, hbs, hopen, hknown⟩
    by_contra hspent
    obtain ⟨hname, hused⟩ := not_or.mp hspent
    have hinit : Spent conn name s :=
      ⟨hs.fresh conn hconn, Bool.not_eq_false _ ▸ hused, fun _ => unknown_iff.mp hunknown⟩
    have ht : Spent conn name t :=
      Machine.invariantFrom_of_meets (step_spent hname) hinit (Machine.meetsFrom_true s bs) hbs
    exact hknown (unknown_iff.mpr (ht.unknown hopen))
  · intro hfree
    have hgrants : s.grants conn name true = true := by
      simpa [State.grants] using hfree
    obtain ⟨t, ht, hopen, stmt, hmem, hname⟩ := registered_of_prepare [] hclient hconn hgrants
    refine ⟨_, t, ht, hopen, fun hunknown' => ?_⟩
    exact unknown_iff.mp hunknown' stmt hmem hname

/-- An erased name, which the server holds, and one that was never prepared. -/
theorem registrable_iff_erased :
    let s : State := ⟨⟨true, some 0, [], [], 1, false⟩, [⟨0, [97], [98]⟩]⟩
    (∃ bs t, (system fun _ => false).runFrom s bs = some t ∧ t.db.conn = some 0 ∧
        executeSTMT [97] t.db ≠ .error (.unknownSTMT [97])) ↔
      cString [97] = [] ∨ s.uses 0 (cString [97]) = false :=
  registrable_iff (fun _ => false)
    [.act .connect, .act (.preConnectReturns .connected), .act .postConnectReturns,
      .act (.prepareSTMT [97] [98, 59] true), .act (.erase [97])]
    _ (by decide) (by decide) 0 (by decide) [97] (by decide)

end StormByteDatabase.PreparedNames
