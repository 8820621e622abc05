import StormByteDatabase.Database.Transaction
import StormByteDatabase.Lib.AtomicStore

/-!
# Transactions as scopes of writes

What a `Transaction` is for: the writes made while it is active are kept together by `Commit`, and are
gone after `Rollback` or the destructor. This is a store with scopes (`Lib.AtomicStore`), run beside
the connections: `BeginTransaction` enters a scope, `Commit` publishes it, the other ends discard it,
and `Disconnect` leaves it. No operation of the store can fail. A connection does what the server
answers, and `Database` drops the answers to `BEGIN`, `COMMIT` and `ROLLBACK`:

* inside an open transaction `BEGIN` is refused by SQLite, changes nothing in PostgreSQL, and commits
  what is open in MariaDB;
* in PostgreSQL a statement that fails makes the transaction fail: the server takes no further
  statement, and `COMMIT` rolls it back;
* a server can refuse a statement, or answer with an error that rolls the transaction back.

The statements of the client are writes, not statements about transactions, and what was committed
outlives the connection, as in a file or on a server.

`follows_iff`: throughout a run every connection has committed and keeps open what the store says
exactly when each step is one in which the answers agree with it: a `BEGIN` is accepted, with nothing
open that it would join or commit; an end that is executed is that of the open transaction, carried
out, with all of its writes; a write does not roll the transaction back.
`atomic_scopes`: in such a run each transaction is committed with all of its writes or with none, and
it is committed exactly when `Commit` was called on it.

Proof. One lemma says of each statement when the connection follows the store over it. The store's own
invariants hold in every run, since serial numbers are not used twice.
-/

namespace StormByteDatabase.AtomicScopes

open Lib Transactions

variable {ω : Type}

/-- The statements of `DoBeginTransaction`, `CommitTransaction` and `RollbackTransaction`. -/
inductive Statement
  | setTransaction (level : IsolationLevel)
  | beginTransaction (level : IsolationLevel)
  | commit
  | rollback
  deriving DecidableEq, Repr

/-- The answer of the server where it has a choice; `aborted` is an error that rolls the open
transaction back. -/
inductive Answer
  | accepted
  | refused
  | aborted
  deriving DecidableEq, Repr

/-- The transaction in progress: the number of the `BeginTransaction` whose `BEGIN` opened it, its
writes, and whether a statement failed in it (PostgreSQL). -/
structure Work (ω : Type) where
  serial : Nat
  writes : List ω
  failed : Bool
  deriving DecidableEq, Repr

/-- `connected` is `m_connected`; `durable` has the writes that were committed on the connections of
the object, in order. -/
structure Conn (ω : Type) where
  connected : Bool
  durable : List ω
  work : Option (Work ω)
  deriving DecidableEq, Repr

/-- What a `COMMIT` that is carried out keeps. -/
def Work.kept (t : Work ω) : List ω := if t.failed then [] else t.writes

def Conn.committed (c : Conn ω) : Conn ω :=
  match c.work with
  | some t => { c with durable := c.durable ++ t.kept, work := none }
  | none => c

def Conn.rolledBack (c : Conn ω) : Conn ω := { c with work := none }

/-- The connection after a statement that leads to `done` when it is carried out. -/
def Conn.answered (r : Answer) (c done : Conn ω) : Conn ω × Bool :=
  match r with
  | .accepted => (done, true)
  | .refused => (c, false)
  | .aborted => (c.rolledBack, false)

/-- A transaction statement on an open connection; the flag is that of `DoSilentQuery`. -/
def exec (b : Backend) (serial : Nat) (r : Answer) (c : Conn ω) : Statement → Conn ω × Bool
  | .setTransaction _ => (c, c.work.isNone && decide (r = .accepted))
  | .beginTransaction _ =>
    match b, c.work with
    | .sqlite3, some _ => (c, false)
    | .postgres, some t => if t.failed then (c, false) else c.answered r c
    | _, _ => c.answered r { c.committed with work := some ⟨serial, [], false⟩ }
  | .commit =>
    match b, c.work with
    | .sqlite3, none => (c, false)
    | _, _ => c.answered r c.committed
  | .rollback =>
    match b, c.work with
    | .sqlite3, none => (c, false)
    | _, _ => c.answered r c.rolledBack

def doSilentQuery (b : Backend) (serial : Nat) (r : Answer) (c : Conn ω) (q : Statement) :
    Conn ω × Bool :=
  if c.connected then exec b serial r c q else (c, false)

/-- The statements of `DoBeginTransaction`. -/
def beginStatements (b : Backend) (level : IsolationLevel) : List Statement :=
  match b, level with
  | .mariaDB, .default => [.beginTransaction level]
  | .mariaDB, _ => [.setTransaction level, .beginTransaction level]
  | _, _ => [.beginTransaction level]

def doBeginTransaction (b : Backend) (level : IsolationLevel) (serial : Nat) (r : Answer)
    (c : Conn ω) : Conn ω :=
  (beginStatements b level).foldl (fun c q => (doSilentQuery b serial r c q).1) c

def endStatement : Ending → Statement
  | .commit => .commit
  | .rollback => .rollback

def driver (b : Backend) : Driver (Conn ω) Answer where
  connect r c :=
    if c.connected then c
    else
      match r with
      | .accepted => { c with connected := true, work := none }
      | _ => c
  disconnect c := { c with connected := false, work := none }
  doBeginTransaction := doBeginTransaction b
  doEndTransaction e r c := (doSilentQuery b 0 r c (endStatement e)).1

/-- A write of the client on an open connection; the flag says whether the call succeeds. -/
def execWrite (b : Backend) (w : ω) (r : Answer) (c : Conn ω) : Conn ω × Bool :=
  match c.work with
  | none => c.answered r { c with durable := c.durable ++ [w] }
  | some t =>
    if t.failed then (c, false)
    else
      match b, r with
      | .postgres, .refused => ({ c with work := some { t with failed := true } }, false)
      | _, _ => c.answered r { c with work := some { t with writes := t.writes ++ [w] } }

/-- `SilentQuery`, or another call that executes one statement. -/
def silentQuery (b : Backend) (w : ω) (r : Answer) (c : Conn ω) : Conn ω × Bool :=
  if c.connected then execWrite b w r c else (c, false)

/-- What a step does on one database. -/
inductive Op (ω : Type)
  | connect (r : Answer)
  | disconnect
  | begins (level : IsolationLevel) (r : Answer)
  | ends (e : Ending) (serial : Nat) (r : Answer)
  | write (w : ω) (r : Answer)

/-- The connection after it; `begun` is the number of a `BeginTransaction`. -/
def Op.conn (b : Backend) (begun : Nat) (c : Conn ω) : Op ω → Conn ω
  | .connect r => (driver b).connect r c
  | .disconnect => (driver b).disconnect c
  | .begins level r => (driver b).doBeginTransaction level begun r c
  | .ends e _ r => (driver b).doEndTransaction e r c
  | .write w r => (silentQuery b w r c).1

/-- What it means for the store, which no answer of the server stops; a write is one whose call
succeeds. -/
def Op.store (b : Backend) (begun : Nat) (c : Conn ω) (m : AtomicStore Nat ω) :
    Op ω → AtomicStore Nat ω
  | .connect _ => m
  | .disconnect => m.leave
  | .begins _ _ => m.enter begun
  | .ends .commit serial _ => m.publish serial
  | .ends .rollback serial _ => m.discard serial
  | .write w r => if (silentQuery b w r c).2 then m.write w else m

inductive Act (ω : Type)
  | transactions (a : Transactions.Act Answer)
  | write (d : Nat) (w : ω) (r : Answer)

/-- The database and the transaction of an active handle. -/
def carried (db : Transactions.State (Conn ω)) (h : Nat) : Option (Nat × Nat) :=
  (db.handles.get h).bind fun t => t.live.map fun d => (d, t.serial)

/-- What a step does, and on which database; none for a move and for a handle that is not active. -/
def op (db : Transactions.State (Conn ω)) : Act ω → Option (Nat × Op ω)
  | .write d w r => some (d, .write w r)
  | .transactions a =>
    match a with
    | .connect d r => some (d, .connect r)
    | .disconnect d => some (d, .disconnect)
    | .beginTransaction d level r => some (d, .begins level r)
    | a => a.ends.bind fun q => (carried db q.1).map fun k => (k.1, .ends q.2.1 k.2 q.2.2)

/-- Any number of `Database` objects of one class with their handles, and the store of each. -/
structure State (ω : Type) where
  db : Transactions.State (Conn ω)
  store : Nat → AtomicStore Nat ω

def stepDb (b : Backend) (db : Transactions.State (Conn ω)) :
    Act ω → Option (Transactions.State (Conn ω))
  | .transactions a => Transactions.step (driver b) db a
  | .write d w r =>
    some { db with conns := Function.update db.conns d (silentQuery b w r (db.conns d)).1 }

def stepStore (b : Backend) (s : State ω) (a : Act ω) : Nat → AtomicStore Nat ω :=
  match op s.db a with
  | some (d, o) => Function.update s.store d (o.store b s.db.begun (s.db.conns d) (s.store d))
  | none => s.store

def step (b : Backend) (s : State ω) (a : Act ω) : Option (State ω) :=
  (stepDb b s.db a).map fun db => ⟨db, stepStore b s a⟩

def system (b : Backend) : Machine (State ω) (Act ω) :=
  ⟨⟨(Transactions.system (driver b) ⟨false, [], none⟩).init, fun _ => .empty⟩, step b⟩

/-- The connection has committed what the store published, and keeps open what is in its scope. -/
structure Follows (c : Conn ω) (m : AtomicStore Nat ω) : Prop where
  durable : c.durable = m.contents
  work : c.work.map (fun t => (t.serial, t.writes)) = m.scope

def Agree (s : State ω) : Prop := ∀ d, Follows (s.db.conns d) (s.store d)

/-- The `BEGIN` opens a transaction, and commits nothing of another. -/
def BeginOk (b : Backend) (r : Answer) (c : Conn ω) : Prop :=
  c.connected = true ∧ r = .accepted ∧ ∀ t ∈ c.work, b = .mariaDB ∧ t.kept = []

/-- An end of the transaction `serial`: the open one ends as it should, and another one stays. -/
def EndOk (e : Ending) (serial : Nat) (r : Answer) (c : Conn ω) : Prop :=
  ∀ t ∈ c.work,
    if t.serial = serial then
      (r = .accepted ∧ (e = .commit → t.kept = t.writes)) ∨
        (r = .aborted ∧ (e = .commit → t.writes = []))
    else r = .refused

/-- The write does not end the transaction. -/
def WriteOk (r : Answer) (c : Conn ω) : Prop := ∀ t ∈ c.work, t.failed = false → r ≠ .aborted

def Op.Sound (b : Backend) (c : Conn ω) : Op ω → Prop
  | .connect _ | .disconnect => True
  | .begins _ r => BeginOk b r c
  | .ends e serial r => EndOk e serial r c
  | .write _ r => WriteOk r c

/-- The answers of a step agree with the store. -/
def Sound (b : Backend) (s : State ω) (a : Act ω) : Prop :=
  ∀ q ∈ op s.db a, q.2.Sound b (s.db.conns q.1)

section

variable [DecidableEq ω]

instance (b : Backend) (r : Answer) (c : Conn ω) : Decidable (BeginOk b r c) :=
  inferInstanceAs (Decidable (_ ∧ _))

instance (e : Ending) (serial : Nat) (r : Answer) (c : Conn ω) : Decidable (EndOk e serial r c) :=
  inferInstanceAs (Decidable (∀ t ∈ c.work, _))

instance (r : Answer) (c : Conn ω) : Decidable (WriteOk r c) :=
  inferInstanceAs (Decidable (∀ t ∈ c.work, _))

instance (b : Backend) (c : Conn ω) : (o : Op ω) → Decidable (o.Sound b c)
  | .connect _ | .disconnect => .isTrue trivial
  | .begins _ r => inferInstanceAs (Decidable (BeginOk b r c))
  | .ends e serial r => inferInstanceAs (Decidable (EndOk e serial r c))
  | .write _ r => inferInstanceAs (Decidable (WriteOk r c))

instance (b : Backend) (s : State ω) (a : Act ω) : Decidable (Sound b s a) :=
  inferInstanceAs (Decidable (∀ q ∈ op s.db a, _))

end

/-- `Commit` was called on the transaction while it was open. -/
def Committed (s : State ω) (d serial : Nat) : Prop :=
  ∃ c, Call.ended .commit d serial c ∈ s.db.calls ∧ c.work.map Work.serial = some serial

/-! ### What a statement does to a connection -/

/-- A connection that is closed has nothing open. -/
def Conn.Closed (c : Conn ω) : Prop := c.connected = false → c.work = none

section

variable {b : Backend} {c : Conn ω} {m : AtomicStore Nat ω} {t : Work ω} {r : Answer} {e : Ending}
  {serial : Nat}

/-- `SET TRANSACTION` changes nothing that is committed or open. -/
theorem doBeginTransaction_eq (b : Backend) (level : IsolationLevel) (serial : Nat) (r : Answer)
    (c : Conn ω) : doBeginTransaction b level serial r c =
      (doSilentQuery b serial r c (.beginTransaction level)).1 := by
  have hset : (doSilentQuery b serial r c (.setTransaction level)).1 = c := by
    unfold doSilentQuery
    split_ifs <;> rfl
  unfold doBeginTransaction beginStatements
  split
  · rfl
  · rw [List.foldl_cons, hset]
    rfl
  · rfl

theorem committed_of_none (h : c.work = none) : c.committed = c := by
  unfold Conn.committed
  rw [h]

theorem rolledBack_of_none (h : c.work = none) : c.rolledBack = c := by
  unfold Conn.rolledBack
  rw [← h]

theorem work_committed (c : Conn ω) : c.committed.work = none := by
  unfold Conn.committed
  split
  · rfl
  · assumption

theorem doEnd_of_none (b : Backend) (e : Ending) (r : Answer) (h : c.work = none) :
    (driver b).doEndTransaction e r c = c := by
  have hanswered : ∀ r, (c.answered r c).1 = c := by
    intro r
    cases r with
    | accepted => rfl
    | refused => rfl
    | aborted => exact rolledBack_of_none h
  simp only [driver, doSilentQuery]
  split_ifs
  · cases e with
    | commit =>
      simp only [endStatement, exec, h]
      split
      · rfl
      · rw [committed_of_none h]
        exact hanswered r
    | rollback =>
      simp only [endStatement, exec, h]
      split
      · rfl
      · rw [rolledBack_of_none h]
        exact hanswered r
  · rfl

theorem doEnd_of_some (b : Backend) (e : Ending) (r : Answer) (hconn : c.connected = true)
    (h : c.work = some t) : (driver b).doEndTransaction e r c =
      (c.answered r (match e with | .commit => c.committed | .rollback => c.rolledBack)).1 := by
  simp only [driver, doSilentQuery, hconn, if_true]
  cases e with
  | commit => cases b <;> simp [endStatement, exec, h]
  | rollback => cases b <;> simp [endStatement, exec, h]

theorem connected_committed (c : Conn ω) : c.committed.connected = c.connected := by
  unfold Conn.committed
  split <;> rfl

theorem connected_answered {done : Conn ω} (h : done.connected = c.connected) (r : Answer) :
    (c.answered r done).1.connected = c.connected := by
  cases r with
  | accepted => exact h
  | refused => rfl
  | aborted => rfl

theorem connected_exec (b : Backend) (serial : Nat) (r : Answer) (c : Conn ω) (q : Statement) :
    (exec b serial r c q).1.connected = c.connected := by
  unfold exec
  split
  · rfl
  · split
    · rfl
    · split_ifs
      · rfl
      · exact connected_answered rfl r
    · apply connected_answered
      exact connected_committed c
  · split
    · rfl
    · exact connected_answered (connected_committed c) r
  · split
    · rfl
    · apply connected_answered
      rfl

theorem connected_execWrite (b : Backend) (w : ω) (r : Answer) (c : Conn ω) :
    (execWrite b w r c).1.connected = c.connected := by
  unfold execWrite
  split
  · apply connected_answered
    rfl
  · split_ifs
    · rfl
    · split
      · rfl
      · apply connected_answered
        rfl

theorem closed_of_connected {c' : Conn ω} (h : c'.connected = c.connected)
    (hconn : c.connected = true) : c'.Closed := by
  intro hclosed
  rw [h, hconn] at hclosed
  cases hclosed

theorem closed_doSilentQuery (hc : c.Closed) (b : Backend) (serial : Nat) (r : Answer)
    (q : Statement) : (doSilentQuery b serial r c q).1.Closed := by
  unfold doSilentQuery
  split_ifs with hconn
  · exact closed_of_connected (connected_exec b serial r c q) hconn
  · exact hc

theorem closed_conn (hc : c.Closed) (b : Backend) (begun : Nat) (o : Op ω) :
    (o.conn b begun c).Closed := by
  cases o with
  | connect r =>
    simp only [Op.conn, driver]
    split_ifs with hconn
    · exact hc
    · cases r with
      | accepted => exact fun _ => rfl
      | refused => exact hc
      | aborted => exact hc
  | disconnect => exact fun _ => rfl
  | begins level r =>
    simp only [Op.conn, driver]
    rw [doBeginTransaction_eq]
    exact closed_doSilentQuery hc b begun r _
  | ends e serial r => exact closed_doSilentQuery hc b 0 r _
  | write w r =>
    simp only [Op.conn, silentQuery]
    split_ifs with hconn
    · exact closed_of_connected (connected_execWrite b w r c) hconn
    · exact hc

/-! ### When a connection follows the store -/

theorem Follows.scope (h : Follows c m) (hwork : c.work = some t) :
    m.scope = some (t.serial, t.writes) := by
  rw [← h.work, hwork]
  rfl

theorem Follows.scope_none (h : Follows c m) (hwork : c.work = none) : m.scope = none := by
  rw [← h.work, hwork]
  rfl

theorem not_follows_enter {c' : Conn ω} (h : ∀ t ∈ c'.work, t.serial ≠ serial) :
    ¬ Follows c' (m.enter serial) := by
  intro hfollows
  obtain ⟨t, hwork, heq⟩ := Option.map_eq_some_iff.mp hfollows.work
  exact h t hwork (Prod.mk.inj heq).1

/-- A `BEGIN` that commits the transaction in progress is followed if that had nothing to keep. -/
theorem follows_begins_commits (h : Follows c m) (hwork : c.work = some t) :
    Follows { c.committed with work := some ⟨serial, [], false⟩ } (m.enter serial) ↔ t.kept = [] := by
  have hkept : c.committed.durable = c.durable ++ t.kept := by
    simp [Conn.committed, hwork]
  constructor
  · intro hfollows
    have hdurable : c.committed.durable = c.durable := hfollows.durable.trans h.durable.symm
    rwa [hkept, List.append_right_eq_self] at hdurable
  · intro hnil
    refine ⟨?_, rfl⟩
    show c.committed.durable = _
    rw [hkept, hnil, List.append_nil]
    exact h.durable

theorem follows_begins (h : Follows c m) (hm : m.Known (· < serial))
    (level : IsolationLevel) (r : Answer) :
    Follows (doBeginTransaction b level serial r c) (m.enter serial) ↔ BeginOk b r c := by
  rw [doBeginTransaction_eq]
  unfold doSilentQuery
  have hother : ∀ t ∈ c.work, t.serial ≠ serial := fun t ht =>
    Nat.ne_of_lt (hm.current _ _ (h.scope ht))
  have hrolled : ¬ Follows c.rolledBack (m.enter serial) :=
    not_follows_enter fun _ ht => by cases ht
  split_ifs with hconn
  · cases hwork : c.work with
    | none =>
      have hopens : (exec b serial r c (.beginTransaction level)).1 =
          (c.answered r { c with work := some ⟨serial, [], false⟩ }).1 := by
        cases b <;> simp [exec, hwork, committed_of_none hwork]
      rw [hopens]
      cases r with
      | accepted => exact iff_of_true ⟨h.durable, rfl⟩ ⟨hconn, rfl, by simp [hwork]⟩
      | refused => exact iff_of_false (not_follows_enter hother) fun hok => by cases hok.2.1
      | aborted => exact iff_of_false hrolled fun hok => by cases hok.2.1
    | some t =>
      have honly : BeginOk b r c → b = .mariaDB ∧ t.kept = [] := fun hok => hok.2.2 t hwork
      cases b with
      | sqlite3 =>
        simp only [exec, hwork]
        exact iff_of_false (not_follows_enter hother) fun hok => by cases (honly hok).1
      | postgres =>
        refine iff_of_false ?_ fun hok => by cases (honly hok).1
        simp only [exec, hwork]
        split_ifs
        · exact not_follows_enter hother
        · cases r with
          | accepted => exact not_follows_enter hother
          | refused => exact not_follows_enter hother
          | aborted => exact hrolled
      | mariaDB =>
        simp only [exec]
        cases r with
        | accepted =>
          refine (follows_begins_commits h hwork).trans ⟨fun hnil => ?_, fun hok => (honly hok).2⟩
          refine ⟨hconn, rfl, fun u hu => ?_⟩
          obtain rfl := Option.some.inj (hwork.symm.trans hu)
          exact ⟨rfl, hnil⟩
        | refused => exact iff_of_false (not_follows_enter hother) fun hok => by cases hok.2.1
        | aborted => exact iff_of_false hrolled fun hok => by cases hok.2.1
  · exact iff_of_false (not_follows_enter hother) fun hok => hconn hok.1

theorem follows_of_scope_none {c' : Conn ω} {m' : AtomicStore Nat ω} (hscope : m'.scope = none) :
    Follows c' m' ↔ c'.work = none ∧ c'.durable = m'.contents := by
  constructor
  · intro h
    have hwork := h.work
    rw [hscope, Option.map_eq_none_iff] at hwork
    exact ⟨hwork, h.durable⟩
  · rintro ⟨hwork, hdurable⟩
    refine ⟨hdurable, ?_⟩
    rw [hwork, hscope]
    rfl

theorem follows_commits (h : Follows c m) (hwork : c.work = some t) (r : Answer) :
    Follows (c.answered r c.committed).1 (m.publish t.serial) ↔
      (r = .accepted ∧ t.kept = t.writes) ∨ (r = .aborted ∧ t.writes = []) := by
  obtain ⟨hcontents, hleft⟩ := AtomicStore.contents_publish (h.scope hwork)
  rw [follows_of_scope_none hleft, hcontents, ← h.durable]
  cases r with
  | accepted => simp [Conn.answered, Conn.committed, hwork]
  | refused => simp [Conn.answered, hwork]
  | aborted => simp [Conn.answered, Conn.rolledBack]

theorem follows_rollsBack (h : Follows c m) (hwork : c.work = some t) (r : Answer) :
    Follows (c.answered r c.rolledBack).1 (m.discard t.serial) ↔ r = .accepted ∨ r = .aborted := by
  have hscope : m.scope.map Prod.fst = some t.serial := by
    rw [h.scope hwork]
    rfl
  have hleft : m.discard t.serial = m.leave := if_pos hscope
  rw [hleft, follows_of_scope_none rfl]
  have hcontents : m.leave.contents = c.durable := h.durable.symm
  rw [hcontents]
  cases r with
  | accepted => simp [Conn.answered, Conn.rolledBack]
  | refused => simp [Conn.answered, hwork]
  | aborted => simp [Conn.answered, Conn.rolledBack]

theorem follows_ends_other {done : Conn ω} (h : Follows c m) (hwork : c.work = some t)
    (hdone : done.work = none) (r : Answer) :
    Follows (c.answered r done).1 m ↔ r = .refused := by
  have hopen : ∀ c' : Conn ω, c'.work = none → ¬ Follows c' m := by
    intro c' hnone hfollows
    have hwork' := hfollows.work
    rw [← h.work, hnone, hwork] at hwork'
    cases hwork'
  cases r with
  | accepted => exact iff_of_false (hopen done hdone) (by simp)
  | refused => exact iff_of_true h rfl
  | aborted => exact iff_of_false (hopen _ rfl) (by simp)

theorem store_of_ends_other (hscope : m.scope.map Prod.fst ≠ some serial) (b : Backend)
    (begun : Nat) (c : Conn ω) (e : Ending) (r : Answer) :
    (Op.ends e serial r).store b begun c m = m := by
  cases e with
  | commit => exact AtomicStore.publish_of_ne hscope
  | rollback => exact AtomicStore.discard_of_ne hscope

theorem follows_ends (h : Follows c m) (hc : c.Closed) (b : Backend) (begun : Nat) (e : Ending)
    (serial : Nat) (r : Answer) :
    Follows ((Op.ends e serial r).conn b begun c) ((Op.ends e serial r).store b begun c m) ↔
      EndOk e serial r c := by
  unfold EndOk
  cases hwork : c.work with
  | none =>
    have hscope : m.scope.map Prod.fst ≠ some serial := by
      rw [h.scope_none hwork]
      exact nofun
    rw [store_of_ends_other hscope]
    simp only [Op.conn, doEnd_of_none b e r hwork]
    exact iff_of_true h fun t ht => by cases ht
  | some t =>
    have hconn : c.connected = true := by
      by_contra hclosed
      have hnone := hc (Bool.eq_false_iff.mpr hclosed)
      rw [hwork] at hnone
      cases hnone
    simp only [Op.conn, doEnd_of_some b e r hconn hwork, Option.mem_def, Option.some.injEq,
      forall_eq']
    split_ifs with hown
    · subst hown
      cases e with
      | commit => simpa [Op.store] using follows_commits h hwork r
      | rollback => simpa [Op.store] using follows_rollsBack h hwork r
    · have hscope : m.scope.map Prod.fst ≠ some serial := by
        rw [h.scope hwork]
        exact fun heq => hown (Option.some.inj heq)
      rw [store_of_ends_other hscope]
      cases e with
      | commit => exact follows_ends_other h hwork (work_committed c) r
      | rollback => exact follows_ends_other h hwork rfl r

theorem follows_execWrite_outside (h : Follows c m) (hwork : c.work = none) (b : Backend) (w : ω)
    (r : Answer) : Follows (execWrite b w r c).1 (if (execWrite b w r c).2 then m.write w else m) := by
  cases r with
  | accepted =>
    have hexec : execWrite b w .accepted c = ({ c with durable := c.durable ++ [w] }, true) := by
      simp [execWrite, hwork, Conn.answered]
    obtain ⟨hcontents, hleft⟩ := AtomicStore.contents_write_of_none (w := w) (h.scope_none hwork)
    rw [hexec, if_pos rfl, follows_of_scope_none hleft, hcontents, ← h.durable]
    exact ⟨hwork, rfl⟩
  | refused =>
    have hexec : execWrite b w .refused c = (c, false) := by
      simp [execWrite, hwork, Conn.answered]
    rw [hexec]
    exact h
  | aborted =>
    have hexec : execWrite b w .aborted c = (c, false) := by
      simp [execWrite, hwork, Conn.answered, rolledBack_of_none hwork]
    rw [hexec]
    exact h

theorem follows_execWrite_inside (h : Follows c m) (hwork : c.work = some t)
    (hopen : t.failed = false) (b : Backend) (w : ω) (r : Answer) :
    Follows (execWrite b w r c).1 (if (execWrite b w r c).2 then m.write w else m) ↔
      r ≠ .aborted := by
  have hscope : m.scope = some (t.serial, t.writes) := h.scope hwork
  cases r with
  | accepted =>
    have hexec : execWrite b w .accepted c =
        ({ c with work := some { t with writes := t.writes ++ [w] } }, true) := by
      cases b <;> simp [execWrite, hwork, hopen, Conn.answered]
    obtain ⟨hcontents, hnext⟩ := AtomicStore.contents_write_of_some (w := w) hscope
    rw [hexec]
    refine iff_of_true ⟨?_, ?_⟩ (by simp)
    · rw [if_pos rfl, hcontents]
      exact h.durable
    · rw [if_pos rfl, hnext]
      rfl
  | refused =>
    refine iff_of_true ?_ (by simp)
    cases b with
    | postgres =>
      have hexec : execWrite .postgres w .refused c =
          ({ c with work := some { t with failed := true } }, false) := by
        simp [execWrite, hwork, hopen]
      rw [hexec]
      exact ⟨h.durable, hscope.symm⟩
    | sqlite3 | mariaDB =>
      simp only [execWrite, hwork, hopen, Conn.answered]
      exact h
  | aborted =>
    have hexec : execWrite b w .aborted c = (c.rolledBack, false) := by
      cases b <;> simp [execWrite, hwork, hopen, Conn.answered]
    rw [hexec]
    refine iff_of_false (fun hfollows => ?_) fun hne => hne rfl
    have hrolled := hfollows.work.trans hscope
    cases hrolled

/-- A write on an open connection follows the store unless it rolls the transaction back. -/
theorem follows_execWrite (h : Follows c m) (b : Backend) (w : ω) (r : Answer) :
    Follows (execWrite b w r c).1 (if (execWrite b w r c).2 then m.write w else m) ↔
      WriteOk r c := by
  unfold WriteOk
  cases hwork : c.work with
  | none => exact iff_of_true (follows_execWrite_outside h hwork b w r) fun t ht => by cases ht
  | some t =>
    simp only [Option.mem_def, Option.some.injEq, forall_eq']
    cases hfailed : t.failed with
    | true =>
      -- the server takes no further statement
      have hexec : execWrite b w r c = (c, false) := by
        simp [execWrite, hwork, hfailed]
      rw [hexec]
      exact iff_of_true h fun hopen => by cases hopen
    | false =>
      rw [follows_execWrite_inside h hwork hfailed]
      exact ⟨fun hne _ => hne, fun hne => hne rfl⟩

theorem follows_write (h : Follows c m) (hc : c.Closed) (b : Backend) (begun : Nat) (w : ω)
    (r : Answer) :
    Follows ((Op.write w r).conn b begun c) ((Op.write w r).store b begun c m) ↔ WriteOk r c := by
  by_cases hconn : c.connected = true
  · simp only [Op.conn, Op.store, silentQuery, if_pos hconn]
    exact follows_execWrite h b w r
  · simp only [Op.conn, Op.store, silentQuery, if_neg hconn]
    refine iff_of_true h fun t ht => ?_
    rw [hc (Bool.eq_false_iff.mpr hconn)] at ht
    cases ht

/-- What is done on a database leaves its connection following the store exactly when the answers
agree with that. -/
theorem follows_op (h : Follows c m) (hc : c.Closed) (b : Backend) {begun : Nat}
    (hm : m.Known (· < begun)) (o : Op ω) :
    Follows (o.conn b begun c) (o.store b begun c m) ↔ o.Sound b c := by
  cases o with
  | connect r =>
    refine iff_of_true ?_ trivial
    simp only [Op.conn, Op.store, driver]
    split_ifs with hconn
    · exact h
    · have hwork : none = c.work := (hc (Bool.eq_false_iff.mpr hconn)).symm
      cases r with
      | accepted => exact ⟨h.durable, by rw [hwork]; exact h.work⟩
      | refused => exact h
      | aborted => exact h
  | disconnect => exact iff_of_true ⟨h.durable, rfl⟩ trivial
  | begins level r => exact follows_begins h hm level r
  | ends e serial r => exact follows_ends h hc b begun e serial r
  | write w r => exact follows_write h hc b begun w r

end

/-! ### One step -/

section

variable {b : Backend} {db db' : Transactions.State (Conn ω)} {h : Nat} {e : Ending} {r : Answer}

theorem op_of_ends {a : Transactions.Act Answer} (ha : a.ends = some (h, e, r)) :
    op db (.transactions a : Act ω) = (carried db h).map fun k => (k.1, .ends e k.2 r) := by
  cases a with
  | connect d r => cases ha
  | disconnect d => cases ha
  | beginTransaction d level r => cases ha
  | moveConstruct h => cases ha
  | commit h' r' | rollback h' r' | destroy h' r' | moveAssign h' o r' => simp [op, ha]

theorem stepDb_cases {a : Act ω} (hstep : stepDb b db a = some db') :
    (op db a = none ∧ db'.conns = db.conns ∧ db'.begun = db.begun ∧ db'.calls = db.calls) ∨
      ∃ d o, op db a = some (d, o) ∧
        db'.conns = Function.update db.conns d (o.conn b db.begun (db.conns d)) ∧
        (db'.begun = db.begun ∧ (∀ level r, o ≠ .begins level r) ∨ db'.begun = db.begun + 1) ∧
        ∀ d' k c, .ended .commit d' k c ∈ db'.calls ↔
          .ended .commit d' k c ∈ db.calls ∨
            (d' = d ∧ c = db.conns d ∧ ∃ r, o = .ends .commit k r) := by
  cases a with
  | write d w r =>
    cases hstep
    exact .inr ⟨d, _, rfl, rfl, .inl ⟨rfl, fun _ _ heq => by cases heq⟩, fun _ _ _ => by simp⟩
  | transactions a =>
    cases ha : a.ends with
    | some q =>
      obtain ⟨h, e, r⟩ := q
      obtain ⟨t, hget, hconns, hcalls, hbegun, _⟩ := step_of_ends ha hstep
      have hcarried : carried db h = t.live.map fun d => (d, t.serial) := by
        unfold carried
        rw [hget]
        rfl
      rw [op_of_ends ha, hcarried, hconns, hcalls]
      unfold State.finish
      cases hlive : t.live with
      | none => exact .inl ⟨rfl, rfl, hbegun, rfl⟩
      | some d =>
        refine .inr ⟨d, .ends e t.serial r, rfl, rfl, .inl ⟨hbegun, fun _ _ heq => by cases heq⟩, ?_⟩
        intro d' k c
        simp only [State.endOn, List.mem_cons, Call.ended.injEq, Op.ends.injEq]
        constructor
        · rintro (⟨rfl, rfl, rfl, rfl⟩ | hc)
          · exact .inr ⟨rfl, rfl, r, rfl, rfl, rfl⟩
          · exact .inl hc
        · rintro (hc | ⟨rfl, rfl, _, rfl, rfl, _⟩)
          · exact .inr hc
          · exact .inl ⟨rfl, rfl, rfl, rfl⟩
    | none =>
      cases a with
      | connect d r =>
        cases hstep
        exact .inr ⟨d, _, rfl, rfl, .inl ⟨rfl, fun _ _ heq => by cases heq⟩, fun _ _ _ => by simp⟩
      | disconnect d =>
        cases hstep
        exact .inr ⟨d, _, rfl, rfl, .inl ⟨rfl, fun _ _ heq => by cases heq⟩, fun _ _ _ => by simp⟩
      | beginTransaction d level r =>
        cases hstep
        exact .inr ⟨d, _, rfl, rfl, .inr rfl, fun _ _ _ => by simp [beginTransaction]⟩
      | moveConstruct h =>
        obtain ⟨t, hget, rfl⟩ := Option.map_eq_some_iff.mp hstep
        exact .inl ⟨rfl, rfl, rfl, rfl⟩
      | moveAssign h o r =>
        simp only [Act.ends] at ha
        split_ifs at ha with heq
        obtain ⟨t, u, _, _, rfl⟩ := exists_of_moveAssign hstep
        refine .inl ⟨?_, ?_⟩
        · simp [op, Act.ends, heq]
        · simp [moveAssign, heq]
      | commit h r => cases ha
      | rollback h r => cases ha
      | destroy h r => cases ha

theorem whole_store {begun : Nat} {c : Conn ω} {m : AtomicStore Nat ω} (h : m.Whole)
    (hm : m.Known (· < begun)) (o : Op ω) : (o.store b begun c m).Whole := by
  cases o with
  | connect r => exact h
  | disconnect => exact h.leave
  | begins level r => exact h.enter hm (Nat.lt_irrefl begun)
  | ends e serial r =>
    cases e with
    | commit => exact h.publish
    | rollback => exact h.discard
  | write w r =>
    simp only [Op.store]
    split_ifs
    · exact h.write w
    · exact h

theorem known_store {begun begun' : Nat} {c : Conn ω} {m : AtomicStore Nat ω} {o : Op ω}
    (hm : m.Known (· < begun))
    (hle : begun' = begun ∧ (∀ level r, o ≠ .begins level r) ∨ begun' = begun + 1) :
    (o.store b begun c m).Known (· < begun') := by
  have hmono : m.Known (· < begun') := hm.mono fun k hk => by omega
  cases o with
  | connect r => exact hmono
  | disconnect => exact hmono.leave
  | begins level r =>
    apply hmono.enter
    rcases hle with ⟨_, hne⟩ | hle
    · exact absurd rfl (hne level r)
    · omega
  | ends e serial r =>
    cases e with
    | commit => exact hmono.publish
    | rollback => exact hmono.discard
  | write w r =>
    simp only [Op.store]
    split_ifs
    · exact hmono.write w
    · exact hmono

end

/-- What holds of the connections and of the stores in any case. -/
structure Inv (s : State ω) : Prop where
  closed : ∀ d, (s.db.conns d).Closed
  known : ∀ d, (s.store d).Known (· < s.db.begun)
  whole : ∀ d, (s.store d).Whole

section

variable {b : Backend} {s s' : State ω} {a : Act ω}

theorem step_at (hstep : step b s a = some s') (d : Nat) :
    (s'.db.conns d = s.db.conns d ∧ s'.store d = s.store d ∧ s.db.begun ≤ s'.db.begun ∧
        (∀ o, op s.db a ≠ some (d, o)) ∧
        ∀ k c, .ended .commit d k c ∈ s'.db.calls ↔ .ended .commit d k c ∈ s.db.calls) ∨
      ∃ o, op s.db a = some (d, o) ∧ s'.db.conns d = o.conn b s.db.begun (s.db.conns d) ∧
        s'.store d = o.store b s.db.begun (s.db.conns d) (s.store d) ∧
        (s'.db.begun = s.db.begun ∧ (∀ level r, o ≠ .begins level r) ∨
          s'.db.begun = s.db.begun + 1) ∧
        ∀ k c, .ended .commit d k c ∈ s'.db.calls ↔
          .ended .commit d k c ∈ s.db.calls ∨ (c = s.db.conns d ∧ ∃ r, o = .ends .commit k r) := by
  obtain ⟨db', hdb, rfl⟩ := Option.map_eq_some_iff.mp hstep
  rcases stepDb_cases hdb with ⟨hop, hconns, hbegun, hcalls⟩ | ⟨d', o, hop, hconns, hbegun, hcalls⟩
  · refine .inl ⟨by rw [hconns], by simp [stepStore, hop], Nat.le_of_eq hbegun.symm, ?_, ?_⟩
    · intro o heq
      rw [hop] at heq
      cases heq
    · intro k c
      rw [hcalls]
  · by_cases hd : d = d'
    · subst hd
      refine .inr ⟨o, hop, ?_, ?_, hbegun, fun k c => ?_⟩
      · rw [hconns, Function.update_self]
      · simp [stepStore, hop]
      · simp [hcalls]
    · refine .inl ⟨?_, ?_, ?_, fun o' heq => ?_, fun k c => ?_⟩
      · rw [hconns, Function.update_of_ne hd]
      · simp [stepStore, hop, Function.update_of_ne hd]
      · show s.db.begun ≤ db'.begun
        omega
      · rw [hop] at heq
        exact hd (Prod.mk.inj (Option.some.inj heq)).1.symm
      · simp [hcalls, hd]

theorem step_inv (b : Backend) : (system (ω := ω) b).Preserves (fun _ _ => True) Inv := by
  intro s a s' hs _ hstep
  refine ⟨fun d => ?_, fun d => ?_, fun d => ?_⟩
  all_goals rcases step_at hstep d with ⟨hconn, hstore, hle, _⟩ | ⟨o, _, hconn, hstore, hbegun, _⟩
  · exact hconn ▸ hs.closed d
  · exact hconn ▸ closed_conn (hs.closed d) b _ o
  · exact hstore ▸ (hs.known d).mono fun k hk => Nat.lt_of_lt_of_le hk hle
  · exact hstore ▸ known_store (hs.known d) hbegun
  · exact hstore ▸ hs.whole d
  · exact hstore ▸ whole_store (hs.whole d) (hs.known d) o

theorem init_inv (b : Backend) : Inv (system (ω := ω) b).init :=
  ⟨fun _ _ => rfl, fun _ => AtomicStore.known_empty, fun _ => AtomicStore.whole_empty⟩

/-- One step: the connections still follow their stores exactly when the answers agree with that. -/
theorem agree_step (hs : Inv s) (hagree : Agree s) (hstep : step b s a = some s') :
    Sound b s a ↔ Agree s' := by
  constructor
  · intro hsound d
    rcases step_at hstep d with ⟨hconn, hstore, _⟩ | ⟨o, hop, hconn, hstore, _⟩
    · rw [hconn, hstore]
      exact hagree d
    · rw [hconn, hstore]
      exact (follows_op (hagree d) (hs.closed d) b (hs.known d) o).mpr (hsound (d, o) hop)
  · rintro hagree' ⟨d, o⟩ hop
    rcases step_at hstep d with ⟨_, _, _, hnone, _⟩ | ⟨o', hop', hconn, hstore, _⟩
    · exact absurd hop (hnone o)
    · obtain rfl : o' = o := (Prod.mk.inj (Option.some.inj (hop'.symm.trans hop))).2
      have hfollows := hagree' d
      rw [hconn, hstore] at hfollows
      exact (follows_op (hagree d) (hs.closed d) b (hs.known d) o').mp hfollows

/-- The scopes published are the transactions on which `Commit` was called while they were open. -/
def Records (s : State ω) : Prop := ∀ d k, k ∈ (s.store d).scopes ↔ Committed s d k

theorem scopes_store {begun : Nat} {c : Conn ω} {m : AtomicStore Nat ω} (h : Follows c m) (o : Op ω)
    (k : Nat) : k ∈ (o.store b begun c m).scopes ↔
      k ∈ m.scopes ∨ ((∃ r, o = .ends .commit k r) ∧ c.work.map Work.serial = some k) := by
  have hserial : c.work.map Work.serial = m.scope.map Prod.fst := by
    rw [← h.work, Option.map_map]
    rfl
  rw [hserial]
  cases o with
  | connect r => simp [Op.store]
  | disconnect => simp [Op.store, AtomicStore.leave, AtomicStore.scopes]
  | begins level r => simp [Op.store, AtomicStore.enter, AtomicStore.scopes]
  | ends e serial r =>
    cases e with
    | commit =>
      simp only [Op.store, AtomicStore.mem_scopes_publish, Op.ends.injEq, true_and]
      refine or_congr_right ?_
      constructor
      · rintro ⟨rfl, hcurrent⟩
        exact ⟨⟨r, rfl, rfl⟩, hcurrent⟩
      · rintro ⟨⟨_, rfl, _⟩, hcurrent⟩
        exact ⟨rfl, hcurrent⟩
    | rollback => simp [Op.store, AtomicStore.scopes_discard]
  | write w r =>
    simp only [Op.store]
    split_ifs
    · simp [AtomicStore.scopes_write]
    · simp

theorem records_step (hagree : Agree s) (hrecords : Records s) (hstep : step b s a = some s') :
    Records s' := by
  intro d k
  unfold Committed
  rcases step_at hstep d with ⟨_, hstore, _, _, hcalls⟩ | ⟨o, _, _, hstore, _, hcalls⟩
  · simp only [hstore, hcalls]
    exact hrecords d k
  · rw [hstore, scopes_store (hagree d), hrecords d k]
    simp only [hcalls]
    constructor
    · rintro (⟨c, hc, hopen⟩ | ⟨hcommit, hopen⟩)
      · exact ⟨c, .inl hc, hopen⟩
      · exact ⟨_, .inr ⟨rfl, hcommit⟩, hopen⟩
    · rintro ⟨c, hc | ⟨rfl, hcommit⟩, hopen⟩
      · exact .inl ⟨c, hc, hopen⟩
      · exact .inr ⟨hcommit, hopen⟩

end

/-! ### Runs -/

theorem init_agree (b : Backend) : Agree (system (ω := ω) b).init := fun _ => ⟨rfl, rfl⟩

/-- **When the connections follow the store.** In every state of a run each connection has committed,
and keeps open, what the store of its database says exactly when the answers to each step agree with
that. -/
theorem follows_iff (b : Backend) (as : List (Act ω)) (s : State ω)
    (hrun : (system b).run as = some s) :
    (system b).Visits Agree as ↔ (system b).Meets (Sound b) as :=
  Machine.visitsFrom_iff_meetsFrom (step_inv b)
    (fun _ _ _ hs hagree hstep => agree_step hs hagree hstep) (init_inv b) (init_agree b) hrun

/-- A `BEGIN` of MariaDB inside a transaction with no writes, and the end of the outer handle. -/
theorem follows_iff_nested :
    let as : List (Act Nat) :=
      [.transactions (.connect 0 .accepted), .transactions (.beginTransaction 0 .default .accepted),
        .transactions (.beginTransaction 0 .serializable .accepted), .write 0 1 .accepted,
        .transactions (.rollback 0 .accepted)]
    (system .mariaDB).Visits Agree as ↔ (system .mariaDB).Meets (Sound .mariaDB) as :=
  follows_iff _ _ _ rfl

/-- **Transactions are scopes of writes.** In a run whose answers agree with the store, what is
committed on the connections of a database is made of the transactions on which `Commit` was called
while they were open, each with all of its writes, and of the writes outside of transactions. -/
theorem atomic_scopes (b : Backend) (as : List (Act ω)) (s : State ω)
    (hrun : (system b).run as = some s) (hmeets : (system b).Meets (Sound b) as) (d : Nat) :
    (s.db.conns d).durable = (s.store d).contents ∧ (s.store d).Whole ∧
      ∀ k, k ∈ (s.store d).scopes ↔ Committed s d k := by
  have hinit : Inv (system (ω := ω) b).init ∧ Agree (system (ω := ω) b).init ∧
      Records (system (ω := ω) b).init := by
    refine ⟨init_inv b, init_agree b, fun d k => ?_⟩
    exact iff_of_false List.not_mem_nil fun h => by cases h.choose_spec.1
  have hpreserves : (system b).Preserves (Sound b)
      (fun s : State ω => Inv s ∧ Agree s ∧ Records s) := by
    rintro s a s' ⟨hs, hagree, hrecords⟩ hsound hstep
    exact ⟨step_inv b s a s' hs trivial hstep, (agree_step hs hagree hstep).mp hsound,
      records_step hagree hrecords hstep⟩
  obtain ⟨hs, hagree, hrecords⟩ := Machine.invariant_of_meets hinit hpreserves hmeets hrun
  exact ⟨(hagree d).durable, hs.whole d, hrecords d⟩

/-- One transaction is committed, a write fails in the next, and the last write is outside. -/
theorem atomic_scopes_three :
    let as : List (Act Nat) :=
      [.transactions (.connect 0 .accepted), .transactions (.beginTransaction 0 .default .accepted),
        .write 0 1 .accepted, .write 0 2 .accepted, .transactions (.commit 0 .accepted),
        .transactions (.beginTransaction 0 .serializable .accepted), .write 0 3 .accepted,
        .write 0 4 .refused, .transactions (.destroy 1 .accepted), .write 0 5 .accepted]
    let s := ((system .postgres).run as).get rfl
    (s.db.conns 0).durable = (s.store 0).contents ∧ (s.store 0).Whole ∧
      ∀ k, k ∈ (s.store 0).scopes ↔ Committed s 0 k := by
  intro as s
  have hmeets : (system .postgres).Meets (Sound .postgres) as := by
    unfold as
    decide
  exact atomic_scopes .postgres as s rfl hmeets 0

end StormByteDatabase.AtomicScopes
