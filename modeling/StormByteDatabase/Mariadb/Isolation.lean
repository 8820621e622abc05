import StormByteDatabase.Database.Transaction

/-!
# The isolation level of MariaDB transactions

`MariaDB::DoBeginTransaction` sends two statements: `SET TRANSACTION ISOLATION LEVEL`, unless the
level is `Default`, and then `BEGIN`. The server refuses the first while a transaction is in progress
and otherwise keeps the level for the next transaction; `BEGIN` commits what is open and opens a
transaction at the level kept, or at the default of the session. The results of both are dropped.

`at_level_iff`: in a run every transaction runs at the level of its `BeginTransaction` exactly when
each `BEGIN` carried out finds the connection in a state in which the level reaches it: for a level
other than `Default`, no transaction is open and the server takes the setting, or the level comes
about anyway; for `Default`, no earlier setting is left. `meets_takesLevel_iff` says what
remains of the condition when no `BEGIN` fails: a `BeginTransaction` at a level that is neither
`Default` nor the default of the session finds no transaction open, and its setting is taken.

Proof. Only a `BEGIN` adds to the transactions opened, under a serial number that no call and no
transaction before it has (`LevelInv`), so the one it adds is the only one its `BeginTransaction` is
about.
-/

namespace StormByteDatabase.Isolation

open Lib Transactions

/-- The levels a transaction can run at. -/
inductive Level
  | readUncommitted
  | readCommitted
  | repeatableRead
  | serializable
  deriving DecidableEq, Repr

/-- The statements `DoBeginTransaction`, `CommitTransaction` and `RollbackTransaction` send. -/
inductive Statement
  | setTransaction (l : Level)
  | beginTransaction
  | commit
  | rollback
  deriving DecidableEq, Repr

/-- What becomes of a statement; `aborted` is an error that ends the open transaction. -/
inductive Outcome
  | carriedOut
  | refused
  | aborted
  deriving DecidableEq, Repr

/-- What the server does where it has a choice: `set` is about a `SET TRANSACTION` outside of a
transaction, `outcome` about any other statement and about a connect, and `drops` says that
`COMMIT` and `ROLLBACK` give up a level kept for the next transaction. -/
structure Answer where
  set : Bool
  outcome : Outcome
  drops : Bool
  deriving DecidableEq, Repr

/-- `connected` is `m_connected`; the rest is the session of `m_conn`. `pending` is the level kept
for the next transaction, `openTx` the serial number of the transaction in progress, and `opened`
has the serial number of each transaction opened so far with the level it runs at. -/
structure Conn where
  connected : Bool
  pending : Option Level
  openTx : Option Nat
  opened : List (Nat × Level)
  deriving DecidableEq, Repr

/-- A statement on an open connection whose sessions start at the level `base`; the flag is
`mysql_real_query(..) == 0`. -/
def exec (base : Level) (q : Statement) (serial : Nat) (r : Answer) (c : Conn) : Conn × Bool :=
  match q with
  | .setTransaction l =>
    if c.openTx = none ∧ r.set then ({ c with pending := some l }, true) else (c, false)
  | .beginTransaction =>
    match r.outcome with
    | .carriedOut =>
      ({ c with
          pending := none
          openTx := some serial
          opened := (serial, c.pending.getD base) :: c.opened }, true)
    | .refused => (c, false)
    | .aborted => ({ c with openTx := none }, false)
  | .commit | .rollback =>
    match r.outcome with
    | .carriedOut =>
      ({ c with openTx := none, pending := if r.drops then none else c.pending }, true)
    | .refused => (c, false)
    | .aborted => ({ c with openTx := none }, false)

def doSilentQuery (base : Level) (q : Statement) (serial : Nat) (r : Answer) (c : Conn) :
    Conn × Bool :=
  if c.connected then exec base q serial r c else (c, false)

/-- The level `DoBeginTransaction` asks for, none for `Default`. -/
def requested : IsolationLevel → Option Level
  | .readUncommitted => some .readUncommitted
  | .readCommitted => some .readCommitted
  | .repeatableRead => some .repeatableRead
  | .serializable => some .serializable
  | .default => none

/-- The `switch` of `DoBeginTransaction`. -/
def setLevel (base : Level) (level : IsolationLevel) (serial : Nat) (r : Answer) (c : Conn) : Conn :=
  match requested level with
  | some l => (doSilentQuery base (.setTransaction l) serial r c).1
  | none => c

def doBeginTransaction (base : Level) (level : IsolationLevel) (serial : Nat) (r : Answer)
    (c : Conn) : Conn :=
  (doSilentQuery base .beginTransaction serial r (setLevel base level serial r c)).1

def endStatement : Ending → Statement
  | .commit => .commit
  | .rollback => .rollback

/-- `Connect` does nothing to a connection that is open; a new session has no setting and no
transaction. -/
def connect (r : Answer) (c : Conn) : Conn :=
  if c.connected then c
  else
    match r.outcome with
    | .carriedOut => { c with connected := true, pending := none, openTx := none }
    | _ => c

/-- Closing the connection ends its session. -/
def disconnect (c : Conn) : Conn := { c with connected := false, pending := none, openTx := none }

def driver (base : Level) : Driver Conn Answer where
  connect := connect
  disconnect := disconnect
  doBeginTransaction := doBeginTransaction base
  doEndTransaction e r c := (doSilentQuery base (endStatement e) 0 r c).1

def isolationSystem (base : Level) : Machine (State Conn) (Act Answer) :=
  system (driver base) ⟨false, none, none, []⟩

/-- A transaction opened under the serial number of a `BeginTransaction` runs at the level given
there, the default of the session for `Default`. -/
def AtLevel (base : Level) (s : State Conn) : Prop :=
  ∀ d level serial c, Call.began d level serial c ∈ s.calls →
    ∀ l, (serial, l) ∈ (s.conns d).opened → l = (requested level).getD base

/-- The level reaches a `BEGIN` sent after it. -/
def Conn.Takes (base : Level) (level : IsolationLevel) (r : Answer) (c : Conn) : Prop :=
  match requested level with
  | some l => (c.openTx = none ∧ r.set = true) ∨ c.pending.getD base = l
  | none => c.pending.getD base = base

instance (base : Level) (level : IsolationLevel) (r : Answer) (c : Conn) :
    Decidable (c.Takes base level r) :=
  match h : requested level with
  | some l => decidable_of_iff ((c.openTx = none ∧ r.set = true) ∨ c.pending.getD base = l) (by
      simp [Conn.Takes, h])
  | none => decidable_of_iff (c.pending.getD base = base) (by simp [Conn.Takes, h])

/-- The `BEGIN` of a `BeginTransaction` is carried out. -/
def Conn.Opens (r : Answer) (c : Conn) : Prop := c.connected = true ∧ r.outcome = .carriedOut

instance (r : Answer) (c : Conn) : Decidable (c.Opens r) :=
  inferInstanceAs (Decidable (c.connected = true ∧ r.outcome = .carriedOut))

/-- A step that opens a transaction finds a connection on which its level reaches the `BEGIN`. -/
def TakesLevel (base : Level) (s : State Conn) : Act Answer → Prop
  | .beginTransaction d level r => (s.conns d).Opens r → (s.conns d).Takes base level r
  | _ => True

instance (base : Level) (s : State Conn) : (a : Act Answer) → Decidable (TakesLevel base s a)
  | .beginTransaction d level r =>
    inferInstanceAs (Decidable ((s.conns d).Opens r → (s.conns d).Takes base level r))
  | .connect _ _ | .disconnect _ | .moveConstruct _ | .moveAssign _ _ _ | .commit _ _
  | .rollback _ _ | .destroy _ _ => .isTrue trivial

/-! ### What the statements do to a connection -/

theorem exists_setLevel_eq (base : Level) (level : IsolationLevel) (k : Nat) (r : Answer)
    (c : Conn) : ∃ p, setLevel base level k r c = { c with pending := p } := by
  unfold setLevel
  cases requested level with
  | none => exact ⟨c.pending, rfl⟩
  | some l =>
    simp only [doSilentQuery, exec]
    split_ifs
    · exact ⟨some l, rfl⟩
    · exact ⟨c.pending, rfl⟩
    · exact ⟨c.pending, rfl⟩

theorem setLevel_connected (base : Level) (level : IsolationLevel) (k : Nat) (r : Answer)
    (c : Conn) : (setLevel base level k r c).connected = c.connected := by
  obtain ⟨p, heq⟩ := exists_setLevel_eq base level k r c
  rw [heq]

theorem setLevel_opened (base : Level) (level : IsolationLevel) (k : Nat) (r : Answer) (c : Conn) :
    (setLevel base level k r c).opened = c.opened := by
  obtain ⟨p, heq⟩ := exists_setLevel_eq base level k r c
  rw [heq]

/-- After the `switch` the next transaction is due to run at the level of the call exactly when the
level reaches it. -/
theorem pending_setLevel (base : Level) (level : IsolationLevel) (k : Nat) (r : Answer) {c : Conn}
    (hconn : c.connected = true) :
    (setLevel base level k r c).pending.getD base = (requested level).getD base ↔
      c.Takes base level r := by
  unfold setLevel Conn.Takes
  cases requested level with
  | none => exact Iff.rfl
  | some l =>
    simp only [doSilentQuery, exec, hconn, if_true, Option.getD_some]
    split_ifs with hset
    · exact ⟨fun _ => .inl hset, fun _ => rfl⟩
    · exact ⟨fun h => .inr h, fun h => h.resolve_left hset⟩

theorem doBegin_opened (base : Level) (level : IsolationLevel) (k : Nat) (r : Answer) (c : Conn)
    (p : Nat × Level) :
    p ∈ (doBeginTransaction base level k r c).opened ↔
      (c.Opens r ∧ p = (k, (setLevel base level k r c).pending.getD base)) ∨ p ∈ c.opened := by
  unfold doBeginTransaction Conn.Opens
  simp only [doSilentQuery, exec, setLevel_connected]
  split_ifs with hconn
  · cases hout : r.outcome with
    | carriedOut => simp [hconn, setLevel_opened]
    | refused => simp [setLevel_opened]
    | aborted => simp [setLevel_opened]
  · simp [hconn, setLevel_opened]

theorem exists_doEnd_eq (base : Level) (e : Ending) (r : Answer) (c : Conn) :
    ∃ x p, (driver base).doEndTransaction e r c = { c with openTx := x, pending := p } ∧
      (p = none ∨ p = c.pending) := by
  have hexec : exec base (endStatement e) 0 r c = exec base .commit 0 r c := by
    cases e <;> rfl
  simp only [driver, doSilentQuery, hexec]
  split_ifs
  · unfold exec
    cases r.outcome with
    | carriedOut =>
      refine ⟨none, _, rfl, ?_⟩
      split_ifs
      · exact .inl rfl
      · exact .inr rfl
    | refused => exact ⟨c.openTx, c.pending, rfl, .inr rfl⟩
    | aborted => exact ⟨none, c.pending, rfl, .inr rfl⟩
  · exact ⟨c.openTx, c.pending, rfl, .inr rfl⟩

theorem doEnd_opened (base : Level) (e : Ending) (r : Answer) (c : Conn) :
    ((driver base).doEndTransaction e r c).opened = c.opened := by
  obtain ⟨x, p, heq, _⟩ := exists_doEnd_eq base e r c
  rw [heq]

theorem connect_cases (r : Answer) (c : Conn) :
    connect r c = c ∨ connect r c = { c with connected := true, pending := none, openTx := none } := by
  unfold connect
  split_ifs
  · exact .inl rfl
  · cases r.outcome
    · exact .inr rfl
    · exact .inl rfl
    · exact .inl rfl

theorem connect_opened (r : Answer) (c : Conn) : (connect r c).opened = c.opened := by
  rcases connect_cases r c with heq | heq
  · rw [heq]
  · rw [heq]

/-! ### The transactions opened in a run -/

theorem step_opened {base : Level} {s s' : State Conn} {a : Act Answer}
    (hne : ∀ d level r, a ≠ .beginTransaction d level r)
    (hstep : (isolationSystem base).step s a = some s') (d : Nat) :
    (s'.conns d).opened = (s.conns d).opened := by
  have hconn := step_conn hstep d
  generalize s'.conns d = c' at hconn ⊢
  cases hconn with
  | same => rfl
  | connect r => exact connect_opened r _
  | disconnect => rfl
  | begins level r ha => exact absurd ha (hne d level r)
  | ends e r => exact doEnd_opened base e r _

theorem step_cases {base : Level} {s s' : State Conn} {a : Act Answer}
    (hstep : (isolationSystem base).step s a = some s') :
    (∃ d level r, a = .beginTransaction d level r ∧
        s' = beginTransaction (driver base) s d level r) ∨
      ((∀ d level r, a ≠ .beginTransaction d level r) ∧
        (∀ d, (s'.conns d).opened = (s.conns d).opened) ∧ s'.begun = s.begun ∧
        ∀ d level k c, Call.began d level k c ∈ s'.calls ↔ Call.began d level k c ∈ s.calls) := by
  rcases step_calls hstep with hbegin | ⟨hbegun, hcalls⟩
  · exact .inl hbegin
  have hne : ∀ d level r, a ≠ .beginTransaction d level r := by
    rintro d level r rfl
    cases hstep
    exact Nat.succ_ne_self _ hbegun
  refine .inr ⟨hne, fun d => step_opened hne hstep d, hbegun, fun d level k c => ?_⟩
  rcases hcalls with hcalls | ⟨e, d', k', hcalls⟩
  · rw [hcalls]
  · rw [hcalls]
    simp

theorem mem_opened_begin (base : Level) (s : State Conn) (d' : Nat) (level : IsolationLevel)
    (r : Answer) (d : Nat) (p : Nat × Level) :
    p ∈ ((beginTransaction (driver base) s d' level r).conns d).opened ↔
      (d = d' ∧ (s.conns d).Opens r ∧
        p = (s.begun, (setLevel base level s.begun r (s.conns d)).pending.getD base)) ∨
      p ∈ (s.conns d).opened := by
  simp only [beginTransaction]
  by_cases hd : d = d'
  · subst hd
    simp only [Function.update_self, true_and]
    exact doBegin_opened base level s.begun r (s.conns d) p
  · simp [hd]

/-- Serial numbers are not used twice, neither in the calls (`Ledger.below`) nor on the server. -/
structure LevelInv (s : State Conn) : Prop where
  ledger : Ledger s
  known : ∀ d, ∀ p ∈ (s.conns d).opened, p.1 < s.begun

theorem LevelInv.below {s : State Conn} (h : LevelInv s) {d k : Nat} {level : IsolationLevel}
    {c : Conn} (hc : Call.began d level k c ∈ s.calls) : k < s.begun :=
  h.ledger.below (d, k) (List.mem_map.mpr ⟨_, hc, rfl⟩)

theorem step_levelInv (base : Level) :
    (isolationSystem base).Preserves (fun _ _ => True) LevelInv := by
  intro s a s' hs _ hstep
  refine ⟨step_ledger (driver base) _ s a s' hs.ledger trivial hstep, ?_⟩
  rcases step_cases hstep with ⟨d', level, r, rfl, rfl⟩ | ⟨_, hopened, hbegun, _⟩
  · intro d p hp
    apply Nat.lt_succ_iff.mpr
    rcases (mem_opened_begin base s d' level r d p).mp hp with ⟨_, _, rfl⟩ | hold
    · exact Nat.le_refl _
    · exact Nat.le_of_lt (hs.known d p hold)
  · intro d p hp
    rw [hopened] at hp
    rw [hbegun]
    exact hs.known d p hp

theorem init_levelInv (base : Level) : LevelInv (isolationSystem base).init :=
  ⟨init_ledger (driver base) _, fun d p hp => by simp [isolationSystem, system] at hp⟩

theorem atLevel_back {base : Level} {s s' : State Conn} {a : Act Answer}
    (hstep : (isolationSystem base).step s a = some s') (h : AtLevel base s') : AtLevel base s := by
  intro d level k c hc l hl
  rcases step_cases hstep with ⟨d', level', r, rfl, rfl⟩ | ⟨_, hopened, _, hcalls⟩
  · apply h d level k c (List.mem_cons_of_mem _ hc) l
    exact (mem_opened_begin base s d' level' r d _).mpr (.inr hl)
  · apply h d level k c ((hcalls d level k c).mpr hc) l
    rw [hopened]
    exact hl

theorem atLevel_begin {base : Level} {s : State Conn} (hs : LevelInv s) (hQ : AtLevel base s)
    (d : Nat) (level : IsolationLevel) (r : Answer) :
    ((s.conns d).Opens r → (s.conns d).Takes base level r) ↔
      AtLevel base (beginTransaction (driver base) s d level r) := by
  constructor
  · intro hP d' level' k c hc l hl
    rw [mem_opened_begin] at hl
    rcases List.mem_cons.mp hc with heq | hc
    · -- the call itself: no transaction before it has its serial number
      cases heq
      rcases hl with ⟨_, hopens, heq⟩ | hold
      · rw [(Prod.mk.inj heq).2]
        exact (pending_setLevel base level _ r hopens.1).mpr (hP hopens)
      · exact absurd (hs.known d _ hold) (Nat.lt_irrefl _)
    · have hk : k < s.begun := hs.below hc
      rcases hl with ⟨_, _, heq⟩ | hold
      · exact absurd (Prod.mk.inj heq).1 (Nat.ne_of_lt hk)
      · exact hQ d' level' k c hc l hold
  · intro h hopens
    apply (pending_setLevel base level s.begun r hopens.1).mp
    apply h d level s.begun (s.conns d) List.mem_cons_self
    exact (mem_opened_begin base s d level r d _).mpr (.inl ⟨rfl, hopens, rfl⟩)

theorem atLevel_step {base : Level} {s s' : State Conn} {a : Act Answer} (hs : LevelInv s)
    (hQ : AtLevel base s) (hstep : (isolationSystem base).step s a = some s') :
    TakesLevel base s a ↔ AtLevel base s' := by
  rcases step_cases hstep with ⟨d, level, r, rfl, rfl⟩ | ⟨hne, hopened, _, hcalls⟩
  · exact atLevel_begin hs hQ d level r
  · refine ⟨fun _ d level k c hc l hl => ?_, fun _ => ?_⟩
    · rw [hopened] at hl
      exact hQ d level k c ((hcalls d level k c).mp hc) l hl
    · unfold TakesLevel
      split
      · exact absurd rfl (hne _ _ _)
      · trivial

/-- **Transactions run at the level of their `BeginTransaction`** throughout a run exactly when the
level reaches every `BEGIN` that is carried out. -/
theorem at_level_iff (base : Level) (as : List (Act Answer)) (s : State Conn)
    (hrun : (isolationSystem base).run as = some s) :
    AtLevel base s ↔ (isolationSystem base).Meets (TakesLevel base) as :=
  Machine.final_iff_meets
    (fun s a s' hs _ hstep => step_levelInv base s a s' hs trivial hstep)
    (fun _ _ _ hstep hQ => atLevel_back hstep hQ)
    (fun _ _ _ hs hQ hstep => atLevel_step hs hQ hstep) (init_levelInv base)
    (fun _ _ _ _ hc => by simp [isolationSystem, system] at hc) hrun

/-- A transaction after another, the second at a level of its own. -/
theorem at_level_iff_two :
    let as : List (Act Answer) :=
      [.connect 0 ⟨true, .carriedOut, true⟩,
        .beginTransaction 0 .default ⟨true, .carriedOut, true⟩,
        .commit 0 ⟨true, .carriedOut, true⟩,
        .beginTransaction 0 .serializable ⟨true, .carriedOut, true⟩,
        .destroy 1 ⟨true, .carriedOut, true⟩]
    AtLevel .repeatableRead (((isolationSystem .repeatableRead).run as).get rfl) ↔
      (isolationSystem .repeatableRead).Meets (TakesLevel .repeatableRead) as :=
  at_level_iff .repeatableRead _ _ rfl

/-- A setting whose `BEGIN` failed reaches the next transaction, which asked for the default. -/
example : ¬ (isolationSystem .repeatableRead).Meets (TakesLevel .repeatableRead)
    [.connect 0 ⟨true, .carriedOut, true⟩, .beginTransaction 0 .serializable ⟨true, .refused, true⟩,
      .beginTransaction 0 .default ⟨true, .carriedOut, true⟩] := by
  decide

/-- `BeginTransaction(Serializable)` while a transaction is open runs at the default of the
session. -/
theorem level_lost_while_open :
    ¬ ∀ (base : Level) (as : List (Act Answer)) (s : State Conn),
      (isolationSystem base).run as = some s → AtLevel base s := by
  intro h
  have hbad := h .repeatableRead
    [.connect 0 ⟨true, .carriedOut, true⟩,
      .beginTransaction 0 .default ⟨true, .carriedOut, true⟩,
      .beginTransaction 0 .serializable ⟨true, .carriedOut, true⟩] _ rfl
  have hlevel := hbad 0 .serializable 1
    ⟨true, none, some 0, [(0, .repeatableRead)]⟩ List.mem_cons_self .repeatableRead
    List.mem_cons_self
  cases hlevel

/-! ### Runs in which no `BEGIN` fails -/

/-- Every `BEGIN` sent is carried out. -/
def BeginsCarriedOut (s : State Conn) : Act Answer → Prop
  | .beginTransaction d _ r => (s.conns d).connected = true → r.outcome = .carriedOut
  | _ => True

/-- `BeginTransaction` at a level other than the default of the session finds no transaction open,
and its setting is taken. -/
def Undisturbed (base : Level) (s : State Conn) : Act Answer → Prop
  | .beginTransaction d level r => (s.conns d).connected = true →
      ∀ l ∈ requested level, l ≠ base → (s.conns d).openTx = none ∧ r.set = true
  | _ => True

def NothingPending (s : State Conn) : Prop := ∀ d, (s.conns d).pending = none

theorem setLevel_of_not_connected {base : Level} {level : IsolationLevel} {k : Nat} {r : Answer} {c : Conn}
    (hconn : c.connected = false) : setLevel base level k r c = c := by
  unfold setLevel
  cases requested level with
  | none => rfl
  | some l => simp [doSilentQuery, hconn]

theorem doBegin_pending {base : Level} {level : IsolationLevel} {k : Nat} {r : Answer} {c : Conn}
    (hc : c.pending = none) (hout : c.connected = true → r.outcome = .carriedOut) :
    (doBeginTransaction base level k r c).pending = none := by
  unfold doBeginTransaction
  simp only [doSilentQuery, setLevel_connected]
  split_ifs with hconn
  · simp [exec, hout hconn]
  · rw [setLevel_of_not_connected (by simpa using hconn)]
    exact hc

theorem doEnd_pending {base : Level} (e : Ending) (r : Answer) {c : Conn} (hc : c.pending = none) :
    ((driver base).doEndTransaction e r c).pending = none := by
  obtain ⟨x, p, heq, hp⟩ := exists_doEnd_eq base e r c
  rw [heq]
  exact hp.elim id fun hkept => hkept.trans hc

theorem connect_pending (r : Answer) {c : Conn} (hc : c.pending = none) :
    (connect r c).pending = none := by
  rcases connect_cases r c with heq | heq
  · rw [heq]
    exact hc
  · rw [heq]

theorem step_nothingPending (base : Level) :
    (isolationSystem base).Preserves BeginsCarriedOut NothingPending := by
  intro s a s' hs hP hstep d
  have hconn := step_conn hstep d
  generalize s'.conns d = c' at hconn ⊢
  cases hconn with
  | same => exact hs d
  | connect r => exact connect_pending r (hs d)
  | disconnect => rfl
  | begins level r ha =>
    subst ha
    exact doBegin_pending (hs d) hP
  | ends e r => exact doEnd_pending e r (hs d)

theorem takesLevel_iff {base : Level} {s : State Conn} {a : Act Answer} (hs : NothingPending s)
    (hP : BeginsCarriedOut s a) : TakesLevel base s a ↔ Undisturbed base s a := by
  cases a with
  | beginTransaction d level r =>
    simp only [TakesLevel, Undisturbed, Conn.Opens, Conn.Takes, hs d, Option.getD_none,
      Option.mem_def]
    cases hl : requested level with
    | none => simp
    | some l =>
      constructor
      · intro h hconn l' hl' hne
        obtain rfl := Option.some.inj hl'
        exact (h ⟨hconn, hP hconn⟩).resolve_right (Ne.symm hne)
      · intro h ⟨hconn, _⟩
        by_cases hbase : base = l
        · exact .inr hbase
        · exact .inl (h hconn l rfl (Ne.symm hbase))
  | connect d r => exact Iff.rfl
  | disconnect d => exact Iff.rfl
  | moveConstruct h => exact Iff.rfl
  | moveAssign h o r => exact Iff.rfl
  | commit h r => exact Iff.rfl
  | rollback h r => exact Iff.rfl
  | destroy h r => exact Iff.rfl

/-- **If no `BEGIN` fails**, the levels reach their transactions exactly when no `BeginTransaction` at
a level other than `Default` and the default of the session finds a transaction open or its setting
not taken. -/
theorem meets_takesLevel_iff (base : Level) {as : List (Act Answer)}
    (h : (isolationSystem base).Meets BeginsCarriedOut as) :
    (isolationSystem base).Meets (TakesLevel base) as ↔
      (isolationSystem base).Meets (Undisturbed base) as :=
  Machine.meets_congr (fun _ => rfl) (step_nothingPending base)
    (fun _ _ hs hP => takesLevel_iff hs hP) h

end StormByteDatabase.Isolation
