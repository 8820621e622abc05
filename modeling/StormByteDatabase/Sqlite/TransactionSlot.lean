import StormByteDatabase.Database.Transaction

/-!
# Transaction handles on SQLite connections

A SQLite connection has one transaction slot: `BEGIN` inside an open transaction is refused and
leaves that transaction open, and `COMMIT` and `ROLLBACK` act on whatever is open. `SQLite3` drops
what the connection answers to all three. Two things go wrong with that.

* A handle whose `BEGIN` was refused ends the transaction of another. `ends_own_iff`: in a run, the
  ends executed are all executed on the own transaction of their handle exactly when no handle is
  made to end while its connection is open and its `BEGIN` was not accepted on that connection.
* A handle whose `COMMIT` was refused is finished all the same. `owned_slot_iff`: a run never
  reaches a state with an open transaction and no active handle exactly when each refused end that
  leaves its transaction open leaves another active handle of the database.

Proof. `SlotInv` ties the slot to the active handles: a handle whose `BEGIN` was accepted on the
connection that is open has its transaction in the slot. One step that meets the condition keeps it,
since by the ledger of `Transactions` no two active handles carry one transaction.
-/

namespace StormByteDatabase.TransactionSlot

open Lib Transactions

/-- The statements `DoBeginTransaction`, `CommitTransaction` and `RollbackTransaction` send. -/
inductive Statement
  | beginDeferred
  | beginImmediate
  | beginExclusive
  | commit
  | rollback
  deriving DecidableEq, Repr

/-- The answer of the backend where it has a choice; `aborted` is an error that rolls the open
transaction back. -/
inductive Answer
  | accepted
  | refused
  | aborted
  deriving DecidableEq, Repr

/-- `connected` is `m_connected`, and `openTx` the serial number of the transaction in the slot.
`accepted` lists the transactions whose `BEGIN` was accepted since the connect. -/
structure Conn where
  connected : Bool
  openTx : Option Nat
  accepted : List Nat
  deriving DecidableEq, Repr

/-- The transaction statements on an open connection; the flag is `rc == SQLITE_OK`. -/
def exec (q : Statement) (serial : Nat) (r : Answer) (c : Conn) : Conn × Bool :=
  match q, c.openTx with
  | .commit, none => (c, false)
  | .rollback, none => (c, false)
  | .commit, some _ | .rollback, some _ =>
    match r with
    | .accepted => ({ c with openTx := none }, true)
    | .refused => (c, false)
    | .aborted => ({ c with openTx := none }, false)
  | _, some _ => (c, false)
  | _, none =>
    match r with
    | .accepted => ({ c with openTx := some serial, accepted := serial :: c.accepted }, true)
    | _ => (c, false)

def doSilentQuery (q : Statement) (serial : Nat) (r : Answer) (c : Conn) : Conn × Bool :=
  if c.connected then exec q serial r c else (c, false)

def beginStatement : IsolationLevel → Statement
  | .readUncommitted | .readCommitted | .default => .beginDeferred
  | .repeatableRead => .beginImmediate
  | .serializable => .beginExclusive

def endStatement : Ending → Statement
  | .commit => .commit
  | .rollback => .rollback

/-- A connection as `Connect` leaves it: nothing happens to one that is connected, and a new one has
an empty slot. -/
def connect (r : Answer) (c : Conn) : Conn :=
  if c.connected then c
  else
    match r with
    | .accepted => ⟨true, none, []⟩
    | _ => c

/-- Closing the connection rolls its transaction back. -/
def disconnect (_ : Conn) : Conn := ⟨false, none, []⟩

/-- `SQLite3`, which ignores the flag of `DoSilentQuery` throughout. -/
def driver : Driver Conn Answer where
  connect := connect
  disconnect := disconnect
  doBeginTransaction level serial r c := (doSilentQuery (beginStatement level) serial r c).1
  doEndTransaction e r c := (doSilentQuery (endStatement e) 0 r c).1

def slotSystem : Machine (State Conn) (Act Answer) := system driver ⟨false, none, []⟩

/-! ### What the statements do to the slot -/

theorem doBegin_cases (level : IsolationLevel) (serial : Nat) (r : Answer) (c : Conn) :
    driver.doBeginTransaction level serial r c = c ∨
      (c.openTx = none ∧ driver.doBeginTransaction level serial r c =
        { c with openTx := some serial, accepted := serial :: c.accepted }) := by
  simp only [driver, doSilentQuery]
  split_ifs
  · cases hslot : c.openTx with
    | none =>
      cases level <;> cases r <;> simp [beginStatement, exec, hslot]
    | some k =>
      left
      cases level <;> simp [beginStatement, exec, hslot]
  · exact .inl rfl

theorem doEnd_cases (e : Ending) (r : Answer) (c : Conn) :
    driver.doEndTransaction e r c = c ∨
      (c.connected = true ∧ driver.doEndTransaction e r c = { c with openTx := none }) := by
  simp only [driver, doSilentQuery]
  split_ifs with hconn
  · cases hslot : c.openTx with
    | none =>
      left
      cases e <;> simp [endStatement, exec, hslot]
    | some k =>
      cases e <;> cases r <;> simp [endStatement, exec, hslot, hconn]
  · exact .inl rfl

/-- The end is executed and refused, and leaves the transaction in the slot. -/
def EndKeeps (r : Answer) (c : Conn) : Prop :=
  c.connected = true ∧ c.openTx ≠ none ∧ r = .refused

theorem doEnd_openTx (e : Ending) (r : Answer) (c : Conn)
    (hc : c.connected = false → c.openTx = none) :
    (driver.doEndTransaction e r c).openTx ≠ none ↔ EndKeeps r c := by
  unfold EndKeeps
  simp only [driver, doSilentQuery]
  cases hslot : c.openTx with
  | none =>
    split_ifs with hconn
    · cases e <;> simp [endStatement, exec, hslot]
    · simp [hslot]
  | some k =>
    have hconn : c.connected = true := by
      by_contra hf
      rw [hc (by simpa using hf)] at hslot
      cases hslot
    rw [if_pos hconn]
    cases e <;> cases r <;> simp [endStatement, exec, hslot, hconn]

theorem connect_cases (r : Answer) (c : Conn) :
    driver.connect r c = c ∨ driver.connect r c = ⟨true, none, []⟩ := by
  simp only [driver, connect]
  split_ifs
  · exact .inl rfl
  · cases r
    · exact .inr rfl
    · exact .inl rfl
    · exact .inl rfl

/-! ### The slot and the active handles -/

/-- The slot of every connection holds a transaction accepted there, or nothing. -/
structure SlotInv (s : State Conn) : Prop where
  ledger : Ledger s
  slot : ∀ d k, (s.conns d).openTx = some k → k ∈ (s.conns d).accepted
  known : ∀ d, ∀ k ∈ (s.conns d).accepted, k < s.begun
  closed : ∀ d, (s.conns d).connected = false → (s.conns d).openTx = none

/-- What the three facts of `SlotInv` about one connection say. -/
def ConnOk (begun : Nat) (c : Conn) : Prop :=
  (∀ k, c.openTx = some k → k ∈ c.accepted) ∧ (∀ k ∈ c.accepted, k < begun) ∧
    (c.connected = false → c.openTx = none)

theorem connOk_empty (begun : Nat) (b : Bool) : ConnOk begun ⟨b, none, []⟩ :=
  ⟨by simp, by simp, by simp⟩

theorem SlotInv.conn {s : State Conn} (h : SlotInv s) (d : Nat) : ConnOk s.begun (s.conns d) :=
  ⟨h.slot d, h.known d, h.closed d⟩

theorem SlotInv.of_conns {s : State Conn} (hl : Ledger s)
    (h : ∀ d, ConnOk s.begun (s.conns d)) : SlotInv s :=
  ⟨hl, fun d => (h d).1, fun d => (h d).2.1, fun d => (h d).2.2⟩

theorem ConnOk.mono {begun begun' : Nat} {c : Conn} (h : ConnOk begun c) (hle : begun ≤ begun') :
    ConnOk begun' c :=
  ⟨h.1, fun k hk => Nat.lt_of_lt_of_le (h.2.1 k hk) hle, h.2.2⟩

theorem connOk_connect {begun : Nat} {c : Conn} (h : ConnOk begun c) (r : Answer) :
    ConnOk begun (driver.connect r c) := by
  rcases connect_cases r c with heq | heq
  · rwa [heq]
  · rw [heq]
    exact connOk_empty _ _

theorem connOk_doEnd {begun : Nat} {c : Conn} (h : ConnOk begun c) (e : Ending) (r : Answer) :
    ConnOk begun (driver.doEndTransaction e r c) := by
  rcases doEnd_cases e r c with heq | ⟨_, heq⟩
  · rwa [heq]
  · rw [heq]
    exact ⟨by simp, h.2.1, by simp⟩

theorem connOk_doBegin {begun : Nat} {c : Conn} (h : ConnOk begun c) (level : IsolationLevel)
    (r : Answer) : ConnOk (begun + 1) (driver.doBeginTransaction level begun r c) := by
  have hold : ConnOk (begun + 1) c := h.mono (Nat.le_succ _)
  by_cases hconn : c.connected = true
  · rcases doBegin_cases level begun r c with heq | ⟨_, heq⟩
    · rwa [heq]
    · rw [heq]
      refine ⟨fun k hk => ?_, fun k hk => ?_, fun hf => absurd hconn (by simpa using hf)⟩
      · simp [Option.some.inj hk]
      · rcases List.mem_cons.mp hk with rfl | hk
        · exact Nat.lt_succ_self _
        · exact hold.2.1 k hk
  · have heq : driver.doBeginTransaction level begun r c = c := by
      simp [driver, doSilentQuery, hconn]
    rwa [heq]

theorem step_slotInv : slotSystem.Preserves (fun _ _ => True) SlotInv := by
  intro s a s' h _ hstep
  have hl : Ledger s' := step_ledger driver _ s a s' h.ledger trivial hstep
  have hle : s.begun ≤ s'.begun := begun_le hstep
  refine .of_conns hl fun d => ?_
  have hd := h.conn d
  have hconn := step_conn hstep d
  generalize s'.conns d = c' at hconn ⊢
  cases hconn with
  | same => exact hd.mono hle
  | connect r => exact (connOk_connect hd r).mono hle
  | disconnect => exact connOk_empty _ _
  | begins level r ha =>
    subst ha
    cases hstep
    exact connOk_doBegin hd level r
  | ends e r => exact (connOk_doEnd hd e r).mono hle

theorem init_slotInv : SlotInv slotSystem.init :=
  .of_conns (init_ledger driver _) fun _ => connOk_empty _ _

/-! ### Ending only one's own transaction -/

/-- Every `COMMIT` and `ROLLBACK` executed for a handle found the transaction opened by the `BEGIN`
of that handle in the slot. -/
def EndsOwn (s : State Conn) : Prop :=
  ∀ e d k c, Call.ended e d k c ∈ s.calls → c.connected = true → c.openTx = some k

/-- A handle that is made to end its transaction while its database is connected is one whose
`BEGIN` was accepted on that connection. -/
def AcceptedHere (s : State Conn) (a : Act Answer) : Prop :=
  ∀ q ∈ a.ends, ∀ k, s.Carries q.1 k → (s.conns k.1).connected = true →
    k.2 ∈ (s.conns k.1).accepted

structure OwnInv (s : State Conn) : Prop extends SlotInv s where
  own : ∀ h k, s.Carries h k → k.2 ∈ (s.conns k.1).accepted → (s.conns k.1).openTx = some k.2

/-- An accepted end empties the slot of its own transaction, so no other active handle had one
there. -/
theorem own_of_ends {s s' : State Conn} {a : Act Answer} {h : Nat} {e : Ending} {r : Answer}
    (hs : OwnInv s) (hP : AcceptedHere s a) (ha : a.ends = some (h, e, r))
    (hstep : slotSystem.step s a = some s') :
    ∀ j k, s'.Carries j k → k.2 ∈ (s'.conns k.1).accepted → (s'.conns k.1).openTx = some k.2 := by
  obtain ⟨t, hget, hconns, _, _, hcarries⟩ := step_of_ends ha hstep
  intro j' k hj' hacc
  obtain ⟨j, hj, hjh⟩ := (hcarries k).mp ⟨j', hj'⟩
  rw [hconns, finish_conns] at hacc ⊢
  split_ifs at hacc ⊢ with hlive
  · rcases doEnd_cases e r (s.conns k.1) with heq | ⟨hconn, heq⟩
    · rw [heq] at hacc ⊢
      exact hs.own j k hj hacc
    · rw [heq] at hacc
      have hh : s.Carries h (k.1, t.serial) := ⟨t, hget, hlive, rfl⟩
      have hmine := hs.own h _ hh (hP _ ha _ hh hconn)
      have hother := hs.own j k hj hacc
      have hk : (k.1, t.serial) = k := Prod.ext rfl (Option.some.inj (hmine.symm.trans hother))
      exact absurd (hs.ledger.owned.exclusive j h k hj (hk ▸ hh)) hjh
  · exact hs.own j k hj hacc

theorem own_of_begin {s : State Conn} {d : Nat} {level : IsolationLevel} {r : Answer}
    (hs : OwnInv s) (j : Nat) (k : Nat × Nat)
    (hj : (beginTransaction driver s d level r).Carries j k)
    (hacc : k.2 ∈ ((beginTransaction driver s d level r).conns k.1).accepted) :
    ((beginTransaction driver s d level r).conns k.1).openTx = some k.2 := by
  rw [carries_add (u := ⟨some d, true, s.begun⟩) rfl] at hj
  simp only [beginTransaction] at hacc ⊢
  by_cases hd : k.1 = d
  · subst hd
    rw [Function.update_self] at hacc ⊢
    rcases doBegin_cases level s.begun r (s.conns k.1) with heq | ⟨hnone, heq⟩
    · rw [heq] at hacc ⊢
      rcases hj with hj | ⟨_, _, hserial⟩
      · exact hs.own j k hj hacc
      · exact absurd (hs.known _ _ hacc) (by simp [← hserial])
    · rw [heq] at hacc ⊢
      rcases List.mem_cons.mp hacc with hnew | hold
      · rw [hnew]
      · rcases hj with hj | ⟨_, _, hserial⟩
        · exact absurd (hs.own j k hj hold) (by simp [hnone])
        · exact absurd (hs.known _ _ hold) (by simp [← hserial])
  · rw [Function.update_of_ne hd] at hacc ⊢
    rcases hj with hj | ⟨_, hlive, _⟩
    · exact hs.own j k hj hacc
    · exact absurd (Option.some.inj hlive).symm hd

theorem step_ownInv : slotSystem.Preserves AcceptedHere OwnInv := by
  intro s a s' hs hP hstep
  have hslot : SlotInv s' := step_slotInv s a s' hs.toSlotInv trivial hstep
  cases ha : a.ends with
  | some q => exact ⟨hslot, own_of_ends hs hP ha hstep⟩
  | none =>
    refine ⟨hslot, fun j k hj hacc => ?_⟩
    rcases step_of_not_ends ha hstep with ⟨d, c, hc, rfl⟩ | ⟨d, level, r, rfl, rfl⟩ |
      ⟨hconns, _, _, hcarries⟩
    · have hj : s.Carries j k := hj
      by_cases hd : k.1 = d
      · subst hd
        simp only [Function.update_self] at hacc ⊢
        rcases hc with ⟨r, rfl⟩ | rfl
        · rcases connect_cases r (s.conns k.1) with heq | heq
          · rw [heq] at hacc ⊢
            exact hs.own j k hj hacc
          · rw [heq] at hacc
            cases hacc
        · cases hacc
      · simp only [Function.update_of_ne hd] at hacc ⊢
        exact hs.own j k hj hacc
    · exact own_of_begin hs j k hj hacc
    · obtain ⟨i, hi⟩ := (hcarries k).mp ⟨j, hj⟩
      rw [hconns] at hacc ⊢
      exact hs.own i k hi hacc

theorem init_ownInv : OwnInv slotSystem.init :=
  ⟨init_slotInv, fun h k hk => by simp [State.Carries, slotSystem, system] at hk⟩

theorem calls_mono {s s' : State Conn} {a : Act Answer} (hstep : slotSystem.step s a = some s') :
    ∀ c ∈ s.calls, c ∈ s'.calls := by
  intro c hc
  rcases step_calls hstep with ⟨d, level, r, rfl, rfl⟩ | ⟨_, hcalls | ⟨e, d, k, hcalls⟩⟩
  · exact List.mem_cons_of_mem _ hc
  · rwa [hcalls]
  · rw [hcalls]
    exact List.mem_cons_of_mem _ hc

/-- One step: the ends executed stay on their own transactions exactly when the step meets the
condition. -/
theorem endsOwn_step {s s' : State Conn} {a : Act Answer} (hs : OwnInv s) (hQ : EndsOwn s)
    (hstep : slotSystem.step s a = some s') : AcceptedHere s a ↔ EndsOwn s' := by
  cases ha : a.ends with
  | none =>
    refine ⟨fun _ => ?_, fun _ => by simp [AcceptedHere, ha]⟩
    rcases step_of_not_ends ha hstep with ⟨d, c', _, rfl⟩ | ⟨d, level, r, rfl, rfl⟩ | ⟨_, hcalls, _⟩
    · exact hQ
    · intro e d' k c hc
      rcases List.mem_cons.mp hc with heq | hc
      · cases heq
      · exact hQ e d' k c hc
    · unfold EndsOwn
      rwa [hcalls]
  | some q =>
    obtain ⟨h, e, r⟩ := q
    obtain ⟨t, hget, _, hcalls, _, _⟩ := step_of_ends ha hstep
    unfold AcceptedHere EndsOwn
    rw [hcalls, ha]
    simp only [Option.mem_def, Option.some.injEq, forall_eq']
    unfold State.finish
    cases hlive : t.live with
    | none =>
      refine ⟨fun _ => hQ, fun _ k hk => ?_⟩
      rw [carries_self hget, hlive] at hk
      cases hk.1
    | some d =>
      have hh : s.Carries h (d, t.serial) := ⟨t, hget, hlive, rfl⟩
      constructor
      · intro hP e' d' k c hc hconn
        rcases List.mem_cons.mp hc with heq | hc
        · cases heq
          exact hs.own h _ hh (hP _ hh hconn)
        · exact hQ e' d' k c hc hconn
      · intro hall k hk hconn
        obtain rfl := Ledger.serial_inj hh hk
        exact hs.slot d _ (hall e d t.serial _ List.mem_cons_self hconn)

/-- **A handle ends only its own transaction** throughout a run exactly when every handle made to
end while its database is connected had its `BEGIN` accepted on that connection. -/
theorem ends_own_iff (as : List (Act Answer)) (s : State Conn)
    (hrun : slotSystem.run as = some s) : EndsOwn s ↔ slotSystem.Meets AcceptedHere as :=
  Machine.final_iff_meets step_ownInv
    (fun _ _ _ hstep hQ e d k c hc => hQ e d k c (calls_mono hstep _ hc))
    (fun _ _ _ hs hQ hstep => endsOwn_step hs hQ hstep) init_ownInv
    (fun _ _ _ _ hc => by simp [slotSystem, system] at hc) hrun

/-- Two transactions after each other, the second assigned over the finished handle of the first. -/
theorem ends_own_iff_two :
    let as : List (Act Answer) :=
      [.connect 0 .accepted, .beginTransaction 0 .default .accepted, .commit 0 .accepted,
        .beginTransaction 0 .serializable .accepted, .moveAssign 0 1 .accepted,
        .destroy 1 .accepted, .destroy 0 .accepted]
    EndsOwn ((slotSystem.run as).get rfl) ↔ slotSystem.Meets AcceptedHere as :=
  ends_own_iff _ _ rfl

/-- A handle whose `BEGIN` was refused rolls the transaction of another handle back. -/
theorem refused_handle_ends_another :
    ¬ ∀ (as : List (Act Answer)) (s : State Conn), slotSystem.run as = some s → EndsOwn s := by
  intro h
  have hbad := h
    [.connect 0 .accepted, .beginTransaction 0 .default .accepted,
      .beginTransaction 0 .default .accepted, .rollback 1 .accepted] _ rfl
  have hslot := hbad .rollback 0 1 ⟨true, some 0, [0]⟩ List.mem_cons_self rfl
  exact absurd hslot (by decide)

/-! ### No transaction without an owner -/

/-- A database no active handle refers to has nothing in its slot. -/
def SlotOwned (s : State Conn) : Prop :=
  ∀ d, (∀ h k, s.Carries h k → k.1 ≠ d) → (s.conns d).openTx = none

/-- An end that is executed and refused, so that the transaction stays open, leaves another active
handle of the database. -/
def KeepsOwner (s : State Conn) (a : Act Answer) : Prop :=
  ∀ q ∈ a.ends, ∀ k, s.Carries q.1 k → EndKeeps q.2.2 (s.conns k.1) →
    ∃ j k', s.Carries j k' ∧ k'.1 = k.1 ∧ j ≠ q.1

theorem slotOwned_of_ends {s s' : State Conn} {a : Act Answer} {h : Nat} {e : Ending} {r : Answer}
    (hs : SlotInv s) (hQ : SlotOwned s) (ha : a.ends = some (h, e, r))
    (hstep : slotSystem.step s a = some s') : KeepsOwner s a ↔ SlotOwned s' := by
  obtain ⟨t, hget, hconns, _, _, hcarries⟩ := step_of_ends ha hstep
  unfold KeepsOwner SlotOwned
  rw [hconns, ha]
  simp only [Option.mem_def, Option.some.injEq, forall_eq']
  constructor
  · intro hP d hd
    rw [finish_conns]
    split_ifs with hlive
    · by_contra hne
      have hkeep := (doEnd_openTx e r (s.conns d) (hs.closed d)).mp hne
      obtain ⟨j, k', hj, hk', hjh⟩ := hP (d, t.serial) ⟨t, hget, hlive, rfl⟩ hkeep
      obtain ⟨j', hj'⟩ := (hcarries k').mpr ⟨j, hj, hjh⟩
      exact hd j' k' hj' hk'
    · refine hQ d fun j k hj hk => ?_
      refine hlive ?_
      by_cases hjh : j = h
      · subst hjh
        rw [carries_self hget] at hj
        exact hk ▸ hj.1
      · obtain ⟨j', hj'⟩ := (hcarries k).mpr ⟨j, hj, hjh⟩
        exact absurd hk (hd j' k hj')
  · intro hall k hk hkeep
    rw [carries_self hget] at hk
    by_contra hno
    refine (doEnd_openTx e r (s.conns k.1) (hs.closed k.1)).mpr hkeep ?_
    have hslot := hall k.1 fun j' k' hj' hk' => ?_
    · rwa [finish_conns, if_pos hk.1] at hslot
    · obtain ⟨j, hj, hjh⟩ := (hcarries k').mp ⟨j', hj'⟩
      exact hno ⟨j, k', hj, hk', hjh⟩

theorem slotOwned_of_not_ends {s s' : State Conn} {a : Act Answer} (hQ : SlotOwned s)
    (ha : a.ends = none) (hstep : slotSystem.step s a = some s') : SlotOwned s' := by
  intro d hd
  rcases step_of_not_ends ha hstep with ⟨d', c, hc, rfl⟩ | ⟨d', level, r, rfl, rfl⟩ |
    ⟨hconns, _, _, hcarries⟩
  · have hold := hQ d fun j k hj => hd j k hj
    by_cases hdd : d = d'
    · subst hdd
      simp only [Function.update_self]
      rcases hc with ⟨r, rfl⟩ | rfl
      · rcases connect_cases r (s.conns d) with heq | heq
        · rwa [heq]
        · rw [heq]
      · rfl
    · simpa only [Function.update_of_ne hdd] using hold
  · have hnew : (beginTransaction driver s d' level r).Carries s.handles.size (d', s.begun) :=
      (carries_add rfl _ _).mpr (.inr ⟨rfl, rfl, rfl⟩)
    have hdd : d ≠ d' := fun heq => hd _ _ hnew heq.symm
    simp only [beginTransaction, Function.update_of_ne hdd]
    exact hQ d fun j k hj => hd j k ((carries_add rfl _ _).mpr (.inl hj))
  · rw [hconns]
    refine hQ d fun j k hj => ?_
    obtain ⟨j', hj'⟩ := (hcarries k).mpr ⟨j, hj⟩
    exact hd j' k hj'

theorem slotOwned_step {s s' : State Conn} {a : Act Answer} (hs : SlotInv s) (hQ : SlotOwned s)
    (hstep : slotSystem.step s a = some s') : KeepsOwner s a ↔ SlotOwned s' := by
  cases ha : a.ends with
  | some q => exact slotOwned_of_ends hs hQ ha hstep
  | none => exact ⟨fun _ => slotOwned_of_not_ends hQ ha hstep, fun _ => by simp [KeepsOwner, ha]⟩

/-- **No transaction is open without an active handle** in any state of a run exactly when every end
that is refused and leaves its transaction open leaves another active handle of the database. -/
theorem owned_slot_iff (as : List (Act Answer)) (s : State Conn)
    (hrun : slotSystem.run as = some s) :
    slotSystem.Visits SlotOwned as ↔ slotSystem.Meets KeepsOwner as :=
  Machine.visitsFrom_iff_meetsFrom step_slotInv
    (fun _ _ _ hs hQ hstep => slotOwned_step hs hQ hstep) init_slotInv (fun _ _ => rfl) hrun

/-- A transaction committed at the first try, and one rolled back by its destructor. -/
theorem owned_slot_iff_two :
    let as : List (Act Answer) :=
      [.connect 0 .accepted, .beginTransaction 0 .default .accepted, .commit 0 .accepted,
        .beginTransaction 0 .repeatableRead .accepted, .destroy 1 .accepted]
    slotSystem.Visits SlotOwned as ↔ slotSystem.Meets KeepsOwner as :=
  owned_slot_iff _ _ rfl

/-- A refused `COMMIT` leaves its transaction open with no active handle. -/
theorem refused_commit_orphans :
    ¬ ∀ (as : List (Act Answer)) (s : State Conn), slotSystem.run as = some s → SlotOwned s := by
  intro h
  have hbad := h
    [.connect 0 .accepted, .beginTransaction 0 .default .accepted, .commit 0 .refused] _ rfl
  have hslot := hbad 0 fun j k hj => by
    obtain ⟨t, hget, hlive, _⟩ := hj
    match j with
    | 0 =>
      obtain rfl := Option.some.inj hget
      cases hlive
    | j + 1 => cases hget
  exact absurd hslot (by decide)

end StormByteDatabase.TransactionSlot
