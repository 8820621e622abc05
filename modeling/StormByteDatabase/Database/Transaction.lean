import StormByteDatabase.Lib.Machine
import StormByteDatabase.Lib.Objects
import StormByteDatabase.Lib.Ownership
import StormByteDatabase.Typedefs

/-!
# Transaction handles

`Transaction` objects over any number of `Database` objects: `BeginTransaction`, the move
constructor and move assignment, `Commit`, `Rollback` and the destructor. What a backend does with
the statements is a `Driver`, a parameter here: the handle layer only decides which calls are made.

Every `BeginTransaction` gets a serial number, which the handle it returns carries along its moves;
it is not in the source and no operation reads it. `step_ledger`: the begun transactions are a
ledger (`Lib.Owned`) whose owners are the active handles. So a begun transaction has at most one
active handle, and `CommitTransaction` or `RollbackTransaction` is called for it once, by that
handle.
-/

namespace StormByteDatabase.Transactions

open Lib

/-- The statement that ends a transaction: `CommitTransaction` or `RollbackTransaction`. -/
inductive Ending
  | commit
  | rollback
  deriving DecidableEq, Repr

/-- `Transaction`: `db` is `m_db` (by number), `active` is `m_active`; `serial` is the number of the
`BeginTransaction` that made the handle. -/
structure Transaction where
  db : Option Nat
  active : Bool
  serial : Nat
  deriving DecidableEq, Repr

/-- A backend: what its statements do to the connection `κ` of a `Database`, given the answer `ρ` of
the outside. -/
structure Driver (κ ρ : Type*) where
  connect : ρ → κ → κ
  disconnect : κ → κ
  /-- `DoBeginTransaction`; the serial number names the transaction. -/
  doBeginTransaction : IsolationLevel → Nat → ρ → κ → κ
  /-- `DoSilentQuery` of the ending statement. -/
  doEndTransaction : Ending → ρ → κ → κ

/-- A call made on a `Database`, with the connection as the call found it. -/
inductive Call (κ : Type*)
  | began (db : Nat) (level : IsolationLevel) (serial : Nat) (conn : κ)
  | ended (ending : Ending) (db : Nat) (serial : Nat) (conn : κ)

structure State (κ : Type*) where
  conns : Nat → κ
  handles : Objects Transaction
  /-- The number of `BeginTransaction` calls so far. -/
  begun : Nat
  /-- Latest first. -/
  calls : List (Call κ)

inductive Act (ρ : Type*)
  | connect (d : Nat) (r : ρ)
  | disconnect (d : Nat)
  | beginTransaction (d : Nat) (level : IsolationLevel) (r : ρ)
  | moveConstruct (h : Nat)
  /-- Handle `h` is assigned from handle `o`. -/
  | moveAssign (h o : Nat) (r : ρ)
  | commit (h : Nat) (r : ρ)
  | rollback (h : Nat) (r : ρ)
  | destroy (h : Nat) (r : ρ)

variable {κ ρ : Type*}

/-- `m_active && m_db`, and the database. -/
def Transaction.live (t : Transaction) : Option Nat := if t.active then t.db else none

/-- What a move leaves behind. -/
def Transaction.released (t : Transaction) : Transaction := { t with db := none, active := false }

/-- `CommitTransaction` or `RollbackTransaction` on the database `d`. -/
def State.endOn (D : Driver κ ρ) (s : State κ) (e : Ending) (serial : Nat) (r : ρ) (d : Nat) :
    State κ :=
  { s with
    conns := Function.update s.conns d (D.doEndTransaction e r (s.conns d))
    calls := .ended e d serial (s.conns d) :: s.calls }

/-- The call a handle makes if it is active. -/
def State.finish (D : Driver κ ρ) (s : State κ) (e : Ending) (t : Transaction) (r : ρ) : State κ :=
  match t.live with
  | some d => s.endOn D e t.serial r d
  | none => s

def beginTransaction (D : Driver κ ρ) (s : State κ) (d : Nat) (level : IsolationLevel) (r : ρ) :
    State κ :=
  { conns := Function.update s.conns d (D.doBeginTransaction level s.begun r (s.conns d))
    handles := s.handles.add ⟨some d, true, s.begun⟩
    begun := s.begun + 1
    calls := .began d level s.begun (s.conns d) :: s.calls }

/-- `Commit` and `Rollback`: nothing at all for a handle that is not active. -/
def endTransaction (D : Driver κ ρ) (s : State κ) (e : Ending) (h : Nat) (r : ρ)
    (t : Transaction) : State κ :=
  match t.live with
  | some d =>
    { s.endOn D e t.serial r d with handles := s.handles.put h { t with active := false } }
  | none => s

def moveConstruct (s : State κ) (h : Nat) (t : Transaction) : State κ :=
  { s with handles := (s.handles.put h t.released).add t }

def moveAssign (D : Driver κ ρ) (s : State κ) (h o : Nat) (r : ρ) (t u : Transaction) : State κ :=
  if h = o then s
  else
    { s.finish D .rollback t r with handles := (s.handles.put h u).put o u.released }

def destroy (D : Driver κ ρ) (s : State κ) (h : Nat) (r : ρ) (t : Transaction) : State κ :=
  { s.finish D .rollback t r with handles := s.handles.drop h }

def step (D : Driver κ ρ) (s : State κ) : Act ρ → Option (State κ)
  | .connect d r => some { s with conns := Function.update s.conns d (D.connect r (s.conns d)) }
  | .disconnect d => some { s with conns := Function.update s.conns d (D.disconnect (s.conns d)) }
  | .beginTransaction d level r => some (beginTransaction D s d level r)
  | .moveConstruct h => (s.handles.get h).map (moveConstruct s h)
  | .moveAssign h o r =>
    match s.handles.get h, s.handles.get o with
    | some t, some u => some (moveAssign D s h o r t u)
    | _, _ => none
  | .commit h r => (s.handles.get h).map (endTransaction D s .commit h r)
  | .rollback h r => (s.handles.get h).map (endTransaction D s .rollback h r)
  | .destroy h r => (s.handles.get h).map (destroy D s h r)

def system (D : Driver κ ρ) (conn : κ) : Machine (State κ) (Act ρ) :=
  ⟨⟨fun _ => conn, .empty, 0, []⟩, step D⟩

/-- The handle a step ends the transaction of if it is active, with the statement and the answer. -/
def Act.ends : Act ρ → Option (Nat × Ending × ρ)
  | .commit h r => some (h, .commit, r)
  | .rollback h r => some (h, .rollback, r)
  | .destroy h r => some (h, .rollback, r)
  | .moveAssign h o r => if h = o then none else some (h, .rollback, r)
  | _ => none

/-- The active handle `h` carries the transaction `k.2` of the database `k.1`. -/
def State.Carries (s : State κ) (h : Nat) (k : Nat × Nat) : Prop :=
  ∃ t, s.handles.get h = some t ∧ t.live = some k.1 ∧ t.serial = k.2

/-- A begun transaction is opened by its `BeginTransaction` and closed by the call that ends it. -/
def Call.event : Call κ → Event (Nat × Nat)
  | .began d _ serial _ => .opened (d, serial)
  | .ended _ d serial _ => .closed (d, serial)

def State.events (s : State κ) : List (Event (Nat × Nat)) := s.calls.map Call.event

/-! ### What each operation does to the carriers -/

@[simp] theorem live_released (t : Transaction) : t.released.live = none := rfl

theorem carries_self {s : State κ} {h : Nat} {t : Transaction} (hget : s.handles.get h = some t)
    {k : Nat × Nat} : s.Carries h k ↔ t.live = some k.1 ∧ t.serial = k.2 := by
  unfold State.Carries
  simp [hget]

theorem carries_put {s s' : State κ} {h : Nat} {t u : Transaction}
    (hget : s.handles.get h = some t) (hs : s'.handles = s.handles.put h u) (j : Nat)
    (k : Nat × Nat) :
    s'.Carries j k ↔ if j = h then u.live = some k.1 ∧ u.serial = k.2 else s.Carries j k := by
  unfold State.Carries
  rw [hs, Objects.get_put hget]
  split_ifs <;> simp

theorem not_carries_size (s : State κ) (k : Nat × Nat) : ¬ s.Carries s.handles.size k := by
  rintro ⟨t, hget, _⟩
  exact Objects.ne_size_of_get hget rfl

theorem carries_add {s s' : State κ} {u : Transaction} (hs : s'.handles = s.handles.add u)
    (j : Nat) (k : Nat × Nat) :
    s'.Carries j k ↔
      s.Carries j k ∨ (j = s.handles.size ∧ u.live = some k.1 ∧ u.serial = k.2) := by
  have hnew := not_carries_size s k
  unfold State.Carries at hnew ⊢
  rw [hs, Objects.get_add]
  split_ifs with hj
  · subst hj
    simp only [Option.some.injEq, exists_eq_left', true_and]
    exact ⟨.inr, fun h => h.resolve_left hnew⟩
  · simp [hj]

theorem carries_endTransaction (D : Driver κ ρ) {s : State κ} {e : Ending} {h : Nat} {r : ρ}
    {t : Transaction} (hget : s.handles.get h = some t) (j : Nat) (k : Nat × Nat) :
    (endTransaction D s e h r t).Carries j k ↔ s.Carries j k ∧ j ≠ h := by
  unfold endTransaction
  cases hlive : t.live with
  | none =>
    refine ⟨fun hj => ⟨hj, ?_⟩, fun hj => hj.1⟩
    rintro rfl
    simp [carries_self hget, hlive] at hj
  | some d =>
    rw [carries_put hget rfl]
    split_ifs with hj
    · simp [hj, Transaction.live]
    · simp [hj]

theorem carries_destroy (D : Driver κ ρ) {s : State κ} {h : Nat} {r : ρ} {t : Transaction}
    (j : Nat) (k : Nat × Nat) : (destroy D s h r t).Carries j k ↔ s.Carries j k ∧ j ≠ h := by
  unfold State.Carries destroy
  rw [Objects.get_drop]
  split_ifs with hj
  · simp [hj]
  · simp [hj]

theorem carries_moveConstruct {s : State κ} {h : Nat} {t : Transaction}
    (hget : s.handles.get h = some t) (j : Nat) (k : Nat × Nat) :
    (moveConstruct s h t).Carries j k ↔
      (s.Carries j k ∧ j ≠ h) ∨ (j = s.handles.size ∧ s.Carries h k) := by
  have hsize : (s.handles.put h t.released).size = s.handles.size := by
    simp [Objects.put, Objects.size]
  rw [carries_add (s := { s with handles := s.handles.put h t.released }) rfl, hsize,
    carries_self hget, carries_put hget rfl]
  split_ifs with hj
  · simp [hj]
  · simp [hj]

theorem carries_moveAssign (D : Driver κ ρ) {s : State κ} {h o : Nat} {r : ρ} {t u : Transaction}
    (hh : s.handles.get h = some t) (ho : s.handles.get o = some u) (hne : h ≠ o) (j : Nat)
    (k : Nat × Nat) :
    (moveAssign D s h o r t u).Carries j k ↔
      (s.Carries j k ∧ j ≠ h ∧ j ≠ o) ∨ (j = h ∧ s.Carries o k) := by
  have hget : (s.handles.put h u).get o = some u := by
    rw [Objects.get_put hh, if_neg (Ne.symm hne), ho]
  unfold moveAssign
  rw [if_neg hne, carries_put (s := { s with handles := s.handles.put h u }) hget rfl,
    carries_put hh rfl, carries_self ho]
  split_ifs with hjo hjh
  · simp [hjo, Ne.symm hne]
  · simp [hjh, hne]
  · simp [hjo, hjh]

/-! ### The ledger of transactions -/

structure Ledger (s : State κ) : Prop where
  owned : Owned s.Carries s.events
  below : ∀ k, .opened k ∈ s.events → k.2 < s.begun

theorem Ledger.serial_inj {s : State κ} {h : Nat} {k k' : Nat × Nat} (hk : s.Carries h k)
    (hk' : s.Carries h k') : k = k' := by
  obtain ⟨t, hget, hlive, hserial⟩ := hk
  rw [carries_self hget] at hk'
  exact Prod.ext (Option.some.inj (hlive.symm.trans hk'.1)) (hserial.symm.trans hk'.2)

theorem Ledger.finish {s s' : State κ} {D : Driver κ ρ} {e : Ending} {h : Nat} {r : ρ}
    {t : Transaction} (hl : Ledger s) (hget : s.handles.get h = some t)
    (hcalls : s'.calls = (s.finish D e t r).calls) (hbegun : s'.begun = s.begun)
    (hcarries : ∀ j k, s'.Carries j k ↔ s.Carries j k ∧ j ≠ h) : Ledger s' := by
  unfold State.finish at hcalls
  cases hlive : t.live with
  | none =>
    rw [hlive] at hcalls
    refine ⟨?_, ?_⟩
    · unfold State.events
      rw [hcalls]
      refine hl.owned.congr fun j k => ?_
      rw [hcarries]
      refine ⟨fun hj => hj.1, fun hj => ⟨hj, ?_⟩⟩
      rintro rfl
      simp [carries_self hget, hlive] at hj
    · unfold State.events
      rw [hcalls, hbegun]
      exact hl.below
  | some d =>
    rw [hlive] at hcalls
    have hh : s.Carries h (d, t.serial) := ⟨t, hget, hlive, rfl⟩
    refine ⟨?_, ?_⟩
    · unfold State.events
      rw [hcalls]
      exact hl.owned.releaseAll hh (fun k hk => (Ledger.serial_inj hh hk).symm) hcarries
    · unfold State.events
      rw [hcalls, hbegun]
      intro k hk
      exact hl.below k (by simpa [State.endOn, Call.event, State.events] using hk)

theorem beginTransaction_ledger {D : Driver κ ρ} {s : State κ} (hl : Ledger s) (d : Nat)
    (level : IsolationLevel) (r : ρ) : Ledger (beginTransaction D s d level r) := by
  have hfresh : .opened (d, s.begun) ∉ s.events := fun hm => Nat.lt_irrefl _ (hl.below _ hm)
  refine ⟨hl.owned.acquire (i := s.handles.size) hfresh fun j k => ?_, fun k hk => ?_⟩
  · rw [carries_add (u := ⟨some d, true, s.begun⟩) rfl]
    simp [Transaction.live, Prod.ext_iff, eq_comm]
  · rcases List.mem_cons.mp hk with heq | hk
    · cases heq
      exact Nat.lt_succ_self _
    · exact Nat.lt_succ_of_lt (hl.below k hk)

theorem moveConstruct_ledger {s : State κ} (hl : Ledger s) {h : Nat} {t : Transaction}
    (hget : s.handles.get h = some t) : Ledger (moveConstruct s h t) :=
  ⟨hl.owned.transfer (not_carries_size s) (carries_moveConstruct hget), hl.below⟩

theorem moveAssign_ledger {D : Driver κ ρ} {s : State κ} (hl : Ledger s) {h o : Nat} {r : ρ}
    {t u : Transaction} (hh : s.handles.get h = some t) (ho : s.handles.get o = some u) :
    Ledger (moveAssign D s h o r t u) := by
  by_cases hne : h = o
  · simpa [moveAssign, hne] using hl
  -- first the old transaction of `h` ends, then that of `o` passes to `h`
  have hmid : Ledger { s.finish D .rollback t r with handles := s.handles.put h t.released } := by
    refine hl.finish hh rfl ?_ fun j k => ?_
    · unfold State.finish
      split <;> rfl
    · rw [carries_put hh rfl]
      split_ifs with hj
      · simp [hj]
      · simp [hj]
  have hcarries := carries_moveAssign D (r := r) hh ho hne
  have hput : ∀ j k, State.Carries { s.finish D .rollback t r with
      handles := s.handles.put h t.released } j k ↔ s.Carries j k ∧ j ≠ h := by
    intro j k
    rw [carries_put hh rfl]
    split_ifs with hj
    · simp [hj]
    · simp [hj]
  have hcalls : (moveAssign D s h o r t u).calls = (s.finish D .rollback t r).calls := by
    simp [moveAssign, hne]
  have hbegun : (moveAssign D s h o r t u).begun = (s.finish D .rollback t r).begun := by
    simp [moveAssign, hne]
  refine ⟨?_, ?_⟩
  · unfold State.events
    rw [hcalls]
    refine hmid.owned.transfer (i := o) (n := h) (fun k hk => ?_) fun j k => ?_
    · exact ((hput h k).mp hk).2 rfl
    · rw [hcarries, hput, hput]
      simp [Ne.symm hne, and_assoc]
  · unfold State.events
    rw [hcalls, hbegun]
    exact hmid.below

theorem finish_begun (D : Driver κ ρ) (s : State κ) (e : Ending) (t : Transaction) (r : ρ) :
    (s.finish D e t r).begun = s.begun := by
  unfold State.finish
  split <;> rfl

theorem finish_conns (D : Driver κ ρ) (s : State κ) (e : Ending) (t : Transaction) (r : ρ)
    (d : Nat) :
    (s.finish D e t r).conns d =
      if t.live = some d then D.doEndTransaction e r (s.conns d) else s.conns d := by
  unfold State.finish
  cases hlive : t.live with
  | none => simp
  | some d' =>
    by_cases hd : d = d'
    · simp [State.endOn, hd]
    · simp [State.endOn, hd, Ne.symm hd]

theorem endTransaction_calls (D : Driver κ ρ) (s : State κ) (e : Ending) (h : Nat) (r : ρ)
    (t : Transaction) :
    (endTransaction D s e h r t).calls = (s.finish D e t r).calls ∧
      (endTransaction D s e h r t).begun = s.begun ∧
      (endTransaction D s e h r t).conns = (s.finish D e t r).conns := by
  unfold endTransaction State.finish
  split <;> exact ⟨rfl, rfl, rfl⟩

theorem endTransaction_ledger {D : Driver κ ρ} {s : State κ} (hl : Ledger s) {e : Ending} {h : Nat}
    {r : ρ} {t : Transaction} (hget : s.handles.get h = some t) :
    Ledger (endTransaction D s e h r t) :=
  have hc := endTransaction_calls D s e h r t
  hl.finish hget hc.1 hc.2.1 (carries_endTransaction D hget)

theorem exists_of_moveAssign {D : Driver κ ρ} {s s' : State κ} {h o : Nat} {r : ρ}
    (hstep : step D s (.moveAssign h o r) = some s') :
    ∃ t u, s.handles.get h = some t ∧ s.handles.get o = some u ∧
      s' = moveAssign D s h o r t u := by
  simp only [step] at hstep
  split at hstep
  · rename_i t u hh ho
    exact ⟨t, u, hh, ho, (Option.some.inj hstep).symm⟩
  · cases hstep

/-- What a step that may end a transaction does: the call of its handle, which carries nothing
afterwards, while every other transaction still has its handle. -/
theorem step_of_ends {D : Driver κ ρ} {s s' : State κ} {a : Act ρ} {h : Nat} {e : Ending} {r : ρ}
    (ha : a.ends = some (h, e, r)) (hstep : step D s a = some s') :
    ∃ t, s.handles.get h = some t ∧ s'.conns = (s.finish D e t r).conns ∧
      s'.calls = (s.finish D e t r).calls ∧ s'.begun = s.begun ∧
      ∀ k, (∃ j, s'.Carries j k) ↔ ∃ j, s.Carries j k ∧ j ≠ h := by
  cases a with
  | connect d r => cases ha
  | disconnect d => cases ha
  | beginTransaction d level r => cases ha
  | moveConstruct h => cases ha
  | commit h' r' =>
    cases ha
    obtain ⟨t, hget, rfl⟩ := Option.map_eq_some_iff.mp hstep
    obtain ⟨hcalls, hbegun, hconns⟩ := endTransaction_calls D s .commit h r t
    exact ⟨t, hget, hconns, hcalls, hbegun,
      fun k => exists_congr fun j => carries_endTransaction D hget j k⟩
  | rollback h' r' =>
    cases ha
    obtain ⟨t, hget, rfl⟩ := Option.map_eq_some_iff.mp hstep
    obtain ⟨hcalls, hbegun, hconns⟩ := endTransaction_calls D s .rollback h r t
    exact ⟨t, hget, hconns, hcalls, hbegun,
      fun k => exists_congr fun j => carries_endTransaction D hget j k⟩
  | destroy h' r' =>
    cases ha
    obtain ⟨t, hget, rfl⟩ := Option.map_eq_some_iff.mp hstep
    exact ⟨t, hget, rfl, rfl, finish_begun D s .rollback t r,
      fun k => exists_congr fun j => carries_destroy D j k⟩
  | moveAssign h' o r' =>
    simp only [Act.ends] at ha
    split_ifs at ha with hne
    cases ha
    obtain ⟨t, u, hh, ho, rfl⟩ := exists_of_moveAssign hstep
    refine ⟨t, hh, by simp [moveAssign, hne], by simp [moveAssign, hne],
      by simp [moveAssign, hne, finish_begun], fun k => ?_⟩
    constructor
    · rintro ⟨j, hj⟩
      rcases (carries_moveAssign D hh ho hne j k).mp hj with ⟨hj, hjh, _⟩ | ⟨_, hj⟩
      · exact ⟨j, hj, hjh⟩
      · exact ⟨o, hj, Ne.symm hne⟩
    · rintro ⟨j, hj, hjh⟩
      by_cases hjo : j = o
      · exact ⟨h, (carries_moveAssign D hh ho hne h k).mpr (.inr ⟨rfl, hjo ▸ hj⟩)⟩
      · exact ⟨j, (carries_moveAssign D hh ho hne j k).mpr (.inl ⟨hj, hjh, hjo⟩)⟩

/-- What a step that ends nothing does: to one connection, a begin, or a move of a handle. -/
theorem step_of_not_ends {D : Driver κ ρ} {s s' : State κ} {a : Act ρ} (ha : a.ends = none)
    (hstep : step D s a = some s') :
    (∃ d c, ((∃ r, c = D.connect r (s.conns d)) ∨ c = D.disconnect (s.conns d)) ∧
        s' = { s with conns := Function.update s.conns d c }) ∨
      (∃ d level r, a = .beginTransaction d level r ∧ s' = beginTransaction D s d level r) ∨
      (s'.conns = s.conns ∧ s'.calls = s.calls ∧ s'.begun = s.begun ∧
        ∀ k, (∃ j, s'.Carries j k) ↔ ∃ j, s.Carries j k) := by
  cases a with
  | connect d r =>
    cases hstep
    exact .inl ⟨d, _, .inl ⟨r, rfl⟩, rfl⟩
  | disconnect d =>
    cases hstep
    exact .inl ⟨d, _, .inr rfl, rfl⟩
  | beginTransaction d level r =>
    cases hstep
    exact .inr (.inl ⟨d, level, r, rfl, rfl⟩)
  | moveConstruct h =>
    obtain ⟨t, hget, rfl⟩ := Option.map_eq_some_iff.mp hstep
    refine .inr (.inr ⟨rfl, rfl, rfl, fun k => ?_⟩)
    constructor
    · rintro ⟨j, hj⟩
      rcases (carries_moveConstruct hget j k).mp hj with ⟨hj, _⟩ | ⟨_, hj⟩
      · exact ⟨j, hj⟩
      · exact ⟨h, hj⟩
    · rintro ⟨j, hj⟩
      by_cases hjh : j = h
      · exact ⟨_, (carries_moveConstruct hget _ k).mpr (.inr ⟨rfl, hjh ▸ hj⟩)⟩
      · exact ⟨j, (carries_moveConstruct hget j k).mpr (.inl ⟨hj, hjh⟩)⟩
  | moveAssign h o r =>
    simp only [Act.ends] at ha
    split_ifs at ha with heq
    obtain ⟨t, u, _, _, rfl⟩ := exists_of_moveAssign hstep
    simp [moveAssign, heq]
  | commit h r => cases ha
  | rollback h r => cases ha
  | destroy h r => cases ha

/-- What a step makes of the connection `c` of the database `d`. -/
inductive ConnStep (D : Driver κ ρ) (a : Act ρ) (d begun : Nat) (c : κ) : κ → Prop
  | same : ConnStep D a d begun c c
  | connect (r : ρ) : ConnStep D a d begun c (D.connect r c)
  | disconnect : ConnStep D a d begun c (D.disconnect c)
  | begins (level : IsolationLevel) (r : ρ) (ha : a = .beginTransaction d level r) :
    ConnStep D a d begun c (D.doBeginTransaction level begun r c)
  | ends (e : Ending) (r : ρ) : ConnStep D a d begun c (D.doEndTransaction e r c)

theorem step_conn {D : Driver κ ρ} {s s' : State κ} {a : Act ρ} (hstep : step D s a = some s')
    (d : Nat) : ConnStep D a d s.begun (s.conns d) (s'.conns d) := by
  cases ha : a.ends with
  | some q =>
    obtain ⟨h, e, r⟩ := q
    obtain ⟨t, _, hconns, _⟩ := step_of_ends ha hstep
    rw [hconns, finish_conns]
    split_ifs
    · exact .ends e r
    · exact .same
  | none =>
    rcases step_of_not_ends ha hstep with ⟨d', c, hc, rfl⟩ | ⟨d', level, r, rfl, rfl⟩ |
      ⟨hconns, _⟩
    · by_cases hd : d = d'
      · subst hd
        simp only [Function.update_self]
        rcases hc with ⟨r, rfl⟩ | rfl
        · exact .connect r
        · exact .disconnect
      · simp only [Function.update_of_ne hd]
        exact .same
    · simp only [beginTransaction]
      by_cases hd : d = d'
      · subst hd
        rw [Function.update_self]
        exact .begins level r rfl
      · rw [Function.update_of_ne hd]
        exact .same
    · rw [hconns]
      exact .same

theorem step_calls {D : Driver κ ρ} {s s' : State κ} {a : Act ρ} (hstep : step D s a = some s') :
    (∃ d level r, a = .beginTransaction d level r ∧ s' = beginTransaction D s d level r) ∨
      (s'.begun = s.begun ∧ (s'.calls = s.calls ∨
        ∃ e d k, s'.calls = .ended e d k (s.conns d) :: s.calls)) := by
  cases ha : a.ends with
  | some q =>
    obtain ⟨h, e, r⟩ := q
    obtain ⟨t, _, _, hcalls, hbegun, _⟩ := step_of_ends ha hstep
    refine .inr ⟨hbegun, ?_⟩
    rw [hcalls]
    unfold State.finish
    split
    · exact .inr ⟨e, _, t.serial, rfl⟩
    · exact .inl rfl
  | none =>
    rcases step_of_not_ends ha hstep with ⟨d, c, _, rfl⟩ | hbegin | ⟨_, hcalls, hbegun, _⟩
    · exact .inr ⟨rfl, .inl rfl⟩
    · exact .inl hbegin
    · exact .inr ⟨hbegun, .inl hcalls⟩

theorem begun_le {D : Driver κ ρ} {s s' : State κ} {a : Act ρ} (hstep : step D s a = some s') :
    s.begun ≤ s'.begun := by
  rcases step_calls hstep with ⟨d, level, r, rfl, rfl⟩ | ⟨hbegun, _⟩
  · exact Nat.le_succ _
  · exact Nat.le_of_eq hbegun.symm

theorem step_ledger (D : Driver κ ρ) (conn : κ) :
    (system D conn).Preserves (fun _ _ => True) Ledger := by
  intro s a s' hl _ hstep
  simp only [system] at hstep
  cases a with
  | connect d r =>
    cases hstep
    exact ⟨hl.owned, hl.below⟩
  | disconnect d =>
    cases hstep
    exact ⟨hl.owned, hl.below⟩
  | beginTransaction d level r =>
    cases hstep
    exact beginTransaction_ledger hl d level r
  | moveConstruct h =>
    obtain ⟨t, hget, rfl⟩ := Option.map_eq_some_iff.mp hstep
    exact moveConstruct_ledger hl hget
  | moveAssign h o r =>
    obtain ⟨t, u, hh, ho, rfl⟩ := exists_of_moveAssign hstep
    exact moveAssign_ledger hl hh ho
  | commit h r =>
    obtain ⟨t, hget, rfl⟩ := Option.map_eq_some_iff.mp hstep
    exact endTransaction_ledger hl hget
  | rollback h r =>
    obtain ⟨t, hget, rfl⟩ := Option.map_eq_some_iff.mp hstep
    exact endTransaction_ledger hl hget
  | destroy h r =>
    obtain ⟨t, hget, rfl⟩ := Option.map_eq_some_iff.mp hstep
    exact hl.finish hget rfl (finish_begun D s .rollback t r) (carries_destroy D)

theorem init_ledger (D : Driver κ ρ) (conn : κ) : Ledger (system D conn).init :=
  ⟨.nil fun h k => by simp [State.Carries, system], fun k hk => by simp [system, State.events] at hk⟩

end StormByteDatabase.Transactions
