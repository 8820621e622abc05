import StormByteDatabase.Lib.Machine
import StormByteDatabase.Lib.Objects
import StormByteDatabase.Lib.Ownership
import StormByteDatabase.Typedefs

/-!
# Who owns a native connection handle

The move constructor and the move assignment of the three backends are defaulted, so they copy the
raw handle and `m_connected`, and every destructor disconnects. `handles_owned_once`: over any
number of objects, each opened handle has one holder, is closed once and is not touched afterwards,
in every run that moves an object only while it holds no handle and never moves onto one that does.
`moved_handle_closed_twice` is the run of one move that closes a handle twice.

Proof. The holders and the calls of the native library form a ledger (`Lib.Owned`). An object that
is not connected holds no handle, so no call of `DoConnect` overwrites one; with that each
operation is one of the rules of the ledger.
-/

namespace StormByteDatabase.HandleOwnership

open Lib

/-- The members that decide about the handle: `connected` is `m_connected`, `conn` is `m_database`
or `m_conn` (`none` is the null pointer), and `logger` says whether `m_logger` is set. -/
structure Database where
  backend : Backend
  connected : Bool
  conn : Option Nat
  logger : Bool
  deriving DecidableEq, Repr

/-- What the native library answers to a connect: `noHandle` is a library that could not be
initialised or gave no handle at all, `refused` a handle whose connection failed and which
`DoConnect` closes itself. -/
inductive ConnectAnswer
  | connected
  | noHandle
  | refused
  deriving DecidableEq, Repr

structure World where
  instances : Objects Database
  /-- The next handle of the native library. -/
  nextHandle : Nat
  /-- The calls of the native library on handles of successful connects, latest first. -/
  calls : List (Event Nat)
  deriving DecidableEq, Repr

inductive Act
  | construct (backend : Backend) (logger : Bool)
  | connect (i : Nat) (answer : ConnectAnswer)
  | query (i : Nat)
  | disconnect (i : Nat)
  | moveConstruct (i : Nat)
  /-- Object `i` is assigned from object `j`. -/
  | moveAssign (i j : Nat)
  | destroy (i : Nat)
  deriving DecidableEq, Repr

/-- The calls on a fresh handle: SQLite sets the busy timeout, and PostgreSQL the notice processor
when there is a logger. -/
def setupCalls (x : Database) (h : Nat) : List (Event Nat) :=
  match x.backend with
  | .sqlite3 => [.used h]
  | .mariaDB => []
  | .postgres => if x.logger then [.used h] else []

/-- `Connect` of the object `i`. -/
def connect (w : World) (i : Nat) (answer : ConnectAnswer) (x : Database) : World :=
  if x.connected then w
  else
    match answer with
    | .connected =>
      { instances := w.instances.put i { x with connected := true, conn := some w.nextHandle }
        nextHandle := w.nextHandle + 1
        calls := setupCalls x w.nextHandle ++ .opened w.nextHandle :: w.calls }
    | .noHandle => w
    | .refused => { w with instances := w.instances.put i { x with conn := none } }

/-- `Query`: SQLite asks for `m_connected` only, the others for the handle too; a null handle is
never one that was opened. -/
def query (w : World) (x : Database) : World :=
  match x.connected, x.conn with
  | true, some h => { w with calls := .used h :: w.calls }
  | _, _ => w

/-- `DoDisconnect` closes a handle that is not null. -/
def closeHandle (calls : List (Event Nat)) : Option Nat → List (Event Nat)
  | some h => .closed h :: calls
  | none => calls

def disconnect (w : World) (i : Nat) (x : Database) : World :=
  { w with
    instances := w.instances.put i { x with connected := false, conn := none }
    calls := closeHandle w.calls x.conn }

/-- The defaulted move constructor: the handle and `m_connected` are copied, the logger leaves the
source. -/
def moveConstruct (w : World) (i : Nat) (x : Database) : World :=
  { w with instances := (w.instances.put i { x with logger := false }).add x }

/-- The defaulted move assignment of two different objects. -/
def moveAssign (w : World) (i j : Nat) (x y : Database) : World :=
  if i = j then w
  else
    { w with
      instances := (w.instances.put j { y with logger := false }).put i
        { x with connected := y.connected, conn := y.conn, logger := y.logger } }

/-- The destructor: `Disconnect`, then the object is gone. -/
def destroy (w : World) (i : Nat) (x : Database) : World :=
  { w with instances := w.instances.drop i, calls := closeHandle w.calls x.conn }

def step (w : World) : Act → Option World
  | .construct backend logger =>
    some { w with instances := w.instances.add ⟨backend, false, none, logger⟩ }
  | .connect i answer => (w.instances.get i).map (connect w i answer)
  | .query i => (w.instances.get i).map (query w)
  | .disconnect i => (w.instances.get i).map (disconnect w i)
  | .moveConstruct i => (w.instances.get i).map (moveConstruct w i)
  | .moveAssign i j =>
    match w.instances.get i, w.instances.get j with
    | some x, some y => if x.backend = y.backend then some (moveAssign w i j x y) else none
    | _, _ => none
  | .destroy i => (w.instances.get i).map (destroy w i)

def system : Machine World Act := ⟨⟨.empty, 0, []⟩, step⟩

/-- The object `i` refers to the handle `h`. -/
def World.Holds (w : World) (i h : Nat) : Prop :=
  ∃ x, w.instances.get i = some x ∧ x.conn = some h

/-! ### The ledger of handles -/

structure Inv (w : World) : Prop where
  owned : Owned w.Holds w.calls
  below : ∀ h, .opened h ∈ w.calls → h < w.nextHandle
  linked : ∀ i x, w.instances.get i = some x → x.connected = false → x.conn = none

/-- Only objects without a handle are moved from or assigned to. -/
def MovesNoHandle (w : World) : Act → Prop
  | .moveConstruct i => ∀ x ∈ w.instances.get i, x.conn = none
  | .moveAssign i j =>
    i ≠ j → (∀ x ∈ w.instances.get i, x.conn = none) ∧ ∀ y ∈ w.instances.get j, y.conn = none
  | _ => True

instance (w : World) (a : Act) : Decidable (MovesNoHandle w a) := by
  unfold MovesNoHandle
  split <;> infer_instance

theorem holds_put {w w' : World} {i : Nat} {x y : Database} (hget : w.instances.get i = some x)
    (hw : w'.instances = w.instances.put i y) (j h : Nat) :
    w'.Holds j h ↔ if j = i then y.conn = some h else w.Holds j h := by
  unfold World.Holds
  rw [hw, Objects.get_put hget]
  split_ifs <;> simp

theorem holds_self {w : World} {i : Nat} {x : Database} (hget : w.instances.get i = some x)
    (h : Nat) : w.Holds i h ↔ x.conn = some h := by
  unfold World.Holds
  simp [hget]

theorem holds_put_same {w w' : World} {i : Nat} {x y : Database}
    (hget : w.instances.get i = some x) (hw : w'.instances = w.instances.put i y)
    (hconn : y.conn = x.conn) (j h : Nat) : w'.Holds j h ↔ w.Holds j h := by
  rw [holds_put hget hw]
  split_ifs with hj
  · rw [hj, holds_self hget, hconn]
  · exact Iff.rfl

theorem holds_add {w w' : World} {y : Database} (hw : w'.instances = w.instances.add y)
    (hconn : y.conn = none) (j h : Nat) : w'.Holds j h ↔ w.Holds j h := by
  unfold World.Holds
  rw [hw, Objects.get_add]
  split_ifs with hj
  · subst hj
    have hnone : w.instances.get w.instances.size = none := by
      cases hg : w.instances.get w.instances.size with
      | none => rfl
      | some x => exact absurd rfl (Objects.ne_size_of_get hg)
    simp [hconn, hnone]
  · exact Iff.rfl

theorem linked_put {w : World} {i : Nat} {x y : Database} (h : Inv w)
    (hget : w.instances.get i = some x) (hy : y.connected = false → y.conn = none) :
    ∀ j z, (w.instances.put i y).get j = some z → z.connected = false → z.conn = none := by
  intro j z hz
  rw [Objects.get_put hget] at hz
  split_ifs at hz
  · exact Option.some.inj hz ▸ hy
  · exact h.linked j z hz

theorem linked_add {w : World} {y : Database} (h : Inv w)
    (hy : y.connected = false → y.conn = none) :
    ∀ j z, (w.instances.add y).get j = some z → z.connected = false → z.conn = none := by
  intro j z hz
  rw [Objects.get_add] at hz
  split_ifs at hz
  · exact Option.some.inj hz ▸ hy
  · exact h.linked j z hz

/-! ### One step -/

/-- Closing the handle of `i`, if any, when the new holders are the old ones without `i`. -/
theorem closeHandle_owned {w : World} {i : Nat} {x : Database} {owns : Nat → Nat → Prop}
    (h : Inv w) (hget : w.instances.get i = some x)
    (howns : ∀ j r, owns j r ↔ w.Holds j r ∧ j ≠ i) :
    Owned owns (closeHandle w.calls x.conn) := by
  cases hc : x.conn with
  | none =>
    refine h.owned.congr fun j r => ?_
    rw [howns]
    refine ⟨fun hj => hj.1, fun hj => ⟨hj, ?_⟩⟩
    rintro rfl
    rw [holds_self hget, hc] at hj
    cases hj
  | some hd =>
    have hi : w.Holds i hd := (holds_self hget hd).mpr hc
    refine h.owned.releaseAll hi (fun r hr => ?_) howns
    rw [holds_self hget, hc] at hr
    exact (Option.some.inj hr).symm

theorem setupCalls_cases (x : Database) (h : Nat) :
    setupCalls x h = [] ∨ setupCalls x h = [.used h] := by
  unfold setupCalls
  split
  · exact .inr rfl
  · exact .inl rfl
  · split_ifs
    · exact .inr rfl
    · exact .inl rfl

theorem opened_closeHandle {calls : List (Event Nat)} {c : Option Nat} {h : Nat} :
    .opened h ∈ closeHandle calls c ↔ .opened h ∈ calls := by
  cases c <;> simp [closeHandle]

theorem connect_inv {w : World} {i : Nat} {answer : ConnectAnswer} {x : Database} (h : Inv w)
    (hget : w.instances.get i = some x) : Inv (connect w i answer x) := by
  unfold connect
  split_ifs with hconn
  · exact h
  have hnone : x.conn = none := h.linked i x hget (by simpa using hconn)
  cases answer with
  | noHandle => exact h
  | refused =>
    exact ⟨h.owned.congr (holds_put_same hget rfl hnone.symm), h.below,
      linked_put h hget fun _ => rfl⟩
  | connected =>
    have hfresh : .opened w.nextHandle ∉ w.calls := fun hm => Nat.lt_irrefl _ (h.below _ hm)
    let w' : World :=
      ⟨w.instances.put i { x with connected := true, conn := some w.nextHandle },
        w.nextHandle + 1, .opened w.nextHandle :: w.calls⟩
    have hw' : ∀ j r, w'.Holds j r ↔ w.Holds j r ∨ (j = i ∧ r = w.nextHandle) := by
      intro j r
      rw [holds_put hget (rfl : w'.instances = _)]
      split_ifs with hj
      · subst hj
        simp [holds_self hget, hnone, eq_comm]
      · simp [hj]
    have hacq : Owned w'.Holds w'.calls := h.owned.acquire hfresh hw'
    have hi : w'.Holds i w.nextHandle := (hw' i _).mpr (.inr ⟨rfl, rfl⟩)
    have hbelow : ∀ r, .opened r ∈ w'.calls → r < w.nextHandle + 1 := by
      intro r hr
      rcases List.mem_cons.mp hr with heq | hr
      · cases heq
        exact Nat.lt_succ_self _
      · exact Nat.lt_succ_of_lt (h.below r hr)
    have hlinked := linked_put (y := { x with connected := true, conn := some w.nextHandle })
      h hget (fun hf => absurd hf (by simp))
    rcases setupCalls_cases x w.nextHandle with hs | hs <;>
      simp only [hs, List.nil_append, List.singleton_append]
    · exact ⟨hacq, hbelow, hlinked⟩
    · exact ⟨hacq.use hi, fun r hr => hbelow r (by simpa [w'] using hr), hlinked⟩

theorem query_inv {w : World} {i : Nat} {x : Database} (h : Inv w)
    (hget : w.instances.get i = some x) : Inv (query w x) := by
  unfold query
  split
  · rename_i hd _ hc
    refine ⟨h.owned.use ((holds_self hget hd).mpr hc), fun r hr => ?_, h.linked⟩
    exact h.below r (by simpa using hr)
  · exact h

theorem disconnect_inv {w : World} {i : Nat} {x : Database} (h : Inv w)
    (hget : w.instances.get i = some x) : Inv (disconnect w i x) := by
  refine ⟨closeHandle_owned h hget fun j r => ?_,
    fun r hr => h.below r (opened_closeHandle.mp hr), linked_put h hget fun _ => rfl⟩
  rw [holds_put hget rfl]
  split_ifs with hj
  · simp [hj]
  · simp [hj]

theorem destroy_inv {w : World} {i : Nat} {x : Database} (h : Inv w)
    (hget : w.instances.get i = some x) : Inv (destroy w i x) := by
  refine ⟨closeHandle_owned h hget fun j r => ?_,
    fun r hr => h.below r (opened_closeHandle.mp hr), fun j z hz => ?_⟩
  · unfold World.Holds destroy
    rw [Objects.get_drop]
    split_ifs with hj
    · simp [hj]
    · simp [hj]
  · simp only [destroy, Objects.get_drop] at hz
    split_ifs at hz
    exact h.linked j z hz

theorem construct_inv {w : World} {y : Database} (h : Inv w) (hy : y.conn = none) :
    Inv { w with instances := w.instances.add y } :=
  ⟨h.owned.congr (holds_add rfl hy), h.below, linked_add h fun _ => hy⟩

theorem put_inv {w : World} {i : Nat} {x y : Database} (h : Inv w)
    (hget : w.instances.get i = some x) (hconn : y.conn = x.conn)
    (hy : y.connected = false → y.conn = none) :
    Inv { w with instances := w.instances.put i y } :=
  ⟨h.owned.congr (holds_put_same hget rfl hconn), h.below, linked_put h hget hy⟩

theorem moveConstruct_inv {w : World} {i : Nat} {x : Database} (h : Inv w)
    (hget : w.instances.get i = some x) (hx : x.conn = none) : Inv (moveConstruct w i x) :=
  construct_inv (put_inv h hget (y := { x with logger := false }) rfl fun _ => hx) hx

theorem moveAssign_inv {w : World} {i j : Nat} {x y : Database} (h : Inv w)
    (hi : w.instances.get i = some x) (hj : w.instances.get j = some y)
    (hnone : i ≠ j → x.conn = none ∧ y.conn = none) : Inv (moveAssign w i j x y) := by
  unfold moveAssign
  split_ifs with hij
  · exact h
  obtain ⟨hx, hy⟩ := hnone hij
  have h1 := put_inv h hj (y := { y with logger := false }) rfl fun _ => hy
  refine put_inv h1 (x := x) ?_ (hy.trans hx.symm) fun _ => hy
  simp only [Objects.get_put hj, if_neg hij, hi]

theorem step_inv : system.Preserves MovesNoHandle Inv := by
  intro w a w' h hP hstep
  simp only [system] at hstep
  cases a with
  | construct backend logger =>
    simp only [step, Option.some.injEq] at hstep
    exact hstep ▸ construct_inv h rfl
  | connect i answer =>
    obtain ⟨x, hget, rfl⟩ := Option.map_eq_some_iff.mp hstep
    exact connect_inv h hget
  | query i =>
    obtain ⟨x, hget, rfl⟩ := Option.map_eq_some_iff.mp hstep
    exact query_inv h hget
  | disconnect i =>
    obtain ⟨x, hget, rfl⟩ := Option.map_eq_some_iff.mp hstep
    exact disconnect_inv h hget
  | moveConstruct i =>
    obtain ⟨x, hget, rfl⟩ := Option.map_eq_some_iff.mp hstep
    exact moveConstruct_inv h hget (hP x hget)
  | moveAssign i j =>
    simp only [step] at hstep
    split at hstep
    · rename_i x y hi hj
      split_ifs at hstep
      rw [← Option.some.inj hstep]
      exact moveAssign_inv h hi hj fun hij => ⟨(hP hij).1 x hi, (hP hij).2 y hj⟩
    · cases hstep
  | destroy i =>
    obtain ⟨x, hget, rfl⟩ := Option.map_eq_some_iff.mp hstep
    exact destroy_inv h hget

theorem init_inv : Inv system.init :=
  ⟨.nil fun i r => by simp [World.Holds, system], fun r hr => by simp [system] at hr,
    fun i x hx => by simp [system] at hx⟩

/-! ### Whole runs -/

/-- Each opened handle has one holder at most, nothing touches it after its close, and it has been
closed exactly once when every object is gone. -/
structure HandlesOwnedOnce (w : World) : Prop where
  exclusive : ∀ i j h, w.Holds i h → w.Holds j h → i = j
  untouched : Ordered w.calls
  closedOnce : w.instances.All (fun _ => False) →
    ∀ h, .opened h ∈ w.calls → w.calls.count (.closed h) = 1

/-- **Handles are owned once** in every state reached by a run that moves no object which holds a
handle, and assigns to none. -/
theorem handles_owned_once (as : List Act) (w : World) (hrun : system.run as = some w)
    (hmoves : system.Meets MovesNoHandle as) : HandlesOwnedOnce w := by
  have h : Inv w := Machine.invariant_of_meets init_inv step_inv hmoves hrun
  refine ⟨h.owned.exclusive, h.owned.ordered, fun hall r hr => ?_⟩
  refine h.owned.count_closed (fun i s hi => ?_) hr
  obtain ⟨x, hget, _⟩ := hi
  exact Objects.all_iff.mp hall i x hget

/-- An object is moved before it connects; the new one connects, is queried and destroyed. -/
theorem handles_owned_once_move :
    HandlesOwnedOnce ⟨⟨[none, none]⟩, 1, [.closed 0, .used 0, .used 0, .opened 0]⟩ :=
  handles_owned_once
    [.construct .sqlite3 true, .moveConstruct 0, .connect 1 .connected, .query 1, .disconnect 1,
      .destroy 1, .destroy 0]
    _ (by decide) (by decide)

/-- Moving a connected object and destroying both closes its handle twice. -/
theorem moved_handle_closed_twice :
    ¬ ∀ (as : List Act) (w : World), system.run as = some w → HandlesOwnedOnce w := by
  intro h
  have hbad := h
    [.construct .sqlite3 false, .connect 0 .connected, .moveConstruct 0, .destroy 1, .destroy 0]
    ⟨⟨[none, none]⟩, 1, [.closed 0, .closed 0, .used 0, .opened 0]⟩ (by decide)
  exact absurd hbad.untouched (by decide)

end StormByteDatabase.HandleOwnership
