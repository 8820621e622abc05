import Mathlib.Tactic.Common
import StormByteDatabase.Lib.Machine
import StormByteDatabase.Lib.Objects

/-!
# The SQLite library counter

`g_sqlite_refcount` is shared by every `SQLite3` object of the process, and every object is used by
one thread. A call of `Connect` or `Disconnect` is therefore cut at the blocks it runs under
`g_sqlite_init_mutex`: each block is one step, and steps of different objects interleave freely.
`Control` says where in such a call an object is; an object destroyed is one whose destructor's
`Disconnect` has returned.

`refcount_eq_open`: if no `DoPostDisconnect` block ever finds a positive counter after a
`Disconnect` that had no handle to close, then between operations the counter is the number of
open handles, and `sqlite3_shutdown` is only called with no handle open.
`shutdown_under_open_connection` is the run that breaks both without it: the destructor of an
object that was never connected.

Proof. `refs` counts the objects that own a unit of the counter: those with an open handle, those
between the two halves of a connect, and those that closed a handle and have not yet run
`DoPostDisconnect`. Every step keeps the counter equal to it (`step_inv`).
-/

namespace StormByteDatabase.Refcount

open Lib

/-- Where an object is between two of its atomic steps. -/
inductive Control
  /-- In no call. -/
  | idle
  /-- In `DoConnect`, past its first locked block and before `sqlite3_open` returns. -/
  | opening
  /-- In `DoConnect`, after a failed `sqlite3_open`, before the locked block that undoes the first. -/
  | openFailed
  /-- In `Disconnect`, before `DoPostDisconnect`; `hadHandle` says whether `DoDisconnect` took its
  branch, `dtor` whether the destructor made the call. -/
  | closed (hadHandle dtor : Bool)
  deriving DecidableEq, Repr

/-- `connected` is `m_connected`, and `database` says whether `m_database` is an open handle. -/
structure SQLite3 where
  connected : Bool := false
  database : Bool := false
  control : Control := .idle
  deriving DecidableEq, Repr

/-- `DoDisconnect` closed an open handle. -/
def Control.hadHandle : Control → Bool
  | .closed hadHandle _ => hadHandle
  | _ => false

structure Process where
  /-- `g_sqlite_refcount`. -/
  sqliteRefcount : Int
  instances : Objects SQLite3
  /-- For each call of `sqlite3_shutdown`, latest first, the number of handles open at the call. -/
  shutdowns : List Nat
  deriving DecidableEq, Repr

/-- The number of objects that hold an open database handle. -/
def Process.openHandles (s : Process) : Nat := s.instances.count (·.database)

/-- No object is inside an operation. -/
def Process.Quiescent (s : Process) : Prop := s.instances.All fun x => x.control = .idle

instance (s : Process) : Decidable s.Quiescent :=
  inferInstanceAs (Decidable (s.instances.All _))

inductive Act
  | construct
  /-- `Connect` up to and including the first locked block; `initOk` is the answer of
  `sqlite3_initialize` should it be called. -/
  | connect (i : Nat) (initOk : Bool)
  /-- `sqlite3_open` returns, and `Connect` does when it succeeded. -/
  | openReturns (i : Nat) (openOk : Bool)
  /-- The locked block after a failed `sqlite3_open`, and the return of `Connect`. -/
  | undoConnect (i : Nat)
  /-- `DoPreDisconnect` and `DoDisconnect`. -/
  | disconnect (i : Nat) (dtor : Bool)
  /-- The locked block of `DoPostDisconnect`, and the return of `Disconnect`. -/
  | postDisconnect (i : Nat)
  deriving DecidableEq, Repr

/-- Store the counter, and call `sqlite3_shutdown` if it reached zero. -/
def Process.shutdownIfZero (s : Process) (refcount : Int) : Process :=
  { s with
    sqliteRefcount := refcount
    shutdowns := if refcount = 0 then s.openHandles :: s.shutdowns else s.shutdowns }

/-- Run `f` on the object `i` if it is where `ok` asks. -/
def Process.at (s : Process) (i : Nat) (ok : Control → Bool) (f : SQLite3 → Process) :
    Option Process :=
  match s.instances.get i with
  | some x => if ok x.control then some (f x) else none
  | none => none

/-- `DoConnect` up to its first locked block, on an object that is in no call. -/
def doConnect (s : Process) (i : Nat) (initOk : Bool) (x : SQLite3) : Process :=
  if x.connected then s
  else if s.sqliteRefcount = 0 ∧ initOk = false then s
  else
    { s with
      sqliteRefcount := s.sqliteRefcount + 1
      instances := s.instances.put i { x with control := .opening } }

/-- `DoConnect` from the return of `sqlite3_open`; the object is connected when it succeeded, and a
failed open leaves no handle. -/
def openReturns (s : Process) (i : Nat) (openOk : Bool) (x : SQLite3) : Process :=
  if openOk then
    { s with instances := s.instances.put i ⟨true, true, .idle⟩ }
  else
    { s with instances := s.instances.put i { x with database := false, control := .openFailed } }

/-- The locked block after a failed open. -/
def undoConnect (s : Process) (i : Nat) (x : SQLite3) : Process :=
  { s with instances := s.instances.put i { x with control := .idle } }.shutdownIfZero
    (s.sqliteRefcount - 1)

def doDisconnect (s : Process) (i : Nat) (dtor : Bool) (x : SQLite3) : Process :=
  { s with
    instances := s.instances.put i { x with database := false, control := .closed x.database dtor } }

/-- `DoPostDisconnect` and the end of `Disconnect`: the object is destroyed when the destructor
made the call. -/
def doPostDisconnect (s : Process) (i : Nat) (x : SQLite3) : Process :=
  let s' : Process :=
    { s with
      instances := match x.control with
        | .closed _ true => s.instances.drop i
        | _ => s.instances.put i { x with connected := false, control := .idle } }
  if s.sqliteRefcount > 0 then s'.shutdownIfZero (s.sqliteRefcount - 1) else s'

def step (s : Process) : Act → Option Process
  | .construct => some { s with instances := s.instances.add {} }
  | .connect i initOk => s.at i (· = .idle) (doConnect s i initOk)
  | .openReturns i openOk => s.at i (· = .opening) (openReturns s i openOk)
  | .undoConnect i => s.at i (· = .openFailed) (undoConnect s i)
  | .disconnect i dtor => s.at i (· = .idle) (doDisconnect s i dtor)
  | .postDisconnect i => s.at i (· matches .closed _ _) (doPostDisconnect s i)

/-- A process that has made no `SQLite3` yet. -/
def system : Machine Process Act := ⟨⟨0, .empty, []⟩, step⟩

theorem at_eq_some {s s' : Process} {i : Nat} {ok : Control → Bool} {f : SQLite3 → Process} :
    s.at i ok f = some s' ↔
      ∃ x, s.instances.get i = some x ∧ ok x.control = true ∧ f x = s' := by
  unfold Process.at
  cases s.instances.get i with
  | none => simp
  | some x => simp

/-! ### The owners of the counter -/

/-- The object owns one unit of the counter. -/
def SQLite3.owns (x : SQLite3) : Bool :=
  x.database || match x.control with
    | .idle => false
    | .opening => true
    | .openFailed => true
    | .closed hadHandle _ => hadHandle

/-- The number of units owned. -/
def Process.refs (s : Process) : Nat := s.instances.count SQLite3.owns

/-- An open handle belongs to an object in no call, and only such an object is connected. -/
def SQLite3.WF (x : SQLite3) : Prop :=
  (x.connected = false → x.database = false) ∧ (x.control ≠ .idle → x.database = false)

structure Inv (s : Process) : Prop where
  wf : ∀ i x, s.instances.get i = some x → x.WF
  counter : s.sqliteRefcount = s.refs
  quiet : ∀ n ∈ s.shutdowns, n = 0

theorem openHandles_le_refs (s : Process) : s.openHandles ≤ s.refs :=
  Objects.count_le_count fun x h => by simp [SQLite3.owns, h]

theorem Inv.refs_eq_open {s : Process} (h : s.Quiescent) : s.refs = s.openHandles := by
  refine Objects.count_congr fun i x hx => ?_
  simp [SQLite3.owns, Objects.all_iff.mp h i x hx]

theorem wf_put {s : Process} {i : Nat} {x y : SQLite3} (h : Inv s)
    (hget : s.instances.get i = some x) (hy : y.WF) :
    ∀ j z, (s.instances.put i y).get j = some z → z.WF := by
  intro j z hz
  rw [Objects.get_put hget] at hz
  split_ifs at hz with hj
  · exact Option.some.inj hz ▸ hy
  · exact h.wf j z hz

/-- Replacing an object moves the counter by the unit the new one owns and the old one gives up. -/
theorem put_inv {s : Process} {i : Nat} {x y : SQLite3} {refcount : Int} (h : Inv s)
    (hget : s.instances.get i = some x) (hy : y.WF)
    (hunit : refcount + (if x.owns then 1 else 0) = s.sqliteRefcount + if y.owns then 1 else 0) :
    Inv { s with sqliteRefcount := refcount, instances := s.instances.put i y } := by
  refine ⟨wf_put h hget hy, ?_, h.quiet⟩
  have hc := Objects.count_put (p := SQLite3.owns) (a := y) hget
  have hcount := h.counter
  simp only [Process.refs] at hcount ⊢
  split_ifs at hunit hc <;> omega

theorem shutdownIfZero_inv {s : Process} {refcount : Int}
    (h : Inv { s with sqliteRefcount := refcount }) : Inv (s.shutdownIfZero refcount) := by
  refine ⟨h.wf, h.counter, ?_⟩
  have hcount : refcount = s.refs := h.counter
  unfold Process.shutdownIfZero
  intro n hn
  dsimp only at hn
  split_ifs at hn with hzero
  · rcases List.mem_cons.mp hn with rfl | hn
    · have := openHandles_le_refs s
      omega
    · exact h.quiet n hn
  · exact h.quiet n hn

/-! ### One step -/

/-- A `DoPostDisconnect` block that finds the counter positive comes from a `Disconnect` that closed
an open handle. -/
def DisconnectOwns (s : Process) : Act → Prop
  | .postDisconnect i =>
    ∀ x ∈ s.instances.get i, s.sqliteRefcount > 0 → x.control.hadHandle = true
  | _ => True

instance (s : Process) (a : Act) : Decidable (DisconnectOwns s a) := by
  unfold DisconnectOwns
  split <;> infer_instance

theorem doConnect_inv {s : Process} {i : Nat} {initOk : Bool} {x : SQLite3} (h : Inv s)
    (hget : s.instances.get i = some x) (hx : x.control = .idle) :
    Inv (doConnect s i initOk x) := by
  unfold doConnect
  split_ifs with hconn hinit
  · exact h
  · exact h
  · have hdb := (h.wf i x hget).1 (by simpa using hconn)
    exact put_inv h hget ⟨fun _ => hdb, fun _ => hdb⟩ (by simp [SQLite3.owns, hx, hdb])

theorem openReturns_inv {s : Process} {i : Nat} {openOk : Bool} {x : SQLite3} (h : Inv s)
    (hget : s.instances.get i = some x) (hx : x.control = .opening) :
    Inv (openReturns s i openOk x) := by
  unfold openReturns
  split_ifs
  · exact put_inv h hget ⟨by simp, by simp⟩ (by simp [SQLite3.owns, hx])
  · exact put_inv h hget ⟨by simp, by simp⟩ (by simp [SQLite3.owns, hx])

theorem undoConnect_inv {s : Process} {i : Nat} {x : SQLite3} (h : Inv s)
    (hget : s.instances.get i = some x) (hx : x.control = .openFailed) :
    Inv (undoConnect s i x) := by
  have hdb := (h.wf i x hget).2 (by simp [hx])
  exact shutdownIfZero_inv (put_inv h hget ⟨fun _ => hdb, fun _ => hdb⟩
    (by simp [SQLite3.owns, hx, hdb]))

theorem doDisconnect_inv {s : Process} {i : Nat} {dtor : Bool} {x : SQLite3} (h : Inv s)
    (hget : s.instances.get i = some x) (hx : x.control = .idle) :
    Inv (doDisconnect s i dtor x) :=
  put_inv h hget ⟨by simp, by simp⟩ (by simp [SQLite3.owns, hx])

/-- The locked block of `DoPostDisconnect` over the table it leaves: the object gives up its unit,
and the counter goes down exactly when it had one. -/
theorem release_inv {s : Process} {i : Nat} {x : SQLite3} {t : Objects SQLite3} (h : Inv s)
    (hget : s.instances.get i = some x) (howns : s.sqliteRefcount > 0 → x.owns = true)
    (hwf : ∀ j z, t.get j = some z → z.WF)
    (hc : t.count SQLite3.owns + (if x.owns then 1 else 0) = s.instances.count SQLite3.owns) :
    Inv (if s.sqliteRefcount > 0 then
      Process.shutdownIfZero { s with instances := t } (s.sqliteRefcount - 1)
      else { s with instances := t }) := by
  have hcount : s.sqliteRefcount = s.instances.count SQLite3.owns := h.counter
  split_ifs with hgt
  · rw [if_pos (howns hgt)] at hc
    refine shutdownIfZero_inv ⟨hwf, ?_, h.quiet⟩
    simp only [Process.refs]
    omega
  · have hno : ¬ x.owns = true := by
      intro hown
      have := Objects.count_pos (p := SQLite3.owns) hget hown
      omega
    rw [if_neg hno] at hc
    refine ⟨hwf, ?_, h.quiet⟩
    simp only [Process.refs]
    omega

theorem doPostDisconnect_inv {s : Process} {i : Nat} {x : SQLite3} {hadHandle dtor : Bool}
    (h : Inv s) (hget : s.instances.get i = some x) (hx : x.control = .closed hadHandle dtor)
    (hhad : s.sqliteRefcount > 0 → x.control.hadHandle = true) : Inv (doPostDisconnect s i x) := by
  have hdb := (h.wf i x hget).2 (by simp [hx])
  have howns : s.sqliteRefcount > 0 → x.owns = true := fun hpos => by
    simpa [SQLite3.owns, hx, hdb, Control.hadHandle] using hhad hpos
  unfold doPostDisconnect
  cases dtor with
  | true =>
    simp only [hx]
    refine release_inv h hget howns (fun j z hz => ?_) (Objects.count_drop hget)
    rw [Objects.get_drop] at hz
    split_ifs at hz
    exact h.wf j z hz
  | false =>
    simp only [hx]
    refine release_inv h hget howns (wf_put h hget ⟨fun _ => hdb, fun _ => hdb⟩) ?_
    have hc := Objects.count_put (p := SQLite3.owns)
      (a := { x with connected := false, control := .idle }) hget
    simpa [SQLite3.owns, hdb] using hc

theorem construct_inv {s : Process} (h : Inv s) :
    Inv { s with instances := s.instances.add {} } := by
  refine ⟨fun j z hz => ?_, ?_, h.quiet⟩
  · rw [Objects.get_add] at hz
    split_ifs at hz
    · exact Option.some.inj hz ▸ ⟨fun _ => rfl, fun _ => rfl⟩
    · exact h.wf j z hz
  · have := h.counter
    simpa [Process.refs, Objects.count_add, SQLite3.owns] using this

theorem step_inv : system.Preserves DisconnectOwns Inv := by
  intro s a s' h hP hstep
  simp only [system] at hstep
  cases a with
  | construct =>
    simp only [step, Option.some.injEq] at hstep
    exact hstep ▸ construct_inv h
  | connect i initOk =>
    simp only [step, at_eq_some] at hstep
    obtain ⟨x, hget, hx, rfl⟩ := hstep
    exact doConnect_inv h hget (by simpa using hx)
  | openReturns i openOk =>
    simp only [step, at_eq_some] at hstep
    obtain ⟨x, hget, hx, rfl⟩ := hstep
    exact openReturns_inv h hget (by simpa using hx)
  | undoConnect i =>
    simp only [step, at_eq_some] at hstep
    obtain ⟨x, hget, hx, rfl⟩ := hstep
    exact undoConnect_inv h hget (by simpa using hx)
  | disconnect i dtor =>
    simp only [step, at_eq_some] at hstep
    obtain ⟨x, hget, hx, rfl⟩ := hstep
    exact doDisconnect_inv h hget (by simpa using hx)
  | postDisconnect i =>
    simp only [step, at_eq_some] at hstep
    obtain ⟨x, hget, hx, rfl⟩ := hstep
    cases hc : x.control with
    | closed hadHandle dtor => exact doPostDisconnect_inv h hget hc (hP x hget)
    | idle => simp [hc] at hx
    | opening => simp [hc] at hx
    | openFailed => simp [hc] at hx

theorem init_inv : Inv system.init :=
  ⟨fun i x hx => by simp [system] at hx, rfl, fun n hn => by simp [system] at hn⟩

/-! ### Whole runs -/

/-- The counter is exact between operations, and the library was only shut down with no handle
open. -/
def RefcountExact (s : Process) : Prop :=
  (s.Quiescent → s.sqliteRefcount = s.openHandles) ∧ ∀ n ∈ s.shutdowns, n = 0

instance (s : Process) : Decidable (RefcountExact s) :=
  inferInstanceAs (Decidable (_ ∧ _))

/-- **The counter counts the open connections** in every state reached by a run in which only a
`Disconnect` that closed a handle takes the library counter down. -/
theorem refcount_eq_open (as : List Act) (s : Process) (hrun : system.run as = some s)
    (howns : system.Meets DisconnectOwns as) : RefcountExact s := by
  have h : Inv s := Machine.invariant_of_meets init_inv step_inv howns hrun
  refine ⟨fun hq => ?_, h.quiet⟩
  rw [h.counter, Inv.refs_eq_open hq]

/-- Two objects connect; one open fails and is retried; both disconnect, one by its destructor. -/
theorem refcount_eq_open_two :
    RefcountExact ⟨0, ⟨[some {}, none]⟩, [0]⟩ :=
  refcount_eq_open
    [.construct, .construct, .connect 0 true, .connect 1 true, .openReturns 0 false,
      .openReturns 1 true, .undoConnect 0, .connect 0 true, .openReturns 0 true,
      .disconnect 1 true, .postDisconnect 1, .disconnect 0 false, .postDisconnect 0]
    _ (by decide) (by decide)

/-- The destructor of an object that was never connected shuts the library down under the open
connection of another. -/
theorem shutdown_under_open_connection :
    ¬ ∀ (as : List Act) (s : Process), system.run as = some s → RefcountExact s := by
  intro h
  have hbad := h
    [.construct, .connect 0 true, .openReturns 0 true, .construct, .disconnect 1 true,
      .postDisconnect 1]
    ⟨0, ⟨[some ⟨true, true, .idle⟩, none]⟩, [1]⟩ (by decide)
  exact absurd hbad (by decide)

end StormByteDatabase.Refcount
