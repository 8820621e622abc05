import StormByteDatabase.Database.Transaction

/-!
# One terminator for each transaction

`CommitTransaction` and `RollbackTransaction` are the terminators of a transaction.
`one_terminator`: over any number of handles and databases, the terminators called on a database and
the active handles that refer to it together are as many as the `BeginTransaction` calls on it; a
transaction has at most one active handle; a handle that was moved from or finished calls nothing
until it is assigned to; and once all handles are gone every transaction has one terminator, which is
`CommitTransaction` exactly when `Commit` was called on the active handle that carried it.

Proof. The ledger of `Transactions` gives the handle of each transaction. The balance of calls and
active handles is kept by each of the seven operations. What a handle carries after a step it did not
release in that step, and carried before or was given (`carries_of_step`). A `CommitTransaction` is
added by exactly the steps that call `Commit` on an active handle.
-/

namespace StormByteDatabase.Transactions

open Lib

variable {κ ρ : Type*}

/-- A `BeginTransaction` on the database. -/
def Call.begins (d : Nat) : Call κ → Bool
  | .began d' _ _ _ => d' = d
  | .ended _ _ _ _ => false

/-- A terminator on the database. -/
def Call.terminates (d : Nat) : Call κ → Bool
  | .began _ _ _ _ => false
  | .ended _ d' _ _ => d' = d

def State.begins (s : State κ) (d : Nat) : Nat := s.calls.countP (Call.begins d)

def State.terminators (s : State κ) (d : Nat) : Nat := s.calls.countP (Call.terminates d)

/-- The active handles that refer to the database. -/
def State.active (s : State κ) (d : Nat) : Nat := s.handles.count fun t => t.live = some d

/-- The step moves the transaction of `h` away or finishes it. -/
def Act.releases (h : Nat) : Act ρ → Prop
  | .moveConstruct h' => h' = h
  | .moveAssign h' o _ => o = h ∧ h' ≠ h
  | .commit h' _ => h' = h
  | .rollback h' _ => h' = h
  | .destroy h' _ => h' = h
  | _ => False

/-- The step makes the handle `h` call a terminator. -/
def Issues (D : Driver κ ρ) (h : Nat) (s : State κ) (a : Act ρ) : Prop :=
  (∃ e r, a.ends = some (h, e, r)) ∧ ∃ s' ∈ step D s a, s'.calls ≠ s.calls

/-- `Commit` is called on the active handle that carries the transaction. -/
def Commits (k : Nat × Nat) (s : State κ) (a : Act ρ) : Prop :=
  ∃ h r, a = .commit h r ∧ s.Carries h k

/-- What holds after the run `as`, which leads to `s`. -/
structure OneTerminator (D : Driver κ ρ) (conn : κ) (as : List (Act ρ)) (s : State κ) : Prop where
  balance : ∀ d, s.terminators d + s.active d = s.begins d
  exclusive : ∀ k h h', s.Carries h k → s.Carries h' k → h = h'
  /-- A moved-from or finished handle is not active. -/
  released : ∀ a s' h, step D s a = some s' → a.releases h → ∀ k, ¬ s'.Carries h k
  /-- A handle that is not active calls no terminator in any run that does not assign another to it. -/
  silent : ∀ h < s.handles.size, (∀ k, ¬ s.Carries h k) →
    ∀ bs, (∀ o r, o ≠ h → .moveAssign h o r ∉ bs) →
    (system D conn).MeetsFrom (fun u a => ¬ Issues D h u a) s bs
  once : (∀ h, s.handles.get h = none) → ∀ k, .opened k ∈ s.events → s.events.count (.closed k) = 1
  committed : ∀ k, (∃ c, Call.ended .commit k.1 k.2 c ∈ s.calls) ↔
    (system D conn).Occurs (Commits k) as

/-! ### The balance -/

variable {D : Driver κ ρ} {s s' : State κ} {h o : Nat} {r : ρ} {e : Ending} {t u : Transaction}

def Balanced (s : State κ) : Prop := ∀ d, s.terminators d + s.active d = s.begins d

theorem terminators_finish (d : Nat) :
    (s.finish D e t r).terminators d = s.terminators d + if t.live = some d then 1 else 0 := by
  unfold State.finish
  cases hlive : t.live with
  | none => simp
  | some d' => simp [State.terminators, State.endOn, Call.terminates, List.countP_cons]

theorem begins_finish (d : Nat) : (s.finish D e t r).begins d = s.begins d := by
  unfold State.finish
  cases hlive : t.live with
  | none => rfl
  | some d' => simp [State.begins, State.endOn, Call.begins]

/-- The call of a handle keeps the balance if afterwards that handle is not counted any more. -/
theorem balanced_finish (hs : Balanced s)
    (hcalls : s'.calls = (s.finish D e t r).calls)
    (hactive : ∀ d, s'.active d + (if t.live = some d then 1 else 0) = s.active d) :
    Balanced s' := by
  intro d
  have hends : s'.terminators d = s.terminators d + if t.live = some d then 1 else 0 := by
    rw [← terminators_finish (D := D) (e := e) (r := r)]
    exact congrArg (List.countP (Call.terminates d)) hcalls
  have hbegins : s'.begins d = s.begins d := by
    rw [← begins_finish (D := D) (s := s) (e := e) (t := t) (r := r)]
    exact congrArg (List.countP (Call.begins d)) hcalls
  have hbefore := hs d
  have hafter := hactive d
  omega

theorem active_put (s' : State κ) (hget : s.handles.get h = some t)
    (hs : s'.handles = s.handles.put h u) (d : Nat) :
    s'.active d + (if t.live = some d then 1 else 0) =
      s.active d + if u.live = some d then 1 else 0 := by
  have hcount := Objects.count_put (p := fun t : Transaction => t.live = some d) (a := u) hget
  simp only [decide_eq_true_eq] at hcount
  unfold State.active
  rw [hs]
  exact hcount

theorem active_drop (hget : s.handles.get h = some t) (hs : s'.handles = s.handles.drop h) (d : Nat) :
    s'.active d + (if t.live = some d then 1 else 0) = s.active d := by
  have hcount := Objects.count_drop (p := fun t : Transaction => t.live = some d) hget
  simp only [decide_eq_true_eq] at hcount
  unfold State.active
  rw [hs]
  exact hcount

theorem active_add (s' : State κ) (hs : s'.handles = s.handles.add u) (d : Nat) :
    s'.active d = s.active d + if u.live = some d then 1 else 0 := by
  have hcount := Objects.count_add (t := s.handles) (a := u)
    (p := fun t : Transaction => t.live = some d)
  simp only [decide_eq_true_eq] at hcount
  unfold State.active
  rw [hs]
  exact hcount

theorem balanced_endTransaction (hs : Balanced s) (hget : s.handles.get h = some t) :
    Balanced (endTransaction D s e h r t) := by
  refine balanced_finish hs (endTransaction_calls D s e h r t).1 fun d => ?_
  cases hlive : t.live with
  | none => simp [endTransaction, hlive]
  | some d' =>
    have hput := active_put (endTransaction D s e h r t) (u := { t with active := false }) hget
      (by simp [endTransaction, hlive]) d
    rw [hlive] at hput
    simpa [Transaction.live] using hput

theorem balanced_destroy (hs : Balanced s) (hget : s.handles.get h = some t) :
    Balanced (destroy D s h r t) :=
  balanced_finish hs rfl (active_drop hget rfl)

theorem balanced_begin (hs : Balanced s) (d : Nat) (level : IsolationLevel) :
    Balanced (beginTransaction D s d level r) := by
  intro d'
  have hbefore := hs d'
  have hactive : (beginTransaction D s d level r).active d' =
      s.active d' + if some d = some d' then 1 else 0 :=
    active_add _ (u := ⟨some d, true, s.begun⟩) rfl d'
  have hbegins : (beginTransaction D s d level r).begins d' =
      s.begins d' + if some d = some d' then 1 else 0 := by
    simp [State.begins, beginTransaction, Call.begins, List.countP_cons]
  have hends : (beginTransaction D s d level r).terminators d' = s.terminators d' := by
    simp [State.terminators, beginTransaction, Call.terminates]
  omega

theorem balanced_moveConstruct (hs : Balanced s) (hget : s.handles.get h = some t) :
    Balanced (moveConstruct s h t) := by
  intro d
  have hbefore := hs d
  have hreleased := active_put { s with handles := s.handles.put h t.released } hget rfl d
  have hadded := active_add (moveConstruct s h t)
    (s := { s with handles := s.handles.put h t.released }) (u := t) rfl d
  simp only [live_released, reduceCtorEq, if_false] at hreleased
  show s.terminators d + (moveConstruct s h t).active d = s.begins d
  omega

theorem balanced_moveAssign (hs : Balanced s) (hh : s.handles.get h = some t)
    (ho : s.handles.get o = some u) : Balanced (moveAssign D s h o r t u) := by
  by_cases hne : h = o
  · simpa [moveAssign, hne] using hs
  · have hcalls : (moveAssign D s h o r t u).calls = (s.finish D .rollback t r).calls := by
      simp [moveAssign, hne]
    refine balanced_finish hs hcalls fun d => ?_
    have hget : (s.handles.put h u).get o = some u := by
      rw [Objects.get_put hh, if_neg (Ne.symm hne), ho]
    -- the transaction of `o` is counted at `h` before it is released at `o`
    have hfirst := active_put { s with handles := s.handles.put h u } hh rfl d
    have hsecond := active_put (moveAssign D s h o r t u)
      (s := { s with handles := s.handles.put h u }) (u := u.released) hget
      (by simp [moveAssign, hne]) d
    simp only [live_released, reduceCtorEq, if_false] at hsecond
    omega

theorem step_balanced (D : Driver κ ρ) (conn : κ) :
    (system D conn).Preserves (fun _ _ => True) Balanced := by
  intro s a s' hs _ hstep
  simp only [system] at hstep
  cases a with
  | connect d r =>
    cases hstep
    exact hs
  | disconnect d =>
    cases hstep
    exact hs
  | beginTransaction d level r =>
    cases hstep
    exact balanced_begin hs d level
  | moveConstruct h =>
    obtain ⟨t, hget, rfl⟩ := Option.map_eq_some_iff.mp hstep
    exact balanced_moveConstruct hs hget
  | moveAssign h o r =>
    obtain ⟨t, u, hh, ho, rfl⟩ := exists_of_moveAssign hstep
    exact balanced_moveAssign hs hh ho
  | commit h r =>
    obtain ⟨t, hget, rfl⟩ := Option.map_eq_some_iff.mp hstep
    exact balanced_endTransaction hs hget
  | rollback h r =>
    obtain ⟨t, hget, rfl⟩ := Option.map_eq_some_iff.mp hstep
    exact balanced_endTransaction hs hget
  | destroy h r =>
    obtain ⟨t, hget, rfl⟩ := Option.map_eq_some_iff.mp hstep
    exact balanced_destroy hs hget

/-! ### Handles that are not active -/

/-- The step makes `h` carry a transaction that it did not carry. -/
def Act.gives (s : State κ) (h : Nat) : Act ρ → Prop
  | .beginTransaction _ _ _ => h = s.handles.size
  | .moveConstruct _ => h = s.handles.size
  | .moveAssign h' o _ => h' = h ∧ o ≠ h
  | _ => False

theorem carries_of_step {a : Act ρ} {k : Nat × Nat} (hstep : step D s a = some s')
    (hcarries : s'.Carries h k) : ¬ a.releases h ∧ (s.Carries h k ∨ a.gives s h) := by
  cases a with
  | connect d r =>
    cases hstep
    exact ⟨id, .inl hcarries⟩
  | disconnect d =>
    cases hstep
    exact ⟨id, .inl hcarries⟩
  | beginTransaction d level r =>
    cases hstep
    rw [carries_add (u := ⟨some d, true, s.begun⟩) rfl] at hcarries
    exact ⟨id, hcarries.imp_right fun hlast => hlast.1⟩
  | moveConstruct h' =>
    obtain ⟨t, hget, rfl⟩ := Option.map_eq_some_iff.mp hstep
    rcases (carries_moveConstruct hget h k).mp hcarries with ⟨hold, hne⟩ | ⟨hlast, _⟩
    · exact ⟨fun heq => hne heq.symm, .inl hold⟩
    · exact ⟨fun heq => Objects.ne_size_of_get hget (heq.trans hlast), .inr hlast⟩
  | moveAssign h' o r =>
    obtain ⟨t, u, hh, ho, rfl⟩ := exists_of_moveAssign hstep
    by_cases hne : h' = o
    · -- a handle assigned to itself stays as it is
      have hsame : moveAssign D s h' o r t u = s := if_pos hne
      rw [hsame] at hcarries
      exact ⟨fun hreleases => hreleases.2 (hne.trans hreleases.1), .inl hcarries⟩
    · rcases (carries_moveAssign D hh ho hne h k).mp hcarries with ⟨hold, _, ho'⟩ | ⟨rfl, _⟩
      · exact ⟨fun hreleases => ho' hreleases.1.symm, .inl hold⟩
      · exact ⟨fun hreleases => hreleases.2 rfl, .inr ⟨rfl, Ne.symm hne⟩⟩
  | commit h' r =>
    obtain ⟨t, hget, rfl⟩ := Option.map_eq_some_iff.mp hstep
    obtain ⟨hold, hne⟩ := (carries_endTransaction D hget h k).mp hcarries
    exact ⟨fun heq => hne heq.symm, .inl hold⟩
  | rollback h' r =>
    obtain ⟨t, hget, rfl⟩ := Option.map_eq_some_iff.mp hstep
    obtain ⟨hold, hne⟩ := (carries_endTransaction D hget h k).mp hcarries
    exact ⟨fun heq => hne heq.symm, .inl hold⟩
  | destroy h' r =>
    obtain ⟨t, hget, rfl⟩ := Option.map_eq_some_iff.mp hstep
    obtain ⟨hold, hne⟩ := (carries_destroy D h k).mp hcarries
    exact ⟨fun heq => hne heq.symm, .inl hold⟩

theorem size_le_of_step {a : Act ρ} (hstep : step D s a = some s') :
    s.handles.size ≤ s'.handles.size := by
  cases a with
  | connect d r =>
    cases hstep
    exact Nat.le_refl _
  | disconnect d =>
    cases hstep
    exact Nat.le_refl _
  | beginTransaction d level r =>
    cases hstep
    simp [beginTransaction, Objects.add, Objects.size]
  | moveConstruct h =>
    obtain ⟨t, hget, rfl⟩ := Option.map_eq_some_iff.mp hstep
    simp [moveConstruct, Objects.add, Objects.put, Objects.size]
  | moveAssign h o r =>
    obtain ⟨t, u, _, _, rfl⟩ := exists_of_moveAssign hstep
    unfold moveAssign
    split_ifs
    · exact Nat.le_refl _
    · simp [Objects.put, Objects.size]
  | commit h r =>
    obtain ⟨t, hget, rfl⟩ := Option.map_eq_some_iff.mp hstep
    unfold endTransaction
    split <;> simp [Objects.put, Objects.size]
  | rollback h r =>
    obtain ⟨t, hget, rfl⟩ := Option.map_eq_some_iff.mp hstep
    unfold endTransaction
    split <;> simp [Objects.put, Objects.size]
  | destroy h r =>
    obtain ⟨t, hget, rfl⟩ := Option.map_eq_some_iff.mp hstep
    simp [destroy, Objects.drop, Objects.size]

theorem not_carries_step {a : Act ρ} (hstep : step D s a = some s') (hsize : h < s.handles.size)
    (ha : ∀ o r, o ≠ h → a ≠ .moveAssign h o r) (hnot : ∀ k, ¬ s.Carries h k) (k : Nat × Nat) :
    ¬ s'.Carries h k := by
  intro hcarries
  have hgives : a.gives s h := (carries_of_step hstep hcarries).2.resolve_left (hnot k)
  have hnew : h ≠ s.handles.size := Nat.ne_of_lt hsize
  cases a with
  | beginTransaction d level r => exact hnew hgives
  | moveConstruct h' => exact hnew hgives
  | moveAssign h' o r =>
    obtain ⟨rfl, hne⟩ := hgives
    exact ha o r hne rfl
  | connect | disconnect | commit | rollback | destroy => exact hgives

theorem carries_of_issues {a : Act ρ} (hissues : Issues D h s a) : ∃ k, s.Carries h k := by
  obtain ⟨⟨e, r, ha⟩, s', hstep, hcalls⟩ := hissues
  obtain ⟨t, hget, _, hfinish, _⟩ := step_of_ends ha hstep
  cases hlive : t.live with
  | none =>
    rw [hfinish, State.finish, hlive] at hcalls
    exact absurd rfl hcalls
  | some d => exact ⟨(d, t.serial), t, hget, hlive, rfl⟩

theorem silent_of_not_carries (conn : κ) {bs : List (Act ρ)} (hsize : h < s.handles.size)
    (hnot : ∀ k, ¬ s.Carries h k) (hbs : ∀ o r, o ≠ h → Act.moveAssign h o r ∉ bs) :
    (system D conn).MeetsFrom (fun u a => ¬ Issues D h u a) s bs := by
  induction bs generalizing s with
  | nil => trivial
  | cons b bs ih =>
    intro s' hstep
    refine ⟨fun hissues => ?_, ?_⟩
    · obtain ⟨k, hcarries⟩ := carries_of_issues hissues
      exact hnot k hcarries
    · have hb : ∀ o r, o ≠ h → b ≠ .moveAssign h o r := fun o r hne heq =>
        hbs o r hne (heq ▸ List.mem_cons_self)
      exact ih (Nat.lt_of_lt_of_le hsize (size_le_of_step hstep))
        (not_carries_step hstep hsize hb hnot) fun o r hne hmem =>
          hbs o r hne (List.mem_cons_of_mem b hmem)

/-! ### Which terminator -/

/-- A `COMMIT` of the transaction has been called. -/
def State.Committed (s : State κ) (k : Nat × Nat) : Prop :=
  ∃ c, Call.ended .commit k.1 k.2 c ∈ s.calls

theorem committed_of_not_ends {a : Act ρ} (ha : a.ends = none) (hstep : step D s a = some s')
    (k : Nat × Nat) : s'.Committed k ↔ s.Committed k := by
  rcases step_of_not_ends ha hstep with ⟨d, c, _, rfl⟩ | ⟨d, level, r, rfl, rfl⟩ | ⟨_, hcalls, _⟩
  · exact Iff.rfl
  · simp [State.Committed, beginTransaction]
  · unfold State.Committed
    rw [hcalls]

/-- A step that may end the transaction of `h` adds a `COMMIT` exactly for what `h` carries, if the
step calls `Commit`. -/
theorem committed_of_ends {a : Act ρ} (ha : a.ends = some (h, e, r)) (hstep : step D s a = some s')
    (k : Nat × Nat) : s'.Committed k ↔ s.Committed k ∨ (e = .commit ∧ s.Carries h k) := by
  obtain ⟨t, hget, _, hcalls, _⟩ := step_of_ends ha hstep
  rw [carries_self hget]
  unfold State.Committed
  rw [hcalls, State.finish]
  cases hlive : t.live with
  | none => simp
  | some d =>
    simp only [State.endOn, List.mem_cons, Call.ended.injEq, Option.some.injEq]
    constructor
    · rintro ⟨c, ⟨hcommit, hd, hserial, _⟩ | hold⟩
      · exact .inr ⟨hcommit.symm, hd.symm, hserial.symm⟩
      · exact .inl ⟨c, hold⟩
    · rintro (⟨c, hold⟩ | ⟨hcommit, hd, hserial⟩)
      · exact ⟨c, .inr hold⟩
      · exact ⟨s.conns d, .inl ⟨hcommit.symm, hd.symm, hserial.symm, rfl⟩⟩

theorem commits_iff {a : Act ρ} {q : Nat × Ending × ρ} (ha : a.ends = some q) (k : Nat × Nat) :
    Commits k s a ↔ q.2.1 = .commit ∧ s.Carries q.1 k := by
  constructor
  · rintro ⟨h, r, rfl, hcarries⟩
    cases ha
    exact ⟨rfl, hcarries⟩
  · rintro ⟨hcommit, hcarries⟩
    cases a <;> simp only [Act.ends, reduceCtorEq] at ha
    · split_ifs at ha
      cases ha
      cases hcommit
    · cases ha
      exact ⟨_, _, rfl, hcarries⟩
    · cases ha
      cases hcommit
    · cases ha
      cases hcommit

theorem committed_step {a : Act ρ} (hstep : step D s a = some s') (k : Nat × Nat) :
    s'.Committed k ↔ s.Committed k ∨ Commits k s a := by
  cases ha : a.ends with
  | some q =>
    rw [commits_iff ha]
    exact committed_of_ends ha hstep k
  | none =>
    rw [committed_of_not_ends ha hstep]
    refine (or_iff_left ?_).symm
    rintro ⟨h, r, rfl, _⟩
    cases ha

/-- **Every transaction has exactly one terminator.** -/
theorem one_terminator (D : Driver κ ρ) (conn : κ) (as : List (Act ρ)) (s : State κ)
    (hrun : (system D conn).run as = some s) : OneTerminator D conn as s := by
  have hl : Ledger s := Machine.invariant (init_ledger D conn) (step_ledger D conn) hrun
  have hcommitted : ∀ k, s.Committed k ↔ (system D conn).Occurs (Commits k) as := by
    intro k
    have hoccurs := Machine.holds_iff_occursFrom (P := Commits k) (I := fun _ => True)
      (Q := fun s => s.Committed k) (fun _ _ _ _ _ _ => trivial)
      (fun s a s' _ hstep => committed_step hstep k) trivial hrun
    refine hoccurs.trans (or_iff_right ?_)
    rintro ⟨c, hc⟩
    exact absurd hc List.not_mem_nil
  exact {
    balance := Machine.invariant (fun _ => rfl) (step_balanced D conn) hrun
    exclusive := fun k h h' => hl.owned.exclusive h h' k
    released := fun a s' h hstep ha k hcarries => (carries_of_step hstep hcarries).1 ha
    silent := fun h hsize hnot bs => silent_of_not_carries conn hsize hnot
    once := fun hgone k => hl.owned.count_closed fun h k' hcarries => by
      obtain ⟨t, hget, _⟩ := hcarries
      rw [hgone h] at hget
      cases hget
    committed := hcommitted }

theorem one_terminator_moved :
    let D : Driver Unit Unit := ⟨fun _ c => c, fun c => c, fun _ _ _ c => c, fun _ _ c => c⟩
    let as : List (Act Unit) :=
      [.beginTransaction 0 .default (), .beginTransaction 1 .serializable (), .moveConstruct 0,
        .moveAssign 1 1 (), .moveAssign 2 1 (), .commit 2 (), .rollback 2 (), .destroy 0 (),
        .destroy 1 (), .destroy 2 ()]
    OneTerminator D () as (((system D ()).run as).get rfl) :=
  one_terminator _ _ _ _ (Option.some_get rfl).symm

end StormByteDatabase.Transactions
