import Mathlib.Logic.Basic
import Mathlib.Data.Option.Basic

/-!
# Deterministic machines and their runs

A `Machine` steps by a partial function: an action is one operation together with every answer the
outside gives while it runs, so a run is fixed by its list of actions, and an action that is not
possible in a state has no successor.

`Meets P` says that every step a run takes satisfies `P` at the state before the step, and
`Visits Q` that every state of the run satisfies `Q`. The rules:

* `invariant`: what every step keeps holds at the end of every run;
* `invariant_of_meets`: the same for runs whose steps all meet a condition;
* `meets_of_invariant`: a condition that an invariant implies at every step is met by every run;
* `meets_congr`: conditions that agree in the states of an invariant are met by the same runs;
* `final_iff_meets`: a property that no step restores holds at the end exactly when every step met
  the condition that keeps it;
* `visitsFrom_iff_meetsFrom`: the same for a property of all the states visited, and
  `visitsFrom_iff_of_preserves` where only the steps that meet the condition keep the invariant;
* `holds_iff_occursFrom`: a property that exactly the steps satisfying `P` bring about holds at the
  end exactly when `P` occurs in the run.
-/

namespace Lib

/-- A machine with one initial state; `step s a` is `none` where `a` is not possible in `s`. -/
structure Machine (σ α : Type*) where
  init : σ
  step : σ → α → Option σ

namespace Machine

variable {σ α : Type*} (M : Machine σ α)

def runFrom : σ → List α → Option σ
  | s, [] => some s
  | s, a :: as => (M.step s a).bind fun s' => runFrom s' as

/-- The state after the actions `as`, in order, from the initial state. -/
def run (as : List α) : Option σ := M.runFrom M.init as

def MeetsFrom (P : σ → α → Prop) : σ → List α → Prop
  | _, [] => True
  | s, a :: as => ∀ s' ∈ M.step s a, P s a ∧ MeetsFrom P s' as

/-- Every step of the run satisfies `P` at the state before it. -/
def Meets (P : σ → α → Prop) (as : List α) : Prop := M.MeetsFrom P M.init as

def VisitsFrom (Q : σ → Prop) : σ → List α → Prop
  | s, [] => Q s
  | s, a :: as => Q s ∧ ∀ s' ∈ M.step s a, VisitsFrom Q s' as

/-- Every state of the run, the first and the last included, satisfies `Q`. -/
def Visits (Q : σ → Prop) (as : List α) : Prop := M.VisitsFrom Q M.init as

def OccursFrom (P : σ → α → Prop) : σ → List α → Prop
  | _, [] => False
  | s, a :: as => ∃ s' ∈ M.step s a, P s a ∨ OccursFrom P s' as

/-- Some step of the run satisfies `P` at the state before it. -/
def Occurs (P : σ → α → Prop) (as : List α) : Prop := M.OccursFrom P M.init as

/-- Steps that meet `P` keep `I`. -/
def Preserves (P : σ → α → Prop) (I : σ → Prop) : Prop :=
  ∀ s a s', I s → P s a → M.step s a = some s' → I s'

theorem runFrom_cons_some {s t : σ} {a : α} {as : List α} (h : M.runFrom s (a :: as) = some t) :
    ∃ s', M.step s a = some s' ∧ M.runFrom s' as = some t :=
  Option.bind_eq_some_iff.mp h

theorem exists_runFrom (h : ∀ s a, ∃ s', M.step s a = some s') :
    ∀ (s : σ) (as : List α), ∃ t, M.runFrom s as = some t := by
  intro s as
  induction as generalizing s with
  | nil => exact ⟨s, rfl⟩
  | cons a as ih =>
    obtain ⟨s', hstep⟩ := h s a
    obtain ⟨t, ht⟩ := ih s'
    exact ⟨t, Option.bind_eq_some_iff.mpr ⟨s', hstep, ht⟩⟩

theorem meetsFrom_cons {P : σ → α → Prop} {s s' : σ} {a : α} {as : List α}
    (h : M.step s a = some s') : M.MeetsFrom P s (a :: as) ↔ P s a ∧ M.MeetsFrom P s' as := by
  simp [MeetsFrom, h]

theorem visitsFrom_cons {Q : σ → Prop} {s s' : σ} {a : α} {as : List α}
    (h : M.step s a = some s') : M.VisitsFrom Q s (a :: as) ↔ Q s ∧ M.VisitsFrom Q s' as := by
  simp [VisitsFrom, h]

theorem occursFrom_cons {P : σ → α → Prop} {s s' : σ} {a : α} {as : List α}
    (h : M.step s a = some s') : M.OccursFrom P s (a :: as) ↔ P s a ∨ M.OccursFrom P s' as := by
  simp [OccursFrom, h]

theorem VisitsFrom.head {Q : σ → Prop} {s : σ} {as : List α} (h : M.VisitsFrom Q s as) : Q s := by
  cases as with
  | nil => exact h
  | cons a as => exact h.1

theorem VisitsFrom.last {Q : σ → Prop} {s t : σ} {as : List α} (h : M.VisitsFrom Q s as)
    (hr : M.runFrom s as = some t) : Q t := by
  induction as generalizing s with
  | nil =>
    obtain rfl := Option.some.inj hr
    exact h
  | cons a as ih =>
    obtain ⟨s', hstep, hrest⟩ := M.runFrom_cons_some hr
    exact ih (h.2 s' hstep) hrest

instance decMeetsFrom (P : σ → α → Prop) [∀ s a, Decidable (P s a)] :
    ∀ s as, Decidable (M.MeetsFrom P s as)
  | _, [] => isTrue trivial
  | s, a :: as =>
    match h : M.step s a with
    | none => isTrue (by simp [MeetsFrom, h])
    | some s' =>
      have := decMeetsFrom P s' as
      decidable_of_iff (P s a ∧ M.MeetsFrom P s' as) (M.meetsFrom_cons h).symm

instance decMeets (P : σ → α → Prop) [∀ s a, Decidable (P s a)] (as : List α) :
    Decidable (M.Meets P as) :=
  M.decMeetsFrom P M.init as

/-! ### Rules -/

variable {M}

theorem invariantFrom_of_meets {P : σ → α → Prop} {I : σ → Prop} (hI : M.Preserves P I) :
    ∀ {s t : σ} {as : List α}, I s → M.MeetsFrom P s as → M.runFrom s as = some t → I t := by
  intro s t as
  induction as generalizing s with
  | nil =>
    intro hs _ hr
    cases hr
    exact hs
  | cons a as ih =>
    intro hs hm hr
    obtain ⟨s', hstep, hrest⟩ := M.runFrom_cons_some hr
    obtain ⟨hP, hm'⟩ := hm s' hstep
    exact ih (hI s a s' hs hP hstep) hm' hrest

theorem invariant_of_meets {P : σ → α → Prop} {I : σ → Prop} (h0 : I M.init)
    (hI : M.Preserves P I) {as : List α} {t : σ} (hm : M.Meets P as) (hr : M.run as = some t) :
    I t :=
  invariantFrom_of_meets hI h0 hm hr

theorem meetsFrom_true (s : σ) (as : List α) : M.MeetsFrom (fun _ _ => True) s as := by
  induction as generalizing s with
  | nil => trivial
  | cons a as ih => exact fun s' _ => ⟨trivial, ih s'⟩

theorem invariant {I : σ → Prop} (h0 : I M.init) (hI : M.Preserves (fun _ _ => True) I)
    {as : List α} {t : σ} (hr : M.run as = some t) : I t :=
  invariant_of_meets h0 hI (meetsFrom_true _ _) hr

theorem meets_of_invariant {P : σ → α → Prop} {I : σ → Prop} (h0 : I M.init)
    (hI : M.Preserves (fun _ _ => True) I)
    (hP : ∀ s a s', I s → M.step s a = some s' → P s a) (as : List α) : M.Meets P as := by
  suffices h : ∀ s, I s → M.MeetsFrom P s as from h _ h0
  induction as with
  | nil => exact fun _ _ => trivial
  | cons a as ih =>
    intro s hs s' hstep
    exact ⟨hP s a s' hs hstep, ih s' (hI s a s' hs trivial hstep)⟩

/-- Two conditions that agree on the steps that meet `C`, in the states these steps keep within an
invariant, are met by the same runs among those whose steps all meet `C`. -/
theorem meets_congr {C P P' : σ → α → Prop} {I : σ → Prop} (h0 : I M.init) (hI : M.Preserves C I)
    (hP : ∀ s a, I s → C s a → (P s a ↔ P' s a)) {as : List α} (hm : M.Meets C as) :
    M.Meets P as ↔ M.Meets P' as := by
  suffices h : ∀ s, I s → M.MeetsFrom C s as → (M.MeetsFrom P s as ↔ M.MeetsFrom P' s as) from
    h _ h0 hm
  clear hm
  induction as with
  | nil => exact fun _ _ _ => Iff.rfl
  | cons a as ih =>
    intro s hs hm
    cases hstep : M.step s a with
    | none => simp [MeetsFrom, hstep]
    | some s' =>
      obtain ⟨hC, hm'⟩ := hm s' hstep
      rw [M.meetsFrom_cons hstep, M.meetsFrom_cons hstep, hP s a hs hC,
        ih s' (hI s a s' hs hC hstep) hm']

/-- `Q` is lost for good where a step fails `P`, and kept where it meets `P`: then `Q` holds at the
end of a run exactly when every step met `P`. `I` is the invariant that ties the two. -/
theorem final_iff_meets {P : σ → α → Prop} {I Q : σ → Prop} (hI : M.Preserves P I)
    (hback : ∀ s a s', M.step s a = some s' → Q s' → Q s)
    (hstep : ∀ s a s', I s → Q s → M.step s a = some s' → (P s a ↔ Q s')) :
    ∀ {s t : σ} {as : List α}, I s → Q s → M.runFrom s as = some t →
      (Q t ↔ M.MeetsFrom P s as) := by
  intro s t as
  induction as generalizing s with
  | nil =>
    intro _ hQ hr
    cases hr
    exact ⟨fun _ => trivial, fun _ => hQ⟩
  | cons a as ih =>
    intro hs hQ hr
    obtain ⟨s', hs', hrest⟩ := M.runFrom_cons_some hr
    rw [M.meetsFrom_cons hs']
    by_cases hP : P s a
    · rw [ih (hI s a s' hs hP hs') ((hstep s a s' hs hQ hs').mp hP) hrest]
      exact ⟨fun h => ⟨hP, h⟩, fun h => h.2⟩
    · -- the property is gone after this step, and no later step brings it back
      have hgone : ∀ {u v : σ} {bs : List α}, M.runFrom u bs = some v → ¬ Q u → ¬ Q v := by
        intro u v bs
        induction bs generalizing u with
        | nil =>
          intro hr hu
          cases hr
          exact hu
        | cons b bs ihb =>
          intro hr hu
          obtain ⟨u', hu', hr'⟩ := M.runFrom_cons_some hr
          exact ihb hr' fun h => hu (hback u b u' hu' h)
      have hlost : ¬ Q s' := fun h => hP ((hstep s a s' hs hQ hs').mpr h)
      exact ⟨fun h => absurd h (hgone hrest hlost), fun h => absurd h.1 hP⟩

/-- `I` implies `Q` and is kept by the steps that meet `P`, and a step that fails `P` leads to a state
without `Q`: then every state of a run satisfies `Q` exactly when every step meets `P`. -/
theorem visitsFrom_iff_of_preserves {P : σ → α → Prop} {I Q : σ → Prop} (hI : M.Preserves P I)
    (hQ : ∀ s, I s → Q s)
    (hlost : ∀ s a s', I s → M.step s a = some s' → ¬ P s a → ¬ Q s') :
    ∀ {s t : σ} {as : List α}, I s → M.runFrom s as = some t →
      (M.VisitsFrom Q s as ↔ M.MeetsFrom P s as) := by
  intro s t as
  induction as generalizing s with
  | nil => exact fun hs _ => ⟨fun _ => trivial, fun _ => hQ s hs⟩
  | cons a as ih =>
    intro hs hr
    obtain ⟨s', hs', hrest⟩ := M.runFrom_cons_some hr
    rw [M.meetsFrom_cons hs', M.visitsFrom_cons hs']
    by_cases hP : P s a
    · rw [ih (hI s a s' hs hP hs') hrest]
      exact and_congr_left fun _ => iff_of_true (hQ s hs) hP
    · have hgone : ¬ Q s' := hlost s a s' hs hs' hP
      exact ⟨fun h => absurd h.2.head hgone, fun h => absurd h.1 hP⟩

theorem visitsFrom_iff_meetsFrom {P : σ → α → Prop} {I Q : σ → Prop}
    (hI : M.Preserves (fun _ _ => True) I)
    (hstep : ∀ s a s', I s → Q s → M.step s a = some s' → (P s a ↔ Q s'))
    {s t : σ} {as : List α} (hs : I s) (hQ : Q s) (hr : M.runFrom s as = some t) :
    M.VisitsFrom Q s as ↔ M.MeetsFrom P s as := by
  apply visitsFrom_iff_of_preserves (I := fun s => I s ∧ Q s)
  · rintro s a s' ⟨hs, hQ⟩ hP hs'
    exact ⟨hI s a s' hs trivial hs', (hstep s a s' hs hQ hs').mp hP⟩
  · exact fun _ h => h.2
  · rintro s a s' ⟨hs, hQ⟩ hs' hP hQ'
    exact hP ((hstep s a s' hs hQ hs').mpr hQ')
  · exact ⟨hs, hQ⟩
  · exact hr

theorem holds_iff_occursFrom {P : σ → α → Prop} {I Q : σ → Prop}
    (hI : M.Preserves (fun _ _ => True) I)
    (hstep : ∀ s a s', I s → M.step s a = some s' → (Q s' ↔ Q s ∨ P s a)) :
    ∀ {s t : σ} {as : List α}, I s → M.runFrom s as = some t →
      (Q t ↔ Q s ∨ M.OccursFrom P s as) := by
  intro s t as
  induction as generalizing s with
  | nil =>
    intro _ hr
    cases hr
    exact (or_iff_left id).symm
  | cons a as ih =>
    intro hs hr
    obtain ⟨s', hs', hrest⟩ := M.runFrom_cons_some hr
    rw [ih (hI s a s' hs trivial hs') hrest, hstep s a s' hs hs', M.occursFrom_cons hs', or_assoc]

end Machine

end Lib
