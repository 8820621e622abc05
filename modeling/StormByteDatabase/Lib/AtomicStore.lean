import Mathlib.Data.List.Nodup
import Mathlib.Data.List.Flatten
import Mathlib.Data.Option.Basic
import Mathlib.Tactic.SplitIfs

/-!
# A store with scopes

Writes made in a scope are published together, when the scope is published, or not at all; a write
made outside of any scope is published by itself. The history keeps every write with its scope, also
what was discarded. `Whole` is what a reader relies on: a scope is published once at most, with all of
its writes, and outside of the scopes nothing is lost. Every operation keeps it, where a scope is
entered under a key that no scope had before (`Known`).
-/

namespace Lib

/-- Writes that are published together, with the scope they were made in. -/
structure Block (κ ω : Type*) where
  scope : Option κ
  writes : List ω
  deriving DecidableEq, Repr

structure AtomicStore (κ ω : Type*) where
  published : List (Block κ ω)
  /-- The scope that was entered, with its writes. -/
  scope : Option (κ × List ω)
  history : List (Option κ × ω)
  deriving DecidableEq, Repr

namespace AtomicStore

variable {κ ω : Type*}

def empty : AtomicStore κ ω := ⟨[], none, []⟩

def enter (k : κ) (s : AtomicStore κ ω) : AtomicStore κ ω := { s with scope := some (k, []) }

def write (w : ω) (s : AtomicStore κ ω) : AtomicStore κ ω :=
  match s.scope with
  | some (k, ws) => { s with scope := some (k, ws ++ [w]), history := s.history ++ [(some k, w)] }
  | none =>
    { s with published := s.published ++ [⟨none, [w]⟩], history := s.history ++ [(none, w)] }

/-- The end of whatever scope was entered. -/
def leave (s : AtomicStore κ ω) : AtomicStore κ ω := { s with scope := none }

def contents (s : AtomicStore κ ω) : List ω := s.published.flatMap Block.writes

/-- The scopes that were published. -/
def scopes (s : AtomicStore κ ω) : List κ := s.published.filterMap Block.scope

/-- Every scope that the store has seen satisfies `p`. -/
structure Known (p : κ → Prop) (s : AtomicStore κ ω) : Prop where
  scopes : ∀ k ∈ s.scopes, p k
  history : ∀ k w, (some k, w) ∈ s.history → p k
  current : ∀ k ws, s.scope = some (k, ws) → p k

section

variable [DecidableEq κ]

/-- The end of the scope `k`, which does nothing outside of it. -/
def publish (k : κ) (s : AtomicStore κ ω) : AtomicStore κ ω :=
  match s.scope with
  | some (j, ws) =>
    if j = k then { s with published := s.published ++ [⟨some j, ws⟩], scope := none } else s
  | none => s

def discard (k : κ) (s : AtomicStore κ ω) : AtomicStore κ ω :=
  if s.scope.map Prod.fst = some k then s.leave else s

/-- The writes made in a scope, or outside of any. -/
def written (o : Option κ) (s : AtomicStore κ ω) : List ω :=
  (s.history.filter (·.1 = o)).map Prod.snd

/-- A scope is published with all of its writes or not at all, and a write outside by itself. -/
structure Whole (s : AtomicStore κ ω) : Prop where
  blocks : ∀ b ∈ s.published, ∀ k, b.scope = some k → b.writes = s.written (some k)
  once : s.scopes.Nodup
  current : ∀ k ws, s.scope = some (k, ws) → ws = s.written (some k) ∧ k ∉ s.scopes
  outside : (s.published.filter (·.scope = none)).flatMap Block.writes = s.written none

end

variable {s : AtomicStore κ ω} {k : κ} {p : κ → Prop}

/-! ### What the operations leave -/

theorem contents_write_of_none {w : ω} (h : s.scope = none) :
    (s.write w).contents = s.contents ++ [w] ∧ (s.write w).scope = none := by
  simp [write, h, contents]

theorem contents_write_of_some {w : ω} {ws : List ω} (h : s.scope = some (k, ws)) :
    (s.write w).contents = s.contents ∧ (s.write w).scope = some (k, ws ++ [w]) := by
  simp [write, h, contents]

theorem contents_publish [DecidableEq κ] {ws : List ω} (h : s.scope = some (k, ws)) :
    (s.publish k).contents = s.contents ++ ws ∧ (s.publish k).scope = none := by
  simp [publish, h, contents]

theorem scopes_write (w : ω) : (s.write w).scopes = s.scopes := by
  unfold write AtomicStore.scopes
  split <;> simp

/-! ### Scopes seen -/

theorem known_empty : (empty : AtomicStore κ ω).Known p :=
  ⟨fun _ h => by simp [empty, AtomicStore.scopes] at h, fun _ _ h => by simp [empty] at h,
    fun _ _ h => by simp [empty] at h⟩

theorem Known.mono {q : κ → Prop} (h : s.Known p) (hpq : ∀ k, p k → q k) : s.Known q :=
  ⟨fun k hk => hpq k (h.scopes k hk), fun k w hw => hpq k (h.history k w hw),
    fun k ws hws => hpq k (h.current k ws hws)⟩

theorem Known.enter (h : s.Known p) (hk : p k) : (s.enter k).Known p := by
  refine ⟨h.scopes, h.history, fun j ws hj => ?_⟩
  obtain rfl : k = j := (Prod.mk.inj (Option.some.inj hj)).1
  exact hk

theorem Known.write (h : s.Known p) (w : ω) : (s.write w).Known p := by
  unfold AtomicStore.write
  split
  · rename_i k ws hscope
    have hk : p k := h.current k ws hscope
    refine ⟨h.scopes, fun j v hj => ?_, fun j vs hj => ?_⟩
    · rcases List.mem_append.mp hj with hj | hj
      · exact h.history j v hj
      · obtain ⟨rfl, _⟩ : j = k ∧ v = w := by simpa using hj
        exact hk
    · obtain rfl : k = j := (Prod.mk.inj (Option.some.inj hj)).1
      exact hk
  · refine ⟨fun j hj => h.scopes j ?_, fun j v hj => h.history j v ?_, h.current⟩
    · simpa [AtomicStore.scopes] using hj
    · simpa using hj

theorem Known.leave (h : s.Known p) : s.leave.Known p :=
  ⟨h.scopes, h.history, fun _ _ hws => by cases hws⟩

theorem exists_of_map_fst (h : s.scope.map Prod.fst = some k) : ∃ ws, s.scope = some (k, ws) := by
  obtain ⟨⟨j, ws⟩, hscope, rfl⟩ := Option.map_eq_some_iff.mp h
  exact ⟨ws, hscope⟩

variable [DecidableEq κ]

theorem publish_of_ne (h : s.scope.map Prod.fst ≠ some k) : s.publish k = s := by
  unfold publish
  split
  · rename_i j ws hscope
    rw [if_neg fun heq => h (by rw [hscope, heq]; rfl)]
  · rfl

theorem discard_of_ne (h : s.scope.map Prod.fst ≠ some k) : s.discard k = s := if_neg h

theorem Known.discard (h : s.Known p) : (s.discard k).Known p := by
  unfold AtomicStore.discard
  split_ifs
  · exact h.leave
  · exact h

theorem scopes_publish_eq {ws : List ω} (hscope : s.scope = some (k, ws)) :
    (s.publish k).scopes = s.scopes ++ [k] := by
  simp [publish, hscope, AtomicStore.scopes]

theorem mem_scopes_publish {j : κ} :
    j ∈ (s.publish k).scopes ↔ j ∈ s.scopes ∨ (j = k ∧ s.scope.map Prod.fst = some k) := by
  by_cases hcurrent : s.scope.map Prod.fst = some k
  · obtain ⟨ws, hscope⟩ := exists_of_map_fst hcurrent
    rw [scopes_publish_eq hscope, List.mem_append, List.mem_singleton, and_iff_left hcurrent]
  · rw [publish_of_ne hcurrent]
    exact (or_iff_left fun h => hcurrent h.2).symm

theorem scopes_discard : (s.discard k).scopes = s.scopes := by
  unfold AtomicStore.discard
  split_ifs <;> rfl

theorem Known.publish (h : s.Known p) : (s.publish k).Known p := by
  by_cases hcurrent : s.scope.map Prod.fst = some k
  · obtain ⟨ws, hscope⟩ := exists_of_map_fst hcurrent
    refine ⟨fun j hj => ?_, fun j w hj => h.history j w ?_, fun j vs hj => ?_⟩
    · rw [scopes_publish_eq hscope] at hj
      rcases List.mem_append.mp hj with hj | hj
      · exact h.scopes j hj
      · obtain rfl := List.mem_singleton.mp hj
        exact h.current j ws hscope
    · simpa [AtomicStore.publish, hscope] using hj
    · simp [AtomicStore.publish, hscope] at hj
  · rwa [publish_of_ne hcurrent]

/-! ### Whole scopes -/

theorem whole_empty : (empty : AtomicStore κ ω).Whole :=
  ⟨fun _ h => by simp [empty] at h, List.nodup_nil, fun _ _ h => by simp [empty] at h, rfl⟩

theorem written_eq_nil (h : s.Known p) (hk : ¬ p k) : s.written (some k) = [] := by
  unfold written
  rw [List.map_eq_nil_iff, List.filter_eq_nil_iff]
  rintro ⟨o, w⟩ hmem heq
  obtain rfl : o = some k := by simpa using heq
  exact hk (h.history k w hmem)

theorem Whole.enter (h : s.Whole) (hs : s.Known p) (hk : ¬ p k) : (s.enter k).Whole := by
  refine ⟨h.blocks, h.once, fun j ws hj => ?_, h.outside⟩
  obtain ⟨rfl, rfl⟩ := Prod.mk.inj (Option.some.inj hj)
  exact ⟨(written_eq_nil hs hk).symm, fun hmem => hk (hs.scopes k hmem)⟩

theorem written_append {t : AtomicStore κ ω} {o : Option κ} {w : ω}
    (ht : t.history = s.history ++ [(o, w)]) (o' : Option κ) :
    t.written o' = if o = o' then s.written o' ++ [w] else s.written o' := by
  unfold written
  rw [ht, List.filter_append, List.map_append]
  split_ifs with ho
  · simp [ho]
  · simp [ho]

theorem Whole.write (h : s.Whole) (w : ω) : (s.write w).Whole := by
  have hscopes : (s.write w).scopes = s.scopes := scopes_write w
  cases hscope : s.scope with
  | some q =>
    obtain ⟨k, ws⟩ := q
    have hwrite : s.write w =
        { s with scope := some (k, ws ++ [w]), history := s.history ++ [(some k, w)] } := by
      simp [AtomicStore.write, hscope]
    obtain ⟨hws, hnew⟩ := h.current k ws hscope
    have hwritten := written_append (s := s) (t := s.write w) (o := some k) (w := w) (by rw [hwrite])
    refine ⟨fun b hb j hj => ?_, hscopes ▸ h.once, fun j vs hj => ?_, ?_⟩
    · have hb : b ∈ s.published := by rwa [hwrite] at hb
      have hne : some k ≠ some j := by
        rintro heq
        obtain rfl := Option.some.inj heq
        exact hnew (List.mem_filterMap.mpr ⟨b, hb, hj⟩)
      rw [hwritten, if_neg hne]
      exact h.blocks b hb j hj
    · rw [hwrite] at hj
      obtain ⟨rfl, rfl⟩ := Prod.mk.inj (Option.some.inj hj)
      rw [hwritten, if_pos rfl, hscopes, hws]
      exact ⟨rfl, hnew⟩
    · rw [hwritten, if_neg (by simp), hwrite]
      exact h.outside
  | none =>
    have hwrite : s.write w = { s with
        published := s.published ++ [⟨none, [w]⟩], history := s.history ++ [(none, w)] } := by
      simp [AtomicStore.write, hscope]
    have hwritten := written_append (s := s) (t := s.write w) (o := none) (w := w) (by rw [hwrite])
    refine ⟨fun b hb j hj => ?_, hscopes ▸ h.once, fun j vs hj => ?_, ?_⟩
    · rw [hwrite] at hb
      rw [hwritten, if_neg (by simp)]
      rcases List.mem_append.mp hb with hb | hb
      · exact h.blocks b hb j hj
      · obtain rfl := List.mem_singleton.mp hb
        cases hj
    · rw [hwrite] at hj
      rw [show s.scope = some (j, vs) from hj] at hscope
      cases hscope
    · rw [hwritten, if_pos rfl, hwrite]
      simp [List.filter_append, h.outside]

theorem Whole.leave (h : s.Whole) : s.leave.Whole :=
  ⟨h.blocks, h.once, fun _ _ hws => (by cases hws), h.outside⟩

theorem Whole.discard (h : s.Whole) : (s.discard k).Whole := by
  unfold AtomicStore.discard
  split_ifs
  · exact h.leave
  · exact h

theorem Whole.publish (h : s.Whole) : (s.publish k).Whole := by
  by_cases hcurrent : s.scope.map Prod.fst = some k
  · obtain ⟨ws, hscope⟩ := exists_of_map_fst hcurrent
    obtain ⟨hws, hnew⟩ := h.current k ws hscope
    have hpublish : s.publish k =
        { s with published := s.published ++ [⟨some k, ws⟩], scope := none } := by
      simp [AtomicStore.publish, hscope]
    refine ⟨fun b hb j hj => ?_, ?_, fun j vs hj => ?_, ?_⟩
    · rw [hpublish] at hb ⊢
      rcases List.mem_append.mp hb with hb | hb
      · exact h.blocks b hb j hj
      · obtain rfl := List.mem_singleton.mp hb
        obtain rfl := Option.some.inj hj
        exact hws
    · rw [scopes_publish_eq hscope, List.nodup_append]
      refine ⟨h.once, List.nodup_singleton k, fun j hj i hi => ?_⟩
      obtain rfl := List.mem_singleton.mp hi
      rintro rfl
      exact hnew hj
    · rw [hpublish] at hj
      cases hj
    · rw [hpublish]
      simpa [List.filter_append, AtomicStore.written] using h.outside
  · rwa [publish_of_ne hcurrent]

end AtomicStore

end Lib
