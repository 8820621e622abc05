import Mathlib.Data.List.Count
import Mathlib.Data.List.Nodup

/-!
# Exclusive ownership of resources

A log lists what happened to resources, latest event first. `Ordered` says that a resource is used
and closed only while it is open, so after its `close` nothing touches it again. `Owned owns log`
ties the log to the owners of the moment: a resource has at most one owner, an owned resource is
open, and an open one is owned.

The rules `Owned.use`, `Owned.acquire`, `Owned.release` and `Owned.transfer` say which changes keep
it, and `Owned.count_closed` that once nothing is owned, every resource has been closed exactly once.
`Owned.acquireListed` and `Owned.dropListed` are the rules where the owners are the pairs of a list.
`UsesOpen` is the part of `Ordered` that remains when a closed resource may be opened again.
-/

namespace Lib

/-- One event of a log of resources. -/
inductive Event (ρ : Type*)
  | opened (r : ρ)
  | used (r : ρ)
  | closed (r : ρ)
  deriving DecidableEq, Repr

variable {ι ρ : Type*}

/-- The event may follow the log `older`. -/
def Event.Follows (older : List (Event ρ)) : Event ρ → Prop
  | .opened r => .opened r ∉ older
  | .used r => .opened r ∈ older ∧ .closed r ∉ older
  | .closed r => .opened r ∈ older ∧ .closed r ∉ older

instance [DecidableEq ρ] (older : List (Event ρ)) (e : Event ρ) : Decidable (e.Follows older) := by
  cases e <;> unfold Event.Follows <;> infer_instance

/-- Every resource is opened once, and used and closed only while it is open. -/
def Ordered : List (Event ρ) → Prop
  | [] => True
  | e :: older => e.Follows older ∧ Ordered older

instance decOrdered [DecidableEq ρ] : ∀ log : List (Event ρ), Decidable (Ordered log)
  | [] => isTrue trivial
  | e :: older =>
    have := decOrdered older
    inferInstanceAs (Decidable (e.Follows older ∧ Ordered older))

theorem Ordered.opened_of_closed {log : List (Event ρ)} {r : ρ} (h : Ordered log)
    (hr : .closed r ∈ log) : .opened r ∈ log := by
  induction log with
  | nil => cases hr
  | cons e older ih =>
    obtain ⟨hf, ho⟩ := h
    rcases List.mem_cons.mp hr with rfl | hr
    · exact List.mem_cons_of_mem _ hf.1
    · exact List.mem_cons_of_mem _ (ih ho hr)

theorem Ordered.count_closed_le [DecidableEq ρ] {log : List (Event ρ)} (h : Ordered log) (r : ρ) :
    log.count (.closed r) ≤ 1 := by
  induction log with
  | nil => simp
  | cons e older ih =>
    obtain ⟨hf, ho⟩ := h
    rw [List.count_cons]
    split_ifs with he
    · rw [beq_iff_eq] at he
      subst he
      simp [List.count_eq_zero_of_not_mem hf.2]
    · exact ih ho

/-- The owners of the moment agree with the log. -/
structure Owned (owns : ι → ρ → Prop) (log : List (Event ρ)) : Prop where
  exclusive : ∀ i j r, owns i r → owns j r → i = j
  live : ∀ i r, owns i r → .opened r ∈ log ∧ .closed r ∉ log
  covered : ∀ r, .opened r ∈ log → .closed r ∉ log → ∃ i, owns i r
  ordered : Ordered log

namespace Owned

variable {owns owns' : ι → ρ → Prop} {log : List (Event ρ)} {i : ι} {r : ρ}

theorem nil (h : ∀ i r, ¬ owns i r) : Owned owns [] :=
  ⟨fun i _ r hi => absurd hi (h i r), fun i r hi => absurd hi (h i r),
    fun _ hr => absurd hr (by simp), trivial⟩

theorem congr (h : Owned owns log) (heq : ∀ i r, owns' i r ↔ owns i r) : Owned owns' log := by
  refine ⟨fun i j r hi hj => ?_, fun i r hi => ?_, fun r ho hc => ?_, h.ordered⟩
  · exact h.exclusive i j r ((heq i r).mp hi) ((heq j r).mp hj)
  · exact h.live i r ((heq i r).mp hi)
  · obtain ⟨i, hi⟩ := h.covered r ho hc
    exact ⟨i, (heq i r).mpr hi⟩

theorem use (h : Owned owns log) (hi : owns i r) : Owned owns (.used r :: log) := by
  refine ⟨h.exclusive, fun j s hj => ?_, fun s ho hc => ?_, h.live i r hi, h.ordered⟩
  · simpa using h.live j s hj
  · exact h.covered s (by simpa using ho) (by simpa using hc)

theorem acquire (h : Owned owns log) (hfresh : .opened r ∉ log)
    (howns : ∀ j s, owns' j s ↔ owns j s ∨ (j = i ∧ s = r)) : Owned owns' (.opened r :: log) := by
  have hnew : ∀ j, ¬ owns j r := fun j hj => hfresh (h.live j r hj).1
  refine ⟨fun j k s hj hk => ?_, fun j s hj => ?_, fun s ho hc => ?_, hfresh, h.ordered⟩
  · rcases (howns j s).mp hj with hj | ⟨rfl, rfl⟩ <;> rcases (howns k s).mp hk with hk | ⟨rfl, hs⟩
    · exact h.exclusive j k s hj hk
    · exact absurd (hs ▸ hj) (hnew j)
    · exact absurd hk (hnew k)
    · rfl
  · rcases (howns j s).mp hj with hj | ⟨_, rfl⟩
    · simp [h.live j s hj]
    · simpa using fun hc => hfresh (h.ordered.opened_of_closed hc)
  · rcases List.mem_cons.mp ho with heq | ho
    · cases heq
      exact ⟨i, (howns i r).mpr (.inr ⟨rfl, rfl⟩)⟩
    · obtain ⟨j, hj⟩ := h.covered s ho (by simpa using hc)
      exact ⟨j, (howns j s).mpr (.inl hj)⟩

theorem release (h : Owned owns log) (hi : owns i r)
    (howns : ∀ j s, owns' j s ↔ owns j s ∧ s ≠ r) : Owned owns' (.closed r :: log) := by
  refine ⟨fun j k s hj hk => ?_, fun j s hj => ?_, fun s ho hc => ?_, h.live i r hi, h.ordered⟩
  · exact h.exclusive j k s ((howns j s).mp hj).1 ((howns k s).mp hk).1
  · obtain ⟨hj, hne⟩ := (howns j s).mp hj
    simpa [hne] using h.live j s hj
  · simp only [List.mem_cons, Event.closed.injEq, not_or] at hc
    obtain ⟨j, hj⟩ := h.covered s (by simpa using ho) hc.2
    exact ⟨j, (howns j s).mpr ⟨hj, hc.1⟩⟩

theorem releaseAll (h : Owned owns log) (hi : owns i r) (huniq : ∀ s, owns i s → s = r)
    (howns : ∀ j s, owns' j s ↔ owns j s ∧ j ≠ i) : Owned owns' (.closed r :: log) := by
  refine h.release hi fun j s => ?_
  rw [howns]
  refine and_congr_right fun hj => not_congr ⟨?_, ?_⟩
  · rintro rfl
    exact huniq s hj
  · rintro rfl
    exact h.exclusive j i s hj hi

/-- What `i` owns passes to `n`, which owned nothing. -/
theorem transfer {n : ι} (h : Owned owns log) (hn : ∀ s, ¬ owns n s)
    (howns : ∀ j s, owns' j s ↔ (owns j s ∧ j ≠ i) ∨ (j = n ∧ owns i s)) : Owned owns' log := by
  refine ⟨fun j k s hj hk => ?_, fun j s hj => ?_, fun s ho hc => ?_, h.ordered⟩
  · rcases (howns j s).mp hj with ⟨hj, hji⟩ | ⟨rfl, hj⟩ <;>
      rcases (howns k s).mp hk with ⟨hk, hki⟩ | ⟨rfl, hk⟩
    · exact h.exclusive j k s hj hk
    · exact absurd (h.exclusive j i s hj hk) hji
    · exact absurd (h.exclusive k i s hk hj) hki
    · rfl
  · rcases (howns j s).mp hj with ⟨hj, _⟩ | ⟨_, hj⟩
    · exact h.live j s hj
    · exact h.live i s hj
  · obtain ⟨j, hj⟩ := h.covered s ho hc
    by_cases hji : j = i
    · exact ⟨n, (howns n s).mpr (.inr ⟨rfl, hji ▸ hj⟩)⟩
    · exact ⟨j, (howns j s).mpr (.inl ⟨hj, hji⟩)⟩

/-- Once nothing is owned, every resource that was opened has been closed exactly once. -/
theorem count_closed [DecidableEq ρ] (h : Owned owns log) (hnone : ∀ i r, ¬ owns i r)
    (hr : .opened r ∈ log) : log.count (.closed r) = 1 := by
  have hclosed : .closed r ∈ log := by
    by_contra hc
    obtain ⟨i, hi⟩ := h.covered r hr hc
    exact hnone i r hi
  have hle := h.ordered.count_closed_le r
  have hpos := List.count_pos_iff.mpr hclosed
  omega

end Owned

/-! ### Owners in a list -/

/-- The owners are the pairs of this list. -/
def Listed (held : List (ι × ρ)) (i : ι) (r : ρ) : Prop := (i, r) ∈ held

/-- The log after these resources are closed one after the other. -/
def closeAll (rs : List ρ) (log : List (Event ρ)) : List (Event ρ) :=
  rs.foldl (fun log r => .closed r :: log) log

theorem opened_mem_closeAll {rs : List ρ} {log : List (Event ρ)} {r : ρ} :
    .opened r ∈ closeAll rs log ↔ .opened r ∈ log := by
  unfold closeAll
  induction rs generalizing log with
  | nil => exact Iff.rfl
  | cons s rs ih =>
    rw [List.foldl_cons, ih]
    simp

namespace Owned

variable {owns owns' : ι → ρ → Prop} {held : List (ι × ρ)} {log : List (Event ρ)} {i : ι} {r : ρ}

theorem releaseList {ps : List (ι × ρ)} (h : Owned owns log) (hps : ∀ p ∈ ps, owns p.1 p.2)
    (hnodup : (ps.map Prod.snd).Nodup)
    (howns : ∀ j s, owns' j s ↔ owns j s ∧ s ∉ ps.map Prod.snd) :
    Owned owns' (closeAll (ps.map Prod.snd) log) := by
  induction ps generalizing owns log with
  | nil => exact h.congr fun j s => by simp [howns]
  | cons p ps ih =>
    rw [List.map_cons, List.nodup_cons] at hnodup
    rw [List.forall_mem_cons] at hps
    have hrest : Owned (fun j s => owns j s ∧ s ≠ p.2) (.closed p.2 :: log) :=
      h.release hps.1 fun _ _ => Iff.rfl
    refine ih hrest (fun q hq => ⟨hps.2 q hq, ?_⟩) hnodup.2 fun j s => ?_
    · intro heq
      exact hnodup.1 (heq ▸ List.mem_map_of_mem hq)
    · rw [howns, List.map_cons, List.mem_cons, not_or, and_assoc]

theorem acquireListed (h : Owned (Listed held) log) (hfresh : .opened r ∉ log) :
    Owned (Listed ((i, r) :: held)) (.opened r :: log) := by
  refine h.acquire (i := i) hfresh fun j s => ?_
  simp [Listed, or_comm]

theorem dropListed (p : ι × ρ → Bool) (h : Owned (Listed held) log)
    (hnodup : (held.map Prod.snd).Nodup) :
    Owned (Listed (held.filter fun q => !p q)) (closeAll ((held.filter p).map Prod.snd) log) := by
  refine h.releaseList (fun q hq => (List.mem_filter.mp hq).1)
    (hnodup.sublist (List.filter_sublist.map Prod.snd)) fun j s => ?_
  unfold Listed
  rw [List.mem_filter]
  refine and_congr_right fun hmem => ?_
  rw [List.mem_map]
  constructor
  · rintro hkept ⟨q, hq, rfl⟩
    obtain ⟨hq, hp⟩ := List.mem_filter.mp hq
    have hsame : q = (j, q.2) := List.inj_on_of_nodup_map hnodup hq hmem rfl
    rw [← hsame, hp] at hkept
    cases hkept
  · intro hno
    cases hp : p (j, s) with
    | true => exact absurd ⟨(j, s), List.mem_filter.mpr ⟨hmem, hp⟩, rfl⟩ hno
    | false => rfl

end Owned

/-! ### Resources that are opened again

A name may come back, as the address of a handle does: then a resource is open from the latest time it
was opened until it is closed.
-/

def IsOpen : List (Event ρ) → ρ → Prop
  | [], _ => False
  | .opened s :: older, r => r = s ∨ IsOpen older r
  | .used _ :: older, r => IsOpen older r
  | .closed s :: older, r => r ≠ s ∧ IsOpen older r

/-- Only what is open is used or closed. -/
def UsesOpen : List (Event ρ) → Prop
  | [] => True
  | .opened _ :: older => UsesOpen older
  | .used r :: older => IsOpen older r ∧ UsesOpen older
  | .closed r :: older => IsOpen older r ∧ UsesOpen older

instance decIsOpen [DecidableEq ρ] : ∀ (log : List (Event ρ)) (r : ρ), Decidable (IsOpen log r)
  | [], _ => isFalse id
  | .opened s :: older, r =>
    have := decIsOpen older r
    inferInstanceAs (Decidable (r = s ∨ IsOpen older r))
  | .used _ :: older, r => decIsOpen older r
  | .closed s :: older, r =>
    have := decIsOpen older r
    inferInstanceAs (Decidable (r ≠ s ∧ IsOpen older r))

instance decUsesOpen [DecidableEq ρ] : ∀ log : List (Event ρ), Decidable (UsesOpen log)
  | [] => isTrue trivial
  | .opened _ :: older => decUsesOpen older
  | .used r :: older =>
    have := decUsesOpen older
    inferInstanceAs (Decidable (IsOpen older r ∧ UsesOpen older))
  | .closed r :: older =>
    have := decUsesOpen older
    inferInstanceAs (Decidable (IsOpen older r ∧ UsesOpen older))

section

variable {log : List (Event ρ)} {r s : ρ}

@[simp] theorem isOpen_opened : IsOpen (.opened s :: log) r ↔ r = s ∨ IsOpen log r := Iff.rfl

@[simp] theorem isOpen_used : IsOpen (.used s :: log) r ↔ IsOpen log r := Iff.rfl

@[simp] theorem isOpen_closed : IsOpen (.closed s :: log) r ↔ r ≠ s ∧ IsOpen log r := Iff.rfl

@[simp] theorem usesOpen_opened : UsesOpen (.opened r :: log) ↔ UsesOpen log := Iff.rfl

@[simp] theorem usesOpen_used : UsesOpen (.used r :: log) ↔ IsOpen log r ∧ UsesOpen log := Iff.rfl

@[simp] theorem usesOpen_closed : UsesOpen (.closed r :: log) ↔ IsOpen log r ∧ UsesOpen log := Iff.rfl

end

end Lib
