import Mathlib.Data.List.Basic
import Mathlib.Tactic.Common

/-!
# Counting loops

`forLoop body n s` is `for (i = 0; i < n; ++i)` from the state `s`; a body that has no result, as one
that reads past the end of its data, leaves the loop without one. The rules:

* `forLoop_spec`: an invariant that the body carries from each round to the next, without fail, holds
  after the last;
* `forLoop_eq_foldl`: a loop whose body reads element `i` of a list is the fold over the first `n`
  elements;
* `forLoop_append`: a loop that appends what it reads for each element of a list ends with the list of
  these;
* `forLoop_cursor`: the same where the elements come from a cursor.
-/

namespace Lib

variable {σ α β : Type*}

def forLoop (body : Nat → σ → Option σ) : Nat → σ → Option σ
  | 0, s => some s
  | n + 1, s => (forLoop body n s).bind (body n)

variable {body : Nat → σ → Option σ} {n : Nat} {s : σ}

theorem forLoop_spec {I : Nat → σ → Prop} (h0 : I 0 s)
    (hbody : ∀ i s, i < n → I i s → ∃ s', body i s = some s' ∧ I (i + 1) s') :
    ∃ s', forLoop body n s = some s' ∧ I n s' := by
  induction n with
  | zero => exact ⟨s, rfl, h0⟩
  | succ n ih =>
    obtain ⟨t, hloop, ht⟩ := ih fun i s hi => hbody i s (Nat.lt_succ_of_lt hi)
    obtain ⟨t', hlast, ht'⟩ := hbody n t (Nat.lt_succ_self n) ht
    refine ⟨t', ?_, ht'⟩
    rw [forLoop, hloop]
    exact hlast

theorem forLoop_eq_foldl {f : σ → α → σ} {l : List α} (hn : n ≤ l.length)
    (hbody : ∀ i a s, l[i]? = some a → body i s = some (f s a)) :
    forLoop body n s = some ((l.take n).foldl f s) := by
  have hspec : ∃ s', forLoop body n s = some s' ∧ s' = (l.take n).foldl f s := by
    apply forLoop_spec (I := fun i t => t = (l.take i).foldl f s)
    · rfl
    · intro i t hi ht
      have hget : l[i]? = some l[i] := List.getElem?_eq_getElem (by omega)
      refine ⟨f t l[i], hbody i _ t hget, ?_⟩
      rw [List.take_succ_eq_append_getElem (by omega), List.foldl_append, ht]
      rfl
  obtain ⟨s', hloop, rfl⟩ := hspec
  exact hloop

theorem map_take_succ {f : α → β} {l : List α} {i : Nat} (hi : i < l.length) :
    (l.take (i + 1)).map f = (l.take i).map f ++ [f l[i]] := by
  rw [List.take_succ_eq_append_getElem hi, List.map_append, List.map_singleton]

theorem forLoop_append {read : Nat → Option β} {f : α → β} {l : List α} (hn : n ≤ l.length)
    (hread : ∀ i a, l[i]? = some a → read i = some (f a)) :
    forLoop (fun i s => (read i).map fun b => s ++ [b]) n [] = some ((l.take n).map f) := by
  have hspec : ∃ s, forLoop (fun i s => (read i).map fun b => s ++ [b]) n [] = some s ∧
      s = (l.take n).map f := by
    apply forLoop_spec (I := fun i s => s = (l.take i).map f)
    · rfl
    · intro i s hi hs
      have hi' : i < l.length := Nat.lt_of_lt_of_le hi hn
      have hget : l[i]? = some l[i] := List.getElem?_eq_getElem hi'
      refine ⟨_, ?_, rfl⟩
      rw [hread i _ hget, hs, map_take_succ hi']
      rfl
  obtain ⟨s, hloop, rfl⟩ := hspec
  exact hloop

/-- The state is the position of the cursor and what is there so far. -/
theorem forLoop_cursor {read : Option α → Option β} {f : α → β} {l : List α} (hn : n ≤ l.length)
    (hread : ∀ a ∈ l, read (some a) = some (f a)) :
    forLoop (fun _ (s : Nat × List β) => (read l[s.1]?).map fun b => (s.1 + 1, s.2 ++ [b])) n
      (0, []) = some (n, (l.take n).map f) := by
  have hspec : ∃ s, forLoop (fun _ (s : Nat × List β) =>
      (read l[s.1]?).map fun b => (s.1 + 1, s.2 ++ [b])) n (0, []) = some s ∧
        s = (n, (l.take n).map f) := by
    apply forLoop_spec (I := fun i s => s = (i, (l.take i).map f))
    · rfl
    · intro i s hi hs
      have hi' : i < l.length := Nat.lt_of_lt_of_le hi hn
      have hget : l[i]? = some l[i] := List.getElem?_eq_getElem hi'
      subst hs
      refine ⟨_, ?_, rfl⟩
      rw [hget, hread _ (List.getElem_mem _), map_take_succ hi']
      rfl
  obtain ⟨s, hloop, rfl⟩ := hspec
  exact hloop

end Lib
