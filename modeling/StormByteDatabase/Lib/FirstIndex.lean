import Mathlib.Data.List.Basic
import Mathlib.Tactic.Common

/-!
# An index of first positions

`index key l` is the table that a loop over `l` builds when it inserts the key of every element with
its position and an insertion of a key that is there already does nothing. `lookup_index`: the table
gives the first position of every key.

`sameFirst_set_iff`: replacing an element leaves the first position of every key where it was exactly
when the key stays the same, or the old and the new one both come before it.
-/

namespace Lib.FirstIndex

variable {α κ : Type*}

/-- The position of the first element with the key. -/
def first [DecidableEq κ] (key : α → κ) (l : List α) (k : κ) : Option Nat := l.findIdx? fun a => key a = k

/-- An insertion that keeps what is there. -/
def emplace [BEq κ] (table : List (κ × Nat)) (k : κ) (i : Nat) : List (κ × Nat) :=
  if (table.lookup k).isSome then table else table ++ [(k, i)]

def index [BEq κ] (key : α → κ) (l : List α) : List (κ × Nat) :=
  l.zipIdx.foldl (fun table p => emplace table (key p.1) p.2) []

/-- Every key is first where it was. -/
def SameFirst [DecidableEq κ] (key : α → κ) (l l' : List α) : Prop :=
  ∀ k, first key l' k = first key l k

variable [DecidableEq κ] {key : α → κ} {l l₁ l₂ : List α} {a b : α} {k : κ}

theorem first_cons :
    first key (a :: l) k = if key a = k then some 0 else (first key l k).map (· + 1) := by
  unfold first
  rw [List.findIdx?_cons]
  simp only [decide_eq_true_eq]

theorem first_append :
    first key (l₁ ++ l₂) k = (first key l₁ k).or ((first key l₂ k).map (· + l₁.length)) := by
  unfold first
  rw [List.findIdx?_append]

theorem first_eq_none_iff : first key l k = none ↔ ∀ a ∈ l, key a ≠ k := by
  unfold first
  rw [List.findIdx?_eq_none_iff]
  simp only [decide_eq_false_iff_not, ne_eq]

theorem sameFirst_of_map_eq (h : l₁.map key = l₂.map key) : SameFirst key l₁ l₂ := by
  have hmap : ∀ l : List α, first key l = first id (l.map key) := by
    intro l
    funext k
    unfold first
    rw [List.findIdx?_map]
    rfl
  intro k
  rw [hmap, hmap, h]

/-! ### The table -/

theorem lookup_emplace [BEq κ] [LawfulBEq κ] (table : List (κ × Nat)) (j : κ) (i : Nat) :
    (emplace table j i).lookup k = (table.lookup k).or (if k = j then some i else none) := by
  unfold emplace
  split_ifs with hthere hkey hkey
  · subst hkey
    exact (Option.or_of_isSome hthere).symm
  · rw [Option.or_none]
  · subst hkey
    rw [List.lookup_append]
    simp
  · have hne : (k == j) = false := beq_eq_false_iff_ne.mpr hkey
    rw [List.lookup_append]
    simp [List.lookup_cons, hne]

theorem lookup_foldl_emplace [BEq κ] [LawfulBEq κ] (l : List α) (n : Nat) (table : List (κ × Nat)) :
    ((l.zipIdx n).foldl (fun table p => emplace table (key p.1) p.2) table).lookup k =
      (table.lookup k).or ((first key l k).map (· + n)) := by
  induction l generalizing n table with
  | nil => simp [first]
  | cons a l ih =>
    rw [List.zipIdx_cons, List.foldl_cons, ih, lookup_emplace, first_cons, Option.or_assoc]
    congr 1
    by_cases hkey : key a = k
    · simp [hkey]
    · rw [if_neg (Ne.symm hkey), if_neg hkey, Option.none_or, Option.map_map]
      congr 1
      funext i
      show i + (n + 1) = i + 1 + n
      omega

/-- **The table has the first position of every key.** -/
theorem lookup_index [BEq κ] [LawfulBEq κ] (l : List α) (k : κ) : (index key l).lookup k = first key l k := by
  unfold index
  rw [lookup_foldl_emplace]
  simp

/-! ### Replacing an element -/

theorem first_append_cons_ne {n : Nat} (hne : key a ≠ k) (hn : n = l₁.length)
    (hbefore : first key l₁ k = none) : first key (l₁ ++ a :: l₂) k ≠ some n := by
  rw [first_append, first_cons, hbefore, if_neg hne, Option.none_or, Option.map_map]
  intro h
  obtain ⟨i, _, hi⟩ := Option.map_eq_some_iff.mp h
  have hsum : i + 1 + l₁.length = n := hi
  omega

theorem first_append_cons_self (hbefore : first key l₁ (key a) = none) :
    first key (l₁ ++ a :: l₂) (key a) = some l₁.length := by
  rw [first_append, first_cons, hbefore, if_pos rfl, Option.none_or, Option.map_some, Nat.zero_add]

theorem sameFirst_replace_iff :
    SameFirst key (l₁ ++ a :: l₂) (l₁ ++ b :: l₂) ↔
      key b = key a ∨ (∃ c ∈ l₁, key c = key a) ∧ ∃ c ∈ l₁, key c = key b := by
  constructor
  · intro h
    by_cases hkey : key b = key a
    · exact .inl hkey
    · right
      constructor
      · by_contra hnone
        have hbefore : first key l₁ (key a) = none :=
          first_eq_none_iff.mpr fun c hc hca => hnone ⟨c, hc, hca⟩
        apply first_append_cons_ne hkey rfl hbefore
        rw [h (key a)]
        exact first_append_cons_self hbefore
      · by_contra hnone
        have hbefore : first key l₁ (key b) = none :=
          first_eq_none_iff.mpr fun c hc hcb => hnone ⟨c, hc, hcb⟩
        apply first_append_cons_ne (Ne.symm hkey) rfl hbefore
        rw [← h (key b)]
        exact first_append_cons_self hbefore
  · intro h k
    rw [first_append, first_append, first_cons, first_cons]
    rcases h with hkey | ⟨⟨c, hc, hca⟩, d, hd, hdb⟩
    · rw [hkey]
    · cases hbefore : first key l₁ k with
      | some i => rfl
      | none =>
        have habsent := first_eq_none_iff.mp hbefore
        rw [if_neg fun hk => habsent d hd (hdb.trans hk), if_neg fun hk => habsent c hc (hca.trans hk)]

theorem sameFirst_set_iff {i : Nat} (h : l[i]? = some a) :
    SameFirst key l (l.set i b) ↔
      key b = key a ∨ (∃ c ∈ l.take i, key c = key a) ∧ ∃ c ∈ l.take i, key c = key b := by
  obtain ⟨hlt, hget⟩ := List.getElem?_eq_some_iff.mp h
  have hsplit : l = l.take i ++ a :: l.drop (i + 1) := by
    rw [← hget, List.getElem_cons_drop, List.take_append_drop]
  have hset : l.set i b = l.take i ++ b :: l.drop (i + 1) := by
    rw [List.set_eq_take_append_cons_drop, if_pos hlt]
  have hreplace : SameFirst key (l.take i ++ a :: l.drop (i + 1)) (l.take i ++ b :: l.drop (i + 1)) ↔
      key b = key a ∨ (∃ c ∈ l.take i, key c = key a) ∧ ∃ c ∈ l.take i, key c = key b :=
    sameFirst_replace_iff
  rwa [← hsplit, ← hset] at hreplace

end Lib.FirstIndex
