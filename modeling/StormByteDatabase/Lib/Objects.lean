import Mathlib.Data.List.Basic
import Mathlib.Data.Option.Basic
import Mathlib.Tactic.SplitIfs

/-!
# A table of objects

Objects are numbered in the order of their construction; a destroyed object leaves its number
unused. `get_put`, `get_drop` and `get_add` say what each change does to every number, and
`count_put`, `count_drop` and `count_add` what it does to the number of objects with a property.
-/

namespace Lib

/-- Objects by number; `none` marks a destroyed one. -/
structure Objects (α : Type*) where
  slots : List (Option α)
  deriving DecidableEq, Repr

namespace Objects

variable {α : Type*}

def empty : Objects α := ⟨[]⟩

/-- The number the next object gets. -/
def size (t : Objects α) : Nat := t.slots.length

def get (t : Objects α) (i : Nat) : Option α := t.slots[i]?.join

def add (t : Objects α) (a : α) : Objects α := ⟨t.slots ++ [some a]⟩

def put (t : Objects α) (i : Nat) (a : α) : Objects α := ⟨t.slots.set i (some a)⟩

def drop (t : Objects α) (i : Nat) : Objects α := ⟨t.slots.set i none⟩

def count (p : α → Bool) (t : Objects α) : Nat := t.slots.countP (·.any p)

/-- Every object not yet destroyed satisfies `p`. -/
def All (p : α → Prop) (t : Objects α) : Prop := ∀ o ∈ t.slots, ∀ a ∈ o, p a

instance (p : α → Prop) [DecidablePred p] (t : Objects α) : Decidable (t.All p) :=
  inferInstanceAs (Decidable (∀ o ∈ t.slots, ∀ a ∈ o, p a))

variable {t : Objects α} {i j : Nat} {a b : α} {p : α → Bool}

theorem slots_eq_of_get (h : t.get i = some b) : t.slots[i]? = some (some b) := by
  unfold get at h
  exact Option.join_eq_some_iff.mp h

theorem lt_of_get (h : t.get i = some b) : i < t.slots.length :=
  (List.getElem?_eq_some_iff.mp (slots_eq_of_get h)).1

theorem ne_size_of_get (h : t.get i = some b) : i ≠ t.size :=
  Nat.ne_of_lt (lt_of_get h)

@[simp] theorem get_empty : (empty : Objects α).get i = none := rfl

theorem get_put (h : t.get i = some b) : (t.put i a).get j = if j = i then some a else t.get j := by
  unfold put get
  rw [List.getElem?_set]
  by_cases hj : j = i
  · simp [hj, lt_of_get h]
  · simp [hj, Ne.symm hj]

theorem get_drop : (t.drop i).get j = if j = i then none else t.get j := by
  unfold drop get
  rw [List.getElem?_set]
  by_cases hj : j = i
  · subst hj
    by_cases hlt : j < t.slots.length <;> simp [hlt]
  · simp [hj, Ne.symm hj]

theorem get_add : (t.add a).get j = if j = t.size then some a else t.get j := by
  unfold add get size
  rcases Nat.lt_trichotomy j t.slots.length with hj | hj | hj
  · simp [List.getElem?_append_left hj, Nat.ne_of_lt hj]
  · simp [hj]
  · rw [List.getElem?_eq_none (by simp; omega), List.getElem?_eq_none (by omega)]
    simp [Nat.ne_of_gt hj]

theorem all_iff {q : α → Prop} : t.All q ↔ ∀ i a, t.get i = some a → q a := by
  constructor
  · intro h i a hget
    exact h (some a) (List.mem_of_getElem? (slots_eq_of_get hget)) a rfl
  · intro h o ho a ha
    obtain ⟨i, hi⟩ := List.mem_iff_getElem?.mp ho
    refine h i a ?_
    unfold get
    rw [hi, ha]
    rfl

theorem all_put {q : α → Prop} (h : t.get i = some b) (hall : t.All q) : (t.put i a).All q ↔ q a := by
  constructor
  · intro hput
    refine all_iff.mp hput i a ?_
    rw [get_put h, if_pos rfl]
  · intro ha
    rw [all_iff] at hall ⊢
    intro j c hget
    rw [get_put h] at hget
    split_ifs at hget
    · exact Option.some.inj hget ▸ ha
    · exact hall j c hget

theorem all_add {q : α → Prop} (hall : t.All q) : (t.add a).All q ↔ q a := by
  constructor
  · intro hadd
    refine all_iff.mp hadd t.size a ?_
    rw [get_add, if_pos rfl]
  · intro ha
    rw [all_iff] at hall ⊢
    intro j c hget
    rw [get_add] at hget
    split_ifs at hget
    · exact Option.some.inj hget ▸ ha
    · exact hall j c hget

theorem all_drop {q : α → Prop} (hall : t.All q) : (t.drop i).All q := by
  rw [all_iff] at hall ⊢
  intro j c hget
  rw [get_drop] at hget
  split_ifs at hget
  exact hall j c hget

/-! ### Counting -/

@[simp] theorem count_empty : (empty : Objects α).count p = 0 := rfl

theorem count_set (h : t.get i = some b) (o : Option α) :
    (t.slots.set i o).countP (·.any p) + (if p b then 1 else 0) =
      t.count p + if o.any p then 1 else 0 := by
  obtain ⟨hlt, hget⟩ := List.getElem?_eq_some_iff.mp (slots_eq_of_get h)
  have hcount : t.count p = t.slots.countP (·.any p) := rfl
  rw [List.countP_set hlt, hget, hcount]
  have hpos : p b = true → 0 < t.slots.countP (·.any p) := fun hb =>
    List.countP_pos_iff.mpr ⟨some b, hget ▸ List.getElem_mem hlt, by simpa using hb⟩
  simp only [Option.any_some]
  by_cases hb : p b = true
  · have hle := hpos hb
    split_ifs <;> omega
  · split_ifs <;> omega

theorem count_put (h : t.get i = some b) :
    (t.put i a).count p + (if p b then 1 else 0) = t.count p + if p a then 1 else 0 :=
  count_set h (some a)

theorem count_drop (h : t.get i = some b) :
    (t.drop i).count p + (if p b then 1 else 0) = t.count p :=
  count_set h none

theorem count_add : (t.add a).count p = t.count p + if p a then 1 else 0 := by
  simp [add, count, List.countP_append, List.countP_cons]

theorem count_pos (h : t.get i = some b) (hb : p b = true) : 0 < t.count p :=
  List.countP_pos_iff.mpr ⟨some b, List.mem_of_getElem? (slots_eq_of_get h), by simpa using hb⟩

theorem count_le_count {q : α → Bool} (h : ∀ a, p a = true → q a = true) :
    t.count p ≤ t.count q := by
  refine List.countP_mono_left fun o _ => ?_
  cases o with
  | none => simp
  | some a => simpa using h a

theorem count_congr {q : α → Bool} (h : ∀ i a, t.get i = some a → p a = q a) :
    t.count p = t.count q := by
  refine List.countP_congr fun o ho => ?_
  cases o with
  | none => simp
  | some a =>
    obtain ⟨i, hi⟩ := List.mem_iff_getElem?.mp ho
    have hget : t.get i = some a := by
      unfold get
      rw [hi]
      rfl
    simp [h i a hget]

end Objects

end Lib
