import Mathlib.Data.List.Basic
import Mathlib.Data.Option.Basic
import Mathlib.Tactic.SplitIfs

/-!
# Addresses into a growing vector

A `Vec` is a vector of elements that own bytes. An element keeps its bytes in a heap block of its
own, which moves with it, or inside itself, and then their address is a place in the array of the
vector. A push onto a full vector moves all elements to a new array, the next `generation`.

`holds_push`: an address taken before a push holds the same bytes after it exactly when it held them
before and it is a heap block or the push had room. `holds_push_back` says that the address of the
element pushed holds its bytes.
-/

namespace Lib.Vector

/-- The capacity that a full vector grows to. -/
structure Growth where
  next : Nat → Nat
  lt_next : ∀ c, c < next c

/-- `block` is the heap block of the bytes; without one they are in the element. -/
structure Owner where
  bytes : List UInt8
  block : Option Nat
  deriving DecidableEq, Repr

inductive Addr
  /-- In the element `index` of the array `generation`. -/
  | slot (generation index : Nat)
  | block (id : Nat)
  deriving DecidableEq, Repr

def Addr.isBlock : Addr → Bool
  | .slot _ _ => false
  | .block _ => true

structure Vec where
  generation : Nat
  capacity : Nat
  elems : List Owner
  deriving DecidableEq, Repr

/-- The address of the bytes of an element. -/
def Owner.addr (o : Owner) (generation index : Nat) : Addr :=
  match o.block with
  | some id => .block id
  | none => .slot generation index

namespace Vec

def Full (v : Vec) : Prop := ¬ v.elems.length < v.capacity

instance (v : Vec) : Decidable v.Full := inferInstanceAs (Decidable (¬ _))

/-- `emplace_back`. -/
def push (g : Growth) (v : Vec) (o : Owner) : Vec :=
  if v.Full then ⟨v.generation + 1, g.next v.capacity, v.elems ++ [o]⟩
  else { v with elems := v.elems ++ [o] }

/-- `clear`, which keeps the array. -/
def clear (v : Vec) : Vec := { v with elems := [] }

/-- The address is that of an element which is still there and owns `bytes`. -/
def Holds (v : Vec) (bytes : List UInt8) : Addr → Prop
  | .slot generation index =>
    v.generation = generation ∧ ∃ o ∈ v.elems[index]?, o.block = none ∧ o.bytes = bytes
  | .block id => ∃ o ∈ v.elems, o.block = some id ∧ o.bytes = bytes

instance (v : Vec) (bytes : List UInt8) (a : Addr) : Decidable (v.Holds bytes a) := by
  unfold Holds
  cases a <;> infer_instance

/-- An address taken from the vector so far, with blocks numbered below `fresh`. -/
def Taken (v : Vec) (fresh : Nat) : Addr → Prop
  | .slot generation index =>
    generation ≤ v.generation ∧ (generation = v.generation → index < v.elems.length)
  | .block id => id < fresh

variable {g : Growth} {v : Vec} {o : Owner} {bytes : List UInt8} {fresh : Nat}

@[simp] theorem elems_push : (v.push g o).elems = v.elems ++ [o] := by
  unfold push
  split_ifs <;> rfl

theorem generation_push : (v.push g o).generation = if v.Full then v.generation + 1 else v.generation := by
  unfold push
  split_ifs <;> rfl

theorem capacity_push : (v.push g o).capacity = if v.Full then g.next v.capacity else v.capacity := by
  unfold push
  split_ifs <;> rfl

theorem Taken.mono {fresh' : Nat} {a : Addr} (h : v.Taken fresh a) (hle : fresh ≤ fresh') :
    v.Taken fresh' a := by
  cases a with
  | slot => exact h
  | block id => exact Nat.lt_of_lt_of_le h hle

theorem taken_push {a : Addr} (h : v.Taken fresh a) : (v.push g o).Taken fresh a := by
  cases a with
  | block id => exact h
  | slot generation index =>
    obtain ⟨hle, hlt⟩ := h
    simp only [Taken, generation_push, elems_push, List.length_append, List.length_singleton]
    split_ifs with hfull
    · exact ⟨by omega, by omega⟩
    · refine ⟨hle, fun heq => ?_⟩
      have := hlt heq
      omega

theorem taken_push_back (hblock : ∀ id ∈ o.block, id < fresh) :
    (v.push g o).Taken fresh (o.addr (v.push g o).generation v.elems.length) := by
  unfold Owner.addr
  cases hb : o.block with
  | none => simp [Taken]
  | some id => exact hblock id hb

theorem holds_push_back :
    (v.push g o).Holds o.bytes (o.addr (v.push g o).generation v.elems.length) := by
  unfold Owner.addr
  cases hb : o.block with
  | none => simp [Holds, hb]
  | some id => simp [Holds, hb]

theorem holds_push_back_iff (hblock : ∀ p ∈ v.elems, ∀ id ∈ p.block, o.block ≠ some id) :
    (v.push g o).Holds bytes (o.addr (v.push g o).generation v.elems.length) ↔ bytes = o.bytes := by
  refine ⟨fun h => ?_, fun h => h ▸ holds_push_back⟩
  unfold Owner.addr at h
  cases hb : o.block with
  | none =>
    rw [hb] at h
    obtain ⟨_, p, hp, _, rfl⟩ := h
    rw [elems_push, List.getElem?_concat_length] at hp
    rw [Option.some.inj hp]
  | some id =>
    rw [hb] at h
    obtain ⟨p, hp, hid, rfl⟩ := h
    rw [elems_push, List.mem_append, List.mem_singleton] at hp
    rcases hp with hp | rfl
    · exact absurd hb (hblock p hp id hid)
    · rfl

theorem holds_push {a : Addr} (ha : v.Taken fresh a) (hblock : ∀ id ∈ o.block, fresh ≤ id) :
    (v.push g o).Holds bytes a ↔ v.Holds bytes a ∧ (v.Full → a.isBlock = true) := by
  cases a with
  | block id =>
    simp only [Holds, elems_push, List.mem_append, List.mem_singleton, Addr.isBlock, implies_true,
      and_true]
    constructor
    · rintro ⟨p, hp | rfl, hid, hbytes⟩
      · exact ⟨p, hp, hid, hbytes⟩
      · have hlt : id < fresh := ha
        have := hblock id hid
        omega
    · rintro ⟨p, hp, h⟩
      exact ⟨p, .inl hp, h⟩
  | slot generation index =>
    obtain ⟨hle, hlt⟩ := ha
    simp only [Holds, generation_push, elems_push, Addr.isBlock, Bool.false_eq_true, imp_false]
    by_cases hfull : v.Full
    · rw [if_pos hfull]
      refine ⟨fun h => ?_, fun h => absurd hfull h.2⟩
      have := h.1
      omega
    · rw [if_neg hfull]
      simp only [hfull, not_false_eq_true, and_true]
      refine and_congr_right fun heq => ?_
      rw [List.getElem?_append_left (hlt heq.symm)]

end Vec

/-- The capacity of a vector of capacity `c` after `n` pushes from empty. -/
def capacityAfter (g : Growth) (c : Nat) : Nat → Nat
  | 0 => c
  | n + 1 => if n < capacityAfter g c n then capacityAfter g c n else g.next (capacityAfter g c n)

theorem le_capacityAfter (g : Growth) (c n : Nat) : n ≤ capacityAfter g c n := by
  induction n with
  | zero => exact Nat.zero_le _
  | succ n ih =>
    simp only [capacityAfter]
    split_ifs with hroom
    · exact hroom
    · have := g.lt_next (capacityAfter g c n)
      omega

end Lib.Vector
