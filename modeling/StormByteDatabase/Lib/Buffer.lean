import Mathlib.Data.List.Basic
import Mathlib.Tactic.SplitIfs

/-!
# Pointers into a buffer that is resized

A `Buffer` is a vector of bytes. Its blocks are numbered, and a pointer is the number of the block it
was taken from. `resize` beyond the capacity goes to the next block and frees the old one; what a write
through an old pointer does is then outside the buffer, which `writeAt` leaves as it is.
-/

namespace Lib

/-- A vector of bytes in its current block. -/
structure Buffer where
  block : Nat
  capacity : Nat
  bytes : List UInt8
  size_le : bytes.length ≤ capacity
  deriving DecidableEq, Repr

namespace Buffer

/-- The capacity a vector gets when it is too small for `n` bytes; an empty one gets what it needs. -/
structure Growth where
  capacity : Nat → Nat → Nat
  le_capacity : ∀ c n, n ≤ capacity c n
  capacity_zero : ∀ n, capacity 0 n = n

def empty : Buffer := ⟨0, 0, [], Nat.le_refl 0⟩

theorem length_resized (bytes : List UInt8) (n : Nat) :
    (bytes.take n ++ List.replicate (n - bytes.length) 0).length = n := by
  rw [List.length_append, List.length_take, List.length_replicate]
  omega

/-- `resize`, which fills with zeros. -/
def resize (g : Growth) (b : Buffer) (n : Nat) : Buffer :=
  if h : n ≤ b.capacity then
    { b with
      bytes := b.bytes.take n ++ List.replicate (n - b.bytes.length) 0
      size_le := Nat.le_trans (Nat.le_of_eq (length_resized b.bytes n)) h }
  else
    { block := b.block + 1
      capacity := g.capacity b.capacity n
      bytes := b.bytes.take n ++ List.replicate (n - b.bytes.length) 0
      size_le :=
        Nat.le_trans (Nat.le_of_eq (length_resized b.bytes n)) (g.le_capacity b.capacity n) }

/-- The bytes are written at the start of the buffer; the size stays. -/
def write (b : Buffer) (s : List UInt8) : Buffer :=
  { b with
    bytes := s.take b.bytes.length ++ b.bytes.drop s.length
    size_le := by
      have := b.size_le
      rw [List.length_append, List.length_take, List.length_drop]
      omega }

/-- A write through a pointer, as far as the buffer has the block. -/
def writeAt (b : Buffer) (p : Nat) (s : List UInt8) : Buffer := if p = b.block then b.write s else b

variable {g : Growth} {b : Buffer} {n : Nat} {s : List UInt8}

@[simp] theorem length_resize : (b.resize g n).bytes.length = n := by
  unfold resize
  split_ifs <;> exact length_resized b.bytes n

theorem block_le_resize : b.block ≤ (b.resize g n).block := by
  unfold resize
  split_ifs
  · exact Nat.le_refl _
  · exact Nat.le_succ _

theorem block_resize (h : b.capacity < n) : (b.resize g n).block = b.block + 1 := by
  unfold resize
  rw [dif_neg (by omega)]

theorem capacity_resize_empty : ((empty : Buffer).resize g n).capacity = n := by
  unfold resize
  split_ifs with h
  · show 0 = n
    have : n ≤ 0 := h
    omega
  · exact g.capacity_zero n

@[simp] theorem length_write : (b.write s).bytes.length = b.bytes.length := by
  show (s.take b.bytes.length ++ b.bytes.drop s.length).length = b.bytes.length
  rw [List.length_append, List.length_take, List.length_drop]
  omega

theorem take_write_append {more : List UInt8} (h : (s ++ more).length ≤ b.bytes.length) :
    (b.write (s ++ more)).bytes.take s.length = s := by
  show ((s ++ more).take b.bytes.length ++ b.bytes.drop (s ++ more).length).take s.length = s
  rw [List.take_of_length_le h, List.append_assoc, List.take_left]

theorem writeAt_block : b.writeAt b.block s = b.write s := if_pos rfl

@[simp] theorem block_writeAt {p : Nat} : (b.writeAt p s).block = b.block := by
  unfold writeAt
  split_ifs <;> rfl

@[simp] theorem capacity_writeAt {p : Nat} : (b.writeAt p s).capacity = b.capacity := by
  unfold writeAt
  split_ifs <;> rfl

@[simp] theorem length_writeAt {p : Nat} : (b.writeAt p s).bytes.length = b.bytes.length := by
  unfold writeAt
  split_ifs
  · exact length_write
  · rfl

end Buffer

end Lib
