import Mathlib.Data.List.Basic

/-!
# Bytes in hexadecimal digits

`encode` writes each byte as two lower-case digits, and `decode` reads digits of either case.
`decode_encode`: what was written is read back.
-/

namespace Lib.Hex

/-- The digit of a number below 16. -/
def digit (n : Nat) : UInt8 := UInt8.ofNat (if n < 10 then 48 + n else 87 + n)

def value (c : UInt8) : Option Nat :=
  let n := c.toNat
  if 48 ≤ n ∧ n ≤ 57 then some (n - 48)
  else if 97 ≤ n ∧ n ≤ 102 then some (n - 87)
  else if 65 ≤ n ∧ n ≤ 70 then some (n - 55)
  else none

def encode (bytes : List UInt8) : List UInt8 :=
  bytes.flatMap fun b => [digit (b.toNat / 16), digit (b.toNat % 16)]

def decode : List UInt8 → Option (List UInt8)
  | [] => some []
  | [_] => none
  | high :: low :: rest => do
    let h ← value high
    let l ← value low
    let bytes ← decode rest
    some (UInt8.ofNat (16 * h + l) :: bytes)

theorem toNat_digit {n : Nat} (h : n < 16) :
    (digit n).toNat = if n < 10 then 48 + n else 87 + n := by
  apply UInt8.toNat_ofNat_of_lt
  show _ < 256
  split_ifs <;> omega

theorem value_digit {n : Nat} (h : n < 16) : value (digit n) = some n := by
  unfold value
  simp only [toNat_digit h]
  by_cases hn : n < 10
  · rw [if_pos hn, if_pos (by omega)]
    congr 1
    omega
  · rw [if_neg hn, if_neg (by omega), if_pos (by omega)]
    congr 1
    omega

theorem decode_encode (bytes : List UInt8) : decode (encode bytes) = some bytes := by
  induction bytes with
  | nil => rfl
  | cons b bytes ih =>
    have hb : b.toNat < 256 := b.toNat_lt
    have hhigh : b.toNat / 16 < 16 := by omega
    have hlow : b.toNat % 16 < 16 := by omega
    have hsum : UInt8.ofNat (16 * (b.toNat / 16) + b.toNat % 16) = b := by
      rw [Nat.div_add_mod, UInt8.ofNat_toNat]
    show decode (digit (b.toNat / 16) :: digit (b.toNat % 16) :: encode bytes) = _
    simp only [decode, value_digit hhigh, value_digit hlow, ih, Option.bind_eq_bind,
      Option.bind_some, hsum]

theorem zero_not_mem_encode (bytes : List UInt8) : 0 ∉ encode bytes := by
  have hdigit : ∀ n < 16, (0 : UInt8) ≠ digit n := by
    intro n hn heq
    have hzero : (digit n).toNat = 0 := by
      rw [← heq]
      rfl
    rw [toNat_digit hn] at hzero
    split_ifs at hzero <;> omega
  intro hmem
  obtain ⟨b, _, hb⟩ := List.mem_flatMap.mp hmem
  have hlt : b.toNat < 256 := b.toNat_lt
  rcases List.mem_pair.mp hb with heq | heq
  · exact hdigit _ (by omega) heq
  · exact hdigit _ (by omega) heq

end Lib.Hex
