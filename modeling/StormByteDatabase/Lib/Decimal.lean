import Mathlib.Data.List.Induction
import Mathlib.Data.List.TakeDrop
import Mathlib.Tactic.IntervalCases

/-!
# Decimal digits as bytes

`digits n` is the decimal numeral of `n` in ASCII without leading zeros, and `ofDigits` the number
that a string of digits denotes. `ofDigits_digits`: a numeral denotes the number again.
-/

namespace Lib.Decimal

def isDigit (c : UInt8) : Bool := 48 ≤ c && c ≤ 57

def digits (n : Nat) : List UInt8 := (Nat.toDigits 10 n).map fun c => UInt8.ofNat c.toNat

def ofDigits (cs : List UInt8) : Nat := cs.foldl (fun n c => 10 * n + (c.toNat - 48)) 0

theorem digits_of_lt {n : Nat} (h : n < 10) : digits n = [UInt8.ofNat (48 + n)] := by
  unfold digits
  rw [Nat.toDigits_of_lt_base h]
  interval_cases n <;> rfl

theorem digits_of_ge {n : Nat} (h : 10 ≤ n) :
    digits n = digits (n / 10) ++ [UInt8.ofNat (48 + n % 10)] := by
  have hlast := digits_of_lt (n := n % 10) (Nat.mod_lt _ (by omega))
  unfold digits at hlast ⊢
  rw [Nat.toDigits_of_base_le (by omega) h, List.map_append]
  rw [Nat.toDigits_of_lt_base (Nat.mod_lt _ (by omega))] at hlast
  rw [← hlast, List.map_singleton]

theorem digits_ne_nil (n : Nat) : digits n ≠ [] := by
  rcases Nat.lt_or_ge n 10 with h | h
  · simp [digits_of_lt h]
  · simp [digits_of_ge h]

theorem toNat_digit {d : Nat} (h : d < 10) : (UInt8.ofNat (48 + d)).toNat = 48 + d := by
  rw [UInt8.toNat_ofNat']
  omega

theorem isDigit_digit {d : Nat} (h : d < 10) : isDigit (UInt8.ofNat (48 + d)) = true := by
  interval_cases d <;> rfl

theorem isDigit_of_mem_digits (n : Nat) : ∀ c ∈ digits n, isDigit c = true := by
  induction n using Nat.strongRecOn with
  | _ n ih =>
    intro c hc
    rcases Nat.lt_or_ge n 10 with h | h
    · rw [digits_of_lt h, List.mem_singleton] at hc
      rw [hc]
      exact isDigit_digit h
    · rw [digits_of_ge h, List.mem_append, List.mem_singleton] at hc
      rcases hc with hc | rfl
      · exact ih (n / 10) (by omega) c hc
      · exact isDigit_digit (Nat.mod_lt _ (by omega))

theorem ofDigits_append_singleton (cs : List UInt8) (c : UInt8) :
    ofDigits (cs ++ [c]) = 10 * ofDigits cs + (c.toNat - 48) := by
  simp [ofDigits]

theorem ofDigits_append (cs ds : List UInt8) :
    ofDigits (cs ++ ds) = ofDigits cs * 10 ^ ds.length + ofDigits ds := by
  induction ds using List.reverseRecOn with
  | nil => simp [ofDigits]
  | append_singleton ds d ih =>
    rw [← List.append_assoc, ofDigits_append_singleton, ofDigits_append_singleton, ih,
      List.length_append, List.length_singleton, Nat.pow_succ, ← Nat.mul_assoc]
    omega

theorem ofDigits_replicate_append (k : Nat) (ds : List UInt8) :
    ofDigits (List.replicate k 48 ++ ds) = ofDigits ds := by
  have hzeros : ofDigits (List.replicate k 48) = 0 := by
    induction k with
    | zero => rfl
    | succ k ih =>
      rw [List.replicate_succ', ofDigits_append_singleton, ih]
      rfl
  rw [ofDigits_append, hzeros, Nat.zero_mul, Nat.zero_add]

theorem length_digits_le_iff {n k : Nat} (h : 0 < k) : (digits n).length ≤ k ↔ n < 10 ^ k := by
  unfold digits
  rw [List.length_map]
  exact Nat.length_toDigits_le_iff (by decide) h

theorem ofDigits_digits (n : Nat) : ofDigits (digits n) = n := by
  induction n using Nat.strongRecOn with
  | _ n ih =>
    rcases Nat.lt_or_ge n 10 with h | h
    · rw [digits_of_lt h, ← List.nil_append [_], ofDigits_append_singleton, toNat_digit h]
      simp [ofDigits]
    · have hlast : n % 10 < 10 := Nat.mod_lt _ (by omega)
      rw [digits_of_ge h, ofDigits_append_singleton, ih (n / 10) (by omega), toNat_digit hlast]
      omega

theorem head_digits_iff (n : Nat) : (digits n).head? = some 48 ↔ n = 0 := by
  induction n using Nat.strongRecOn with
  | _ n ih =>
    rcases Nat.lt_or_ge n 10 with h | h
    · rw [digits_of_lt h, List.head?_cons, Option.some.injEq, ← UInt8.toNat_inj, toNat_digit h]
      show 48 + n = 48 ↔ n = 0
      omega
    · have hrest := ih (n / 10) (by omega)
      have hhead : (digits (n / 10)).head?.isSome = true :=
        List.isSome_head?.mpr (digits_ne_nil _)
      rw [digits_of_ge h, List.head?_append, Option.or_of_isSome hhead, hrest]
      omega

end Lib.Decimal
