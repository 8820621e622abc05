import StormByteDatabase.Lib.Decimal
import StormByteDatabase.Lib.DecimalRounding

/-!
# Decimal numerals with a point and an exponent

A `Numeral` is digits, then perhaps a point and more digits, then perhaps an exponent, as in `2.5e-7`,
and `value` is the number it stands for. A reader that takes the digits at the start of a text stops at
the end of each part, since the next one starts with no digit (`tail_head`, `span_frac`).
-/

namespace Lib.Decimal

/-- What follows the `e`. -/
structure Exponent where
  /-- The sign, if there is one; `true` is a minus. -/
  sign : Option Bool
  digits : List UInt8
  digits_ne_nil : digits ≠ []
  isDigit_digits : ∀ c ∈ digits, isDigit c = true

namespace Exponent

def text (e : Exponent) : List UInt8 :=
  (match e.sign with
    | none => []
    | some negative => [if negative then 45 else 43]) ++ e.digits

def value (e : Exponent) : Int :=
  if e.sign = some true then -ofDigits e.digits else ofDigits e.digits

end Exponent

structure Numeral where
  whole : List UInt8
  /-- The digits after the point, if there is one. -/
  frac : Option (List UInt8)
  exponent : Option Exponent
  whole_ne_nil : whole ≠ []
  isDigit_whole : ∀ c ∈ whole, isDigit c = true
  isDigit_frac : ∀ ds ∈ frac, ∀ c ∈ ds, isDigit c = true

namespace Numeral

/-- The exponent with its `e`. -/
def tail (t : Numeral) : List UInt8 :=
  match t.exponent with
  | none => []
  | some e => 101 :: e.text

def text (t : Numeral) : List UInt8 :=
  t.whole ++
    match t.frac with
    | none => t.tail
    | some ds => 46 :: (ds ++ t.tail)

def signed (negative : Bool) (t : Numeral) : List UInt8 := (if negative then [45] else []) ++ t.text

/-- All digits as one number. -/
def mantissa (t : Numeral) : Nat := ofDigits (t.whole ++ t.frac.getD [])

/-- The place of the last digit. -/
def place (t : Numeral) : Int :=
  (match t.exponent with
    | none => 0
    | some e => e.value) - (t.frac.getD []).length

def value (t : Numeral) : ℚ := Binary64.decimal t.mantissa t.place

theorem head_whole (t : Numeral) : ∀ c ∈ t.whole.head?, isDigit c = true := fun c hc =>
  t.isDigit_whole c (List.mem_of_head? hc)

theorem tail_head (t : Numeral) : ∀ c ∈ t.tail.head?, c = 101 := by
  intro c hc
  unfold tail at hc
  split at hc
  · cases hc
  · exact (Option.some.inj hc).symm

theorem span_append {ds rest : List UInt8} (hds : ∀ c ∈ ds, isDigit c = true)
    (hrest : ∀ c ∈ rest.head?, isDigit c = false) : (ds ++ rest).span isDigit = (ds, rest) := by
  rw [List.span_eq_takeWhile_dropWhile, List.takeWhile_append_of_pos hds,
    List.dropWhile_append_of_pos hds]
  cases rest with
  | nil => rw [List.takeWhile_nil, List.dropWhile_nil, List.append_nil]
  | cons c cs =>
    have hc : ¬ isDigit c = true := by simp [hrest c rfl]
    rw [List.takeWhile_cons_of_neg hc, List.dropWhile_cons_of_neg hc, List.append_nil]

theorem span_frac (t : Numeral) {ds : List UInt8} (hds : ds ∈ t.frac) :
    (ds ++ t.tail).span isDigit = (ds, t.tail) :=
  span_append (t.isDigit_frac ds hds) fun c hc => t.tail_head c hc ▸ rfl

end Numeral

end Lib.Decimal
