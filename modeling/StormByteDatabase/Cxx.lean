import Mathlib.Data.List.TakeWhile
import StormByteDatabase.Lib.Binary64
import StormByteDatabase.Lib.Hex
import StormByteDatabase.Lib.Numeral
import StormByteDatabase.Typedefs

/-!
# The C++ library functions the source calls

`std::to_string` for integers and for doubles, where it is the `%f` of `printf`: six decimals, the
exact value rounded to the nearest of them, ties to even. `std::stoll` and `std::stod` read the
longest prefix that is a number; `none` is either exception they throw. `stoll_toString` says that an
integer of 64 bits is read back, and `stod_signed` what a decimal numeral is read as.
-/

namespace StormByteDatabase.Cxx

open Lib Decimal

/-- `std::to_string` of an integer of any type. -/
def toString (n : Int) : Bytes :=
  if n < 0 then ascii "-" ++ digits n.natAbs else digits n.natAbs

/-- `u` millionths in fixed notation. -/
def fixed (u : Nat) : Bytes :=
  let frac := digits (u % 10 ^ 6)
  digits (u / 10 ^ 6) ++ ascii "." ++ List.replicate (6 - frac.length) 48 ++ frac

/-- `std::to_string` of a double. -/
def toStringDouble (x : Binary64) : Bytes :=
  (if x.negative then ascii "-" else []) ++
    if x.IsNaN then ascii "nan"
    else if x.IsInfinite then ascii "inf"
    else fixed (divHalfEven (Binary64.scaled x.pattern * 10 ^ 6) (2 ^ 1074))

/-- `static_cast<int>` of an unsigned number. -/
def toInt (n : Nat) : Int := ((n : Int) + 2 ^ 31) % 2 ^ 32 - 2 ^ 31

/-- `isspace` in the C locale. -/
def isSpace (c : UInt8) : Bool := c = 32 ∨ (9 ≤ c ∧ c ≤ 13)

/-- An optional sign; the flag is a minus. -/
def sign : Bytes → Bool × Bytes
  | 45 :: s => (true, s)
  | 43 :: s => (false, s)
  | s => (false, s)

def stoll (s : Bytes) : Option Int :=
  let (negative, s) := sign (s.dropWhile isSpace)
  let ds := s.takeWhile isDigit
  let n : Int := if negative then -ofDigits ds else ofDigits ds
  if ds = [] ∨ n < -2 ^ 63 ∨ 2 ^ 63 ≤ n then none else some n

/-- The digits of a number, how many of them stand after the point, and the rest of the text. -/
def mantissa (isDigit : UInt8 → Bool) (s : Bytes) : Bytes × Nat × Bytes :=
  let (whole, rest) := s.span isDigit
  match rest with
  | 46 :: t =>
    let (frac, rest) := t.span isDigit
    (whole ++ frac, frac.length, rest)
  | _ => (whole, 0, rest)

/-- The exponent part of a number after its mark in either case, zero if there is none. -/
def exponent (mark : UInt8) : Bytes → Int
  | c :: s =>
    if c = mark ∨ c + 32 = mark then
      let (negative, s) := sign s
      let e := ofDigits (s.takeWhile isDigit)
      if negative then -e else e
    else 0
  | [] => 0

/-- `m * base ^ e` as `strtod` rounds it. Results that overflow or underflow set `ERANGE`, which
`std::stod` throws on. -/
def ofPower (negative : Bool) (m base : Nat) (e : Int) : Option Binary64 :=
  let n := m * base ^ e.toNat
  let d := base ^ (-e).toNat
  let x := Binary64.ofQuotient negative n d
  if x.IsInfinite ∨ Binary64.Underflows n d then none else some x

/-- The word is a prefix of the text in either case. -/
def hasWord (word s : Bytes) : Bool :=
  word.isPrefixOf (s.map fun c => if 65 ≤ c ∧ c ≤ 90 then c + 32 else c)

def isHexDigit (c : UInt8) : Bool := (Hex.value c).isSome

def ofHexDigits (cs : Bytes) : Nat := cs.foldl (fun n c => 16 * n + (Hex.value c).getD 0) 0

/-- What follows `0x` in either case. -/
def afterHexMark : Bytes → Option Bytes
  | 48 :: c :: s => if c = 120 ∨ c = 88 then some s else none
  | _ => none

/-- A hexadecimal number after its mark; without a digit it is the zero of the mark. -/
def hexNumber (negative : Bool) (s : Bytes) : Option Binary64 :=
  let (ds, places, rest) := mantissa isHexDigit s
  if ds = [] then ofPower negative 0 2 0
  else ofPower negative (ofHexDigits ds) 2 (exponent 112 rest - 4 * places)

def decimalNumber (negative : Bool) (s : Bytes) : Option Binary64 :=
  let (ds, places, rest) := mantissa isDigit s
  if ds = [] then none else ofPower negative (ofDigits ds) 10 (exponent 101 rest - places)

def stod (s : Bytes) : Option Binary64 :=
  let (negative, s) := sign (s.dropWhile isSpace)
  if hasWord (ascii "inf") s then some ⟨negative, Binary64.infPattern, by decide⟩
  else if hasWord (ascii "nan") s then some ⟨negative, Binary64.infPattern + 2 ^ 51, by decide⟩
  else
    match afterHexMark s with
    | some rest => hexNumber negative rest
    | none => decimalNumber negative s

theorem toInt_lt (n : Nat) : toInt n < 2 ^ 31 := by
  unfold toInt
  omega

theorem toInt_of_lt {n : Nat} (h : n < 2 ^ 31) : toInt n = n := by
  unfold toInt
  omega

theorem toNat_toInt_le (n : Nat) : (toInt n).toNat ≤ n := by
  unfold toInt
  omega

theorem toNat_toInt_eq_iff {n : Nat} : (toInt n).toNat = n ↔ n < 2 ^ 31 := by
  unfold toInt
  omega

/-! ### Reading back an integer -/

theorem head_digits (n : Nat) : ∀ c ∈ (digits n).head?, isDigit c = true := fun c hc =>
  isDigit_of_mem_digits n c (List.mem_of_head? hc)

theorem isDigit_bounds {c : UInt8} (h : isDigit c = true) : 48 ≤ c.toNat ∧ c.toNat ≤ 57 := by
  simp only [isDigit, Bool.and_eq_true, decide_eq_true_eq, UInt8.le_iff_toNat_le] at h
  exact h

theorem isSpace_of_isDigit {c : UInt8} (h : isDigit c = true) : isSpace c = false := by
  obtain ⟨hlo, hhi⟩ := isDigit_bounds h
  simp only [isSpace, decide_eq_false_iff_not, UInt8.le_iff_toNat_le, ← UInt8.toNat_inj]
  rintro (heq | hle)
  · have : c.toNat = 32 := heq
    omega
  · have : c.toNat ≤ 13 := hle.2
    omega

theorem dropWhile_isSpace_of_head {s : Bytes} (h : ∀ c ∈ s.head?, isSpace c = false) :
    s.dropWhile isSpace = s := by
  cases s with
  | nil => rfl
  | cons c cs => exact List.dropWhile_cons_of_neg (by simp [h c rfl])

theorem dropWhile_isSpace_digits (n : Nat) : (digits n).dropWhile isSpace = digits n :=
  dropWhile_isSpace_of_head fun c hc => isSpace_of_isDigit (head_digits n c hc)

theorem sign_of_head {s : Bytes} (h : ∀ c ∈ s.head?, isDigit c = true) : sign s = (false, s) := by
  unfold sign
  split
  · exact absurd (h 45 rfl) (by decide)
  · exact absurd (h 43 rfl) (by decide)
  · rfl

theorem takeWhile_digits (n : Nat) : (digits n).takeWhile isDigit = digits n :=
  List.takeWhile_eq_self_iff.mpr (isDigit_of_mem_digits n)

theorem stoll_toString_eq (n : Int) :
    stoll (toString n) = if n < -2 ^ 63 ∨ 2 ^ 63 ≤ n then none else some n := by
  by_cases hneg : n < 0
  · have hminus : toString n = 45 :: digits n.natAbs := if_pos hneg
    have hdrop : (45 :: digits n.natAbs).dropWhile isSpace = 45 :: digits n.natAbs :=
      List.dropWhile_cons_of_neg (by decide)
    have hvalue : -((n.natAbs : Nat) : Int) = n := by omega
    rw [hminus, stoll, hdrop]
    simp only [sign, takeWhile_digits, ofDigits_digits, digits_ne_nil, hvalue, if_true, false_or]
  · have hplain : toString n = digits n.natAbs := if_neg hneg
    have hvalue : ((n.natAbs : Nat) : Int) = n := by omega
    rw [hplain, stoll, dropWhile_isSpace_digits, sign_of_head (head_digits _)]
    simp only [takeWhile_digits, ofDigits_digits, digits_ne_nil, hvalue, Bool.false_eq_true,
      if_false, false_or]

theorem stoll_toString {n : Int} (hlo : -2 ^ 63 ≤ n) (hhi : n < 2 ^ 63) :
    stoll (toString n) = some n := by
  rw [stoll_toString_eq, if_neg (by omega)]

/-! ### Reading a numeral -/

theorem exponent_text (e : Exponent) : exponent 101 (101 :: e.text) = e.value := by
  have hhead : ∀ c ∈ e.digits.head?, isDigit c = true := fun c hc =>
    e.isDigit_digits c (List.mem_of_head? hc)
  have htake : e.digits.takeWhile isDigit = e.digits :=
    List.takeWhile_eq_self_iff.mpr e.isDigit_digits
  have hsign : sign e.text = (decide (e.sign = some true), e.digits) := by
    unfold Exponent.text
    cases e.sign with
    | none => exact sign_of_head hhead
    | some negative => cases negative <;> rfl
  unfold exponent Exponent.value
  simp [hsign, htake]

theorem exponent_tail (t : Numeral) : exponent 101 t.tail - (t.frac.getD []).length = t.place := by
  unfold Numeral.tail Numeral.place
  cases t.exponent with
  | none => rfl
  | some e =>
    show exponent 101 (101 :: e.text) - _ = _
    rw [exponent_text]

theorem mantissa_text (t : Numeral) :
    mantissa isDigit t.text = (t.whole ++ t.frac.getD [], (t.frac.getD []).length, t.tail) := by
  unfold mantissa Numeral.text
  cases hfrac : t.frac with
  | none =>
    have hspan : (t.whole ++ t.tail).span isDigit = (t.whole, t.tail) :=
      Numeral.span_append t.isDigit_whole fun c hc => t.tail_head c hc ▸ rfl
    have hpoint : ∀ s, t.tail ≠ 46 :: s := by
      intro s hs
      have hc := t.tail_head 46 (by rw [hs]; rfl)
      exact absurd hc (by decide)
    simp only [hspan]
    rw [Option.getD_none, List.append_nil]
    rfl
  | some ds =>
    have hspan : (t.whole ++ 46 :: (ds ++ t.tail)).span isDigit = (t.whole, 46 :: (ds ++ t.tail)) :=
      Numeral.span_append t.isDigit_whole fun c hc => Option.some.inj hc ▸ rfl
    simp only [hspan, t.span_frac (Option.mem_def.mpr hfrac)]
    rfl

theorem head_text (t : Numeral) : ∀ c ∈ t.text.head?, isDigit c = true := by
  intro c hc
  unfold Numeral.text at hc
  rw [List.head?_append_of_ne_nil _ t.whole_ne_nil] at hc
  exact t.head_whole c hc

theorem second_text {t : Numeral} {c c' : UInt8} {s : Bytes} (h : t.text = c :: c' :: s) :
    isDigit c' = true ∨ c' = 46 ∨ c' = 101 := by
  unfold Numeral.text at h
  cases hwhole : t.whole with
  | nil => exact absurd hwhole t.whole_ne_nil
  | cons d ds =>
    rw [hwhole, List.cons_append] at h
    have hrest := (List.cons.inj h).2
    cases ds with
    | cons d' ds =>
      have hmem : d' ∈ t.whole := by simp [hwhole]
      exact .inl ((List.cons.inj hrest).1 ▸ t.isDigit_whole d' hmem)
    | nil =>
      rw [List.nil_append] at hrest
      split at hrest
      · exact .inr (.inr (t.tail_head c' (by rw [hrest]; rfl)))
      · exact .inr (.inl (List.cons.inj hrest).1.symm)

theorem afterHexMark_text (t : Numeral) : afterHexMark t.text = none := by
  unfold afterHexMark
  split
  · rename_i c s heq
    refine if_neg ?_
    rcases second_text heq with hdigit | rfl | rfl
    · rintro (rfl | rfl) <;> exact absurd hdigit (by decide)
    · decide
    · decide
  · rfl

theorem hasWord_of_head {word s : Bytes} {l : UInt8} (hword : word.head? = some l)
    (hletter : isDigit l = false) (h : ∀ c ∈ s.head?, isDigit c = true) : hasWord word s = false := by
  obtain ⟨rest, rfl⟩ : ∃ rest, word = l :: rest := List.head?_eq_some_iff.mp hword
  cases s with
  | nil => rfl
  | cons c cs =>
    have hc := h c rfl
    have hbounds := isDigit_bounds hc
    have hlower : ¬ (65 ≤ c ∧ c ≤ 90) := by
      rw [UInt8.le_iff_toNat_le]
      intro hle
      have : 65 ≤ c.toNat := hle.1
      omega
    have hne : (l == c) = false := by
      rw [beq_eq_false_iff_ne]
      rintro rfl
      rw [hc] at hletter
      cases hletter
    unfold hasWord
    rw [List.map_cons, if_neg hlower, List.isPrefixOf_cons_cons, hne, Bool.false_and]

/-- **A numeral** is read as the number nearest to its value, where that neither overflows nor
underflows. -/
theorem stod_signed (negative : Bool) (t : Numeral) :
    stod (t.signed negative) = ofPower negative t.mantissa 10 t.place := by
  have hstart : sign ((t.signed negative).dropWhile isSpace) = (negative, t.text) := by
    cases negative with
    | true =>
      have hdrop : (45 :: t.text).dropWhile isSpace = 45 :: t.text :=
        List.dropWhile_cons_of_neg (by decide)
      exact congrArg sign hdrop
    | false =>
      show sign (t.text.dropWhile isSpace) = (false, t.text)
      rw [dropWhile_isSpace_of_head fun c hc => isSpace_of_isDigit (head_text t c hc)]
      exact sign_of_head (head_text t)
  have hne : t.whole ++ t.frac.getD [] ≠ [] := List.append_ne_nil_of_left_ne_nil t.whole_ne_nil _
  have hinf : hasWord (ascii "inf") t.text = false := hasWord_of_head rfl (by decide) (head_text t)
  have hnan : hasWord (ascii "nan") t.text = false := hasWord_of_head rfl (by decide) (head_text t)
  unfold stod
  rw [hstart]
  simp only [hinf, hnan, afterHexMark_text, decimalNumber, mantissa_text, Bool.false_eq_true,
    if_false, if_neg hne, exponent_tail]
  rfl

section

open Binary64

variable {x : Binary64} {t : Numeral}

theorem nearest_numeral (t : Numeral) :
    nearest (t.mantissa * 10 ^ t.place.toNat) (10 ^ (-t.place).toNat) = nearestRat t.value := by
  rw [Numeral.value, decimal_eq_quotient, nearestRat_div (Nat.pow_pos (by decide))]

/-- A precise decimal is read back unless the number is subnormal, where it throws. -/
theorem stod_precise (hfin : x.IsFinite) (h : Precise x t.value) :
    stod (t.signed x.negative) = if x.IsSubnormal then none else some x := by
  have hd : 0 < 10 ^ (-t.place).toNat := Nat.pow_pos (by decide)
  have hnearest := (nearest_numeral t).trans h.rounds
  have hunder := precise_underflows_iff hd (decimal_eq_quotient t.mantissa t.place) hfin h
  have hinf : ¬ x.IsInfinite := hfin.ne
  rw [stod_signed, ofPower, ofQuotient_eq_iff.mpr hnearest]
  simp only [hinf, hunder, false_or]

end

/-! ### Fixed notation -/

theorem exists_fixed_eq (u : Nat) :
    ∃ frac, fixed u = digits (u / 10 ^ 6) ++ 46 :: frac ∧ frac.length = 6 ∧
      (∀ c ∈ frac, isDigit c = true) ∧ ofDigits frac = u % 10 ^ 6 := by
  have hlt : u % 10 ^ 6 < 10 ^ 6 := Nat.mod_lt _ (by decide)
  have hlen : (digits (u % 10 ^ 6)).length ≤ 6 := (length_digits_le_iff (by decide)).mpr hlt
  refine ⟨List.replicate (6 - (digits (u % 10 ^ 6)).length) 48 ++ digits (u % 10 ^ 6), ?_, ?_, ?_, ?_⟩
  · unfold fixed
    simp only [List.append_assoc]
    rfl
  · rw [List.length_append, List.length_replicate]
    omega
  · intro c hc
    rcases List.mem_append.mp hc with hc | hc
    · rw [List.eq_of_mem_replicate hc]
      rfl
    · exact isDigit_of_mem_digits _ c hc
  · rw [ofDigits_replicate_append, ofDigits_digits]

/-! ### No NUL byte is written -/

theorem zero_not_mem_of_isDigit {s : Bytes} (h : ∀ c ∈ s, isDigit c = true) : 0 ∉ s := by
  intro hmem
  have hzero := h 0 hmem
  cases hzero

theorem zero_not_mem_toString (n : Int) : 0 ∉ toString n := by
  have hdigits : 0 ∉ digits n.natAbs := zero_not_mem_of_isDigit (isDigit_of_mem_digits _)
  unfold toString
  split_ifs
  · rw [List.mem_append, not_or]
    exact ⟨by decide, hdigits⟩
  · exact hdigits

theorem zero_not_mem_fixed (u : Nat) : 0 ∉ fixed u := by
  obtain ⟨frac, hfixed, _, hdigits, _⟩ := exists_fixed_eq u
  rw [hfixed, List.mem_append, List.mem_cons, not_or, not_or]
  exact ⟨zero_not_mem_of_isDigit (isDigit_of_mem_digits _), by decide,
    zero_not_mem_of_isDigit hdigits⟩

theorem zero_not_mem_toStringDouble (x : Binary64) : 0 ∉ toStringDouble x := by
  unfold toStringDouble
  rw [List.mem_append, not_or]
  constructor
  · split_ifs <;> decide
  · split_ifs
    · decide
    · decide
    · exact zero_not_mem_fixed _

end StormByteDatabase.Cxx
