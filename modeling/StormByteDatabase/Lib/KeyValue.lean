import Mathlib.Data.List.Perm.Basic
import Mathlib.Algebra.Order.BigOperators.Group.List
import Mathlib.Algebra.Order.Ring.Nat
import Mathlib.Tactic.SplitIfs

/-!
# Keyword and value texts

The grammar of a text of pairs `keyword = value`: blanks separate pairs and may stand around the
equals sign, a value may be in single quotes, a backslash makes the next byte ordinary, and a later
pair of a keyword takes the place of an earlier one. `parse` gives the pairs in the order of the
text and `effective` the ones that stay.

`clean_of_unquote`: the quoted form of a value, written without escapes, is read as the value only if
the value has no quote and no backslash. `weight_parse` counts the equals signs of a text, one for
each pair and those in the values; by `effective_eq_of_weight` a text with no more of them than its
effective pairs need has no pair that is overridden. `getLast?_of_append_quote`: a text that is
accepted and ends in a plain pair after a quote and a blank has this pair as its last one, whatever
stands before.
-/

namespace Lib.KeyValue

abbrev quote : UInt8 := 39
abbrev backslash : UInt8 := 92
abbrev equals : UInt8 := 61

/-- The blanks of the C locale. -/
def isSpace (c : UInt8) : Bool := c = 32 ∨ (9 ≤ c ∧ c ≤ 13)

/-- A keyword with its value. -/
abbrev Pair := List UInt8 × List UInt8

/-- Where in the text the reader is, with what it has read of the pair. -/
inductive Scan
  | blank
  | name (n : List UInt8)
  | afterName (n : List UInt8)
  | beforeValue (n : List UInt8)
  | bare (n v : List UInt8)
  | bareEscape (n v : List UInt8)
  | quoted (n v : List UInt8)
  | quotedEscape (n v : List UInt8)
  deriving DecidableEq, Repr

/-- The pairs from a place of the text on; `none` is a missing equals sign or closing quote. -/
def parse : Scan → List UInt8 → Option (List Pair)
  | .blank, [] => some []
  | .blank, c :: cs =>
    if isSpace c then parse .blank cs
    else if c = equals then parse (.beforeValue []) cs
    else parse (.name [c]) cs
  | .name _, [] => none
  | .name n, c :: cs =>
    if c = equals then parse (.beforeValue n) cs
    else if isSpace c then parse (.afterName n) cs
    else parse (.name (n ++ [c])) cs
  | .afterName _, [] => none
  | .afterName n, c :: cs =>
    if c = equals then parse (.beforeValue n) cs
    else if isSpace c then parse (.afterName n) cs
    else none
  | .beforeValue n, [] => some [(n, [])]
  | .beforeValue n, c :: cs =>
    if isSpace c then parse (.beforeValue n) cs
    else if c = quote then parse (.quoted n []) cs
    else if c = backslash then parse (.bareEscape n []) cs
    else parse (.bare n [c]) cs
  | .bare n v, [] => some [(n, v)]
  | .bare n v, c :: cs =>
    if isSpace c then (parse .blank cs).map ((n, v) :: ·)
    else if c = backslash then parse (.bareEscape n v) cs
    else parse (.bare n (v ++ [c])) cs
  | .bareEscape n v, [] => some [(n, v)]
  | .bareEscape n v, c :: cs => parse (.bare n (v ++ [c])) cs
  | .quoted _ _, [] => none
  | .quoted n v, c :: cs =>
    if c = backslash then parse (.quotedEscape n v) cs
    else if c = quote then (parse .blank cs).map ((n, v) :: ·)
    else parse (.quoted n (v ++ [c])) cs
  | .quotedEscape _ _, [] => none
  | .quotedEscape n v, c :: cs => parse (.quoted n (v ++ [c])) cs

/-- The pairs whose keyword has no later pair. -/
def effective : List Pair → List Pair
  | [] => []
  | p :: ps => if ∃ q ∈ ps, q.1 = p.1 then effective ps else p :: effective ps

/-! ### Counting equals signs -/

/-- The equals signs a pair needs: its own, and those in the value. -/
def weight (p : Pair) : Nat := 1 + p.2.count equals

/-- The equals signs that what has been read of the pair accounts for. -/
def Scan.pending : Scan → Nat
  | .blank => 0
  | .name _ => 0
  | .afterName _ => 0
  | .beforeValue _ => 1
  | .bare _ v => 1 + v.count equals
  | .bareEscape _ v => 1 + v.count equals
  | .quoted _ v => 1 + v.count equals
  | .quotedEscape _ v => 1 + v.count equals

theorem not_isSpace_equals : isSpace equals = false := rfl

theorem ne_equals_of_isSpace {c : UInt8} (h : isSpace c = true) : c ≠ equals := by
  rintro rfl
  rw [not_isSpace_equals] at h
  cases h

theorem count_concat (c : UInt8) (v : List UInt8) :
    (v ++ [c]).count equals = v.count equals + if c = equals then 1 else 0 := by
  rw [List.count_append, List.count_singleton]
  simp [beq_iff_eq]

theorem count_cons (c : UInt8) (cs : List UInt8) :
    (c :: cs).count equals = cs.count equals + if c = equals then 1 else 0 := by
  rw [List.count_cons]
  simp [beq_iff_eq]

/-- Every equals sign of the text ends the keyword of a pair or lies in a value. -/
theorem weight_parse {st : Scan} {cs : List UInt8} {ps : List Pair} (h : parse st cs = some ps) :
    (ps.map weight).sum = st.pending + cs.count equals := by
  fun_induction parse st cs generalizing ps
  case case1 | case13 | case18 | case22 =>
    obtain rfl := Option.some.inj h
    simp [weight, Scan.pending]
  case case5 | case9 | case12 | case24 | case28 => cases h
  -- a blank or a quote closes the pair
  case case19 n v c cs hspace ih =>
    obtain ⟨qs, hqs, rfl⟩ := Option.map_eq_some_iff.mp h
    have hne := ne_equals_of_isSpace hspace
    rw [List.map_cons, List.sum_cons, ih hqs, count_cons, if_neg hne]
    simp only [weight, Scan.pending]
    omega
  case case26 n v cs _ ih =>
    obtain ⟨qs, hqs, rfl⟩ := Option.map_eq_some_iff.mp h
    rw [List.map_cons, List.sum_cons, ih hqs, count_cons, if_neg (by decide)]
    simp only [weight, Scan.pending]
    omega
  -- a byte that is no equals sign and is not kept
  case case2 c _ hspace ih | case7 c _ _ hspace ih | case11 c _ _ hspace ih | case14 c _ hspace ih =>
    rw [ih h, count_cons, if_neg (ne_equals_of_isSpace hspace)]
    rfl
  case case4 c _ _ hne ih | case8 c _ hne _ ih =>
    rw [ih h, count_cons, if_neg hne]
    rfl
  case case15 ih | case16 ih | case20 ih | case25 ih =>
    rw [ih h, count_cons, if_neg (by decide)]
    rfl
  -- the equals sign of the pair
  case case3 ih | case6 ih | case10 ih =>
    rw [ih h, count_cons, if_pos rfl]
    simp only [Scan.pending]
    omega
  -- a byte of the value
  case case17 n c cs _ _ _ ih =>
    rw [ih h, count_cons]
    simp only [Scan.pending, count_cons, List.count_nil]
    omega
  case case21 ih | case23 ih | case27 ih | case29 ih =>
    rw [ih h, count_cons]
    simp only [Scan.pending, count_concat]
    omega

/-! ### Pairs that stay -/

theorem effective_sublist (ps : List Pair) : (effective ps).Sublist ps := by
  induction ps with
  | nil => exact List.Sublist.refl _
  | cons p ps ih =>
    unfold effective
    split_ifs
    · exact ih.cons p
    · exact ih.cons_cons p

theorem effective_of_nodup {ps : List Pair} (h : (ps.map Prod.fst).Nodup) : effective ps = ps := by
  induction ps with
  | nil => rfl
  | cons p ps ih =>
    rw [List.map_cons, List.nodup_cons] at h
    rw [effective, if_neg, ih h.2]
    rintro ⟨q, hq, heq⟩
    exact h.1 (List.mem_map.mpr ⟨q, hq, heq⟩)

/-- A list with no more equals signs than its effective pairs need has no pair overridden. -/
theorem effective_eq_of_weight {ps : List Pair}
    (h : (ps.map weight).sum ≤ ((effective ps).map weight).sum) : effective ps = ps := by
  induction ps with
  | nil => rfl
  | cons p ps ih =>
    have hle : ((effective ps).map weight).sum ≤ (ps.map weight).sum :=
      ((effective_sublist ps).map weight).sum_le_sum fun _ _ => Nat.zero_le _
    unfold effective at h ⊢
    split_ifs at h ⊢ with hover
    · rw [List.map_cons, List.sum_cons] at h
      have : 1 ≤ weight p := Nat.le_add_right 1 _
      omega
    · rw [List.map_cons, List.map_cons, List.sum_cons, List.sum_cons] at h
      rw [ih (by omega)]

/-! ### Quoted values -/

/-- The value after an opening quote, and the text after its closing quote; `escaped` says that a
backslash came before. -/
def unquote : Bool → List UInt8 → Option Pair
  | _, [] => none
  | true, c :: cs => (unquote false cs).map fun p => (c :: p.1, p.2)
  | false, c :: cs =>
    if c = quote then some ([], cs)
    else if c = backslash then unquote true cs
    else (unquote false cs).map fun p => (c :: p.1, p.2)

/-- No byte that the quoted form would have to escape. -/
def Clean (v : List UInt8) : Prop := quote ∉ v ∧ backslash ∉ v

instance (v : List UInt8) : Decidable (Clean v) := inferInstanceAs (Decidable (_ ∧ _))

theorem parse_quoted (escaped : Bool) (n v cs : List UInt8) :
    parse (if escaped then .quotedEscape n v else .quoted n v) cs =
      (unquote escaped cs).bind fun p => (parse .blank p.2).map ((n, v ++ p.1) :: ·) := by
  induction cs generalizing escaped v with
  | nil => cases escaped <;> rfl
  | cons c cs ih =>
    cases escaped with
    | true =>
      have hnext := ih false (v ++ [c])
      simp only [if_true, parse, unquote, Bool.false_eq_true, if_false] at hnext ⊢
      rw [hnext, Option.bind_map]
      simp
    | false =>
      simp only [Bool.false_eq_true, if_false, parse, unquote]
      by_cases hquote : c = quote
      · subst hquote
        rw [if_neg (by decide), if_pos rfl, if_pos rfl, Option.bind_some, List.append_nil]
      · by_cases hback : c = backslash
        · have hnext := ih true v
          simp only [if_true] at hnext
          rw [if_pos hback, hnext, if_neg hquote, if_pos hback]
        · have hnext := ih false (v ++ [c])
          simp only [Bool.false_eq_true, if_false] at hnext
          rw [if_neg hback, if_neg hquote, hnext, if_neg hquote, if_neg hback, Option.bind_map]
          simp

theorem unquote_clean {v tail : List UInt8} (h : Clean v) :
    unquote false (v ++ quote :: tail) = some (v, tail) := by
  induction v with
  | nil => rfl
  | cons c v ih =>
    obtain ⟨hquote, hback⟩ := h
    rw [List.mem_cons, not_or] at hquote hback
    rw [List.cons_append, unquote, if_neg (Ne.symm hquote.1), if_neg (Ne.symm hback.1),
      ih ⟨hquote.2, hback.2⟩]
    rfl

theorem unquote_ne {escaped : Bool} {r tail rest u : List UInt8}
    (h : unquote escaped (r ++ quote :: tail) = some (u, rest)) (k : Nat) :
    u ≠ List.replicate (k + 1) backslash ++ r := by
  induction r generalizing escaped u rest k with
  | nil =>
    cases escaped with
    | true =>
      obtain ⟨p, _, hp⟩ := Option.map_eq_some_iff.mp h
      obtain ⟨rfl, _⟩ := Prod.mk.inj hp
      rintro heq
      cases (List.cons.inj heq).1
    | false =>
      obtain ⟨rfl, _⟩ := Prod.mk.inj (Option.some.inj h)
      simp [List.replicate_succ]
  | cons c r ih =>
    -- the reader copies `c`, so `c` is the first backslash and one is left before `r`
    have hcopy : ∀ p : Pair, unquote false (r ++ quote :: tail) = some p →
        c :: p.1 ≠ List.replicate (k + 1) backslash ++ c :: r := by
      intro p hp heq
      rw [List.replicate_succ, List.cons_append] at heq
      obtain ⟨hc, hrest⟩ := List.cons.inj heq
      refine ih hp k ?_
      rw [hrest, hc, List.replicate_succ', List.append_assoc]
      rfl
    rw [List.cons_append] at h
    cases escaped with
    | true =>
      obtain ⟨p, hp, heq⟩ := Option.map_eq_some_iff.mp h
      exact (Prod.mk.inj heq).1 ▸ hcopy p hp
    | false =>
      rw [unquote] at h
      split_ifs at h with hquote hback
      · obtain ⟨rfl, _⟩ := Prod.mk.inj (Option.some.inj h)
        simp [List.replicate_succ]
      · have hmore := ih h (k + 1)
        rw [List.replicate_succ', List.append_assoc] at hmore
        rw [hback]
        exact hmore
      · obtain ⟨p, hp, heq⟩ := Option.map_eq_some_iff.mp h
        exact (Prod.mk.inj heq).1 ▸ hcopy p hp

theorem clean_of_unquote {v tail rest : List UInt8}
    (h : unquote false (v ++ quote :: tail) = some (v, rest)) : Clean v := by
  induction v with
  | nil => exact ⟨List.not_mem_nil, List.not_mem_nil⟩
  | cons c v ih =>
    rw [List.cons_append, unquote] at h
    split_ifs at h with hquote hback
    · cases (Prod.mk.inj (Option.some.inj h)).1
    · exact absurd (by rw [hback]; rfl) (unquote_ne h 0)
    · obtain ⟨p, hp, heq⟩ := Option.map_eq_some_iff.mp h
      obtain ⟨hv, hrest⟩ := Prod.mk.inj heq
      have hclean := ih (by rw [hp, ← (List.cons.inj hv).2, ← hrest])
      unfold Clean
      rw [List.mem_cons, List.mem_cons, not_or, not_or]
      exact ⟨⟨Ne.symm hquote, hclean.1⟩, ⟨Ne.symm hback, hclean.2⟩⟩

/-! ### The end of a text -/

theorem unquote_eq_none {escaped : Bool} {cs : List UInt8} (h : quote ∉ cs) :
    unquote escaped cs = none := by
  induction cs generalizing escaped with
  | nil => cases escaped <;> rfl
  | cons c cs ih =>
    obtain ⟨hc, hcs⟩ := not_or.mp (List.mem_cons.not.mp h)
    cases escaped with
    | true => rw [unquote, ih hcs, Option.map_none]
    | false =>
      rw [unquote, if_neg (Ne.symm hc), ih hcs, ih hcs, Option.map_none]
      split_ifs <;> rfl

theorem parse_quoted_eq_none {n v cs : List UInt8} (h : quote ∉ cs) :
    parse (.quoted n v) cs = none := by
  have hquoted := parse_quoted false n v cs
  rwa [unquote_eq_none h, Option.bind_none] at hquoted

/-- After a quote and a blank the reader is between two pairs, or it does not accept a text that goes
on without quotes and not with an equals sign. -/
theorem parse_append_quote {st : Scan} {cs tail : List UInt8} {c : UInt8} {ps : List Pair}
    (hspace : isSpace c = false) (hequals : c ≠ equals) (hquote : quote ∉ c :: tail)
    (h : parse st (cs ++ quote :: 32 :: c :: tail) = some ps) :
    ∃ pre qs, parse .blank (c :: tail) = some qs ∧ ps = pre ++ qs := by
  induction cs generalizing st ps with
  | nil =>
    have hblank : isSpace 32 = true := rfl
    have hnoQuote : quote ∉ 32 :: c :: tail := List.not_mem_cons_of_ne_of_not_mem (by decide) hquote
    have hname : ∀ n, parse (.name n) (32 :: c :: tail) = none := fun n => by
      rw [parse, if_neg (by decide), if_pos hblank, parse, if_neg hequals, if_neg (by simp [hspace])]
    have hquoted : ∀ n v, parse (.quoted n v) (32 :: c :: tail) = none := fun n v =>
      parse_quoted_eq_none hnoQuote
    have hclosed : parse .blank (32 :: c :: tail) = parse .blank (c :: tail) := by
      rw [parse, if_pos hblank]
    have hbare : ∀ n v, parse (.bare n v) (32 :: c :: tail) =
        (parse .blank (c :: tail)).map ((n, v) :: ·) := fun n v => by
      conv_lhs => rw [parse, if_pos hblank]
    rw [List.nil_append] at h
    cases st with
    | blank =>
      rw [parse, if_neg (by decide), if_neg (by decide), hname] at h
      cases h
    | name n =>
      rw [parse, if_neg (by decide), if_neg (by decide), hname] at h
      cases h
    | afterName n =>
      rw [parse, if_neg (by decide), if_neg (by decide)] at h
      cases h
    | beforeValue n =>
      rw [parse, if_neg (by decide), if_pos rfl, hquoted] at h
      cases h
    | bare n v =>
      rw [parse, if_neg (by decide), if_neg (by decide), hbare] at h
      obtain ⟨qs, hqs, rfl⟩ := Option.map_eq_some_iff.mp h
      exact ⟨[_], qs, hqs, rfl⟩
    | bareEscape n v =>
      rw [parse, hbare] at h
      obtain ⟨qs, hqs, rfl⟩ := Option.map_eq_some_iff.mp h
      exact ⟨[_], qs, hqs, rfl⟩
    | quoted n v =>
      rw [parse, if_neg (by decide), if_pos rfl, hclosed] at h
      obtain ⟨qs, hqs, rfl⟩ := Option.map_eq_some_iff.mp h
      exact ⟨[_], qs, hqs, rfl⟩
    | quotedEscape n v =>
      rw [parse, hquoted] at h
      cases h
  | cons d cs ih =>
    -- a byte closes a pair or leads to another place of the reader
    have hpair : ∀ p : Pair, (parse .blank (cs ++ quote :: 32 :: c :: tail)).map (p :: ·) = some ps →
        ∃ pre qs, parse .blank (c :: tail) = some qs ∧ ps = pre ++ qs := by
      intro p hp
      obtain ⟨rs, hrs, rfl⟩ := Option.map_eq_some_iff.mp hp
      obtain ⟨pre, qs, hqs, rfl⟩ := ih hrs
      exact ⟨p :: pre, qs, hqs, rfl⟩
    rw [List.cons_append] at h
    cases st <;> rw [parse] at h <;> first
      | exact ih h
      | (split_ifs at h <;> first
          | exact ih h
          | exact hpair _ h)

theorem getLast?_of_append_quote {st : Scan} {cs tail : List UInt8} {c : UInt8} {ps : List Pair}
    {p : Pair} (hspace : isSpace c = false) (hequals : c ≠ equals) (hquote : quote ∉ c :: tail)
    (hp : parse .blank (c :: tail) = some [p])
    (h : parse st (cs ++ quote :: 32 :: c :: tail) = some ps) : ps.getLast? = some p := by
  obtain ⟨pre, qs, hqs, rfl⟩ := parse_append_quote hspace hequals hquote h
  obtain rfl : [p] = qs := Option.some.inj (hp.symm.trans hqs)
  rw [List.getLast?_append, List.getLast?_singleton, Option.some_or]

end Lib.KeyValue
