import StormByteDatabase.Database.Echo
import StormByteDatabase.Lib.Hex
import StormByteDatabase.Postgres.Parameters
import StormByteDatabase.Postgres.ResultFetch
import StormByteDatabase.Postgres.RoundTrip

/-!
# Arguments that come back from PostgreSQL

`SELECT $1, ..., $k` with a column for each parameter, of a type that suits its argument (`Fits`). The
server reads each parameter and sends the value in text format: a boolean as `t` or `f`, an integer as
its numeral, a double with the digits it takes to read it back, a `bytea` in hexadecimal digits. Which
bytes it reads is `PreparedSTMT.Denotes`; a pointer to a place that was left designates nothing.

`postgres_echo_iff`: after any calls of `Execute` before, every parameter can be read, and any reading
gives a row with the arguments, exactly when no text within the inline length is followed by one that
finds the string storage full, no text has a NUL byte, each blob has bytes, and fewer than 2^31, and
each double is the one nearest to some number of millionths.

Proof. What a parameter is read as is known from `Kept`, argument by argument. The text of an argument
is sent back as a text from which `StepResults` makes the same value, and nothing else is.
-/

namespace StormByteDatabase.Postgres

open Lib
open Decimal (Numeral)

variable {w : LongWidth}

/-- The types of the columns, each with its object identifier. -/
inductive ColumnType
  | bool
  | int2
  | int4
  | int8
  | float8
  | text
  | bytea
  deriving DecidableEq, Repr

def ColumnType.oid : ColumnType → Nat
  | .bool => 16
  | .int2 => 21
  | .int4 => 23
  | .int8 => 20
  | .float8 => 701
  | .text => 25
  | .bytea => 17

/-- The width of an integer type. -/
def ColumnType.bits : ColumnType → Option Nat
  | .int2 => some 16
  | .int4 => some 32
  | .int8 => some 64
  | _ => none

structure Column where
  name : Bytes
  type : ColumnType
  deriving DecidableEq, Repr

def Column.field (c : Column) : Field := ⟨some c.name, c.type.oid⟩

/-- What depends on the server: the texts that are valid in its encoding, and its text of a double. -/
structure Server where
  validText : Bytes → Bool
  float8out : Binary64 → Bytes

/-- The numeral of an integer; other spellings the server knows are not sent. -/
def intin (s : Bytes) : Option Int :=
  let (negative, ds) := Cxx.sign s
  if ds ≠ [] ∧ ds.all Decimal.isDigit then
    some (if negative then -Decimal.ofDigits ds else Decimal.ofDigits ds)
  else none

/-- The words of `Binder` for a boolean. -/
def boolin (s : Bytes) : Option Bool :=
  if s = ascii "true" then some true else if s = ascii "false" then some false else none

/-- `bytea` in the hexadecimal format. -/
def byteaout (b : Bytes) : Bytes := ascii "\\x" ++ Hex.encode b

/-- An integer of a column with this width. -/
def intReturned (bits : Nat) (s : Bytes) : Option Bytes := do
  let n ← intin s
  if -2 ^ (bits - 1) ≤ n ∧ n < 2 ^ (bits - 1) then some (Cxx.toString n) else none

/-- The text that is sent for the bytes read of a parameter, in the format that goes with the type;
`none` where the server refuses them. -/
def Server.returned (server : Server) : ColumnType → Bytes → Option Bytes
  | .bool, s => (boolin s).map fun b => if b then ascii "t" else ascii "f"
  | .int2, s => intReturned 16 s
  | .int4, s => intReturned 32 s
  | .int8, s => intReturned 64 s
  | .float8, s => (float8in s).map server.float8out
  | .text, s => if server.validText s then some s else none
  | .bytea, s => some (byteaout s)

/-- The cell for a parameter; NULL stays NULL. -/
def Server.cell (server : Server) (type : ColumnType) : Option Bytes → Option (Option Bytes)
  | none => some none
  | some s => (server.returned type s).map some

/-- The cells of the row; there is none where the number of parameters is not that of the columns. -/
def Server.cells (server : Server) : List Column → List (Option Bytes) → Option (List (Option Bytes))
  | [], [] => some []
  | c :: columns, r :: readings => do
    let cell ← server.cell c.type r
    let rest ← server.cells columns readings
    some (cell :: rest)
  | _, _ => none

theorem cells_length {server : Server} {columns : List Column} {readings row : List (Option Bytes)}
    (h : server.cells columns readings = some row) : row.length = columns.length := by
  induction columns generalizing readings row with
  | nil =>
    cases readings with
    | nil =>
      obtain rfl := Option.some.inj h
      rfl
    | cons r readings => cases h
  | cons c columns ih =>
    cases readings with
    | nil => cases h
    | cons r readings =>
      simp only [Server.cells, Option.bind_eq_bind, Option.bind_eq_some_iff] at h
      obtain ⟨cell, _, rest, hrest, heq⟩ := h
      obtain rfl := Option.some.inj heq
      exact congrArg (· + 1) (ih hrest)

/-- The result of the statement: one row, or an error. -/
def Server.echo (server : Server) (columns : List Column) (readings : List (Option Bytes)) :
    PGResult :=
  match h : server.cells columns readings with
  | some row =>
    { status := .tuplesOk
      errorMessage := none
      fields := columns.map Column.field
      rows := [row]
      width := by simpa using cells_length h }
  | none => { status := .other, errorMessage := none, fields := [], rows := [], width := by simp }

/-- The server reads these bytes of the parameters. -/
def Reads (t : PreparedSTMT) (readings : List (Option Bytes)) : Prop :=
  List.Forall₂ (fun p d => t.Denotes p d) t.params readings

/-- What the server sends for a double is precise. -/
def Server.SendsPrecisely (server : Server) (x : Binary64) : Prop :=
  ∃ t : Numeral, server.float8out x = t.signed x.negative ∧ x.Precise t.value

/-- The double is the one nearest to some number of millionths, as `std::to_string` writes no more. -/
def InMillionths (v : Value w) : Prop :=
  match v with
  | .double x => ∃ m, Binary64.nearest m (10 ^ 6) = x.pattern
  | _ => True

/-- The type of the column suits the argument: a number is one of it and of `long int`, a text is
valid, and a double is finite. -/
def Fits (server : Server) (v : Value w) (c : Column) : Prop :=
  match v with
  | .null => True
  | .boolean _ => c.type = .bool
  | .double x => c.type = .float8 ∧ x.IsFinite
  | .text s => c.type = .text ∧ server.validText s = true
  | .blob _ => c.type = .bytea
  | v => ∃ bits, c.type.bits = some bits ∧ ∀ n ∈ v.number,
      (-2 ^ (bits - 1) ≤ n ∧ n < 2 ^ (bits - 1)) ∧ (Integral.num .longInt).InRange w n

/-! ### What the server makes of a text -/

theorem intin_toString (n : Int) : intin (Cxx.toString n) = some n := by
  have hdigits : ∀ k, (Decimal.digits k).all Decimal.isDigit = true := fun k =>
    List.all_eq_true.mpr (Decimal.isDigit_of_mem_digits k)
  unfold intin
  by_cases hneg : n < 0
  · have hminus : Cxx.toString n = 45 :: Decimal.digits n.natAbs := if_pos hneg
    have hvalue : -((n.natAbs : Nat) : Int) = n := by omega
    rw [hminus]
    simp only [Cxx.sign, hdigits, Decimal.digits_ne_nil, Decimal.ofDigits_digits, hvalue, if_true,
      ne_eq, not_false_eq_true, and_self]
  · have hplain : Cxx.toString n = Decimal.digits n.natAbs := if_neg hneg
    have hvalue : ((n.natAbs : Nat) : Int) = n := by omega
    rw [hplain, Cxx.sign_of_head (Cxx.head_digits _)]
    simp only [hdigits, Decimal.digits_ne_nil, Decimal.ofDigits_digits, hvalue, if_true, ne_eq,
      not_false_eq_true, and_self, Bool.false_eq_true, if_false]

theorem intReturned_toString {bits : Nat} {n : Int} (h : -2 ^ (bits - 1) ≤ n ∧ n < 2 ^ (bits - 1)) :
    intReturned bits (Cxx.toString n) = some (Cxx.toString n) := by
  simp only [intReturned, intin_toString, Option.bind_eq_bind, Option.bind_some, if_pos h]

theorem returned_int {server : Server} {type : ColumnType} {bits : Nat} {n : Int}
    (htype : type.bits = some bits) (h : -2 ^ (bits - 1) ≤ n ∧ n < 2 ^ (bits - 1)) :
    server.returned type (Cxx.toString n) = some (Cxx.toString n) := by
  cases type with
  | int2 | int4 | int8 =>
    obtain rfl := Option.some.inj htype
    exact intReturned_toString h
  | bool | float8 | text | bytea => cases htype

/-! ### The value of one argument -/

section

variable {server : Server} {unescapeBytea : Bytes → Option Bytes} {v : Value w} {c : Column}

theorem number_cellValue {type : ColumnType} {bits : Nat} {n : Int} (htype : type.bits = some bits)
    (hn : -2 ^ (bits - 1) ≤ n ∧ n < 2 ^ (bits - 1)) (hlong : (Integral.num .longInt).InRange w n) :
    (cellValue w unescapeBytea type.oid (Cxx.toString n)).number = some n := by
  have hread : -2 ^ 63 ≤ n → n < 2 ^ 63 →
      (intOrLong w ((Cxx.stoll (Cxx.toString n)).getD 0)).number = some n := by
    intro hlo hhi
    rw [Cxx.stoll_toString hlo hhi, Option.getD_some]
    exact number_intOrLong_iff.mpr hlong
  cases type with
  | int2 =>
    obtain rfl := Option.some.inj htype
    exact hread (by omega) (by omega)
  | int4 =>
    obtain rfl := Option.some.inj htype
    exact hread (by omega) (by omega)
  | int8 =>
    obtain rfl := Option.some.inj htype
    exact hread hn.1 hn.2
  | bool | float8 | text | bytea => cases htype

theorem denoted_of_number {n : Int} (hnumber : v.number = some n) (hbool : v.type ≠ .boolean) :
    denoted v = some (Cxx.toString n) := by
  cases v with
  | integer x | unsignedInteger x | longInteger x | unsignedLongInteger x =>
    obtain rfl := Option.some.inj hnumber
    rfl
  | boolean b => exact absurd rfl hbool
  | null | double | text | blob => cases hnumber

/-- The cell for what the argument stands for is read as the argument. -/
def ComesBack (server : Server) (unescapeBytea : Bytes → Option Bytes) (v : Value w) (c : Column) :
    Prop :=
  ∃ cell, server.cell c.type (denoted v) = some cell ∧
    v.Same (textValue w unescapeBytea c.field cell)

theorem number_comesBack {bits : Nat} {n : Int} (hnumber : v.number = some n)
    (hbool : v.type ≠ .boolean) (htype : c.type.bits = some bits)
    (hn : -2 ^ (bits - 1) ≤ n ∧ n < 2 ^ (bits - 1)) (hlong : (Integral.num .longInt).InRange w n) :
    ComesBack server unescapeBytea v c := by
  refine ⟨some (Cxx.toString n), ?_, (same_of_number hnumber).mpr ?_⟩
  · rw [denoted_of_number hnumber hbool, Server.cell, returned_int htype hn]
    rfl
  · exact number_cellValue htype hn hlong

theorem cell_float8 {s : Bytes} {y : Binary64} (hy : float8in s = some y)
    (hsent : server.SendsPrecisely y) : ∃ sent, server.cell .float8 (some s) = some (some sent) ∧
      Cxx.stod sent = if y.IsSubnormal then none else some y := by
  obtain ⟨t, htext, hprecise⟩ := hsent
  refine ⟨server.float8out y, ?_, ?_⟩
  · simp only [Server.cell, Server.returned, hy, Option.map_some]
  · rw [htext]
    exact Cxx.stod_precise (isFinite_of_float8in hy) hprecise

/-- A millionth is far above the subnormal numbers. -/
theorem not_subnormal_of_millionths {x : Binary64} {m : Nat} (hfin : x.IsFinite)
    (h : Binary64.nearest m (10 ^ 6) = x.pattern) : ¬ x.IsSubnormal := by
  rintro ⟨hpos, hlt⟩
  have hupper := ((Binary64.nearest_eq_iff (by decide) hfin).mp h).upper
  have hmid : Binary64.mid x.pattern ≤ 2 ^ 53 - 1 := Binary64.mid_le_of_subnormal hlt
  have hmul := Nat.mul_le_mul_right (10 ^ 6) hmid
  have hlarge : (2 ^ 53 - 1) * 10 ^ 6 < 2 * (1 * 2 ^ 1074) := by decide +kernel
  rcases Nat.eq_zero_or_pos m with rfl | hm
  · exact hpos (h.symm.trans (Binary64.nearest_zero_left (by decide)))
  · have hone := Nat.mul_le_mul_right (2 ^ 1074) hm
    generalize 1 * 2 ^ 1074 = U at hlarge hone
    generalize m * 2 ^ 1074 = N at hupper hone
    omega

theorem double_comesBack {x : Binary64} (hfits : Fits server (.double x : Value w) c)
    (hkept : InMillionths (.double x : Value w))
    (hsent : ∀ y ∈ float8in (Cxx.toStringDouble x), server.SendsPrecisely y) :
    ComesBack server unescapeBytea (.double x : Value w) c := by
  obtain ⟨htype, hfin⟩ := hfits
  obtain ⟨m, hm⟩ := hkept
  obtain ⟨s, hs, hread⟩ := (double_kept_iff w x hfin).mpr ⟨m, hm⟩
  obtain rfl : Cxx.toStringDouble x = s := Option.some.inj hs
  obtain ⟨sent, hcell, hstod⟩ := cell_float8 hread (hsent x hread)
  refine ⟨some sent, ?_, ?_⟩
  · rw [htype]
    exact hcell
  · rw [Column.field, htype]
    show Value.double ((Cxx.stod sent).getD _) = _
    rw [hstod, if_neg (not_subnormal_of_millionths hfin hm), Option.getD_some]

theorem blob_comesBack {b : Bytes} (hunescape : ∀ b, unescapeBytea (byteaout b) = some b)
    (htype : c.type = .bytea) : ComesBack server unescapeBytea (.blob b : Value w) c := by
  have hsent : denoted (.blob b : Value w) = some b := rfl
  have hnul : cString (byteaout b) = byteaout b := by
    refine cString_eq_self_iff.mpr fun hmem => ?_
    rcases List.mem_append.mp hmem with hmem | hmem
    · exact absurd hmem (by decide)
    · exact Hex.zero_not_mem_encode b hmem
  refine ⟨some (byteaout b), ?_, ?_⟩
  · rw [hsent, htype]
    rfl
  · rw [Column.field, htype]
    show Value.blob ((unescapeBytea (cString (byteaout b))).getD []) = _
    rw [hnul, hunescape, Option.getD_some]

/-- In a column of its type, what the argument stands for comes back as the argument. -/
theorem cell_denoted (hunescape : ∀ b, unescapeBytea (byteaout b) = some b)
    (hsent : ∀ x, v = .double x → ∀ y ∈ float8in (Cxx.toStringDouble x), server.SendsPrecisely y)
    (hfits : Fits server v c) (hkept : InMillionths v) : ComesBack server unescapeBytea v c := by
  have hint : ∀ n, v.number = some n → v.type ≠ .boolean → (∃ bits, c.type.bits = some bits ∧
      ∀ n ∈ v.number, (-2 ^ (bits - 1) ≤ n ∧ n < 2 ^ (bits - 1)) ∧
        (Integral.num .longInt).InRange w n) → ComesBack server unescapeBytea v c := by
    rintro n hnumber hbool ⟨bits, htype, hrange⟩
    exact number_comesBack hnumber hbool htype (hrange n hnumber).1 (hrange n hnumber).2
  cases v with
  | null => exact ⟨none, rfl, same_null_iff.mpr rfl⟩
  | integer x => exact hint _ rfl (fun hbool => by cases hbool) hfits
  | unsignedInteger x => exact hint _ rfl (fun hbool => by cases hbool) hfits
  | longInteger x => exact hint _ rfl (fun hbool => by cases hbool) hfits
  | unsignedLongInteger x => exact hint _ rfl (fun hbool => by cases hbool) hfits
  | boolean b =>
    have htype : c.type = .bool := hfits
    rw [ComesBack, Column.field, htype]
    cases b with
    | true => exact ⟨some (ascii "t"), rfl, rfl⟩
    | false => exact ⟨some (ascii "f"), rfl, rfl⟩
  | double x => exact double_comesBack hfits hkept (hsent x rfl)
  | text s =>
    obtain ⟨htype, hvalid⟩ := hfits
    have hsent : denoted (.text s : Value w) = some s := rfl
    refine ⟨some s, ?_, ?_⟩
    · rw [hsent, htype]
      simp only [Server.cell, Server.returned, hvalid, if_true, Option.map_some]
    · rw [Column.field, htype]
      rfl
  | blob b => exact blob_comesBack hunescape hfits

theorem sendable_other (htext : v.type ≠ .text) (hblob : v.type ≠ .blob) : Sendable v := by
  cases v with
  | null => exact trivial
  | integer x | unsignedInteger x | longInteger x | unsignedLongInteger x =>
    exact Cxx.zero_not_mem_toString _
  | double x => exact Cxx.zero_not_mem_toStringDouble x
  | boolean b =>
    show 0 ∉ (if b then ascii "true" else ascii "false")
    cases b <;> decide
  | text s => exact absurd rfl htext
  | blob b => exact absurd rfl hblob

variable {lib : Library} {capacity : Nat} {pre post : List (Value w)} {t : PreparedSTMT} {p : Param}
  {d : Option Bytes} {cell : Option Bytes}

theorem sendable_of_text_echo {s : Bytes} (hfits : Fits server (.text s : Value w) c)
    (hcell : server.cell c.type (some (cString s)) = some cell)
    (hsame : Value.Same (.text s) (textValue w unescapeBytea c.field cell)) :
    Sendable (.text s : Value w) := by
  rw [Column.field, hfits.1] at hsame
  rw [hfits.1] at hcell
  simp only [Server.cell, Server.returned, Option.map_eq_some_iff] at hcell
  obtain ⟨sent, hsent, rfl⟩ := hcell
  split_ifs at hsent
  obtain rfl := Option.some.inj hsent
  have hread : Value.text (cString s) = (.text s : Value w) := (same_of_no_number rfl).mp hsame
  exact (sendable_of_text rfl).mpr (Value.text.inj hread)

theorem sendable_of_blob_echo {b : Bytes} (hunescape : ∀ b, unescapeBytea (byteaout b) = some b)
    (hfits : Fits server (.blob b : Value w) c)
    (hkept : Kept lib capacity pre (.blob b : Value w) post t p) (hread : t.Denotes p d)
    (hcell : server.cell c.type d = some cell)
    (hsame : Value.Same (.blob b) (textValue w unescapeBytea c.field cell)) :
    Sendable (.blob b : Value w) := by
  have htype : c.type = .bytea := hfits
  rw [htype] at hcell
  have hvalue : textValue w unescapeBytea c.field cell = .blob b := (same_of_no_number rfl).mp hsame
  have hblob : ∀ b', server.cell .bytea (some b') = some cell → b' = b := by
    intro b' hb'
    have hback : ComesBack server unescapeBytea (.blob b' : Value w) c :=
      blob_comesBack hunescape htype
    obtain ⟨sent, hsent, hbytes⟩ := hback
    rw [htype] at hsent
    obtain rfl : sent = cell := Option.some.inj (hsent.symm.trans hb')
    exact Value.blob.inj (((same_of_no_number rfl).mp hbytes).symm.trans hvalue)
  rcases (kept_blob_reads hkept d).mp hread with ⟨_, rfl⟩ | ⟨hnil, hlength, rfl⟩
  · obtain rfl := Option.some.inj hcell
    cases hvalue
  · have htake : b.length ≤ (Cxx.toInt b.length).toNat :=
      (List.take_eq_self_iff b).mp (hblob _ hcell)
    have hupper := Cxx.toInt_lt b.length
    exact ⟨hnil, by omega⟩

theorem inMillionths_of_echo {x : Binary64} (hfits : Fits server (.double x : Value w) c)
    (hsent : ∀ y ∈ float8in (Cxx.toStringDouble x), server.SendsPrecisely y)
    (hcell : server.cell c.type (some (Cxx.toStringDouble x)) = some cell)
    (hsame : Value.Same (.double x) (textValue w unescapeBytea c.field cell)) :
    InMillionths (.double x : Value w) := by
  obtain ⟨htype, hfin⟩ := hfits
  rw [Column.field, htype] at hsame
  rw [htype] at hcell
  cases hread : float8in (Cxx.toStringDouble x) with
  | none =>
    simp only [Server.cell, Server.returned, hread, Option.map_none] at hcell
    cases hcell
  | some y =>
    obtain ⟨sent, hcell', hstod⟩ := cell_float8 hread (hsent y hread)
    obtain rfl : some sent = cell := Option.some.inj (hcell'.symm.trans hcell)
    have hvalue : Value.double ((Cxx.stod sent).getD (Binary64.ofQuotient false 0 1)) =
        (.double x : Value w) := (same_of_no_number rfl).mp hsame
    rw [hstod] at hvalue
    split_ifs at hvalue with hsub
    · -- what throws is read as zero, and zero millionths are zero
      refine ⟨0, ?_⟩
      rw [← Value.double.inj hvalue]
      exact (Binary64.nearest_zero_left (by decide)).trans Binary64.nearest_zero.symm
    · obtain rfl : y = x := Value.double.inj hvalue
      exact (double_kept_iff w y hfin).mp ⟨_, rfl, hread⟩

theorem kept_of_echo (hunescape : ∀ b, unescapeBytea (byteaout b) = some b)
    (hsent : ∀ x, v = .double x → ∀ y ∈ float8in (Cxx.toStringDouble x), server.SendsPrecisely y)
    (hfits : Fits server v c) (hkept : Kept lib capacity pre v post t p) (hread : t.Denotes p d)
    (hcell : server.cell c.type d = some cell)
    (hsame : v.Same (textValue w unescapeBytea c.field cell)) :
    (Sendable v ∧ InMillionths v) ∧ PlaceStays lib capacity pre v post := by
  cases htext : text v with
  | some s =>
    obtain ⟨hplace, rfl⟩ := (kept_text_reads htext hkept d).mp hread
    refine ⟨?_, hplace⟩
    cases v with
    | text s' =>
      obtain rfl := Option.some.inj htext
      exact ⟨sendable_of_text_echo hfits hcell hsame, trivial⟩
    | double x =>
      obtain rfl := Option.some.inj htext
      have hplain : cString (Cxx.toStringDouble x) = Cxx.toStringDouble x :=
        cString_eq_self_iff.mpr (Cxx.zero_not_mem_toStringDouble x)
      rw [hplain] at hcell
      exact ⟨sendable_other (fun hf => by cases hf) (fun hf => by cases hf),
        inMillionths_of_echo hfits (hsent x rfl) hcell hsame⟩
    | blob b => cases htext
    | null | integer | unsignedInteger | longInteger | unsignedLongInteger | boolean =>
      exact ⟨sendable_other (fun hf => by cases hf) (fun hf => by cases hf), trivial⟩
  | none =>
    have hplace : PlaceStays lib capacity pre v post := by
      intro mid u rest _ _ _ s hs
      rw [htext] at hs
      cases hs
    refine ⟨?_, hplace⟩
    cases v with
    | null => exact ⟨trivial, trivial⟩
    | blob b => exact ⟨sendable_of_blob_echo hunescape hfits hkept hread hcell hsame, trivial⟩
    | integer | unsignedInteger | longInteger | unsignedLongInteger | double | boolean | text =>
      cases htext

end

/-! ### All arguments -/

section

variable {lib : Library} {capacity : Nat} {args : List (Value w)} {t : PreparedSTMT}

theorem shortTextsStay_iff : ShortTextsStay lib capacity args ↔
    ∀ pre v post, args = pre ++ v :: post → PlaceStays lib capacity pre v post := by
  constructor
  · rintro h pre v post rfl mid u rest rfl hu hfull s hs
    exact h (pre ++ v :: mid) u rest (by simp) hu hfull v (by simp) s hs
  · rintro h pre v post rfl hv hfull u hu s hs
    obtain ⟨front, mid, rfl⟩ := List.append_of_mem hu
    exact h front u (mid ++ v :: post) (by simp) mid v post rfl hv hfull s hs

theorem forall₂_getElem? {α β : Type} {R : α → β → Prop} {l : List α} {l' : List β}
    (h : List.Forall₂ R l l') {i : Nat} {a : α} (ha : l[i]? = some a) :
    ∃ b, l'[i]? = some b ∧ R a b := by
  induction h generalizing i with
  | nil => cases ha
  | @cons x y xs ys hxy _ ih =>
    cases i with
    | zero =>
      obtain rfl := Option.some.inj ha
      exact ⟨y, rfl, hxy⟩
    | succ i => exact ih ha

theorem forall₂_params {P : Param → Value w → Prop}
    (h : ∀ pre v post p, args = pre ++ v :: post →
      Kept lib t.stringStorage.capacity pre v post (bindAll lib 0 args (reset t)) p → P p v) :
    List.Forall₂ P (bindAll lib 0 args (reset t)).params args := by
  have hlength := (bindAll_spec lib t args).1.length
  refine List.forall₂_iff_get.mpr ⟨hlength, fun i hi hi' => ?_⟩
  have hargs : args = args.take i ++ args[i] :: args.drop (i + 1) := by
    rw [List.getElem_cons_drop, List.take_append_drop]
  obtain ⟨p, hkept⟩ := bindAll_kept lib t (args.take i) args[i] (args.drop (i + 1))
  rw [← hargs] at hkept
  have hparam : (bindAll lib 0 args (reset t)).params[i] = p := by
    have hp := hkept.param
    rw [List.length_take_of_le (Nat.le_of_lt hi')] at hp
    exact (List.getElem?_eq_some_iff.mp hp).2
  show P (bindAll lib 0 args (reset t)).params[i] args[i]
  rw [hparam]
  exact h _ _ _ p hargs hkept

theorem reads_iff {params : List Param} {readings : List (Option Bytes)}
    (h : List.Forall₂ (fun p v => ParamDenotes t p v) params args) :
    List.Forall₂ (fun p d => t.Denotes p d) params readings ↔ readings = args.map denoted := by
  induction h generalizing readings with
  | nil => exact List.forall₂_nil_left_iff
  | @cons p v params args hp _ ih =>
    rw [List.forall₂_cons_left_iff, List.map_cons]
    constructor
    · rintro ⟨d, rest, hd, hrest, rfl⟩
      rw [(hp.bytes d).mp hd, ih.mp hrest]
    · rintro rfl
      exact ⟨_, _, (hp.bytes _).mpr rfl, ih.mpr rfl, rfl⟩

end

/-! ### The row -/

section

variable {server : Server} {unescapeBytea : Bytes → Option Bytes} {args : List (Value w)}
  {columns : List Column} {readings row : List (Option Bytes)}

/-- The values of the row. -/
def rowValues (w : LongWidth) (unescapeBytea : Bytes → Option Bytes) (columns : List Column)
    (row : List (Option Bytes)) : List (Value w) :=
  ((columns.map Column.field).zip row).map fun p => textValue w unescapeBytea p.1 p.2

theorem cells_getElem? (h : server.cells columns readings = some row) {i : Nat} {c : Column}
    {d : Option Bytes} (hc : columns[i]? = some c) (hd : readings[i]? = some d) :
    ∃ cell, row[i]? = some cell ∧ server.cell c.type d = some cell := by
  induction columns generalizing readings row i with
  | nil => cases hc
  | cons c' columns ih =>
    cases readings with
    | nil => cases hd
    | cons d' readings =>
      simp only [Server.cells, Option.bind_eq_bind, Option.bind_eq_some_iff] at h
      obtain ⟨cell, hcell, rest, hrest, heq⟩ := h
      obtain rfl := Option.some.inj heq
      cases i with
      | zero =>
        obtain rfl := Option.some.inj hc
        obtain rfl := Option.some.inj hd
        exact ⟨cell, rfl, hcell⟩
      | succ i => exact ih hrest hc hd

theorem cells_denoted (hunescape : ∀ b, unescapeBytea (byteaout b) = some b)
    (hsent : ∀ x, .double x ∈ args → ∀ y ∈ float8in (Cxx.toStringDouble x), server.SendsPrecisely y)
    (hfits : List.Forall₂ (Fits server) args columns) (hkept : ∀ v ∈ args, InMillionths v) :
    ∃ row, server.cells columns (args.map denoted) = some row ∧
      List.Forall₂ Value.Same args (rowValues w unescapeBytea columns row) := by
  induction hfits with
  | nil => exact ⟨[], rfl, .nil⟩
  | @cons v c args columns hvc _ ih =>
    rw [List.forall_mem_cons] at hkept
    obtain ⟨cell, hcell, hsame⟩ := cell_denoted hunescape
      (fun x hx => hsent x (hx ▸ List.mem_cons_self)) hvc hkept.1
    obtain ⟨rest, hrest, hall⟩ := ih (fun x hx => hsent x (List.mem_cons_of_mem _ hx)) hkept.2
    refine ⟨cell :: rest, ?_, .cons hsame hall⟩
    rw [List.map_cons, Server.cells, hcell, hrest]
    rfl

theorem stepResults_echo_of_cells (h : server.cells columns readings = some row) :
    stepResults w unescapeBytea (some (server.echo columns readings)) =
      .ok [stepRow w unescapeBytea (columns.map Column.field) row] := by
  unfold Server.echo
  split
  · rename_i row' hrow'
    obtain rfl : row' = row := Option.some.inj (hrow'.symm.trans h)
    rfl
  · rename_i hnone
    cases hnone.symm.trans h

theorem stepResults_echo_of_refused (h : server.cells columns readings = none) :
    stepResults w unescapeBytea (some (server.echo columns readings)) =
      .error (.executeError (ascii "Unknown PG error")) := by
  unfold Server.echo
  split
  · rename_i row hrow
    cases hrow.symm.trans h
  · rfl

theorem echoedRow_echo_iff :
    EchoedRow (columns.map Column.name) args
        (stepResults w unescapeBytea (some (server.echo columns readings))) ↔
      ∃ row, server.cells columns readings = some row ∧
        List.Forall₂ Value.Same args (rowValues w unescapeBytea columns row) := by
  cases hcells : server.cells columns readings with
  | none =>
    rw [stepResults_echo_of_refused hcells]
    refine iff_of_false ?_ ?_
    · rintro ⟨row, hrow, _⟩
      cases hrow
    · rintro ⟨row, hrow, _⟩
      cases hrow
  | some row =>
    have hlength : (columns.map Column.field).length ≤ row.length := by
      rw [List.length_map, cells_length hcells]
    have hnames : (stepRow w unescapeBytea (columns.map Column.field) row).data.map
        NamedValue.name = columns.map Column.name := by
      rw [stepRow_data, List.map_map]
      show ((columns.map Column.field).zip row).map ((fun f => f.name.getD []) ∘ Prod.fst) = _
      rw [← List.map_map, List.map_fst_zip hlength, List.map_map]
      rfl
    have hvalues : (stepRow w unescapeBytea (columns.map Column.field) row).data.map
        NamedValue.value = rowValues w unescapeBytea columns row := by
      rw [stepRow_data, List.map_map]
      rfl
    rw [echoedRow_iff (stepResults_echo_of_cells hcells) hnames hvalues]
    constructor
    · exact fun hsame => ⟨row, rfl, hsame⟩
    · rintro ⟨row', hrow', hsame⟩
      obtain rfl := Option.some.inj hrow'
      exact hsame

end

/-- **Arguments returned by PostgreSQL.** When `DoExecute` calls `PQexecPrepared`, with columns that
suit the arguments, every parameter can be read and any reading gives a row with the arguments exactly
when the places of short texts stay, each argument can be sent and each double is in millionths. -/
theorem postgres_echo_iff (lib : Library) (server : Server) (unescapeBytea : Bytes → Option Bytes)
    (hunescape : ∀ b, unescapeBytea (byteaout b) = some b) (columns : List Column)
    (args : List (Value w)) (t t' : PreparedSTMT) (hcall : execCall lib args t = some t')
    (hsent : ∀ x, .double x ∈ args → ∀ y ∈ float8in (Cxx.toStringDouble x), server.SendsPrecisely y)
    (hfits : List.Forall₂ (Fits server) args columns) :
    (∃ readings, Reads t' readings) ∧ (∀ readings, Reads t' readings →
        EchoedRow (columns.map Column.name) args
          (stepResults w unescapeBytea (some (server.echo columns readings)))) ↔
      ShortTextsStay lib t.stringStorage.capacity args ∧
        ∀ v ∈ args, Sendable v ∧ InMillionths v := by
  simp only [execCall] at hcall
  split_ifs at hcall
  obtain rfl := Option.some.inj hcall
  simp only [echoedRow_echo_iff]
  rw [shortTextsStay_iff]
  constructor
  · rintro ⟨⟨readings, hreads⟩, hall⟩
    obtain ⟨row, hrow, hsame⟩ := hall readings hreads
    have hone : ∀ pre v post, args = pre ++ v :: post →
        (Sendable v ∧ InMillionths v) ∧ PlaceStays lib t.stringStorage.capacity pre v post := by
      rintro pre v post rfl
      have hv : (pre ++ v :: post)[pre.length]? = some v := by simp
      obtain ⟨p, hkept⟩ := bindAll_kept lib t pre v post
      obtain ⟨c, hc, hvc⟩ := forall₂_getElem? hfits hv
      obtain ⟨d, hd, hread⟩ := forall₂_getElem? hreads hkept.param
      obtain ⟨u, hu, hvu⟩ := forall₂_getElem? hsame hv
      obtain ⟨cell, hcell, hcell'⟩ := cells_getElem? hrow hc hd
      have hzip : ((columns.map Column.field).zip row)[pre.length]? = some (c.field, cell) := by
        refine List.getElem?_zip_eq_some.mpr ⟨?_, hcell⟩
        rw [List.getElem?_map, hc]
        rfl
      rw [rowValues, List.getElem?_map, hzip] at hu
      obtain rfl : textValue w unescapeBytea c.field cell = u := Option.some.inj hu
      exact kept_of_echo hunescape (fun x hx => hsent x (hx ▸ by simp)) hvc hkept hread hcell' hvu
    refine ⟨fun pre v post heq => (hone pre v post heq).2, fun v hv => ?_⟩
    obtain ⟨pre, post, heq⟩ := List.append_of_mem hv
    exact (hone pre v post heq).1
  · rintro ⟨hplaces, hsendable⟩
    have hparams : List.Forall₂
        (fun p v => ParamDenotes (bindAll lib 0 args (reset t)) p v)
        (bindAll lib 0 args (reset t)).params args := by
      refine forall₂_params fun pre v post p heq hkept => ?_
      exact (kept_denotes_iff hkept).mpr ⟨(hsendable v (heq ▸ by simp)).1, hplaces pre v post heq⟩
    refine ⟨⟨args.map denoted, (reads_iff hparams).mpr rfl⟩, fun readings hreads => ?_⟩
    rw [(reads_iff hparams).mp hreads]
    exact cells_denoted hunescape hsent hfits fun v hv => (hsendable v hv).2

/-- `PQunescapeBytea` on the hexadecimal format. -/
def hexUnescape (s : Bytes) : Option Bytes :=
  if s.take 2 = ascii "\\x" then Hex.decode (s.drop 2) else none

theorem hexUnescape_byteaout (b : Bytes) : hexUnescape (byteaout b) = some b := by
  show (if ascii "\\x" = ascii "\\x" then Hex.decode (Hex.encode b) else none) = some b
  rw [if_pos rfl, Hex.decode_encode]

/-- A server that knows one double. -/
def halfServer : Server := ⟨fun _ => true, fun _ => ascii "0.5"⟩

def echoedArgs : List (Value .bits64) :=
  [.integer ⟨-7, by decide, by decide⟩, .blob [0, 255], .double half, .null, .text (ascii "abc")]

def echoedColumns : List Column :=
  [⟨ascii "n", .int4⟩, ⟨ascii "b", .bytea⟩, ⟨ascii "x", .float8⟩, ⟨ascii "u", .bool⟩,
    ⟨ascii "s", .text⟩]

theorem echoedArgs_fit : List.Forall₂ (Fits halfServer) echoedArgs echoedColumns := by
  have hint : Fits halfServer (.integer ⟨-7, by decide, by decide⟩ : Value .bits64)
      ⟨ascii "n", .int4⟩ := by
    refine ⟨32, rfl, fun n hn => ?_⟩
    obtain rfl : (-7 : Int) = n := Option.some.inj hn
    exact ⟨by decide, by decide⟩
  have hdouble : Fits halfServer (.double half : Value .bits64) ⟨ascii "x", .float8⟩ :=
    ⟨rfl, by decide⟩
  exact .cons hint (.cons rfl (.cons hdouble (.cons trivial (.cons ⟨rfl, rfl⟩ .nil))))

theorem echoedArgs_sent (x : Binary64) (hx : .double x ∈ echoedArgs) (y : Binary64)
    (hy : y ∈ float8in (Cxx.toStringDouble x)) : halfServer.SendsPrecisely y := by
  obtain rfl : x = half := by simpa [echoedArgs] using hx
  have hhalf : float8in (Cxx.toStringDouble half) = some half := by decide +kernel
  obtain rfl : half = y := Option.some.inj (hhalf.symm.trans hy)
  exact ⟨MariaDB.oneHalfText, rfl, MariaDB.precise_oneHalf⟩

/-- A statement whose string storage has room for four. -/
def roomyPreparedSTMT : PreparedSTMT := { newPreparedSTMT with stringStorage := ⟨0, 4, []⟩ }

theorem postgres_echo_iff_five :
    let t' := (execCall libstdcxx echoedArgs roomyPreparedSTMT).get rfl
    (∃ readings, Reads t' readings) ∧ (∀ readings, Reads t' readings →
        EchoedRow (echoedColumns.map Column.name) echoedArgs
          (stepResults .bits64 hexUnescape (some (halfServer.echo echoedColumns readings)))) ↔
      ShortTextsStay libstdcxx 4 echoedArgs ∧ ∀ v ∈ echoedArgs, Sendable v ∧ InMillionths v :=
  postgres_echo_iff libstdcxx halfServer hexUnescape hexUnescape_byteaout echoedColumns echoedArgs
    roomyPreparedSTMT _ rfl echoedArgs_sent echoedArgs_fit

end StormByteDatabase.Postgres
