import StormByteDatabase.Mariadb.ResultFetch

/-!
# The arguments of a MariaDB prepared statement

`Binder` collects the arguments in `m_params`, and `DoExecute` writes each of them to an entry of a
buffer array and describes it by a `MYSQL_BIND`. `MysqlBind.denotes` reads an entry by the rules of
the connector: the type gives the width, `is_unsigned` the signedness and `length` the number of
bytes.

`encoding_denotes_iff`: the array denotes the arguments exactly when none of them is an unsigned
number with the top bit of its buffer set, since `is_unsigned` is never written, and the length of
each text and blob can be held in an `unsigned long`. `top_bit_set` is such a number.
-/

namespace StormByteDatabase.MariaDB

open Lib

variable {w : LongWidth}

/-! ### Collecting the arguments -/

def ensureParamSize (params : List (Value w)) (index : Nat) : List (Value w) :=
  if index ≥ params.length then params ++ List.replicate (index + 1 - params.length) .null else params

/-- `Binder`. -/
def binder (index : Nat) (value : Value w) (params : List (Value w)) : List (Value w) :=
  (ensureParamSize params index).set index value

/-- The `Bind` calls of `Execute` from the index on. -/
def bindAll : Nat → List (Value w) → List (Value w) → List (Value w)
  | _, [], params => params
  | index, value :: args, params => bindAll (index + 1) args (binder index value params)

theorem binder_length (params : List (Value w)) (value : Value w) :
    binder params.length value params = params ++ [value] := by
  simp [binder, ensureParamSize]

theorem bindAll_eq (args params : List (Value w)) :
    bindAll params.length args params = params ++ args := by
  induction args generalizing params with
  | nil => simp [bindAll]
  | cons value args ih =>
    have hlength : params.length + 1 = (params ++ [value]).length := by simp
    rw [bindAll, binder_length, hlength, ih, List.append_assoc]
    rfl

/-! ### The array of bindings -/

/-- What the `buffer` pointer of a binding points to. -/
inductive InBuffer
  | nullptr
  /-- An entry of `bool_buf`. -/
  | word8 (b : BitVec 8)
  /-- An entry of `int_buf` or `uint_buf`. -/
  | word32 (b : BitVec 32)
  /-- An entry of `ll_buf` or `ull_buf`. -/
  | word64 (b : BitVec 64)
  | real (x : Binary64)
  /-- The bytes of an entry of `str_buf` or `bin_buf`. -/
  | bytes (s : Bytes)
  deriving DecidableEq, Repr

/-- `MYSQL_BIND`, with what `length` and `is_null` point to; `memset` makes every field zero. -/
structure MysqlBind where
  bufferType : FieldType
  buffer : InBuffer := .nullptr
  bufferLength : Nat := 0
  length : Option Nat := none
  isNull : Option Bool := none
  isUnsigned : Bool := false
  deriving DecidableEq, Repr

/-- `static_cast<unsigned long>` of a size. -/
def toUnsignedLong (w : LongWidth) (size : Nat) : Nat := size % 2 ^ w.bits

/-- One turn of the loop over `m_params`. -/
def bindEntry : Value w → MysqlBind
  | .null => { bufferType := .null, isNull := some true }
  | .integer n =>
    { bufferType := .long, buffer := .word32 (BitVec.ofInt 32 n.val), isNull := some false }
  | .unsignedInteger n =>
    { bufferType := .long, buffer := .word32 (BitVec.ofInt 32 n.val), isNull := some false }
  | .longInteger n =>
    { bufferType := .longlong, buffer := .word64 (BitVec.ofInt 64 n.val), isNull := some false }
  | .unsignedLongInteger n =>
    { bufferType := .longlong, buffer := .word64 (BitVec.ofInt 64 n.val), isNull := some false }
  | .double x => { bufferType := .double, buffer := .real x, isNull := some false }
  | .boolean b =>
    { bufferType := .tiny, buffer := .word8 (if b then 1 else 0), isNull := some false }
  | .text s =>
    { bufferType := .string, buffer := .bytes s, bufferLength := toUnsignedLong w s.length,
      length := some (toUnsignedLong w s.length), isNull := some false }
  | .blob bv =>
    { bufferType := .blob, buffer := .bytes bv, bufferLength := toUnsignedLong w bv.length,
      length := some (toUnsignedLong w bv.length), isNull := some false }

def bindIn (params : List (Value w)) : List MysqlBind := params.map bindEntry

/-! ### What the connector reads -/

/-- A parameter as the connector sends it. -/
inductive Param
  | null
  | integer (n : Int)
  | real (x : Binary64)
  | bytes (s : Bytes)
  deriving DecidableEq, Repr

/-- A word read with or without a sign. -/
def wordValue {n : Nat} (isUnsigned : Bool) (b : BitVec n) : Int :=
  if isUnsigned then b.toNat else b.toInt

/-- The parameter of a binding; `none` where the buffer is not what the type says. -/
def MysqlBind.denotes (b : MysqlBind) : Option Param :=
  if b.isNull = some true ∨ b.bufferType = .null then some .null
  else
    match b.bufferType, b.buffer with
    | .tiny, .word8 x => some (.integer (wordValue b.isUnsigned x))
    | .long, .word32 x => some (.integer (wordValue b.isUnsigned x))
    | .longlong, .word64 x => some (.integer (wordValue b.isUnsigned x))
    | .double, .real x => some (.real x)
    | .string, .bytes s => some (.bytes (s.take (b.length.getD b.bufferLength)))
    | .blob, .bytes s => some (.bytes (s.take (b.length.getD b.bufferLength)))
    | _, _ => none

/-- What an argument stands for. -/
def Param.ofValue : Value w → Param
  | .null => .null
  | .integer n => .integer n.val
  | .unsignedInteger n => .integer n.val
  | .longInteger n => .integer n.val
  | .unsignedLongInteger n => .integer n.val
  | .double x => .real x
  | .boolean b => .integer b.toNat
  | .text s => .bytes s
  | .blob b => .bytes b

/-- The value is no unsigned number with the top bit of its buffer set and has no length that an
`unsigned long` cannot hold. -/
def Encodable : Value w → Prop
  | .unsignedInteger n => n.val < 2 ^ 31
  | .unsignedLongInteger n => n.val < 2 ^ 63
  | .text s => s.length < 2 ^ w.bits
  | .blob b => b.length < 2 ^ w.bits
  | _ => True

theorem toInt_ofInt_iff {k : Nat} {n : Int} (hk : 0 < k) :
    (BitVec.ofInt k n).toInt = n ↔ -2 ^ (k - 1) ≤ n ∧ n < 2 ^ (k - 1) :=
  ⟨fun h => h ▸ ⟨BitVec.le_toInt _, BitVec.toInt_lt⟩,
    fun h => BitVec.toInt_ofInt_eq_self hk h.1 h.2⟩

theorem wordValue_ofInt_iff {k : Nat} {n : Int} (hk : 0 < k) :
    some (Param.integer (wordValue false (BitVec.ofInt k n))) = some (.integer n) ↔
      -2 ^ (k - 1) ≤ n ∧ n < 2 ^ (k - 1) := by
  rw [Option.some.injEq, Param.integer.injEq]
  exact toInt_ofInt_iff hk

theorem take_toUnsignedLong_iff (s : Bytes) :
    some (Param.bytes (s.take (toUnsignedLong w s.length))) = some (.bytes s) ↔
      s.length < 2 ^ w.bits := by
  have hpos : 0 < 2 ^ w.bits := Nat.two_pow_pos _
  have hmod : toUnsignedLong w s.length < 2 ^ w.bits := Nat.mod_lt _ hpos
  rw [Option.some.injEq, Param.bytes.injEq, List.take_eq_self_iff]
  constructor
  · intro hle
    omega
  · intro hlt
    exact Nat.le_of_eq (Nat.mod_eq_of_lt hlt).symm

theorem denotes_bindEntry_iff (v : Value w) :
    (bindEntry v).denotes = some (Param.ofValue v) ↔ Encodable v := by
  cases v with
  | null => exact iff_of_true rfl trivial
  | integer n => exact iff_of_true ((wordValue_ofInt_iff (by decide)).mpr n.int_bounds) trivial
  | unsignedInteger n =>
    have hpos : 0 ≤ n.val := n.lower
    refine (wordValue_ofInt_iff (by decide)).trans ⟨fun h => h.2, fun h => ⟨?_, h⟩⟩
    omega
  | longInteger n => exact iff_of_true ((wordValue_ofInt_iff (by decide)).mpr n.longInt_bounds) trivial
  | unsignedLongInteger n =>
    have hpos : 0 ≤ n.val := n.lower
    refine (wordValue_ofInt_iff (by decide)).trans ⟨fun h => h.2, fun h => ⟨?_, h⟩⟩
    omega
  | double x => exact iff_of_true rfl trivial
  | boolean b =>
    refine iff_of_true ?_ trivial
    cases b <;> rfl
  | text s => exact take_toUnsignedLong_iff s
  | blob b => exact take_toUnsignedLong_iff b

/-- **The array of bindings denotes the arguments** exactly when each of them is encodable. -/
theorem encoding_denotes_iff (w : LongWidth) (args : List (Value w)) :
    (bindIn (bindAll 0 args [])).map MysqlBind.denotes = args.map (fun v => some (Param.ofValue v)) ↔
      ∀ v ∈ args, Encodable v := by
  have hparams : bindAll 0 args [] = args := bindAll_eq args []
  rw [hparams, bindIn, List.map_map, List.map_inj_left]
  exact forall₂_congr fun v _ => denotes_bindEntry_iff v

/-- The `unsigned int` 2^31 is sent as -2^31. -/
theorem top_bit_set :
    ¬ ∀ args : List (Value .bits64), (bindIn (bindAll 0 args [])).map MysqlBind.denotes =
      args.map (fun v => some (Param.ofValue v)) := by
  intro h
  have hsent := h [.unsignedInteger ⟨2 ^ 31, by decide, by decide⟩]
  exact absurd hsent (by decide)

end StormByteDatabase.MariaDB
