import Mathlib.Data.List.Induction
import StormByteDatabase.Cxx
import StormByteDatabase.Lib.Vector
import StormByteDatabase.Value

/-!
# The buffers of a PostgreSQL parameter list

`Binder` stores the text of an argument in `m_string_storage`, or the bytes of a blob in
`m_blob_storage`, and keeps a pointer to the characters. A later `emplace_back` on a full
`m_string_storage` moves its strings, and a string within the inline length takes its characters
along.

`bind_buffers_valid_iff`: when `DoExecute` calls `PQexecPrepared`, every pointer that is not null
designates the bytes of its argument exactly when no argument whose text is within the inline length
is followed by one that finds the string storage full. `two_short_texts` is the failure on a new
statement.

Proof. `Bound` says what the statement looks like after binding a prefix of the arguments: its
pointers were taken from the storages, and those of short texts are places in the array. Binding one
more argument loses those places when the storage is full and an argument with a text comes
(`binder_valid`), and the theorem is the induction over the prefixes.
-/

namespace StormByteDatabase.Postgres

open Lib Vector

variable {w : LongWidth}

/-- One entry of `m_param_values`, `m_param_lengths` and `m_param_formats`, which are resized and
written together. -/
structure Param where
  value : Option Addr
  length : Int
  format : Nat
  deriving DecidableEq, Repr

/-- What `resize` fills the three vectors with. -/
def Param.empty : Param := ⟨none, 0, 0⟩

structure PreparedSTMT where
  /-- `m_conn` is not null. -/
  conn : Bool
  params : List Param
  stringStorage : Vec
  blobStorage : Vec
  /-- The next heap block. -/
  nextBlock : Nat
  deriving DecidableEq, Repr

/-- The implementation of the library: the greatest length of a string without a heap block, and the
growth of vectors. -/
structure Library where
  inlineLength : Nat
  growth : Growth

/-- A `std::string` in the storage. -/
def Library.string (lib : Library) (block : Nat) (s : Bytes) : Owner :=
  ⟨s, if s.length ≤ lib.inlineLength then none else some block⟩

/-- A `std::vector<char>` in the storage; an empty one has no block, and `data()` is null. -/
def blobOwner (block : Nat) (b : Bytes) : Owner := ⟨b, if b = [] then none else some block⟩

def PreparedSTMT.resize (t : PreparedSTMT) (index : Nat) : PreparedSTMT :=
  if index ≥ t.params.length then
    { t with params := t.params ++ List.replicate (index + 1 - t.params.length) Param.empty }
  else t

def PreparedSTMT.setParam (t : PreparedSTMT) (index : Nat) (p : Param) : PreparedSTMT :=
  { t with params := t.params.set index p }

/-- `m_string_storage.emplace_back(s)`, and the pointer to it as a text parameter. -/
def PreparedSTMT.bindText (lib : Library) (t : PreparedSTMT) (index : Nat) (s : Bytes) :
    PreparedSTMT :=
  let o := lib.string t.nextBlock s
  let strings := t.stringStorage.push lib.growth o
  let a := o.addr strings.generation t.stringStorage.elems.length
  { t with stringStorage := strings, nextBlock := t.nextBlock + 1 }.setParam index ⟨some a, 0, 0⟩

/-- `m_blob_storage.emplace_back()` filled with the bytes, and the pointer as a binary parameter. -/
def PreparedSTMT.bindBlob (lib : Library) (t : PreparedSTMT) (index : Nat) (b : Bytes) :
    PreparedSTMT :=
  let o := blobOwner t.nextBlock b
  { t with
    blobStorage := t.blobStorage.push lib.growth o
    nextBlock := t.nextBlock + 1 }.setParam index ⟨o.block.map .block, Cxx.toInt b.length, 1⟩

def binder (lib : Library) (index : Nat) (v : Value w) (t : PreparedSTMT) : PreparedSTMT :=
  let t := t.resize index
  match v with
  | .null => t.setParam index .empty
  | .integer n => t.bindText lib index (Cxx.toString n.val)
  | .unsignedInteger n => t.bindText lib index (Cxx.toString n.val)
  | .longInteger n => t.bindText lib index (Cxx.toString n.val)
  | .unsignedLongInteger n => t.bindText lib index (Cxx.toString n.val)
  | .double x => t.bindText lib index (Cxx.toStringDouble x)
  | .boolean b => t.bindText lib index (if b then ascii "true" else ascii "false")
  | .text s => t.bindText lib index s
  | .blob b => t.bindBlob lib index b

def reset (t : PreparedSTMT) : PreparedSTMT :=
  { t with params := [], stringStorage := t.stringStorage.clear, blobStorage := t.blobStorage.clear }

/-- The `Bind` calls of `Execute`, from `index` on. -/
def bindAll (lib : Library) : Nat → List (Value w) → PreparedSTMT → PreparedSTMT
  | _, [], t => t
  | index, v :: vs, t => bindAll lib (index + 1) vs (binder lib index v t)

/-- The statement as it is when `DoExecute` calls `PQexecPrepared`, which it does on a connection
only. -/
def execCall (lib : Library) (args : List (Value w)) (t : PreparedSTMT) : Option PreparedSTMT :=
  let t := bindAll lib 0 args (reset t)
  if t.conn then some t else none

/-! ### What a pointer must designate -/

/-- The text `Binder` puts into the string storage. -/
def text : Value w → Option Bytes
  | .null => none
  | .integer n => some (Cxx.toString n.val)
  | .unsignedInteger n => some (Cxx.toString n.val)
  | .longInteger n => some (Cxx.toString n.val)
  | .unsignedLongInteger n => some (Cxx.toString n.val)
  | .double x => some (Cxx.toStringDouble x)
  | .boolean b => some (if b then ascii "true" else ascii "false")
  | .text s => some s
  | .blob _ => none

def hasText (v : Value w) : Bool := (text v).isSome

/-- The encoding of an argument: its text, or the bytes of a blob. -/
def encoding (v : Value w) : Bytes :=
  match v with
  | .blob b => b
  | v => (text v).getD []

/-- The pointer designates a live buffer with these bytes. -/
def PreparedSTMT.Holds (t : PreparedSTMT) (bytes : Bytes) (a : Addr) : Prop :=
  t.stringStorage.Holds bytes a ∨ (a.isBlock = true ∧ t.blobStorage.Holds bytes a)

/-- There is a parameter for every argument, and it is null or designates the encoding. -/
def BuffersValid (args : List (Value w)) (t : PreparedSTMT) : Prop :=
  t.params.length = args.length ∧
    ∀ q ∈ args.zip t.params, ∀ a ∈ q.2.value, t.Holds (encoding q.1) a

instance (t : PreparedSTMT) (bytes : Bytes) (a : Addr) : Decidable (t.Holds bytes a) :=
  inferInstanceAs (Decidable (_ ∨ _))

instance (args : List (Value w)) (t : PreparedSTMT) : Decidable (BuffersValid args t) :=
  inferInstanceAs (Decidable (_ ∧ _))

/-- No argument with a text within the inline length stands before one with a text that finds the
string storage, of the given capacity when empty, full. -/
def ShortTextsStay (lib : Library) (capacity : Nat) (args : List (Value w)) : Prop :=
  ∀ pre v post, args = pre ++ v :: post → hasText v = true →
    capacityAfter lib.growth capacity (pre.countP hasText) = pre.countP hasText →
    ∀ u ∈ pre, ∀ s ∈ text u, lib.inlineLength < s.length

/-! ### One `Binder` call -/

/-- The parameter of `v` was taken from the storages: a text has its address in the array or in a
block by its length, and whatever a blob has is a block. -/
def ParamTaken (lib : Library) (t : PreparedSTMT) (v : Value w) (p : Param) : Prop :=
  match text v with
  | some s => ∃ a, p.value = some a ∧ t.stringStorage.Taken t.nextBlock a ∧
      (a.isBlock = true ↔ lib.inlineLength < s.length)
  | none => ∀ a ∈ p.value, t.stringStorage.Taken t.nextBlock a ∧ a.isBlock = true

/-- What a call of `Binder` at the next index does. -/
structure Binds (lib : Library) (v : Value w) (t t' : PreparedSTMT) (p : Param) : Prop where
  params : t'.params = t.params ++ [p]
  conn : t'.conn = t.conn
  size : t'.stringStorage.elems.length =
    t.stringStorage.elems.length + if hasText v then 1 else 0
  capacity : t'.stringStorage.capacity =
    if hasText v ∧ t.stringStorage.Full then lib.growth.next t.stringStorage.capacity
    else t.stringStorage.capacity
  taken : ∀ a, t.stringStorage.Taken t.nextBlock a → t'.stringStorage.Taken t'.nextBlock a
  paramTaken : ParamTaken lib t' v p
  holdsNew : ∀ a ∈ p.value, t'.Holds (encoding v) a
  /-- Pointers into the array are lost when the array is left. -/
  holdsOld : ∀ bytes a, t.stringStorage.Taken t.nextBlock a →
    (t'.Holds bytes a ↔
      t.Holds bytes a ∧ (hasText v = true → t.stringStorage.Full → a.isBlock = true))

theorem set_resize (t : PreparedSTMT) (p : Param) :
    (t.resize t.params.length).params.set t.params.length p = t.params ++ [p] := by
  simp [PreparedSTMT.resize]

theorem resize_rest (t : PreparedSTMT) (index : Nat) :
    t.resize index = { t with params := (t.resize index).params } := by
  unfold PreparedSTMT.resize
  split_ifs <;> rfl

theorem binder_of_text {lib : Library} {index : Nat} {v : Value w} {t : PreparedSTMT} {s : Bytes}
    (h : text v = some s) : binder lib index v t = (t.resize index).bindText lib index s := by
  cases v <;> simp only [text, Option.some.injEq, reduceCtorEq] at h <;> subst h <;> rfl

/-- The parameter that a text gets. -/
def textParam (lib : Library) (t : PreparedSTMT) (s : Bytes) : Param :=
  let o := lib.string t.nextBlock s
  ⟨some (o.addr (t.stringStorage.push lib.growth o).generation t.stringStorage.elems.length), 0, 0⟩

/-- The parameter that a blob gets. -/
def blobParam (t : PreparedSTMT) (b : Bytes) : Param :=
  ⟨(blobOwner t.nextBlock b).block.map .block, Cxx.toInt b.length, 1⟩

theorem bindText_eq (lib : Library) (t : PreparedSTMT) (s : Bytes) :
    (t.resize t.params.length).bindText lib t.params.length s =
      { t with
        stringStorage := t.stringStorage.push lib.growth (lib.string t.nextBlock s)
        nextBlock := t.nextBlock + 1
        params := t.params ++ [textParam lib t s] } := by
  rw [← set_resize, resize_rest]
  rfl

theorem bindBlob_eq (lib : Library) (t : PreparedSTMT) (b : Bytes) :
    (t.resize t.params.length).bindBlob lib t.params.length b =
      { t with
        blobStorage := t.blobStorage.push lib.growth (blobOwner t.nextBlock b)
        nextBlock := t.nextBlock + 1
        params := t.params ++ [blobParam t b] } := by
  rw [← set_resize, resize_rest]
  rfl

theorem bindNull_eq (t : PreparedSTMT) :
    (t.resize t.params.length).setParam t.params.length .empty =
      { t with params := t.params ++ [Param.empty] } := by
  rw [← set_resize, resize_rest]
  rfl

theorem blobOwner_block {block : Nat} {b : Bytes} :
    ∀ id ∈ (blobOwner block b).block, id = block := by
  intro id hid
  simp only [blobOwner] at hid
  split_ifs at hid
  · cases hid
  · exact (Option.some.inj hid).symm

theorem Library.string_block {lib : Library} {block : Nat} {s : Bytes} :
    ∀ id ∈ (lib.string block s).block, id = block := by
  intro id hid
  simp only [Library.string] at hid
  split_ifs at hid
  · cases hid
  · exact (Option.some.inj hid).symm

theorem binds_text {lib : Library} {v : Value w} {t : PreparedSTMT} {s : Bytes}
    (h : text v = some s) :
    ∃ p, Binds lib v t ((t.resize t.params.length).bindText lib t.params.length s) p := by
  have htext : hasText v = true := by simp [hasText, h]
  have henc : encoding v = s := by
    cases v <;> simp_all [encoding, text]
  have hfresh : ∀ id ∈ (lib.string t.nextBlock s).block, t.nextBlock ≤ id := fun id hid =>
    (Library.string_block id hid).ge
  have hbelow : ∀ id ∈ (lib.string t.nextBlock s).block, id < t.nextBlock + 1 := fun id hid => by
    have := Library.string_block id hid
    omega
  let o := lib.string t.nextBlock s
  let strings := t.stringStorage.push lib.growth o
  let a := o.addr strings.generation t.stringStorage.elems.length
  rw [bindText_eq]
  refine ⟨textParam lib t s, rfl, rfl, ?_, ?_, ?_, ?_, ?_, ?_⟩
  · simp [htext]
  · simp [htext, Vec.capacity_push]
  · intro b hb
    exact (Vec.taken_push hb).mono (Nat.le_succ _)
  · simp only [ParamTaken, h]
    refine ⟨a, rfl, Vec.taken_push_back hbelow, ?_⟩
    simp only [a, o, Owner.addr, Library.string]
    split_ifs with hlen
    · simp [Addr.isBlock, hlen]
    · simp only [Addr.isBlock, true_iff]
      omega
  · intro b hb
    obtain rfl := Option.some.inj hb
    rw [henc]
    exact .inl Vec.holds_push_back
  · intro bytes b hb
    have hstrings : strings.Holds bytes b ↔
        t.stringStorage.Holds bytes b ∧ (t.stringStorage.Full → b.isBlock = true) :=
      Vec.holds_push hb hfresh
    simp only [PreparedSTMT.Holds, htext, true_implies]
    rw [hstrings]
    constructor
    · rintro (⟨hh, hfull⟩ | ⟨hblock, hh⟩)
      · exact ⟨.inl hh, hfull⟩
      · exact ⟨.inr ⟨hblock, hh⟩, fun _ => hblock⟩
    · rintro ⟨hh | hh, hfull⟩
      · exact .inl ⟨hh, hfull⟩
      · exact .inr hh

theorem binds_null {lib : Library} {t : PreparedSTMT} :
    ∃ p, Binds lib (.null : Value w) t
      ((t.resize t.params.length).setParam t.params.length .empty) p := by
  rw [bindNull_eq]
  refine ⟨.empty, rfl, rfl, by simp [hasText, text], by simp [hasText, text], fun _ h => h, ?_, ?_, ?_⟩
  · intro a ha
    cases ha
  · intro a ha
    cases ha
  · intro bytes a _
    simp [PreparedSTMT.Holds, hasText, text]

theorem binds_blob {lib : Library} {t : PreparedSTMT} {b : Bytes} :
    ∃ p, Binds lib (.blob b : Value w) t
      ((t.resize t.params.length).bindBlob lib t.params.length b) p := by
  let o := blobOwner t.nextBlock b
  have hblock : ∀ id ∈ o.block, id = t.nextBlock := blobOwner_block
  rw [bindBlob_eq]
  refine ⟨blobParam t b, rfl, rfl, by simp [hasText, text], by simp [hasText, text], ?_, ?_, ?_, ?_⟩
  · intro a ha
    exact ha.mono (Nat.le_succ _)
  · intro a ha
    obtain ⟨id, hid, rfl⟩ := Option.map_eq_some_iff.mp ha
    refine ⟨?_, rfl⟩
    have := hblock id hid
    show id < t.nextBlock + 1
    omega
  · intro a ha
    obtain ⟨id, hid, rfl⟩ := Option.map_eq_some_iff.mp ha
    exact .inr ⟨rfl, o, by simp [o], hid, rfl⟩
  · intro bytes a ha
    simp only [PreparedSTMT.Holds, hasText, text, Option.isSome_none, Bool.false_eq_true, false_implies,
      and_true]
    refine or_congr_right (and_congr_right fun hb => ?_)
    have ha' : t.blobStorage.Taken t.nextBlock a := by
      cases a with
      | block id => exact ha
      | slot => cases hb
    rw [Vec.holds_push ha' fun id hid => (hblock id hid).ge]
    exact and_iff_left fun _ => hb

theorem binder_binds (lib : Library) (v : Value w) (t : PreparedSTMT) :
    ∃ p, Binds lib v t (binder lib t.params.length v t) p := by
  cases htext : text v with
  | some s =>
    rw [binder_of_text htext]
    exact binds_text htext
  | none =>
    cases v <;> simp only [text, reduceCtorEq] at htext
    · exact binds_null
    · exact binds_blob

/-! ### The calls of one `Execute` -/

/-- The statement after binding `pre` on a reset statement whose string storage has this capacity. -/
structure Bound (lib : Library) (capacity : Nat) (pre : List (Value w)) (t : PreparedSTMT) :
    Prop where
  size : t.stringStorage.elems.length = pre.countP hasText
  capacity : t.stringStorage.capacity = capacityAfter lib.growth capacity (pre.countP hasText)
  length : t.params.length = pre.length
  taken : ∀ q ∈ pre.zip t.params, ParamTaken lib t q.1 q.2

variable {lib : Library} {capacity : Nat} {pre : List (Value w)} {v : Value w}
  {t t' : PreparedSTMT} {p : Param}

theorem Bound.full_iff (h : Bound lib capacity pre t) :
    t.stringStorage.Full ↔
      capacityAfter lib.growth capacity (pre.countP hasText) = pre.countP hasText := by
  have := le_capacityAfter lib.growth capacity (pre.countP hasText)
  unfold Vec.Full
  rw [h.size, h.capacity]
  omega

theorem ParamTaken.mono {u : Value w} {q : Param}
    (hmono : ∀ a, t.stringStorage.Taken t.nextBlock a → t'.stringStorage.Taken t'.nextBlock a)
    (h : ParamTaken lib t u q) : ParamTaken lib t' u q := by
  unfold ParamTaken at h ⊢
  split at h
  · obtain ⟨a, ha, htaken, hblock⟩ := h
    exact ⟨a, ha, hmono a htaken, hblock⟩
  · exact fun a ha => ⟨hmono a (h a ha).1, (h a ha).2⟩

theorem ParamTaken.taken {u : Value w} {q : Param} (h : ParamTaken lib t u q) :
    ∀ a ∈ q.value, t.stringStorage.Taken t.nextBlock a := by
  intro a ha
  unfold ParamTaken at h
  split at h
  · obtain ⟨b, hb, htaken, _⟩ := h
    rw [hb] at ha
    exact Option.some.inj ha ▸ htaken
  · exact (h a ha).1

theorem zip_snoc (hlen : t.params.length = pre.length) :
    (pre ++ [v]).zip (t.params ++ [p]) = pre.zip t.params ++ [(v, p)] := by
  rw [List.zip_append hlen.symm]
  rfl

theorem bound_snoc (h : Bound lib capacity pre t) (hb : Binds lib v t t' p) :
    Bound lib capacity (pre ++ [v]) t' := by
  have hcount : (pre ++ [v]).countP hasText = pre.countP hasText + if hasText v then 1 else 0 := by
    simp [List.countP_append, List.countP_singleton]
  refine ⟨?_, ?_, ?_, ?_⟩
  · rw [hb.size, h.size, hcount]
  · rw [hb.capacity, hcount, h.capacity]
    have hfull := h.full_iff
    have hle := le_capacityAfter lib.growth capacity (pre.countP hasText)
    by_cases htext : hasText v = true
    · simp only [htext, true_and, if_true, capacityAfter, hfull]
      split_ifs <;> first | rfl | omega
    · simp [htext]
  · rw [hb.params, List.length_append, List.length_append, h.length]
    rfl
  · intro q hq
    rw [hb.params, zip_snoc h.length, List.mem_append, List.mem_singleton] at hq
    rcases hq with hq | rfl
    · exact (h.taken q hq).mono hb.taken
    · exact hb.paramTaken

/-- One more argument: the pointers stay valid exactly when they were and no short text loses its
place. -/
theorem binder_valid (h : Bound lib capacity pre t) (hb : Binds lib v t t' p) :
    BuffersValid (pre ++ [v]) t' ↔ BuffersValid pre t ∧
      (hasText v = true →
        capacityAfter lib.growth capacity (pre.countP hasText) = pre.countP hasText →
        ∀ u ∈ pre, ∀ s ∈ text u, lib.inlineLength < s.length) := by
  rw [← h.full_iff]
  unfold BuffersValid
  rw [hb.params, zip_snoc h.length]
  constructor
  · rintro ⟨_, hvalid⟩
    have hold : ∀ q ∈ pre.zip t.params, ∀ a ∈ q.2.value, t.Holds (encoding q.1) a ∧
        (hasText v = true → t.stringStorage.Full → a.isBlock = true) := fun q hq a ha =>
      (hb.holdsOld _ a ((h.taken q hq).taken a ha)).mp
        (hvalid q (List.mem_append_left _ hq) a ha)
    refine ⟨⟨h.length, fun q hq a ha => (hold q hq a ha).1⟩, fun htext hfull u hu s hs => ?_⟩
    obtain ⟨i, hi, hui⟩ := List.getElem_of_mem hu
    have hparam : i < t.params.length := h.length.symm ▸ hi
    have hmem : (u, t.params[i]) ∈ pre.zip t.params := by
      rw [List.mem_iff_getElem]
      exact ⟨i, by simp [h.length, hi], by simp [hui]⟩
    have htaken := h.taken _ hmem
    simp only [ParamTaken, Option.mem_def.mp hs] at htaken
    obtain ⟨a, ha, _, hblock⟩ := htaken
    exact hblock.mp ((hold _ hmem a ha).2 htext hfull)
  · rintro ⟨⟨_, hvalid⟩, hshort⟩
    refine ⟨by simp [h.length], fun q hq a ha => ?_⟩
    rcases List.mem_append.mp hq with hq | hq
    · refine (hb.holdsOld _ a ((h.taken q hq).taken a ha)).mpr ⟨hvalid q hq a ha, fun htext hfull => ?_⟩
      have htaken := h.taken q hq
      unfold ParamTaken at htaken
      split at htaken
      · rename_i s hs
        obtain ⟨b, hb', _, hblock⟩ := htaken
        rw [hb'] at ha
        obtain rfl := Option.some.inj ha
        exact hblock.mpr (hshort htext hfull q.1 (List.of_mem_zip hq).1 s hs)
      · exact (htaken a ha).2
    · obtain rfl := List.mem_singleton.mp hq
      exact hb.holdsNew a ha

theorem shortTextsStay_snoc :
    ShortTextsStay lib capacity (pre ++ [v]) ↔ ShortTextsStay lib capacity pre ∧
      (hasText v = true →
        capacityAfter lib.growth capacity (pre.countP hasText) = pre.countP hasText →
        ∀ u ∈ pre, ∀ s ∈ text u, lib.inlineLength < s.length) := by
  constructor
  · intro h
    refine ⟨fun pre' v' post heq => h pre' v' (post ++ [v]) (by simp [heq]), h pre v [] rfl⟩
  · rintro ⟨h, hlast⟩ pre' v' post heq
    rcases List.eq_nil_or_concat post with rfl | ⟨post, u, rfl⟩
    · obtain ⟨rfl, hv⟩ := List.append_inj' heq rfl
      obtain rfl := List.singleton_inj.mp hv
      exact hlast
    · have heq' : pre ++ [v] = (pre' ++ v' :: post) ++ [u] := by simpa using heq
      exact h pre' v' post (List.append_inj' heq' rfl).1

theorem bindAll_snoc (index : Nat) (t : PreparedSTMT) :
    bindAll lib index (pre ++ [v]) t = binder lib (index + pre.length) v (bindAll lib index pre t) := by
  induction pre generalizing index t with
  | nil => rfl
  | cons u us ih =>
    simp only [List.cons_append, bindAll, ih, List.length_cons]
    congr 1
    omega

theorem reset_bound (lib : Library) (t : PreparedSTMT) :
    Bound lib t.stringStorage.capacity ([] : List (Value w)) (reset t) :=
  ⟨rfl, rfl, rfl, fun q hq => by cases hq⟩

theorem bindAll_spec (lib : Library) (t : PreparedSTMT) (args : List (Value w)) :
    Bound lib t.stringStorage.capacity args (bindAll lib 0 args (reset t)) ∧
      (BuffersValid args (bindAll lib 0 args (reset t)) ↔
        ShortTextsStay lib t.stringStorage.capacity args) := by
  induction args using List.reverseRecOn with
  | nil =>
    refine ⟨reset_bound lib t, fun _ pre v post heq => ?_, fun _ => ⟨rfl, fun q hq => by cases hq⟩⟩
    simp at heq
  | append_singleton pre v ih =>
    obtain ⟨hbound, hiff⟩ := ih
    rw [bindAll_snoc, Nat.zero_add, ← hbound.length]
    obtain ⟨p, hb⟩ := binder_binds lib v (bindAll lib 0 pre (reset t))
    exact ⟨bound_snoc hbound hb, by rw [binder_valid hbound hb, hiff, shortTextsStay_snoc]⟩

/-- **The buffers are valid** when `PQexecPrepared` is called exactly when no argument whose text is
within the inline length stands before one that finds the string storage full. -/
theorem bind_buffers_valid_iff (lib : Library) (args : List (Value w)) (t t' : PreparedSTMT)
    (hcall : execCall lib args t = some t') :
    BuffersValid args t' ↔ ShortTextsStay lib t.stringStorage.capacity args := by
  simp only [execCall] at hcall
  split_ifs at hcall
  obtain rfl := Option.some.inj hcall
  exact (bindAll_spec lib t args).2

/-- Strings of 15 bytes are stored inline, and a full vector doubles. -/
def libstdcxx : Library := ⟨15, ⟨fun c => max 1 (2 * c), fun c => by omega⟩⟩

/-- A statement as `CreatePreparedSTMT` returns it. -/
def newPreparedSTMT : PreparedSTMT := ⟨true, [], ⟨0, 0, []⟩, ⟨0, 0, []⟩, 0⟩

/-- A long text, a blob and a short text on a new statement. -/
theorem bind_buffers_valid_iff_three :
    let args : List (Value .bits64) :=
      [.text (ascii "a text of 23 characters"), .blob [0, 255], .text (ascii "b")]
    BuffersValid args ((execCall libstdcxx args newPreparedSTMT).get rfl) ↔
      ShortTextsStay libstdcxx 0 args :=
  bind_buffers_valid_iff _ _ newPreparedSTMT _ rfl

/-- Two short texts on a new statement: the pointer to the first is left behind. -/
theorem two_short_texts :
    ¬ ∀ (lib : Library) (args : List (Value .bits64)) (t t' : PreparedSTMT),
      execCall lib args t = some t' → BuffersValid args t' := by
  intro h
  have hbad := h libstdcxx [.text (ascii "a"), .text (ascii "b")] newPreparedSTMT _ rfl
  exact absurd hbad (by decide)

end StormByteDatabase.Postgres
