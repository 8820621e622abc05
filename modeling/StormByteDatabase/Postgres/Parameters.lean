import StormByteDatabase.Postgres.PreparedStmt

/-!
# What the server reads of a parameter

`PQexecPrepared` gets a pointer, a length and a format for each parameter. A null pointer is NULL,
format 0 is the bytes up to the first NUL whatever the length says, and format 1 is as many bytes as
the length says.

`parameter_denotes_iff`: a parameter denotes its argument exactly when a text has no NUL byte and
keeps its place (a text within the inline length is not followed by one that finds the string storage
full), and a blob has bytes, and fewer than 2^31. An empty blob has no buffer, so its pointer is null.

Proof. What the address of the argument holds is known after its own `Binder` call, as the block it
may be in is new, and each later call either leaves it alone or takes the place away (`Binds.holdsOld`).
The induction is over the arguments after it.
-/

namespace StormByteDatabase.Postgres

open Lib Vector

variable {w : LongWidth}

/-- What is read by a parameter; `none` is NULL. -/
inductive PreparedSTMT.Denotes (t : PreparedSTMT) (p : Param) : Option Bytes → Prop
  | null (value : p.value = none) : Denotes t p none
  | text {a : Addr} {bytes : Bytes} (value : p.value = some a) (format : p.format = 0)
      (holds : t.Holds bytes a) : Denotes t p (some (cString bytes))
  | binary {a : Addr} {bytes : Bytes} (value : p.value = some a) (format : p.format = 1)
      (holds : t.Holds bytes a) (length : 0 ≤ p.length ∧ p.length ≤ bytes.length) :
      Denotes t p (some (bytes.take p.length.toNat))

/-- What a value stands for as a parameter. -/
def denoted : Value w → Option Bytes
  | .null => none
  | v => some (encoding v)

/-- The parameter denotes the bytes of the value and nothing else, and NULL for NULL alone. -/
structure ParamDenotes (t : PreparedSTMT) (p : Param) (v : Value w) : Prop where
  bytes : ∀ d, t.Denotes p d ↔ d = denoted v
  null : t.Denotes p none ↔ v = .null

/-- The three fields of a parameter can carry the value. -/
def Sendable : Value w → Prop
  | .null => True
  | .blob b => b ≠ [] ∧ b.length < 2 ^ 31
  | v => 0 ∉ encoding v

/-- A text within the inline length is not followed by an argument with a text that finds the string
storage full. -/
def PlaceStays (lib : Library) (capacity : Nat) (pre : List (Value w)) (v : Value w)
    (post : List (Value w)) : Prop :=
  ∀ mid u rest, post = mid ++ u :: rest → hasText u = true →
    capacityAfter lib.growth capacity ((pre ++ v :: mid).countP hasText) =
      (pre ++ v :: mid).countP hasText →
    ∀ s ∈ text v, lib.inlineLength < s.length

/-! ### The parameter of one call -/

/-- The blocks in use were numbered before. -/
def PreparedSTMT.Fresh (t : PreparedSTMT) : Prop :=
  ∀ o ∈ t.stringStorage.elems ++ t.blobStorage.elems, ∀ id ∈ o.block, id < t.nextBlock

/-- What `Binder` writes for the value. -/
structure Header (v : Value w) (p : Param) : Prop where
  null : p.value = none ↔ v = .null ∨ v = .blob []
  format : p.format = if v.type = .blob then 1 else 0
  length : ∀ b, v = .blob b → p.length = Cxx.toInt b.length

variable {lib : Library} {capacity : Nat} {pre post : List (Value w)} {v : Value w}
  {t t' : PreparedSTMT} {p : Param}

theorem holds_textParam (hfresh : t.Fresh) (s bytes : Bytes) :
    ∀ a ∈ (textParam lib t s).value,
      (((t.resize t.params.length).bindText lib t.params.length s).Holds bytes a ↔ bytes = s) := by
  intro a ha
  obtain rfl := Option.some.inj ha
  have hblock : ∀ o ∈ t.stringStorage.elems ++ t.blobStorage.elems, ∀ id ∈ o.block,
      (lib.string t.nextBlock s).block ≠ some id := by
    intro o ho id hid hnew
    have hlt := hfresh o ho id hid
    rw [Library.string_block id hnew] at hlt
    exact Nat.lt_irrefl _ hlt
  rw [bindText_eq]
  show Vec.Holds _ _ _ ∨ _ ∧ Vec.Holds _ _ _ ↔ _
  rw [Vec.holds_push_back_iff fun o ho => hblock o (List.mem_append_left _ ho)]
  refine or_iff_left ?_
  rintro ⟨hisBlock, hholds⟩
  unfold Owner.addr at hisBlock hholds
  cases hb : (lib.string t.nextBlock s).block with
  | none =>
    rw [hb] at hisBlock
    cases hisBlock
  | some id =>
    rw [hb] at hholds
    obtain ⟨o, ho, hid, _⟩ := hholds
    exact hblock o (List.mem_append_right _ ho) id hid hb

theorem holds_blobParam (hfresh : t.Fresh) (b bytes : Bytes) :
    ∀ a ∈ (blobParam t b).value,
      (((t.resize t.params.length).bindBlob lib t.params.length b).Holds bytes a ↔ bytes = b) := by
  intro a ha
  obtain ⟨id, hid, rfl⟩ := Option.map_eq_some_iff.mp ha
  have hblock : ∀ o ∈ t.stringStorage.elems ++ t.blobStorage.elems, ∀ id ∈ o.block,
      (blobOwner t.nextBlock b).block ≠ some id := by
    intro o ho id hid hnew
    have hlt := hfresh o ho id hid
    rw [blobOwner_block id hnew] at hlt
    exact Nat.lt_irrefl _ hlt
  have haddr : (blobOwner t.nextBlock b).addr
      (t.blobStorage.push lib.growth (blobOwner t.nextBlock b)).generation
      t.blobStorage.elems.length = .block id := by
    unfold Owner.addr
    rw [hid]
  rw [bindBlob_eq]
  show Vec.Holds _ _ _ ∨ _ ∧ Vec.Holds _ _ _ ↔ _
  rw [← haddr, Vec.holds_push_back_iff fun o ho => hblock o (List.mem_append_right _ ho), haddr]
  constructor
  · rintro (⟨o, ho, hid', _⟩ | ⟨_, hbytes⟩)
    · exact absurd hid (hblock o (List.mem_append_left _ ho) id hid')
    · exact hbytes
  · exact fun hbytes => .inr ⟨rfl, hbytes⟩

theorem bindText_fresh (hfresh : t.Fresh) (s : Bytes) :
    ((t.resize t.params.length).bindText lib t.params.length s).Fresh := by
  rw [bindText_eq]
  intro o ho id hid
  simp only [Vec.elems_push, List.mem_append, List.mem_singleton] at ho
  show id < t.nextBlock + 1
  rcases ho with (ho | rfl) | ho
  · exact Nat.lt_succ_of_lt (hfresh o (List.mem_append_left _ ho) id hid)
  · exact Nat.lt_succ_of_le (Library.string_block id hid).le
  · exact Nat.lt_succ_of_lt (hfresh o (List.mem_append_right _ ho) id hid)

theorem bindBlob_fresh (hfresh : t.Fresh) (b : Bytes) :
    ((t.resize t.params.length).bindBlob lib t.params.length b).Fresh := by
  rw [bindBlob_eq]
  intro o ho id hid
  simp only [Vec.elems_push, List.mem_append, List.mem_singleton] at ho
  show id < t.nextBlock + 1
  rcases ho with ho | ho | rfl
  · exact Nat.lt_succ_of_lt (hfresh o (List.mem_append_left _ ho) id hid)
  · exact Nat.lt_succ_of_lt (hfresh o (List.mem_append_right _ ho) id hid)
  · exact Nat.lt_succ_of_le (blobOwner_block id hid).le

theorem Binds.param_eq {q : Param} (hb : Binds lib v t t' p) (h : t'.params = t.params ++ [q]) :
    p = q := by
  have hparams := hb.params.symm.trans h
  exact List.singleton_inj.mp (List.append_cancel_left hparams)

theorem encoding_of_text {s : Bytes} (h : text v = some s) : encoding v = s := by
  cases v <;> simp_all [encoding, text]

theorem header_text {s : Bytes} (h : text v = some s) : Header v (textParam lib t s) where
  null := by
    refine iff_of_false nofun ?_
    rintro (rfl | rfl) <;> cases h
  format := by
    have htype : v.type ≠ .blob := by
      intro hblob
      cases v <;> cases hblob
      cases h
    rw [if_neg htype]
    rfl
  length b hb := by
    subst hb
    cases h

theorem header_null : Header (.null : Value w) .empty where
  null := iff_of_true rfl (.inl rfl)
  format := rfl
  length := nofun

theorem header_blob (b : Bytes) : Header (.blob b : Value w) (blobParam t b) where
  null := by
    by_cases hnil : b = []
    · subst hnil
      exact iff_of_true rfl (.inr rfl)
    · refine iff_of_false ?_ ?_
      · simp [blobParam, blobOwner, hnil]
      · simp [hnil]
  format := rfl
  length b' hb' := by
    rw [Value.blob.inj hb']
    rfl

theorem binder_writes (lib : Library) (v : Value w) (hfresh : t.Fresh) :
    ∃ p, Binds lib v t (binder lib t.params.length v t) p ∧ Header v p ∧
      (∀ a ∈ p.value, ∀ bytes,
        (binder lib t.params.length v t).Holds bytes a ↔ bytes = encoding v) ∧
      (binder lib t.params.length v t).Fresh := by
  obtain ⟨p, hb⟩ := binder_binds lib v t
  refine ⟨p, hb, ?_⟩
  cases htext : text v with
  | some s =>
    rw [binder_of_text htext] at hb ⊢
    rw [hb.param_eq (congrArg PreparedSTMT.params (bindText_eq lib t s))]
    refine ⟨header_text htext, fun a ha bytes => ?_, bindText_fresh hfresh s⟩
    rw [encoding_of_text htext]
    exact holds_textParam hfresh s bytes a ha
  | none =>
    cases v <;> simp only [text, reduceCtorEq] at htext
    · have hbind : binder lib t.params.length (.null : Value w) t =
          { t with params := t.params ++ [Param.empty] } := bindNull_eq t
      rw [hb.param_eq (congrArg PreparedSTMT.params hbind), hbind]
      exact ⟨header_null, fun a ha => absurd ha (Option.not_mem_none a), hfresh⟩
    · rename_i b
      rw [hb.param_eq (congrArg PreparedSTMT.params (bindBlob_eq lib t b))]
      exact ⟨header_blob b, fun a ha bytes => holds_blobParam hfresh b bytes a ha,
        bindBlob_fresh hfresh b⟩

/-! ### The arguments after it -/

theorem placeStays_nil : PlaceStays lib capacity pre v [] := fun mid u rest h => by
  simp at h

theorem placeStays_snoc {u : Value w} :
    PlaceStays lib capacity pre v (post ++ [u]) ↔ PlaceStays lib capacity pre v post ∧
      (hasText u = true →
        capacityAfter lib.growth capacity ((pre ++ v :: post).countP hasText) =
          (pre ++ v :: post).countP hasText →
        ∀ s ∈ text v, lib.inlineLength < s.length) := by
  constructor
  · intro h
    exact ⟨fun mid u' rest heq => h mid u' (rest ++ [u]) (by simp [heq]), h post u [] rfl⟩
  · rintro ⟨h, hlast⟩ mid u' rest heq
    rcases List.eq_nil_or_concat rest with rfl | ⟨rest, u'', rfl⟩
    · obtain ⟨rfl, hu⟩ := List.append_inj' heq rfl
      obtain rfl := List.singleton_inj.mp hu
      exact hlast
    · have heq' : post ++ [u] = (mid ++ u' :: rest) ++ [u''] := by simpa using heq
      exact h mid u' rest (List.append_inj' heq' rfl).1

/-- The parameter of `v` and what its address holds, with `post` bound after it. -/
structure Kept (lib : Library) (capacity : Nat) (pre : List (Value w)) (v : Value w)
    (post : List (Value w)) (t : PreparedSTMT) (p : Param) : Prop where
  param : t.params[pre.length]? = some p
  header : Header v p
  holds : ∀ a ∈ p.value, ∀ bytes,
    t.Holds bytes a ↔ bytes = encoding v ∧ PlaceStays lib capacity pre v post
  fresh : t.Fresh

theorem mem_zip_params {params : List Param} (h : params[pre.length]? = some p) :
    (v, p) ∈ (pre ++ v :: post).zip params := by
  rw [List.mem_iff_getElem?]
  refine ⟨pre.length, List.getElem?_zip_eq_some.mpr ⟨?_, h⟩⟩
  simp

/-- The address survives one more text that finds the storage full exactly if its own is not
inline. -/
theorem survives_iff {u : Value w} {a : Addr} (hbound : Bound lib capacity (pre ++ v :: post) t)
    (htaken : ParamTaken lib t v p) (ha : p.value = some a) :
    (hasText u = true → t.stringStorage.Full → a.isBlock = true) ↔
      (hasText u = true →
        capacityAfter lib.growth capacity ((pre ++ v :: post).countP hasText) =
          (pre ++ v :: post).countP hasText →
        ∀ s ∈ text v, lib.inlineLength < s.length) := by
  rw [hbound.full_iff]
  apply imp_congr_right
  intro _
  apply imp_congr_right
  intro _
  cases htext : text v with
  | some s =>
    unfold ParamTaken at htaken
    simp only [htext] at htaken
    obtain ⟨b, hb, _, hiff⟩ := htaken
    obtain rfl := Option.some.inj (hb.symm.trans ha)
    rw [hiff]
    simp
  | none =>
    unfold ParamTaken at htaken
    simp only [htext] at htaken
    exact iff_of_true (htaken a ha).2 fun s hs => absurd hs (Option.not_mem_none s)

theorem kept_snoc {u : Value w} (hkept : Kept lib capacity pre v post t p)
    (hbound : Bound lib capacity (pre ++ v :: post) t) :
    Kept lib capacity pre v (post ++ [u]) (binder lib t.params.length u t) p := by
  obtain ⟨q, hb, _, _, hfresh⟩ := binder_writes lib u hkept.fresh
  have hlt : pre.length < t.params.length := by
    rw [hbound.length]
    simp
  refine ⟨?_, hkept.header, fun a ha bytes => ?_, hfresh⟩
  · rw [hb.params, List.getElem?_append_left hlt]
    exact hkept.param
  · have htaken := hbound.taken _ (mem_zip_params hkept.param)
    rw [hb.holdsOld bytes a (htaken.taken a ha), hkept.holds a ha, survives_iff hbound htaken ha,
      placeStays_snoc, and_assoc]

theorem bindAll_fresh (lib : Library) (t : PreparedSTMT) (args : List (Value w)) :
    (bindAll lib 0 args (reset t)).Fresh := by
  induction args using List.reverseRecOn with
  | nil => exact fun o ho => by cases ho
  | append_singleton pre v ih =>
    obtain ⟨_, _, _, _, hfresh⟩ := binder_writes lib v ih
    rw [bindAll_snoc, Nat.zero_add, ← (bindAll_spec lib t pre).1.length]
    exact hfresh

theorem bindAll_kept (lib : Library) (t : PreparedSTMT) (pre : List (Value w)) (v : Value w)
    (post : List (Value w)) :
    ∃ p, Kept lib t.stringStorage.capacity pre v post
      (bindAll lib 0 (pre ++ v :: post) (reset t)) p := by
  induction post using List.reverseRecOn with
  | nil =>
    have hlen := (bindAll_spec lib t pre).1.length
    obtain ⟨p, hb, hheader, hholds, hfresh⟩ := binder_writes lib v (bindAll_fresh lib t pre)
    rw [bindAll_snoc, Nat.zero_add, ← hlen]
    refine ⟨p, ?_, hheader, fun a ha bytes => ?_, hfresh⟩
    · rw [hb.params, ← hlen, List.getElem?_concat_length]
    · rw [hholds a ha, and_iff_left placeStays_nil]
  | append_singleton post u ih =>
    obtain ⟨p, hkept⟩ := ih
    have hbound := (bindAll_spec lib t (pre ++ v :: post)).1
    have hargs : pre ++ v :: (post ++ [u]) = (pre ++ v :: post) ++ [u] := by simp
    rw [hargs, bindAll_snoc, Nat.zero_add, ← hbound.length]
    exact ⟨p, kept_snoc hkept hbound⟩

/-! ### What is read -/

theorem denotes_null (h : p.value = none) (d : Option Bytes) : t.Denotes p d ↔ d = none := by
  constructor
  · rintro (_ | ⟨hvalue, _, _⟩ | ⟨hvalue, _, _, _⟩)
    · rfl
    · cases h.symm.trans hvalue
    · cases h.symm.trans hvalue
  · rintro rfl
    exact .null h

theorem denotes_text {a : Addr} (h : p.value = some a) (hformat : p.format = 0)
    (d : Option Bytes) :
    t.Denotes p d ↔ ∃ bytes, t.Holds bytes a ∧ d = some (cString bytes) := by
  constructor
  · rintro (hvalue | ⟨hvalue, _, hholds⟩ | ⟨_, hbinary, _, _⟩)
    · cases h.symm.trans hvalue
    · obtain rfl := Option.some.inj (h.symm.trans hvalue)
      exact ⟨_, hholds, rfl⟩
    · cases hformat.symm.trans hbinary
  · rintro ⟨bytes, hholds, rfl⟩
    exact .text h hformat hholds

theorem denotes_binary {a : Addr} (h : p.value = some a) (hformat : p.format = 1)
    (d : Option Bytes) :
    t.Denotes p d ↔ ∃ bytes, t.Holds bytes a ∧ (0 ≤ p.length ∧ p.length ≤ bytes.length) ∧
      d = some (bytes.take p.length.toNat) := by
  constructor
  · rintro (hvalue | ⟨_, htext, _⟩ | ⟨hvalue, _, hholds, hlength⟩)
    · cases h.symm.trans hvalue
    · cases hformat.symm.trans htext
    · obtain rfl := Option.some.inj (h.symm.trans hvalue)
      exact ⟨_, hholds, hlength, rfl⟩
  · rintro ⟨bytes, hholds, hlength, rfl⟩
    exact .binary h hformat hholds hlength

theorem denoted_eq_none_iff : denoted v = none ↔ v = .null := by
  cases v <;> simp [denoted]

theorem paramDenotes_iff : ParamDenotes t p v ↔ ∀ d, t.Denotes p d ↔ d = denoted v :=
  ⟨fun h => h.bytes, fun h => ⟨h, (h none).trans (eq_comm.trans denoted_eq_none_iff)⟩⟩

/-- A reading that is there under a condition is the right one alone exactly if it is there and
right. -/
theorem forall_reading_iff {P : Prop} {x y : Bytes} :
    (∀ d, (P ∧ d = some x) ↔ d = some y) ↔ x = y ∧ P := by
  constructor
  · intro h
    obtain ⟨hP, heq⟩ := (h (some y)).mpr rfl
    exact ⟨(Option.some.inj heq).symm, hP⟩
  · rintro ⟨rfl, hP⟩ d
    exact and_iff_right hP

theorem placeStays_of_blob {b : Bytes} : PlaceStays lib capacity pre (.blob b) post :=
  fun _ _ _ _ _ _ _ h => by cases h

theorem sendable_of_text {s : Bytes} (h : text v = some s) : Sendable v ↔ cString s = s := by
  rw [cString_eq_self_iff, ← encoding_of_text h]
  cases v <;> first | rfl | cases h

theorem kept_null (hkept : Kept lib capacity pre (.null : Value w) post t p) :
    ParamDenotes t p (.null : Value w) :=
  paramDenotes_iff.mpr (denotes_null (hkept.header.null.mpr (.inl rfl)))

theorem kept_text_reads {s : Bytes} (htext : text v = some s)
    (hkept : Kept lib capacity pre v post t p) (d : Option Bytes) :
    t.Denotes p d ↔ PlaceStays lib capacity pre v post ∧ d = some (cString s) := by
  have hformat : p.format = 0 := by
    rw [hkept.header.format, if_neg]
    intro hblob
    cases v <;> cases hblob
    cases htext
  cases ha : p.value with
  | none =>
    rcases hkept.header.null.mp ha with rfl | rfl <;> cases htext
  | some a =>
    rw [denotes_text ha hformat]
    simp only [hkept.holds a ha, encoding_of_text htext, and_assoc, exists_eq_left]

theorem kept_text_iff {s : Bytes} (htext : text v = some s) (hkept : Kept lib capacity pre v post t p) :
    ParamDenotes t p v ↔ Sendable v ∧ PlaceStays lib capacity pre v post := by
  have hdenoted : denoted v = some s := by
    rw [← encoding_of_text htext]
    cases v <;> first | rfl | cases htext
  rw [paramDenotes_iff, sendable_of_text htext, hdenoted]
  simp only [kept_text_reads htext hkept]
  exact forall_reading_iff

theorem kept_blob_reads {b : Bytes} (hkept : Kept lib capacity pre (.blob b : Value w) post t p)
    (d : Option Bytes) :
    t.Denotes p d ↔ (b = [] ∧ d = none) ∨ (b ≠ [] ∧
      (0 ≤ Cxx.toInt b.length ∧ Cxx.toInt b.length ≤ b.length) ∧
        d = some (b.take (Cxx.toInt b.length).toNat)) := by
  have hformat : p.format = 1 := hkept.header.format
  have hlength : p.length = Cxx.toInt b.length := hkept.header.length b rfl
  have hnull : p.value = none ↔ b = [] := by
    rw [hkept.header.null]
    simp
  cases ha : p.value with
  | none =>
    have hnil : b = [] := hnull.mp ha
    rw [denotes_null ha]
    simp [hnil]
  | some a =>
    have hnil : b ≠ [] := fun hnil => by
      rw [hnull.mpr hnil] at ha
      cases ha
    rw [denotes_binary ha hformat, hlength]
    simp only [hkept.holds a ha, and_iff_left placeStays_of_blob, encoding, exists_eq_left]
    simp [hnil]

theorem kept_blob_iff {b : Bytes} (hkept : Kept lib capacity pre (.blob b : Value w) post t p) :
    ParamDenotes t p (.blob b : Value w) ↔ Sendable (.blob b : Value w) := by
  have hupper := Cxx.toInt_lt b.length
  have hsame : b.length < 2 ^ 31 → Cxx.toInt b.length = b.length := Cxx.toInt_of_lt
  rw [paramDenotes_iff]
  simp only [kept_blob_reads hkept]
  show _ ↔ b ≠ [] ∧ b.length < 2 ^ 31
  by_cases hnil : b = []
  · refine iff_of_false (fun h => ?_) fun h => h.1 hnil
    have hnull := (h none).mp (.inl ⟨hnil, rfl⟩)
    cases hnull
  · simp only [hnil, false_and, false_or, ne_eq, not_false_eq_true, true_and]
    refine forall_reading_iff.trans ?_
    show b.take _ = b ∧ _ ↔ _
    rw [List.take_eq_self_iff]
    omega

theorem kept_denotes_iff (hkept : Kept lib capacity pre v post t p) :
    ParamDenotes t p v ↔ Sendable v ∧ PlaceStays lib capacity pre v post := by
  cases htext : text v with
  | some s => exact kept_text_iff htext hkept
  | none =>
    cases v <;> simp only [text, reduceCtorEq] at htext
    · refine iff_of_true (kept_null hkept) ⟨trivial, fun _ _ _ _ _ _ _ h => by cases h⟩
    · rw [and_iff_left placeStays_of_blob]
      exact kept_blob_iff hkept

/-- **Which parameters denote their arguments** when `PQexecPrepared` is called. -/
theorem parameter_denotes_iff (lib : Library) (pre : List (Value w)) (v : Value w)
    (post : List (Value w)) (t t' : PreparedSTMT)
    (hcall : execCall lib (pre ++ v :: post) t = some t') :
    (∃ p, t'.params[pre.length]? = some p ∧ ParamDenotes t' p v) ↔
      Sendable v ∧ PlaceStays lib t.stringStorage.capacity pre v post := by
  simp only [execCall] at hcall
  split_ifs at hcall
  obtain rfl := Option.some.inj hcall
  obtain ⟨p, hkept⟩ := bindAll_kept lib t pre v post
  rw [← kept_denotes_iff hkept]
  constructor
  · rintro ⟨q, hq, hdenotes⟩
    obtain rfl := Option.some.inj (hkept.param.symm.trans hq)
    exact hdenotes
  · exact fun hdenotes => ⟨p, hkept.param, hdenotes⟩

/-- A blob between two texts on a new statement. -/
theorem parameter_denotes_iff_blob :
    let pre : List (Value .bits64) := [.text (ascii "a text of 23 characters")]
    let v : Value .bits64 := .blob [0, 255]
    let post : List (Value .bits64) := [.text (ascii "b")]
    let t := (execCall libstdcxx (pre ++ v :: post) newPreparedSTMT).get rfl
    (∃ p, t.params[pre.length]? = some p ∧ ParamDenotes t p v) ↔
      Sendable v ∧ PlaceStays libstdcxx 0 pre v post :=
  parameter_denotes_iff libstdcxx _ _ _ newPreparedSTMT _ rfl

/-- An empty blob is sent as NULL. -/
theorem empty_blob_sent_as_null :
    ¬ ∀ (lib : Library) (pre : List (Value .bits64)) (v : Value .bits64) (post : List (Value .bits64))
      (t t' : PreparedSTMT), v.type = .text ∨ v.type = .blob ∨ v.type = .null →
      execCall lib (pre ++ v :: post) t = some t' →
        ∃ p, t'.params[pre.length]? = some p ∧ ParamDenotes t' p v := by
  intro h
  obtain ⟨p, hp, hdenotes⟩ := h libstdcxx [] (.blob []) [] newPreparedSTMT _ (.inr (.inl rfl)) rfl
  obtain rfl : (⟨none, 0, 1⟩ : Param) = p := Option.some.inj hp
  have hnull := hdenotes.null.mp (.null rfl)
  cases hnull

end StormByteDatabase.Postgres
