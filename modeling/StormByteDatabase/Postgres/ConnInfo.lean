import Mathlib.Data.List.Nodup
import Mathlib.Data.List.TakeWhile
import StormByteDatabase.Lib.KeyValue
import StormByteDatabase.Typedefs

/-!
# The PostgreSQL connection string

`DoConnect` writes each non-empty field between single quotes as it is, and `PQconnectdb` reads the
text by its keyword and value grammar (`Lib.KeyValue`). `conninfo_round_trip_iff`: the reader gets
exactly the fields and the SSL mode back when no field contains a quote or a backslash, and never
otherwise. `password_sets_host` is a password that names another host.

Proof. If the reader ends up with the expected pairs, the equals signs of the text are just enough
for them, so no pair was overridden and each pair read is one of the expected ones. Hence the first
field was read as itself, which makes it clean, and the reader arrives at the second in step.
-/

namespace StormByteDatabase.ConnInfo

open Lib.KeyValue

/-- A string without NUL bytes. -/
structure Text where
  val : Bytes
  noNul : 0 ∉ val

/-- The members `DoConnect` reads. -/
structure Config where
  host : Text
  user : Text
  password : Text
  dbname : Text
  sslMode : SslMode

def field (keyword value : Bytes) : Bytes :=
  if value = [] then [] else keyword ++ ascii "='" ++ value ++ ascii "' "

def sslField : SslMode → Bytes
  | .disable => ascii "sslmode=disable "
  | .prefer => ascii "sslmode=prefer "
  | .require => ascii "sslmode=require "
  | .default => []

/-- The text `DoConnect` builds. -/
def conninfo (c : Config) : Bytes :=
  field (ascii "host") c.host.val ++ field (ascii "user") c.user.val ++
    field (ascii "password") c.password.val ++ field (ascii "dbname") c.dbname.val ++
    sslField c.sslMode

/-- The settings `PQconnectdb` takes from the text. -/
def settings (c : Config) : Option (List Pair) := (parse .blank (cString (conninfo c))).map effective

/-- The fields with their keywords. -/
def Config.fields (c : Config) : List Pair :=
  [(ascii "host", c.host.val), (ascii "user", c.user.val), (ascii "password", c.password.val),
    (ascii "dbname", c.dbname.val)]

def sslPairs : SslMode → List Pair
  | .disable => [(ascii "sslmode", ascii "disable")]
  | .prefer => [(ascii "sslmode", ascii "prefer")]
  | .require => [(ascii "sslmode", ascii "require")]
  | .default => []

/-- The non-empty fields and the SSL mode. -/
def expected (c : Config) : List Pair := c.fields.filter (·.2 ≠ []) ++ sslPairs c.sslMode

/-- The settings are the expected pairs, in any order. -/
def RoundTrips (c : Config) : Prop := ∃ ps ∈ settings c, ps.Perm (expected c)

instance (c : Config) : Decidable (RoundTrips c) :=
  inferInstanceAs (Decidable (∃ ps ∈ settings c, ps.Perm (expected c)))

/-! ### The text field by field -/

/-- A keyword the reader takes as one. -/
def Keyword (k : Bytes) : Prop := k ≠ [] ∧ ∀ c ∈ k, c ≠ equals ∧ isSpace c = false

instance (k : Bytes) : Decidable (Keyword k) :=
  @instDecidableAnd _ _ inferInstance (List.decidableBAll _ k)

def render (fs : List Pair) : Bytes := fs.flatMap fun p => field p.1 p.2

theorem conninfo_eq (c : Config) : conninfo c = render c.fields ++ sslField c.sslMode := by
  simp [conninfo, render, Config.fields]

theorem render_cons_nil {k : Bytes} {fs : List Pair} : render ((k, []) :: fs) = render fs := by
  simp [render, field]

theorem render_cons {k v : Bytes} {fs : List Pair} (h : v ≠ []) :
    render ((k, v) :: fs) = k ++ equals :: quote :: (v ++ quote :: 32 :: render fs) := by
  have hopen : ascii "='" = [equals, quote] := rfl
  have hclose : ascii "' " = [quote, 32] := rfl
  simp [render, field, h, hopen, hclose]

theorem parse_name {k n cs : Bytes} (h : ∀ c ∈ k, c ≠ equals ∧ isSpace c = false) :
    parse (.name n) (k ++ equals :: cs) = parse (.beforeValue (n ++ k)) cs := by
  induction k generalizing n with
  | nil => simp [parse]
  | cons c k ih =>
    obtain ⟨hne, hspace⟩ := h c List.mem_cons_self
    rw [List.cons_append, parse, if_neg hne, if_neg (by simp [hspace]),
      ih fun d hd => h d (List.mem_cons_of_mem c hd), List.append_assoc]
    rfl

theorem parse_keyword {k cs : Bytes} (h : Keyword k) :
    parse .blank (k ++ equals :: quote :: cs) = parse (.quoted k []) cs := by
  obtain ⟨hne, hk⟩ := h
  cases k with
  | nil => exact absurd rfl hne
  | cons c k =>
    obtain ⟨hc, hspace⟩ := hk c List.mem_cons_self
    rw [List.cons_append, parse, if_neg (by simp [hspace]), if_neg hc,
      parse_name fun d hd => hk d (List.mem_cons_of_mem c hd)]
    rfl

theorem parse_field {k v tail : Bytes} {ps : List Pair} (hk : Keyword k)
    (h : parse .blank (k ++ equals :: quote :: (v ++ quote :: tail)) = some ps) :
    ∃ u rest qs, unquote false (v ++ quote :: tail) = some (u, rest) ∧
      parse .blank rest = some qs ∧ ps = (k, u) :: qs := by
  rw [parse_keyword hk] at h
  have hquoted := parse_quoted false k [] (v ++ quote :: tail)
  simp only [Bool.false_eq_true, if_false] at hquoted
  rw [hquoted] at h
  obtain ⟨⟨u, rest⟩, hu, hmap⟩ := Option.bind_eq_some_iff.mp h
  obtain ⟨qs, hqs, rfl⟩ := Option.map_eq_some_iff.mp hmap
  exact ⟨u, rest, qs, hu, hqs, rfl⟩

theorem clean_nil : Clean [] := ⟨List.not_mem_nil, List.not_mem_nil⟩

theorem clean_of_parse {fs : List Pair} {tail : Bytes} {ps : List Pair}
    (hk : ∀ q ∈ fs, Keyword q.1) (h : parse .blank (render fs ++ tail) = some ps)
    (hps : ∀ p ∈ ps, ∀ q ∈ fs, q.2 ≠ [] → p.1 = q.1 → p.2 = q.2) : ∀ q ∈ fs, Clean q.2 := by
  induction fs generalizing ps with
  | nil => intro q hq; cases hq
  | cons f fs ih =>
    obtain ⟨k, v⟩ := f
    have hkf : Keyword k := hk (k, v) List.mem_cons_self
    have hkfs : ∀ q ∈ fs, Keyword q.1 := fun q hq => hk q (List.mem_cons_of_mem _ hq)
    by_cases hv : v = []
    · subst hv
      rw [render_cons_nil] at h
      have hrest := ih hkfs h fun p hp q hq => hps p hp q (List.mem_cons_of_mem _ hq)
      intro q hq
      rcases List.mem_cons.mp hq with rfl | hq
      · exact clean_nil
      · exact hrest q hq
    · rw [render_cons hv] at h
      simp only [List.append_assoc, List.cons_append] at h
      obtain ⟨u, rest, qs, hu, hqs, rfl⟩ := parse_field hkf h
      obtain rfl : u = v := hps (k, u) List.mem_cons_self (k, v) List.mem_cons_self hv rfl
      have hclean := clean_of_unquote hu
      rw [unquote_clean hclean] at hu
      obtain ⟨_, rfl⟩ := Prod.mk.inj (Option.some.inj hu)
      have hblank : parse .blank (32 :: (render fs ++ tail)) = parse .blank (render fs ++ tail) := rfl
      rw [hblank] at hqs
      have hrest := ih hkfs hqs fun p hp q hq =>
        hps p (List.mem_cons_of_mem _ hp) q (List.mem_cons_of_mem _ hq)
      intro q hq
      rcases List.mem_cons.mp hq with rfl | hq
      · exact hclean
      · exact hrest q hq

theorem parse_of_clean {fs : List Pair} {tail : Bytes} (hk : ∀ q ∈ fs, Keyword q.1)
    (hclean : ∀ q ∈ fs, Clean q.2) :
    parse .blank (render fs ++ tail) =
      (parse .blank tail).map (fs.filter (·.2 ≠ []) ++ ·) := by
  induction fs with
  | nil => simp [render]
  | cons f fs ih =>
    obtain ⟨k, v⟩ := f
    have ih := ih (fun q hq => hk q (List.mem_cons_of_mem _ hq))
      fun q hq => hclean q (List.mem_cons_of_mem _ hq)
    by_cases hv : v = []
    · subst hv
      rw [render_cons_nil, ih]
      simp
    · have hquoted := parse_quoted false k [] (v ++ quote :: 32 :: (render fs ++ tail))
      simp only [Bool.false_eq_true, if_false] at hquoted
      rw [render_cons hv]
      simp only [List.append_assoc, List.cons_append]
      rw [parse_keyword (hk (k, v) List.mem_cons_self), hquoted,
        unquote_clean (hclean (k, v) List.mem_cons_self), Option.bind_some]
      have hblank : parse .blank (32 :: (render fs ++ tail)) = parse .blank (render fs ++ tail) := rfl
      rw [hblank, ih, Option.map_map]
      simp [hv, Function.comp_def]

/-! ### What the reader is expected to find -/

theorem fields_keyword (c : Config) : ∀ q ∈ c.fields, Keyword q.1 := by
  have hall : ∀ k ∈ [ascii "host", ascii "user", ascii "password", ascii "dbname"], Keyword k := by
    decide
  exact fun q hq => hall q.1 (List.mem_map_of_mem (f := Prod.fst) hq)

theorem parse_sslField (m : SslMode) : parse .blank (sslField m) = some (sslPairs m) := by
  cases m <;> decide

theorem expected_nodup (c : Config) : ((expected c).map Prod.fst).Nodup := by
  have hsub : ((expected c).map Prod.fst).Sublist
      (c.fields.map Prod.fst ++ (sslPairs c.sslMode).map Prod.fst) := by
    rw [expected, List.map_append]
    exact (List.filter_sublist.map _).append (List.Sublist.refl _)
  refine List.Nodup.sublist hsub ?_
  simp only [Config.fields, List.map_cons, List.map_nil]
  cases c.sslMode <;> decide

/-- The equals signs of the text are those the expected pairs need. -/
theorem count_render {fs : List Pair} (hk : ∀ q ∈ fs, Keyword q.1) :
    (render fs).count equals = ((fs.filter (·.2 ≠ [])).map weight).sum := by
  induction fs with
  | nil => rfl
  | cons f fs ih =>
    obtain ⟨k, v⟩ := f
    have ih := ih fun q hq => hk q (List.mem_cons_of_mem _ hq)
    by_cases hv : v = []
    · subst hv
      rw [render_cons_nil, ih]
      simp
    · have hkeyword : k.count equals = 0 :=
        List.count_eq_zero.mpr fun hmem => ((hk (k, v) List.mem_cons_self).2 _ hmem).1 rfl
      rw [render_cons hv, List.count_append, hkeyword, count_cons, count_cons, List.count_append,
        count_cons, count_cons, ih, if_pos rfl, if_neg (by decide), if_neg (by decide)]
      simp only [hv, weight, ne_eq, not_false_eq_true, decide_true, List.filter_cons_of_pos,
        List.map_cons, List.sum_cons]
      omega

theorem count_sslField (m : SslMode) :
    (sslField m).count equals = ((sslPairs m).map weight).sum := by
  cases m <;> decide

theorem count_conninfo (c : Config) :
    (conninfo c).count equals = ((expected c).map weight).sum := by
  rw [conninfo_eq, List.count_append, count_render (fields_keyword c), count_sslField, expected,
    List.map_append, List.sum_append]

theorem field_noNul {k : Bytes} {v : Text} (hk : 0 ∉ k) : 0 ∉ field k v.val := by
  have hopen : (0 : UInt8) ∉ ascii "='" := by decide
  have hclose : (0 : UInt8) ∉ ascii "' " := by decide
  unfold field
  split_ifs
  · exact List.not_mem_nil
  · simp only [List.mem_append, hk, hopen, hclose, v.noNul, or_self, not_false_eq_true]

theorem cString_conninfo (c : Config) : cString (conninfo c) = conninfo c := by
  have hssl : (0 : UInt8) ∉ sslField c.sslMode := by
    cases c.sslMode <;> decide
  have hnul : (0 : UInt8) ∉ conninfo c := by
    unfold conninfo
    simp only [List.mem_append, hssl, field_noNul (show (0 : UInt8) ∉ ascii "host" by decide),
      field_noNul (show (0 : UInt8) ∉ ascii "user" by decide),
      field_noNul (show (0 : UInt8) ∉ ascii "password" by decide),
      field_noNul (show (0 : UInt8) ∉ ascii "dbname" by decide), or_self, not_false_eq_true]
  exact cString_eq_self_iff.mpr hnul

/-- **The connection string round-trips** exactly when no field contains a quote or a backslash. -/
theorem conninfo_round_trip_iff (c : Config) : RoundTrips c ↔ ∀ q ∈ c.fields, Clean q.2 := by
  unfold RoundTrips settings
  rw [cString_conninfo]
  constructor
  · rintro ⟨qs, hqs, hperm⟩
    obtain ⟨ps, hps, rfl⟩ := Option.map_eq_some_iff.mp hqs
    have hsum : (ps.map weight).sum = ((effective ps).map weight).sum := by
      rw [weight_parse hps, count_conninfo, (hperm.map weight).sum_eq]
      simp [Scan.pending]
    rw [effective_eq_of_weight hsum.le] at hperm
    rw [conninfo_eq] at hps
    refine clean_of_parse (fields_keyword c) hps fun p hp q hq hne hkey => ?_
    have hqe : q ∈ expected c :=
      List.mem_append_left _ (List.mem_filter.mpr ⟨hq, decide_eq_true hne⟩)
    have heq : p = q := List.inj_on_of_nodup_map (expected_nodup c) (hperm.subset hp) hqe hkey
    rw [heq]
  · intro hclean
    refine ⟨expected c, ?_, List.Perm.refl _⟩
    rw [conninfo_eq, parse_of_clean (fields_keyword c) hclean, parse_sslField, Option.map_some,
      Option.map_some, Option.mem_def]
    exact congrArg some (effective_of_nodup (expected_nodup c))

/-- A password that closes its quote and names another host. -/
theorem password_sets_host : ¬ ∀ c : Config, RoundTrips c := by
  intro h
  have hbad := h ⟨⟨ascii "db", by decide⟩, ⟨ascii "app", by decide⟩,
    ⟨ascii "x' host='evil", by decide⟩, ⟨[], by decide⟩, .default⟩
  exact absurd hbad (by decide)

end StormByteDatabase.ConnInfo
