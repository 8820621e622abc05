import StormByteDatabase.Lib.Machine
import StormByteDatabase.Postgres.ConnInfo

/-!
# Connections that require TLS

`SetSslMode` takes effect at the next `Connect`. `MariaDB` passes the mode on by `mysql_options` where
the preprocessor sees the names of the options, and `Postgres` as the last setting of its connection
string. A client library enforces what it is told and may otherwise fall back to plaintext.

`tls_required_iff`: in every run, each `Connect` that succeeds under `SslMode::Require` has a TLS
connection, exactly when the client is told to require TLS: for MariaDB, when the headers define
`MYSQL_OPT_SSL_MODE` and `SSL_MODE_REQUIRED` as macros, or `MYSQL_OPT_SSL_ENFORCE` and not the first;
for PostgreSQL, when no member has a NUL byte, whatever else the members contain, or when the members
alone make libpq refuse or require TLS. `enumerators_only` is a MariaDB build whose headers have the
options as enumerators.

Proof. What a connect may end in depends on the mode and the client only, so one connect decides. The
last pair of the connection string is read as a pair because a quote and a blank stand before it
(`Lib.KeyValue.getLast?_of_append_quote`).
-/

namespace StormByteDatabase.Tls

open Lib Lib.KeyValue
open ConnInfo (render sslField field)

/-- How a connection attempt ends: the library has none, or one with or without TLS. -/
inductive Link
  | none
  | plaintext
  | tls
  deriving DecidableEq, Repr

/-! ### MariaDB -/

/-- The names that the client headers define as macros. -/
structure Headers where
  mysqlOptSslMode : Bool
  sslModeDisabled : Bool
  sslModeRequired : Bool
  sslModePreferred : Bool
  mysqlOptSslEnforce : Bool
  deriving DecidableEq, Repr

/-- A call of `mysql_options` about TLS. -/
inductive SslOption
  /-- `MYSQL_OPT_SSL_MODE` with `SSL_MODE_DISABLED`, `SSL_MODE_REQUIRED` or `SSL_MODE_PREFERRED`. -/
  | disabled
  | required
  | preferred
  /-- `MYSQL_OPT_SSL_ENFORCE`. -/
  | enforce (on : Bool)
  deriving DecidableEq, Repr

/-- `ApplySslMode`. -/
def applySslMode (h : Headers) (mode : SslMode) : Option SslOption :=
  if h.mysqlOptSslMode then
    match mode with
    | .disable => if h.sslModeDisabled then some .disabled else none
    | .require => if h.sslModeRequired then some .required else none
    | .prefer => if h.sslModePreferred then some .preferred else none
    | .default => none
  else if h.mysqlOptSslEnforce then
    match mode with
    | .disable => some (.enforce false)
    | .require => some (.enforce true)
    | .prefer | .default => none
  else none

/-- The connector enforces the option it was given. -/
def SslOption.permits : Option SslOption → Link → Bool
  | some .required, .plaintext => false
  | some (.enforce true), .plaintext => false
  | some .disabled, .tls => false
  | _, _ => true

/-! ### PostgreSQL -/

/-- The members of a `Postgres` object, with any bytes. -/
structure Members where
  host : Bytes
  user : Bytes
  password : Bytes
  dbname : Bytes
  deriving DecidableEq, Repr

def Members.fields (m : Members) : List Pair :=
  [(ascii "host", m.host), (ascii "user", m.user), (ascii "password", m.password),
    (ascii "dbname", m.dbname)]

/-- The text `DoConnect` builds. -/
def Members.conninfo (m : Members) (mode : SslMode) : Bytes := render m.fields ++ sslField mode

/-- What a pair says about `sslmode`; `requiressl` is an old name of the setting. -/
def sslmodeOf (p : Pair) : Option Bytes :=
  if p.1 = ascii "sslmode" then some p.2
  else if p.1 = ascii "requiressl" then
    some (if p.2.head? = some 49 then ascii "require" else ascii "prefer")
  else none

/-- The settings that libpq knows, and those under which it makes no connection without TLS. -/
def sslmodes : List Bytes :=
  [ascii "disable", ascii "allow", ascii "prefer", ascii "require", ascii "verify-ca",
    ascii "verify-full"]

def enforcing : List Bytes := [ascii "require", ascii "verify-ca", ascii "verify-full"]

/-- The setting that stands; without one libpq looks at its environment. -/
def lastSslmode (ps : List Pair) : Option Bytes := (ps.filterMap sslmodeOf).getLast?

/-- The pairs that `PQconnectdb` takes from a text; it refuses a text that is no list of pairs, an
unknown keyword and an unknown `sslmode`. -/
def readConninfo (known : Bytes → Bool) (text : Bytes) : Option (List Pair) :=
  (parse .blank (cString text)).filter fun ps =>
    ps.all (fun p => known p.1) && (lastSslmode ps).all (· ∈ sslmodes)

/-- libpq enforces the `sslmode` it reads. -/
def permitsConninfo (known : Bytes → Bool) (text : Bytes) (link : Link) : Bool :=
  match readConninfo known text with
  | none => link = .none
  | some ps =>
    match lastSslmode ps, link with
    | some value, .plaintext => value ∉ enforcing
    | some value, .tls => value ≠ ascii "disable"
    | _, _ => true

/-! ### Runs -/

/-- The client of an object: the build of the headers, or the keywords libpq knows and the members. -/
inductive Client
  | mariaDB (h : Headers)
  | postgres (known : Bytes → Bool) (m : Members)

/-- The library may end an attempt under the mode in this way. -/
def Client.permits (c : Client) (mode : SslMode) (link : Link) : Bool :=
  match c with
  | .mariaDB h => SslOption.permits (applySslMode h mode) link
  | .postgres known m => permitsConninfo known (m.conninfo mode) link

structure State where
  sslMode : SslMode
  connected : Bool
  /-- The calls of `Connect` that returned true, with the mode and the connection. -/
  established : List (SslMode × Link)

inductive Act
  | setSslMode (mode : SslMode)
  /-- `link` is how the server and the library end an attempt, should one be made. -/
  | connect (link : Link)
  | disconnect

def step (c : Client) (s : State) : Act → Option State
  | .setSslMode mode => some { s with sslMode := mode }
  | .connect link =>
    if s.connected then some s
    else if c.permits s.sslMode link = false then none
    else if link = .none then some s
    else some { s with connected := true, established := (s.sslMode, link) :: s.established }
  | .disconnect => some { s with connected := false }

def system (c : Client) : Machine State Act := ⟨⟨.default, false, []⟩, step c⟩

/-- Every `Connect` that returned true under `SslMode::Require` has a TLS connection. -/
def Secure (s : State) : Prop := ∀ e ∈ s.established, e.1 = .require → e.2 = .tls

/-- The library is told to require TLS. A NUL byte cuts `sslmode=require` off; then the members decide
by themselves. -/
def Client.Requires : Client → Prop
  | .mariaDB h =>
    (h.mysqlOptSslMode = true ∧ h.sslModeRequired = true) ∨
      (h.mysqlOptSslMode = false ∧ h.mysqlOptSslEnforce = true)
  | .postgres known m => (∀ p ∈ m.fields, 0 ∉ p.2) ∨
      ∀ ps ∈ readConninfo known (render m.fields), ∃ value ∈ lastSslmode ps, value ∈ enforcing

/-! ### What the libraries are told -/

theorem SslOption.permits_iff (h : Headers) :
    SslOption.permits (applySslMode h .require) .plaintext = false ↔
      (h.mysqlOptSslMode = true ∧ h.sslModeRequired = true) ∨
        (h.mysqlOptSslMode = false ∧ h.mysqlOptSslEnforce = true) := by
  unfold applySslMode
  by_cases hmode : h.mysqlOptSslMode = true
  · -- the value needs a name of its own
    by_cases hrequired : h.sslModeRequired = true
    · simp [SslOption.permits, hmode, hrequired]
    · simp [SslOption.permits, hmode, hrequired]
  · by_cases henforce : h.mysqlOptSslEnforce = true
    · simp [SslOption.permits, hmode, henforce]
    · simp [SslOption.permits, hmode, henforce]

theorem render_ends (fs : List Pair) : render fs = [] ∨ ∃ cs, render fs = cs ++ [quote, 32] := by
  induction fs with
  | nil => exact Or.inl rfl
  | cons f fs ih =>
    obtain ⟨k, v⟩ := f
    by_cases hv : v = []
    · subst hv
      rw [ConnInfo.render_cons_nil]
      exact ih
    · right
      rw [ConnInfo.render_cons hv]
      obtain hnil | ⟨cs, hcs⟩ := ih
      · exact ⟨k ++ equals :: quote :: v, by rw [hnil]; simp⟩
      · exact ⟨k ++ equals :: quote :: (v ++ quote :: 32 :: cs), by rw [hcs]; simp⟩

/-- Whatever the members contain, the last pair of the whole text is `sslmode=require`. -/
theorem getLast?_conninfo {m : Members} {ps : List Pair}
    (h : parse .blank (m.conninfo .require) = some ps) :
    ps.getLast? = some (ascii "sslmode", ascii "require") := by
  have hpair : parse .blank (ascii "sslmode=require ") = some [(ascii "sslmode", ascii "require")] := by
    decide
  have htail : ascii "sslmode=require " = 115 :: ascii "slmode=require " := rfl
  unfold Members.conninfo at h
  obtain hnil | ⟨cs, hcs⟩ := render_ends m.fields
  · rw [hnil, List.nil_append, sslField, hpair] at h
    obtain rfl := Option.some.inj h
    rfl
  · rw [hcs, sslField, htail, List.append_assoc] at h
    exact getLast?_of_append_quote rfl (by decide) (by decide) (htail ▸ hpair) h

theorem lastSslmode_conninfo {m : Members} {ps : List Pair}
    (h : parse .blank (m.conninfo .require) = some ps) : lastSslmode ps = some (ascii "require") := by
  obtain ⟨pre, rfl⟩ := List.getLast?_eq_some_iff.mp (getLast?_conninfo h)
  have hlast : sslmodeOf (ascii "sslmode", ascii "require") = some (ascii "require") := rfl
  rw [lastSslmode, List.filterMap_append, List.filterMap_cons_some hlast, List.filterMap_nil,
    List.getLast?_concat]

/-- libpq refuses plaintext when it refuses the text, or enforces a setting of the text. -/
theorem permitsConninfo_plaintext_iff {known : Bytes → Bool} {text : Bytes} :
    permitsConninfo known text .plaintext = false ↔
      ∀ ps ∈ readConninfo known text, ∃ value ∈ lastSslmode ps, value ∈ enforcing := by
  unfold permitsConninfo
  cases readConninfo known text with
  | none => simp
  | some ps =>
    cases hlast : lastSslmode ps with
    | none => simp [hlast]
    | some value => simp [hlast]

theorem zero_mem_render_iff (m : Members) : 0 ∈ render m.fields ↔ ∃ p ∈ m.fields, 0 ∈ p.2 := by
  have hkeyword : ∀ p ∈ m.fields, (0 : UInt8) ∉ p.1 := by
    have hall : ∀ k ∈ [ascii "host", ascii "user", ascii "password", ascii "dbname"],
        (0 : UInt8) ∉ k := by decide
    exact fun p hp => hall p.1 (List.mem_map_of_mem (f := Prod.fst) hp)
  have hopen : (0 : UInt8) ∉ ascii "='" := by decide
  have hclose : (0 : UInt8) ∉ ascii "' " := by decide
  rw [render, List.mem_flatMap]
  refine exists_congr fun p => and_congr_right fun hp => ?_
  unfold field
  split_ifs with hnil
  · rw [hnil]
  · simp only [List.mem_append, hkeyword p hp, hopen, hclose, false_or, or_false]

theorem permits_plaintext_iff (c : Client) :
    c.permits .require .plaintext = false ↔ c.Requires := by
  cases c with
  | mariaDB h => exact SslOption.permits_iff h
  | postgres known m =>
    change permitsConninfo known (m.conninfo .require) .plaintext = false ↔
      (∀ p ∈ m.fields, 0 ∉ p.2) ∨
        ∀ ps ∈ readConninfo known (render m.fields), ∃ value ∈ lastSslmode ps, value ∈ enforcing
    rw [permitsConninfo_plaintext_iff]
    by_cases hnul : 0 ∈ render m.fields
    · -- the setting is cut off, and libpq sees the members only
      have hcut : cString (m.conninfo .require) = cString (render m.fields) :=
        cString_append_of_mem hnul
      have hmember : ¬ ∀ p ∈ m.fields, 0 ∉ p.2 := by
        obtain ⟨p, hp, hzero⟩ := (zero_mem_render_iff m).mp hnul
        exact fun h => h p hp hzero
      unfold readConninfo
      rw [hcut, or_iff_right hmember]
    · have hmember : ∀ p ∈ m.fields, 0 ∉ p.2 := fun p hp hzero =>
        hnul ((zero_mem_render_iff m).mpr ⟨p, hp, hzero⟩)
      have hssl : (0 : UInt8) ∉ sslField .require := by decide
      have hwhole : cString (m.conninfo .require) = m.conninfo .require :=
        cString_eq_self_iff.mpr (List.not_mem_append hnul hssl)
      refine ⟨fun _ => Or.inl hmember, fun _ ps hps => ?_⟩
      unfold readConninfo at hps
      rw [hwhole, Option.mem_def, Option.filter_eq_some_iff] at hps
      exact ⟨_, lastSslmode_conninfo hps.1, by decide⟩

/-! ### Runs of one object -/

theorem step_secure {c : Client} (hreq : c.Requires) :
    (system c).Preserves (fun _ _ => True) Secure := by
  intro s a s' hs _ hstep
  cases a with
  | setSslMode mode =>
    obtain rfl := Option.some.inj hstep
    exact hs
  | disconnect =>
    obtain rfl := Option.some.inj hstep
    exact hs
  | connect link =>
    simp only [system, step] at hstep
    split_ifs at hstep with hconnected hrefused hnone
    · obtain rfl := Option.some.inj hstep
      exact hs
    · obtain rfl := Option.some.inj hstep
      exact hs
    · obtain rfl := Option.some.inj hstep
      intro e he hmode
      rcases List.mem_cons.mp he with rfl | he
      · cases link with
        | none => exact absurd rfl hnone
        | tls => rfl
        | plaintext =>
          have hmode : s.sslMode = .require := hmode
          rw [hmode] at hrefused
          exact absurd ((permits_plaintext_iff c).mpr hreq) hrefused
      · exact hs e he hmode

/-- **Required TLS is TLS** in every run exactly when the library is told to require it. -/
theorem tls_required_iff (c : Client) :
    (∀ as s, (system c).run as = some s → Secure s) ↔ c.Requires := by
  constructor
  · intro h
    by_contra hreq
    have hplain : c.permits .require .plaintext ≠ false := fun hno =>
      hreq ((permits_plaintext_iff c).mp hno)
    have hrun : (system c).run [.setSslMode .require, .connect .plaintext] =
        some ⟨.require, true, [(.require, .plaintext)]⟩ := by
      simp [Machine.run, Machine.runFrom, system, step, hplain]
    exact Link.noConfusion (h _ _ hrun (.require, .plaintext) List.mem_cons_self rfl)
  · intro hreq as s hrun
    exact Machine.invariant (fun e he => absurd he List.not_mem_nil) (step_secure hreq) hrun

/-- Headers whose options are enumerators: the mode is dropped, and plaintext is a success. -/
theorem enumerators_only :
    ¬ ∀ c as s, (system c).run as = some s → Secure s := by
  intro h
  have hplain := h (.mariaDB ⟨false, false, false, false, false⟩)
    [.setSslMode .require, .connect .plaintext] ⟨.require, true, [(.require, .plaintext)]⟩ rfl
    (.require, .plaintext) List.mem_cons_self rfl
  cases hplain

end StormByteDatabase.Tls
