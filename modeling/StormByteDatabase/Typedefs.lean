import Mathlib.Data.List.TakeWhile
import Mathlib.Tactic.Common

/-!
# Types shared by all backends

`Bytes` stands for the contents of a `std::string` or a `std::vector<std::byte>`; `ascii` gives the
bytes of a literal of the source, and `cString` the part of a text that a callee sees through a
pointer to it.
-/

namespace StormByteDatabase

/-- The three classes that derive from `Database`. -/
inductive Backend
  | sqlite3
  | mariaDB
  | postgres
  deriving DecidableEq, Repr

inductive SslMode
  | default
  | disable
  | prefer
  | require
  deriving DecidableEq, Repr

inductive IsolationLevel
  | default
  | readUncommitted
  | readCommitted
  | repeatableRead
  | serializable
  deriving DecidableEq, Repr

abbrev Bytes := List UInt8

/-- The bytes of an ASCII literal. -/
def ascii (s : String) : Bytes := s.toList.map fun c => UInt8.ofNat c.toNat

/-- What a callee sees of `c_str()`. -/
def cString (s : Bytes) : Bytes := s.takeWhile (· ≠ 0)

theorem cString_eq_self_iff {s : Bytes} : cString s = s ↔ 0 ∉ s := by
  unfold cString
  rw [List.takeWhile_eq_self_iff]
  simp only [ne_eq, decide_not, Bool.not_eq_eq_eq_not, Bool.not_true, decide_eq_false_iff_not]
  exact ⟨fun h hzero => h 0 hzero rfl, fun h c hc hzero => h (hzero ▸ hc)⟩

theorem zero_not_mem_cString (s : Bytes) : 0 ∉ cString s := fun h => by
  simpa using List.mem_takeWhile_imp h

theorem cString_append_of_mem {s t : Bytes} (h : 0 ∈ s) : cString (s ++ t) = cString s := by
  unfold cString
  rw [List.takeWhile_append, if_neg]
  intro hlen
  have hself := (List.takeWhile_prefix _).eq_of_length hlen
  exact cString_eq_self_iff.mp hself h

end StormByteDatabase
