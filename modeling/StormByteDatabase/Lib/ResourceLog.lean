import StormByteDatabase.Lib.Ownership

/-!
# Resources that a call opens and closes

A `ResourceLog` is the log of `Lib.Event`s of code that opens, uses and closes resources, which are
numbered in the order they are opened. `Holds held` says that the code holds the resources `held` and
no others, each open, and that so far everything was used and closed only while it was open. There is
one rule for each operation, for loops (`Holds.foldl`, `Holds.uses`) and for the end
(`Holds.count_closed`): where nothing is held, every resource opened was closed exactly once. The rules
leave what the caller holds as it was, so that the code of a callee is looked at once.
-/

namespace Lib

/-- What happened, latest first, and the number of the next resource. -/
structure ResourceLog where
  next : Nat
  log : List (Event Nat)
  deriving DecidableEq, Repr

namespace ResourceLog

def empty : ResourceLog := ⟨0, []⟩

/-- The resource `L.next` is opened. -/
def acquire (L : ResourceLog) : ResourceLog := ⟨L.next + 1, .opened L.next :: L.log⟩

/-- The resource `r` is used `n` times. -/
def uses (r n : Nat) (L : ResourceLog) : ResourceLog :=
  { L with log := List.replicate n (.used r) ++ L.log }

def release (r : Nat) (L : ResourceLog) : ResourceLog := { L with log := .closed r :: L.log }

/-- What is held is open, and everything else that was opened is closed. -/
structure Holds (held : List Nat) (L : ResourceLog) : Prop where
  owned : Owned (fun (_ : Unit) r => r ∈ held) L.log
  nodup : held.Nodup
  below : ∀ r, .opened r ∈ L.log → r < L.next

variable {held : List Nat} {L : ResourceLog} {r : Nat}

theorem holds_empty : empty.Holds [] :=
  ⟨.nil fun _ _ => List.not_mem_nil, List.nodup_nil, fun _ h => absurd h List.not_mem_nil⟩

theorem Holds.acquire (h : L.Holds held) : L.acquire.Holds (L.next :: held) := by
  have hfresh : .opened L.next ∉ L.log := fun hmem => Nat.lt_irrefl _ (h.below _ hmem)
  refine ⟨h.owned.acquire (i := ()) hfresh fun _ s => ?_, ?_, fun s hs => ?_⟩
  · simp [or_comm]
  · rw [List.nodup_cons]
    exact ⟨fun hmem => hfresh (h.owned.live () _ hmem).1, h.nodup⟩
  · rcases List.mem_cons.mp hs with heq | hs
    · obtain rfl := Event.opened.inj heq
      exact Nat.lt_succ_self _
    · exact Nat.lt_succ_of_lt (h.below s hs)

theorem Holds.uses (h : L.Holds held) (hr : r ∈ held) (n : Nat) : (L.uses r n).Holds held := by
  induction n with
  | zero => exact h
  | succ n ih =>
    refine ⟨ih.owned.use (i := ()) hr, h.nodup, fun s hs => ih.below s ?_⟩
    simpa [ResourceLog.uses, List.replicate_succ] using hs

theorem Holds.release (h : L.Holds (r :: held)) : (L.release r).Holds held := by
  obtain ⟨hr, hnodup⟩ := List.nodup_cons.mp h.nodup
  refine ⟨h.owned.release (i := ()) List.mem_cons_self fun _ s => ?_, hnodup, fun s hs => ?_⟩
  · constructor
    · intro hs
      refine ⟨List.mem_cons_of_mem _ hs, ?_⟩
      rintro rfl
      exact hr hs
    · rintro ⟨hs, hne⟩
      exact (List.mem_cons.mp hs).resolve_left hne
  · exact h.below s (by simpa [ResourceLog.release] using hs)

theorem Holds.foldl {α : Type*} {f : ResourceLog → α → ResourceLog}
    (hf : ∀ (L : ResourceLog) (a : α), L.Holds held → (f L a).Holds held) (h : L.Holds held)
    (xs : List α) : (xs.foldl f L).Holds held := by
  induction xs generalizing L with
  | nil => exact h
  | cons a xs ih => exact ih (hf L a h)

/-- Where nothing is held, what was opened was closed once, and not used afterwards. -/
theorem Holds.count_closed (h : L.Holds []) (hr : .opened r ∈ L.log) : L.log.count (.closed r) = 1 :=
  h.owned.count_closed (fun _ _ => List.not_mem_nil) hr

end ResourceLog

end Lib
