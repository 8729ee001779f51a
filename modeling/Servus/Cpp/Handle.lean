import Mathlib.Data.List.Perm.Basic
import Mathlib.Tactic.Common

/-!
# Handles of a C library

A C library gives out handles, which a program uses and gives back. `Handles` is the library's side
of it: the handles that are out, and whether the program has touched one that was not, which it
never forgets. A number is given out once only, so that a handle that was given back is not taken
for a later one.

`Owned h rs`: the program holds the handles `rs`, each once, no others are out, and so far it has
touched none wrongly. There is a lemma for each operation.
-/

namespace Cpp

structure Handles where
  /-- The handles that are out. -/
  live : List Nat := []
  /-- The next handle. -/
  next : Nat := 0
  /-- A handle was used or given back that was not out. -/
  misused : Bool := false
  deriving DecidableEq

namespace Handles

variable (h : Handles)

/-- A new handle is given out, with the number `h.next`. -/
def acquire : Handles := { h with live := h.next :: h.live, next := h.next + 1 }

def use (r : Nat) : Handles := { h with misused := h.misused || decide (r ∉ h.live) }

def release (r : Nat) : Handles :=
  { h with live := h.live.erase r, misused := h.misused || decide (r ∉ h.live) }

structure Owned (rs : List Nat) : Prop where
  misused : h.misused = false
  live : h.live.Perm rs
  nodup : rs.Nodup
  lt : ∀ r ∈ rs, r < h.next

theorem owned_empty : ({} : Handles).Owned [] := ⟨rfl, .nil, List.nodup_nil, by simp⟩

variable {h} {rs : List Nat}

theorem Owned.perm {rs' : List Nat} (hs : h.Owned rs) (hp : rs.Perm rs') : h.Owned rs' :=
  ⟨hs.misused, hs.live.trans hp, hp.nodup_iff.mp hs.nodup, fun r hr => hs.lt r (hp.symm.subset hr)⟩

theorem Owned.acquire (hs : h.Owned rs) : h.acquire.Owned (h.next :: rs) := by
  refine ⟨hs.misused, hs.live.cons h.next, List.nodup_cons.mpr ⟨fun hmem => ?_, hs.nodup⟩, ?_⟩
  · exact absurd (hs.lt _ hmem) (Nat.lt_irrefl _)
  · intro r hr
    show r < h.next + 1
    rcases List.mem_cons.mp hr with rfl | hr
    · exact Nat.lt_succ_self _
    · exact Nat.lt_succ_of_lt (hs.lt r hr)

theorem Owned.mem_live (hs : h.Owned rs) {r : Nat} (hr : r ∈ rs) : r ∈ h.live :=
  hs.live.symm.subset hr

theorem Owned.use (hs : h.Owned rs) {r : Nat} (hr : r ∈ rs) : (h.use r).Owned rs := by
  refine ⟨?_, hs.live, hs.nodup, hs.lt⟩
  rw [Handles.use, hs.misused]
  simpa using hs.mem_live hr

/-- A handle that is given back is held no longer. -/
theorem Owned.release {r : Nat} (hs : h.Owned (r :: rs)) : (h.release r).Owned rs := by
  refine ⟨?_, ?_, hs.nodup.of_cons, fun q hq => hs.lt q (List.mem_cons_of_mem r hq)⟩
  · rw [Handles.release, hs.misused]
    simpa using hs.mem_live List.mem_cons_self
  · have herase := hs.live.erase r
    rwa [List.erase_cons_head] at herase

end Handles

end Cpp
