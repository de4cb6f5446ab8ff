import Mathlib.Data.List.Nodup
import Mathlib.Data.List.Perm.Basic

/-! A heap as the addresses of the allocations that are live: an address is given out once, none
of them is null, and freeing what is not live is noticed. -/

namespace ModemSupport.Lib

open List

/-- `live` is the oldest allocation first, and `wild` is set when something has been freed that was
not live. -/
structure Heap where
  next : Nat
  live : List Nat
  wild : Bool
  next_pos : 0 < next
  lt_next : ∀ p ∈ live, p < next
  nodup : live.Nodup

namespace Heap

variable {h : Heap} {p : Nat} {ps : List Nat}

def empty : Heap := ⟨1, [], false, Nat.one_pos, by simp, .nil⟩

def alloc (h : Heap) : Heap where
  next := h.next + 1
  live := h.live ++ [h.next]
  wild := h.wild
  next_pos := Nat.succ_pos _
  lt_next p hp := by
    rcases mem_append.mp hp with hold | hnew
    · exact Nat.lt_succ_of_lt (h.lt_next p hold)
    · cases mem_singleton.mp hnew
      exact Nat.lt_succ_self _
  nodup := by
    rw [nodup_append]
    refine ⟨h.nodup, nodup_singleton _, fun p hp q hq => ?_⟩
    cases mem_singleton.mp hq
    exact Nat.ne_of_lt (h.lt_next p hp)

def free (h : Heap) (p : Nat) : Heap :=
  if p ∈ h.live then
    { h with
      live := h.live.erase p
      lt_next := fun q hq => h.lt_next q (mem_of_mem_erase hq)
      nodup := h.nodup.erase p }
  else { h with wild := true }

def freeAll (h : Heap) (ps : List Nat) : Heap := ps.foldl free h

@[simp] theorem alloc_next : h.alloc.next = h.next + 1 := rfl

@[simp] theorem alloc_live : h.alloc.live = h.live ++ [h.next] := rfl

@[simp] theorem alloc_wild : h.alloc.wild = h.wild := rfl

theorem free_live (before behind : List Nat) (hlive : h.live = before ++ p :: behind) :
    (h.free p).live = before ++ behind ∧ (h.free p).wild = h.wild := by
  have hmem : p ∈ h.live := by
    rw [hlive]
    exact mem_append_right _ mem_cons_self
  have hnodup := h.nodup
  rw [hlive] at hnodup
  have hnot : p ∉ before := fun hp =>
    (nodup_append.mp hnodup).2.2 p hp p mem_cons_self rfl
  unfold free
  rw [if_pos hmem]
  refine ⟨?_, rfl⟩
  show h.live.erase p = _
  rw [hlive, erase_append_right _ hnot, erase_cons_head]

theorem freeAll_live (before behind : List Nat) (hlive : h.live = before ++ (ps ++ behind)) :
    (h.freeAll ps).live = before ++ behind ∧ (h.freeAll ps).wild = h.wild := by
  induction ps generalizing h with
  | nil => exact ⟨hlive, rfl⟩
  | cons p ps ih =>
    obtain ⟨hfree, hwild⟩ := free_live before (ps ++ behind) hlive
    obtain ⟨hlive', hwild'⟩ := ih hfree
    exact ⟨hlive', hwild'.trans hwild⟩

end Heap

end ModemSupport.Lib
