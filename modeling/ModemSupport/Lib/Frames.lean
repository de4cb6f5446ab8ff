import Mathlib.Data.List.Sort

/-! Frames that are written one behind the other to a stream: where each one stands in it, and
writes to a buffer.  A list whose keys grow holds another one as a sublist as soon as it holds its
elements. -/

namespace ModemSupport.Lib.Frames

open List

variable {α β : Type}

/-- The bytes of the stream from `o` on that a read of `n` gives. -/
def slice (stream : List α) (o n : Nat) : List α := (stream.drop o).take n

theorem slice_add (stream : List α) (o m n : Nat) :
    slice stream o (m + n) = slice stream o m ++ slice stream (o + m) n := by
  simp only [slice]
  rw [take_add, drop_drop]

/-- The frames of a stream that starts at `o`, each with its offset. -/
def placed : Nat → List (List α) → List (Nat × List α)
  | _, [] => []
  | o, f :: fs => (o, f) :: placed (o + f.length) fs

theorem mem_placed {o : Nat} {fs : List (List α)} {x : Nat × List α} (hx : x ∈ placed o fs) :
    x.2 ∈ fs ∧ o ≤ x.1 ∧ slice fs.flatten (x.1 - o) x.2.length = x.2 := by
  induction fs generalizing o with
  | nil => simp [placed] at hx
  | cons f fs ih =>
    rcases mem_cons.mp hx with rfl | hx
    · refine ⟨mem_cons_self, Nat.le_refl _, ?_⟩
      simp [slice]
    · obtain ⟨hmem, hle, hslice⟩ := ih hx
      refine ⟨mem_cons_of_mem _ hmem, by omega, ?_⟩
      have hsub : x.1 - o = f.length + (x.1 - (o + f.length)) := by omega
      show ((f ++ fs.flatten).drop (x.1 - o)).take x.2.length = x.2
      rw [hsub, ← drop_drop, drop_left]
      exact hslice

theorem placed_pairwise {fs : List (List α)} (h : ∀ f ∈ fs, 0 < f.length) (o : Nat) :
    (placed o fs).Pairwise fun x y => x.1 < y.1 := by
  induction fs generalizing o with
  | nil => exact .nil
  | cons f fs ih =>
    refine .cons ?_ (ih (fun g hg => h g (by simp [hg])) _)
    intro x hx
    have hle := (mem_placed hx).2.1
    have hpos := h f (by simp)
    show o < x.1
    omega

theorem sublist_of_keys {key : β → Nat} {l m : List β} (hl : l.Pairwise fun x y => key x < key y)
    (hm : m.Pairwise fun x y => key x < key y) (h : ∀ x ∈ l, x ∈ m) : l.Sublist m := by
  have hanti : Std.Antisymm fun x y : β => key x < key y :=
    ⟨fun x y hxy hyx => absurd hxy (Nat.lt_asymm hyx)⟩
  have hne : ∀ {x y : β}, key x < key y → x ≠ y := by
    rintro x _ hxy rfl
    exact Nat.lt_irrefl _ hxy
  exact sublist_of_subperm_of_pairwise (subperm_of_subset (hl.imp hne) h) hl hm

theorem keys_nodup {key : β → Nat} {l : List β} (hl : l.Pairwise fun x y => key x < key y) :
    (l.map key).Nodup := by
  rw [nodup_iff_pairwise_ne, pairwise_map]
  exact hl.imp fun hxy => Nat.ne_of_lt hxy

def write (buf : List α) (i : Nat) (bytes : List α) : List α :=
  buf.take i ++ bytes ++ buf.drop (i + bytes.length)

theorem write_zero (buf bytes : List α) : write buf 0 bytes = bytes ++ buf.drop bytes.length := by
  simp [write]

theorem take_write_of_length (buf : List α) {bytes : List α} {n : Nat} (h : bytes.length = n) :
    (write buf 0 bytes).take n = bytes := by
  rw [write_zero, ← h]
  exact take_left

theorem write_write (buf a b : List α) :
    write (write buf 0 a) a.length b = write buf 0 (a ++ b) := by
  simp [write]

end ModemSupport.Lib.Frames
