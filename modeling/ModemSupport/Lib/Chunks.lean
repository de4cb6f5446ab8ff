import Mathlib.Algebra.GroupWithZero.Nat
import Mathlib.Order.Interval.Finset.Nat

/-! An allocator that hands out runs of chunks, and rounding up to whole chunks. -/

namespace ModemSupport.Lib.Chunks

open List Option

def chunks (a x : Nat) : Nat := (x + (a - 1)) / a

variable {a b x y : Nat}

theorem chunks_mul_bounds (ha : 0 < a) : x ≤ chunks a x * a ∧ chunks a x * a < x + a := by
  have hdiv := Nat.div_add_mod (x + (a - 1)) a
  have hmod := Nat.mod_lt (x + (a - 1)) ha
  rw [Nat.mul_comm] at hdiv
  rw [chunks]
  omega

theorem chunks_mul (ha : 0 < a) : chunks a (x * a) = x := by
  rw [chunks, Nat.add_comm, Nat.add_mul_div_right _ _ ha, Nat.div_eq_of_lt (by omega), Nat.zero_add]

theorem chunks_le (ha : 0 < a) (h : x ≤ y * a) : chunks a x ≤ y := by
  have hbounds := (chunks_mul_bounds (x := x) ha).2
  have hlt : chunks a x * a < (y + 1) * a := by
    rw [Nat.add_mul, Nat.one_mul]
    omega
  exact Nat.lt_succ_iff.mp (Nat.lt_of_mul_lt_mul_right hlt)

/-- Rounding to small chunks first does not change the number of large ones. -/
theorem chunks_chunks (ha : 0 < a) (hb : 0 < b) :
    chunks (b * a) (chunks a x * a) = chunks (b * a) x := by
  have hpos : 0 < b * a := Nat.mul_pos hb ha
  apply Nat.le_antisymm
  · apply chunks_le hpos
    have hle : chunks a x ≤ chunks (b * a) x * b := by
      apply chunks_le ha
      rw [Nat.mul_assoc]
      exact (chunks_mul_bounds hpos).1
    calc chunks a x * a ≤ chunks (b * a) x * b * a := Nat.mul_le_mul_right a hle
      _ = chunks (b * a) x * (b * a) := Nat.mul_assoc ..
  · apply chunks_le hpos
    exact (chunks_mul_bounds ha).1.trans (chunks_mul_bounds hpos).1

def run (r : Nat × Nat) : Finset Nat := Finset.Ico r.1 (r.1 + r.2)

theorem card_run (r : Nat × Nat) : (run r).card = r.2 := by
  rw [run, Nat.card_Ico, Nat.add_sub_cancel_left]

theorem mem_run_start {r : Nat × Nat} (h : 0 < r.2) : r.1 ∈ run r :=
  Finset.mem_Ico.mpr ⟨Nat.le_refl _, by omega⟩

structure Pool where
  total : Nat
  taken : Finset Nat

variable {p q : Pool} {r : Nat × Nat} {rs rs' : List (Nat × Nat)}

def Pool.alloc (p : Pool) (r : Nat × Nat) : Option Pool :=
  if 0 < r.2 ∧ r.1 + r.2 ≤ p.total ∧ Disjoint (run r) p.taken then
    some { p with taken := p.taken ∪ run r }
  else none

def Pool.free (p : Pool) (r : Nat × Nat) : Option Pool :=
  if run r ⊆ p.taken then some { p with taken := p.taken \ run r } else none

/-- The runs that are out do not overlap. -/
structure Pool.Serves (p : Pool) (rs : List (Nat × Nat)) : Prop where
  within : ∀ k ∈ p.taken, k < p.total
  taken : ∀ r ∈ rs, run r ⊆ p.taken
  apart : rs.Pairwise fun r r' => Disjoint (run r) (run r')

theorem serves_nil {total : Nat} : (⟨total, ∅⟩ : Pool).Serves [] where
  within := by simp
  taken := by simp
  apart := List.Pairwise.nil

theorem Pool.Serves.alloc (h : p.Serves rs) (hq : p.alloc r = some q) : q.Serves (rs ++ [r]) := by
  simp only [Pool.alloc, ite_none_right_eq_some, some.injEq] at hq
  obtain ⟨⟨-, hroom, hfree⟩, rfl⟩ := hq
  refine ⟨fun k hk => ?_, fun r' hr' => ?_, ?_⟩
  · rcases Finset.mem_union.mp hk with hold | hnew
    · exact h.within k hold
    · exact (Finset.mem_Ico.mp hnew).2.trans_le hroom
  · rcases mem_append.mp hr' with hold | hnew
    · exact (h.taken r' hold).trans Finset.subset_union_left
    · obtain rfl := mem_singleton.mp hnew
      exact Finset.subset_union_right
  · rw [pairwise_append]
    refine ⟨h.apart, pairwise_singleton _ _, fun r' hr' r'' hr'' => ?_⟩
    obtain rfl := mem_singleton.mp hr''
    exact (hfree.mono_right (h.taken r' hr')).symm

theorem Pool.Serves.take (h : p.Serves rs) (hq : p.alloc r = some q) : q.Serves rs := by
  have hall := h.alloc hq
  exact ⟨hall.within, fun r' hr' => hall.taken r' (mem_append_left _ hr'), h.apart⟩

theorem Pool.Serves.free (h : p.Serves (rs ++ r :: rs')) (hq : p.free r = some q) :
    q.Serves (rs ++ rs') := by
  simp only [Pool.free, ite_none_right_eq_some, some.injEq] at hq
  obtain ⟨-, rfl⟩ := hq
  have hperm := h.apart.perm perm_middle fun h => h.symm
  obtain ⟨hr, hrest⟩ := pairwise_cons.mp hperm
  refine ⟨fun k hk => h.within k (Finset.mem_sdiff.mp hk).1, fun r' hr' => ?_, hrest⟩
  refine Finset.subset_sdiff.mpr ⟨h.taken r' ?_, (hr r' hr').symm⟩
  exact perm_middle.symm.subset (mem_cons_of_mem _ hr')

theorem sum_le_card {s : Finset Nat} (htaken : ∀ r ∈ rs, run r ⊆ s)
    (hapart : rs.Pairwise fun r r' => Disjoint (run r) (run r')) :
    (rs.map Prod.snd).sum ≤ s.card := by
  induction rs generalizing s with
  | nil => exact Nat.zero_le _
  | cons r rs ih =>
    obtain ⟨hr, hrest⟩ := pairwise_cons.mp hapart
    have hsub := htaken r mem_cons_self
    have hsum : (rs.map Prod.snd).sum ≤ (s \ run r).card := by
      refine ih (fun r' hr' => ?_) hrest
      exact Finset.subset_sdiff.mpr ⟨htaken r' (mem_cons_of_mem _ hr'), (hr r' hr').symm⟩
    rw [Finset.card_sdiff_of_subset hsub, card_run] at hsum
    have hcard := Finset.card_le_card hsub
    rw [card_run] at hcard
    rw [map_cons, sum_cons]
    omega

theorem Pool.Serves.sum_le (h : p.Serves rs) : (rs.map Prod.snd).sum ≤ p.total := by
  have hcard : p.taken.card ≤ (Finset.range p.total).card :=
    Finset.card_le_card fun k hk => Finset.mem_range.mpr (h.within k hk)
  rw [Finset.card_range] at hcard
  exact (sum_le_card h.taken h.apart).trans hcard

theorem not_disjoint_run {r r' : Nat × Nat} (hpos : 0 < r.2) (hpos' : 0 < r'.2) (heq : r.1 = r'.1) :
    ¬Disjoint (run r) (run r') := by
  intro hdisjoint
  have hmem := mem_run_start hpos'
  rw [← heq] at hmem
  exact Finset.disjoint_left.mp hdisjoint (mem_run_start hpos) hmem

end ModemSupport.Lib.Chunks
