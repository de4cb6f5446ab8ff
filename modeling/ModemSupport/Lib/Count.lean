import Mathlib.Algebra.BigOperators.Group.Finset.Piecewise
import Mathlib.Data.Fintype.Card

/-! Counting the members of a finite type that have a property, and how a count changes when the
property changes at one member only. -/

namespace ModemSupport.Lib

open Finset

variable {ι : Type} [Fintype ι]

def count (P : ι → Prop) [DecidablePred P] : Nat := (univ.filter P).card

variable {P Q : ι → Prop} [DecidablePred P] [DecidablePred Q]

theorem count_pos_iff : 0 < count P ↔ ∃ i, P i := by
  simp [count, card_pos, Finset.Nonempty]

theorem count_eq_zero_iff : count P = 0 ↔ ∀ i, ¬P i := by
  simp [count, filter_eq_empty_iff]

/-- Two properties that agree everywhere but at `i` have counts that differ as they do at `i`. -/
theorem count_change [DecidableEq ι] (i : ι) (h : ∀ j, j ≠ i → (P j ↔ Q j)) :
    count P + (if Q i then 1 else 0) = count Q + (if P i then 1 else 0) := by
  have hrest : ∑ j ∈ univ.erase i, (if P j then 1 else 0) =
      ∑ j ∈ univ.erase i, (if Q j then 1 else 0) := by
    refine sum_congr rfl fun j hj => ?_
    simp only [h j (ne_of_mem_erase hj)]
  rw [count, count, card_filter, card_filter, ← add_sum_erase _ _ (mem_univ i),
    ← add_sum_erase _ _ (mem_univ i), hrest]
  omega

theorem count_update {γ : Type} [DecidableEq ι] (f : ι → γ) (i : ι) (c : γ) (R : γ → Prop)
    [DecidablePred R] :
    count (fun j => R (Function.update f i c j)) + (if R (f i) then 1 else 0) =
      count (fun j => R (f j)) + (if R c then 1 else 0) := by
  have h := count_change (P := fun j => R (Function.update f i c j)) (Q := fun j => R (f j)) i
    fun j hj => by simp only [Function.update_of_ne hj]
  simpa only [Function.update_self] using h

theorem sum_update {γ : Type} [DecidableEq ι] (g : ι → γ → Int) (f : ι → γ) (i : ι) (c : γ) :
    ∑ j, g j (Function.update f i c j) = ∑ j, g j (f j) - g i (f i) + g i c := by
  have hpoint : ∀ j, g j (Function.update f i c j) =
      Function.update (fun j => g j (f j)) i (g i c) j :=
    Function.apply_update g f i c
  simp only [hpoint]
  rw [sum_update_of_mem (mem_univ i), ← add_sum_erase _ _ (mem_univ i), sdiff_singleton_eq_erase]
  omega

end ModemSupport.Lib
