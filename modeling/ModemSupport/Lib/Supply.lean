import Mathlib.Algebra.Order.Group.Multiset
import Mathlib.Algebra.Order.Sub.Basic

/-! Demands for items that meet a supply in which each supplier serves one demand: the suppliers
of one item, and those that the wildcard `any` stands for, which serve every item. -/

namespace ModemSupport.Lib.Supply

variable {α : Type} [DecidableEq α] {any a t : α} {demand demand' supply : Multiset α}

def single (any : α) (supply : Multiset α) : Multiset α := supply.filter (· ≠ any)

/-- The number of demands that the suppliers of one item leave. -/
def unmet (any : α) (demand supply : Multiset α) : Nat := (demand - single any supply).card

def Enough (any : α) (demand supply : Multiset α) : Prop :=
  unmet any demand supply ≤ supply.count any

@[simp] theorem single_zero : single any (0 : Multiset α) = 0 := rfl

theorem single_cons_self : single any (any ::ₘ supply) = single any supply := by
  simp [single]

theorem single_cons_of_ne (h : t ≠ any) : single any (t ::ₘ supply) = t ::ₘ single any supply := by
  simp [single, h]

@[simp] theorem Enough.zero : Enough any 0 supply := by
  simp [Enough, unmet, Multiset.zero_sub]

theorem Enough.mono (h : Enough any demand supply) (hle : demand' ≤ demand) :
    Enough any demand' supply :=
  (Multiset.card_le_card (tsub_le_tsub_right hle _)).trans h

theorem Enough.serve (h : Enough any demand supply) (ht : t = any ∨ t = a) :
    Enough any (a ::ₘ demand) (t ::ₘ supply) := by
  unfold Enough unmet at *
  by_cases hany : t = any
  · subst hany
    rw [single_cons_self, Multiset.count_cons_self]
    have hle : (a ::ₘ demand) - single t supply ≤ a ::ₘ (demand - single t supply) := by
      rw [← Multiset.singleton_add, ← Multiset.singleton_add]
      exact add_tsub_le_assoc
    calc ((a ::ₘ demand) - single t supply).card
        ≤ (a ::ₘ (demand - single t supply)).card := Multiset.card_le_card hle
      _ = (demand - single t supply).card + 1 := Multiset.card_cons ..
      _ ≤ supply.count t + 1 := Nat.add_le_add_right h 1
  · obtain rfl : t = a := ht.resolve_left hany
    rw [single_cons_of_ne hany, Multiset.count_cons_of_ne (Ne.symm hany), Multiset.sub_cons,
      Multiset.erase_cons_head]
    exact h

theorem Enough.more (h : Enough any demand supply) (t : α) : Enough any demand (t ::ₘ supply) :=
  (h.serve (a := t) (Or.inr rfl)).mono (Multiset.le_cons_self ..)

theorem Enough.take (h : Enough any demand (t ::ₘ supply)) (ht : t ≠ any) :
    Enough any (demand.erase t) supply := by
  unfold Enough unmet at *
  rwa [single_cons_of_ne ht, Multiset.count_cons_of_ne (Ne.symm ht), Multiset.sub_cons] at h

theorem Enough.leave (h : Enough any demand (t ::ₘ supply)) (ht : t ≠ any) (hdemand : t ∉ demand) :
    Enough any demand supply := by
  have htake := h.take ht
  rwa [Multiset.erase_of_notMem hdemand] at htake

/-- A supplier of any item takes one that the suppliers of that item do not all need, or there are
more suppliers of any item than demands for them. -/
theorem Enough.takeAny (h : Enough any demand (any ::ₘ supply))
    (ha : (single any supply).count a < demand.count a ∨
      unmet any demand supply ≤ supply.count any) : Enough any (demand.erase a) supply := by
  rcases ha with hcount | hunmet
  · unfold Enough unmet at *
    rw [single_cons_self, Multiset.count_cons_self] at h
    have hmem : a ∈ demand - single any supply := by
      rw [← Multiset.count_pos, Multiset.count_sub]
      omega
    have herase : demand.erase a - single any supply = (demand - single any supply).erase a := by
      rw [← Multiset.sub_singleton, ← Multiset.sub_singleton, tsub_right_comm]
    rw [herase, Multiset.card_erase_of_mem hmem]
    exact Nat.pred_le_iff.mpr h
  · exact Enough.mono hunmet (Multiset.erase_le ..)

theorem Enough.eq_zero (h : Enough any demand 0) : demand = 0 := by
  simpa [Enough, unmet] using h

end ModemSupport.Lib.Supply
