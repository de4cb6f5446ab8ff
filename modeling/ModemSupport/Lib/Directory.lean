import Mathlib.Logic.Basic

/-! The files of a directory under their names, in the order of a listing. -/

namespace ModemSupport.Lib.Directory

open List

variable {κ α : Type} [DecidableEq κ] {before : κ → κ → Bool} {k j : κ} {a : α} {d : List (κ × α)}

/-- The directory with a file written, in its place of the listing when it is new. -/
def put (before : κ → κ → Bool) (k : κ) (a : α) : List (κ × α) → List (κ × α)
  | [] => [(k, a)]
  | x :: d =>
    if k = x.1 then (k, a) :: d
    else if before k x.1 then (k, a) :: x :: d
    else x :: put before k a d

/-- The directory without the files of some names. -/
def remove (names : List κ) (d : List (κ × α)) : List (κ × α) := d.filter fun x => x.1 ∉ names

theorem lookup_put_self : (put before k a d).lookup k = some a := by
  induction d with
  | nil => simp [put]
  | cons x d ih =>
    rw [put]
    split
    next => simp
    next hne =>
      split
      next => simp
      next => rw [List.lookup_cons, beq_false_of_ne hne, ih]

theorem lookup_put_of_ne (h : j ≠ k) : (put before k a d).lookup j = d.lookup j := by
  induction d with
  | nil => rw [put, List.lookup_cons, beq_false_of_ne h]
  | cons x d ih =>
    rw [put]
    split
    next heq => rw [List.lookup_cons, List.lookup_cons, ← heq, beq_false_of_ne h]
    next =>
      split
      next => rw [List.lookup_cons, beq_false_of_ne h]
      next => rw [List.lookup_cons, List.lookup_cons, ih]

theorem lookup_remove_of_mem {names : List κ} (h : k ∈ names) :
    (remove names d).lookup k = none := by
  induction d with
  | nil => rfl
  | cons x d ih =>
    rw [remove, filter_cons]
    split
    next hx =>
      have hne : k ≠ x.1 := fun heq => of_decide_eq_true hx (heq ▸ h)
      rw [List.lookup_cons, beq_false_of_ne hne]
      exact ih
    next => exact ih

theorem lookup_remove_of_notMem {names : List κ} (h : k ∉ names) :
    (remove names d).lookup k = d.lookup k := by
  induction d with
  | nil => rfl
  | cons x d ih =>
    rw [remove, filter_cons, List.lookup_cons]
    split
    next => rw [List.lookup_cons, ← ih, remove]
    next hx =>
      have hne : k ≠ x.1 := fun heq => h (heq ▸ not_not.mp (by simpa using hx))
      rw [beq_false_of_ne hne]
      exact ih

theorem lookup_remove {names : List κ} (h : (remove names d).lookup k = some a) :
    d.lookup k = some a := by
  by_cases hk : k ∈ names
  · rw [lookup_remove_of_mem hk] at h
    cases h
  · rwa [lookup_remove_of_notMem hk] at h

structure IsOrder (before : κ → κ → Bool) : Prop where
  irrefl : ∀ a, before a a = false
  trans : ∀ a b c, before a b = true → before b c = true → before a c = true
  total : ∀ a b, a ≠ b → before a b = false → before b a = true

def Sorted (before : κ → κ → Bool) (d : List (κ × α)) : Prop :=
  d.Pairwise fun x y => before x.1 y.1 = true

theorem mem_put {x : κ × α} (h : x ∈ put before k a d) : x = (k, a) ∨ x ∈ d := by
  induction d with
  | nil => exact .inl (mem_singleton.mp h)
  | cons y d ih =>
    rw [put] at h
    split at h
    next => exact (mem_cons.mp h).imp_right (mem_cons_of_mem y)
    next =>
      split at h
      next => exact mem_cons.mp h
      next =>
        rcases mem_cons.mp h with rfl | h
        · exact .inr mem_cons_self
        · exact (ih h).imp_right (mem_cons_of_mem y)

theorem sorted_put (ho : IsOrder before) (h : Sorted before d) :
    Sorted before (put before k a d) := by
  induction d with
  | nil => exact pairwise_singleton ..
  | cons x d ih =>
    obtain ⟨hx, hd⟩ := pairwise_cons.mp h
    rw [put]
    split
    next heq =>
      subst heq
      exact pairwise_cons.mpr ⟨hx, hd⟩
    next hne =>
      split
      next hbefore =>
        refine pairwise_cons.mpr ⟨?_, h⟩
        intro y hy
        rcases mem_cons.mp hy with rfl | hy
        · exact hbefore
        · exact ho.trans _ _ _ hbefore (hx y hy)
      next hbefore =>
        refine pairwise_cons.mpr ⟨?_, ih hd⟩
        intro y hy
        rcases mem_put hy with rfl | hy
        · exact ho.total _ _ hne (Bool.eq_false_iff.mpr hbefore)
        · exact hx y hy

theorem sorted_remove {names : List κ} (h : Sorted before d) : Sorted before (remove names d) :=
  h.filter _

theorem mem_of_lookup (h : d.lookup k = some a) : (k, a) ∈ d := by
  induction d with
  | nil => cases h
  | cons x d ih =>
    rw [List.lookup_cons] at h
    split at h
    next heq =>
      obtain rfl := eq_of_beq heq
      obtain rfl := Option.some.inj h
      exact mem_cons_self
    next => exact mem_cons_of_mem x (ih h)

omit [DecidableEq κ] in
theorem getLast?_sorted {x : κ × α} (h : Sorted before d) (hx : x ∈ d)
    (hlast : ∀ y ∈ d, before x.1 y.1 = false) : d.getLast? = some x := by
  induction d with
  | nil => cases hx
  | cons y d ih =>
    obtain ⟨hy, hd⟩ := pairwise_cons.mp h
    cases d with
    | nil => exact congrArg some (mem_singleton.mp hx).symm
    | cons z d =>
      rw [getLast?_cons_cons]
      rcases mem_cons.mp hx with rfl | hx
      · have hbefore := hy z mem_cons_self
        rw [hlast z (by simp)] at hbefore
        cases hbefore
      · exact ih hd hx fun w hw => hlast w (mem_cons_of_mem y hw)

end ModemSupport.Lib.Directory
