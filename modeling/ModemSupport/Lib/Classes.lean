import Mathlib.Data.List.Perm.Basic

/-! A list in classes of members that a relation puts together, the first member of each taking the
others with it. -/

namespace ModemSupport.Lib.Classes

open List

variable {α β : Type} {r : α → α → Bool} {l c : List α} {a b : α}

/-- What a member leaves to the classes behind its own. -/
def others (r : α → α → Bool) (a : α) (l : List α) : List α := l.filter fun b => !r a b

theorem length_others_le : (others r a l).length ≤ l.length := length_filter_le ..

/-- The first member with those behind it that it is related to, and then the rest. -/
def classes (r : α → α → Bool) : List α → List (List α)
  | [] => []
  | a :: l => (a :: l.filter (r a)) :: classes r (others r a l)
termination_by l => l.length
decreasing_by exact Nat.lt_succ_of_le length_others_le

@[simp] theorem classes_nil : classes r [] = [] := by
  rw [classes]

theorem classes_cons : classes r (a :: l) =
    (a :: l.filter (r a)) :: classes r (others r a l) := by
  rw [classes]

theorem classes_cons_of_false (h : ∀ b, r a b = false) :
    classes r (a :: l) = [a] :: classes r l := by
  rw [classes_cons, others, filter_eq_nil_iff.mpr fun b _ => by simp [h b],
    filter_eq_self.mpr fun b _ => by simp [h b]]

theorem perm_flatten_classes : (classes r l).flatten.Perm l := by
  induction l using classes.induct r with
  | case1 => rw [classes_nil, flatten_nil]
  | case2 a l ih =>
    rw [classes_cons, flatten_cons, cons_append]
    exact ((ih.append_left _).trans (filter_append_perm (r a) l)).cons a

theorem class_eq (hsymm : ∀ a b, r a b → r b a) (htrans : ∀ a b d, r a b → r b d → r a d)
    (hc : c ∈ classes r l) : ∃ a ∈ l, c.head? = some a ∧
      (r a a = true → c = l.filter (r a)) ∧ (r a a = false → c = [a]) := by
  induction l using classes.induct r with
  | case1 =>
    rw [classes_nil] at hc
    cases hc
  | case2 a l ih =>
    rw [classes_cons] at hc
    rcases mem_cons.mp hc with rfl | hc
    · refine ⟨a, mem_cons_self, rfl, fun haa => ?_, fun haa => ?_⟩
      · rw [filter_cons_of_pos haa]
      · rw [filter_eq_nil_iff.mpr]
        intro b _ hab
        rw [htrans a b a hab (hsymm a b hab)] at haa
        cases haa
    · obtain ⟨b, hb, hhead, hrefl, hirrefl⟩ := ih hc
      obtain ⟨hbl, hab⟩ := mem_filter.mp hb
      refine ⟨b, mem_cons_of_mem _ hbl, hhead, fun hbb => ?_, hirrefl⟩
      have hba : ¬ r b a = true := fun hba => by
        rw [hsymm b a hba] at hab
        cases hab
      rw [hrefl hbb, others, filter_cons_of_neg hba, List.filter_filter]
      refine filter_congr fun d _ => ?_
      cases hbd : r b d with
      | false => rfl
      | true =>
        cases had : r a d with
        | false => rfl
        | true => exact absurd (hsymm a b (htrans a d b had (hsymm b d hbd))) hba

theorem exists_class (hl : a ∈ l) : ∃ c ∈ classes r l, a ∈ c := by
  have hmem := (perm_flatten_classes (r := r) (l := l)).mem_iff.mpr hl
  obtain ⟨c, hc, ha⟩ := mem_flatten.mp hmem
  exact ⟨c, hc, ha⟩

theorem length_flatMap_le {f g : α → List β} (h : ∀ a ∈ l, (f a).length ≤ (g a).length) :
    (l.flatMap f).length ≤ (l.flatMap g).length := by
  induction l with
  | nil => exact Nat.le_refl 0
  | cons a l ih =>
    obtain ⟨ha, hl⟩ := forall_mem_cons.mp h
    rw [flatMap_cons, flatMap_cons, length_append, length_append]
    exact Nat.add_le_add ha (ih hl)

theorem flatMap_eq_iff {f g : α → List β} (h : ∀ a ∈ l, (f a).length ≤ (g a).length) :
    l.flatMap f = l.flatMap g ↔ ∀ a ∈ l, f a = g a := by
  constructor
  · intro heq
    induction l with
    | nil => exact forall_mem_nil _
    | cons a l ih =>
      obtain ⟨ha, hl⟩ := forall_mem_cons.mp h
      rw [flatMap_cons, flatMap_cons] at heq
      have hlen := congrArg List.length heq
      have hle := length_flatMap_le hl
      rw [length_append, length_append] at hlen
      obtain ⟨hhead, htail⟩ := append_inj heq (by omega)
      exact forall_mem_cons.mpr ⟨hhead, ih hl htail⟩
  · intro heq
    exact flatMap_congr heq

end ModemSupport.Lib.Classes
