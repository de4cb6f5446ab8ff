import Mathlib.Data.List.Forall2

/-! Lists that grow at their end, and the members that a key or a property picks out of a list. -/

namespace ModemSupport.Lib.Lists

open List

variable {α β : Type} {l m : List α} {a : α}

theorem getElem?_of_prefix {i : Nat} (h : l <+: m) (ha : l[i]? = some a) : m[i]? = some a := by
  obtain ⟨rest, rfl⟩ := h
  obtain ⟨hi, -⟩ := List.getElem?_eq_some_iff.mp ha
  rw [List.getElem?_append_left hi, ha]

theorem nodup_append_one (hl : l.Nodup) (ha : a ∉ l) : (l ++ [a]).Nodup := by
  refine nodup_append.mpr ⟨hl, by simp, ?_⟩
  rintro b hb c hc rfl
  exact ha (mem_singleton.mp hc ▸ hb)

theorem filter_of_nodup [DecidableEq β] {f : α → β} (hl : (l.map f).Nodup) (ha : a ∈ l) :
    (l.filter fun b => f b == f a) = [a] := by
  induction l with
  | nil => cases ha
  | cons b l ih =>
    rw [map_cons, nodup_cons] at hl
    obtain ⟨hb, hl⟩ := hl
    rcases mem_cons.mp ha with rfl | ha
    · rw [filter_cons_of_pos (by simp), filter_eq_nil_iff.mpr]
      intro c hc heq
      exact hb (by rw [← beq_iff_eq.mp heq]; exact List.mem_map_of_mem hc)
    · have hne : ¬(f b == f a) = true := fun heq =>
        hb (by rw [beq_iff_eq.mp heq]; exact List.mem_map_of_mem ha)
      rw [filter_cons_of_neg (p := fun b => f b == f a) hne]
      exact ih hl ha

/-- The list around its first member that has a property. -/
theorem find_split {p : α → Bool} (h : l.find? p = some a) :
    p a = true ∧ ∃ l₁ l₂, l = l₁ ++ a :: l₂ ∧ l.eraseP p = l₁ ++ l₂ := by
  obtain ⟨hp, l₁, l₂, rfl, hl₁⟩ := List.find?_eq_some_iff_append.mp h
  refine ⟨hp, l₁, l₂, rfl, ?_⟩
  rw [eraseP_append_right _ (by simpa using hl₁), eraseP_cons_of_pos hp]

theorem filter_congr_of_notMem {p p' : α → Bool} (ha : a ∉ l) (h : ∀ b, b ≠ a → p' b = p b) :
    l.filter p' = l.filter p := by
  refine filter_congr fun b hb => h b ?_
  rintro rfl
  exact ha hb

theorem tail_filter {p p' : α → Bool} (hl : l.Nodup) (ha : l.find? p = some a)
    (h : ∀ b, b ≠ a → p' b = p b) (hp' : p' a = false) : (l.filter p).tail = l.filter p' := by
  induction l with
  | nil => rfl
  | cons b l ih =>
    obtain ⟨hb, hl⟩ := nodup_cons.mp hl
    by_cases hpb : p b = true
    · obtain rfl : b = a := by simpa [List.find?_cons, hpb] using ha
      rw [filter_cons_of_pos hpb, tail_cons, filter_cons_of_neg (by simp [hp'])]
      exact (filter_congr_of_notMem hb h).symm
    · have hne : b ≠ a := by
        rintro rfl
        exact hpb (by simpa using List.find?_some ha)
      rw [filter_cons_of_neg hpb, filter_cons_of_neg (by rw [h b hne]; exact hpb)]
      exact ih hl (by simpa [List.find?_cons, hpb] using ha)

theorem mapM_eq_some_iff {f : α → Option β} {bs : List β} :
    l.mapM f = some bs ↔ Forall₂ (fun a b => f a = some b) l bs := by
  induction l generalizing bs with
  | nil => simp [eq_comm]
  | cons a l ih =>
    rw [mapM_cons]
    cases hfa : f a with
    | none => simp [forall₂_cons_left_iff, hfa]
    | some b =>
      cases hrest : l.mapM f with
      | none =>
        have hnone : ∀ bs, ¬ Forall₂ (fun a b => f a = some b) l bs := by
          intro bs hbs
          rw [← ih, hrest] at hbs
          cases hbs
        simp [forall₂_cons_left_iff, hnone]
      | some bs' =>
        have hsome := ih.mp hrest
        constructor
        · intro heq
          cases heq
          exact .cons hfa hsome
        · intro hall
          obtain ⟨b', bs'', hb', hbs'', rfl⟩ := forall₂_cons_left_iff.mp hall
          rw [hfa, Option.some.injEq] at hb'
          rw [← ih, hrest, Option.some.injEq] at hbs''
          rw [hb', hbs'']
          rfl

end ModemSupport.Lib.Lists
