import Mathlib.Data.Finset.Card

/-! Loops given by one round, which does some things and either ends the loop or leaves a state for
the next round: what a loop does in all, and when it ends. -/

namespace ModemSupport.Lib.Loop

variable {σ α : Type} {f : σ → List α × Option σ} {s t u : σ} {as bs : List α} {P : α → Prop}

inductive Ends (f : σ → List α × Option σ) : σ → List α → Prop
  | stop {s : σ} : (f s).2 = none → Ends f s (f s).1
  | next {s t : σ} {as : List α} : (f s).2 = some t → Ends f t as → Ends f s ((f s).1 ++ as)

inductive Comes (f : σ → List α × Option σ) (s : σ) : σ → Prop
  | start : Comes f s s
  | next {t u : σ} : Comes f s t → (f t).2 = some u → Comes f s u

theorem Comes.trans (h : Comes f s t) (h' : Comes f t u) : Comes f s u := by
  induction h' with
  | start => exact h
  | next _ hu ih => exact .next ih hu

theorem Comes.head (h : (f s).2 = some t) (h' : Comes f t u) : Comes f s u :=
  (Comes.next .start h).trans h'

theorem Comes.cases_head (h : Comes f s u) : u = s ∨ ∃ t, (f s).2 = some t ∧ Comes f t u := by
  induction h with
  | start => exact .inl rfl
  | next _ hu ih =>
    rcases ih with rfl | ⟨t, ht, hcomes⟩
    · exact .inr ⟨_, hu, .start⟩
    · exact .inr ⟨t, ht, .next hcomes hu⟩

theorem comes_iff : Comes f s t ↔ Relation.ReflTransGen (fun u v => (f u).2 = some v) s t := by
  constructor
  · intro h
    induction h with
    | start => exact .refl
    | next _ hu ih => exact .tail ih hu
  · intro h
    induction h with
    | refl => exact .start
    | tail _ hu ih => exact .next ih hu

theorem comes_next_iff : (∃ u, (f s).2 = some u ∧ Comes f u t) ↔
    Relation.TransGen (fun u v => (f u).2 = some v) s t := by
  simp only [Relation.TransGen.head'_iff, comes_iff]

theorem Ends.forall_iff (h : Ends f s as) :
    (∀ a ∈ as, P a) ↔ ∀ t, Comes f s t → ∀ a ∈ (f t).1, P a := by
  induction h with
  | @stop s hstop =>
    refine ⟨fun hall t ht => ?_, fun hall => hall s .start⟩
    rcases ht.cases_head with rfl | ⟨u, hu, -⟩
    · exact hall
    · cases hstop.symm.trans hu
  | @next s t as ht _ ih =>
    rw [List.forall_mem_append, ih]
    refine ⟨fun ⟨hfirst, hrest⟩ u hu => ?_, fun hall => ?_⟩
    · rcases hu.cases_head with rfl | ⟨t', ht', hcomes⟩
      · exact hfirst
      · obtain rfl := Option.some.inj (ht.symm.trans ht')
        exact hrest u hcomes
    · exact ⟨hall s .start, fun u hu => hall u (.head ht hu)⟩

theorem Ends.not_cycle (h : Ends f s as) : ¬∃ t, (f s).2 = some t ∧ Comes f t s := by
  induction h with
  | stop hstop =>
    rintro ⟨t, ht, -⟩
    cases hstop.symm.trans ht
  | @next s t as ht _ ih =>
    rintro ⟨t', ht', hcomes⟩
    obtain rfl := Option.some.inj (ht.symm.trans ht')
    apply ih
    rcases hcomes.cases_head with rfl | ⟨u, hu, hback⟩
    · exact ⟨s, ht, .start⟩
    · exact ⟨u, hu, .next hback ht⟩

theorem Ends.eq_of_stop (h : Ends f s as) (hstop : (f s).2 = none) : as = (f s).1 := by
  cases h with
  | stop => rfl
  | next hnext => cases hstop.symm.trans hnext

theorem Ends.eq_of_next (h : Ends f s as) (hnext : (f s).2 = some t) :
    ∃ bs, as = (f s).1 ++ bs ∧ Ends f t bs := by
  cases h with
  | stop hstop => cases hstop.symm.trans hnext
  | next ht hrest =>
    obtain rfl := Option.some.inj (ht.symm.trans hnext)
    exact ⟨_, rfl, hrest⟩

theorem Ends.unique (h : Ends f s as) (h' : Ends f s bs) : as = bs := by
  induction h generalizing bs with
  | stop hstop => exact (h'.eq_of_stop hstop).symm
  | next hnext _ ih =>
    obtain ⟨cs, rfl, hcs⟩ := h'.eq_of_next hnext
    rw [ih hcs]

theorem Ends.of_comes (h : Ends f s as) (hcomes : Comes f s t) : ∃ bs, Ends f t bs := by
  induction hcomes with
  | start => exact ⟨as, h⟩
  | next _ hu ih =>
    obtain ⟨bs, hbs⟩ := ih
    cases hbs with
    | stop hstop => cases hstop.symm.trans hu
    | next hnext hrest =>
      obtain rfl := Option.some.inj (hnext.symm.trans hu)
      exact ⟨_, hrest⟩

theorem exists_ends (m : σ → Nat)
    (h : ∀ t, Comes f s t → ∀ u, (f t).2 = some u → m u < m t) : ∃ as, Ends f s as := by
  induction hm : m s using Nat.strongRecOn generalizing s with
  | _ n ih =>
    cases hnext : (f s).2 with
    | none => exact ⟨_, .stop hnext⟩
    | some t =>
      have hlt := h s .start t hnext
      obtain ⟨as, has⟩ := ih (m t) (hm ▸ hlt) (fun u hu => h u (.head hnext hu)) rfl
      exact ⟨_, .next hnext has⟩

/-- A loop over finitely many states ends when it never comes back. -/
theorem exists_ends_of_acyclic [DecidableEq σ] (all : Finset σ) (hall : ∀ t, Comes f s t → t ∈ all)
    (h : ∀ t, Comes f s t → ¬∃ u, (f t).2 = some u ∧ Comes f u t) : ∃ as, Ends f s as := by
  classical
  refine exists_ends (fun t => (all.filter (Comes f t)).card) fun t ht u hu => ?_
  apply Finset.card_lt_card
  rw [Finset.ssubset_iff_of_subset]
  · refine ⟨t, Finset.mem_filter.mpr ⟨hall t ht, .start⟩, fun hmem => ?_⟩
    exact h t ht ⟨u, hu, (Finset.mem_filter.mp hmem).2⟩
  · intro v hv
    obtain ⟨hmem, hcomes⟩ := Finset.mem_filter.mp hv
    exact Finset.mem_filter.mpr ⟨hmem, .head hu hcomes⟩

/-- Two kinds of things that a loop does: when a round never does more of one, the loop does as many
of both just when every round does. -/
theorem Ends.countP_eq_iff {p q : α → Bool} (h : Ends f s as)
    (hle : ∀ t, Comes f s t → (f t).1.countP p ≤ (f t).1.countP q) :
    as.countP p = as.countP q ↔ ∀ t, Comes f s t → (f t).1.countP p = (f t).1.countP q := by
  have hsum : as.countP p ≤ as.countP q ∧ (as.countP p = as.countP q ↔
      ∀ t, Comes f s t → (f t).1.countP p = (f t).1.countP q) := by
    induction h with
    | @stop s hstop =>
      refine ⟨hle s .start, fun heq t ht => ?_, fun hall => hall s .start⟩
      rcases ht.cases_head with rfl | ⟨u, hu, -⟩
      · exact heq
      · cases hstop.symm.trans hu
    | @next s t as ht _ ih =>
      obtain ⟨hrest, hiff⟩ := ih fun u hu => hle u (.head ht hu)
      have hfirst := hle s .start
      rw [List.countP_append, List.countP_append]
      refine ⟨Nat.add_le_add hfirst hrest, fun heq u hu => ?_, fun hall => ?_⟩
      · rcases hu.cases_head with rfl | ⟨t', ht', hcomes⟩
        · omega
        · obtain rfl := Option.some.inj (ht.symm.trans ht')
          exact hiff.mp (by omega) u hcomes
      · rw [hall s .start, hiff.mpr fun u hu => hall u (.head ht hu)]
  exact hsum.2

end ModemSupport.Lib.Loop
