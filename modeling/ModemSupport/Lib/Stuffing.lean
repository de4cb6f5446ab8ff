import Mathlib.Data.List.DropRight

/-! Texts between flags, in which a flag or an escape is masked behind an escape. -/

namespace ModemSupport.Lib.Stuffing

open List

structure Code (α : Type) where
  flag : α
  esc : α
  mask : α → α
  involutive : ∀ a, mask (mask a) = a
  esc_ne : esc ≠ flag
  mask_flag : mask flag ≠ flag ∧ mask flag ≠ esc
  mask_esc : mask esc ≠ flag ∧ mask esc ≠ esc

variable {α : Type} [DecidableEq α] {c : Code α} {a : α} {xs ys : List α}

def Code.escape (c : Code α) (a : α) : List α :=
  if a = c.flag ∨ a = c.esc then [c.esc, c.mask a] else [a]

/-- The symbols behind each other, of which the one behind an escape is unmasked. -/
def Code.unescape (c : Code α) : Bool → List α → List α
  | _, [] => []
  | escaped, a :: as =>
    if a = c.esc then c.unescape true as
    else (if escaped then c.mask a else a) :: c.unescape false as

attribute [grind =] Code.unescape

def Code.specials (c : Code α) (xs : List α) : Nat :=
  xs.countP fun a => a = c.flag ∨ a = c.esc

theorem Code.flag_notMem_escape : c.flag ∉ c.escape a := by
  rw [Code.escape]
  split
  case isTrue h =>
    rw [mem_cons, mem_singleton, not_or]
    rcases h with rfl | rfl
    · exact ⟨c.esc_ne.symm, c.mask_flag.1.symm⟩
    · exact ⟨c.esc_ne.symm, c.mask_esc.1.symm⟩
  case isFalse h =>
    rw [mem_singleton]
    exact fun heq => h (.inl heq.symm)

theorem Code.flag_notMem_flatMap : c.flag ∉ xs.flatMap c.escape := by
  intro h
  obtain ⟨a, -, ha⟩ := mem_flatMap.mp h
  exact Code.flag_notMem_escape ha

theorem Code.specials_cons :
    c.specials (a :: xs) = c.specials xs + if a = c.flag ∨ a = c.esc then 1 else 0 := by
  rw [Code.specials, Code.specials, countP_cons]
  simp only [decide_eq_true_eq]

theorem Code.length_flatMap_escape : (xs.flatMap c.escape).length = xs.length + c.specials xs := by
  induction xs with
  | nil => rfl
  | cons a xs ih =>
    rw [flatMap_cons, length_append, ih, length_cons, Code.specials_cons,
      Code.escape]
    split
    · show 2 + _ = _
      omega
    · show 1 + _ = _
      omega

theorem Code.unescape_flatMap_append :
    c.unescape false (xs.flatMap c.escape ++ ys) = xs ++ c.unescape false ys := by
  induction xs with
  | nil => rfl
  | cons a xs ih =>
    rw [flatMap_cons, append_assoc, Code.escape]
    by_cases h : a = c.flag ∨ a = c.esc
    · have hmask : c.mask a ≠ c.esc := by
        rcases h with rfl | rfl
        · exact c.mask_flag.2
        · exact c.mask_esc.2
      rw [if_pos h]
      show c.unescape false (c.esc :: c.mask a :: (xs.flatMap c.escape ++ ys)) = _
      rw [Code.unescape, if_pos rfl, Code.unescape, if_neg hmask, if_pos rfl, c.involutive, ih]
      rfl
    · rw [if_neg h]
      show c.unescape false (a :: (xs.flatMap c.escape ++ ys)) = _
      rw [Code.unescape, if_neg fun heq => h (.inr heq), if_neg Bool.false_ne_true, ih]
      rfl

theorem Code.unescape_flatMap : c.unescape false (xs.flatMap c.escape) = xs := by
  have h : c.unescape false (xs.flatMap c.escape ++ []) = xs ++ c.unescape false [] :=
    Code.unescape_flatMap_append
  rwa [append_nil, Code.unescape, append_nil] at h

theorem Code.length_unescape_le {e : Bool} : (c.unescape e xs).length ≤ xs.length := by
  induction xs generalizing e with
  | nil => exact le_rfl
  | cons a xs ih =>
    rw [Code.unescape]
    split
    · exact ih.trans (Nat.le_succ _)
    · exact Nat.succ_le_succ ih

theorem Code.length_unescape_eq_iff {e : Bool} :
    (c.unescape e xs).length = xs.length ↔ c.esc ∉ xs := by
  induction xs generalizing e with
  | nil => exact iff_of_true rfl not_mem_nil
  | cons a xs ih =>
    rw [Code.unescape, mem_cons, not_or]
    split
    case isTrue h =>
      have hle : (c.unescape true xs).length ≤ xs.length := Code.length_unescape_le
      refine iff_of_false (fun heq => ?_) fun hno => hno.1 h.symm
      rw [length_cons] at heq
      omega
    case isFalse h =>
      rw [length_cons, length_cons, Nat.add_right_cancel_iff, ih]
      exact (and_iff_right (Ne.symm h)).symm

theorem Code.unescape_ne_nil {e : Bool} (ha : a ≠ c.esc) : c.unescape e (xs ++ [a]) ≠ [] := by
  induction xs generalizing e with
  | nil =>
    rw [nil_append, Code.unescape, if_neg ha]
    exact cons_ne_nil _ _
  | cons b xs ih =>
    rw [cons_append, Code.unescape]
    split
    · exact ih
    · exact cons_ne_nil _ _

/-- The flags at both ends are taken away. -/
def Code.strip (c : Code α) (xs : List α) : List α :=
  (xs.dropWhile (· == c.flag)).rdropWhile (· == c.flag)

theorem Code.strip_of_notMem {front back : List α} (hfront : ∀ a ∈ front, a = c.flag)
    (hback : ∀ a ∈ back, a = c.flag) (hne : xs ≠ []) (h : c.flag ∉ xs) :
    c.strip (front ++ xs ++ back) = xs := by
  have hnot : ∀ a ∈ xs, ¬ (a == c.flag) = true := fun a ha heq => h (beq_iff_eq.mp heq ▸ ha)
  have hdrop : (front ++ xs ++ back).dropWhile (· == c.flag) = xs ++ back := by
    rw [append_assoc, dropWhile_append_of_pos fun a ha => beq_iff_eq.mpr (hfront a ha)]
    cases xs with
    | nil => exact absurd rfl hne
    | cons a xs => exact dropWhile_cons_of_neg (hnot a mem_cons_self)
  rw [Code.strip, hdrop, rdropWhile, reverse_append,
    dropWhile_append_of_pos fun a ha => beq_iff_eq.mpr (hback a (mem_reverse.mp ha))]
  cases hrev : xs.reverse with
  | nil => exact absurd (reverse_eq_nil_iff.mp hrev) hne
  | cons a as =>
    have ha : a ∈ xs := mem_reverse.mp (by rw [hrev]; exact mem_cons_self)
    have hkeep : (a :: as).dropWhile (· == c.flag) = a :: as :=
      dropWhile_cons_of_neg (hnot a ha)
    rw [hkeep, ← hrev, reverse_reverse]

end ModemSupport.Lib.Stuffing
