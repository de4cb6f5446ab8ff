import Mathlib.Data.List.Infix

/-! Texts as lists of characters: the lines of a text, the first place of one text in another, and
decimal numbers. -/

namespace ModemSupport.Lib.Text

open List Option

variable {c : Char} {s t n a b p q : List Char}

/-- The lines that are read from a text one by one; what follows the last newline is a line unless
it is empty. -/
def lines : List Char → List (List Char)
  | [] => []
  | c :: cs =>
    if c = '\n' then [] :: lines cs
    else
      match lines cs with
      | [] => [[c]]
      | l :: ls => (c :: l) :: ls

def pieces : List Char → List (List Char)
  | [] => [[]]
  | c :: cs =>
    if c = '\n' then [] :: pieces cs
    else
      match pieces cs with
      | [] => [[c]]
      | l :: ls => (c :: l) :: ls

attribute [grind =] pieces

theorem length_pieces : (pieces s).length = s.count '\n' + 1 := by
  induction s with
  | nil => rfl
  | cons c cs ih =>
    by_cases hc : c = '\n'
    · subst hc
      rw [pieces, if_pos rfl, length_cons, ih, count_cons_self]
    · rw [pieces, if_neg hc, count_cons_of_ne hc, ← ih]
      cases hp : pieces cs with
      | nil =>
        rw [hp] at ih
        cases ih
      | cons l ls => rfl

theorem pieces_of_notMem (h : '\n' ∉ s) : pieces s = [s] := by
  induction s with
  | nil => rfl
  | cons c cs ih =>
    rw [mem_cons, not_or] at h
    rw [pieces, if_neg (Ne.symm h.1), ih h.2]

theorem pieces_append_newline (h : '\n' ∉ s) : pieces (s ++ '\n' :: t) = s :: pieces t := by
  induction s with
  | nil => simp [pieces]
  | cons c cs ih =>
    rw [mem_cons, not_or] at h
    rw [cons_append, pieces, if_neg (Ne.symm h.1), ih h.2]

theorem exists_pieces (h : '\n' ∈ s) : ∃ l ls, pieces s = l :: ls ∧ ls ≠ [] ∧ l <+: s := by
  induction s with
  | nil => cases h
  | cons c cs ih =>
    by_cases hc : c = '\n'
    · refine ⟨[], pieces cs, by rw [pieces, if_pos hc], ?_, nil_prefix⟩
      intro hnil
      have hlen := length_pieces (s := cs)
      rw [hnil] at hlen
      cases hlen
    · obtain ⟨l, ls, hp, hne, hpre⟩ := ih ((mem_cons.mp h).resolve_left (Ne.symm hc))
      exact ⟨c :: l, ls, by rw [pieces, if_neg hc, hp], hne,
        (cons_prefix_cons).mpr ⟨rfl, hpre⟩⟩

theorem lines_append_newline : lines (s ++ '\n' :: t) = pieces s ++ lines t := by
  induction s with
  | nil => simp [lines, pieces]
  | cons c cs ih =>
    by_cases hc : c = '\n'
    · rw [cons_append, lines, if_pos hc, ih, pieces, if_pos hc, cons_append]
    · rw [cons_append, lines, if_neg hc, ih, pieces, if_neg hc]
      cases hp : pieces cs with
      | nil =>
        have hlen := length_pieces (s := cs)
        rw [hp] at hlen
        cases hlen
      | cons l ls => rfl

theorem lines_line (h : '\n' ∉ s) : lines (s ++ '\n' :: t) = s :: lines t := by
  rw [lines_append_newline, pieces_of_notMem h, singleton_append]

/-- What stands before and behind the first place of `n` in a text. -/
def find (n : List Char) : List Char → Option (List Char × List Char)
  | [] => if n = [] then some ([], []) else none
  | c :: cs =>
    if n.isPrefixOf (c :: cs) then some ([], (c :: cs).drop n.length)
    else (find n cs).map fun r => (c :: r.1, r.2)

attribute [grind =] find

theorem find_append_self : find n (n ++ b) = some ([], b) := by
  cases h : n ++ b with
  | nil =>
    obtain ⟨rfl, rfl⟩ := append_eq_nil_iff.mp h
    rfl
  | cons c cs => rw [find, if_pos (by rw [← h]; simp), ← h, drop_left]

theorem find_singleton (h : c ∉ a) : find [c] (a ++ c :: b) = some (a, b) := by
  induction a with
  | nil => exact find_append_self (n := [c])
  | cons d a ih =>
    rw [mem_cons, not_or] at h
    rw [cons_append, find, if_neg (by simp [h.1]), ih h.2]
    rfl

/-- The first place is at or before any other. -/
theorem exists_find (hn : n ≠ []) : ∃ p q, find n (a ++ (n ++ b)) = some (p, q) ∧ b <:+ q := by
  induction a with
  | nil => exact ⟨[], b, find_append_self, suffix_refl b⟩
  | cons c a ih =>
    obtain ⟨p, q, hfind, hsuffix⟩ := ih
    rw [cons_append, find]
    split
    next =>
      refine ⟨[], _, rfl, ?_⟩
      have hdrop : (c :: (a ++ (n ++ b))).drop n.length <:+ c :: (a ++ (n ++ b)) :=
        drop_suffix ..
      have hb : b <:+ c :: (a ++ (n ++ b)) := ⟨c :: (a ++ n), by simp⟩
      apply suffix_of_suffix_length_le hb hdrop
      simp only [length_drop, length_cons, length_append]
      have hpos := length_pos_iff.mpr hn
      omega
    next => exact ⟨c :: p, q, by rw [hfind]; rfl, hsuffix⟩

theorem append_of_find (h : find n s = some (p, q)) : s = p ++ (n ++ q) := by
  induction s generalizing p with
  | nil =>
    simp only [find, ite_none_right_eq_some, some.injEq, Prod.mk.injEq] at h
    obtain ⟨rfl, rfl, rfl⟩ := h
    rfl
  | cons c cs ih =>
    rw [find] at h
    split at h
    next hpre =>
      cases h
      rw [List.isPrefixOf_iff_prefix] at hpre
      rw [nil_append, prefix_iff_eq_append.mp hpre]
    next =>
      obtain ⟨⟨p', q'⟩, hfind, heq⟩ := map_eq_some_iff.mp h
      cases heq
      rw [ih hfind, cons_append]

/-- What stands behind the first place has no part in finding it. -/
theorem find_congr (h : find n (a ++ (n ++ b)) = some (a, b)) (c : List Char) :
    find n (a ++ (n ++ c)) = some (a, c) := by
  induction a with
  | nil => exact find_append_self
  | cons x a ih =>
    have hpre : ∀ c, n.isPrefixOf (x :: (a ++ (n ++ c))) = n.isPrefixOf (x :: (a ++ n)) := by
      intro c
      rw [Bool.eq_iff_iff, isPrefixOf_iff_prefix, isPrefixOf_iff_prefix]
      constructor
      · intro hp
        refine prefix_of_prefix_length_le hp ⟨c, by simp⟩ ?_
        simp only [length_cons, length_append]
        omega
      · intro hp
        exact hp.trans ⟨c, by simp⟩
    rw [cons_append, find, hpre] at h ⊢
    split at h
    next => cases h
    next hnot =>
      obtain ⟨r, hfind, heq⟩ := map_eq_some_iff.mp h
      have hr : r = (a, b) := by
        simp only [Prod.mk.injEq, List.cons.injEq, true_and] at heq
        exact Prod.ext heq.1 heq.2
      rw [hr] at hfind
      rw [if_neg hnot, ih hfind]
      rfl

/-- A character that `n` does not have parts a text into two that are searched one by one. -/
theorem find_append_cons (hc : c ∉ n) : find n (s ++ c :: t) =
    match find n s with
    | some r => some (r.1, r.2 ++ c :: t)
    | none => (find n (c :: t)).map fun r => (s ++ r.1, r.2) := by
  induction s with
  | nil =>
    by_cases hn : n = []
    · subst hn
      simp [find]
    · rw [nil_append, find, if_neg hn]
      cases find n (c :: t) <;> rfl
  | cons x s ih =>
    have hpre : n.isPrefixOf (x :: (s ++ c :: t)) = n.isPrefixOf (x :: s) := by
      rw [Bool.eq_iff_iff, isPrefixOf_iff_prefix, isPrefixOf_iff_prefix]
      constructor
      · intro hp
        refine prefix_of_prefix_length_le hp ⟨c :: t, by simp⟩ ?_
        -- A longer `n` would have the character.
        by_contra hlong
        have hlen : (x :: s).length < n.length := by omega
        have hmem := prefix_of_prefix_length_le
          (show x :: s ++ [c] <+: x :: (s ++ c :: t) from ⟨t, by simp⟩) hp (by
            simp only [length_append, length_cons, length_nil] at hlen ⊢
            omega)
        exact hc (hmem.subset (by simp))
      · intro hp
        exact hp.trans ⟨c :: t, by simp⟩
    rw [cons_append, find, hpre, find, ih]
    split
    next hp =>
      have hle : n.length ≤ (x :: s).length :=
        (List.isPrefixOf_iff_prefix.mp hp).length_le
      simp only [some.injEq, Prod.mk.injEq, true_and]
      rw [← cons_append, drop_append_of_le_length hle]
    next =>
      cases find n s with
      | some r => rfl
      | none => cases find n (c :: t) <;> rfl

theorem find_eq_none_of_prefix (hn : n ≠ []) (h : find n t = none) (hs : s <+: t) :
    find n s = none := by
  obtain ⟨b, rfl⟩ := hs
  cases hfind : find n s with
  | none => rfl
  | some r =>
    obtain ⟨p, q⟩ := r
    obtain ⟨p', q', hfind', -⟩ := exists_find (a := p) (b := q ++ b) hn
    rw [append_of_find hfind, append_assoc, append_assoc, hfind'] at h
    cases h

theorem exists_find_singleton (h : c ∈ s) : ∃ p q, find [c] s = some (p, q) := by
  obtain ⟨a, b, rfl⟩ := append_of_mem h
  obtain ⟨p, q, hfind, -⟩ := exists_find (n := [c]) (a := a) (b := b) (cons_ne_nil c [])
  exact ⟨p, q, hfind⟩

def isspace (c : Char) : Bool :=
  c == ' ' || c == '\t' || c == '\n' || c == '\x0b' || c == '\x0c' || c == '\r'

def dec (k : Nat) : List Char := Nat.toDigits 10 k

theorem isDigit_of_mem_dec {k : Nat} (h : c ∈ dec k) : c.isDigit = true :=
  Nat.isDigit_of_mem_toDigits (by decide) (by decide) h

theorem notMem_dec {k : Nat} (h : c.isDigit = false) : c ∉ dec k := by
  intro hc
  rw [isDigit_of_mem_dec hc] at h
  cases h

theorem dec_injective {j k : Nat} (h : dec j = dec k) : j = k := by
  have hval := congrArg (fun s => Nat.ofDigitChars 10 s 0) h
  simpa [dec] using hval

theorem dec_ne_nil {k : Nat} : dec k ≠ [] := Nat.toDigits_ne_nil

theorem isspace_of_isDigit (h : c.isDigit = true) : isspace c = false := by
  cases hs : isspace c with
  | false => rfl
  | true =>
    simp only [isspace, Bool.or_eq_true, beq_iff_eq] at hs
    rcases hs with ((((rfl | rfl) | rfl) | rfl) | rfl) | rfl <;> exact absurd h (by decide)

end ModemSupport.Lib.Text
