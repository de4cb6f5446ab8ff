import Mathlib.Data.List.Infix
import Mathlib.Data.List.TakeWhile

/-! Lines that are searched by patterns, and lines of fields with commas between them, the way that
`grep`, `sed` and `awk` treat them. -/

namespace ModemSupport.Lib.Pattern

open List

variable {p q a b l : List Char} {ls : List (List Char)}

/-- A pattern in which a dot stands for any character, at the front of a line. -/
def matchesAt : List Char → List Char → Bool
  | [], _ => true
  | _ :: _, [] => false
  | c :: cs, x :: xs => (c == '.' || c == x) && matchesAt cs xs

def search (p : List Char) : List Char → Bool
  | [] => matchesAt p []
  | c :: cs => matchesAt p (c :: cs) || search p cs

attribute [grind =] search

theorem matchesAt_append : matchesAt p (p ++ b) = true := by
  induction p with
  | nil => rfl
  | cons c cs ih =>
    rw [cons_append, matchesAt, ih]
    simp

theorem search_of_matchesAt (h : matchesAt p l = true) : search p l = true := by
  cases l with
  | nil => exact h
  | cons c cs =>
    rw [search, h]
    rfl

/-- A pattern is found in every text that has it. -/
theorem search_append : search p (a ++ (p ++ b)) = true := by
  induction a with
  | nil => exact search_of_matchesAt matchesAt_append
  | cons c cs ih =>
    rw [cons_append, search, ih]
    simp

theorem search_self : search p (p ++ b) = true := search_append (a := [])

theorem matchesAt_iff_isPrefix (hp : '.' ∉ p) : matchesAt p l = true ↔ p <+: l := by
  induction p generalizing l with
  | nil => simp [matchesAt]
  | cons c cs ih =>
    rw [mem_cons, not_or] at hp
    cases l with
    | nil => simp [matchesAt]
    | cons x xs =>
      have hc : (c == '.') = false := beq_eq_false_iff_ne.mpr (Ne.symm hp.1)
      rw [matchesAt, hc, Bool.false_or, Bool.and_eq_true, beq_iff_eq, ih hp.2,
        cons_prefix_cons]

theorem search_iff_isInfix (hp : '.' ∉ p) : search p l = true ↔ p <:+: l := by
  induction l with
  | nil => rw [search, matchesAt_iff_isPrefix hp, prefix_nil, infix_nil]
  | cons c cs ih =>
    rw [search, Bool.or_eq_true, matchesAt_iff_isPrefix hp, ih, infix_cons_iff]

def delete (p : List Char) (ls : List (List Char)) : List (List Char) :=
  ls.filter fun l => !search p l

def record (a b : List Char) : List Char := a ++ ',' :: b

def field2 (l : List Char) : List Char :=
  ((l.dropWhile (· ≠ ',')).drop 1).takeWhile (· ≠ ',')

theorem prefix_of_prefix_record (hp : ',' ∉ p) (h : p <+: record a b) : p <+: a := by
  have hcomma : a ++ [','] <+: record a b := ⟨b, by simp [record]⟩
  rcases prefix_or_prefix_of_prefix h hcomma with hle | hge
  · rcases prefix_concat_iff.mp hle with rfl | hpre
    · exact absurd (mem_append_right a (mem_singleton_self ',')) hp
    · exact hpre
  · exact absurd (hge.subset (mem_append_right a (mem_singleton_self ','))) hp

/-- What has no comma is found in one of the two fields. -/
theorem infix_of_infix_record (hp : ',' ∉ p) (h : p <:+: record a b) : p <:+: a ∨ p <:+: b := by
  induction a with
  | nil =>
    rcases infix_cons_iff.mp h with hpre | hinf
    · exact .inl (prefix_of_prefix_record (a := []) hp hpre).isInfix
    · exact .inr hinf
  | cons x a ih =>
    rcases infix_cons_iff.mp h with hpre | hinf
    · exact .inl (prefix_of_prefix_record (a := x :: a) hp hpre).isInfix
    · exact (ih hinf).imp_left fun ha => ha.trans (suffix_cons x a).isInfix

theorem field2_record (ha : ',' ∉ a) (hb : ',' ∉ b) : field2 (record a b) = b := by
  have hne : ∀ {s : List Char}, ',' ∉ s → ∀ c ∈ s, decide (c ≠ ',') = true := by
    intro s hs c hc
    rw [decide_eq_true_eq]
    rintro rfl
    exact hs hc
  unfold field2 record
  rw [dropWhile_append_of_pos (hne ha), dropWhile_cons_of_neg (by simp), drop_one,
    tail_cons]
  exact takeWhile_eq_self_iff.mpr (hne hb)

/-- What a command substitution makes of printed lines. -/
def output (ls : List (List Char)) : List Char :=
  ((ls.flatMap (· ++ ['\n'])).reverse.dropWhile (· = '\n')).reverse

@[simp] theorem output_nil : output [] = [] := rfl

theorem output_singleton (h : '\n' ∉ l) : output [l] = l := by
  have hne : ∀ c ∈ l.reverse, ¬ decide (c = '\n') = true := by
    intro c hc
    rw [decide_eq_true_eq]
    rintro rfl
    exact h (mem_reverse.mp hc)
  unfold output
  rw [flatMap_singleton, reverse_append, reverse_singleton, singleton_append,
    dropWhile_cons_of_pos (by simp)]
  have hdrop : l.reverse.dropWhile (· = '\n') = l.reverse := by
    cases hl : l.reverse with
    | nil => rfl
    | cons c cs => exact dropWhile_cons_of_neg (hne c (by simp [hl]))
  rw [hdrop, reverse_reverse]

theorem output_append (hne : b ≠ []) (hb : '\n' ∉ b) :
    output (ls ++ [b]) = ls.flatMap (· ++ ['\n']) ++ b := by
  have hdrop : ((ls.flatMap (· ++ ['\n']) ++ b).reverse).dropWhile (· = '\n') =
      (ls.flatMap (· ++ ['\n']) ++ b).reverse := by
    rw [reverse_append]
    cases hr : b.reverse with
    | nil => exact absurd (reverse_eq_nil_iff.mp hr) hne
    | cons c cs =>
      have hc : c ∈ b := by
        rw [← mem_reverse, hr]
        exact mem_cons_self
      refine dropWhile_cons_of_neg ?_
      rw [decide_eq_true_eq]
      rintro rfl
      exact hb hc
  unfold output
  rw [flatMap_append, flatMap_singleton, ← append_assoc, reverse_append,
    reverse_singleton, singleton_append, dropWhile_cons_of_pos (by simp), hdrop,
    reverse_reverse]

theorem output_eq_iff (hls : ∀ x ∈ ls, x ≠ [] ∧ '\n' ∉ x) (hne : l ≠ []) (hl : '\n' ∉ l) :
    output ls = l ↔ ls = [l] := by
  constructor
  · intro heq
    rcases eq_nil_or_concat ls with rfl | ⟨front, b, rfl⟩
    · exact absurd heq.symm hne
    · rw [concat_eq_append] at hls heq ⊢
      obtain ⟨hbne, hb⟩ := hls b (mem_append_right _ (mem_singleton_self b))
      rw [output_append hbne hb] at heq
      cases front with
      | nil => exact congrArg (fun x => [x]) heq
      | cons x front =>
        rw [← heq] at hl
        simp at hl
  · rintro rfl
    exact output_singleton hl

/-- `awk -F',' '!/^#/ && $0 ~ p { print $2 }'` in a command substitution. -/
def lookup (p : List Char) (ls : List (List Char)) : List Char :=
  output ((ls.filter fun l => l.head? != some '#' && search p l).map field2)

end ModemSupport.Lib.Pattern
