import ModemSupport.Lib.Text

/-! Lines of quoted fields, `"key":"value"` with commas between them, and the value that a search
for its key finds in such a line. -/

namespace ModemSupport.Lib.Fields

open Text List

variable {k k' v n s t : List Char} {x : List Char × List Char} {xs : List (List Char × List Char)}

/-- What stands behind the first place of `n` in a text. -/
def after (n s : List Char) : Option (List Char) := (find n s).map Prod.snd

theorem after_append_self : after n (n ++ t) = some t := by
  rw [after, find_append_self]
  rfl

theorem after_cons {c : Char} (h : ¬n <+: c :: s) : after n (c :: s) = after n s := by
  rw [← isPrefixOf_iff_prefix] at h
  rw [after, after, find, if_neg h]
  cases find n s <;> rfl

/-- A text that begins with a quote is not found in a text without quotes. -/
theorem after_append (hs : '"' ∉ s) : after ('"' :: n) (s ++ t) = after ('"' :: n) t := by
  induction s with
  | nil => rfl
  | cons c s ih =>
    rw [mem_cons, not_or] at hs
    rw [cons_append, after_cons, ih hs.2]
    intro hpre
    exact hs.1 (cons_prefix_cons.mp hpre).1

/-- Of two texts with a quote behind them, one begins as the other does only if they agree. -/
theorem eq_of_quoted (hs : '"' ∉ s) (ht : '"' ∉ t) {a b : List Char}
    (h : s ++ '"' :: a <+: t ++ '"' :: b) : s = t ∧ a <+: b := by
  induction s generalizing t with
  | nil =>
    cases t with
    | nil => exact ⟨rfl, (cons_prefix_cons.mp h).2⟩
    | cons d t => exact absurd (mem_cons.mpr (.inl (cons_prefix_cons.mp h).1)) ht
  | cons c s ih =>
    rw [mem_cons, not_or] at hs
    cases t with
    | nil => exact absurd (cons_prefix_cons.mp h).1.symm hs.1
    | cons d t =>
      rw [mem_cons, not_or] at ht
      obtain ⟨rfl, hrest⟩ := cons_prefix_cons.mp h
      obtain ⟨rfl, hab⟩ := ih hs.2 ht.2 hrest
      exact ⟨rfl, hab⟩

def mark (k : List Char) : List Char := '"' :: (k ++ '"' :: ':' :: '"' :: [])

def field (x : List Char × List Char) (rest : List Char) : List Char :=
  mark x.1 ++ (x.2 ++ '"' :: rest)

def others : List (List Char × List Char) → List Char
  | [] => []
  | x :: xs => ',' :: field x (others xs)

def text : List (List Char × List Char) → List Char
  | [] => []
  | x :: xs => field x (others xs)

/-- The text between the mark of a key and the next quote. -/
def value (k s : List Char) : Option (List Char) :=
  (after (mark k) s).bind fun r => (find ['"'] r).map Prod.fst

/-- Texts that have none of the signs between the texts of a field. -/
structure IsKey (k : List Char) : Prop where
  quote : '"' ∉ k
  comma : ',' ∉ k
  colon : ':' ∉ k

theorem value_field (hv : '"' ∉ x.2) : value x.1 (field x s) = some x.2 := by
  rw [value, field, after_append_self, Option.bind_some, find_singleton hv]
  rfl

theorem after_field (hk : IsKey k) (hx : IsKey x.1) (hv : '"' ∉ x.2) (hne : x.1 ≠ k) :
    after (mark k) (field x (others xs)) = after (mark k) (others xs) := by
  have hfirst : ¬mark k <+: field x (others xs) := by
    intro h
    simp only [field, mark, cons_append, append_assoc] at h
    exact hne (eq_of_quoted hk.quote hx.quote (cons_prefix_cons.mp h).2).1.symm
  have hcolon : ¬mark k <+: '"' :: ':' :: '"' :: (x.2 ++ '"' :: others xs) := by
    intro h
    have heq : k = [':'] := (eq_of_quoted hk.quote (show '"' ∉ [':'] by decide)
      (cons_prefix_cons.mp h).2).1
    exact hk.colon (heq ▸ mem_singleton.mpr rfl)
  have hvalue : ¬mark k <+: '"' :: (x.2 ++ '"' :: others xs) := by
    intro h
    have hrest := (eq_of_quoted hk.quote hv (cons_prefix_cons.mp h).2).2
    cases xs with
    | nil => cases prefix_nil.mp hrest
    | cons y ys => cases (cons_prefix_cons.mp hrest).1
  have hclose : ¬mark k <+: '"' :: others xs := by
    intro h
    have hrest := (cons_prefix_cons.mp h).2
    cases xs with
    | nil => exact absurd (prefix_nil.mp hrest) (by simp)
    | cons y ys =>
      have heq : k = [','] := (eq_of_quoted hk.quote (show '"' ∉ [','] by decide) hrest).1
      exact hk.comma (heq ▸ mem_singleton.mpr rfl)
  have hshape : field x (others xs) =
      '"' :: (x.1 ++ '"' :: ':' :: '"' :: (x.2 ++ '"' :: others xs)) := by
    simp only [field, mark, cons_append, append_assoc, nil_append]
  rw [hshape] at hfirst ⊢
  have hskip : after (mark k) (':' :: '"' :: (x.2 ++ '"' :: others xs)) =
      after (mark k) ('"' :: (x.2 ++ '"' :: others xs)) :=
    after_append (s := [':']) (by decide)
  rw [after_cons hfirst, mark, after_append hx.quote, ← mark, after_cons hcolon, hskip,
    after_cons hvalue, mark, after_append hv, ← mark, after_cons hclose]

theorem value_others (hk : IsKey k) (hxs : ∀ x ∈ xs, IsKey x.1 ∧ '"' ∉ x.2) :
    value k (others xs) = (xs.find? fun x => x.1 = k).map Prod.snd := by
  induction xs with
  | nil => rfl
  | cons x xs ih =>
    rw [forall_mem_cons] at hxs
    have hskip : after (mark k) (others (x :: xs)) = after (mark k) (field x (others xs)) :=
      after_append (s := [',']) (by decide)
    rw [value, hskip, ← value]
    by_cases hx : x.1 = k
    · subst hx
      rw [value_field hxs.1.2, List.find?_cons_of_pos (by simp)]
      rfl
    · rw [value, after_field hk hxs.1.1 hxs.1.2 hx, ← value, ih hxs.2,
        List.find?_cons_of_neg (by simpa using hx)]

theorem value_text (hk : IsKey k) (hxs : ∀ x ∈ xs, IsKey x.1 ∧ '"' ∉ x.2) :
    value k (text xs) = (xs.find? fun x => x.1 = k).map Prod.snd := by
  rw [← value_others hk hxs]
  cases xs with
  | nil => rfl
  | cons x xs =>
    have hskip : after (mark k) (others (x :: xs)) = after (mark k) (field x (others xs)) :=
      after_append (s := [',']) (by decide)
    rw [value, value, hskip, text]

theorem find_append_eq_none {c : Char} (hn : n ≠ []) (hc : c ∉ n) (hs : find n s = none)
    (ht : find n t = none) : find n (s ++ c :: t) = none := by
  have hpre : ¬n <+: c :: t := by
    intro h
    cases n with
    | nil => exact hn rfl
    | cons d n => exact hc (mem_cons.mpr (.inl (cons_prefix_cons.mp h).1.symm))
  rw [← isPrefixOf_iff_prefix] at hpre
  rw [find_append_cons hc, hs]
  simp only
  rw [find, if_neg hpre, ht]
  rfl

theorem find_others (hn : IsKey n) (hne : n ≠ [])
    (hxs : ∀ x ∈ xs, find n x.1 = none ∧ find n x.2 = none) : find n (others xs) = none := by
  induction xs with
  | nil => exact if_neg hne
  | cons x xs ih =>
    rw [forall_mem_cons] at hxs
    obtain ⟨⟨hkey, hvalue⟩, hrest⟩ := hxs
    have hnil : find n [] = none := if_neg hne
    have hshape : others (x :: xs) =
        [] ++ ',' :: ([] ++ '"' :: (x.1 ++ '"' :: ([] ++ ':' :: ([] ++ '"' ::
          (x.2 ++ '"' :: others xs))))) := by
      simp only [others, field, mark, cons_append, append_assoc, nil_append]
    rw [hshape]
    apply find_append_eq_none hne hn.comma hnil
    apply find_append_eq_none hne hn.quote hnil
    apply find_append_eq_none hne hn.quote hkey
    apply find_append_eq_none hne hn.colon hnil
    apply find_append_eq_none hne hn.quote hnil
    exact find_append_eq_none hne hn.quote hvalue (ih hrest)

theorem find_text (hn : IsKey n) (hne : n ≠ [])
    (hxs : ∀ x ∈ xs, find n x.1 = none ∧ find n x.2 = none) : find n (text xs) = none := by
  have hothers := find_others hn hne hxs
  cases xs with
  | nil => exact hothers
  | cons x xs =>
    rw [others, find] at hothers
    split at hothers
    next => cases hothers
    next => exact Option.map_eq_none_iff.mp hothers

end ModemSupport.Lib.Fields
