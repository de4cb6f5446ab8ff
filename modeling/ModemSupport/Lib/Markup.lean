import ModemSupport.Lib.Text

/-! Elements of a markup language as text: a tag, attributes with quoted values, and the end of the
element; and where a search for a word stops in it. -/

namespace ModemSupport.Lib.Markup

open Lib.Text List Option

abbrev Str := List Char

def parts (c : Char) : Bool := isspace c || c == '=' || c == '"' || c == '<' || c == '>' || c == '/'

structure IsWord (s : Str) : Prop where
  ne_nil : s ≠ []
  plain : ∀ c ∈ s, parts c = false

structure Attribute where
  space : Str
  name : Str
  value : Str
  space_ne : space ≠ []
  blank : ∀ c ∈ space, isspace c = true
  name_word : IsWord name
  value_plain : '"' ∉ value

def Attribute.text (a : Attribute) : Str := a.space ++ a.name ++ '=' :: '"' :: (a.value ++ ['"'])

def text (as : List Attribute) : Str := as.flatMap Attribute.text

theorem blank_ne_nil : [' '] ≠ [] := cons_ne_nil ' ' []

theorem blank_isspace : ∀ c ∈ [' '], isspace c = true := by
  intro c hc
  rw [mem_singleton.mp hc]
  rfl

def named (name value : Str) (hname : IsWord name) (hvalue : '"' ∉ value) : Attribute :=
  ⟨[' '], name, value, blank_ne_nil, blank_isspace, hname, hvalue⟩

structure End where
  text : Str
  plain : ∀ c ∈ text, isspace c = true ∨ c = '/' ∨ c = '>'

def lookup (k : Str) (as : List Attribute) : Option Str :=
  (as.find? (·.name = k)).map (·.value)

def Attribute.set (a : Attribute) (v : Str) (hv : '"' ∉ v) : Attribute :=
  { a with value := v, value_plain := hv }

def setValue (k v : Str) (hv : '"' ∉ v) (as : List Attribute) : List Attribute :=
  as.map fun a => if a.name = k then a.set v hv else a

def Distinct (as : List Attribute) : Prop := (as.map (·.name)).Nodup

variable {a : Attribute} {as : List Attribute} {k s t v : Str} {c : Char} {tail : End}

theorem IsWord.notMem (h : IsWord k) (hc : parts c = true) : c ∉ k := by
  intro hmem
  rw [h.plain c hmem] at hc
  cases hc

theorem IsWord.of_all (h : (!s.isEmpty && s.all fun c => !parts c) = true) : IsWord s := by
  rw [Bool.and_eq_true, List.all_eq_true] at h
  refine ⟨fun hnil => ?_, fun c hc => by simpa using h.2 c hc⟩
  subst hnil
  cases h.1

theorem parts_of_isspace (h : isspace c = true) : parts c = true := by
  rw [parts, h]
  rfl

theorem find_cons_of_notMem (hk : k ≠ []) (hc : c ∉ k) :
    find k (c :: s) = (find k s).map fun r => (c :: r.1, r.2) := by
  have hpre : ¬ k.isPrefixOf (c :: s) := by
    intro hp
    obtain ⟨d, k, rfl⟩ := exists_cons_of_ne_nil hk
    rw [List.isPrefixOf_iff_prefix, cons_prefix_cons] at hp
    exact hc (hp.1 ▸ mem_cons_self)
  rw [find, if_neg hpre]

theorem find_append_of_notMem (hk : k ≠ []) (h : ∀ c ∈ s, c ∉ k) :
    find k (s ++ t) = (find k t).map fun r => (s ++ r.1, r.2) := by
  induction s with
  | nil =>
    rw [nil_append]
    cases find k t <;> rfl
  | cons c s ih =>
    rw [cons_append, find_cons_of_notMem hk (h c mem_cons_self),
      ih fun d hd => h d (mem_cons_of_mem _ hd), Option.map_map]
    rfl

theorem find_of_notMem (hk : k ≠ []) (h : ∀ c ∈ s, c ∉ k) : find k s = none := by
  have hnil : find k [] = none := by rw [find, if_neg hk]
  have hfind := find_append_of_notMem (t := []) hk h
  rwa [append_nil, hnil] at hfind

theorem notMem_of_find (h : find [c] s = some (t, v)) : c ∉ t := by
  induction s generalizing t with
  | nil => cases h
  | cons d s ih =>
    rw [find] at h
    split at h
    next =>
      cases h
      exact not_mem_nil
    next hne =>
      obtain ⟨⟨t', v'⟩, hfind, heq⟩ := map_eq_some_iff.mp h
      cases heq
      have hcd : c ≠ d := fun hcd => hne (by simp [hcd])
      exact not_mem_cons_of_ne_of_not_mem hcd (ih hfind)

theorem find_space (hk : IsWord k) :
    find k (a.space ++ t) = (find k t).map fun r => (a.space ++ r.1, r.2) :=
  find_append_of_notMem hk.ne_nil fun c hc => hk.notMem (parts_of_isspace (a.blank c hc))

theorem find_end (hk : IsWord k) : find k tail.text = none := by
  apply find_of_notMem hk.ne_nil
  intro c hc
  apply hk.notMem
  obtain h | rfl | rfl := tail.plain c hc
  · exact parts_of_isspace h
  · rfl
  · rfl

theorem find_attribute (hk : IsWord k) :
    find k (a.text ++ t) =
      match find k a.name with
      | some r => some (a.space ++ r.1, r.2 ++ '=' :: '"' :: (a.value ++ '"' :: t))
      | none =>
        match find k a.value with
        | some r => some (a.space ++ a.name ++ '=' :: '"' :: r.1, r.2 ++ '"' :: t)
        | none => (find k t).map fun r => (a.text ++ r.1, r.2) := by
  have htext : a.text ++ t = (a.space ++ a.name) ++ '=' :: '"' :: (a.value ++ '"' :: t) := by
    simp [Attribute.text]
  have hequal : '=' ∉ k := hk.notMem rfl
  have hquote : '"' ∉ k := hk.notMem rfl
  rw [htext, find_append_cons hequal, find_space hk]
  cases find k a.name with
  | some r => rfl
  | none =>
    rw [map_none, find_cons_of_notMem hk.ne_nil hequal,
      find_cons_of_notMem hk.ne_nil hquote, find_append_cons hquote]
    cases find k a.value with
    | some r => simp
    | none =>
      rw [find_cons_of_notMem hk.ne_nil hquote]
      cases find k t with
      | none => rfl
      | some r => simp [Attribute.text]

theorem lookup_cons : lookup k (a :: as) = if a.name = k then some a.value else lookup k as := by
  rw [lookup, List.find?_cons]
  split <;> simp_all [lookup]

theorem exists_of_lookup (h : lookup k as = some v) : ∃ a ∈ as, a.name = k ∧ a.value = v := by
  obtain ⟨a, ha, rfl⟩ := map_eq_some_iff.mp h
  exact ⟨a, List.mem_of_find?_eq_some ha, by simpa using List.find?_some ha, rfl⟩

theorem setValue_cons {hv : '"' ∉ v} :
    setValue k v hv (a :: as) = (if a.name = k then a.set v hv else a) :: setValue k v hv as := rfl

theorem setValue_of_notMem {hv : '"' ∉ v} (h : k ∉ as.map (·.name)) : setValue k v hv as = as := by
  induction as with
  | nil => rfl
  | cons a as ih =>
    rw [map_cons, mem_cons, not_or] at h
    rw [setValue_cons, if_neg (Ne.symm h.1), ih h.2]

theorem map_name_setValue {hv : '"' ∉ v} : (setValue k v hv as).map (·.name) = as.map (·.name) := by
  rw [setValue, List.map_map]
  apply map_congr_left
  intro a _
  rw [Function.comp_apply]
  split <;> rfl

theorem Distinct.setValue {hv : '"' ∉ v} (h : Distinct as) : Distinct (setValue k v hv as) := by
  rw [Distinct, map_name_setValue]
  exact h

theorem text_cons : text (a :: as) = a.text ++ text as := rfl

theorem text_setValue_iff {hv : '"' ∉ v} (hd : Distinct as) :
    text (setValue k v hv as) = text as ↔ lookup k as = none ∨ lookup k as = some v := by
  induction as with
  | nil => exact iff_of_true rfl (.inl rfl)
  | cons a as ih =>
    obtain ⟨hnot, hd⟩ := nodup_cons.mp hd
    rw [setValue_cons, lookup_cons, text_cons, text_cons]
    by_cases hname : a.name = k
    · rw [if_pos hname, if_pos hname, setValue_of_notMem (hname ▸ hnot),
        append_cancel_right_eq]
      simp [Attribute.text, Attribute.set, eq_comm]
    · rw [if_neg hname, if_neg hname, append_cancel_left_eq, ih hd]

theorem quote_notMem_end : '"' ∉ tail.text := by
  intro h
  obtain h | h | h := tail.plain _ h
  · cases h
  · cases h
  · cases h

theorem quote_notMem_front : '"' ∉ a.space ++ a.name ++ ['='] := by
  simp only [mem_append, mem_singleton, not_or]
  refine ⟨⟨fun h => ?_, a.name_word.notMem rfl⟩, by decide⟩
  cases a.blank _ h

theorem text_eq_front :
    a.text ++ t = (a.space ++ a.name ++ ['=']) ++ '"' :: (a.value ++ '"' :: t) := by
  simp [Attribute.text]

theorem split_quote {u w : Str} (hs : '"' ∉ s) (hu : '"' ∉ u)
    (h : s ++ '"' :: t = u ++ '"' :: w) : s = u ∧ t = w := by
  have hfind := find_singleton (b := t) hs
  rw [h, find_singleton hu, some.injEq, Prod.mk.injEq] at hfind
  exact ⟨hfind.1.symm, hfind.2.symm⟩

theorem exists_split_quote (h : '"' ∈ s) : ∃ t v, s = t ++ '"' :: v ∧ '"' ∉ t := by
  obtain ⟨t, v, hfind⟩ := exists_find_singleton h
  exact ⟨t, v, append_of_find hfind, notMem_of_find hfind⟩

theorem suffix_name_iff (hk : IsWord k) : k <:+ s ++ (a.space ++ a.name) ↔ k <:+ a.name := by
  constructor
  · intro h
    obtain h | h := suffix_or_suffix_of_suffix h
        (show a.name <:+ s ++ (a.space ++ a.name) from ⟨s ++ a.space, append_assoc ..⟩)
    · exact h
    · obtain ⟨u, rfl⟩ := h
      rcases eq_nil_or_concat' u with rfl | ⟨u, c, rfl⟩
      · exact suffix_refl _
      · exfalso
        obtain ⟨space, d, hspace⟩ :=
          (eq_nil_or_concat' a.space).resolve_left a.space_ne
        obtain ⟨p, hp⟩ := h
        rw [hspace] at hp
        have hlast : c = d := by
          have hname : p ++ u ++ [c] ++ a.name = s ++ space ++ [d] ++ a.name := by simpa using hp
          have heq : p ++ u ++ [c] = s ++ space ++ [d] := append_cancel_right hname
          exact (append_inj' heq rfl).2 |> singleton_inj.mp
        have hblank := a.blank d (by simp [hspace])
        have hplain := hk.plain c (by simp)
        rw [hlast, parts_of_isspace hblank] at hplain
        cases hplain
  · exact fun h => h.trans ⟨s ++ a.space, append_assoc ..⟩

theorem exists_value_iff {w : Str} (tail : End) (hk : IsWord k) (hw : IsWord w) (hs : '"' ∉ s) :
    (∃ p q, s ++ (text as ++ tail.text) = p ++ (k ++ '=' :: '"' :: (w ++ '"' :: q))) ↔
      ∃ a ∈ as, k <:+ a.name ∧ a.value = w := by
  induction as generalizing s with
  | nil =>
    refine iff_of_false ?_ (by simp)
    rintro ⟨p, q, h⟩
    have hmem : '"' ∈ s ++ tail.text := by
      have h' : s ++ tail.text = p ++ (k ++ '=' :: '"' :: (w ++ '"' :: q)) := h
      rw [h']
      simp
    obtain hmem | hmem := mem_append.mp hmem
    · exact hs hmem
    · exact quote_notMem_end hmem
  | cons a as ih =>
    have hfront : '"' ∉ s ++ (a.space ++ a.name ++ ['=']) := by
      rw [mem_append, not_or]
      exact ⟨hs, quote_notMem_front⟩
    have htext : s ++ (text (a :: as) ++ tail.text) = (s ++ (a.space ++ a.name ++ ['='])) ++
        '"' :: (a.value ++ '"' :: (text as ++ tail.text)) := by
      rw [text_cons, append_assoc, text_eq_front]
      simp
    rw [htext, exists_mem_cons_iff]
    constructor
    · rintro ⟨p, q, h⟩
      have hequal : '"' ∉ k ++ ['='] := by
        rw [mem_append, not_or]
        exact ⟨hk.notMem rfl, by decide⟩
      by_cases hp : '"' ∈ p
      · obtain ⟨p₁, p₂, rfl, hp₁⟩ := exists_split_quote hp
        rw [append_assoc p₁, cons_append] at h
        obtain ⟨-, h⟩ := split_quote hfront hp₁ h
        right
        by_cases hp₂ : '"' ∈ p₂
        · obtain ⟨p₃, p₄, rfl, hp₃⟩ := exists_split_quote hp₂
          rw [append_assoc p₃, cons_append] at h
          obtain ⟨-, h⟩ := split_quote a.value_plain hp₃ h
          exact (ih (s := []) not_mem_nil).mp ⟨p₄, q, h⟩
        · exfalso
          have hplain : '"' ∉ p₂ ++ (k ++ ['=']) := by
            rw [mem_append, not_or]
            exact ⟨hp₂, hequal⟩
          have h' : a.value ++ '"' :: (text as ++ tail.text) =
              (p₂ ++ (k ++ ['='])) ++ '"' :: (w ++ '"' :: q) := by
            rw [h]
            simp
          obtain ⟨-, h⟩ := split_quote a.value_plain hplain h'
          cases as with
          | nil =>
            have hmem : '"' ∈ tail.text := by
              have h'' : tail.text = w ++ '"' :: q := h
              rw [h'']
              simp
            exact quote_notMem_end hmem
          | cons b as =>
            rw [text_cons, append_assoc, text_eq_front] at h
            have hmem : '=' ∈ w := by
              rw [← (split_quote quote_notMem_front (hw.notMem rfl) h).1]
              simp
            exact hw.notMem rfl hmem
      · left
        have hplain : '"' ∉ p ++ (k ++ ['=']) := by
          rw [mem_append, not_or]
          exact ⟨hp, hequal⟩
        have h' : s ++ (a.space ++ a.name ++ ['=']) ++
            '"' :: (a.value ++ '"' :: (text as ++ tail.text)) =
            (p ++ (k ++ ['='])) ++ '"' :: (w ++ '"' :: q) := by
          rw [h]
          simp
        obtain ⟨hname, hvalue⟩ := split_quote hfront hplain h'
        have hequal' : s ++ (a.space ++ a.name) ++ ['='] = p ++ k ++ ['='] := by simpa using hname
        have hname : s ++ (a.space ++ a.name) = p ++ k := append_cancel_right hequal'
        exact ⟨(suffix_name_iff hk).mp ⟨p, hname.symm⟩,
          (split_quote a.value_plain (hw.notMem rfl) hvalue).1⟩
    · rintro (⟨⟨u, hu⟩, rfl⟩ | h)
      · exact ⟨s ++ (a.space ++ u), text as ++ tail.text, by rw [← hu]; simp⟩
      · obtain ⟨p, q, h⟩ := (ih (s := []) not_mem_nil).mpr h
        rw [nil_append] at h
        exact ⟨s ++ (a.space ++ a.name ++ ['=']) ++ '"' :: (a.value ++ '"' :: p), q, by
          rw [h]; simp⟩

variable {n : Str} {d : Char}

theorem find_append_of_head (hn : n.head? = some d) (h : d ∉ s) :
    find n (s ++ t) = (find n t).map fun r => (s ++ r.1, r.2) := by
  induction s with
  | nil =>
    rw [nil_append]
    cases find n t <;> rfl
  | cons c s ih =>
    rw [mem_cons, not_or] at h
    have hpre : ¬ n.isPrefixOf (c :: (s ++ t)) := by
      intro hp
      rw [List.isPrefixOf_iff_prefix] at hp
      obtain ⟨n, rfl⟩ : ∃ n', n = d :: n' := List.head?_eq_some_iff.mp hn
      exact h.1 (cons_prefix_cons.mp hp).1
    rw [cons_append, find, if_neg hpre, ih h.2, Option.map_map]
    rfl

theorem find_of_head_notMem (hn : n.head? = some d) (h : d ∉ s) : find n s = none := by
  have hfind := find_append_of_head (t := []) hn h
  have hnil : find n [] = none := by
    rw [find, if_neg]
    rintro rfl
    cases hn
  rwa [append_nil, hnil] at hfind

/-- A mark that begins with a character is in front of it or behind. -/
theorem find_append_head (hn : n.head? = some d) (hd : d ∉ n.tail) :
    find n (s ++ d :: t) =
      match find n s with
      | some r => some (r.1, r.2 ++ d :: t)
      | none => (find n (d :: t)).map fun r => (s ++ r.1, r.2) := by
  have hne : n ≠ [] := by
    rintro rfl
    cases hn
  induction s with
  | nil =>
    rw [nil_append, find, if_neg hne]
    cases find n (d :: t) <;> rfl
  | cons x s ih =>
    have hpre : n.isPrefixOf (x :: (s ++ d :: t)) = n.isPrefixOf (x :: s) := by
      rw [Bool.eq_iff_iff, isPrefixOf_iff_prefix, isPrefixOf_iff_prefix]
      constructor
      · intro hp
        refine prefix_of_prefix_length_le hp ⟨d :: t, by simp⟩ ?_
        -- A longer mark would have its first character again.
        by_contra hlong
        obtain ⟨n, rfl⟩ : ∃ n', n = d :: n' := List.head?_eq_some_iff.mp hn
        have hp' := (cons_prefix_cons.mp hp).2
        have hle : (s ++ [d]).length ≤ n.length := by
          simp only [length_append, length_cons, length_nil] at hlong ⊢
          omega
        have hmem := prefix_of_prefix_length_le
          (show s ++ [d] <+: s ++ d :: t from ⟨t, by simp⟩) hp' hle
        exact hd (hmem.subset (by simp))
      · exact fun hp => hp.trans ⟨d :: t, by simp⟩
    rw [cons_append, find, hpre, find, ih]
    split
    next hp =>
      have hle : n.length ≤ (x :: s).length := (List.isPrefixOf_iff_prefix.mp hp).length_le
      simp only [some.injEq, Prod.mk.injEq, true_and]
      rw [← cons_append, drop_append_of_le_length hle]
    next =>
      cases find n s with
      | some r => rfl
      | none => cases find n (d :: t) <;> rfl

/-- More text behind a place has no part in it. -/
theorem find_append_of_some {r : Str × Str} (h : find n s = some r) :
    find n (s ++ t) = some (r.1, r.2 ++ t) := by
  obtain ⟨p, q⟩ := r
  have hs := append_of_find h
  rw [hs] at h ⊢
  have hcongr := find_congr h (q ++ t)
  rw [append_assoc, append_assoc, hcongr]

theorem find_isSome_iff (hn : n ≠ []) : (find n s).isSome = true ↔ n <:+: s := by
  constructor
  · intro h
    obtain ⟨⟨p, q⟩, hfind⟩ := isSome_iff_exists.mp h
    exact ⟨p, q, by rw [append_of_find hfind, append_assoc]⟩
  · rintro ⟨p, q, rfl⟩
    obtain ⟨p', q', hfind, -⟩ := exists_find (a := p) (b := q) hn
    rw [append_assoc, hfind]
    rfl

end ModemSupport.Lib.Markup
