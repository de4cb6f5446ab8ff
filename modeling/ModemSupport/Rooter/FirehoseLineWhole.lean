import ModemSupport.Rooter.FirehoseLine

/-! Which elements `fh_parse_xml_line` records as they are, and which values are set in their text:
those whose keys stand first in their own names. -/

namespace ModemSupport.Rooter.FirehoseLine

open Lib.Text Lib.Markup Firehose List Option

variable {a : Attribute} {as : List Attribute} {k q s t v line : Str} {tail : End} {e : Element}
  {n : Nat}

theorem head?_ne_quote : ∀ c ∈ (text as ++ tail.text).head?, c ≠ '"' ∧ c ≠ '=' := by
  intro c hc
  cases as with
  | nil =>
    obtain h | rfl | rfl := tail.plain c (List.mem_of_mem_head? hc)
    · constructor <;> rintro rfl <;> cases h
    · decide
    · decide
  | cons a as =>
    obtain ⟨d, space, hspace⟩ := exists_cons_of_ne_nil a.space_ne
    rw [text_cons, Attribute.text, hspace] at hc
    obtain rfl : d = c := by simpa using hc
    have hblank := a.blank d (hspace ▸ mem_cons_self)
    constructor <;> rintro rfl <;> cases hblank

theorem after_value_cases (as : List Attribute) (tail : End) (hq : '"' ∉ q) :
    behind q as = none ∧ after (q ++ '"' :: (text as ++ tail.text)) = none ∨
      (∃ c a as', q = [c] ∧ as = a :: as' ∧ after (q ++ '"' :: (text as ++ tail.text)) =
        some ([c, '"'], a.space ++ a.name ++ ['='],
          '"' :: (a.value ++ '"' :: (text as' ++ tail.text)))) ∨
      ∃ c q', q = '=' :: c :: q' ∧ after (q ++ '"' :: (text as ++ tail.text)) =
        some (['=', c], q', '"' :: (text as ++ tail.text)) := by
  rcases q with _ | ⟨c₀, _ | ⟨c₁, q⟩⟩
  · refine .inl ⟨rfl, after_eq_none ?_ ?_⟩
    · rintro c ⟨⟩
      decide
    · exact fun c hc => (head?_ne_quote c hc).1
  · rw [singleton_append, after, if_neg (by simp)]
    cases as with
    | nil =>
      refine .inl ⟨rfl, ?_⟩
      rw [text, flatMap_nil, nil_append,
        find_of_notMem (cons_ne_nil _ _) fun c hc hmem =>
        quote_notMem_end (mem_singleton.mp hmem ▸ hc)]
      rfl
    | cons a as =>
      refine .inr (.inl ⟨c₀, a, as, rfl, rfl, ?_⟩)
      rw [text_cons, append_assoc, text_eq_front, find_singleton quote_notMem_front]
      rfl
  · have hc₁ : c₁ ≠ '"' := fun h => hq (by simp [h])
    rw [cons_append, cons_append, after]
    by_cases hc₀ : c₀ = '='
    · subst hc₀
      refine .inr (.inr ⟨c₁, q, rfl, ?_⟩)
      rw [if_neg (by simp), find_singleton fun h => hq (by simp [h])]
      rfl
    · rw [if_pos ⟨hc₀, hc₁⟩]
      exact .inl ⟨by simp [behind, hc₀], rfl⟩

theorem after_word (hq : IsWord q) : after (q ++ '=' :: t) = none := by
  obtain ⟨c, q, rfl⟩ := exists_cons_of_ne_nil hq.ne_nil
  have hc : ∀ d ∈ c :: q, d ≠ '=' ∧ d ≠ '"' := fun d hd => 
    ⟨fun h => hq.notMem (c := '=') rfl (h ▸ hd), fun h => hq.notMem (c := '"') rfl (h ▸ hd)⟩
  apply after_eq_none
  · rintro d ⟨⟩
    exact (hc c mem_cons_self).1
  · intro d hd
    cases q with
    | nil => 
      obtain rfl : '=' = d := by simpa using hd
      decide
    | cons c' q =>
      obtain rfl : c' = d := by simpa using hd
      exact (hc c' (by simp)).2

theorem IsWord.of_append (h : IsWord (s ++ (k ++ q))) (hq : q ≠ []) : IsWord q :=
  ⟨hq, fun c hc => h.plain c (by simp [hc])⟩

/-- What is found in a text, beside the text with another value for the key: the place of its own
value, or one in front of it. -/
structure Splits (k line line' s : Str) (own : Prop) (v : Str) : Prop where
  split : ∃ p t, fhXmlFindValue line k = some (p, s, '"' :: t) ∧ line = p ++ (s ++ '"' :: t) ∧
    (own → line' = p ++ (v ++ '"' :: t)) ∧ (¬ own → ∃ t', line' = p ++ (s ++ '"' :: t'))
  plain : '"' ∉ s

theorem Splits.append {own : Prop} {line' : Str} (h : Splits k line line' s own v)
    (hfind : find k (t ++ line) = (find k line).map fun r => (t ++ r.1, r.2)) :
    Splits k (t ++ line) (t ++ line') s own v := by
  obtain ⟨⟨p, u, hvalue, hline, hown, hother⟩, hplain⟩ := h
  refine ⟨⟨t ++ p, u, ?_, ?_, ?_, ?_⟩, hplain⟩
  · rw [fhXmlFindValue_append hfind, hvalue]
    rfl
  · rw [hline, append_assoc]
  · intro h
    rw [hown h, append_assoc]
  · intro h
    obtain ⟨t', ht'⟩ := hother h
    exact ⟨t', by rw [ht', append_assoc]⟩

theorem found_of_name {p : Str} (h : find k a.name = some (p, q)) :
    found k (a :: as) = if q = [] then some a.value else none := by
  rw [found, h]

theorem found_of_value {p : Str} (h : find k a.name = none) (h' : find k a.value = some (p, q)) :
    found k (a :: as) = behind q as := by
  rw [found, h, h']

theorem found_spec (tail : End) (hk : IsWord k) (hd : Distinct as) (hv : '"' ∉ v) :
    match found k as with
    | none => fhXmlFindValue (text as ++ tail.text) k = none
    | some s => Splits k (text as ++ tail.text) (text (setValue k v hv as) ++ tail.text) s
        (Own k as) v := by
  induction as with
  | nil =>
    show fhXmlFindValue tail.text k = none
    rw [fhXmlFindValue_eq, find_end hk]
    rfl
  | cons a as ih =>
    obtain ⟨hnot, hd⟩ := nodup_cons.mp hd
    have hfind := find_attribute (a := a) (t := text as ++ tail.text) hk
    cases hname : find k a.name with
    | some r =>
      obtain ⟨p, q⟩ := r
      have hsplit := append_of_find hname
      have hown : Own k (a :: as) ↔ a.name = k := by
        rw [Own, hname]
        simp
      rw [hname] at hfind
      rw [found_of_name hname]
      by_cases hq : q = []
      · subst hq
        rw [append_nil] at hsplit
        rw [text_cons, setValue_cons, append_assoc, hown]
        refine ⟨⟨a.space ++ a.name ++ ['=', '"'], text as ++ tail.text, ?_, ?_, ?_, ?_⟩,
          a.value_plain⟩
        · rw [fhXmlFindValue_eq, hfind]
          show (after ('=' :: '"' :: (a.value ++ '"' :: (text as ++ tail.text)))).map _ = _
          rw [after_equal a.value_plain, hsplit]
          simp
        · simp [Attribute.text]
        · intro h
          rw [if_pos h, setValue_of_notMem (h ▸ hnot), text_cons]
          simp [Attribute.text, Attribute.set]
        · intro h
          exact ⟨text (setValue k v hv as) ++ tail.text, by
            rw [if_neg h, text_cons]
            simp [Attribute.text]⟩
      · rw [if_neg hq, text_cons, append_assoc, fhXmlFindValue_eq, hfind]
        show (after (q ++ '=' :: _)).map _ = _
        rw [after_word (IsWord.of_append (hsplit ▸ a.name_word) hq)]
        rfl
    | none =>
      have hne : a.name ≠ k := by
        rintro rfl
        have hself := find_append_self (n := a.name) (b := [])
        rw [append_nil, hname] at hself
        cases hself
      rw [hname] at hfind
      rw [text_cons, setValue_cons, if_neg hne, text_cons, append_assoc, append_assoc]
      cases hvalue : find k a.value with
      | some r =>
        obtain ⟨p, q⟩ := r
        have hsplit := append_of_find hvalue
        have hown : ¬ Own k (a :: as) := by
          rw [Own, hname, hvalue]
          simp [hne]
        have hq : '"' ∉ q := fun h => a.value_plain (by simp [hsplit, h])
        rw [hvalue] at hfind
        rw [found_of_value hname hvalue]
        have hline : ∀ t, a.text ++ t =
            a.space ++ (a.name ++ '=' :: '"' :: (p ++ (k ++ (q ++ '"' :: t)))) := fun t => by
          simp [Attribute.text, hsplit]
        obtain ⟨hbehind, hafter⟩ | ⟨c, b, as', rfl, rfl, hafter⟩ | ⟨c, q', rfl, hafter⟩ :=
          after_value_cases as tail hq
        · rw [hbehind]
          show fhXmlFindValue _ k = none
          rw [fhXmlFindValue_eq, hfind]
          show (after (q ++ '"' :: _)).map _ = _
          rw [hafter]
          rfl
        · show Splits _ _ _ (b.space ++ b.name ++ ['=']) _ _
          rw [hline, hline]
          refine ⟨⟨a.space ++ a.name ++ '=' :: '"' :: (p ++ k ++ [c, '"']),
            b.value ++ '"' :: (text as' ++ tail.text), ?_, ?_, fun h => (hown h).elim, fun _ => ?_⟩,
            quote_notMem_front⟩
          · rw [← hline, fhXmlFindValue_eq, hfind]
            show (after ([c] ++ '"' :: _)).map _ = _
            rw [hafter]
            simp
          · simp [text_cons, Attribute.text]
          · rw [setValue_cons]
            split
            · exact ⟨v ++ '"' :: (text (setValue k v hv as') ++ tail.text), by
                simp [text_cons, Attribute.text, Attribute.set]⟩
            · exact ⟨b.value ++ '"' :: (text (setValue k v hv as') ++ tail.text), by
                simp [text_cons, Attribute.text]⟩
        · show Splits _ _ _ q' _ _
          rw [hline, hline]
          refine ⟨⟨a.space ++ a.name ++ '=' :: '"' :: (p ++ k ++ ['=', c]),
            text as ++ tail.text, ?_, ?_, fun h => (hown h).elim, fun _ => ?_⟩,
            fun h => hq (by simp [h])⟩
          · rw [← hline, fhXmlFindValue_eq, hfind]
            show (after ('=' :: c :: q' ++ '"' :: _)).map _ = _
            rw [hafter]
            simp
          · simp
          · exact ⟨text (setValue k v hv as) ++ tail.text, by simp⟩
      | none =>
        rw [hvalue] at hfind
        rw [found, hname, hvalue]
        have hown : Own k (a :: as) ↔ Own k as := by
          rw [Own, hname, hvalue]
          simp [hne]
        have ih := ih hd
        cases hfound : found k as with
        | none =>
          rw [hfound] at ih
          show fhXmlFindValue _ k = none
          rw [fhXmlFindValue_append hfind, ih]
          rfl
        | some s =>
          rw [hfound] at ih
          show Splits _ _ _ _ _ _
          rw [hown]
          exact ih.append hfind

theorem parts_of_head? (e : Element) : ∀ c ∈ e.rest.head?, parts c = true := by
  intro c hc
  rw [Element.rest] at hc
  cases has : e.attributes with
  | nil =>
    rw [has] at hc
    obtain h | rfl | rfl := e.tail.plain c (List.mem_of_mem_head? hc)
    · exact parts_of_isspace h
    · rfl
    · rfl
  | cons a as =>
    obtain ⟨d, space, hspace⟩ := exists_cons_of_ne_nil a.space_ne
    rw [has, text_cons, Attribute.text, hspace] at hc
    obtain rfl : d = c := by simpa using hc
    exact parts_of_isspace (a.blank d (hspace ▸ mem_cons_self))

theorem rest_second (e : Element) : ∀ c ∈ e.rest.tail.head?, c ≠ '"' := by
  intro c hc
  rw [Element.rest] at hc
  cases has : e.attributes with
  | nil =>
    rw [has] at hc
    rintro rfl
    exact quote_notMem_end (mem_of_mem_tail (List.mem_of_mem_head? hc))
  | cons a as =>
    obtain ⟨d, space, hspace⟩ := exists_cons_of_ne_nil a.space_ne
    have hfront := quote_notMem_front (a := a)
    rw [has, text_cons, append_assoc, text_eq_front, hspace] at hc
    rw [hspace] at hfront
    rintro rfl
    apply hfront
    have hmem : '"' ∈ (space ++ a.name ++ ['=']).head? := by
      cases space <;> simp_all [List.head?_append]
    exact mem_cons_of_mem _ (List.mem_of_mem_head? hmem)

theorem find_line (hk : IsWord k) :
    find k e.line =
      match find k e.tag with
      | some r => some ('<' :: r.1, r.2 ++ e.rest)
      | none => (find k e.rest).map fun r => ('<' :: e.tag ++ r.1, r.2) := by
  have hless : '<' ∉ k := hk.notMem rfl
  rw [Element.line, find_cons_of_notMem hk.ne_nil hless]
  cases hrest : e.rest with
  | nil =>
    have hnil : find k [] = none := by rw [find, if_neg hk.ne_nil]
    rw [append_nil, hnil]
    cases find k e.tag <;> simp
  | cons c t =>
    have hc : c ∉ k := hk.notMem (parts_of_head? e c (by rw [hrest]; rfl))
    rw [find_append_cons hc]
    cases find k e.tag with
    | some r => rfl
    | none =>
      show ((find k (c :: t)).map _).map _ = _
      rw [Option.map_map]
      rfl

theorem Element.found_spec (e : Element) (hk : IsWord k) (hv : '"' ∉ v) :
    match e.found k with
    | none => fhXmlFindValue e.line k = none
    | some s => Splits k e.line (e.set k v hv).line s (e.Own k) v := by
  have hfind := find_line (e := e) hk
  rw [Element.found]
  cases htag : find k e.tag with
  | some r =>
    obtain ⟨p, q⟩ := r
    rw [htag] at hfind
    have hsplit := append_of_find htag
    show fhXmlFindValue e.line k = none
    rw [fhXmlFindValue_eq, hfind]
    show (after (q ++ e.rest)).map _ = none
    have hplain : ∀ c ∈ q, parts c = false := fun c hc => e.tag_word.plain c (by simp [hsplit, hc])
    have hafter : after (q ++ e.rest) = none := by
      have hq : ∀ c ∈ q, c ≠ '=' ∧ c ≠ '"' := by
        intro c hc
        constructor <;> rintro rfl <;> cases hplain _ hc
      rcases q with _ | ⟨c₀, _ | ⟨c₁, q⟩⟩
      · exact after_eq_none (fun c hc => (head?_ne_quote c hc).2) (rest_second e)
      · apply after_eq_none
        · rintro c ⟨⟩
          exact (hq c₀ mem_cons_self).1
        · exact fun c hc => (head?_ne_quote c hc).1
      · apply after_eq_none
        · rintro c ⟨⟩
          exact (hq c₀ mem_cons_self).1
        · rintro c ⟨⟩
          exact (hq c₁ (by simp)).2
    rw [hafter]
    rfl
  | none =>
    rw [htag] at hfind
    have hprefix : find k (('<' :: e.tag) ++ e.rest) =
        (find k e.rest).map fun r => ('<' :: e.tag ++ r.1, r.2) := hfind
    have hspec := FirehoseLine.found_spec e.tail hk e.distinct hv
    have hown : e.Own k ↔ FirehoseLine.Own k e.attributes := by
      rw [Element.Own, htag]
      exact and_iff_right rfl
    show match FirehoseLine.found k e.attributes with
      | none => fhXmlFindValue e.line k = none
      | some s => Splits k e.line (e.set k v hv).line s (e.Own k) v
    rw [hown]
    cases hfound : FirehoseLine.found k e.attributes with
    | none =>
      rw [hfound] at hspec
      show fhXmlFindValue (('<' :: e.tag) ++ e.rest) k = none
      rw [fhXmlFindValue_append hprefix, Element.rest, hspec]
      rfl
    | some s =>
      rw [hfound] at hspec
      exact Splits.append (t := '<' :: e.tag) hspec hprefix

theorem lookup_of_own (h : Own k as) : found k as = lookup k as := by
  induction as with
  | nil => exact h.elim
  | cons a as ih =>
    rw [lookup_cons]
    obtain rfl | ⟨hname, hvalue, h⟩ := h
    · have hself := find_append_self (n := a.name) (b := [])
      rw [append_nil] at hself
      rw [if_pos rfl, found_of_name hself, if_pos rfl]
    · have hne : a.name ≠ k := by
        rintro rfl
        have hself := find_append_self (n := a.name) (b := [])
        rw [append_nil, hname] at hself
        cases hself
      rw [if_neg hne, found, hname, hvalue]
      exact ih h

theorem exists_lookup_of_own (h : Own k as) : ∃ s, lookup k as = some s := by
  induction as with
  | nil => exact h.elim
  | cons a as ih =>
    rw [lookup_cons]
    split
    · exact ⟨_, rfl⟩
    · next hne => exact ih (h.resolve_left hne).2.2

def chopNewline (s : Str) : Str := if s.getLast? = some '\n' then s.dropLast else s

theorem chopNewline_subset : chopNewline s ⊆ s := by
  rw [chopNewline]
  split
  · exact fun c hc => mem_of_mem_dropLast hc
  · exact List.Subset.refl s

def Element.chop (e : Element) : Element :=
  { e with
    tail := ⟨chopNewline e.tail.text, fun c hc => e.tail.plain c (chopNewline_subset hc)⟩ }

theorem getLast?_line (e : Element) :
    e.line.getLast? = some '\n' ↔ e.tail.text.getLast? = some '\n' := by
  have hfront : ('<' :: (e.tag ++ text e.attributes)).getLast? ≠ some '\n' := by
    rcases eq_nil_or_concat' e.attributes with has | ⟨as, a, has⟩
    · intro h
      have hmem := List.mem_of_getLast? h
      rw [has, text, flatMap_nil, append_nil, mem_cons] at hmem
      obtain h | hmem := hmem
      · cases h
      · cases e.tag_word.plain _ hmem
    · rw [has, text, flatMap_append, flatMap_singleton, Attribute.text]
      simp [getLast?_append, getLast?_cons]
  have hline : e.line = '<' :: (e.tag ++ text e.attributes) ++ e.tail.text := by
    simp [Element.line, Element.rest]
  rw [hline, getLast?_append]
  cases e.tail.text.getLast? with
  | none => simpa using hfront
  | some c => rfl

theorem line_chop (e : Element) : e.chop.line = chopNewline e.line := by
  have hline : e.line = '<' :: (e.tag ++ text e.attributes) ++ e.tail.text := by
    simp [Element.line, Element.rest]
  have hchop : e.chop.line = '<' :: (e.tag ++ text e.attributes) ++ chopNewline e.tail.text := by
    simp [Element.line, Element.rest, Element.chop]
  rw [hchop]
  by_cases h : e.tail.text.getLast? = some '\n'
  · have hne : e.tail.text ≠ [] := by
      intro hnil
      rw [hnil] at h
      cases h
    rw [chopNewline, chopNewline, if_pos h, if_pos ((getLast?_line e).mpr h), hline,
      dropLast_append_of_ne_nil hne]
  · rw [chopNewline, chopNewline, if_neg h, if_neg (mt (getLast?_line e).mp h), hline]

theorem xmlOriginalData_line (e : Element) :
    xmlOriginalData e.line = if e.chop.line.length < 512 then some e.chop.line else none := by
  rw [line_chop, xmlOriginalData, chopNewline]
  have hpos : 0 < e.line.length := Nat.succ_pos _
  by_cases h : e.line.getLast? = some '\n'
  · rw [if_pos h, if_pos h, length_dropLast]
    split <;> split <;> first | rfl | omega
  · rw [if_neg h, if_neg h]

def SetsExactly (e : Element) (k : Str) (v : Nat) : Prop :=
  ∃ text, xmlOriginalData e.line = some text ∧
    fhXmlSetValue text k v = (e.chop.setNumber k v).line ∧ (fhXmlSetValue text k v).length < 512

/-- The key stands first in its own name, or there is nothing to change. -/
def Settable (e : Element) (k : Str) (v : Nat) : Prop :=
  e.Own k ∨ (∀ s, e.found k = some s → s = dec v) ∧
    ∀ s, lookup k e.attributes = some s → s = dec v

theorem line_setNumber_iff (e : Element) (v : Nat) :
    (e.setNumber k v).line = e.line ↔ ∀ s, lookup k e.attributes = some s → s = dec v := by
  rw [Element.setNumber, Element.set, Element.line, Element.line, cons_inj_right,
    append_cancel_left_eq, Element.rest, Element.rest, append_cancel_right_eq,
    text_setValue_iff e.distinct]
  cases lookup k e.attributes <;> simp

theorem fhXmlSetValue_iff (e : Element) (hk : IsWord k) (v : Nat) :
    fhXmlSetValue e.line k v = (e.setNumber k v).line ↔ Settable e k v := by
  have hspec := e.found_spec hk (notMem_dec (k := v) (c := '"') rfl)
  rw [fhXmlSetValue, Settable]
  cases hfound : e.found k with
  | none =>
    rw [hfound] at hspec
    have hown : ¬ e.Own k := by
      rintro ⟨htag, hown⟩
      obtain ⟨s, hs⟩ := exists_lookup_of_own hown
      rw [Element.found, htag] at hfound
      rw [← lookup_of_own hown] at hs
      cases hfound.symm.trans hs
    have hvalue : fhXmlFindValue e.line k = none := hspec
    rw [hvalue, eq_comm, or_iff_right hown]
    exact (line_setNumber_iff e v).trans (and_iff_right fun s hs => by cases hs).symm
  | some s =>
    rw [hfound] at hspec
    obtain ⟨⟨p, t, hvalue, hline, hown, hother⟩, hplain⟩ := hspec
    have hset : fhXmlSetValue e.line k v = p ++ (dec v ++ '"' :: t) := by
      rw [fhXmlSetValue, hvalue]
      exact append_assoc ..
    rw [← fhXmlSetValue, hset]
    by_cases h : e.Own k
    · exact iff_of_true (hown h).symm (.inl h)
    · obtain ⟨t', ht'⟩ := hother h
      have hsame := line_setNumber_iff (k := k) e v
      rw [or_iff_right h]
      constructor
      · intro heq
        rw [Element.setNumber, ht', append_cancel_left_eq] at heq
        obtain ⟨rfl, rfl⟩ := split_quote (notMem_dec rfl) hplain heq
        refine ⟨fun s hs => (some.inj hs).symm, hsame.mp ?_⟩
        rw [hline]
        exact ht'
      · rintro ⟨hs, hl⟩
        rw [hsame.mpr hl, hline, hs s rfl]

theorem setsExactly_iff (e : Element) (hk : IsWord k) (v : Nat) :
    SetsExactly e k v ↔ e.chop.line.length < 512 ∧ (e.chop.setNumber k v).line.length < 512 ∧
      Settable e k v := by
  have hset : fhXmlSetValue e.chop.line k v = (e.chop.setNumber k v).line ↔ Settable e k v :=
    fhXmlSetValue_iff e.chop hk v
  rw [SetsExactly, xmlOriginalData_line]
  constructor
  · rintro ⟨text, htext, heq, hlen⟩
    obtain ⟨hfits, rfl⟩ : e.chop.line.length < 512 ∧ e.chop.line = text := by
      split at htext
      next hfits => exact ⟨hfits, some.inj htext⟩
      next => cases htext
    exact ⟨hfits, heq ▸ hlen, hset.mp heq⟩
  · rintro ⟨hfits, hlen, h⟩
    exact ⟨e.chop.line, if_pos hfits, hset.mpr h, (hset.mpr h).symm ▸ hlen⟩

def StoresInside (behind : Nat → Char) (line : Str) : Prop := ∀ i ∈ stores behind line, i < 512

theorem storesInside_iff (behind : Nat → Char) (e : Element) : StoresInside behind e.line ↔
    e.line.length ≤ 512 ∨ behind (e.line.length - 513) ≠ '\n' := by
  have hpos : 0 < e.line.length := Nat.succ_pos _
  rw [StoresInside, stores]
  by_cases hlen : e.line.length ≤ 512
  · refine iff_of_true (fun i hi => ?_) (.inl hlen)
    obtain hi | hi := mem_append.mp hi
    · exact mem_range.mp hi
    · have hmem : i ∈ [e.line.length - 1] := by
        split at hi <;> split at hi <;> first | exact hi | cases hi
      rw [mem_singleton.mp hmem]
      omega
  · have hlast : e.line.length - 1 - 512 = e.line.length - 513 := by omega
    rw [if_neg (show ¬ e.line.length - 1 < 512 by omega), hlast, or_iff_right hlen]
    constructor
    · intro h hc
      have := h (e.line.length - 1) (by simp [hc])
      omega
    · intro hc i hi
      rw [if_neg hc, append_nil] at hi
      exact mem_range.mp hi

theorem fhXmlGetValue_line (e : Element) (hk : IsWord k) : fhXmlGetValue e.line k = e.shown k := by
  have hspec := e.found_spec hk (v := []) not_mem_nil
  rw [fhXmlGetValue, Element.shown]
  cases hfound : e.found k with
  | none =>
    rw [hfound] at hspec
    have hvalue : fhXmlFindValue e.line k = none := hspec
    rw [hvalue]
    rfl
  | some s =>
    rw [hfound] at hspec
    obtain ⟨⟨p, t, hvalue, -⟩, -⟩ := hspec
    rw [hvalue, bind_some, filter_some]
    simp

theorem getNumber_line (e : Element) (hk : IsWord k) :
    getNumber e.line k = e.shownNumber k := by
  rw [getNumber, fhXmlGetValue_line e hk]
  rfl

theorem isTag_line (e : Element) (hs : IsWord s) :
    isTag s e.line = true ↔ e.tag = s ∧ e.rest.head? = some ' ' := by
  have hspec : ∀ u w : Str, (∀ c ∈ u, parts c = false) → (∀ c ∈ w, parts c = false) →
      (u ++ [' '] <+: w ++ e.rest ↔ w = u ∧ e.rest.head? = some ' ') := by
    intro u
    induction u with
    | nil =>
      intro w _ hw
      cases w with
      | nil => cases e.rest <;> simp [cons_prefix_cons, eq_comm]
      | cons c w =>
        have hc : ' ' ≠ c := by
          rintro rfl
          cases hw _ mem_cons_self
        simp [cons_prefix_cons, hc]
    | cons d u ih =>
      intro w hu hw
      have hd := hu d mem_cons_self
      cases w with
      | nil =>
        cases hrest : e.rest with
        | nil => simp
        | cons c t =>
          have hc := parts_of_head? e c (by rw [hrest]; rfl)
          have hne : d ≠ c := by
            rintro rfl
            cases hd.symm.trans hc
          simp [cons_prefix_cons, hne]
      | cons c w =>
        rw [cons_append, cons_append, cons_prefix_cons,
          ih w (fun c hc => hu c (mem_cons_of_mem _ hc))
            fun c hc => hw c (mem_cons_of_mem _ hc), List.cons.injEq, and_assoc, eq_comm]
  rw [isTag, isPrefixOf_iff_prefix, Element.line, cons_prefix_cons,
    hspec s e.tag hs.plain e.tag_word.plain]
  exact and_iff_right rfl

theorem isTag_append (e : Element) (hend : '>' ∈ e.line) (hs : IsWord s) :
    isTag s (e.line ++ t) = true ↔ e.tag = s ∧ e.rest.head? = some ' ' := by
  rw [← isTag_line e hs, isTag, isTag, isPrefixOf_iff_prefix, isPrefixOf_iff_prefix]
  refine ⟨fun hp => ?_, fun hp => hp.trans (prefix_append _ _)⟩
  refine prefix_of_prefix_length_le hp (prefix_append _ _) ?_
  -- A longer tag would have the end of the element in it.
  by_contra hlong
  have hle := prefix_of_prefix_length_le (prefix_append e.line t) hp
    (not_le.mp hlong).le
  have hmem := hle.subset hend
  simp only [mem_cons, mem_append, not_mem_nil, or_false] at hmem
  obtain hmem | hmem | hmem := hmem
  · exact absurd hmem (by decide)
  · exact hs.notMem rfl hmem
  · exact absurd hmem (by decide)

theorem find_text_isSome (tail : End) (hk : IsWord k) :
    (find k (text as ++ tail.text)).isSome = true ↔
      ∃ a ∈ as, (find k a.name).isSome ∨ (find k a.value).isSome := by
  induction as with
  | nil =>
    rw [text, flatMap_nil, nil_append, find_end hk]
    simp
  | cons a as ih =>
    rw [text_cons, append_assoc, find_attribute hk, exists_mem_cons_iff, ← ih]
    cases find k a.name with
    | some r => simp
    | none =>
      cases find k a.value with
      | some r => simp
      | none => simp

theorem find_line_isSome (e : Element) (hk : IsWord k) :
    (find k e.line).isSome = true ↔ e.Has k := by
  rw [find_line hk, Element.Has, ← find_text_isSome e.tail hk]
  cases find k e.tag with
  | some r => simp
  | none => simp [Element.rest]

theorem shown_of_find (e : Element) (hk : IsWord k) (h : find k e.line = none) :
    e.shown k = none := by
  rw [← fhXmlGetValue_line e hk, fhXmlGetValue, fhXmlFindValue_eq, h]
  rfl

theorem number_of_find (e : Element) (hk : IsWord k) :
    (if (find k e.line).isSome then getNumber e.line k else 0) = e.shownNumber k := by
  split
  next => exact getNumber_line e hk
  next h =>
    rw [not_isSome_iff_eq_none] at h
    rw [Element.shownNumber, shown_of_find e hk h]
    rfl

theorem vendor_line (e : Element) :
    (find (vendor ++ '=' :: '"' :: (quectel ++ ['"'])) e.line).isSome = true ↔ e.Vendor := by
  have hvendor : IsWord vendor := .of_all (by decide)
  have hquectel : IsWord quectel := .of_all (by decide)
  have hfront : '"' ∉ '<' :: e.tag := by
    rw [mem_cons, not_or]
    exact ⟨by decide, e.tag_word.notMem rfl⟩
  rw [Element.Vendor, ← exists_value_iff e.tail hvendor hquectel hfront]
  constructor
  · intro h
    obtain ⟨⟨p, q⟩, hfind⟩ := isSome_iff_exists.mp h
    exact ⟨p, q, (append_of_find hfind).trans (by simp)⟩
  · rintro ⟨p, q, h⟩
    have hline : e.line = p ++ ((vendor ++ '=' :: '"' :: (quectel ++ ['"'])) ++ q) :=
      h.trans (by simp)
    obtain ⟨p', q', hfind, -⟩ := exists_find (a := p) (b := q)
      (show vendor ++ '=' :: '"' :: (quectel ++ ['"']) ≠ [] by decide)
    rw [hline, hfind]
    rfl

theorem isWord_of_mem (h : k ∈ keys) : IsWord k := by
  simp only [keys, mem_cons, not_mem_nil, or_false] at h
  rcases h with rfl | rfl | rfl | rfl | rfl | rfl | rfl | rfl | rfl | rfl | rfl <;>
    exact .of_all (by decide)

theorem atoi_lt : atoi s < 2 ^ 32 := by
  rw [atoi]
  split <;> exact Nat.mod_lt _ (by decide)

theorem number_lt (o : Option Str) : (o.map atoi).getD 0 < 2 ^ 32 := by
  cases o with
  | none => decide
  | some s => exact atoi_lt

theorem Element.number_lt (e : Element) : e.number k < 2 ^ 32 := FirehoseLine.number_lt _

theorem Element.shownNumber_lt (e : Element) : e.shownNumber k < 2 ^ 32 := FirehoseLine.number_lt _

theorem ofNat_inj {m n : Nat} (hm : m < 2 ^ 32) (hn : n < 2 ^ 32) :
    UInt32.ofNat m = UInt32.ofNat n ↔ m = n := by
  constructor
  · intro h
    have hval := congrArg UInt32.toNat h
    rwa [UInt32.toNat_ofNat_of_lt' hm, UInt32.toNat_ofNat_of_lt' hn] at hval
  · exact fun h => h ▸ rfl

theorem recorded_eq_vendor_iff (e : Element) :
    e.recorded = some .vendor ↔ lookup vendor e.attributes = some quectel := by
  constructor
  · intro h
    by_contra hne
    rw [Element.recorded, if_neg hne] at h
    split_ifs at h <;> cases h
  · intro h
    rw [Element.recorded, if_pos h]

theorem tags_nodup : [erase, program, patch, response, log].Nodup := by decide

theorem recorded_eq_none_iff (e : Element) (hvendor : lookup vendor e.attributes ≠ some quectel) :
    e.recorded = none ↔ (e.Known → e.Ignored) := by
  have htags := tags_nodup
  simp only [nodup_cons, mem_cons, not_mem_nil, or_false, not_or] at htags
  obtain ⟨⟨h12, h13, h14, h15⟩, ⟨h23, h24, h25⟩, ⟨h34, h35⟩, h45, -⟩ := htags
  rw [Element.recorded, if_neg hvendor, Element.Known, Element.Ignored]
  by_cases h1 : e.tag = erase
  · simp [h1, h12, h13]
  by_cases h2 : e.tag = program
  · simp [h2, Ne.symm h12, h23]
  by_cases h3 : e.tag = patch
  · simp [h3, Ne.symm h13, Ne.symm h23]
  by_cases h4 : e.tag = response
  · simp [h4, Ne.symm h14, Ne.symm h24, Ne.symm h34]
  by_cases h5 : e.tag = log
  · simp [h5, Ne.symm h15, Ne.symm h25, Ne.symm h35, Ne.symm h45]
  · simp [h1, h2, h3, h4, h5]

section

variable (hvendor : ¬ e.Vendor)

theorem lookup_vendor_ne (hvendor : ¬ e.Vendor) : lookup vendor e.attributes ≠ some quectel := by
  intro h
  obtain ⟨a, ha, hname, hvalue⟩ := exists_of_lookup h
  exact hvendor ⟨a, ha, hname ▸ suffix_refl _, hvalue⟩

theorem isWord_of_tag (ht : t ∈ [erase, program, patch, response, log]) : IsWord t := by
  simp only [mem_cons, not_mem_nil, or_false] at ht
  rcases ht with rfl | rfl | rfl | rfl | rfl <;> exact .of_all (by decide)

theorem isTag_iff (hblank : e.rest.head? = some ' ')
    (ht : t ∈ [erase, program, patch, response, log]) : isTag t e.line = true ↔ e.tag = t := by
  rw [isTag_line e (isWord_of_tag ht), and_iff_left hblank]

theorem not_isTag (hblank : e.rest.head? = some ' ') (h : e.tag = s)
    (ht : t ∈ [erase, program, patch, response, log]) (hne : s ≠ t) : ¬ isTag t e.line = true := by
  rw [isTag_iff hblank ht, h]
  exact hne

variable (hblank : e.rest.head? = some ' ')
include hvendor hblank

theorem erase_iff (h : e.tag = erase) : fhParseXmlLine e.line = e.recorded ↔
    ∀ k ∈ [lastSector, startSector, numPartitionSectors, sectorSizeInBytes], e.Reads k := by
  rw [fhParseXmlLine, if_neg (mt (vendor_line e).mp hvendor),
    if_pos ((isTag_iff hblank (by decide)).mpr h), Element.recorded,
    if_neg (lookup_vendor_ne hvendor), if_pos h, number_of_find e (isWord_of_mem (by decide)),
    getNumber_line e (k := startSector) (isWord_of_mem (by decide)),
    getNumber_line e (k := numPartitionSectors) (isWord_of_mem (by decide)),
    getNumber_line e (k := sectorSizeInBytes) (isWord_of_mem (by decide))]
  simp [Element.Reads]

theorem program_iff (h : e.tag = program) : fhParseXmlLine e.line = e.recorded ↔
    e.shown filename = lookup filename e.attributes ∧
      (lookup filename e.attributes ≠ some [] → e.shown sparse = lookup sparse e.attributes ∧
        (∀ k ∈ [startSector, numPartitionSectors, sectorSizeInBytes], e.Reads k) ∧
        (isSparse (lookup sparse e.attributes) →
          ∀ k ∈ [fileSectorOffset, physicalPartitionNumber], e.Reads k)) := by
  rw [fhParseXmlLine, if_neg (mt (vendor_line e).mp hvendor),
    if_neg (not_isTag hblank h (t := erase) (by decide) (by decide)),
    if_pos ((isTag_iff hblank (by decide)).mpr h),
    Element.recorded, if_neg (lookup_vendor_ne hvendor),
    if_neg (show e.tag ≠ erase by rw [h]; decide), if_pos h,
    fhXmlGetValue_line e (k := filename) (isWord_of_mem (by decide)),
    fhXmlGetValue_line e (k := sparse) (isWord_of_mem (by decide)),
    getNumber_line e (k := startSector) (isWord_of_mem (by decide)),
    getNumber_line e (k := numPartitionSectors) (isWord_of_mem (by decide)),
    getNumber_line e (k := sectorSizeInBytes) (isWord_of_mem (by decide)),
    getNumber_line e (k := fileSectorOffset) (isWord_of_mem (by decide)),
    getNumber_line e (k := physicalPartitionNumber) (isWord_of_mem (by decide))]
  by_cases hshown : e.shown filename = some []
  · rw [if_pos hshown]
    by_cases hlookup : lookup filename e.attributes = some []
    · rw [if_pos hlookup]
      exact iff_of_true rfl ⟨hshown.trans hlookup.symm, fun hne => (hne hlookup).elim⟩
    · rw [if_neg hlookup]
      exact iff_of_false (fun heq => by cases heq) fun heq => hlookup (heq.1.symm.trans hshown)
  · rw [if_neg hshown]
    by_cases hlookup : lookup filename e.attributes = some []
    · rw [if_pos hlookup]
      exact iff_of_false (fun heq => by cases heq) fun heq => hshown (heq.1.trans hlookup)
    · rw [if_neg hlookup, imp_iff_right hlookup]
      simp only [some.injEq, FhCmd.program.injEq, ProgramCmd.mk.injEq]
      constructor
      · rintro ⟨hname, hsparse, hstart, hnum, hsize, hoffset, hphysical⟩
        refine ⟨hname, hsparse, by simp [Element.Reads, hstart, hnum, hsize], fun hs => ?_⟩
        rw [hsparse, if_pos hs, if_pos hs] at hoffset hphysical
        simp [Element.Reads, hoffset, hphysical]
      · rintro ⟨hname, hsparse, hread, hread'⟩
        refine ⟨hname, hsparse, hread _ (by simp), hread _ (by simp), hread _ (by simp), ?_, ?_⟩
        · rw [hsparse]
          split
          next hs => exact hread' hs _ (by simp)
          next => rfl
        · rw [hsparse]
          split
          next hs => exact hread' hs _ (by simp)
          next => rfl

theorem patch_iff (h : e.tag = patch) : fhParseXmlLine e.line = e.recorded ↔
    (e.shown filename).any (· ≠ disk) = (lookup filename e.attributes).any (· ≠ disk) := by
  rw [fhParseXmlLine, if_neg (mt (vendor_line e).mp hvendor),
    if_neg (not_isTag hblank h (t := erase) (by decide) (by decide)),
    if_neg (not_isTag hblank h (t := program) (by decide) (by decide)),
    if_pos ((isTag_iff hblank (by decide)).mpr h),
    Element.recorded, if_neg (lookup_vendor_ne hvendor),
    if_neg (show e.tag ≠ erase by rw [h]; decide), if_neg (show e.tag ≠ program by rw [h]; decide),
    if_pos h, fhXmlGetValue_line e (k := filename) (isWord_of_mem (by decide))]
  split_ifs <;> simp_all

theorem response_iff (h : e.tag = response) : fhParseXmlLine e.line = e.recorded ↔
    (e.shown value).map valueOf = (lookup value e.attributes).map valueOf ∧
      (e.shown rawmode = some true' ↔ lookup rawmode e.attributes = some true') ∧
      (e.Has rawmode → e.number maxPayloadSizeToTargetInBytes = 0) ∧
      (¬ e.Has rawmode → e.Reads maxPayloadSizeToTargetInBytes) := by
  rw [fhParseXmlLine, if_neg (mt (vendor_line e).mp hvendor),
    if_neg (not_isTag hblank h (t := erase) (by decide) (by decide)),
    if_neg (not_isTag hblank h (t := program) (by decide) (by decide)),
    if_neg (not_isTag hblank h (t := patch) (by decide) (by decide)),
    if_pos ((isTag_iff hblank (by decide)).mpr h),
    Element.recorded, if_neg (lookup_vendor_ne hvendor),
    if_neg (show e.tag ≠ erase by rw [h]; decide), if_neg (show e.tag ≠ program by rw [h]; decide),
    if_neg (show e.tag ≠ patch by rw [h]; decide), if_pos h,
    fhXmlGetValue_line e (k := value) (isWord_of_mem (by decide)),
    fhXmlGetValue_line e (k := rawmode) (isWord_of_mem (by decide))]
  have hraw : ((find rawmode e.line).isSome && e.shown rawmode == some true') =
      (e.shown rawmode == some true') := by
    cases hfind : find rawmode e.line with
    | some r => rfl
    | none => rw [shown_of_find e (isWord_of_mem (by decide)) hfind]; rfl
  have hmax : (if (find rawmode e.line).isSome then 0
      else if (find maxPayloadSizeToTargetInBytes e.line).isSome then
        UInt32.ofNat (getNumber e.line maxPayloadSizeToTargetInBytes)
      else 0) = UInt32.ofNat (if (find rawmode e.line).isSome then 0
        else e.shownNumber maxPayloadSizeToTargetInBytes) := by
    rw [← number_of_find e (isWord_of_mem (by decide))]
    split_ifs <;> rfl
  rw [hraw, hmax]
  simp only [some.injEq, FhCmd.response.injEq, Response.mk.injEq]
  apply and_congr_right'
  apply and_congr
  · rw [Bool.eq_iff_iff, beq_iff_eq, beq_iff_eq]
  · have hhas := find_line_isSome e (k := rawmode) (isWord_of_mem (by decide))
    by_cases h' : e.Has rawmode
    · rw [if_pos (hhas.mpr h'), ofNat_inj (show 0 < 2 ^ 32 by decide) e.number_lt,
        imp_iff_right h', eq_comm]
      exact (and_iff_left fun hno => (hno h').elim).symm
    · rw [if_neg (mt hhas.mp h'), ofNat_inj e.shownNumber_lt e.number_lt, imp_iff_right h']
      exact (and_iff_right fun hh => (h' hh).elim).symm

theorem log_eq (h : e.tag = log) : fhParseXmlLine e.line = e.recorded := by
  rw [fhParseXmlLine, if_neg (mt (vendor_line e).mp hvendor),
    if_neg (not_isTag hblank h (t := erase) (by decide) (by decide)),
    if_neg (not_isTag hblank h (t := program) (by decide) (by decide)),
    if_neg (not_isTag hblank h (t := patch) (by decide) (by decide)),
    if_neg (not_isTag hblank h (t := response) (by decide) (by decide)),
    if_pos ((isTag_iff hblank (by decide)).mpr h), Element.recorded,
    if_neg (lookup_vendor_ne hvendor),
    if_neg (show e.tag ≠ erase by rw [h]; decide), if_neg (show e.tag ≠ program by rw [h]; decide),
    if_neg (show e.tag ≠ patch by rw [h]; decide), if_neg (show e.tag ≠ response by rw [h]; decide),
    if_pos h]

end

theorem fhParseXmlLine_of_not_isTag (hvendor : ¬ e.Vendor)
    (h : ∀ t ∈ [erase, program, patch, response, log], ¬ isTag t e.line = true) :
    fhParseXmlLine e.line = none := by
  rw [fhParseXmlLine, if_neg (mt (vendor_line e).mp hvendor), if_neg (h erase (by decide)),
    if_neg (h program (by decide)), if_neg (h patch (by decide)), if_neg (h response (by decide)),
    if_neg (h log (by decide))]

theorem fhParseXmlLine_iff (e : Element) : fhParseXmlLine e.line = e.recorded ↔ e.Clear := by
  rw [Element.Clear]
  by_cases hvendor : e.Vendor
  · have hline : fhParseXmlLine e.line = some .vendor := by
      rw [fhParseXmlLine, if_pos ((vendor_line e).mpr hvendor)]
    rw [hline, eq_comm, recorded_eq_vendor_iff]
    exact ⟨fun h => ⟨fun _ => h, fun h' => (h' hvendor).elim⟩, fun h => h.1 hvendor⟩
  have hno := lookup_vendor_ne hvendor
  rw [and_iff_right fun h => (hvendor h).elim, imp_iff_right hvendor]
  by_cases hblank : e.rest.head? = some ' '
  swap
  · have hline : fhParseXmlLine e.line = none :=
      fhParseXmlLine_of_not_isTag hvendor fun t ht htag =>
        hblank ((isTag_line e (isWord_of_tag ht)).mp htag).2
    rw [hline, if_neg hblank, eq_comm, recorded_eq_none_iff e hno]
  have htags := tags_nodup
  simp only [nodup_cons, mem_cons, not_mem_nil, or_false, not_or] at htags
  obtain ⟨⟨h12, h13, h14, h15⟩, ⟨h23, h24, h25⟩, ⟨h34, h35⟩, h45, -⟩ := htags
  rw [if_pos hblank]
  by_cases h1 : e.tag = erase
  · rw [erase_iff hvendor hblank h1, imp_iff_right (show e.Known by simp [Element.Known, h1])]
    exact ⟨fun h => ⟨fun _ => h, fun h' => (h12 (h1.symm.trans h')).elim,
      fun h' => (h13 (h1.symm.trans h')).elim, fun h' => (h14 (h1.symm.trans h')).elim⟩,
      fun h => h.erase h1⟩
  by_cases h2 : e.tag = program
  · rw [program_iff hvendor hblank h2, imp_iff_right (show e.Known by simp [Element.Known, h2])]
    exact ⟨fun h => ⟨fun h' => (h1 h').elim, fun _ => h,
      fun h' => (h23 (h2.symm.trans h')).elim, fun h' => (h24 (h2.symm.trans h')).elim⟩,
      fun h => h.program h2⟩
  by_cases h3 : e.tag = patch
  · rw [patch_iff hvendor hblank h3, imp_iff_right (show e.Known by simp [Element.Known, h3])]
    exact ⟨fun h => ⟨fun h' => (h1 h').elim, fun h' => (h2 h').elim, fun _ => h,
      fun h' => (h34 (h3.symm.trans h')).elim⟩, fun h => h.patch h3⟩
  by_cases h4 : e.tag = response
  · rw [response_iff hvendor hblank h4, imp_iff_right (show e.Known by simp [Element.Known, h4])]
    exact ⟨fun h => ⟨fun h' => (h1 h').elim, fun h' => (h2 h').elim, fun h' => (h3 h').elim,
      fun _ => h⟩, fun h => h.response h4⟩
  have hkeys : e.KeysClear :=
    ⟨fun h => (h1 h).elim, fun h => (h2 h).elim, fun h => (h3 h).elim, fun h => (h4 h).elim⟩
  refine iff_of_true ?_ fun _ => hkeys
  by_cases h5 : e.tag = log
  · exact log_eq hvendor hblank h5
  have hunknown : ¬ e.Known := by simp [Element.Known, h1, h2, h3, h4, h5]
  rw [(recorded_eq_none_iff e hno).mpr fun h => (hunknown h).elim]
  refine fhParseXmlLine_of_not_isTag hvendor fun t ht htag => hunknown ?_
  rw [Element.Known, (isTag_iff hblank ht).mp htag]
  exact ht

def FhCmd.toProgram (line : Str) : FhCmd → Option Firehose.Program
  | .program c => some {
      filename := c.filename
      sparse := isSparse c.sparse
      sectorSize := c.sectorSizeInBytes
      numSectors := c.numPartitionSectors
      startSector := c.startSector
      xmlOriginalData := xmlOriginalData line }
  | _ => none

theorem toProgram_fhParseXmlLine :
    (fhParseXmlLine line).bind (FhCmd.toProgram line) = Firehose.fhParseXmlLine line := by
  have hvendor : vendor ++ '=' :: '"' :: (quectel ++ ['"']) =
      "vendor=\"quectel\"".toList := by decide
  have hprogram : isTag program line = "<program ".toList.isPrefixOf line := by
    have htag : '<' :: (program ++ [' ']) = "<program ".toList := by decide
    rw [isTag, htag]
  rw [fhParseXmlLine, Firehose.fhParseXmlLine, hvendor, ← hprogram]
  by_cases h : (find "vendor=\"quectel\"".toList line).isSome
  · rw [if_pos h, if_pos h]
    rfl
  rw [if_neg h, if_neg h]
  by_cases htag : isTag program line = true
  · have herase : ¬ isTag erase line = true := by
      intro herase
      rw [isTag, isPrefixOf_iff_prefix] at htag herase
      have hpre := prefix_of_prefix_length_le herase htag (by decide)
      exact absurd hpre (by decide)
    rw [if_neg herase, if_pos htag, if_pos htag]
    show (if fhXmlGetValue line filename = some [] then none else _).bind _ =
      if fhXmlGetValue line filename = some [] then none else _
    split <;> rfl
  · rw [if_neg htag, if_neg htag]
    split_ifs <;> rfl

/-- Which elements are recorded, which lines are stored, and which values are set as they should
be. -/
theorem attributes_iff (behind : Nat → Char) (e : Element) (k : Str) (v : Nat) (hk : k ∈ keys) :
    (fhParseXmlLine e.line = e.recorded ↔ e.Clear) ∧
      (StoresInside behind e.line ↔
        e.line.length ≤ 512 ∨ behind (e.line.length - 513) ≠ '\n') ∧
      (SetsExactly e k v ↔ e.chop.line.length < 512 ∧
        (e.chop.setNumber k v).line.length < 512 ∧ Settable e k v) :=
  ⟨fhParseXmlLine_iff e, storesInside_iff behind e, setsExactly_iff e (isWord_of_mem hk) v⟩

def label : Str := "label".toList

theorem label_word : IsWord label := .of_all (by decide)

theorem filename_word : IsWord filename := .of_all (by decide)

theorem program_word : IsWord program := .of_all (by decide)

theorem filename_plain : '"' ∉ filename := by decide

theorem disk_plain : '"' ∉ disk := by decide

theorem labelled_distinct : Distinct [named label filename label_word filename_plain,
    named filename disk filename_word disk_plain] :=
  show ([label, filename] : List Str).Nodup by decide

theorem end_plain : ∀ c ∈ ['/', '>'], isspace c = true ∨ c = '/' ∨ c = '>' := by simp

def labelled : Element where
  tag := program
  attributes := [named label filename label_word filename_plain,
    named filename disk filename_word disk_plain]
  tail := ⟨['/', '>'], end_plain⟩
  tag_word := program_word
  distinct := labelled_distinct

theorem attributes_iff_labelled :
    SetsExactly labelled lastSector 4 ↔ labelled.chop.line.length < 512 ∧
      (labelled.chop.setNumber lastSector 4).line.length < 512 ∧ Settable labelled lastSector 4 :=
  (attributes_iff (fun _ => ' ') labelled lastSector 4 (by decide)).2.2

/-- The key is found in the label, and no file is recorded. -/
theorem not_recorded : fhParseXmlLine labelled.line ≠ labelled.recorded := by
  intro h
  obtain ⟨-, hclear⟩ := (fhParseXmlLine_iff labelled).mp h
  have hvendor : ¬ labelled.Vendor := by
    rintro ⟨a, ha, -, hvalue⟩
    obtain rfl | rfl : a = named label filename label_word filename_plain ∨
      a = named filename disk filename_word disk_plain := by simpa [labelled] using ha
    · exact absurd hvalue (by decide)
    · exact absurd hvalue (by decide)
  have hkeys := hclear hvendor (show program ∈ _ by decide)
  rw [if_pos (by rfl)] at hkeys
  have hname := (hkeys.program rfl).1
  exact absurd hname (by decide)

end ModemSupport.Rooter.FirehoseLine
