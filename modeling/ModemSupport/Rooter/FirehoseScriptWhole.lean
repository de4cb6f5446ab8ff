import Mathlib.Data.List.TakeWhile
import ModemSupport.Rooter.FirehoseScript
import ModemSupport.Rooter.FirehoseLineWhole

/-! Which scripts are read as they are: those whose marks of comments stand on the lines where the
parser looks for them. -/

namespace ModemSupport.Rooter.FirehoseScript

open Lib.Text Lib.Markup Lib.Gets FirehoseLine List Option
open Firehose hiding Str fhParseXmlLine

/-- Whether a line has an opening mark without a closing one behind it. -/
def leavesOpen (line : Str) : Bool :=
  match find opening line with
  | none => false
  | some (_, rest) => !(find closing (opening ++ rest)).isSome

def Line.skips (skipping : Bool) (l : Line) : Bool :=
  if skipping then FirehoseScript.skips l.text else leavesOpen l.text

def fromTag (s : Str) : Str := s.dropWhile (· ≠ '<')

/-- The command stands in front of the marks, and a first comment behind it is closed on the line;
or the first comment is closed in front of it, and the first `/>` of the line is not in that. -/
def CommandLine.Taken (l : CommandLine) : Prop :=
  match find opening l.before with
  | none => ∀ r, find opening l.after = some r → (find closing (opening ++ r.2)).isSome
  | some (start, rest) => ∃ r, find closing (opening ++ rest) = some r ∧
      ((find slash (fromTag start)).isSome ∨ find slash r.1 = none)

/-- The text behind a command, with the first comment blanked. -/
def CommandLine.handed (l : CommandLine) : Str :=
  match find opening l.before, find opening l.after with
  | none, some (start, rest) =>
    match find closing (opening ++ rest) with
    | some (comment, rest) => start ++ (replicate (comment.length + 3) ' ' ++ rest)
    | none => l.after
  | _, _ => l.after

/-- No file is named in a program, or some other one than the disk in a patch, as it is found in the
text from the tag to the end of the line. -/
def CommandLine.Refused (l : CommandLine) : Prop :=
  let text := l.element.line ++ l.handed
  find (vendor ++ '=' :: '"' :: (quectel ++ ['"'])) text = none ∧
    (l.element.tag = program ∧ fhXmlGetValue text filename = some [] ∨
      l.element.tag = patch ∧ (fhXmlGetValue text filename).any (· ≠ disk))

def Line.IsRead (skipping : Bool) : Line → Prop
  | .plain _ _ => False
  | .command l => skipping = false ∧ l.element.rest.head? = some ' ' ∧ l.Taken ∧ ¬ l.Refused

/-- The lines of which a command is read are those of which one is to be read. -/
def Clear : (comment skipping : Bool) → List Line → Prop
  | _, _, [] => True
  | comment, skipping, l :: ls =>
    (l.IsCommand comment ↔ l.IsRead skipping) ∧
      Clear (inComment comment l.text) (l.skips skipping) ls

variable {s t u v x : Str} {tag : Str} {n : Nat} {c : Bool}

theorem closing_of_inComment (h : inComment true s = false) : closing <:+: s := by
  generalize hc : true = c at h
  induction c, s using inComment.induct with
  | case1 s ih => cases hc
  | case2 s ih => exact ⟨[], s, rfl⟩
  | case3 c x s _ _ ih =>
    rw [inComment] at h
    · exact (ih hc h).trans (suffix_cons x s).isInfix
    · assumption
    · assumption
  | case4 c =>
    rw [inComment, ← hc] at h
    cases h

theorem closing_of_opening (h : inComment c (s ++ (opening ++ t)) = false) :
    closing <:+: opening ++ t := by
  have hnil : ∀ c, inComment c (opening ++ t) = false → closing <:+: opening ++ t := by
    intro c h
    cases c with
    | true => exact closing_of_inComment h
    | false => exact (closing_of_inComment h).trans (suffix_append opening t).isInfix
  generalize hu : s ++ (opening ++ t) = u at h
  induction c, u using inComment.induct generalizing s with
  | case1 u ih =>
    have h' := h
    rw [inComment] at h'
    -- The mark does not begin inside the one that is passed.
    rcases s with _ | ⟨a, _ | ⟨b, _ | ⟨d, _ | ⟨e, s⟩⟩⟩⟩
    · exact hnil _ (hu ▸ h)
    · simp [opening] at hu
    · simp [opening] at hu
    · simp [opening] at hu
    · simp only [cons_append, List.cons.injEq] at hu
      exact ih hu.2.2.2.2 h'
  | case2 u ih =>
    have h' := h
    rw [inComment] at h'
    rcases s with _ | ⟨a, _ | ⟨b, _ | ⟨d, s⟩⟩⟩
    · exact hnil _ (hu ▸ h)
    · simp [opening] at hu
    · simp [opening] at hu
    · simp only [cons_append, List.cons.injEq] at hu
      exact ih hu.2.2.2 h'
  | case3 c x u hopen hclose ih =>
    have h' := h
    rw [inComment] at h'
    · rcases s with _ | ⟨a, s⟩
      · exact hnil _ (hu ▸ h)
      · exact ih (List.cons.inj hu).2 h'
    · assumption
    · assumption
  | case4 c => simp [opening] at hu

theorem startTag_head : (startTag tag).head? = some '<' := rfl

theorem lt_notMem_startTag (ht : tag ∈ tags) : '<' ∉ (startTag tag).tail := by
  simp only [tags, mem_cons, not_mem_nil, or_false] at ht
  rcases ht with rfl | rfl | rfl <;> decide

theorem startTag_ne_nil : startTag tag ≠ [] := cons_ne_nil _ _

theorem startTag_blanks (ht : tag ∈ tags) (hs : ¬ startTag tag <:+: s) (hs' : ¬ '<' :: tag <:+ s)
    (hv : ¬ startTag tag <:+: v) : ¬ startTag tag <:+: s ++ (replicate (n + 1) ' ' ++ v) := by
  have hblank : ' ' ∉ '<' :: tag := by
    simp only [tags, mem_cons, not_mem_nil, or_false] at ht
    rcases ht with rfl | rfl | rfl <;> decide
  have hzero : ∀ n, ¬ startTag tag <:+: replicate n ' ' ++ v := by
    intro n
    induction n with
    | zero => exact hv
    | succ n ih =>
      rw [replicate_succ, cons_append, infix_cons_iff, not_or]
      refine ⟨fun hp => ?_, ih⟩
      rw [startTag, cons_prefix_cons] at hp
      exact absurd hp.1 (by decide)
  rintro ⟨p, q, heq⟩
  rw [startTag, replicate_succ, cons_append] at heq
  have heq : (p ++ '<' :: tag) ++ ' ' :: q = s ++ ' ' :: (replicate n ' ' ++ v) := by
    simpa using heq
  obtain ⟨a, ha, hq⟩ | ⟨a, rfl, hq⟩ := append_eq_append_iff.mp heq.symm
  · rcases a with _ | ⟨y, a⟩
    · exact hs' ⟨p, by simpa using ha⟩
    · obtain ⟨rfl, hrest⟩ := List.cons.inj hq
      obtain ⟨b, rfl, hb⟩ | ⟨b, rfl, hb⟩ := append_eq_append_iff.mp ha
      · exact hblank (hb ▸ by simp)
      · rcases b with _ | ⟨y, b⟩
        · exact absurd (List.cons.inj hb).1 (by decide)
        · obtain ⟨rfl, rfl⟩ := List.cons.inj hb
          have hv' : replicate n ' ' ++ v = (b ++ '<' :: tag) ++ ' ' :: q := hrest
          exact hzero n ⟨b, q, by rw [hv', startTag]; simp⟩
  · rcases a with _ | ⟨y, a⟩
    · exact hs' ⟨p, by simp⟩
    · obtain ⟨rfl, -⟩ := List.cons.inj hq
      exact hs ⟨p, a, by rw [startTag]; simp⟩

theorem tagOf_eq_none {ts : List Str} (h : ∀ tag ∈ ts, ¬ startTag tag <:+: x) :
    tagOf x ts = none := by
  induction ts with
  | nil => rfl
  | cons tag ts ih =>
    rw [forall_mem_cons] at h
    have hfind : find (startTag tag) x = none := by
      rw [← not_isSome_iff_eq_none, find_isSome_iff startTag_ne_nil]
      exact h.1
    rw [tagOf, hfind, ih h.2]

theorem tagOf_eq_some {ts : List Str} (ht : tag ∈ ts) (hts : ts.Nodup)
    (h : ∀ t ∈ ts, t ≠ tag → ¬ startTag t <:+: x) (hfind : find (startTag tag) x = some (s, u)) :
    tagOf x ts = some (startTag tag ++ u) := by
  induction ts with
  | nil => cases ht
  | cons t ts ih =>
    rw [forall_mem_cons] at h
    rw [nodup_cons] at hts
    by_cases heq : t = tag
    · rw [heq, tagOf, hfind]
    · have hnone : find (startTag t) x = none := by
        rw [← not_isSome_iff_eq_none, find_isSome_iff startTag_ne_nil]
        exact h.1 heq
      rw [tagOf, hnone]
      exact ih ((mem_cons.mp ht).resolve_left (Ne.symm heq)) hts.2 h.2

theorem end_mem_line (e : Command) : '>' ∈ e.element.line := by
  obtain ⟨p, hp⟩ := e.ends
  simp [Element.line, Element.rest, ← hp, slash]

theorem isTag_command (e : Command) (hword : IsWord tag) :
    isTag tag (e.element.line ++ v) = true ↔
      e.element.tag = tag ∧ e.element.rest.head? = some ' ' :=
  isTag_append e.element (end_mem_line e) hword

theorem tagOf_command (e : Command) (hu : ∀ tag ∈ tags, ¬ startTag tag <:+: u)
    (hv : ∀ tag ∈ tags, ¬ startTag tag <:+: v) :
    tagOf (u ++ (e.element.line ++ v)) tags =
      if e.element.rest.head? = some ' ' then some (e.element.line ++ v) else none := by
  have hline : u ++ (e.element.line ++ v) =
      u ++ '<' :: ((e.element.tag ++ e.element.rest) ++ v) := by
    simp [Element.line]
  have hnone : ∀ tag ∈ tags, ∀ s, ¬ startTag tag <:+: s → find (startTag tag) s = none := by
    intro tag _ s h
    rw [← not_isSome_iff_eq_none, find_isSome_iff startTag_ne_nil]
    exact h
  -- Each start tag is found at the element or nowhere.
  have hfind : ∀ tag ∈ tags, find (startTag tag) (u ++ (e.element.line ++ v)) =
      if e.element.tag = tag ∧ e.element.rest.head? = some ' ' then
        some (u, e.element.rest.tail ++ v) else none := by
    intro tag ht
    rw [hline, find_append_head startTag_head (lt_notMem_startTag ht), hnone tag ht u (hu tag ht)]
    have hword : IsWord tag := isWord_of_tag (by
      simp only [tags, mem_cons, not_mem_nil, or_false] at ht ⊢
      tauto)
    have hpre : (startTag tag).isPrefixOf (e.element.line ++ v) = true ↔
        e.element.tag = tag ∧ e.element.rest.head? = some ' ' := isTag_command e hword
    have hcons : '<' :: ((e.element.tag ++ e.element.rest) ++ v) = e.element.line ++ v := by
      simp [Element.line]
    by_cases h : e.element.tag = tag ∧ e.element.rest.head? = some ' '
    · obtain ⟨rest, hrest⟩ : ∃ rest, e.element.rest = ' ' :: rest := List.head?_eq_some_iff.mp h.2
      have hself : e.element.line ++ v = startTag tag ++ (rest ++ v) := by
        simp [Element.line, startTag, h.1, hrest]
      rw [if_pos h, hcons, hself, find_append_self, hrest]
      simp
    · rw [if_neg h, find, hcons, if_neg (mt hpre.mp h), find_append_of_head startTag_head e.plain,
        hnone tag ht v (hv tag ht)]
      rfl
  by_cases hblank : e.element.rest.head? = some ' '
  · have hself := hfind _ e.tag
    rw [if_pos ⟨rfl, hblank⟩] at hself
    rw [if_pos hblank, tagOf_eq_some e.tag (by decide) (fun t ht hne hin => ?_) hself]
    · obtain ⟨rest, hrest⟩ : ∃ rest, e.element.rest = ' ' :: rest :=
        List.head?_eq_some_iff.mp hblank
      rw [hrest]
      simp [Element.line, startTag, hrest]
    · rw [← find_isSome_iff startTag_ne_nil, hfind t ht, if_neg fun h => hne h.1.symm] at hin
      cases hin
  · rw [if_neg hblank]
    apply tagOf_eq_none
    intro tag ht hin
    rw [← find_isSome_iff startTag_ne_nil, hfind tag ht, if_neg fun h => hblank h.2] at hin
    cases hin

theorem opening_head : opening.head? = some '<' := rfl

theorem opening_once : '<' ∉ opening.tail := by decide

section

variable (l : CommandLine)

theorem cons_eq_line (u : Str) :
    '<' :: ((l.element.tag ++ l.element.rest) ++ u) = l.element.line ++ u := by
  simp [Element.line]

theorem find_opening_line (u : Str) : find opening (l.element.line ++ u) =
    (find opening u).map fun r => (l.element.line ++ r.1, r.2) := by
  obtain ⟨c, tag, htag⟩ := exists_cons_of_ne_nil l.element.tag_word.ne_nil
  have hc : c ≠ '!' := by
    rintro rfl
    have h := l.command.tag
    rw [← CommandLine.element, htag] at h
    simp only [tags, mem_cons, not_mem_nil, or_false] at h
    rcases h with h | h | h <;> exact absurd (List.cons.inj h).1 (by decide)
  have hpre : ¬ opening.isPrefixOf (l.element.line ++ u) = true := by
    rw [Element.line, htag, isPrefixOf_iff_prefix, opening, cons_append,
      cons_prefix_cons, cons_append, cons_append, cons_prefix_cons]
    exact fun h => hc h.2.1.symm
  rw [← cons_eq_line, find, cons_eq_line, if_neg hpre,
    find_append_of_head opening_head
      (show '<' ∉ l.element.tag ++ l.element.rest from l.command.plain)]
  cases find opening u <;> simp [Element.line]

theorem find_opening_text : find opening l.text =
    match find opening l.before with
    | some r => some (r.1, r.2 ++ (l.element.line ++ l.after))
    | none => (find opening l.after).map fun r => (l.before ++ (l.element.line ++ r.1), r.2) := by
  rw [CommandLine.text, ← cons_eq_line, find_append_head opening_head opening_once, cons_eq_line,
    find_opening_line]
  cases find opening l.before with
  | some r => rfl
  | none => cases find opening l.after <;> simp

end

theorem fromTag_append_of_mem (h : '<' ∈ s) : fromTag (s ++ t) = fromTag s ++ t := by
  induction s with
  | nil => cases h
  | cons c s ih =>
    rw [fromTag, cons_append, dropWhile_cons, fromTag, dropWhile_cons]
    by_cases hc : c = '<'
    · rw [if_neg (by simp [hc]), if_neg (by simp [hc]), cons_append]
    · rw [if_pos (by simp [hc]), if_pos (by simp [hc])]
      exact ih ((mem_cons.mp h).resolve_left (Ne.symm hc))

theorem fromTag_of_notMem (h : '<' ∉ s) : fromTag (s ++ t) = fromTag t := by
  induction s with
  | nil => rfl
  | cons c s ih =>
    rw [mem_cons, not_or] at h
    rw [fromTag, cons_append, dropWhile_cons, if_pos (by simpa using Ne.symm h.1)]
    exact ih h.2

theorem fromTag_append_cons : fromTag (s ++ '<' :: t) = fromTag s ++ '<' :: t := by
  by_cases h : '<' ∈ s
  · exact fromTag_append_of_mem h
  · have hs := fromTag_of_notMem (t := []) h
    rw [append_nil] at hs
    rw [fromTag_of_notMem h, hs]
    simp [fromTag]

theorem fromTag_suffix : fromTag s <:+ s := dropWhile_suffix _

theorem step_of_notMem (h : '<' ∉ s) : step s = .next := by
  rw [step, find_of_head_notMem (n := ['<']) (d := '<') rfl h]

theorem step_of_mem (h : '<' ∈ s) : step s =
    match find opening s with
    | none => .parse (fromTag s)
    | some (start, rest) =>
      match find closing (opening ++ rest) with
      | none => .skip
      | some (comment, rest) =>
        match find slash (fromTag s) with
        | none => .next
        | some (tmp, _) =>
          if tmp.length < (fromTag start).length ∨
              (fromTag start).length + comment.length < tmp.length then
            .parse (fromTag start ++ (replicate (comment.length + 3) ' ' ++ rest))
          else .next := by
  obtain ⟨p, rest, hfind⟩ := exists_find_singleton h
  have hs : s = p ++ '<' :: rest := append_of_find hfind
  have hp : '<' ∉ p := notMem_of_find hfind
  have hfrom : fromTag s = '<' :: rest := by
    rw [hs, fromTag_of_notMem hp]
    simp [fromTag]
  have hopen : find opening s = (find opening ('<' :: rest)).map fun r => (p ++ r.1, r.2) := by
    rw [hs, find_append_of_head opening_head hp]
  rw [step, hfind, hopen, hfrom]
  show (match find opening ('<' :: rest) with
    | none => Step.parse ('<' :: rest)
    | some (start, rest') => _) = _
  cases hmark : find opening ('<' :: rest) with
  | none => rfl
  | some r =>
    obtain ⟨start, rest'⟩ := r
    have hstart : fromTag (p ++ start) = start := by
      have hsplit := append_of_find hmark
      rw [fromTag_of_notMem hp]
      cases start with
      | nil => rfl
      | cons c start =>
        rw [cons_append] at hsplit
        rw [← (List.cons.inj hsplit).1]
        simp [fromTag]
    simp only [map_some, hstart] <;> rfl

theorem Tagless.startTag (h : Tagless s) (ht : tag ∈ tags) : ¬ startTag tag <:+: s := (h tag ht).1

theorem Tagless.not_suffix (h : Tagless s) (ht : tag ∈ tags) (hs : s = u ++ (opening ++ v)) :
    ¬ '<' :: tag <:+ u := by
  rintro ⟨p, rfl⟩
  exact (h tag ht).2 ⟨p, v, by rw [hs]; simp⟩

theorem Tagless.blanked (h : Tagless s) (ht : tag ∈ tags) (hs : s = u ++ (opening ++ v))
    (hx : ¬ FirehoseScript.startTag tag <:+: x) :
    ¬ FirehoseScript.startTag tag <:+: u ++ (replicate (n + 1) ' ' ++ x) :=
  startTag_blanks ht
    (fun hin => h.startTag ht (hin.trans (hs ▸ (prefix_append u _).isInfix)))
    (h.not_suffix ht hs) hx

theorem slash_suffix_line (l : CommandLine) : slash <:+ l.element.line := by
  obtain ⟨p, hp⟩ := l.command.ends
  exact ⟨'<' :: (l.element.tag ++ (text l.element.attributes ++ p)), by
    rw [Element.line, Element.rest, CommandLine.element, ← hp]; simp⟩

theorem lt_mem_text (l : CommandLine) : '<' ∈ l.text := by
  simp [CommandLine.text, Element.line]

theorem length_find_lt {p q : Str} (hn : x ≠ []) (hin : x <:+: s)
    (h : find x (s ++ t) = some (p, q)) : p.length < s.length := by
  obtain ⟨r, hr⟩ := isSome_iff_exists.mp ((find_isSome_iff hn).mpr hin)
  have hsome := find_append_of_some (t := t) hr
  rw [h] at hsome
  have hp : p = r.1 := congrArg Prod.fst (some.inj hsome)
  have hlen := congrArg List.length (append_of_find hr)
  have hpos := length_pos_iff.mpr hn
  simp only [length_append] at hlen
  rw [hp]
  omega

theorem step_closed (l : CommandLine) {start rest comment r : Str}
    (hopen : find opening l.before = some (start, rest))
    (hclose : find closing (opening ++ rest) = some (comment, r)) :
    step l.text = if (find slash (fromTag start)).isSome ∨ find slash comment = none then
      .parse (fromTag start ++ (replicate (comment.length + 3) ' ' ++
        (r ++ (l.element.line ++ l.after)))) else .next := by
  have hclose' : find closing (opening ++ (rest ++ (l.element.line ++ l.after))) =
      some (comment, r ++ (l.element.line ++ l.after)) := by
    rw [← append_assoc]
    exact find_append_of_some hclose
  have hsplit : '<' :: (['!', '-', '-'] ++ (rest ++ (l.element.line ++ l.after))) =
      comment ++ '-' :: ('-' :: '>' :: (r ++ (l.element.line ++ l.after))) :=
    append_of_find hclose'
  have hfrom : fromTag l.text =
      fromTag start ++ '<' :: (['!', '-', '-'] ++ (rest ++ (l.element.line ++ l.after))) := by
    rw [← fromTag_append_cons, CommandLine.text, append_of_find hopen]
    simp [opening]
  have hslash : slash ≠ [] := by decide
  rw [step_of_mem (lt_mem_text l), find_opening_text, hopen, hfrom]
  simp only [hclose']
  rw [find_append_cons (by decide : '<' ∉ slash)]
  cases hstart : find slash (fromTag start) with
  | some q =>
    have hlen := congrArg List.length (append_of_find hstart)
    simp only [length_append, slash, length_cons] at hlen
    simp only
    rw [if_pos (.inl (by omega)), if_pos (.inl rfl)]
  | none =>
    simp only
    rw [hsplit, find_append_cons (by decide : '-' ∉ slash)]
    cases hcomment : find slash comment with
    | some q =>
      have hlen := congrArg List.length (append_of_find hcomment)
      simp only [length_append, slash, length_cons] at hlen
      simp only [map_some, length_append]
      rw [if_neg (by omega), if_neg (by simp)]
    | none =>
      obtain ⟨⟨p, q⟩, hrest⟩ : ∃ x,
          find slash ('-' :: '>' :: (r ++ (l.element.line ++ l.after))) = some x := by
        rw [← isSome_iff_exists, find_isSome_iff hslash]
        exact (slash_suffix_line l).isInfix.trans ⟨'-' :: '>' :: r, l.after, by simp⟩
      rw [find_cons_of_notMem hslash (by decide), hrest]
      simp only [map_some, length_append, length_cons]
      rw [if_pos (.inr (by omega)), if_pos (.inr trivial)]

theorem step_open (l : CommandLine) {start rest : Str}
    (hopen : find opening l.before = some (start, rest))
    (hclose : find closing (opening ++ rest) = none) (hin : ¬ closing <:+: l.element.line)
    (hparse : step l.text = .parse x) (ht : tag ∈ tags) : ¬ startTag tag <:+: x := by
  rw [step_of_mem (lt_mem_text l), find_opening_text, hopen] at hparse
  simp only at hparse
  cases hfind : find closing (opening ++ (rest ++ (l.element.line ++ l.after))) with
  | none =>
    rw [hfind] at hparse
    cases hparse
  | some q =>
    obtain ⟨comment, r⟩ := q
    rw [hfind] at hparse
    simp only at hparse
    split at hparse
    · cases hparse
    · split at hparse
      swap
      · cases hparse
      obtain rfl := Step.parse.inj hparse
      -- The comment ends behind the command.
      have hr : r <:+ l.after := by
        have hsplit := append_of_find hfind
        obtain h | ⟨r', rfl⟩ := suffix_or_suffix_of_suffix
          (show r <:+ comment ++ (closing ++ r) from ⟨comment ++ closing, by simp⟩)
          (show l.after <:+ comment ++ (closing ++ r) from
            ⟨opening ++ (rest ++ l.element.line), by rw [← hsplit]; simp⟩)
        · exact h
        · exfalso
          have hline : (opening ++ rest) ++ l.element.line = comment ++ (closing ++ r') := by
            have h' : (opening ++ rest) ++ l.element.line ++ l.after =
                comment ++ (closing ++ r') ++ l.after := by simpa using hsplit
            exact append_cancel_right h'
          have hsome : (find closing ((opening ++ rest) ++ l.element.line)).isSome = true := by
            rw [find_isSome_iff (by decide), hline]
            exact ⟨comment, r', by simp⟩
          rw [Element.line, find_append_cons (by decide), hclose] at hsome
          simp only [isSome_map] at hsome
          exact hin ((find_isSome_iff (by decide)).mp hsome)
      have hbefore : l.before = start ++ (opening ++ rest) := append_of_find hopen
      refine startTag_blanks ht ?_ ?_ ?_
      · exact fun h => l.before_tagless.startTag ht (h.trans (fromTag_suffix.isInfix.trans
          (hbefore ▸ (prefix_append start _).isInfix)))
      · exact fun h => l.before_tagless.not_suffix ht hbefore (h.trans fromTag_suffix)
      · exact fun h => l.after_tagless.startTag ht (h.trans hr.isInfix)

theorem fromTag_line (l : CommandLine) :
    fromTag (l.before ++ (l.element.line ++ t)) = fromTag l.before ++ (l.element.line ++ t) :=
  fromTag_append_cons

theorem startTag_fromTag (l : CommandLine) (ht : tag ∈ tags) :
    ¬ startTag tag <:+: fromTag l.before := fun h =>
  l.before_tagless.startTag ht (h.trans fromTag_suffix.isInfix)

theorem step_command (l : CommandLine) (hsep : (Line.command l).Separate c) :
    (l.Taken → ∃ u, step l.text = .parse (u ++ (l.element.line ++ l.handed)) ∧
      (∀ tag ∈ tags, ¬ startTag tag <:+: u) ∧ ∀ tag ∈ tags, ¬ startTag tag <:+: l.handed) ∧
    (¬ l.Taken → ∀ x, step l.text = .parse x → ∀ tag ∈ tags, ¬ startTag tag <:+: x) := by
  have hstep := step_of_mem (lt_mem_text l)
  rw [find_opening_text] at hstep
  cases hbefore : find opening l.before with
  | none =>
    rw [CommandLine.Taken, CommandLine.handed, hbefore]
    rw [hbefore] at hstep
    cases hafter : find opening l.after with
    | none =>
      rw [hafter] at hstep
      refine ⟨fun _ => ⟨fromTag l.before, ?_, fun tag ht => startTag_fromTag l ht,
        fun tag ht => l.after_tagless.startTag ht⟩, fun h => (h (by simp)).elim⟩
      rw [hstep, CommandLine.text, ← fromTag_line]
      rfl
    | some q =>
      obtain ⟨start, rest⟩ := q
      have hsplit : l.after = start ++ (opening ++ rest) := append_of_find hafter
      rw [hafter] at hstep
      simp only [map_some] at hstep
      cases hclose : find closing (opening ++ rest) with
      | none =>
        rw [hclose] at hstep
        refine ⟨fun h => ?_, fun _ x hx => ?_⟩
        · have := h (start, rest) rfl
          rw [hclose] at this
          cases this
        · rw [hstep] at hx
          cases hx
      | some q =>
        obtain ⟨comment, r⟩ := q
        have hr := append_of_find hclose
        rw [hclose] at hstep
        simp only at hstep
        obtain ⟨⟨p, p'⟩, hslash⟩ : ∃ x, find slash (fromTag l.text) = some x := by
          rw [← isSome_iff_exists, find_isSome_iff (by decide), CommandLine.text,
            fromTag_line]
          exact (slash_suffix_line l).isInfix.trans ⟨fromTag l.before, l.after, by simp⟩
        have hlen : p.length < (fromTag (l.before ++ (l.element.line ++ start))).length := by
          rw [CommandLine.text, hsplit, fromTag_line] at hslash
          rw [fromTag_line]
          refine length_find_lt (t := opening ++ rest) (by decide)
            ((slash_suffix_line l).isInfix.trans ⟨fromTag l.before, start, by simp⟩)
            (q := p') ?_
          rw [← hslash]
          simp
        rw [hslash] at hstep
        simp only at hstep
        rw [if_pos (.inl hlen), fromTag_line] at hstep
        refine ⟨fun _ => ⟨fromTag l.before, ?_, fun tag ht => startTag_fromTag l ht,
          fun tag ht => ?_⟩, fun h => (h ?_).elim⟩
        · rw [hstep]
          simp [hclose]
        · simp only [hclose]
          refine l.after_tagless.blanked ht hsplit fun hin => l.after_tagless.startTag ht ?_
          refine hin.trans ⟨start ++ (comment ++ closing), [], ?_⟩
          rw [hsplit, hr]
          simp
        · rintro _ ⟨⟩
          rw [hclose]
          rfl
  | some q =>
    obtain ⟨start, rest⟩ := q
    have hsplit : l.before = start ++ (opening ++ rest) := append_of_find hbefore
    rw [CommandLine.Taken, CommandLine.handed, hbefore]
    cases hclose : find closing (opening ++ rest) with
    | none =>
      have hcomment : inComment c l.before = true := by
        by_contra hout
        rw [Bool.not_eq_true, hsplit] at hout
        have hin := (find_isSome_iff (by decide)).mpr (closing_of_opening hout)
        rw [hclose] at hin
        cases hin
      refine ⟨?_, fun _ x hparse tag ht => step_open l hbefore hclose (hsep hcomment) hparse ht⟩
      simp [hclose]
    | some q =>
      obtain ⟨comment, r⟩ := q
      have hr := append_of_find hclose
      rw [step_closed l hbefore hclose]
      constructor
      · rintro ⟨q, hq, h⟩
        rw [hclose] at hq
        cases hq
        refine ⟨fromTag start ++ (replicate (comment.length + 3) ' ' ++ r), ?_,
          fun tag ht => ?_, fun tag ht => l.after_tagless.startTag ht⟩
        · rw [if_pos h]
          simp
        · refine startTag_blanks ht (fun hin => ?_) (fun hin => ?_) fun hin => ?_
          · exact l.before_tagless.startTag ht (hin.trans (fromTag_suffix.isInfix.trans
              (hsplit ▸ (prefix_append start _).isInfix)))
          · exact l.before_tagless.not_suffix ht hsplit (hin.trans fromTag_suffix)
          · refine l.before_tagless.startTag ht (hin.trans ⟨start ++ (comment ++ closing), [], ?_⟩)
            rw [hsplit, hr]
            simp
      · intro h x hx
        rw [if_neg fun hc => h ⟨_, hclose, hc⟩] at hx
        cases hx

theorem step_plain (h : Tagless s) (hparse : step s = .parse x) (ht : tag ∈ tags) :
    ¬ startTag tag <:+: x := by
  by_cases hmem : '<' ∈ s
  swap
  · rw [step_of_notMem hmem] at hparse
    cases hparse
  rw [step_of_mem hmem] at hparse
  cases hopen : find opening s with
  | none =>
    rw [hopen] at hparse
    obtain rfl := Step.parse.inj hparse
    exact fun hin => h.startTag ht (hin.trans fromTag_suffix.isInfix)
  | some q =>
    obtain ⟨start, rest⟩ := q
    have hsplit : s = start ++ (opening ++ rest) := append_of_find hopen
    rw [hopen] at hparse
    simp only at hparse
    cases hclose : find closing (opening ++ rest) with
    | none =>
      rw [hclose] at hparse
      cases hparse
    | some q =>
      obtain ⟨comment, r⟩ := q
      have hr := append_of_find hclose
      rw [hclose] at hparse
      simp only at hparse
      split at hparse
      · cases hparse
      split at hparse
      swap
      · cases hparse
      obtain rfl := Step.parse.inj hparse
      refine startTag_blanks ht (fun hin => ?_) (fun hin => ?_) fun hin => ?_
      · exact h.startTag ht (hin.trans (fromTag_suffix.isInfix.trans
          (hsplit ▸ (prefix_append start _).isInfix)))
      · exact h.not_suffix ht hsplit (hin.trans fromTag_suffix)
      · refine h.startTag ht (hin.trans ⟨start ++ (comment ++ closing), [], ?_⟩)
        rw [hsplit, hr]
        simp

theorem step_eq_skip_iff : step s = .skip ↔ leavesOpen s = true := by
  rw [leavesOpen]
  by_cases hmem : '<' ∈ s
  · rw [step_of_mem hmem]
    cases find opening s with
    | none => simp
    | some q =>
      obtain ⟨start, rest⟩ := q
      simp only
      cases find closing (opening ++ rest) with
      | none => simp
      | some q =>
        simp only [isSome_some, Bool.not_true, Bool.false_eq_true, iff_false]
        split
        · exact fun h => by cases h
        · split <;> exact fun h => by cases h
  · rw [step_of_notMem hmem, find_of_head_notMem opening_head hmem]
    simp

def Line.read (skipping : Bool) (l : Line) : Option FhCmd :=
  if skipping then none
  else
    match step l.text with
    | .parse xmlLine => (tagOf xmlLine tags).bind fhParseXmlLine
    | _ => none

theorem fhParseXmlLine_handed (l : CommandLine) (hblank : l.element.rest.head? = some ' ') :
    fhParseXmlLine (l.element.line ++ l.handed) = none ↔ l.Refused := by
  have htag : ∀ tag ∈ [erase, program, patch, response, log],
      (isTag tag (l.element.line ++ l.handed) = true ↔ l.element.tag = tag) := fun tag ht =>
    (isTag_command l.command (isWord_of_tag ht)).trans (and_iff_left hblank)
  have hnodup := tags_nodup
  simp only [nodup_cons, mem_cons, not_mem_nil, or_false, not_or] at hnodup
  obtain ⟨⟨h12, h13, -⟩, ⟨h23, -⟩, -⟩ := hnodup
  rw [fhParseXmlLine, CommandLine.Refused]
  cases hvendor : find (vendor ++ '=' :: '"' :: (quectel ++ ['"']))
      (l.element.line ++ l.handed) with
  | some r => simp
  | none =>
    rw [if_neg (by simp), and_iff_right rfl]
    have hmem := l.command.tag
    rw [← CommandLine.element] at hmem
    simp only [tags, mem_cons, not_mem_nil, or_false] at hmem
    rcases hmem with h | h | h
    · rw [if_pos ((htag erase (by decide)).mpr h)]
      simp [h, h12, h13]
    · rw [if_neg (mt (htag erase (by decide)).mp (h ▸ Ne.symm h12)),
        if_pos ((htag program (by decide)).mpr h)]
      simp [h, h23]
    · rw [if_neg (mt (htag erase (by decide)).mp (h ▸ Ne.symm h13)),
        if_neg (mt (htag program (by decide)).mp (h ▸ Ne.symm h23)),
        if_pos ((htag patch (by decide)).mpr h)]
      simp [h, Ne.symm h23]

theorem read_isSome_iff (skipping : Bool) (l : Line) (hsep : l.Separate c) :
    (l.read skipping).isSome = true ↔ l.IsRead skipping := by
  cases skipping with
  | true =>
    refine iff_of_false (by simp [Line.read]) ?_
    cases l with
    | plain s h => exact id
    | command l => exact fun h => absurd h.1 (by decide)
  | false =>
    rw [Line.read, if_neg (by decide)]
    cases l with
    | plain s h =>
      refine iff_of_false ?_ id
      show ¬ (match step s with
        | .parse xmlLine => (tagOf xmlLine tags).bind fhParseXmlLine
        | _ => none).isSome = true
      cases hstep : step s with
      | next => simp
      | skip => simp
      | parse x => simp [tagOf_eq_none fun tag ht => step_plain h hstep ht]
    | command l =>
      obtain ⟨htaken, hnot⟩ := step_command l hsep
      show (match step l.text with
        | .parse xmlLine => (tagOf xmlLine tags).bind fhParseXmlLine
        | _ => none).isSome = true ↔
          false = false ∧ l.element.rest.head? = some ' ' ∧ l.Taken ∧ ¬ l.Refused
      rw [and_iff_right rfl]
      by_cases h : l.Taken
      · obtain ⟨u, hstep, hu, hv⟩ := htaken h
        rw [hstep]
        simp only
        have htag : tagOf (u ++ (l.element.line ++ l.handed)) tags =
            if l.element.rest.head? = some ' ' then some (l.element.line ++ l.handed) else none :=
          tagOf_command l.command hu hv
        rw [htag]
        by_cases hblank : l.element.rest.head? = some ' '
        · rw [if_pos hblank, bind_some, and_iff_right hblank, and_iff_right h,
            ← fhParseXmlLine_handed l hblank, isSome_iff_ne_none]
        · rw [if_neg hblank]
          exact iff_of_false (by simp) fun h' => hblank h'.1
      · refine iff_of_false ?_ fun h' => h h'.2.1
        cases hstep : step l.text with
        | next => simp
        | skip => simp
        | parse x => simp [tagOf_eq_none (hnot h x hstep)]

def recordedLines : (skipping : Bool) → (number : Nat) → List Line → List (Nat × FhCmd)
  | _, _, [] => []
  | skipping, number, l :: ls =>
    let rest := recordedLines (l.skips skipping) (number + 1) ls
    match l.read skipping with
    | none => rest
    | some cmd => (number, cmd) :: rest

variable {ls : List Line}

theorem fhParseLines_eq (skipping : Bool) (count number : Nat) :
    fhParseLines skipping count number (ls.map (·.text)) =
      if recordedLines skipping number ls = [] ∨
          count + (recordedLines skipping number ls).length < fhCmdNum then
        some (recordedLines skipping number ls)
      else none := by
  induction ls generalizing skipping count number with
  | nil => cases skipping <;> rfl
  | cons l ls ih =>
    rw [map_cons]
    cases skipping with
    | true =>
      have hread : l.read true = none := rfl
      rw [fhParseLines, ih, recordedLines, hread]
      rfl
    | false =>
      have hskips : l.skips false = leavesOpen l.text := rfl
      have hread : l.read false = match step l.text with
        | .parse xmlLine => (tagOf xmlLine tags).bind fhParseXmlLine
        | _ => none := rfl
      rw [fhParseLines, recordedLines, hskips, hread]
      cases hstep : step l.text with
      | next =>
        have hopen : leavesOpen l.text = false := by
          rw [← Bool.not_eq_true, ← step_eq_skip_iff, hstep]
          exact fun h => by cases h
        simp only [hopen]
        exact ih ..
      | skip =>
        have hopen : leavesOpen l.text = true := step_eq_skip_iff.mp hstep
        simp only [hopen]
        exact ih ..
      | parse x =>
        have hopen : leavesOpen l.text = false := by
          rw [← Bool.not_eq_true, ← step_eq_skip_iff, hstep]
          exact fun h => by cases h
        simp only [hopen]
        cases (tagOf x tags).bind fhParseXmlLine with
        | none => exact ih ..
        | some cmd =>
          simp only
          rw [ih]
          generalize recordedLines false (number + 1) ls = rest
          by_cases hroom : count + (rest.length + 1) < fhCmdNum
          · rw [if_neg (by omega), if_pos (.inr (by omega)), if_pos (.inr hroom)]
            rfl
          · rw [if_neg (show ¬ ((number, cmd) :: rest = [] ∨
              count + ((number, cmd) :: rest).length < fhCmdNum) from
                fun h => h.elim (fun h => by cases h) hroom)]
            split
            · rfl
            · next hcount =>
              rw [if_neg]
              · rfl
              · rintro (rfl | h)
                · exact hroom (not_le.mp hcount)
                · omega

theorem le_of_mem_recordedLines (ls : List Line) (skipping : Bool) (number : Nat) :
    ∀ n ∈ (recordedLines skipping number ls).map Prod.fst, number ≤ n := by
  induction ls generalizing skipping number with
  | nil => exact fun n hn => by cases hn
  | cons l ls ih =>
    intro n hn
    rw [recordedLines] at hn
    cases hread : l.read skipping with
    | none =>
      rw [hread] at hn
      exact (Nat.le_succ number).trans (ih _ _ n hn)
    | some cmd =>
      rw [hread] at hn
      obtain rfl | hn := mem_cons.mp hn
      · exact le_rfl
      · exact (Nat.le_succ number).trans (ih _ _ n hn)

theorem le_of_mem_commands (ls : List Line) (c : Bool) (number : Nat) :
    ∀ n ∈ commands c number ls, number ≤ n := by
  induction ls generalizing c number with
  | nil => exact fun n hn => by cases hn
  | cons l ls ih =>
    intro n hn
    rw [commands] at hn
    split at hn
    · obtain rfl | hn := mem_cons.mp hn
      · exact le_rfl
      · exact (Nat.le_succ number).trans (ih _ _ n hn)
    · exact (Nat.le_succ number).trans (ih _ _ n hn)

theorem map_recordedLines_iff (skipping : Bool) (number : Nat) (hsep : Separate c ls) :
    (recordedLines skipping number ls).map Prod.fst = commands c number ls ↔
      Clear c skipping ls := by
  induction ls generalizing c skipping number with
  | nil => exact iff_of_true rfl trivial
  | cons l ls ih =>
    have hread := read_isSome_iff skipping l hsep.1
    have ih := ih (l.skips skipping) (number + 1) hsep.2
    have hrec := le_of_mem_recordedLines ls (l.skips skipping) (number + 1)
    have hcom := le_of_mem_commands ls (inComment c l.text) (number + 1)
    rw [recordedLines, commands, Clear, ← hread]
    cases hline : l.read skipping with
    | none =>
      by_cases h : l.IsCommand c
      · rw [if_pos h]
        refine iff_of_false (fun heq => ?_) fun h' => by simpa using h'.1.mp h
        have hmem : number ∈ (recordedLines (l.skips skipping) (number + 1) ls).map Prod.fst := by
          rw [heq]
          exact mem_cons_self
        exact absurd (hrec number hmem) (by omega)
      · rw [if_neg h, ih]
        simp [h]
    | some cmd =>
      simp only [map_cons]
      by_cases h : l.IsCommand c
      · rw [if_pos h, List.cons.injEq, ih]
        simp [h]
      · rw [if_neg h]
        refine iff_of_false (fun heq => ?_) fun h' => h (h'.1.mpr rfl)
        have hmem : number ∈ commands (inComment c l.text) (number + 1) ls := by
          rw [← heq]
          exact mem_cons_self
        exact absurd (hcom number hmem) (by omega)

/-- One command for each element outside of comments, in the order of the file. -/
def Exactly (count : Nat) (ls : List Line) : Prop :=
  ∃ cmds, fhParseXmlFile count (ls.flatMap (·.text)) = some cmds ∧
    cmds.map Prod.fst = commands false 0 ls

theorem fhParseXmlFile_eq (count : Nat) (hkept : Kept (ls.map (·.text)))
    (hshort : ∀ s ∈ lines (ls.flatMap (·.text)), s.length < 1023)
    (hnull : ∀ l ∈ ls, '\x00' ∉ l.text) :
    fhParseXmlFile count (ls.flatMap (·.text)) = fhParseLines false count 0 (ls.map (·.text)) := by
  have hflat : ls.flatMap (·.text) = (ls.map (·.text)).flatten := by rw [flatMap_def]
  rw [fhParseXmlFile, reads_eq_keepLines hshort, hflat, keepLines_flatten hkept]
  congr 1
  rw [List.map_map]
  apply map_congr_left
  intro l hl
  rw [Function.comp_apply, takeWhile_eq_self_iff]
  intro c hc
  rw [decide_eq_true_eq]
  rintro rfl
  exact hnull l hl hc

/-- Which scripts are read as they are. -/
theorem script_iff (count : Nat) (ls : List Line) (hkept : Kept (ls.map (·.text)))
    (hshort : ∀ s ∈ lines (ls.flatMap (·.text)), s.length < 1023)
    (hnull : ∀ l ∈ ls, '\x00' ∉ l.text) (hsep : Separate false ls) :
    Exactly count ls ↔ Clear false false ls ∧
      (commands false 0 ls = [] ∨ count + (commands false 0 ls).length < fhCmdNum) := by
  have hiff := map_recordedLines_iff false 0 hsep
  rw [Exactly, fhParseXmlFile_eq count hkept hshort hnull, fhParseLines_eq]
  constructor
  · rintro ⟨cmds, hcmds, heq⟩
    split at hcmds
    case isFalse => cases hcmds
    case isTrue hroom =>
      obtain rfl := some.inj hcmds
      refine ⟨hiff.mp heq, ?_⟩
      rw [← heq, length_map, map_eq_nil_iff]
      exact hroom
  · rintro ⟨hclear, hroom⟩
    have heq := hiff.mpr hclear
    rw [← heq, length_map, map_eq_nil_iff] at hroom
    exact ⟨_, if_pos hroom, heq⟩

theorem erase_word : IsWord erase := .of_all (by decide)

theorem erase_end : ∀ c ∈ [' ', '/', '>'], isspace c = true ∨ c = '/' ∨ c = '>' := by
  simp [isspace]

theorem erase_distinct : Distinct [] := nodup_nil

def eraseElement : Element := ⟨erase, [], ⟨[' ', '/', '>'], erase_end⟩, erase_word, erase_distinct⟩

theorem erase_mem_tags : eraseElement.tag ∈ tags := by decide

theorem erase_plain : '<' ∉ eraseElement.tag ++ eraseElement.rest := by decide

theorem erase_ends : slash <:+ eraseElement.tail.text := by decide

theorem tagless_of (h : tags.all fun tag =>
    (find (startTag tag) s).isNone && (find ('<' :: (tag ++ opening)) s).isNone) : Tagless s := by
  intro tag ht
  have htag := List.all_eq_true.mp h tag ht
  rw [Bool.and_eq_true, isNone_iff_eq_none, isNone_iff_eq_none] at htag
  rw [← find_isSome_iff startTag_ne_nil, ← find_isSome_iff (cons_ne_nil _ _), htag.1, htag.2]
  exact ⟨Bool.false_ne_true, Bool.false_ne_true⟩

theorem newline_tagless : Tagless ['\n'] := tagless_of (by decide)

theorem nil_tagless : Tagless [] := tagless_of (by decide)

theorem opening_tagless : Tagless (opening ++ ['\n']) := tagless_of (by decide)

theorem closing_tagless : Tagless (closing ++ ['\n']) := tagless_of (by decide)

def commentedOut : List Line := [
  .plain (opening ++ ['\n']) opening_tagless,
  .plain ['\n'] newline_tagless,
  .command ⟨[], ⟨eraseElement, erase_mem_tags, erase_plain, erase_ends⟩, ['\n'], nil_tagless,
    newline_tagless⟩,
  .plain (closing ++ ['\n']) closing_tagless]

theorem script_iff_commentedOut : Exactly 0 commentedOut ↔ Clear false false commentedOut ∧
    (commands false 0 commentedOut = [] ∨
      0 + (commands false 0 commentedOut).length < fhCmdNum) := by
  refine script_iff 0 commentedOut ⟨?_, ?_, ?_⟩ ?_ ?_ ?_
  · decide
  · decide
  · decide
  · decide
  · decide
  · refine ⟨trivial, trivial, fun _ => ?_, trivial, trivial⟩
    decide

/-- It is erased all the same. -/
theorem not_exactly : ¬ Exactly 0 commentedOut := by
  rintro ⟨cmds, hcmds, heq⟩
  have hread : (fhParseXmlFile 0 (commentedOut.flatMap (·.text))).map (·.map Prod.fst) =
      some [2] := by decide
  rw [hcmds, map_some, heq] at hread
  exact absurd hread (by decide)

end ModemSupport.Rooter.FirehoseScript
