import ModemSupport.Rooter.FirehoseAnswers

/-! Which bytes `_fh_recv_cmd` reads in bounds, and the documents whose answers are all handed over:
those of which a read has one answer at most, with nothing behind it that is taken for its own. -/

namespace ModemSupport.Rooter.FirehoseAnswers

open Lib.Text Lib.Markup FirehoseLine List Option
open Firehose hiding Str fhParseXmlLine

variable {s t mem key : Str} {room : Nat} {cmd : Option FhCmd}

theorem cstr_append (hs : '\x00' ∉ s) : cstr (s ++ '\x00' :: t) = s := by
  rw [cstr, takeWhile_append_of_pos, takeWhile_cons_of_neg (by simp), append_nil]
  intro c hc
  simp only [ne_eq, decide_eq_true_eq]
  rintro rfl
  exact hs hc

theorem eq_cstr (h : '\x00' ∈ mem) :
    mem = cstr mem ++ '\x00' :: mem.drop ((cstr mem).length + 1) ∧ '\x00' ∉ cstr mem := by
  obtain ⟨s, t, rfl, hs⟩ : ∃ s t, mem = s ++ '\x00' :: t ∧ '\x00' ∉ s := by
    obtain ⟨s, t, hfind⟩ := exists_find_singleton h
    exact ⟨s, t, append_of_find hfind, notMem_of_find hfind⟩
  rw [cstr_append hs]
  refine ⟨?_, hs⟩
  simp

theorem quoted_isSome : (quoted mem).isSome = true ↔ '\x00' ∈ mem := by
  rw [quoted]
  split <;> simp_all

theorem drop_find {r : Str × Str} (h : '\x00' ∈ mem) (hfind : find key (cstr mem) = some r) :
    mem.drop (r.1.length + key.length) =
      r.2 ++ '\x00' :: mem.drop ((cstr mem).length + 1) := by
  obtain ⟨hmem, -⟩ := eq_cstr h
  have hsplit := append_of_find hfind
  have hall : mem = (r.1 ++ key) ++ (r.2 ++ '\x00' :: mem.drop ((cstr mem).length + 1)) := by
    have hjoin : cstr mem ++ '\x00' :: mem.drop ((cstr mem).length + 1) =
        (r.1 ++ (key ++ r.2)) ++ '\x00' :: mem.drop ((cstr mem).length + 1) :=
      congrArg (· ++ '\x00' :: mem.drop ((cstr mem).length + 1)) hsplit
    exact (hmem.trans hjoin).trans (by simp)
  conv_lhs => rw [hall]
  rw [← length_append, drop_left]

theorem findValueAt_isSome (h : '\x00' ∈ mem) :
    (findValueAt mem key).isSome = true ↔ LookupFits mem key := by
  rw [findValueAt, LookupFits]
  cases hfind : find key (cstr mem) with
  | none => simp
  | some r =>
    obtain ⟨p, q⟩ := r
    have hdrop := drop_find h hfind
    simp only at hdrop
    simp only [some.injEq, forall_eq']
    rw [hdrop]
    generalize mem.drop ((cstr mem).length + 1) = rest
    rcases q with _ | ⟨c, _ | ⟨d, q⟩⟩
    · rcases rest with _ | ⟨c, rest⟩
      · simp
      · by_cases hc : c = '"'
        · subst hc
          simp [quoted_isSome]
        · simp [hc]
    · by_cases hc : c = '='
      · subst hc
        simp [quoted_isSome]
      · simp [hc]
    · refine iff_of_true ?_ (by simp)
      by_cases hc : c = '='
      · subst hc
        simp [quoted_isSome]
      · by_cases hd : d = '"'
        · subst hd
          simp [quoted_isSome]
        · simp

theorem getValueAt_isSome (h : '\x00' ∈ mem) :
    (getValueAt mem key).isSome = true ↔ LookupFits mem key := by
  rw [getValueAt, isSome_map, findValueAt_isSome h]

theorem parseResponse_isSome (h : '\x00' ∈ mem) : (parseResponse mem).isSome = true ↔
    LookupFits mem value ∧ if (find rawmode (cstr mem)).isSome then LookupFits mem rawmode
      else LookupFits mem maxPayloadSizeToTargetInBytes := by
  rw [← getValueAt_isSome h, ← getValueAt_isSome h, ← getValueAt_isSome h, parseResponse]
  cases hvalue : getValueAt mem value with
  | none => simp
  | some v =>
    rw [isSome_some, and_iff_right rfl]
    show (if (find rawmode (cstr mem)).isSome then _ else _ : Option Response).isSome = true ↔ _
    by_cases hraw : (find rawmode (cstr mem)).isSome = true
    · rw [if_pos hraw, if_pos hraw]
      cases getValueAt mem rawmode <;> simp
    · rw [if_neg hraw, if_neg hraw]
      cases hmax : find maxPayloadSizeToTargetInBytes (cstr mem) with
      | none => simp [getValueAt, findValueAt, hmax]
      | some r => 
        rw [if_pos isSome_some]
        cases getValueAt mem maxPayloadSizeToTargetInBytes <;> simp

theorem parseAt_isSome (room : Nat) (h : '\x00' ∈ mem) : (parseAt room mem).isSome = true ↔
    (cstr mem).length ≤ room ∧ LineFits mem := by
  rw [parseAt, LineFits]
  by_cases hroom : room < (cstr mem).length
  · rw [if_pos hroom]
    exact iff_of_false (by simp) fun hle => absurd hle.1 (by omega)
  rw [if_neg hroom, and_iff_right (not_lt.mp hroom)]
  cases hvendor : find vendorPair (cstr mem) with
  | some r => simp
  | none =>
    rw [if_neg (by simp), imp_iff_right rfl]
    by_cases htag : isTag response (cstr mem) = true
    · rw [if_pos htag, imp_iff_right htag, isSome_map, parseResponse_isSome h]
    · rw [if_neg htag]
      exact iff_of_true rfl fun h => (htag h).elim

theorem isAnswer_of_parseAt {cmd : FhCmd} (h : parseAt room mem = some cmd) :
    isAnswer (some cmd) = (isTag response (cstr mem) || (find vendorPair (cstr mem)).isSome) := by
  rw [parseAt] at h
  split at h
  · cases h
  split at h
  · next hvendor =>
    cases h
    rw [hvendor, Bool.or_true]
    rfl
  · next hvendor =>
    rw [Bool.not_eq_true] at hvendor
    rw [hvendor, Bool.or_false]
    split at h
    · next htag =>
      obtain ⟨r, -, rfl⟩ := map_eq_some_iff.mp h
      rw [htag]
      rfl
    · next htag =>
      cases h
      rw [Bool.not_eq_true] at htag
      rw [htag]
      rfl

theorem cstr_drop {n : Nat} (h : '\x00' ∈ mem) (hn : n ≤ (cstr mem).length) :
    '\x00' ∈ mem.drop n := by
  obtain ⟨hmem, -⟩ := eq_cstr h
  rw [hmem, drop_append_of_le_length hn]
  simp

theorem skip_le {skip : Nat} (h : nextElement s = .element skip) : skip ≤ s.length := by
  rw [nextElement] at h
  cases hxml : find xmlVersion s with
  | none =>
    rw [hxml] at h
    cases h
  | some r =>
    obtain ⟨p, q⟩ := r
    have hs := congrArg List.length (append_of_find hxml)
    rw [hxml] at h
    simp only at h
    cases hdata : find data q with
    | none =>
      rw [hdata] at h
      cases h
    | some r =>
      obtain ⟨p', q'⟩ := r
      have hq := congrArg List.length (append_of_find hdata)
      rw [hdata] at h
      simp only [length_append] at hs hq
      obtain rfl := Next.element.inj h
      split
      next hhead =>
        obtain ⟨q'', rfl⟩ := List.head?_eq_some_iff.mp hhead
        rw [length_cons] at hq
        omega
      next => omega

/-- One element, whatever is left behind in the buffer. -/
theorem recvLoop_line {room skip : Nat} {mem line : Str}
    {g : Str → Bool × Option FhCmd × Str → Bool × Option FhCmd × Str} (hline : '\x00' ∈ line)
    (hrest : ∀ start cmd', (recvLoop room (mem.drop (skip + (start + 2))) cmd').isSome = true ↔
      Bounded room (mem.drop (skip + (start + 2))) (isAnswer cmd')) :
    (match parseAt room line, find slash (cstr line) with
      | some cmd', some (start, _) =>
        (recvLoop room (mem.drop (skip + (start.length + 2))) (some cmd')).map (g start)
      | _, _ => none).isSome = true ↔
    (cstr line).length ≤ room ∧ LineFits line ∧
      match find slash (cstr line) with
      | none => False
      | some (start, _) => Bounded room (mem.drop (skip + (start.length + 2)))
          (isTag response (cstr line) || (find vendorPair (cstr line)).isSome) := by
  have hparse := parseAt_isSome room hline
  cases hcmd : parseAt room line with
  | none =>
    rw [hcmd] at hparse
    refine iff_of_false (by simp) fun h => ?_
    exact absurd (hparse.mpr ⟨h.1, h.2.1⟩) (by simp)
  | some cmd' =>
    rw [hcmd] at hparse
    obtain ⟨hroom, hfits⟩ := hparse.mp rfl
    rw [and_iff_right hroom, and_iff_right hfits]
    cases find slash (cstr line) with
    | none => simp
    | some r =>
      obtain ⟨start, rest⟩ := r
      simp only [isSome_map]
      rw [hrest, isAnswer_of_parseAt hcmd]

theorem recvLoop_isSome (room : Nat) (mem : Str) (cmd : Option FhCmd) :
    (recvLoop room mem cmd).isSome = true ↔ Bounded room mem (isAnswer cmd) := by
  induction hn : mem.length using Nat.strong_induction_on generalizing mem cmd with
  | _ n ih =>
    subst hn
    rw [recvLoop.eq_def, Bounded.eq_def]
    cases mem with
    | nil => simp
    | cons c mem =>
      simp only
      by_cases hc : c = '\x00'
      · rw [if_pos hc]
        exact iff_of_true rfl (.inl hc)
      rw [if_neg hc, or_iff_right hc]
      by_cases hmem : '\x00' ∈ mem
      swap
      · rw [if_pos hmem]
        exact iff_of_false (by simp) fun h => hmem h.1
      rw [if_neg (not_not.mpr hmem), and_iff_right hmem]
      cases hnext : nextElement (cstr (c :: mem)) with
      | none => simp
      | error => simp
      | element skip =>
        have hline : '\x00' ∈ (c :: mem).drop skip :=
          cstr_drop (mem_cons_of_mem c hmem) (skip_le hnext)
        simp only
        generalize hx : (c :: mem).drop skip = line at hline ⊢
        have hstep := fun g => recvLoop_line (g := g) hline fun start cmd' => ih _
          (by simp only [length_drop, length_cons]; omega) (mem.drop (skip + (start + 2))) cmd' rfl
        by_cases hresponse : isTag response (cstr line) = true
        · rw [if_pos hresponse, imp_iff_right (.inl hresponse)]
          exact hstep _
        · rw [if_neg hresponse]
          by_cases hlog : isTag log (cstr line) = true
          · rw [if_pos hlog]
            by_cases hanswer : isAnswer cmd = true
            · rw [if_pos hanswer]
              refine iff_of_true rfl fun h => ?_
              obtain h | h := h
              · exact (hresponse h).elim
              · exact (h.2 hanswer).elim
            · rw [if_neg hanswer, imp_iff_right (.inr ⟨hlog, hanswer⟩)]
              exact hstep fun start r => (r.1, r.2.1, (c :: mem).take skip ++
                ((line.take (start.length + 2)).map dot ++
                  (line.drop (start.length + 2)).take 1) ++ r.2.2)
          · rw [if_neg hlog]
            refine iff_of_true rfl fun h => ?_
            obtain h | h := h
            · exact (hresponse h).elim
            · exact (hlog h.1).elim

theorem fhRecvCmd_isSome (room : Nat) (buffer bytes : Str) :
    (fhRecvCmd room buffer bytes).isSome = true ↔ bytes = [] ∨ bytes.length < xmlRxSize ∧
      Bounded room (bytes ++ '\x00' :: buffer.drop (bytes.length + 1)) false := by
  rw [fhRecvCmd]
  by_cases hnil : bytes = []
  · simp [hnil]
  · rw [if_neg hnil, or_iff_right hnil]
    split
    · next hlen =>
      rw [recvLoop_isSome, and_iff_right hlen]
      rfl
    · next hlen => exact iff_of_false (by simp) fun h => hlen h.1

variable {d : Doc} {ds : List Doc} {stale u : Str} {e : Element}

theorem xmlVersion_head : xmlVersion.head? = some '<' := by decide

theorem xmlVersion_once : '<' ∉ xmlVersion.tail := by decide

theorem notMem_of_blank {c : Char} (hs : ∀ c ∈ s, isspace c = true) (hc : isspace c = false) :
    c ∉ s := by
  intro hmem
  rw [hs c hmem] at hc
  cases hc

theorem null_notMem_text (d : Doc) : '\x00' ∉ d.text := by
  have hgap := notMem_of_blank (c := '\x00') d.gap_blank rfl
  have hclose := notMem_of_blank (c := '\x00') d.close_blank rfl
  have hafter := notMem_of_blank (c := '\x00') d.after_blank rfl
  have hno := d.no_null
  have hxml : '\x00' ∉ xmlVersion := by decide
  have hdata : '\x00' ∉ data := by decide
  have hcd : '\x00' ∉ closeData := by decide
  simp only [mem_append, not_or] at hno
  simp only [Doc.text, Doc.trailer, Element.line, mem_append, mem_cons, not_or]
  exact ⟨hxml, hno.1, hdata, hgap, ⟨by decide, hno.2.1, hno.2.2⟩, hclose, hcd, hafter⟩

theorem null_notMem_textOf (ds : List Doc) : '\x00' ∉ textOf ds := by
  rw [textOf, mem_flatMap]
  rintro ⟨d, -, hd⟩
  exact null_notMem_text d hd

theorem null_notMem_line (d : Doc) (ds : List Doc) : '\x00' ∉ d.line ds := by
  have htext := null_notMem_text d
  have hds := null_notMem_textOf ds
  simp only [Doc.text, mem_append, not_or] at htext
  simp only [Doc.line, mem_append, not_or]
  exact ⟨htext.2.2.2.2.1, htext.2.2.2.2.2, hds⟩

theorem nextElement_text (d : Doc) (ds : List Doc) (hu : find xmlVersion u = none)
    (hgap : d.gap = [] ∨ d.gap = ['\n']) :
    nextElement (u ++ textOf (d :: ds)) = .element
      (u ++ (xmlVersion ++ (d.version ++ (data ++ d.gap)))).length := by
  have hxml : find xmlVersion (u ++ textOf (d :: ds)) = some (u, d.version ++ (data ++ (d.gap ++
      d.line ds))) := by
    have htext : textOf (d :: ds) =
        xmlVersion ++ (d.version ++ (data ++ (d.gap ++ d.line ds))) := by
      simp [textOf, Doc.text, Doc.line]
    obtain ⟨x, hx⟩ : ∃ x, xmlVersion = '<' :: x := List.head?_eq_some_iff.mp xmlVersion_head
    rw [htext]
    have hhead : u ++ (xmlVersion ++ (d.version ++ (data ++ (d.gap ++ d.line ds)))) =
        u ++ '<' :: (x ++ (d.version ++ (data ++ (d.gap ++ d.line ds)))) := by
      rw [hx, cons_append]
    rw [hhead, find_append_head xmlVersion_head xmlVersion_once, hu]
    have hself : find xmlVersion ('<' :: (x ++ (d.version ++ (data ++ (d.gap ++ d.line ds))))) =
        some ([], d.version ++ (data ++ (d.gap ++ d.line ds))) := by
      rw [← cons_append, ← hx, find_append_self]
    rw [hself]
    simp
  have hdata : find data (d.version ++ (data ++ (d.gap ++ d.line ds))) =
      some (d.version, d.gap ++ d.line ds) := by
    rw [find_append_of_head (d := '<') (by decide) d.version_plain, find_append_self]
    simp
  rw [nextElement, hxml]
  simp only [hdata]
  congr 1
  have hline : (d.line ds).head? = some '<' := rfl
  obtain h | h := hgap
  · rw [h, nil_append, hline]
    simp
    omega
  · rw [h]
    simp
    omega

theorem gt_mem_line (d : Doc) : '>' ∈ d.element.line := by
  obtain ⟨p, hp⟩ := d.ends
  simp [Element.line, Element.rest, ← hp, slash]

theorem isTag_line_doc (d : Doc) (ds : List Doc) {tag : Str} (htag : tag ∈ [response, log])
    (hblank : d.element.rest.head? = some ' ') :
    isTag tag (d.line ds) = true ↔ d.element.tag = tag := by
  have hword : IsWord tag := isWord_of_tag (by
    simp only [mem_cons, not_mem_nil, or_false] at htag ⊢
    tauto)
  rw [Doc.line, isTag_append d.element (gt_mem_line d) hword, and_iff_left hblank]

theorem find_slash_line (d : Doc) (ds : List Doc) : ∃ start rest,
    find slash (d.line ds) = some (start, rest) ∧ start.length + 2 ≤ d.element.line.length := by
  obtain ⟨p, hp⟩ := d.ends
  have hin : slash <:+: d.element.line :=
    ⟨'<' :: (d.element.tag ++ (Lib.Markup.text d.element.attributes ++ p)), [], by
      rw [Element.line, Element.rest, ← hp]; simp⟩
  obtain ⟨⟨start, rest⟩, hfind⟩ :=
    isSome_iff_exists.mp ((find_isSome_iff (by decide)).mpr hin)
  have hlen := congrArg List.length (append_of_find hfind)
  simp only [length_append, slash, length_cons, length_nil] at hlen
  exact ⟨start, _, find_append_of_some hfind, by omega⟩

def Doc.left (d : Doc) (start : Nat) : Str := (d.element.line ++ d.trailer).drop (start + 3)

theorem find_trailer (d : Doc) : find xmlVersion d.trailer = none := by
  have hclose : '<' ∉ d.close := notMem_of_blank d.close_blank rfl
  have hafter : '<' ∉ "/data>".toList ++ d.after := by
    rw [mem_append, not_or]
    exact ⟨by decide, notMem_of_blank d.after_blank rfl⟩
  have hcd : closeData ++ d.after = '<' :: ("/data>".toList ++ d.after) := by
    rw [show closeData = '<' :: "/data>".toList by decide, cons_append]
  have hpre : ¬ xmlVersion.isPrefixOf ('<' :: ("/data>".toList ++ d.after)) = true := by
    rw [List.isPrefixOf_iff_prefix]
    intro h
    have hx : xmlVersion = '<' :: '?' :: "xml version=".toList := by decide
    have hd : "/data>".toList = '/' :: "data>".toList := by decide
    rw [hx, hd, cons_append, cons_prefix_cons, cons_prefix_cons] at h
    exact absurd h.2.1 (by decide)
  rw [Doc.trailer, find_append_of_head xmlVersion_head hclose, hcd, find, if_neg hpre,
    find_of_head_notMem xmlVersion_head hafter]
  rfl

theorem trailer_ne_nil (d : Doc) : 1 ≤ d.trailer.length := by
  have hcd : closeData.length = 7 := by decide
  rw [Doc.trailer, length_append, length_append]
  omega

theorem find_left (d : Doc) {start : Nat} (hstart : start + 2 ≤ d.element.line.length) :
    find xmlVersion (d.left start) = none := by
  have htrailer := find_trailer d
  rw [Doc.left]
  by_cases hlen : start + 3 ≤ d.element.line.length
  · have hplain : '<' ∉ d.element.line.drop (start + 3) := by
      intro hmem
      rw [Element.line, drop_succ_cons] at hmem
      exact d.plain (mem_of_mem_drop hmem)
    rw [drop_append_of_le_length hlen, find_append_of_head xmlVersion_head hplain, htrailer]
    rfl
  · have heq : start + 3 = d.element.line.length + 1 := by omega
    rw [heq, ← drop_drop, drop_left]
    rw [← not_isSome_iff_eq_none, find_isSome_iff (by decide)] at htrailer ⊢
    exact fun h => htrailer (h.trans (drop_suffix 1 _).isInfix)

theorem drop_line (d : Doc) (ds : List Doc) {start : Nat}
    (hstart : start + 2 ≤ d.element.line.length) :
    (d.line ds ++ t).drop (start + 3) = d.left start ++ (textOf ds ++ t) := by
  have htrailer := trailer_ne_nil d
  have hline : d.line ds ++ t = (d.element.line ++ d.trailer) ++ (textOf ds ++ t) := by
    simp [Doc.line]
  rw [hline, drop_append_of_le_length (by rw [length_append]; omega), Doc.left]

theorem exists_end (d : Doc) (ds : List Doc) :
    ∃ s w, d.line ds = s ++ '<' :: ("/data>".toList ++ w) ∧
    ∀ c ∈ w, isspace c = true := by
  induction ds generalizing d with
  | nil =>
    refine ⟨d.element.line ++ d.close, d.after, ?_, d.after_blank⟩
    rw [Doc.line, Doc.trailer, show closeData = '<' :: "/data>".toList by decide]
    simp [textOf]
  | cons d' ds ih =>
    obtain ⟨s, w, hs, hw⟩ := ih d'
    refine ⟨d.element.line ++
      (d.trailer ++ (xmlVersion ++ (d'.version ++ (data ++ (d'.gap ++ s))))), w, ?_, hw⟩
    have htext : textOf (d' :: ds) =
        xmlVersion ++ (d'.version ++ (data ++ (d'.gap ++ d'.line ds))) := by
      simp [textOf, Doc.text, Doc.line]
    rw [Doc.line, htext, hs]
    simp

theorem length_behind (d : Doc) (ds : List Doc) (hk : IsWord key)
    (hdata : find key "data".toList = none) {r : Str × Str} (h : find key (d.line ds) = some r) :
    2 ≤ r.2.length := by
  obtain ⟨s, w, hs, hw⟩ := exists_end d ds
  have hsplit : "/data>".toList ++ w = '/' :: ("data".toList ++ '>' :: w) := by
    rw [show "/data>".toList = '/' :: ("data".toList ++ ['>']) by decide]
    simp
  rw [hs, hsplit, find_append_cons (hk.notMem rfl)] at h
  cases hfind : find key s with
  | some q =>
    rw [hfind] at h
    obtain rfl := some.inj h
    simp only [length_append, length_cons]
    omega
  | none =>
    have hblank : find key w = none := find_of_notMem hk.ne_nil fun c hc =>
      hk.notMem (parts_of_isspace (hw c hc))
    rw [hfind, find_cons_of_notMem hk.ne_nil (hk.notMem rfl),
      find_cons_of_notMem hk.ne_nil (hk.notMem rfl), find_append_cons (hk.notMem rfl), hdata,
      find_cons_of_notMem hk.ne_nil (hk.notMem rfl), hblank] at h
    cases h

theorem quoted_append (hs : '\x00' ∉ s) :
    quoted (s ++ '\x00' :: stale) = some ((find ['"'] s).map Prod.fst) := by
  rw [quoted, if_pos (by simp), cstr_append hs]

theorem getValueAt_eq (hs : '\x00' ∉ s) (h : ∀ r, find key s = some r → 2 ≤ r.2.length) :
    getValueAt (s ++ '\x00' :: stale) key = some (fhXmlGetValue s key) := by
  have hfilter : ∀ v : Option Str, v.filter (·.length < 64) =
      v.bind fun v => if v.length < 64 then some v else none := by
    intro v
    cases v with
    | none => rfl
    | some v => rw [filter_some]; simp
  rw [getValueAt, findValueAt, cstr_append hs, fhXmlGetValue, fhXmlFindValue]
  cases hfind : find key s with
  | none => rfl
  | some r =>
    obtain ⟨p, q⟩ := r
    have hlen := h _ hfind
    rcases q with _ | ⟨c₀, _ | ⟨c₁, q⟩⟩
    · simp at hlen
    · simp at hlen
    have hsplit := append_of_find hfind
    have hq : '\x00' ∉ q := fun hmem => hs (by simp [hsplit, hmem])
    have hdrop : (s ++ '\x00' :: stale).drop (p.length + key.length) =
        c₀ :: c₁ :: (q ++ '\x00' :: stale) := by
      have hall : s ++ '\x00' :: stale = (p ++ key) ++ (c₀ :: c₁ :: (q ++ '\x00' :: stale)) := by
        rw [hsplit]
        simp
      rw [hall, ← length_append, drop_left]
    simp only
    rw [hdrop]
    by_cases hc₀ : c₀ = '='
    · subst hc₀
      simp only
      rw [drop_one, tail_cons, quoted_append hq, if_neg (by simp)]
      cases find ['"'] q with
      | none => rfl
      | some r => simp [hfilter]
    · by_cases hc₁ : c₁ = '"'
      · subst hc₁
        simp only
        rw [quoted_append hq, if_neg (by simp)]
        cases find ['"'] q with
        | none => rfl
        | some r => simp [hfilter]
      · simp [hc₀, hc₁]

theorem parseResponse_line (d : Doc) (ds : List Doc) (hreads : Reads d.element (d.line ds)) :
    parseResponse (d.line ds ++ '\x00' :: stale) = some (answer d.element) := by
  have hno := null_notMem_line d ds
  have hget : ∀ k, IsWord k → find k "data".toList = none →
      getValueAt (d.line ds ++ '\x00' :: stale) k = some (fhXmlGetValue (d.line ds) k) :=
    fun k hk hdata => getValueAt_eq hno fun r hr => length_behind d ds hk hdata hr
  have hpayload := hreads.payload
  rw [parseResponse, cstr_append hno, hget value (.of_all (by decide)) (by decide),
    hget rawmode (.of_all (by decide)) (by decide),
    hget maxPayloadSizeToTargetInBytes (.of_all (by decide)) (by decide)]
  show (if (find rawmode (d.line ds)).isSome then _ else _ : Option Response) = _
  rw [answer, ← hreads.value]
  by_cases hraw : (find rawmode (d.line ds)).isSome = true
  · rw [if_pos hraw] at hpayload ⊢
    have hmode : (fhXmlGetValue (d.line ds) rawmode == some true') =
        (lookup rawmode d.element.attributes == some true') := by
      rw [Bool.eq_iff_iff, beq_iff_eq, beq_iff_eq]
      exact hreads.rawmode
    rw [← hmode, ← hpayload]
    rfl
  · have hnone : fhXmlGetValue (d.line ds) rawmode = none := by
      rw [not_isSome_iff_eq_none] at hraw
      rw [fhXmlGetValue, fhXmlFindValue_eq, hraw]
      rfl
    have hmode : (lookup rawmode d.element.attributes == some true') = false := by
      rw [beq_eq_false_iff_ne]
      intro h
      have := hreads.rawmode.mpr h
      rw [hnone] at this
      cases this
    rw [if_neg hraw] at hpayload ⊢
    rw [hmode, ← hpayload]
    cases hmax : find maxPayloadSizeToTargetInBytes (d.line ds) with
    | some r => rfl
    | none =>
      have hzero : getNumber (d.line ds) maxPayloadSizeToTargetInBytes = 0 := by
        rw [getNumber, fhXmlGetValue, fhXmlFindValue_eq, hmax]
        rfl
      rw [hzero]
      rfl

theorem parseAt_answer (d : Doc) (ds : List Doc) (hblank : d.element.rest.head? = some ' ')
    (hroom : (d.line ds).length ≤ room) (hvendor : find vendorPair (d.line ds) = none)
    (htag : d.element.tag = response) (hreads : Reads d.element (d.line ds)) :
    parseAt room (d.line ds ++ '\x00' :: stale) = some (.response (answer d.element)) := by
  have hno := null_notMem_line d ds
  rw [parseAt, cstr_append hno, if_neg (not_lt.mpr hroom), hvendor, if_neg (by simp),
    if_pos ((isTag_line_doc d ds (by decide) hblank).mpr htag), parseResponse_line d ds hreads]
  rfl

theorem parseAt_log (d : Doc) (ds : List Doc) (hblank : d.element.rest.head? = some ' ')
    (hroom : (d.line ds).length ≤ room) (hvendor : find vendorPair (d.line ds) = none)
    (htag : d.element.tag = log) : parseAt room (d.line ds ++ '\x00' :: stale) = some .log := by
  have hno := null_notMem_line d ds
  have hnot : ¬ isTag response (d.line ds) = true := by
    rw [isTag_line_doc d ds (by decide) hblank, htag]
    decide
  rw [parseAt, cstr_append hno, if_neg (not_lt.mpr hroom), hvendor, if_neg (by simp), if_neg hnot]

/-- `fh_cmd` behind the documents of a read. -/
def outcome : Option FhCmd → List Doc → Option FhCmd
  | cmd, [] => cmd
  | cmd, d :: ds =>
    if isAnswer cmd then cmd
    else outcome (some (if d.element.tag = response then .response (answer d.element) else .log)) ds

theorem isSome_of_isAnswer (h : isAnswer cmd = true) : cmd.isSome = true := by
  cases cmd with
  | none => cases h
  | some cmd => rfl

theorem isAnswer_iff (d : Doc) : isAnswer (some
    (if d.element.tag = response then FhCmd.response (answer d.element) else .log)) =
      decide (d.element.tag = response) := by
  by_cases h : d.element.tag = response
  · rw [if_pos h, decide_eq_true h]
    rfl
  · rw [if_neg h, decide_eq_false h]
    rfl

theorem recvLoop_next (stale : Str) (d : Doc) (ds : List Doc) (u : Str)
    (hu : find xmlVersion u = none) (hnull : '\x00' ∉ u) (hgap : d.gap = [] ∨ d.gap = ['\n']) :
    ∃ c mem skip, c :: mem = u ++ (textOf (d :: ds) ++ '\x00' :: stale) ∧ c ≠ '\x00' ∧
      '\x00' ∈ mem ∧ nextElement (cstr (c :: mem)) = .element skip ∧
        (c :: mem).drop skip = d.line ds ++ '\x00' :: stale := by
  have hnull' : '\x00' ∉ u ++ textOf (d :: ds) := by
    rw [mem_append, not_or]
    exact ⟨hnull, null_notMem_textOf (d :: ds)⟩
  have hnext := nextElement_text d ds hu hgap
  have hsplit : u ++ (textOf (d :: ds) ++ '\x00' :: stale) =
      (u ++ (xmlVersion ++ (d.version ++ (data ++ d.gap)))) ++
        (d.line ds ++ '\x00' :: stale) := by
    simp [textOf, Doc.text, Doc.line]
  obtain ⟨c, mem, hmem⟩ : ∃ c mem, u ++ textOf (d :: ds) = c :: mem := by
    cases htext : u ++ textOf (d :: ds) with
    | nil => rw [htext] at hnext; cases hnext
    | cons c mem => exact ⟨c, mem, rfl⟩
  have hassoc : c :: (mem ++ '\x00' :: stale) = u ++ (textOf (d :: ds) ++ '\x00' :: stale) := by
    rw [← cons_append, ← hmem, append_assoc]
  refine ⟨c, mem ++ '\x00' :: stale,
    (u ++ (xmlVersion ++ (d.version ++ (data ++ d.gap)))).length, hassoc, ?_, by simp, ?_, ?_⟩
  · rintro rfl
    exact hnull' (by simp [hmem])
  · rw [← cons_append, ← hmem, cstr_append hnull']
    exact hnext
  · rw [hassoc, hsplit, drop_left]

theorem recvLoop_answered (room : Nat) (stale : Str) (d : Doc) (ds : List Doc)
    (cmd : Option FhCmd) (u : Str)
    (hu : find xmlVersion u = none) (hnull : '\x00' ∉ u) (hcmd : isAnswer cmd = true)
    (hgood : d.Seen) (htag : d.element.tag = log) : ∃ mem,
      recvLoop room (u ++ (textOf (d :: ds) ++ '\x00' :: stale)) cmd = some (true, cmd, mem) := by
  obtain ⟨hgap, hblank⟩ := hgood
  obtain ⟨c, mem, skip, hmem, hc, hin, hnext, hline⟩ :=
    recvLoop_next stale d ds u hu hnull hgap
  have hnot : ¬ isTag response (d.line ds) = true := by
    rw [isTag_line_doc d ds (by decide) hblank, htag]
    decide
  rw [← hmem, recvLoop.eq_def]
  simp only
  rw [if_neg hc, if_neg (not_not.mpr hin), hnext]
  simp only
  rw [hline, cstr_append (null_notMem_line d ds), if_neg hnot,
    if_pos ((isTag_line_doc d ds (by decide) hblank).mpr htag), if_pos hcmd]
  exact ⟨_, rfl⟩

theorem recvLoop_doc (d : Doc) (ds : List Doc) (cmd : Option FhCmd) (u : Str)
    (hu : find xmlVersion u = none) (hnull : '\x00' ∉ u) (hcmd : isAnswer cmd = false)
    (hgood : Handed room false (d :: ds)) : ∃ used left, find xmlVersion left = none ∧
      '\x00' ∉ left ∧ recvLoop room (u ++ (textOf (d :: ds) ++ '\x00' :: stale)) cmd =
        (recvLoop room (left ++ (textOf ds ++ '\x00' :: stale)) (some
          (if d.element.tag = response then .response (answer d.element) else .log))).map
            fun r => (r.1, r.2.1, used ++ r.2.2) := by
  obtain ⟨⟨hgap, hblank⟩, hroom, hvendor, hreads, -⟩ := hgood
  obtain ⟨start, rest, hslash, hstart⟩ := find_slash_line d ds
  obtain ⟨c, mem, skip, hmem, hc, hin, hnext, hline⟩ :=
    recvLoop_next stale d ds u hu hnull hgap
  have hno := null_notMem_line d ds
  have hmore : mem.drop (skip + (start.length + 2)) =
      d.left start.length ++ (textOf ds ++ '\x00' :: stale) := by
    have hdrop : mem.drop (skip + (start.length + 2)) = ((c :: mem).drop skip).drop
        (start.length + 3) := by
      rw [drop_drop]
      rfl
    rw [hdrop, hline, drop_line d ds hstart]
  have hnoleft : '\x00' ∉ d.left start.length := by
    intro hmem'
    refine hno ?_
    rw [Doc.line, ← append_assoc]
    exact mem_append_left _ (mem_of_mem_drop hmem')
  rw [← hmem, recvLoop.eq_def]
  simp only
  rw [if_neg hc, if_neg (not_not.mpr hin), hnext]
  simp only
  rw [hline, cstr_append hno, hslash]
  obtain htag | htag := d.tag
  · rw [if_pos ((isTag_line_doc d ds (by decide) hblank).mpr htag),
      parseAt_answer d ds hblank hroom hvendor htag (hreads htag), if_pos htag]
    simp only
    rw [hmore]
    exact ⟨_, _, find_left d hstart, hnoleft, rfl⟩
  · have hnot : ¬ d.element.tag = response := by rw [htag]; decide
    rw [if_neg (mt (isTag_line_doc d ds (by decide) hblank).mp hnot),
      if_pos ((isTag_line_doc d ds (by decide) hblank).mpr htag), if_neg (by simp [hcmd]),
      parseAt_log d ds hblank hroom hvendor htag, if_neg hnot]
    simp only
    rw [hmore]
    exact ⟨_, _, find_left d hstart, hnoleft, rfl⟩

theorem recvLoop_docs (stale : Str) (ds : List Doc) (cmd : Option FhCmd) (u : Str)
    (hgood : Handed room (isAnswer cmd) ds) (hu : find xmlVersion u = none) (hnull : '\x00' ∉ u) :
    ∃ mem, recvLoop room (u ++ (textOf ds ++ '\x00' :: stale)) cmd =
      some ((outcome cmd ds).isSome, outcome cmd ds, mem) := by
  induction ds generalizing cmd u with
  | nil =>
    have hmem : u ++ (textOf [] ++ '\x00' :: stale) = u ++ '\x00' :: stale := rfl
    rw [hmem, recvLoop.eq_def]
    cases u with
    | nil => exact ⟨'\x00' :: stale, by simp [outcome]⟩
    | cons c u =>
      have hc : c ≠ '\x00' := fun h => hnull (by simp [h])
      have hcstr : cstr (c :: (u ++ '\x00' :: stale)) = c :: u :=
        cstr_append (s := c :: u) hnull
      have hnext : nextElement (c :: u) = .none := by rw [nextElement, hu]
      refine ⟨c :: (u ++ '\x00' :: stale), ?_⟩
      simp only [cons_append]
      rw [if_neg hc, if_neg (by simp), hcstr, hnext]
      rfl
  | cons d ds ih =>
    cases hcmd : isAnswer cmd with
    | false =>
      rw [hcmd] at hgood
      obtain ⟨used, left, hleft, hnoleft, hloop⟩ := recvLoop_doc d ds cmd u hu hnull hcmd hgood
      have hrest := hgood.2.2.2.2
      rw [← isAnswer_iff] at hrest
      obtain ⟨mem, hmem⟩ := ih _ left hrest hleft hnoleft
      refine ⟨used ++ mem, ?_⟩
      have hnot : ¬ isAnswer cmd = true := by
        rw [hcmd]
        exact Bool.false_ne_true
      rw [hloop, hmem, outcome, if_neg hnot]
      rfl
    | true =>
      rw [hcmd] at hgood
      obtain ⟨hseen, hlog⟩ := hgood
      obtain ⟨mem, hmem⟩ := recvLoop_answered room stale d ds cmd u hu hnull hcmd
        hseen (hlog d (by simp))
      refine ⟨mem, ?_⟩
      rw [hmem, outcome, if_pos hcmd, isSome_of_isAnswer hcmd]

theorem outcome_answered (h : isAnswer cmd = true) : outcome cmd ds = cmd := by
  cases ds with
  | nil => rfl
  | cons d ds => rw [outcome, if_pos h]

theorem outcome_isSome (h : cmd.isSome = true ∨ ds ≠ []) : (outcome cmd ds).isSome = true := by
  induction ds generalizing cmd with
  | nil => exact h.resolve_right fun hne => hne rfl
  | cons d ds ih =>
    rw [outcome]
    by_cases hcmd : isAnswer cmd = true
    · rw [if_pos hcmd, isSome_of_isAnswer hcmd]
    · rw [if_neg hcmd]
      exact ih (.inl rfl)

theorem answers_cons (d : Doc) (ds : List Doc) : answers (d :: ds) =
    if d.element.tag = response then answer d.element :: answers ds else answers ds := by
  rw [answers, filter_cons]
  by_cases h : d.element.tag = response
  · rw [if_pos h, if_pos (decide_eq_true h), map_cons]
    rfl
  · rw [if_neg h, if_neg (by rw [decide_eq_false h]; exact Bool.false_ne_true)]
    rfl

theorem answers_of_log (h : ∀ d ∈ ds, d.element.tag = log) : answers ds = [] := by
  have hnone : (ds.filter fun d => d.element.tag = response) = [] := by
    rw [filter_eq_nil_iff]
    intro d hd hresponse
    rw [decide_eq_true_eq, h d hd] at hresponse
    exact absurd hresponse (by decide)
  rw [answers, hnone, map_nil]

theorem Handed.log (h : Handed room true ds) : ∀ d ∈ ds, d.element.tag = FirehoseLine.log := by
  cases ds with
  | nil => intro d hd; cases hd
  | cons d ds => exact h.2

theorem outcome_answers (hcmd : isAnswer cmd = false) (h : Handed room false ds) :
    ((outcome cmd ds).filter (· ≠ .log)).toList = (answers ds).map .response := by
  induction ds generalizing cmd with
  | nil =>
    rw [outcome]
    rcases cmd with _ | cmd
    · rfl
    · cases cmd with
      | log => rfl
      | _ => cases hcmd
  | cons d ds ih =>
    obtain ⟨-, -, -, -, hrest⟩ := h
    rw [outcome, if_neg (by rw [hcmd]; exact Bool.false_ne_true), answers_cons]
    by_cases htag : d.element.tag = response
    · rw [decide_eq_true htag] at hrest
      rw [if_pos htag, if_pos htag, outcome_answered rfl, answers_of_log hrest.log]
      rfl
    · rw [decide_eq_false htag] at hrest
      rw [if_neg htag, if_neg htag]
      exact ih rfl hrest

theorem Handed.value (h : Handed room false ds) : ∀ r ∈ answers ds, r.value ≠ none := by
  induction ds with
  | nil => intro r hr; cases hr
  | cons d ds ih =>
    obtain ⟨-, -, -, hreads, hrest⟩ := h
    intro r hr
    rw [answers_cons] at hr
    by_cases htag : d.element.tag = response
    · rw [decide_eq_true htag] at hrest
      rw [if_pos htag, answers_of_log hrest.log, mem_singleton] at hr
      rw [hr, answer]
      simp only [ne_eq, map_eq_none_iff]
      exact (hreads htag).value_ne
    · rw [decide_eq_false htag] at hrest
      rw [if_neg htag] at hr
      exact ih hrest r hr

theorem fhRecvCmd_docs (buffer : Str) (h : ReadOk room ds) : ∃ mem,
    fhRecvCmd room buffer (textOf ds) = some (true, outcome none ds, mem) := by
  have hne : textOf ds ≠ [] := by
    obtain ⟨d, ds, rfl⟩ := exists_cons_of_ne_nil h.ne_nil
    intro hnil
    have hlen := congrArg List.length hnil
    have hxml : xmlVersion.length = 14 := by decide
    simp only [textOf, flatMap_cons, Doc.text, length_append, length_nil] at hlen
    omega
  obtain ⟨mem, hmem⟩ := recvLoop_docs (buffer.drop ((textOf ds).length + 1)) ds none []
    h.handed rfl (not_mem_nil)
  rw [nil_append, outcome_isSome (.inr h.ne_nil)] at hmem
  refine ⟨mem, ?_⟩
  rw [fhRecvCmd, if_neg hne, if_pos h.length, hmem]

theorem fhRecvCmdThread_docs (groups : List (List Doc)) (h : ∀ ds ∈ groups, ReadOk room ds)
    (buffer : Str) : fhRecvCmdThread room buffer (groups.map textOf) =
      some ((groups.flatMap answers).map .response) := by
  induction groups generalizing buffer with
  | nil => rfl
  | cons ds groups ih =>
    have hread := h ds (mem_cons_self ..)
    obtain ⟨mem, hmem⟩ := fhRecvCmd_docs buffer hread
    rw [map_cons, fhRecvCmdThread, hmem]
    simp only
    rw [ih (fun ds' hds' => h ds' (mem_cons_of_mem _ hds')) mem,
      outcome_answers rfl hread.handed, flatMap_cons, map_append]
    rfl

theorem answers_value (groups : List (List Doc)) (h : ∀ ds ∈ groups, ReadOk room ds) :
    ∀ r ∈ groups.flatMap answers, r.value ≠ none := by
  intro r hr
  obtain ⟨ds, hds, hr⟩ := mem_flatMap.mp hr
  exact (h ds hds).handed.value r hr

theorem length_cmds (reads : List Str) (buffer : Str) {cmds : List FhCmd}
    (h : fhRecvCmdThread room buffer reads = some cmds) : cmds.length ≤ reads.length := by
  induction reads generalizing buffer cmds with
  | nil =>
    cases h
    exact Nat.le_refl 0
  | cons bytes reads ih =>
    rw [fhRecvCmdThread] at h
    split at h
    · cases h
    · cases h
      exact Nat.zero_le _
    · next cmd mem hread =>
      obtain ⟨cmds', hcmds', rfl⟩ := map_eq_some_iff.mp h
      have hle := ih mem hcmds'
      have hone : (cmd.filter (· ≠ .log)).toList.length ≤ 1 := by
        cases cmd.filter (· ≠ .log) <;> simp
      rw [length_append, length_cons]
      omega

/-- A read is followed in bounds if and only if it leaves room for the null, every element it
reaches has its end and room in `fh_cmd`, and no key ends the text; and what a run of reads with one
answer at most and nothing of its own behind it hands over are the answers. -/
theorem handed_iff (room : Nat) :
    (∀ buffer bytes, (fhRecvCmd room buffer bytes).isSome = true ↔ bytes = [] ∨
      bytes.length < xmlRxSize ∧
        Bounded room (bytes ++ '\x00' :: buffer.drop (bytes.length + 1)) false) ∧
    ∀ (buffer : Str) (groups : List (List Doc)), (∀ ds ∈ groups, ReadOk room ds) →
      fhRecvCmdThread room buffer (groups.map textOf) =
        some ((groups.flatMap answers).map .response) ∧
      ∀ r ∈ groups.flatMap answers, r.value ≠ none :=
  ⟨fhRecvCmd_isSome room, fun buffer groups h =>
    ⟨fhRecvCmdThread_docs groups h buffer, answers_value groups h⟩⟩

def ack : Str := "ACK".toList

theorem acknowledged_plain : '"' ∉ ack := by decide

theorem acknowledged_word : IsWord response := .of_all (by decide)

theorem value_word : IsWord value := .of_all (by decide)

theorem acknowledged_end : ∀ c ∈ slash, isspace c = true ∨ c = '/' ∨ c = '>' := by
  intro c hc
  obtain rfl | rfl : c = '/' ∨ c = '>' := by simpa [slash] using hc
  · exact .inr (.inl rfl)
  · exact .inr (.inr rfl)

theorem acknowledged_distinct : Distinct [named value ack value_word acknowledged_plain] :=
  nodup_cons.mpr ⟨not_mem_nil, nodup_nil⟩

def acknowledged : Element where
  tag := response
  attributes := [named value ack value_word acknowledged_plain]
  tail := ⟨slash, acknowledged_end⟩
  tag_word := acknowledged_word
  distinct := acknowledged_distinct

theorem not_blank : ∀ c ∈ ([] : Str), isspace c = true := fun _ hc => absurd hc not_mem_nil

def versionOne : Str := "\"1.0\"?>".toList

theorem versionOne_plain : '<' ∉ versionOne := by decide

theorem acknowledged_tag : acknowledged.tag = response ∨ acknowledged.tag = log := .inl rfl

theorem acknowledged_open : '<' ∉ acknowledged.tag ++ acknowledged.rest := by decide

theorem acknowledged_ends : slash <:+ acknowledged.tail.text := suffix_rfl

theorem acknowledged_null : '\x00' ∉ versionOne ++ (acknowledged.tag ++ acknowledged.rest) := by
  decide

def ackDoc : Doc where
  version := versionOne
  gap := []
  element := acknowledged
  close := []
  after := []
  version_plain := versionOne_plain
  gap_blank := not_blank
  close_blank := not_blank
  after_blank := not_blank
  tag := acknowledged_tag
  plain := acknowledged_open
  ends := acknowledged_ends
  no_null := acknowledged_null

theorem ackDoc_readOk : ReadOk 512 [ackDoc] where
  ne_nil := cons_ne_nil _ _
  length := by decide
  handed := by
    refine ⟨⟨.inl rfl, by decide⟩, by decide, by decide, fun _ => ?_, trivial⟩
    exact ⟨by decide, by decide, by decide, by decide⟩

theorem handed_iff_acknowledged :
    fhRecvCmdThread 512 [] [textOf [ackDoc], textOf [ackDoc]] =
      some [.response ⟨some .ack, false, 0⟩, .response ⟨some .ack, false, 0⟩] :=
  ((handed_iff 512).2 [] [[ackDoc], [ackDoc]] (by
    intro ds hds
    obtain rfl : ds = [ackDoc] := by simpa using hds
    exact ackDoc_readOk)).1

/-- A read that fills the buffer has its null behind it, and of two answers in one read the second
one replaces the first. -/
theorem not_handed :
    (∃ bytes : Str, bytes.length = 1024 ∧ fhRecvCmd 512 [] bytes = none) ∧
    ∃ ds : List Doc, (textOf ds).length ≤ 1024 ∧
      fhRecvCmdThread 512 [] [textOf ds] ≠ some ((answers ds).map .response) := by
  refine ⟨⟨replicate 1024 ' ', length_replicate .., ?_⟩, [ackDoc, ackDoc], by decide, ?_⟩
  · rw [fhRecvCmd, if_neg (by simp), if_neg (by rw [length_replicate]; decide)]
  · intro h
    have hlen := length_cmds _ _ h
    rw [length_map] at hlen
    exact absurd hlen (by decide)

end ModemSupport.Rooter.FirehoseAnswers
