import ModemSupport.Cm.ResolvConf

/-! For which files `update_resolv_conf` (`util.c`) keeps the lines of the others as they are. -/

namespace ModemSupport.Cm.ResolvConf

open Lib.Text Lib.Gets List Option

/-- The tag is in a piece of the file that is read: in front of it there are fewer than 16 pieces
without. -/
def Marked (tag file : List Char) : Prop :=
  ∃ before piece after, reads dnsLineSize file = before ++ piece :: after ∧ tag <:+: piece ∧
    before.countP (fun p => ¬ tag <:+: p) < maxDns

/-- At most `free` lines, none of them blank or of more than 253 characters.  Blank lines, which are
doubled, can only follow if the doubled ones are as many as all of them and the array is full; then
the last line in front of them may have 254 characters, and so may one that ends the file. -/
structure Short (free : Nat) (atEnd : Prop) (ls : List (List Char)) : Prop where
  split : ∃ full k, ls = full ++ replicate k [] ∧ full.length ≤ free ∧
    (∀ l ∈ full, l ≠ [] ∧ l.length ≤ dnsLineSize) ∧
    (∀ l ∈ full.dropLast, l.length < dnsLineSize) ∧
    (k = 2 * (free - full.length) ∨ k = 0 ∧ (atEnd ∨ ∀ l ∈ full, l.length < dnsLineSize))

/-- The last line has no newline and belongs to somebody else. -/
def EndsOpen (tag file : List Char) : Prop :=
  file.getLast? ≠ some '\n' ∧ ∃ l ∈ (lines file).getLast?, ¬ Own tag l

/-- No line of the others has the tag in it and they are short; or there is nothing to do. -/
def Sound (tag : List Char) (dns1 dns2 : Option Address) (file : List Char) : Prop :=
  dns1 = none ∧ dns2 = none ∧ ¬ Marked tag file ∧ (∀ l ∈ lines file, ¬ Own tag l) ∨
  (dns1 ≠ none ∨ Marked tag file) ∧ (∀ l ∈ foreign tag file, ¬ tag <:+: l) ∧
    Short maxDns (dns1 = none ∧ dns2 = none ∧ EndsOpen tag file) (foreign tag file)

variable {tag file line : List Char} {iptype : Int32} {ifname : IfName} {dns : Address}
  {dns1 dns2 : Option Address} {n free : Nat}

structure IsTag (tag : List Char) : Prop where
  head : ∃ rest, tag = '#' :: rest
  newline : '\n' ∉ tag
  short : tag.length ≤ 63

theorem newline_notMem_of_isspace {s : List Char} (h : ∀ c ∈ s, isspace c = false) : '\n' ∉ s :=
  fun hc => absurd (h _ hc) (by decide)

theorem isTag_dnsTag : IsTag (dnsTag iptype ifname) := by
  refine ⟨⟨_, rfl⟩, fun hc => ?_, length_take_le ..⟩
  have hnum : '\n' ∉ decInt iptype.toInt := by
    rw [decInt]
    split
    · exact not_mem_cons_of_ne_of_not_mem (by decide) (notMem_dec (by decide))
    · exact notMem_dec (by decide)
  have hname : '\n' ∉ ifname.chars :=
    newline_notMem_of_isspace fun c hc => (ifname.plain c hc).2.2
  have hmem := mem_of_mem_take hc
  simp [dnsTagText, hnum, hname] at hmem

theorem newline_notMem_entry (h : IsTag tag) : '\n' ∉ entry tag dns := by
  have hdns := newline_notMem_of_isspace dns.plain
  simp [entry, nameserver, hdns, h.newline]

theorem length_entry_lt (h : IsTag tag) (dns : Address) : (entry tag dns).length < dnsLineSize := by
  have hdns := dns.short
  have htag := h.short
  simp only [entry, nameserver, dnsLineSize, length_append, length_cons, length_nil]
  omega

theorem infix_entry : tag <:+: entry tag dns :=
  ⟨nameserver ++ dns.chars ++ [' '], [], by simp [entry]⟩

theorem tagged_iff : tagged tag line ↔ tag <:+: line := by
  rw [tagged]
  constructor
  · intro h
    obtain ⟨⟨p, q⟩, hfind⟩ := isSome_iff_exists.mp h
    exact ⟨p, q, by rw [append_of_find hfind, append_assoc]⟩
  · rintro ⟨p, q, rfl⟩
    by_cases hnil : tag = []
    · subst hnil
      cases h : p ++ [] ++ q with
      | nil => rfl
      | cons c cs => simp [find]
    · obtain ⟨p', q', hfind, _⟩ := exists_find (a := p) (b := q) hnil
      rw [append_assoc, hfind]
      rfl

theorem decInt_injective {i j : Int} (h : decInt i = decInt j) : i = j := by
  have hminus : ∀ k : Nat, '-' ∉ dec k := fun k => notMem_dec (by decide)
  rw [decInt, decInt] at h
  split at h <;> split at h
  · have hdec := dec_injective (List.cons.inj h).2
    omega
  · exact absurd (by rw [← h]; exact mem_cons_self) (hminus j.natAbs)
  · exact absurd (by rw [h]; exact mem_cons_self) (hminus i.natAbs)
  · have hdec := dec_injective h
    omega

theorem dnsTag_eq : dnsTag iptype ifname = dnsTagText iptype ifname := by
  apply take_of_length_le
  have hnum : (decInt iptype.toInt).length ≤ 11 := by
    have hlt := iptype.toInt_lt
    have hle := iptype.le_toInt
    have hdec : (dec iptype.toInt.natAbs).length ≤ 10 :=
      (Nat.length_toDigits_le_iff (by decide) (by decide)).mpr (by omega)
    rw [decInt]
    split
    · exact Nat.succ_le_succ hdec
    · omega
  have hname := ifname.short
  simp only [dnsTagText, length_append, length_cons, length_nil]
  omega

/-- A line that is written for another type or interface, also for one whose name is longer, is no
line of this one. -/
theorem own_entry_iff {iptype' : Int32} {ifname' : IfName} :
    Own (dnsTag iptype ifname) (entry (dnsTag iptype' ifname') dns) ↔
      iptype' = iptype ∧ ifname'.chars = ifname.chars := by
  have hnum : ∀ i : Int, ' ' ∉ decInt i := by
    intro i
    rw [decInt]
    split
    · exact not_mem_cons_of_ne_of_not_mem (by decide) (notMem_dec (by decide))
    · exact notMem_dec (by decide)
  have hdns : ∀ dns : Address, ' ' ∉ dns.chars := fun dns h =>
    absurd (dns.plain _ h) (by decide)
  constructor
  · rintro ⟨dns', heq⟩
    rw [entry, entry, append_assoc, append_assoc, append_cancel_left_eq] at heq
    have htag := congrArg (find [' ']) heq
    rw [find_singleton (hdns dns), find_singleton (hdns dns'), some.injEq, Prod.mk.injEq,
      dnsTag_eq, dnsTag_eq, dnsTagText, dnsTagText, append_assoc, append_assoc,
      append_cancel_left_eq] at htag
    have hname := congrArg (find [' ']) htag.2
    rw [find_singleton (hnum _), find_singleton (hnum _), some.injEq, Prod.mk.injEq] at hname
    exact ⟨Int32.toInt_inj.mp (decInt_injective hname.1), hname.2⟩
  · rintro ⟨rfl, hname⟩
    exact ⟨dns, by rw [dnsTag, dnsTag, dnsTagText, dnsTagText, hname]⟩

theorem infix_chomp (h : IsTag tag) : tag <:+: chomp line ↔ tag <:+: line := by
  rw [chomp]
  split
  case isFalse => rfl
  case isTrue hlast =>
    obtain ⟨init, rfl⟩ := getLast?_eq_some_iff.mp hlast.2
    rw [dropLast_concat]
    constructor
    · exact fun hin => hin.trans (prefix_append ..).isInfix
    · rintro ⟨p, q, heq⟩
      rcases eq_nil_or_concat q with rfl | ⟨q', c, rfl⟩
      · have hmem : '\n' ∈ tag := by
          obtain ⟨rest, hhead⟩ := h.head
          have hne : tag ≠ [] := by rw [hhead]; exact cons_ne_nil _ _
          have hlast' := congrArg getLast? heq
          rw [append_nil, getLast?_append_of_ne_nil _ hne, getLast?_concat] at hlast'
          exact List.mem_of_getLast? hlast'
        exact absurd hmem h.newline
      · rw [concat_eq_append, ← append_assoc] at heq
        exact ⟨p, q', (append_inj' heq rfl).1⟩

def kept (tag : List Char) (pieces : List (List Char)) : List (List Char) :=
  (pieces.map chomp).filter fun p => ¬ tagged tag p

theorem readFile_snd {ps : List (List Char)} :
    (readFile tag free ps).2 = (kept tag ps).take free := by
  induction ps generalizing free with
  | nil => cases free <;> rfl
  | cons p ps ih =>
    cases free with
    | zero => rfl
    | succ free =>
      rw [readFile, kept, map_cons]
      by_cases h : tagged tag (chomp p)
      · rw [if_pos h, filter_cons_of_neg (by simp [h])]
        exact ih
      · rw [if_neg h, filter_cons_of_pos (by simp [h]), take_succ_cons]
        exact congrArg _ ih

theorem readFile_fst (h : IsTag tag) {ps : List (List Char)} :
    (readFile tag free ps).1 = true ↔ 
      ∃ before piece after, ps = before ++ piece :: after ∧ tag <:+: piece ∧
        before.countP (fun p => ¬ tag <:+: p) < free := by
  induction ps generalizing free with
  | nil =>
    cases free <;> simp [readFile]
  | cons p ps ih =>
    cases free with
    | zero => simp [readFile]
    | succ free =>
      rw [readFile]
      by_cases hp : tag <:+: p
      · rw [if_pos (tagged_iff.mpr ((infix_chomp h).mpr hp))]
        simp only [true_iff]
        exact ⟨[], p, ps, rfl, hp, by simp⟩
      · rw [if_neg (fun ht => hp ((infix_chomp h).mp (tagged_iff.mp ht)))]
        simp only [ih]
        constructor
        · rintro ⟨before, piece, after, rfl, hin, hcount⟩
          refine ⟨p :: before, piece, after, rfl, hin, ?_⟩
          rw [countP_cons_of_pos (by simpa using hp)]
          omega
        · rintro ⟨before, piece, after, heq, hin, hcount⟩
          cases before with
          | nil =>
            cases heq
            exact absurd hin hp
          | cons p' before =>
            obtain ⟨rfl, rfl⟩ := cons_eq_cons.mp heq
            rw [countP_cons_of_pos (by simpa using hp)] at hcount
            exact ⟨before, piece, after, rfl, hin, by omega⟩

def takenOf (l : List Char) : List (List Char) :=
  if l = [] then [['\n']] else if l.length = dnsLineSize then [l, ['\n']] else [l]

variable {l : List Char} {ls rest : List (List Char)} {atEnd : Prop} {j : Nat}

theorem takenOf_nil : takenOf [] = [['\n']] := rfl

theorem exists_blank (hrest : ∀ l ∈ rest, l ≠ []) {r : List (List Char)}
    (h : ls ++ rest = [] :: r) : ∃ ls', ls = [] :: ls' := by
  cases ls with
  | nil =>
    rw [nil_append] at h
    exact absurd rfl (hrest [] (by simp [h]))
  | cons l ls =>
    rw [cons_append, List.cons.injEq] at h
    exact ⟨ls, by rw [h.1]⟩

theorem written_blank (hj : 0 < j) (hrest : ∀ l ∈ rest, l ≠ []) :
    ((replicate j ['\n'] ++ (ls.flatMap takenOf ++ rest)).take free).flatMap pieces =
        ls ++ rest ↔
      ls ++ rest = replicate (2 * free) [] := by
  induction free generalizing j ls with
  | zero => simp [eq_comm]
  | succ free ih =>
    obtain ⟨i, rfl⟩ := Nat.exists_eq_succ_of_ne_zero hj.ne'
    rw [replicate_succ, cons_append, take_succ_cons, flatMap_cons,
      Nat.mul_succ, replicate_succ, replicate_succ]
    -- On both sides there are two blank lines in front.
    have htwo : ∀ r, ls ++ rest = [] :: [] :: r → ∃ ls', ls = [] :: [] :: ls' := by
      intro r h
      obtain ⟨ls', rfl⟩ := exists_blank hrest h
      rw [cons_append, List.cons.injEq] at h
      obtain ⟨ls'', rfl⟩ := exists_blank hrest h.2
      exact ⟨ls'', rfl⟩
    have hstep : ∀ ls', ((replicate i ['\n'] ++
        (([] :: [] :: ls' : List (List Char)).flatMap takenOf ++ rest)).take free).flatMap pieces =
          ls' ++ rest ↔ ls' ++ rest = replicate (2 * free) [] := by
      intro ls'
      have hrec : ((replicate (i + 2) ['\n'] ++ (ls'.flatMap takenOf ++ rest)).take
          free).flatMap pieces = ls' ++ rest ↔ _ := ih (by omega)
      rw [← hrec, replicate_add, append_assoc]
      rfl
    constructor
    · intro h
      obtain ⟨ls', rfl⟩ := htwo _ h.symm
      have hrec := (hstep ls').mp (by simpa [pieces] using h)
      simpa using hrec
    · intro h
      obtain ⟨ls', rfl⟩ := htwo _ h
      have hrec := (hstep ls').mpr (by simpa using h)
      simpa [pieces] using hrec

theorem short_nil : Short free atEnd [] :=
  ⟨[], 0, rfl, Nat.zero_le _, forall_mem_nil _, forall_mem_nil _,
    .inr ⟨rfl, .inr (forall_mem_nil _)⟩⟩

theorem short_blank : Short free atEnd ([] :: ls) ↔ [] :: ls = replicate (2 * free) [] := by
  constructor
  · rintro ⟨full, k, heq, _, hfull, _, hk⟩
    cases full with
    | cons l full =>
      rw [cons_append, List.cons.injEq] at heq
      exact absurd heq.1.symm (hfull l mem_cons_self).1
    | nil =>
      rcases hk with rfl | ⟨rfl, _⟩
      · simpa using heq
      · cases heq
  · intro h
    exact ⟨[], 2 * free, h, Nat.zero_le _, forall_mem_nil _, forall_mem_nil _, .inl rfl⟩

theorem short_zero : ¬ Short 0 atEnd (l :: ls) := by
  rintro ⟨full, k, heq, hlen, _, _, hk⟩
  obtain rfl := length_eq_zero_iff.mp (Nat.le_zero.mp hlen)
  rcases hk with rfl | ⟨rfl, _⟩
  · cases heq
  · cases heq

theorem short_cons (hl : l ≠ []) (hlen : l.length < dnsLineSize) :
    Short (free + 1) atEnd (l :: ls) ↔ Short free atEnd ls := by
  constructor
  · rintro ⟨full, k, heq, hfree, hfull, hinit, hk⟩
    cases full with
    | nil =>
      have hmem : l ∈ replicate k [] := by
        rw [nil_append] at heq
        rw [← heq]
        exact mem_cons_self
      exact absurd (eq_of_mem_replicate hmem) hl
    | cons l' full =>
      rw [cons_append, List.cons.injEq] at heq
      obtain ⟨rfl, rfl⟩ := heq
      rw [forall_mem_cons] at hfull
      rw [length_cons] at hfree hk
      refine ⟨full, k, rfl, by omega, hfull.2, fun l' hl' => hinit l' ?_, ?_⟩
      · rw [dropLast_cons_of_ne_nil (by rintro rfl; cases hl')]
        exact mem_cons_of_mem _ hl'
      · rw [Nat.add_sub_add_right] at hk
        exact hk.imp_right fun h => ⟨h.1, h.2.imp_right fun hall =>
          (forall_mem_cons.mp hall).2⟩
  · rintro ⟨full, k, rfl, hfree, hfull, hinit, hk⟩
    refine ⟨l :: full, k, rfl, by simpa using hfree,
      forall_mem_cons.mpr ⟨⟨hl, hlen.le⟩, hfull⟩, fun l' hl' => ?_, ?_⟩
    · by_cases hnil : full = []
      · subst hnil
        cases hl'
      · rw [dropLast_cons_of_ne_nil hnil] at hl'
        rcases mem_cons.mp hl' with rfl | hl'
        · exact hlen
        · exact hinit l' hl'
    · rw [length_cons, Nat.add_sub_add_right]
      exact hk.imp_right fun h => ⟨h.1, h.2.imp_right fun hall =>
        forall_mem_cons.mpr ⟨hlen, hall⟩⟩

theorem short_long (hl : l.length = dnsLineSize) :
    Short (free + 1) atEnd (l :: ls) ↔ ls = replicate (2 * free) [] ∨ atEnd ∧ ls = [] := by
  have hne : l ≠ [] := by
    rintro rfl
    cases hl
  constructor
  · rintro ⟨full, k, heq, hfree, hfull, hinit, hk⟩
    cases full with
    | nil =>
      have hmem : l ∈ replicate k [] := by
        rw [nil_append] at heq
        rw [← heq]
        exact mem_cons_self
      exact absurd (eq_of_mem_replicate hmem) hne
    | cons l' full =>
      rw [cons_append, List.cons.injEq] at heq
      obtain ⟨rfl, rfl⟩ := heq
      have hfull' : full = [] := by
        by_contra hnil
        have hlast := hinit l (by
          rw [dropLast_cons_of_ne_nil hnil]
          exact mem_cons_self)
        omega
      subst hfull'
      rcases hk with rfl | ⟨rfl, hend | hall⟩
      · left
        simp
      · exact .inr ⟨hend, rfl⟩
      · have hlast := hall l mem_cons_self
        omega
  · rintro (rfl | ⟨hend, rfl⟩)
    · exact ⟨[l], 2 * free, rfl, by simp, forall_mem_singleton.mpr ⟨hne, hl.le⟩,
        forall_mem_nil _, .inl (by simp)⟩
    · exact ⟨[l], 0, by simp, by simp, forall_mem_singleton.mpr ⟨hne, hl.le⟩,
        forall_mem_nil _, .inr ⟨rfl, .inl hend⟩⟩

/-- The lines of the others are written as they are exactly when they are short.  In `rest` is the
last line if it has no newline. -/
theorem written_eq_iff (hls : ∀ l ∈ ls, '\n' ∉ l ∧ l.length ≤ dnsLineSize)
    (hrest : rest = [] ∨ ∃ v, rest = [v] ∧ v ≠ [] ∧ '\n' ∉ v ∧ v.length ≤ dnsLineSize) :
    ((ls.flatMap takenOf ++ rest).take free).flatMap pieces = ls ++ rest ↔
      Short free (rest ≠ []) (ls ++ rest) := by
  have hne : ∀ l ∈ rest, l ≠ [] := by
    rcases hrest with rfl | ⟨v, rfl, hv, _⟩
    · exact forall_mem_nil _
    · exact forall_mem_singleton.mpr hv
  induction ls generalizing free with
  | nil =>
    rcases hrest with rfl | ⟨v, rfl, hv, hnewline, hlen⟩
    · simp [short_nil]
    · cases free with
      | zero => simp [short_zero]
      | succ free =>
        have hshort : Short (free + 1) ([v] ≠ []) [v] :=
          ⟨[v], 0, rfl, by simp, forall_mem_singleton.mpr ⟨hv, hlen⟩, forall_mem_nil _,
            .inr ⟨rfl, .inl (cons_ne_nil _ _)⟩⟩
        simpa [pieces_of_notMem hnewline] using hshort
  | cons l ls ih =>
    rw [forall_mem_cons] at hls
    obtain ⟨⟨hnewline, hlen⟩, hls⟩ := hls
    cases free with
    | zero => simp [short_zero]
    | succ free =>
      by_cases hl : l = []
      · subst hl
        rw [flatMap_cons, takenOf_nil, append_assoc, singleton_append,
          take_succ_cons, flatMap_cons, cons_append, short_blank, Nat.mul_succ,
          replicate_succ, replicate_succ, List.cons.injEq]
        constructor
        · intro h
          have htail : ls ++ rest =
              [] :: ((ls.flatMap takenOf ++ rest).take free).flatMap pieces := by
            simpa [pieces] using h.symm
          obtain ⟨ls', rfl⟩ := exists_blank hne htail
          have hone : ((replicate 1 ['\n'] ++ (ls'.flatMap takenOf ++ rest)).take
              free).flatMap pieces = ls' ++ rest := by simpa [takenOf_nil] using htail.symm
          have hall := (written_blank Nat.one_pos hne).mp hone
          exact ⟨rfl, by rw [cons_append, hall]⟩
        · rintro ⟨_, htail⟩
          obtain ⟨ls', rfl⟩ := exists_blank hne htail
          rw [cons_append, List.cons.injEq] at htail
          have hone := (written_blank (j := 1) Nat.one_pos hne).mpr htail.2
          simpa [pieces, takenOf_nil] using hone
      · by_cases hfull : l.length = dnsLineSize
        · have hlast : ¬ (rest ≠ [] ∧ ls ++ rest = []) := by
            rintro ⟨hne', hnil⟩
            exact hne' (append_eq_nil_iff.mp hnil).2
          rw [cons_append, short_long hfull, or_iff_left hlast,
            ← written_blank (j := 1) Nat.one_pos hne, flatMap_cons, takenOf, if_neg hl,
            if_pos hfull]
          simp [pieces_of_notMem hnewline]
        · have hrec : _ ↔ Short free (rest ≠ []) (ls ++ rest) := ih hls
          rw [cons_append, short_cons hl (by omega), ← hrec, flatMap_cons, takenOf,
            if_neg hl, if_neg hfull]
          simp [pieces_of_notMem hnewline]

theorem kept_cons {p : List Char} {ps : List (List Char)} :
    kept tag (p :: ps) = if tag <:+: chomp p then kept tag ps else chomp p :: kept tag ps := by
  rw [kept, map_cons]
  by_cases h : tag <:+: chomp p
  · rw [if_pos h, filter_cons_of_neg (by simpa using tagged_iff.mpr h)]
    rfl
  · rw [if_neg h, filter_cons_of_pos (by simpa [tagged_iff] using h)]
    rfl

theorem chomp_line (hl : l ≠ []) : chomp (l ++ ['\n']) = l := by
  have hpos := length_pos_iff.mpr hl
  rw [chomp, if_pos ⟨by simpa using hpos, getLast?_concat⟩, dropLast_concat]

theorem chomp_of_notMem (h : '\n' ∉ l) : chomp l = l := by
  rw [chomp, if_neg]
  rintro ⟨_, hlast⟩
  exact h (List.mem_of_getLast? hlast)

theorem not_infix_newline (htag : IsTag tag) : ¬ tag <:+: ['\n'] := by
  obtain ⟨rest, hhead⟩ := htag.head
  intro hin
  have hmem : '#' ∈ ['\n'] := hin.subset (by rw [hhead]; exact mem_cons_self)
  exact absurd (mem_singleton.mp hmem) (by decide)

theorem reads_line (h : '\n' ∉ l) (hlen : l.length ≤ dnsLineSize) :
    reads dnsLineSize (l ++ '\n' :: file) =
      (if l.length = dnsLineSize then [l, ['\n']] else [l ++ ['\n']]) ++
        reads dnsLineSize file := by
  split
  case isTrue hfull =>
    have hnil : l ≠ [] := by
      rintro rfl
      cases hfull
    rw [reads, readsFrom_full h hnil hfull, reads, ← nil_append ('\n' :: file),
      readsFrom_line not_mem_nil (by decide)]
    rfl
  case isFalse hshort =>
    rw [reads, readsFrom_line h (by omega)]
    rfl

theorem kept_reads_line (htag : IsTag tag) (h : '\n' ∉ l)
    (hl : Own tag l ∨ l.length ≤ dnsLineSize ∧ ¬ tag <:+: l) :
    kept tag (reads dnsLineSize (l ++ '\n' :: file)) =
      (if Own tag l then [] else takenOf l) ++ kept tag (reads dnsLineSize file) := by
  have hblank : ¬ tag <:+: chomp ['\n'] := not_infix_newline htag
  by_cases hown : Own tag l
  · obtain ⟨dns, rfl⟩ := hown
    have hne : entry tag dns ≠ [] := cons_ne_nil _ _
    have hlen := length_entry_lt htag dns
    rw [if_pos ⟨dns, rfl⟩, reads_line h hlen.le, if_neg hlen.ne, singleton_append, kept_cons,
      chomp_line hne, if_pos infix_entry, nil_append]
  · obtain ⟨hlen, hin⟩ := hl.resolve_left hown
    rw [if_neg hown, takenOf, reads_line h hlen]
    by_cases hnil : l = []
    · subst hnil
      rw [if_neg (by decide), if_pos rfl, singleton_append, kept_cons]
      exact if_neg hblank
    · rw [if_neg hnil]
      by_cases hfull : l.length = dnsLineSize
      · rw [if_pos hfull, if_pos hfull, cons_append, singleton_append, kept_cons,
          chomp_of_notMem h, if_neg hin, kept_cons]
        exact congrArg _ (if_neg hblank)
      · rw [if_neg hfull, if_neg hfull, singleton_append, kept_cons, chomp_line hnil,
          if_neg hin]
        rfl

theorem not_infix_reads (htag : IsTag tag) {ls : List (List Char)}
    (hls : ∀ l ∈ ls, '\n' ∉ l ∧ l.length ≤ dnsLineSize ∧ ¬ tag <:+: l) :
    ∀ p ∈ reads dnsLineSize (unlines ls), ¬ tag <:+: p := by
  induction ls with
  | nil => exact forall_mem_nil _
  | cons l ls ih =>
    rw [forall_mem_cons] at hls
    obtain ⟨⟨hnewline, hlen, hin⟩, hls⟩ := hls
    rw [unlines_cons, reads_line hnewline hlen, forall_mem_append]
    refine ⟨?_, ih hls⟩
    split
    case isTrue =>
      exact forall_mem_cons.mpr ⟨hin, forall_mem_singleton.mpr (not_infix_newline htag)⟩
    case isFalse =>
      rw [forall_mem_singleton]
      by_cases hnil : l = []
      · rw [hnil]
        exact not_infix_newline htag
      · rw [← infix_chomp htag, chomp_line hnil]
        exact hin

theorem kept_reads (htag : IsTag tag) {ls : List (List Char)} {v : List Char}
    (hls : ∀ l ∈ ls, '\n' ∉ l ∧ (Own tag l ∨ l.length ≤ dnsLineSize ∧ ¬ tag <:+: l))
    (hv : '\n' ∉ v) (hv' : v ≠ [] → Own tag v ∨ v.length ≤ dnsLineSize ∧ ¬ tag <:+: v) :
    kept tag (reads dnsLineSize (unlines ls ++ v)) =
      (ls.filter fun l => ¬ Own tag l).flatMap takenOf ++
        (lines v).filter fun l => ¬ Own tag l := by
  induction ls with
  | nil =>
    rw [lines_of_notMem hv]
    by_cases hnil : v = []
    · subst hnil
      rfl
    · have hlen : v.length ≤ dnsLineSize := by
        rcases hv' hnil with ⟨dns, rfl⟩ | h
        · exact (length_entry_lt htag dns).le
        · exact h.1
      rw [if_neg hnil, unlines_nil, nil_append, reads, readsFrom_rest hv hnil hlen, kept_cons,
        chomp_of_notMem hv]
      by_cases hown : Own tag v
      · obtain ⟨dns, rfl⟩ := hown
        have hown : Own tag (entry tag dns) := ⟨dns, rfl⟩
        rw [if_pos infix_entry]
        simp [hown]
        rfl
      · rw [if_neg ((hv' hnil).resolve_left hown).2]
        simp [hown]
        rfl
  | cons l ls ih =>
    rw [forall_mem_cons] at hls
    rw [unlines_cons, append_assoc, cons_append,
      kept_reads_line htag hls.1.1 hls.1.2, ih hls.2, filter_cons]
    by_cases hown : Own tag l
    · simp [hown]
    · simp [hown]

theorem marked_iff (htag : IsTag tag) :
    (readFile tag maxDns (reads dnsLineSize file)).1 = true ↔ Marked tag file :=
  readFile_fst htag

theorem marked_of_entry (htag : IsTag tag) {r : List (List Char)}
    (h : lines file = entry tag dns :: r) : Marked tag file := by
  obtain ⟨ls, v, rfl, hls, hv⟩ := exists_unlines file
  rw [lines_unlines_append hls] at h
  have hlen := length_entry_lt htag dns
  cases ls with
  | nil =>
    rw [nil_append, lines_of_notMem hv] at h
    have hnil : v ≠ [] := by
      rintro rfl
      cases h
    rw [if_neg hnil] at h
    obtain ⟨rfl, rfl⟩ := cons_eq_cons.mp h
    exact ⟨[], entry tag dns, [], readsFrom_rest hv hnil hlen.le, infix_entry, by simp [maxDns]⟩
  | cons l ls =>
    obtain ⟨rfl, _⟩ := cons_eq_cons.mp h
    refine ⟨[], entry tag dns ++ ['\n'], reads dnsLineSize (unlines ls ++ v), ?_,
      infix_entry.trans (prefix_append _ ['\n']).isInfix, by simp [maxDns]⟩
    rw [unlines_cons, append_assoc, cons_append]
    exact readsFrom_line (newline_notMem_entry htag) hlen

theorem newline_notMem_entries (htag : IsTag tag) :
    ∀ l ∈ entries tag dns1 dns2, '\n' ∉ l := by
  intro l hl
  obtain ⟨dns, _, rfl⟩ := List.mem_map.mp hl
  exact newline_notMem_entry htag

theorem newline_notMem_lines : ∀ l ∈ lines file, '\n' ∉ l := by
  obtain ⟨ls, v, rfl, hls, hv⟩ := exists_unlines file
  rw [lines_unlines_append hls, forall_mem_append, lines_of_notMem hv]
  refine ⟨hls, ?_⟩
  split
  · exact forall_mem_nil _
  · exact forall_mem_singleton.mpr hv

theorem endsOpen_iff {ls : List (List Char)} {v : List Char} (hls : ∀ l ∈ ls, '\n' ∉ l)
    (hv : '\n' ∉ v) :
    EndsOpen tag (unlines ls ++ v) ↔ ((lines v).filter fun l => ¬ Own tag l) ≠ [] := by
  rw [EndsOpen, lines_unlines_append hls, lines_of_notMem hv]
  by_cases hnil : v = []
  · subst hnil
    simp only [if_true, append_nil, filter_nil, ne_eq, not_true, iff_false]
    rintro ⟨hlast, l, hl, _⟩
    obtain ⟨init, rfl⟩ := getLast?_eq_some_iff.mp hl
    refine hlast ?_
    rw [unlines_append, unlines_cons, unlines_nil, ← append_assoc, getLast?_concat]
  · rw [if_neg hnil, getLast?_append_of_ne_nil _ hnil, getLast?_concat]
    have hlast : v.getLast? ≠ some '\n' := fun h => hv (List.mem_of_getLast? h)
    simp [hlast]

theorem written_foreign_iff (htag : IsTag tag) :
    ((kept tag (reads dnsLineSize file)).take maxDns).flatMap pieces = foreign tag file ↔
      (∀ l ∈ foreign tag file, ¬ tag <:+: l) ∧
        Short maxDns (EndsOpen tag file) (foreign tag file) := by
  have hplain : ∀ l ∈ foreign tag file, '\n' ∉ l := fun l hl =>
    newline_notMem_lines l (mem_of_mem_filter hl)
  suffices hfits : (∀ l ∈ foreign tag file, l.length ≤ dnsLineSize ∧ ¬ tag <:+: l) →
      (((kept tag (reads dnsLineSize file)).take maxDns).flatMap pieces = foreign tag file ↔
        Short maxDns (EndsOpen tag file) (foreign tag file)) by
    constructor
    · intro h
      have hall : ∀ l ∈ foreign tag file, l.length ≤ dnsLineSize ∧ ¬ tag <:+: l := by
        intro l hl
        rw [← h] at hl
        obtain ⟨p, hp, hl⟩ := mem_flatMap.mp hl
        have hp := mem_filter.mp (mem_of_mem_take hp)
        obtain ⟨r, hr, rfl⟩ := List.mem_map.mp hp.1
        have hpiece := pieces_infix.2 l hl
        have hchomp : (chomp r).length ≤ r.length := by
          rw [chomp]
          split
          · exact (length_dropLast ..).trans_le (Nat.sub_le ..)
          · exact le_rfl
        exact ⟨hpiece.length_le.trans (hchomp.trans (length_le_of_mem_reads (by decide) hr)),
          fun hin => by simpa [tagged_iff] using absurd (hin.trans hpiece) (by
            simpa [tagged_iff] using hp.2)⟩
      exact ⟨fun l hl => (hall l hl).2, (hfits hall).mp h⟩
    · rintro ⟨hin, hshort⟩
      refine (hfits fun l hl => ⟨?_, hin l hl⟩).mpr hshort
      obtain ⟨full, k, heq, _, hfull, _⟩ := hshort
      rw [heq, mem_append] at hl
      rcases hl with hl | hl
      · exact (hfull l hl).2
      · rw [eq_of_mem_replicate hl]
        exact Nat.zero_le _
  intro hall
  obtain ⟨ls, v, rfl, hls, hv⟩ := exists_unlines file
  have hforeign : foreign tag (unlines ls ++ v) =
      (ls.filter fun l => ¬ Own tag l) ++ (lines v).filter fun l => ¬ Own tag l := by
    rw [foreign, lines_unlines_append hls, filter_append]
  have hline : ∀ l ∈ lines (unlines ls ++ v),
      Own tag l ∨ l.length ≤ dnsLineSize ∧ ¬ tag <:+: l := by
    intro l hl
    by_cases hown : Own tag l
    · exact .inl hown
    · exact .inr (hall l (mem_filter.mpr ⟨hl, by simpa using hown⟩))
  rw [lines_unlines_append hls, forall_mem_append, lines_of_notMem hv] at hline
  rw [hforeign] at hall hplain ⊢
  rw [forall_mem_append] at hall hplain
  rw [kept_reads htag (fun l hl => ⟨hls l hl, hline.1 l hl⟩) hv
    (fun hnil => hline.2 v (by rw [if_neg hnil]; exact mem_singleton_self v)),
    endsOpen_iff hls hv]
  refine written_eq_iff (fun l hl => ⟨hplain.1 l hl, (hall.1 l hl).1⟩) ?_
  rw [lines_of_notMem hv]
  by_cases hnil : v = []
  · exact .inl (by rw [if_pos hnil]; rfl)
  · rw [if_neg hnil]
    by_cases hown : Own tag v
    · exact .inl (by simp [hown])
    · have hlen := hall.2 v (by rw [lines_of_notMem hv, if_neg hnil]; simp [hown])
      exact .inr ⟨v, by simp [hown], hnil, hv, hlen.1⟩

theorem foreign_unlines {ls : List (List Char)} (hls : ∀ l ∈ ls, '\n' ∉ l) :
    foreign tag (unlines ls) = ls.filter fun l => ¬ Own tag l := by
  rw [foreign, lines_unlines, flatMap_pieces hls]

theorem foreign_entries (htag : IsTag tag) (dns1 dns2 : Option Address) (file : List Char) :
    foreign tag (unlines (entries tag dns1 dns2 ++ foreign tag file)) = foreign tag file := by
  have hplain : ∀ l ∈ foreign tag file, '\n' ∉ l := fun l hl =>
    newline_notMem_lines l (mem_of_mem_filter hl)
  rw [foreign_unlines (forall_mem_append.mpr ⟨newline_notMem_entries htag, hplain⟩),
    filter_append]
  have hentries : (entries tag dns1 dns2).filter (fun l => ¬ Own tag l) = [] := by
    rw [filter_eq_nil_iff]
    intro l hl
    obtain ⟨dns, _, rfl⟩ := List.mem_map.mp hl
    have hown : Own tag (entry tag dns) := ⟨dns, rfl⟩
    simp [hown]
  rw [hentries, nil_append, foreign, List.filter_filter]
  simp

theorem short_congr {p q : Prop} (h : p ↔ q) (ls : List (List Char)) :
    Short free p ls ↔ Short free q ls := by
  rw [propext h]

theorem Short.mono {p q : Prop} (h : Short free p ls) (hpq : p → q) : Short free q ls := by
  obtain ⟨full, k, heq, hlen, hfull, hinit, hk⟩ := h
  exact ⟨full, k, heq, hlen, hfull, hinit, hk.imp_right fun hz => ⟨hz.1, hz.2.imp_left hpq⟩⟩

theorem updateResolvConf_of_skip (dns2 : Option Address)
    (h : dns1 = none ∧ ¬ Marked (dnsTag iptype ifname) file) :
    updateResolvConf iptype ifname dns1 dns2 file = file := by
  rw [← marked_iff isTag_dnsTag, Bool.not_eq_true] at h
  exact if_pos ⟨by rw [h.1]; rfl, h.2⟩

theorem updateResolvConf_of_write (h : ¬ (dns1 = none ∧ ¬ Marked (dnsTag iptype ifname) file)) :
    updateResolvConf iptype ifname dns1 dns2 file =
      unlines (entries (dnsTag iptype ifname) dns1 dns2 ++
        (kept (dnsTag iptype ifname) (reads dnsLineSize file)).take maxDns) := by
  rw [← marked_iff isTag_dnsTag, Bool.not_eq_true] at h
  rw [← readFile_snd]
  exact if_neg fun hskip => h ⟨isNone_iff_eq_none.mp hskip.1, hskip.2⟩

theorem content_iff (dns2 : Option Address)
    (h : ¬ (dns1 = none ∧ ¬ Marked (dnsTag iptype ifname) file)) :
    lines (updateResolvConf iptype ifname dns1 dns2 file) =
        entries (dnsTag iptype ifname) dns1 dns2 ++ foreign (dnsTag iptype ifname) file ↔
      (∀ l ∈ foreign (dnsTag iptype ifname) file, ¬ dnsTag iptype ifname <:+: l) ∧
        Short maxDns (EndsOpen (dnsTag iptype ifname) file)
          (foreign (dnsTag iptype ifname) file) := by
  rw [updateResolvConf_of_write h, lines_unlines, flatMap_append,
    flatMap_pieces (newline_notMem_entries isTag_dnsTag), append_cancel_left_eq,
    written_foreign_iff isTag_dnsTag]

theorem updateResolvConf_of_content (h : ¬ (dns1 = none ∧ ¬ Marked (dnsTag iptype ifname) file))
    (hcontent : lines (updateResolvConf iptype ifname dns1 dns2 file) =
      entries (dnsTag iptype ifname) dns1 dns2 ++ foreign (dnsTag iptype ifname) file) :
    updateResolvConf iptype ifname dns1 dns2 file =
      unlines (entries (dnsTag iptype ifname) dns1 dns2 ++
        foreign (dnsTag iptype ifname) file) := by
  rw [← hcontent, updateResolvConf_of_write h, lines_unlines, unlines_flatMap_pieces]

/-- The file as it should be is left as it is when there is no entry in it, or when the lines of the
others are short. -/
theorem again_iff (hin : ∀ l ∈ foreign (dnsTag iptype ifname) file, ¬ dnsTag iptype ifname <:+: l)
    (hlen : ∀ l ∈ foreign (dnsTag iptype ifname) file, l.length ≤ dnsLineSize) :
    updateResolvConf iptype ifname dns1 dns2 (unlines (entries (dnsTag iptype ifname) dns1 dns2 ++
        foreign (dnsTag iptype ifname) file)) =
      unlines (entries (dnsTag iptype ifname) dns1 dns2 ++ foreign (dnsTag iptype ifname) file) ↔
    dns1 = none ∧ dns2 = none ∨
      Short maxDns False (foreign (dnsTag iptype ifname) file) := by
  have hplain : ∀ l ∈ entries (dnsTag iptype ifname) dns1 dns2 ++
      foreign (dnsTag iptype ifname) file, '\n' ∉ l :=
    forall_mem_append.mpr ⟨newline_notMem_entries isTag_dnsTag, fun l hl =>
      newline_notMem_lines l (mem_of_mem_filter hl)⟩
  by_cases hnone : dns1 = none ∧ dns2 = none
  · obtain ⟨rfl, rfl⟩ := hnone
    refine iff_of_true (updateResolvConf_of_skip none ⟨rfl, ?_⟩) (.inl ⟨rfl, rfl⟩)
    rintro ⟨before, piece, after, heq, htagged, _⟩
    refine not_infix_reads isTag_dnsTag (fun l hl => ⟨hplain l hl, hlen l hl, hin l hl⟩) piece ?_
      htagged
    have hmem : piece ∈ before ++ piece :: after := mem_append_right _ mem_cons_self
    rwa [← heq] at hmem
  · have hwrite : ¬ (dns1 = none ∧ ¬ Marked (dnsTag iptype ifname)
        (unlines (entries (dnsTag iptype ifname) dns1 dns2 ++
          foreign (dnsTag iptype ifname) file))) := by
      rintro ⟨rfl, hmarked⟩
      cases dns2 with
      | none => exact hnone ⟨rfl, rfl⟩
      | some dns =>
        have hlines : lines (unlines (entries (dnsTag iptype ifname) none (some dns) ++
            foreign (dnsTag iptype ifname) file)) =
              entry (dnsTag iptype ifname) dns :: foreign (dnsTag iptype ifname) file := by
          rw [lines_unlines, flatMap_pieces hplain]
          rfl
        exact hmarked (marked_of_entry isTag_dnsTag hlines)
    have hlines : updateResolvConf iptype ifname dns1 dns2
          (unlines (entries (dnsTag iptype ifname) dns1 dns2 ++
            foreign (dnsTag iptype ifname) file)) =
          unlines (entries (dnsTag iptype ifname) dns1 dns2 ++
            foreign (dnsTag iptype ifname) file) ↔
        lines (updateResolvConf iptype ifname dns1 dns2
          (unlines (entries (dnsTag iptype ifname) dns1 dns2 ++
            foreign (dnsTag iptype ifname) file))) =
          entries (dnsTag iptype ifname) dns1 dns2 ++ foreign (dnsTag iptype ifname) file := by
      constructor
      · intro h
        rw [h, lines_unlines, flatMap_pieces hplain]
      · intro h
        have hforeign := foreign_entries (@isTag_dnsTag iptype ifname) dns1 dns2 file
        rw [updateResolvConf_of_content hwrite (h.trans (by rw [hforeign])), hforeign]
    have hcontent := content_iff dns2 hwrite
    have hends : ¬ EndsOpen (dnsTag iptype ifname) (unlines (entries (dnsTag iptype ifname) dns1
        dns2 ++ foreign (dnsTag iptype ifname) file)) := by
      intro h
      rw [← append_nil (unlines _)] at h
      exact (endsOpen_iff hplain not_mem_nil).mp h rfl
    rw [foreign_entries isTag_dnsTag dns1 dns2 file] at hcontent
    rw [hlines, hcontent, or_iff_right hnone, short_congr (iff_false_intro hends),
      and_iff_right hin]

/-- The lines of the others are as they were, and a second call changes nothing, exactly when they
do not have the tag in them and are short, or when there is nothing to do. -/
theorem updateResolvConf_correct_iff (iptype : Int32) (ifname : IfName)
    (dns1 dns2 : Option Address) (file : List Char) :
    Correct iptype ifname dns1 dns2 file ↔ Sound (dnsTag iptype ifname) dns1 dns2 file := by
  have htag : IsTag (dnsTag iptype ifname) := isTag_dnsTag
  by_cases hskip : dns1 = none ∧ ¬ Marked (dnsTag iptype ifname) file
  · have hfile := updateResolvConf_of_skip dns2 hskip
    constructor
    · intro h
      have hcontent := h.content
      rw [hfile] at hcontent
      have hnone : dns2 = none := by
        cases dns2 with
        | none => rfl
        | some dns =>
          rw [hskip.1] at hcontent
          exact absurd (marked_of_entry htag hcontent) hskip.2
      rw [hskip.1, hnone] at hcontent
      refine .inl ⟨hskip.1, hnone, hskip.2, fun l hl hown => ?_⟩
      rw [show lines file = foreign _ file from hcontent] at hl
      simpa [hown] using (mem_filter.mp hl).2
    · rintro (⟨_, hnone, _, hown⟩ | ⟨hor, _⟩)
      · refine ⟨?_, by rw [hfile, hfile]⟩
        rw [hfile, hskip.1, hnone, foreign, filter_eq_self.mpr]
        · rfl
        · intro l hl
          simpa using hown l hl
      · rcases hor with hne | hmarked
        · exact absurd hskip.1 hne
        · exact absurd hmarked hskip.2
  · have hor : dns1 ≠ none ∨ Marked (dnsTag iptype ifname) file := by
      rw [not_and_or, not_not] at hskip
      exact hskip
    have hsound : Sound (dnsTag iptype ifname) dns1 dns2 file ↔
        (∀ l ∈ foreign (dnsTag iptype ifname) file, ¬ dnsTag iptype ifname <:+: l) ∧
          Short maxDns (dns1 = none ∧ dns2 = none ∧ EndsOpen (dnsTag iptype ifname) file)
            (foreign (dnsTag iptype ifname) file) := by
      constructor
      · rintro (⟨hnone, _, hmarked, _⟩ | ⟨_, h⟩)
        · exact absurd ⟨hnone, hmarked⟩ hskip
        · exact h
      · exact fun h => .inr ⟨hor, h⟩
    rw [hsound]
    have hshort : ∀ {p : Prop}, Short maxDns p (foreign (dnsTag iptype ifname) file) →
        ∀ l ∈ foreign (dnsTag iptype ifname) file, l.length ≤ dnsLineSize := by
      intro p h l hl
      obtain ⟨full, k, heq, _, hfull, _⟩ := h
      rw [heq, mem_append] at hl
      rcases hl with hl | hl
      · exact (hfull l hl).2
      · rw [eq_of_mem_replicate hl]
        exact Nat.zero_le _
    constructor
    · intro h
      obtain ⟨hin, hopen⟩ := (content_iff dns2 hskip).mp h.content
      refine ⟨hin, ?_⟩
      have hagain := h.again
      rw [updateResolvConf_of_content hskip h.content] at hagain
      rcases (again_iff hin (hshort hopen)).mp hagain with hnone | hclosed
      · exact hopen.mono fun hends => ⟨hnone.1, hnone.2, hends⟩
      · exact hclosed.mono False.elim
    · rintro ⟨hin, h⟩
      have hcontent := (content_iff dns2 hskip).mpr ⟨hin, h.mono fun hends => hends.2.2⟩
      refine ⟨hcontent, ?_⟩
      rw [updateResolvConf_of_content hskip hcontent, again_iff hin (hshort h)]
      by_cases hnone : dns1 = none ∧ dns2 = none
      · exact .inl hnone
      · exact .inr (h.mono fun hall => hnone ⟨hall.1, hall.2.1⟩)

def wwan0 : IfName := ⟨['w', 'w', 'a', 'n', '0'], by decide, by decide, by simp [isspace]⟩

def wwan0_1 : IfName :=
  ⟨['w', 'w', 'a', 'n', '0', '_', '1'], by decide, by decide, by simp [isspace]⟩

def quad9 : Address := ⟨['9', '.', '9', '.', '9', '.', '9'], by decide, by simp [isspace]⟩

/-- The entry of another interface is lost. -/
theorem updateResolvConf_not_correct :
    ¬ Correct 4 wwan0 (some quad9) none (unlines [entry (dnsTag 4 wwan0_1) quad9]) := by
  intro h
  have hmem : entry (dnsTag 4 wwan0_1) quad9 ∈
      foreign (dnsTag 4 wwan0) (unlines [entry (dnsTag 4 wwan0_1) quad9]) := by
    rw [foreign_unlines (forall_mem_singleton.mpr (newline_notMem_entry isTag_dnsTag))]
    refine mem_filter.mpr ⟨mem_singleton_self _, decide_eq_true fun hown => ?_⟩
    exact absurd (own_entry_iff.mp hown).2 (by decide)
  have htag : dnsTag 4 wwan0_1 = dnsTag 4 wwan0 ++ ['_', '1'] := by decide
  refine ((content_iff none (by simp)).mp h.content).1 _ hmem
    ⟨nameserver ++ quad9.chars ++ [' '], ['_', '1'], ?_⟩
  rw [entry, htag]
  simp

end ModemSupport.Cm.ResolvConf
