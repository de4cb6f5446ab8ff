import ModemSupport.Lib.Text

/-! Reading a text by calls that return at most a line and at most a fixed number of characters. -/

namespace ModemSupport.Lib.Gets

open Text List Option

variable {n room : Nat} {l s t : List Char} {ls : List (List Char)}

def unlines (ls : List (List Char)) : List Char := ls.flatMap fun l => l ++ ['\n']

@[simp] theorem unlines_nil : unlines [] = [] := rfl

@[simp] theorem unlines_cons : unlines (l :: ls) = l ++ '\n' :: unlines ls := by
  simp [unlines]

theorem unlines_append {ls' : List (List Char)} : unlines (ls ++ ls') = unlines ls ++ unlines ls' :=
  flatMap_append

theorem lines_unlines : lines (unlines ls) = ls.flatMap pieces := by
  induction ls with
  | nil => rfl
  | cons l ls ih => rw [unlines_cons, lines_append_newline, ih, flatMap_cons]

theorem flatMap_pieces (h : ∀ l ∈ ls, '\n' ∉ l) : ls.flatMap pieces = ls := by
  induction ls with
  | nil => rfl
  | cons l ls ih =>
    rw [forall_mem_cons] at h
    rw [flatMap_cons, pieces_of_notMem h.1, ih h.2, singleton_append]

theorem unlines_pieces : unlines (pieces s) = s ++ ['\n'] := by
  induction s with
  | nil => rfl
  | cons c s ih =>
    by_cases hc : c = '\n'
    · rw [pieces, if_pos hc, unlines_cons, ih, hc]
      rfl
    · rw [pieces, if_neg hc]
      cases hp : pieces s with
      | nil =>
        have hlen := length_pieces (s := s)
        rw [hp] at hlen
        cases hlen
      | cons l ls =>
        rw [hp] at ih
        simpa using ih

theorem pieces_infix : (∀ l ∈ (pieces s).head?, l <+: s) ∧ ∀ l ∈ pieces s, l <:+: s := by
  induction s with
  | nil => simp [pieces]
  | cons c s ih =>
    by_cases hc : c = '\n'
    · rw [pieces, if_pos hc]
      refine ⟨by simp, fun l hl => ?_⟩
      rcases mem_cons.mp hl with rfl | hl
      · exact nil_infix
      · exact (ih.2 l hl).trans (suffix_cons c s).isInfix
    · rw [pieces, if_neg hc]
      cases hp : pieces s with
      | nil =>
        have hlen := length_pieces (s := s)
        rw [hp] at hlen
        cases hlen
      | cons l' ls =>
        rw [hp] at ih
        have hhead := cons_prefix_cons.mpr ⟨@rfl _ c, ih.1 l' rfl⟩
        refine ⟨by simpa using hhead, fun l hl => ?_⟩
        rcases mem_cons.mp hl with rfl | hl
        · exact hhead.isInfix
        · exact (ih.2 l (mem_cons_of_mem _ hl)).trans (suffix_cons c s).isInfix

theorem unlines_flatMap_pieces : unlines (ls.flatMap pieces) = unlines ls := by
  induction ls with
  | nil => rfl
  | cons l ls ih => rw [flatMap_cons, unlines_append, unlines_pieces, ih, unlines_cons,
      append_assoc, singleton_append]

/-- The lines of a text that end in a newline, and what stands behind them. -/
theorem exists_unlines (s : List Char) :
    ∃ ls t, s = unlines ls ++ t ∧ (∀ l ∈ ls, '\n' ∉ l) ∧ '\n' ∉ t := by
  induction s with
  | nil => exact ⟨[], [], rfl, forall_mem_nil _, not_mem_nil⟩
  | cons c s ih =>
    obtain ⟨ls, t, rfl, hls, ht⟩ := ih
    by_cases hc : c = '\n'
    · exact ⟨[] :: ls, t, by rw [hc]; simp,
        forall_mem_cons.mpr ⟨not_mem_nil, hls⟩, ht⟩
    · cases ls with
      | nil => exact ⟨[], c :: t, rfl, hls, not_mem_cons_of_ne_of_not_mem (Ne.symm hc) ht⟩
      | cons l ls =>
        rw [forall_mem_cons] at hls
        exact ⟨(c :: l) :: ls, t, by simp, forall_mem_cons.mpr
          ⟨not_mem_cons_of_ne_of_not_mem (Ne.symm hc) hls.1, hls.2⟩, ht⟩

def keepLines : List Char → List (List Char)
  | [] => []
  | c :: cs =>
    if c = '\n' then [c] :: keepLines cs
    else
      match keepLines cs with
      | [] => [[c]]
      | l :: ls => (c :: l) :: ls

theorem keepLines_line (h : '\n' ∉ l) :
    keepLines (l ++ '\n' :: t) = (l ++ ['\n']) :: keepLines t := by
  induction l with
  | nil => rfl
  | cons c l ih =>
    rw [mem_cons, not_or] at h
    rw [cons_append, keepLines, if_neg (Ne.symm h.1), ih h.2, cons_append]

theorem keepLines_of_notMem (h : '\n' ∉ s) : keepLines s = if s = [] then [] else [s] := by
  induction s with
  | nil => rfl
  | cons c s ih =>
    rw [mem_cons, not_or] at h
    rw [keepLines, if_neg (Ne.symm h.1), ih h.2, if_neg (cons_ne_nil c s)]
    cases s <;> rfl

theorem keepLines_unlines_append (h : ∀ l ∈ ls, '\n' ∉ l) :
    keepLines (unlines ls ++ t) = ls.map (· ++ ['\n']) ++ keepLines t := by
  induction ls with
  | nil => rfl
  | cons l ls ih =>
    rw [forall_mem_cons] at h
    rw [unlines_cons, append_assoc, cons_append, keepLines_line h.1, ih h.2,
      map_cons, cons_append]

/-- Lines of which only the last may have no newline. -/
structure Kept (ls : List (List Char)) : Prop where
  ne_nil : ∀ l ∈ ls, l ≠ []
  newline : ∀ l ∈ ls, '\n' ∉ l.dropLast
  ends : ∀ l ∈ ls.dropLast, l.getLast? = some '\n'

theorem keepLines_flatten (h : Kept ls) : keepLines ls.flatten = ls := by
  induction ls with
  | nil => rfl
  | cons l ls ih =>
    obtain ⟨hne, hnewline⟩ := And.intro (h.ne_nil l mem_cons_self)
      (h.newline l mem_cons_self)
    have htail : Kept ls := by
      refine ⟨fun l hl => h.ne_nil l (mem_cons_of_mem _ hl),
        fun l hl => h.newline l (mem_cons_of_mem _ hl), fun l' hl' => h.ends l' ?_⟩
      rw [dropLast_cons_of_ne_nil (by rintro rfl; cases hl')]
      exact mem_cons_of_mem _ hl'
    rw [flatten_cons]
    rcases eq_nil_or_concat l with rfl | ⟨t, c, rfl⟩
    · exact absurd rfl hne
    rw [concat_eq_append, dropLast_concat] at hnewline
    rw [concat_eq_append]
    by_cases hc : c = '\n'
    · subst hc
      rw [append_assoc, singleton_append, keepLines_line hnewline, ih htail]
    · have hnil : ls = [] := by
        by_contra hls
        have hends := h.ends (t.concat c) (by
          rw [dropLast_cons_of_ne_nil hls]
          exact mem_cons_self)
        rw [concat_eq_append, getLast?_concat, some.injEq] at hends
        exact hc hends
      subst hnil
      rw [flatten_nil, append_nil, keepLines_of_notMem (by simp [hnewline, Ne.symm hc]),
        if_neg (by simp)]

theorem kept_keepLines : Kept (keepLines s) := by
  obtain ⟨ls, t, rfl, hls, ht⟩ := exists_unlines s
  rw [keepLines_unlines_append hls, keepLines_of_notMem ht]
  have hfull : ∀ l ∈ ls.map (· ++ ['\n']),
      l ≠ [] ∧ '\n' ∉ l.dropLast ∧ l.getLast? = some '\n' := by
    intro l hl
    obtain ⟨l', hl', rfl⟩ := List.mem_map.mp hl
    exact ⟨by simp, by rw [dropLast_concat]; exact hls l' hl', getLast?_concat⟩
  by_cases hnil : t = []
  · rw [if_pos hnil, append_nil]
    exact ⟨fun l hl => (hfull l hl).1, fun l hl => (hfull l hl).2.1,
      fun l hl => (hfull l (mem_of_mem_dropLast hl)).2.2⟩
  · rw [if_neg hnil]
    refine ⟨fun l hl => ?_, fun l hl => ?_, fun l hl => ?_⟩
    · rcases mem_append.mp hl with hl | hl
      · exact (hfull l hl).1
      · rw [mem_singleton.mp hl]
        exact hnil
    · rcases mem_append.mp hl with hl | hl
      · exact (hfull l hl).2.1
      · rw [mem_singleton.mp hl]
        exact fun hmem => ht (mem_of_mem_dropLast hmem)
    · rw [dropLast_concat] at hl
      exact (hfull l hl).2.2

theorem flatten_keepLines : (keepLines s).flatten = s := by
  induction s with
  | nil => rfl
  | cons c s ih =>
    rw [keepLines]
    split
    case isTrue hc => rw [flatten_cons, ih]; rfl
    case isFalse =>
      cases hk : keepLines s with
      | nil =>
        rw [hk] at ih
        rw [← ih]
        rfl
      | cons l ls =>
        rw [hk] at ih
        rw [flatten_cons, cons_append, ← flatten_cons, ih]

theorem lines_eq_map : lines s = (keepLines s).map fun l => l.filter (· ≠ '\n') := by
  induction s with
  | nil => rfl
  | cons c s ih =>
    by_cases hc : c = '\n'
    · rw [lines, keepLines, if_pos hc, if_pos hc, map_cons, ih, hc]
      rfl
    · rw [lines, keepLines, if_neg hc, if_neg hc, ih]
      cases keepLines s with
      | nil => simp [hc]
      | cons l ls => simp [hc]

theorem lines_of_notMem (h : '\n' ∉ s) : lines s = if s = [] then [] else [s] := by
  induction s with
  | nil => rfl
  | cons c s ih =>
    rw [mem_cons, not_or] at h
    rw [lines, if_neg (Ne.symm h.1), ih h.2, if_neg (cons_ne_nil c s)]
    cases s <;> rfl

theorem lines_unlines_append (h : ∀ l ∈ ls, '\n' ∉ l) :
    lines (unlines ls ++ t) = ls ++ lines t := by
  induction ls with
  | nil => rfl
  | cons l ls ih =>
    rw [forall_mem_cons] at h
    rw [unlines_cons, append_assoc, cons_append, lines_line h.1, ih h.2, cons_append]

/-- What the calls return, the first of which has room for `room` characters and the others for
`n`. -/
def readsFrom (n : Nat) : Nat → List Char → List (List Char)
  | _, [] => []
  | room, c :: cs =>
    if c = '\n' ∨ room ≤ 1 then [c] :: readsFrom n n cs
    else
      match readsFrom n (room - 1) cs with
      | [] => [[c]]
      | l :: ls => (c :: l) :: ls

def reads (n : Nat) (s : List Char) : List (List Char) := readsFrom n n s

theorem readsFrom_cons {c : Char} (hc : c ≠ '\n') (hroom : 1 < room)
    (h : readsFrom n (room - 1) s = l :: ls) : readsFrom n room (c :: s) = (c :: l) :: ls := by
  rw [readsFrom, if_neg (by simp [hc]; omega), h]

theorem readsFrom_line (h : '\n' ∉ l) (hroom : l.length < room) :
    readsFrom n room (l ++ '\n' :: t) = (l ++ ['\n']) :: reads n t := by
  induction l generalizing room with
  | nil => rw [nil_append, readsFrom, if_pos (.inl rfl)]; rfl
  | cons c l ih =>
    rw [mem_cons, not_or] at h
    rw [length_cons] at hroom
    exact readsFrom_cons (Ne.symm h.1) (by omega) (ih h.2 (by omega))

/-- Of a line that is longer there is as much as fits. -/
theorem readsFrom_full (h : '\n' ∉ l) (hl : l ≠ []) (hroom : l.length = room) :
    readsFrom n room (l ++ t) = l :: reads n t := by
  induction l generalizing room with
  | nil => exact absurd rfl hl
  | cons c l ih =>
    rw [mem_cons, not_or] at h
    rw [length_cons] at hroom
    by_cases hnil : l = []
    · subst hnil
      rw [cons_append, nil_append, readsFrom, if_pos (.inr hroom.ge)]
      rfl
    · have hpos := length_pos_iff.mpr hnil
      exact readsFrom_cons (Ne.symm h.1) (by omega) (ih h.2 hnil (by omega))

theorem readsFrom_rest (h : '\n' ∉ l) (hl : l ≠ []) (hroom : l.length ≤ room) :
    readsFrom n room l = [l] := by
  induction l generalizing room with
  | nil => exact absurd rfl hl
  | cons c l ih =>
    rw [mem_cons, not_or] at h
    rw [length_cons] at hroom
    by_cases hnil : l = []
    · subst hnil
      by_cases hroom' : room ≤ 1
      · rw [readsFrom, if_pos (.inr hroom')]
        rfl
      · rw [readsFrom, if_neg (by simp [Ne.symm h.1]; omega)]
        rfl
    · have hpos := length_pos_iff.mpr hnil
      exact readsFrom_cons (Ne.symm h.1) (by omega) (ih h.2 hnil (by omega))

theorem length_readsFrom (hn : 0 < n) (h : 0 < room) :
    (∀ l ∈ (readsFrom n room s).head?, l.length ≤ room) ∧
      ∀ l ∈ (readsFrom n room s).tail, l.length ≤ n := by
  induction s generalizing room with
  | nil => exact ⟨by simp [readsFrom], forall_mem_nil _⟩
  | cons c s ih =>
    rw [readsFrom]
    split
    case isTrue =>
      refine ⟨fun l hl => ?_, ?_⟩
      · rw [List.head?_cons, mem_some_iff] at hl
        rw [← hl]
        exact h
      · obtain ⟨hhead, htail⟩ := ih hn
        rw [tail_cons]
        cases hr : readsFrom n n s with
        | nil => exact forall_mem_nil _
        | cons l ls =>
          rw [hr] at hhead htail
          exact forall_mem_cons.mpr ⟨hhead l rfl, htail⟩
    case isFalse hnot =>
      obtain ⟨hhead, htail⟩ := @ih (room - 1) (by omega)
      cases hr : readsFrom n (room - 1) s with
      | nil =>
        refine ⟨fun l hl => ?_, forall_mem_nil _⟩
        rw [List.head?_cons, mem_some_iff] at hl
        rw [← hl]
        exact h
      | cons l ls =>
        rw [hr] at hhead htail
        refine ⟨fun l' hl' => ?_, htail⟩
        rw [List.head?_cons, mem_some_iff] at hl'
        rw [← hl', length_cons]
        have hl := hhead l rfl
        omega

theorem length_le_of_mem_reads (hn : 0 < n) (hl : l ∈ reads n s) : l.length ≤ n := by
  obtain ⟨hhead, htail⟩ := length_readsFrom (s := s) hn hn
  rw [reads] at hl
  cases hr : readsFrom n n s with
  | nil =>
    rw [hr] at hl
    cases hl
  | cons l' ls =>
    rw [hr] at hl hhead htail
    rcases mem_cons.mp hl with rfl | hl
    · exact hhead l rfl
    · exact htail l hl

theorem reads_eq_keepLines (h : ∀ l ∈ lines s, l.length < n) : reads n s = keepLines s := by
  obtain ⟨ls, t, rfl, hls, ht⟩ := exists_unlines s
  rw [lines_unlines_append hls, lines_of_notMem ht, forall_mem_append] at h
  rw [keepLines_unlines_append hls, keepLines_of_notMem ht]
  induction ls with
  | nil =>
    split
    case isTrue hnil => rw [hnil]; rfl
    case isFalse hne =>
      rw [if_neg hne] at h
      exact readsFrom_rest ht hne (h.2 t (mem_singleton_self t)).le
  | cons l ls ih =>
    rw [forall_mem_cons] at hls
    rw [forall_mem_cons] at h
    rw [unlines_cons, append_assoc, cons_append, reads,
      readsFrom_line hls.1 h.1.1, ih ⟨h.1.2, h.2⟩ hls.2, map_cons, cons_append]

end ModemSupport.Lib.Gets
