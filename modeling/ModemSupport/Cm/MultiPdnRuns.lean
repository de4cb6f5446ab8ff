import ModemSupport.Cm.MultiPdnLines

/-! In which runs `multi-pdn-manager.c` stays within its arrays, holds the lines of the file and
saves the profiles. -/

namespace ModemSupport.Cm.MultiPdn

open Lib.Text Lib.Gets Lib.Memory Lib.Transition List

def fileAt (file : Str) : Nat → Str := lineAt (keepLines file)

/-- Line `k` holds a key of a profile: it is in a section of the profile's name. -/
def KeyLine (F : Nat → Str) (i : Nat) (key : Key) (k : Nat) : Prop :=
  ∃ h < k, sectOf i <+: F h ∧ (∀ j < k, h < j → (F j).head? ≠ some '[') ∧ key.name ++ ['='] <+: F k

structure IniFile (file : Str) : Prop where
  count : (keepLines file).length ≤ 79
  holds : ∀ i < maxQmapNum, ∀ key, ∃ k, KeyLine (fileAt file) i key k

/-- The lines of the file are in `fileContents`, and nothing else. -/
def Loaded (file : Str) (fileContents : Nat → Str) : Prop := ∀ k, fileContents k = fileAt file k

/-- A profile is read from the new file as it was in `profileList`, and the other lines are as they
were. -/
structure Saved (s : State) (file : Str) : Prop where
  profiles : ∀ i : Nat, (i : Int) < s.qmapNum → readProfile file i = s.profileList i
  count : (keepLines file).length = (keepLines s.file).length
  others : ∀ k, fileAt file k = fileAt s.file k ∨
    ∃ (i : Nat) (key : Key), (i : Int) < s.qmapNum ∧ KeyLine (fileAt s.file) i key k

structure Good (s : State) (op : Op) : Prop where
  within : ∀ a ∈ (perform s op).2, a.Within
  loaded : ∀ q, op = .load q → Loaded s.file (perform s op).1.fileContents
  saved : op = .save → Saved s (perform s op).1.file

/-- The file is a text whose lines fit with their newline and their null, and of a section and its
keys there is one each: no other line of the section has the name of the key in front. -/
structure Sound (file : Str) : Prop where
  null : '\x00' ∉ file
  short : ∀ l ∈ lines file, l.length < lineContentMaxLen - 1
  once : ∀ i < maxQmapNum, ∀ key : Key, ∃ h k, Located (fileAt file) (sectOf i) key.name h k

/-- A text that is written with its key and read again. -/
structure Writable (key : Key) (val : Str) : Prop where
  short : (strWrite key.name val).length < lineContentMaxLen
  plain : ∀ c ∈ val, c ≠ '\r' ∧ c ≠ '\n' ∧ c ≠ '\x00'

/-- Nothing is loaded over a longer line, profile 0 is not taken for one, what is written has room,
and only a file that has been loaded, with a line of the array to spare, is saved. -/
def Meets (s : State) : Op → Prop
  | .load _ => ∀ k, (s.fileContents k).length ≤ (fileAt s.file k).length
  | .modify p => p.accepted → p.connectProfile ≠ 0 ∧
    (p.connectProfile ≤ s.qmapNum → ∀ key : Key,
      (strWrite key.name (p.profile.text key)).length < lineContentMaxLen ∧
        '\r' ∉ p.profile.text key)
  | .save => s.fileIndex ≠ 0 ∧ s.fileIndex < fileLines

def step (s : State) (op : Op) : Option State := some (perform s op).1

variable {file : Str} {s t : State} {op : Op} {F G rows : Nat → Str} {h k n m i j : Nat} {key : Key}
  {val l : Str} {p : Profile}

theorem strtol_decInt (i : Int) : strtol (decInt i) = i := by
  have hdigits : ∀ n : Nat, (dec n).takeWhile Char.isDigit = dec n := by
    intro n
    rw [takeWhile_eq_self_iff]
    exact fun c hc => isDigit_of_mem_dec hc
  have hval : ∀ n : Nat, Nat.ofDigitChars 10 (dec n) 0 = n := by
    intro n
    simp [dec]
  rw [decInt]
  split
  case isTrue hneg =>
    rw [strtol, dropWhile_cons_of_neg (by decide)]
    simp only [hdigits, hval]
    omega
  case isFalse hpos =>
    have hdrop : (dec i.natAbs).dropWhile isspace = dec i.natAbs := by
      rw [dropWhile_eq_self_iff]
      intro hlt
      rw [isspace_of_isDigit (isDigit_of_mem_dec (getElem_mem hlt))]
      exact Bool.false_ne_true
    have hminus : '-' ∉ dec i.natAbs := notMem_dec (by decide)
    have hplus : '+' ∉ dec i.natAbs := notMem_dec (by decide)
    rw [strtol, hdrop]
    split
    · next heq => exact absurd (by rw [heq]; exact mem_cons_self) hminus
    · next heq => exact absurd (by rw [heq]; exact mem_cons_self) hplus
    · simp only [hdigits, hval]
      omega

def IsInt32 (i : Int) : Prop := -2 ^ 31 ≤ i ∧ i < 2 ^ 31

theorem isInt32_atoi (str : Str) : IsInt32 (atoi str) := by
  rw [atoi, int32, IsInt32]
  exact ⟨Int32.le_toInt _, Int32.toInt_lt _⟩

theorem atoi_decInt (hi : IsInt32 i') : atoi (decInt i') = i' := by
  obtain ⟨hle, hlt⟩ := hi
  rw [atoi, strtol_decInt, int32_eq, max_eq_right (by omega), min_eq_left (by omega)]
  rw [Int.bmod_eq_of_le_mul_two] <;> omega

def Profile.Yields (p : Profile) (val : Str) : Key → Prop
  | .apn => val = p.apn
  | .user => val = p.user
  | .password => val = p.password
  | .auth => atoi val = p.auth
  | .ipfamily => atoi val = p.ipfamily
  | .pin => val = p.pin

theorem readProfile_eq_iff : readProfile file i = p ↔
    ∀ key, p.Yields (readStringValue i key file) key := by
  constructor
  · rintro rfl key
    cases key <;> rfl
  · intro h
    have hauth : readIntValue i .auth file = p.auth := h .auth
    have hipfamily : readIntValue i .ipfamily file = p.ipfamily := h .ipfamily
    have hapn : readStringValue i .apn file = p.apn := h .apn
    have huser : readStringValue i .user file = p.user := h .user
    have hpassword : readStringValue i .password file = p.password := h .password
    have hpin : readStringValue i .pin file = p.pin := h .pin
    rw [readProfile, hapn, huser, hpassword, hauth, hipfamily, hpin]

theorem yields_text (hauth : IsInt32 p.auth) (hipfamily : IsInt32 p.ipfamily) (key : Key) :
    p.Yields (p.text key) key := by
  cases key with
  | auth => exact atoi_decInt hauth
  | ipfamily => exact atoi_decInt hipfamily
  | apn | user | password | pin => rfl

theorem valueOf_strWrite (h : ∀ c ∈ val, c ≠ '\r' ∧ c ≠ '\n' ∧ c ≠ '\x00') :
    valueOf key.name (strWrite key.name val) = val := by
  rw [valueOf, strWrite, ← drop_drop, drop_left, drop_one, tail_cons,
    takeWhile_append_of_pos]
  · simp
  · intro c hc
    simp [(h c hc).1, (h c hc).2.1]

theorem strWrite_isPrefix : key.name ++ ['='] <+: strWrite key.name val :=
  ⟨val ++ ['\n'], by simp [strWrite]⟩

/-- The first `n` lines of an array are those of a text. -/
structure Rows (rows : Nat → Str) (n : Nat) : Prop where
  ne_nil : ∀ k < n, rows k ≠ []
  empty : ∀ k, n ≤ k → rows k = []
  newline : ∀ k, '\n' ∉ (rows k).dropLast
  ends : ∀ k, k + 1 < n → (rows k).getLast? = some '\n'
  null : ∀ k, '\x00' ∉ rows k
  short : ∀ k, ((rows k).filter (· ≠ '\n')).length < lineContentMaxLen - 1

theorem lineAt_of_lt {lines : List Str} (hk : k < lines.length) : lineAt lines k = lines[k] := by
  rw [lineAt, getD_eq_getElem?_getD, List.getElem?_eq_getElem hk, Option.getD_some]

theorem lineAt_of_le {lines : List Str} (hk : lines.length ≤ k) : lineAt lines k = [] := by
  rw [lineAt, getD_eq_getElem?_getD, List.getElem?_eq_none hk, Option.getD_none]

theorem mem_or_nil {lines : List Str} (k : Nat) : lineAt lines k ∈ lines ∨ lineAt lines k = [] := by
  by_cases hk : k < lines.length
  · rw [lineAt_of_lt hk]
    exact .inl (getElem_mem hk)
  · exact .inr (lineAt_of_le (not_lt.mp hk))

theorem getElem_mem_dropLast {lines : List Str} (hk : k + 1 < lines.length) :
    lineAt lines k ∈ lines.dropLast := by
  rw [lineAt_of_lt (by omega)]
  have hlt : k < lines.dropLast.length := by
    rw [length_dropLast]
    omega
  rw [← getElem_dropLast hlt]
  exact getElem_mem hlt

theorem rows_of_sound (h : Sound file) : Rows (fileAt file) (keepLines file).length := by
  have hkept := kept_keepLines (s := file)
  have hshort := h.short
  rw [lines_eq_map, List.forall_mem_map] at hshort
  refine ⟨fun k hk => ?_, fun k hk => lineAt_of_le hk, fun k => ?_,
    fun k hk => hkept.ends _ (getElem_mem_dropLast hk), fun k => ?_, fun k => ?_⟩
  · rw [fileAt, lineAt_of_lt hk]
    exact hkept.ne_nil _ (getElem_mem hk)
  · rcases mem_or_nil k with hmem | hnil
    · exact hkept.newline _ hmem
    · rw [fileAt, hnil]
      exact not_mem_nil
  · rcases mem_or_nil k with hmem | hnil
    · intro hnull
      refine h.null ?_
      rw [← flatten_keepLines (s := file)]
      exact mem_flatten.mpr ⟨_, hmem, hnull⟩
    · rw [fileAt, hnil]
      exact not_mem_nil
  · rcases mem_or_nil k with hmem | hnil
    · exact hshort _ hmem
    · rw [fileAt, hnil]
      decide

theorem Rows.length_lt (hrows : Rows rows n) (k : Nat) : (rows k).length < lineContentMaxLen := by
  have hshort := hrows.short k
  have hnewline := hrows.newline k
  rcases eq_nil_or_concat (rows k) with hnil | ⟨t, c, heq⟩
  · rw [hnil]
    decide
  · rw [heq, concat_eq_append] at hshort hnewline ⊢
    rw [dropLast_concat] at hnewline
    have hfilter : t.filter (· ≠ '\n') = t := by
      rw [filter_eq_self]
      intro c hc
      simpa using fun heq : c = '\n' => hnewline (heq ▸ hc)
    rw [filter_append, hfilter, length_append] at hshort
    rw [length_append, length_singleton]
    simp only [lineContentMaxLen] at hshort ⊢
    omega

theorem kept_of_rows (hrows : Rows rows n) : Kept ((List.range n).map rows) := by
  refine ⟨fun l hl => ?_, fun l hl => ?_, fun l hl => ?_⟩
  · obtain ⟨k, hk, rfl⟩ := List.mem_map.mp hl
    exact hrows.ne_nil k (mem_range.mp hk)
  · obtain ⟨k, _, rfl⟩ := List.mem_map.mp hl
    exact hrows.newline k
  · obtain ⟨k, hk, rfl⟩ := getElem_of_mem hl
    rw [length_dropLast, length_map, length_range] at hk
    rw [getElem_dropLast, getElem_map, getElem_range]
    exact hrows.ends k (by omega)

theorem keepLines_rows (hrows : Rows rows n) (hm : n ≤ m) :
    keepLines ((List.range m).flatMap rows) = (List.range n).map rows := by
  have hflat : (List.range m).flatMap rows = ((List.range n).map rows).flatten := by
    obtain ⟨d, rfl⟩ := Nat.exists_eq_add_of_le hm
    rw [← flatMap_def, range_add, flatMap_append, append_right_eq_self,
      flatMap_eq_nil_iff]
    intro k hk
    obtain ⟨j, _, rfl⟩ := List.mem_map.mp hk
    exact hrows.empty _ (Nat.le_add_right ..)
  rw [hflat, keepLines_flatten (kept_of_rows hrows)]

theorem fileAt_rows (hrows : Rows rows n) (hm : n ≤ m) :
    fileAt ((List.range m).flatMap rows) = rows := by
  funext k
  rw [fileAt, keepLines_rows hrows hm]
  by_cases hk : k < n
  · rw [lineAt_of_lt (by simpa using hk), getElem_map, getElem_range]
  · rw [lineAt_of_le (by simpa using hk), hrows.empty k (not_lt.mp hk)]

theorem Rows.update (hrows : Rows rows n) (hk : k < n) (hval : Writable key val) :
    Rows (Function.update rows k (strWrite key.name val)) n := by
  have hdrop : (strWrite key.name val).dropLast = key.name ++ '=' :: val := by
    rw [strWrite, ← cons_append, ← append_assoc, dropLast_concat]
  have hnewline : '\n' ∉ key.name ++ '=' :: val := by
    simp only [mem_append, mem_cons, not_or]
    exact ⟨notMem_name key (by decide), by decide, fun hmem => (hval.plain _ hmem).2.1 rfl⟩
  have hlast : (strWrite key.name val).getLast? = some '\n' := by
    rw [strWrite, ← cons_append, ← append_assoc, getLast?_concat]
  have hnull : '\x00' ∉ strWrite key.name val := by
    simp only [strWrite, mem_append, mem_cons, not_or]
    exact ⟨notMem_name key (by decide), by decide, fun hmem => (hval.plain _ hmem).2.2 rfl,
      by decide, not_mem_nil⟩
  have hshort : ((strWrite key.name val).filter (· ≠ '\n')).length < lineContentMaxLen - 1 := by
    have hlen := hval.short
    have hle := length_filter_le (fun c => decide (c ≠ '\n')) (key.name ++ '=' :: val)
    have heq : strWrite key.name val = key.name ++ '=' :: val ++ ['\n'] := by
      rw [strWrite, ← cons_append, ← append_assoc]
    rw [heq, length_append, length_singleton] at hlen
    rw [heq, filter_append, length_append]
    simp only [lineContentMaxLen] at hlen ⊢
    have hzero : (filter (fun c => decide (c ≠ '\n')) ['\n']).length = 0 := rfl
    omega
  refine ⟨fun j hj => ?_, fun j hj => ?_, fun j => ?_, fun j hj => ?_, fun j => ?_, fun j => ?_⟩ <;>
    by_cases hjk : j = k
  · subst hjk
    rw [Function.update_self]
    exact append_ne_nil_of_left_ne_nil (name_ne_nil key) _
  · rw [Function.update_of_ne hjk]
    exact hrows.ne_nil j hj
  · omega
  · rw [Function.update_of_ne hjk]
    exact hrows.empty j hj
  · subst hjk
    rw [Function.update_self, hdrop]
    exact hnewline
  · rw [Function.update_of_ne hjk]
    exact hrows.newline j
  · subst hjk
    rw [Function.update_self, hlast]
  · rw [Function.update_of_ne hjk]
    exact hrows.ends j hj
  · subst hjk
    rw [Function.update_self]
    exact hnull
  · rw [Function.update_of_ne hjk]
    exact hrows.null j
  · subst hjk
    rw [Function.update_self]
    exact hshort
  · rw [Function.update_of_ne hjk]
    exact hrows.short j

end ModemSupport.Cm.MultiPdn
