import ModemSupport.Cm.MultiPdnRuns

/-! What `fileContents` and `profileList` hold in a run of `multi-pdn-manager.c`. -/

namespace ModemSupport.Cm.MultiPdn

open Lib.Text Lib.Gets Lib.Memory Lib.Transition List

variable {file : Str} {s t : State} {op : Op} {F G fileContents : Nat → Str}
  {h h' k k' n m i fileIndex : Nat} {key : Key} {val l sect : Str} {p : Profile}
  {profileList : Int → Profile} {pairs : List (Nat × Key)}

theorem lineAt_range (hrows : Rows F n) (hm : n ≤ m) : lineAt ((List.range m).map F) = F := by
  funext k
  by_cases hk : k < m
  · rw [lineAt_of_lt (by simpa using hk), getElem_map, getElem_range]
  · rw [lineAt_of_le (by simpa using hk), hrows.empty k (by omega)]

theorem lineAt_append_nil {lines : List Str} : lineAt (lines ++ [[]]) = lineAt lines := by
  funext k
  rcases lt_trichotomy k lines.length with hlt | rfl | hgt
  · rw [lineAt_of_lt (by simp; omega), lineAt_of_lt hlt, getElem_append_left hlt]
  · rw [lineAt_of_lt (by simp), lineAt_of_le le_rfl, getElem_concat_length rfl]
  · rw [lineAt_of_le (by simp; omega), lineAt_of_le hgt.le]

theorem lineContents_of_rows (hrows : Rows (fileAt file) (keepLines file).length) :
    lineContents file = keepLines file ∨ lineContents file = keepLines file ++ [[]] := by
  have hshort : ∀ l ∈ lines file, l.length < lineContentMaxLen - 1 := by
    rw [lines_eq_map, List.forall_mem_map]
    intro l hl
    obtain ⟨k, hk, rfl⟩ := getElem_of_mem hl
    rw [← lineAt_of_lt hk]
    exact hrows.short k
  have hreads := reads_eq_keepLines hshort
  simp only [lineContents, hreads]
  cases hlast : (keepLines file).getLast? with
  | none =>
    rw [getLast?_eq_none_iff.mp hlast]
    exact .inr rfl
  | some line =>
    simp only
    split
    · exact .inl rfl
    · exact .inr rfl

theorem lineAt_lineContents (hrows : Rows (fileAt file) (keepLines file).length) :
    lineAt (lineContents file) = fileAt file := by
  rcases lineContents_of_rows hrows with heq | heq
  · rw [heq, fileAt]
  · rw [heq, lineAt_append_nil, fileAt]

theorem readStringValue_of_located (hrows : Rows (fileAt file) (keepLines file).length)
    (hloc : Located (fileAt file) (sectOf i) key.name h k) :
    readStringValue i key file = valueOf key.name (fileAt file k) := by
  rw [← lineAt_lineContents hrows] at hloc ⊢
  refine iniReadValue_of_located (head_sectOf i) hloc ?_
  rw [lineAt_lineContents hrows]
  exact hrows.null k

theorem Alike.symm {l l' : Str} (h : Alike l l') : Alike l' l :=
  ⟨fun s hs => (h.sect s hs).symm, fun key => ⟨(h.key key).1.symm, (h.key key).2.symm⟩, h.head.symm⟩

theorem Located.line_eq {key : Str} (hloc : Located F sect key h k)
    (hloc' : Located F sect key h' k') : k = k' := by
  have hheader : ∀ {h h' k k'}, Located F sect key h k → Located F sect key h' k' → h ≤ h' := by
    intro h h' k k' hloc hloc'
    by_contra hlt
    exact hloc.first h' (not_le.mp hlt) hloc'.header
  obtain rfl := Nat.le_antisymm (hheader hloc hloc') (hheader hloc' hloc)
  have hline : ∀ {k k'}, Located F sect key h k → Located F sect key h k' → k ≤ k' := by
    intro k k' hloc hloc'
    by_contra hlt
    exact (hloc.body hloc'.lt (not_le.mp hlt)).1 ((prefix_append ..).trans hloc'.line)
  exact Nat.le_antisymm (hline hloc hloc') (hline hloc' hloc)

theorem Located.lt_rows (hrows : Rows F n) (hloc : Located F sect key.name h k) : k < n := by
  by_contra hle
  have hline := hloc.line
  rw [hrows.empty k (not_lt.mp hle)] at hline
  exact absurd (prefix_nil.mp hline) (by simp)

theorem Located.keyLine (hloc : Located F (sectOf i) key.name h k) : KeyLine F i key k :=
  ⟨h, hloc.lt, hloc.header, fun _ hk hj => (hloc.body hj hk).2, hloc.line⟩

theorem iniWriteValue_of_located (val : Str) (hrows : Rows fileContents n) (hm : n ≤ fileIndex)
    (hloc : Located fileContents (sectOf i) key.name h k) :
    iniWriteValue (sectOf i) key.name val fileIndex fileContents =
      (Function.update fileContents k (strWrite key.name val),
        .strWrite ((strWrite key.name val).length + 1) ::
          (List.range (k + 1)).map (fun k => .line k lineContentMaxLen) ++
          [.line k lineContentMaxLen, .line k (strWrite key.name val).length]) := by
  rw [← lineAt_range (m := fileIndex + 1) hrows (by omega)] at hloc
  have hfind := findLine_of_located (head_sectOf i) hloc
  rw [iniWriteValue, hfind]

structure Wrote (F : Nat → Str) (n : Nat) (profileList : Int → Profile) (pairs : List (Nat × Key))
    (fileContents fileContents' : Nat → Str) : Prop where
  rows : Rows fileContents' n
  alike : ∀ k, Alike (F k) (fileContents' k)
  others : ∀ k, fileContents' k = fileContents k ∨
    ∃ i key h, (i, key) ∈ pairs ∧ Located F (sectOf i) key.name h k
  lines : ∀ i key h k, (i, key) ∈ pairs → Located F (sectOf i) key.name h k →
    fileContents' k = strWrite key.name ((profileList i).text key)

theorem strWrite_within (hk : k < fileLines)
    (hlen : (strWrite key.name val).length < lineContentMaxLen) :
    ∀ a ∈ Access.strWrite ((strWrite key.name val).length + 1) ::
      (List.range (k + 1)).map (fun k => .line k lineContentMaxLen) ++
        [.line k lineContentMaxLen, .line k (strWrite key.name val).length], a.Within := by
  rw [forall_mem_append, forall_mem_cons, List.forall_mem_map]
  refine ⟨⟨hlen, fun j hj => ⟨?_, le_rfl⟩⟩, ?_⟩
  · have hle := mem_range.mp hj
    omega
  · rw [forall_mem_cons, forall_mem_singleton]
    exact ⟨⟨hk, le_rfl⟩, hk, hlen.le⟩

theorem writeKeys_wrote (profileList : Int → Profile)
    (hpairs : ∀ i key, (i, key) ∈ pairs → i < maxQmapNum ∧
      Writable key ((profileList i).text key) ∧ ∃ h k, Located F (sectOf i) key.name h k)
    (hrows : Rows fileContents n) (halike : ∀ k, Alike (F k) (fileContents k))
    (hm : n ≤ fileIndex) (hn : n < fileLines) :
    Wrote F n profileList pairs fileContents
        (writeKeys profileList fileIndex pairs fileContents).1 ∧
      ∀ a ∈ (writeKeys profileList fileIndex pairs fileContents).2, a.Within := by
  induction pairs generalizing fileContents with
  | nil =>
    exact ⟨⟨hrows, halike, fun _ => .inl rfl, fun _ _ _ _ hmem => absurd hmem not_mem_nil⟩,
      forall_mem_nil _⟩
  | cons pair pairs ih =>
    obtain ⟨i, key⟩ := pair
    obtain ⟨hi, hwritable, h, k, hloc⟩ := hpairs i key mem_cons_self
    have hloc' := hloc.congr (head_sectOf i) halike
    have hwrite := iniWriteValue_of_located ((profileList i).text key) hrows hm hloc'
    have halike' : ∀ j, Alike (F j)
        (Function.update fileContents k (strWrite key.name ((profileList i).text key)) j) := by
      intro j
      by_cases hj : j = k
      · subst hj
        rw [Function.update_self]
        exact alike_of_line hloc.line strWrite_isPrefix
      · rw [Function.update_of_ne hj]
        exact halike j
    have hk := hloc'.lt_rows hrows
    obtain ⟨hrest, hwithin⟩ := ih (fun i key hmem => hpairs i key (mem_cons_of_mem _ hmem))
      (hrows.update hk hwritable) halike'
    have hprofile : (Access.profile i).Within := by
      simp only [Access.Within]
      omega
    simp only [writeKeys, hwrite]
    refine ⟨⟨hrest.rows, hrest.alike, fun j => ?_, fun i' key' h' j hmem hloc'' => ?_⟩,
      forall_mem_append.mpr ⟨forall_mem_cons.mpr ⟨hprofile,
        strWrite_within (by omega) hwritable.short⟩, hwithin⟩⟩
    · rcases hrest.others j with heq | ⟨i', key', h', hmem, hloc''⟩
      · by_cases hj : j = k
        · subst hj
          exact .inr ⟨i, key, h, mem_cons_self, hloc⟩
        · rw [Function.update_of_ne hj] at heq
          exact .inl heq
      · exact .inr ⟨i', key', h', mem_cons_of_mem _ hmem, hloc''⟩
    · rcases mem_cons.mp hmem with heq | hmem
      · obtain ⟨rfl, rfl⟩ := Prod.mk.inj heq
        obtain rfl := hloc.line_eq hloc''
        rcases hrest.others k with heq | ⟨i', key', h', hmem, hloc'⟩
        · rwa [Function.update_self] at heq
        · obtain ⟨rfl, rfl⟩ := hloc.unique hloc'
          exact hrest.lines i' key' h' k hmem hloc'
      · exact hrest.lines i' key' h' j hmem hloc''

/-- The file, whose lines fit and which has a line for each key. -/
structure Stored (file : Str) : Prop where
  count : (keepLines file).length < fileLines
  rows : Rows (fileAt file) (keepLines file).length
  once : ∀ i < maxQmapNum, ∀ key : Key, ∃ h k, Located (fileAt file) (sectOf i) key.name h k

structure Profile.Fits (p : Profile) : Prop where
  writable : ∀ key, Writable key (p.text key)
  auth : IsInt32 p.auth
  ipfamily : IsInt32 p.ipfamily

/-- The lines of the file with those of the keys that are not saved yet. -/
structure Cached (s : State) : Prop where
  qmapNum : s.qmapNum ≤ maxQmapNum
  fileIndex : (keepLines s.file).length ≤ s.fileIndex
  rows : Rows s.fileContents (keepLines s.file).length
  alike : ∀ k, Alike (fileAt s.file k) (s.fileContents k)
  others : ∀ k, s.fileContents k = fileAt s.file k ∨ ∃ (i : Nat) (key : Key) (h : Nat),
    (i : Int) < s.qmapNum ∧ Located (fileAt s.file) (sectOf i) key.name h k
  values : ∀ i : Nat, (i : Int) < s.qmapNum → ∀ key h k,
    Located (fileAt s.file) (sectOf i) key.name h k →
      (s.profileList i).Yields (valueOf key.name (s.fileContents k)) key
  fits : ∀ i : Nat, (i : Int) < s.qmapNum → (s.profileList i).Fits

structure Inv (s : State) : Prop where
  stored : Stored s.file
  cached : Cached s ∨ s.fileIndex = 0 ∧ (∀ k, s.fileContents k = []) ∧ s.qmapNum = -1

theorem stored_of_sound (hini : IniFile file) (h : Sound file) : Stored file :=
  ⟨Nat.lt_succ_of_le hini.count, rows_of_sound h, h.once⟩

theorem writable_valueOf (hrows : Rows F n) (hline : key.name ++ ['='] <+: F k) :
    Writable key (valueOf key.name (F k)) := by
  obtain ⟨v, hv⟩ := hline
  have hval : valueOf key.name (F k) = v.takeWhile fun c => c ≠ '\r' ∧ c ≠ '\n' := by
    rw [valueOf, ← hv, append_assoc, singleton_append, ← drop_drop, drop_left,
      drop_one, tail_cons]
  have hplain : ∀ c ∈ valueOf key.name (F k), c ≠ '\r' ∧ c ≠ '\n' := by
    intro c hc
    rw [hval] at hc
    simpa using mem_takeWhile_imp hc
  refine ⟨?_, fun c hc => ⟨(hplain c hc).1, (hplain c hc).2, fun heq => ?_⟩⟩
  · have hshort := hrows.short k
    have hle : (key.name ++ '=' :: valueOf key.name (F k)).length ≤
        ((F k).filter (· ≠ '\n')).length := by
      have hpre : key.name ++ '=' :: valueOf key.name (F k) <+: F k := by
        rw [hval, ← hv, append_assoc, singleton_append, prefix_append_right_inj,
          prefix_cons_inj]
        exact takeWhile_prefix _
      have hself : (key.name ++ '=' :: valueOf key.name (F k)).filter (· ≠ '\n') =
          key.name ++ '=' :: valueOf key.name (F k) := by
        rw [filter_eq_self]
        intro c hc
        rcases mem_append.mp hc with hc | hc
        · simpa using fun heq : c = '\n' => notMem_name key (by decide) (heq ▸ hc)
        · rcases mem_cons.mp hc with rfl | hc
          · rfl
          · simpa using (hplain c hc).2
      rw [← hself]
      exact (hpre.filter _).length_le
    simp only [strWrite, lineContentMaxLen, length_append, length_cons, length_nil]
      at hshort hle ⊢
    omega
  · refine hrows.null k ?_
    rw [← hv, append_assoc]
    rw [hval] at hc
    exact mem_append_right _
      (mem_cons_of_mem _ (heq ▸ (List.takeWhile_prefix _).subset hc))

theorem writable_decInt {z : Int} (hz : IsInt32 z) : Writable key (decInt z) := by
  obtain ⟨hle, hlt⟩ := hz
  have hdec : (dec z.natAbs).length ≤ 10 :=
    (Nat.length_toDigits_le_iff (by decide) (by decide)).mpr (by omega)
  have hname : key.name.length ≤ 8 := by
    cases key <;> decide
  have hlen : (decInt z).length ≤ 11 := by
    rw [decInt]
    split
    · rw [length_cons]
      omega
    · omega
  have hmem : ∀ c ∈ decInt z, c = '-' ∨ c.isDigit = true := by
    intro c hc
    rw [decInt] at hc
    split at hc
    · rcases mem_cons.mp hc with rfl | hc
      · exact .inl rfl
      · exact .inr (isDigit_of_mem_dec hc)
    · exact .inr (isDigit_of_mem_dec hc)
  refine ⟨?_, fun c hc => ?_⟩
  · simp only [strWrite, lineContentMaxLen, length_append, length_cons, length_nil]
    omega
  · have hne : ∀ d : Char, d ≠ '-' → d.isDigit = false → c ≠ d := by
      rintro d hminus hdigit rfl
      rcases hmem c hc with heq | heq
      · exact hminus heq
      · rw [heq] at hdigit
        cases hdigit
    exact ⟨hne _ (by decide) (by decide), hne _ (by decide) (by decide),
      hne _ (by decide) (by decide)⟩

theorem fits_readProfile (h : Stored file) (hi : i < maxQmapNum) : (readProfile file i).Fits := by
  refine ⟨fun key => ?_, isInt32_atoi _, isInt32_atoi _⟩
  obtain ⟨h', k, hloc⟩ := h.once i hi key
  have hvalue : Writable key (readStringValue i key file) := by
    rw [readStringValue_of_located h.rows hloc]
    exact writable_valueOf h.rows hloc.line
  cases key with
  | auth | ipfamily => exact writable_decInt (isInt32_atoi _)
  | apn | user | password | pin => exact hvalue

theorem load_fileContents (h : Stored s.file) {q : QmapNum} (hmeets : Meets s (.load q)) :
    (loadConfigFromIni s q).1.fileContents = fileAt s.file := by
  funext k
  have hlines := congrFun (lineAt_lineContents h.rows) k
  have hle := hmeets k
  simp only [loadConfigFromIni]
  split
  case h_1 line heq =>
    rw [lineAt, getD_eq_getElem?_getD, heq, Option.getD_some] at hlines
    rw [hlines, drop_eq_nil_iff.mpr hle, append_nil]
  case h_2 heq =>
    rw [lineAt, getD_eq_getElem?_getD, heq, Option.getD_none] at hlines
    rw [← hlines, length_nil, Nat.le_zero, length_eq_zero_iff] at hle
    rw [hle, hlines]

theorem shown_within :
    ∀ a ∈ (List.range maxQmapNum).map (fun i : Nat => Access.profile i), a.Within := by
  rw [List.forall_mem_map]
  intro i hi
  have hlt := mem_range.mp hi
  simp only [Access.Within]
  omega

theorem load_within (h : Stored s.file) {q : QmapNum} :
    ∀ a ∈ (loadConfigFromIni s q).2, a.Within := by
  have hcount := h.count
  have hlen : (lineContents s.file).length ≤ (keepLines s.file).length + 1 := by
    rcases lineContents_of_rows h.rows with heq | heq <;> simp [heq]
  rw [loadConfigFromIni, forall_mem_append, List.forall_mem_map (f := fun k => Access.line ..)]
  refine ⟨shown_within, fun k hk => ?_⟩
  have hlt := mem_range.mp hk
  have hlines := congrFun (lineAt_lineContents h.rows) k
  refine ⟨by omega, ?_⟩
  rw [← lineAt, hlines]
  exact (h.rows.length_lt k).le

theorem load_cached (h : Stored s.file) {q : QmapNum} (hmeets : Meets s (.load q)) :
    Cached (loadConfigFromIni s q).1 := by
  have hcontents := load_fileContents h hmeets
  have hrows : Rows (loadConfigFromIni s q).1.fileContents (keepLines s.file).length := by
    rw [hcontents]
    exact h.rows
  have hq : q.val ≤ maxQmapNum := q.2.2
  have hlt : ∀ i : Nat, (i : Int) < (loadConfigFromIni s q).1.qmapNum → i < maxQmapNum := by
    intro i hi
    simp only [loadConfigFromIni] at hi
    omega
  have hprofile : ∀ i : Nat, (i : Int) < (loadConfigFromIni s q).1.qmapNum →
      (loadConfigFromIni s q).1.profileList i = readProfile s.file i := by
    intro i hi
    have hi' := hlt i hi
    simp only [loadConfigFromIni]
    rw [if_pos (by omega), Int.toNat_natCast]
  refine ⟨?_, ?_, hrows, fun k => ?_, fun k => .inl ?_, fun i hi key h' k hloc => ?_,
    fun i hi => ?_⟩
  · simp only [loadConfigFromIni]
    omega
  · simp only [loadConfigFromIni]
    rcases lineContents_of_rows h.rows with heq | heq <;> simp [heq]
  · rw [hcontents]
    exact .refl _
  · rw [hcontents]
    rfl
  · rw [hprofile i hi, hcontents, ← readStringValue_of_located h.rows hloc]
    exact readProfile_eq_iff.mp rfl key
  · rw [hprofile i hi]
    exact fits_readProfile h (hlt i hi)

theorem save_file (h : Cached s) :
    fileAt (saveConfigToIni s).1.file = s.fileContents ∧
      (keepLines (saveConfigToIni s).1.file).length = (keepLines s.file).length := by
  have hm : (keepLines s.file).length ≤ s.fileIndex + 1 := h.fileIndex.trans (Nat.le_succ _)
  refine ⟨fileAt_rows h.rows hm, ?_⟩
  simp only [saveConfigToIni]
  rw [keepLines_rows h.rows hm, length_map, length_range]

theorem save_located (h : Cached s) {i h' k : Nat} :
    Located (fileAt (saveConfigToIni s).1.file) (sectOf i) key.name h' k ↔
      Located (fileAt s.file) (sectOf i) key.name h' k := by
  rw [(save_file h).1]
  exact ⟨Located.congr (head_sectOf i) fun j => (h.alike j).symm,
    Located.congr (head_sectOf i) h.alike⟩

theorem save_stored (hs : Stored s.file) (h : Cached s) :
    Stored (saveConfigToIni s).1.file := by
  obtain ⟨hfile, hcount⟩ := save_file h
  refine ⟨hcount ▸ hs.count, ?_, fun i hi key => ?_⟩
  · rw [hfile, hcount]
    exact h.rows
  · obtain ⟨h', k, hloc⟩ := hs.once i hi key
    exact ⟨h', k, (save_located h).mpr hloc⟩

theorem save_saved (hs : Stored s.file) (h : Cached s) : Saved s (saveConfigToIni s).1.file := by
  obtain ⟨hfile, hcount⟩ := save_file h
  have hq := h.qmapNum
  refine ⟨fun i hi => readProfile_eq_iff.mpr fun key => ?_, hcount, fun k => ?_⟩
  · obtain ⟨h', k, hloc⟩ := hs.once i (by omega) key
    rw [readStringValue_of_located (save_stored hs h).rows ((save_located h).mpr hloc), hfile]
    exact h.values i hi key h' k hloc
  · rw [hfile]
    rcases h.others k with heq | ⟨i, key, h', hi, hloc⟩
    · exact .inl heq
    · exact .inr ⟨i, key, hi, hloc.keyLine⟩

theorem save_cached (h : Cached s) : Cached (saveConfigToIni s).1 := by
  obtain ⟨hfile, hcount⟩ := save_file h
  refine ⟨h.qmapNum, hcount ▸ h.fileIndex, ?_, fun k => ?_, fun k => .inl ?_,
    fun i hi key h' k hloc => h.values i hi key h' k ((save_located h).mp hloc), h.fits⟩
  · rw [hcount]
    exact h.rows
  · rw [hfile]
    exact .refl _
  · rw [hfile]
    rfl

theorem save_within (h : Cached s) (hmeets : Meets s .save) :
    ∀ a ∈ (saveConfigToIni s).2, a.Within := by
  rw [saveConfigToIni, List.forall_mem_map]
  intro k hk
  have hlt := mem_range.mp hk
  have hindex := hmeets.2
  exact ⟨by omega, (h.rows.length_lt k).le⟩

theorem mem_written {q : Int} {i : Nat} : (i, key) ∈ written q ↔ (i : Int) < q := by
  simp only [written, mem_flatMap, mem_range, List.mem_map, Prod.mk.injEq]
  constructor
  · rintro ⟨j, hj, key', _, rfl, rfl⟩
    omega
  · intro hi
    exact ⟨i, by omega, key, by cases key <;> decide, rfl, rfl⟩

theorem fits_profile {p : Prompts} (h : ∀ key : Key,
    (strWrite key.name (p.profile.text key)).length < lineContentMaxLen ∧
      '\r' ∉ p.profile.text key) : p.profile.Fits := by
  have hplain : ∀ {n : Nat} (a : Answer n), ∀ c ∈ a.chars.dropLast, c ≠ '\n' ∧ c ≠ '\x00' :=
    fun a c hc => ⟨fun heq => a.newline (heq ▸ hc),
      fun heq => a.null (heq ▸ mem_of_mem_dropLast hc)⟩
  have hauth := isInt32_atoi p.auth.chars
  have hipfamily := isInt32_atoi p.ipfamily.chars
  refine ⟨fun key => ?_, hauth, hipfamily⟩
  have htext : ∀ {n : Nat} (a : Answer n), p.profile.text key = a.chars.dropLast →
      Writable key (p.profile.text key) := by
    intro n a heq
    refine ⟨(h key).1, fun c hc => ⟨fun hr => (h key).2 (hr ▸ hc), ?_⟩⟩
    rw [heq] at hc
    exact hplain a c hc
  cases key with
  | apn => exact htext p.apn rfl
  | user => exact htext p.user rfl
  | password => exact htext p.password rfl
  | pin => exact htext p.pin rfl
  | auth => exact writable_decInt hauth
  | ipfamily => exact writable_decInt hipfamily

theorem Prompts.connectProfile_le {p : Prompts} (h : p.accepted) :
    0 ≤ p.connectProfile ∧ p.connectProfile ≤ 8 := by
  simp only [Prompts.accepted, Bool.and_eq_true, decide_eq_true_eq] at h
  exact h.1.1.1.1.2

theorem connectProfile_within {p : Prompts} (hmeets : Meets s (.modify p))
    (haccepted : p.accepted) : (Access.profile (p.connectProfile - 1)).Within := by
  have hzero := (hmeets haccepted).1
  have hle := Prompts.connectProfile_le haccepted
  simp only [Access.Within, maxQmapNum]
  omega

theorem modify_fits (h : Cached s) {p : Prompts} (hmeets : Meets s (.modify p))
    (haccepted : p.accepted) {i : Nat} (hi : (i : Int) < s.qmapNum) :
    (Function.update s.profileList (p.connectProfile - 1) p.profile i).Fits := by
  by_cases heq : (i : Int) = p.connectProfile - 1
  · rw [heq, Function.update_self]
    exact fits_profile ((hmeets haccepted).2 (by omega))
  · rw [Function.update_of_ne heq]
    exact h.fits i hi

theorem modify_wrote (hs : Stored s.file) (h : Cached s) {p : Prompts}
    (hmeets : Meets s (.modify p)) (haccepted : p.accepted) :
    Wrote (fileAt s.file) (keepLines s.file).length
        (Function.update s.profileList (p.connectProfile - 1) p.profile) (written s.qmapNum)
        s.fileContents (modifyProfile s p).1.fileContents ∧
      ∀ a ∈ (modifyProfile s p).2, a.Within := by
  have hq := h.qmapNum
  have hpairs : ∀ i key, (i, key) ∈ written s.qmapNum → i < maxQmapNum ∧
      Writable key (Profile.text (Function.update s.profileList (p.connectProfile - 1) p.profile i)
        key) ∧ ∃ h k, Located (fileAt s.file) (sectOf i) key.name h k := by
    intro i key hmem
    have hi := mem_written.mp hmem
    exact ⟨by omega, (modify_fits h hmeets haccepted hi).writable key, hs.once i (by omega) key⟩
  obtain ⟨hwrote, hwithin⟩ :=
    writeKeys_wrote _ hpairs h.rows h.alike h.fileIndex hs.count
  rw [modifyProfile, if_pos haccepted]
  exact ⟨hwrote, forall_mem_append.mpr ⟨shown_within, forall_mem_cons.mpr
    ⟨connectProfile_within hmeets haccepted, hwithin⟩⟩⟩

theorem modify_cached (hs : Stored s.file) (h : Cached s) {p : Prompts}
    (hmeets : Meets s (.modify p)) (haccepted : p.accepted) : Cached (modifyProfile s p).1 := by
  obtain ⟨hwrote, -⟩ := modify_wrote hs h hmeets haccepted
  have hsame : (modifyProfile s p).1 = { s with
      profileList := Function.update s.profileList (p.connectProfile - 1) p.profile
      fileContents := (modifyProfile s p).1.fileContents } := by
    rw [modifyProfile, if_pos haccepted]
  rw [hsame]
  refine ⟨h.qmapNum, h.fileIndex, hwrote.rows, hwrote.alike, fun k => ?_,
    fun i hi key h' k hloc => ?_, fun i hi => modify_fits h hmeets haccepted hi⟩
  · rcases hwrote.others k with heq | ⟨i, key, h', hmem, hloc⟩
    · rcases h.others k with heq' | hkey
      · exact .inl (heq.trans heq')
      · exact .inr hkey
    · exact .inr ⟨i, key, h', mem_written.mp hmem, hloc⟩
  · have hfits := modify_fits h hmeets haccepted hi
    have hline := hwrote.lines i key h' k (mem_written.mpr hi) hloc
    simp only [hline]
    rw [valueOf_strWrite (hfits.writable key).plain]
    exact yields_text hfits.auth hfits.ipfamily key

theorem modify_file {p : Prompts} : (modifyProfile s p).1.file = s.file ∧
    (modifyProfile s p).1.fileIndex = s.fileIndex ∧
      (modifyProfile s p).1.qmapNum = s.qmapNum := by
  rw [modifyProfile]
  split
  · exact ⟨rfl, rfl, rfl⟩
  · exact ⟨rfl, rfl, rfl⟩

theorem modify_rejected {p : Prompts} (h : ¬ p.accepted) :
    modifyProfile s p = (s, (List.range maxQmapNum).map fun i : Nat => .profile i) := by
  rw [modifyProfile, if_neg h]

theorem modify_unloaded (hq : s.qmapNum = -1) {p : Prompts} (hmeets : Meets s (.modify p))
    (haccepted : p.accepted) : (modifyProfile s p).1.fileContents = s.fileContents ∧
      ∀ a ∈ (modifyProfile s p).2, a.Within := by
  rw [modifyProfile, if_pos haccepted, hq]
  exact ⟨rfl, forall_mem_append.mpr ⟨shown_within, forall_mem_cons.mpr
    ⟨connectProfile_within hmeets haccepted, forall_mem_nil _⟩⟩⟩

theorem inv_init (hs : Stored file) : Inv (init file profileList) :=
  ⟨hs, .inr ⟨rfl, fun _ => rfl, rfl⟩⟩

theorem inv_modify (hinv : Inv s) {p : Prompts} (hmeets : Meets s (.modify p)) :
    Inv (modifyProfile s p).1 := by
  by_cases haccepted : p.accepted
  · obtain ⟨hfile, hindex, hqmap⟩ := modify_file (s := s) (p := p)
    refine ⟨hfile ▸ hinv.stored, ?_⟩
    rcases hinv.cached with hcached | ⟨hzero, hcontents, hq⟩
    · exact .inl (modify_cached hinv.stored hcached hmeets haccepted)
    · obtain ⟨hsame, -⟩ := modify_unloaded hq hmeets haccepted
      exact .inr ⟨hindex.trans hzero, fun k => hsame ▸ hcontents k, hqmap.trans hq⟩
  · rw [modify_rejected haccepted]
    exact hinv

theorem inv_perform (hinv : Inv s) (hmeets : Meets s op) : Inv (perform s op).1 := by
  cases op with
  | load q => exact ⟨hinv.stored, .inl (load_cached hinv.stored hmeets)⟩
  | modify p => exact inv_modify hinv hmeets
  | save =>
    rcases hinv.cached with hcached | ⟨hzero, -, -⟩
    · exact ⟨save_stored hinv.stored hcached, .inl (save_cached hcached)⟩
    · exact absurd hzero hmeets.1

theorem modify_within (hinv : Inv s) {p : Prompts} (hmeets : Meets s (.modify p)) :
    ∀ a ∈ (modifyProfile s p).2, a.Within := by
  by_cases haccepted : p.accepted
  · rcases hinv.cached with hcached | ⟨-, -, hq⟩
    · exact (modify_wrote hinv.stored hcached hmeets haccepted).2
    · exact (modify_unloaded hq hmeets haccepted).2
  · rw [modify_rejected haccepted]
    exact shown_within

theorem good_of_inv (hinv : Inv s) (hmeets : Meets s op) : Good s op := by
  cases op with
  | load q =>
    refine ⟨load_within hinv.stored, fun q' heq k => ?_, fun heq => Op.noConfusion heq⟩
    exact congrFun (load_fileContents hinv.stored hmeets) k
  | modify p =>
    exact ⟨modify_within hinv hmeets, fun _ heq => Op.noConfusion heq,
      fun heq => Op.noConfusion heq⟩
  | save =>
    rcases hinv.cached with hcached | ⟨hzero, -, -⟩
    · exact ⟨save_within hcached hmeets, fun _ heq => Op.noConfusion heq,
        fun _ => save_saved hinv.stored hcached⟩
    · exact absurd hzero hmeets.1

theorem session_good (hini : IniFile file) (hsound : Sound file)
    (hreach : Reaches step Meets (init file profileList) s) (hmeets : Meets s op) : Good s op := by
  refine good_of_inv (hreach.invariant (inv_init (stored_of_sound hini hsound)) ?_) hmeets
  intro s op t hinv hmeets hstep
  rw [step, Option.some.injEq] at hstep
  exact hstep ▸ inv_perform hinv hmeets

def emptySection (i : Nat) : List Str := sectOf i :: keys.map fun key => key.name ++ ['=']

def emptyLines : List Str := (List.range maxQmapNum).flatMap emptySection

def emptyFile : Str := unlines emptyLines

theorem keepLines_emptyFile : keepLines emptyFile = emptyLines.map (· ++ ['\n']) := by
  have hlines : keepLines (unlines emptyLines ++ []) =
      emptyLines.map (· ++ ['\n']) ++ keepLines [] := keepLines_unlines_append (by decide)
  rwa [append_nil, keepLines, append_nil] at hlines

theorem located_of_section {lines : List Str} {e : Nat}
    (hfirst : ∀ j < h, ¬ sect <+: lineAt lines j) (hheader : sect <+: lineAt lines h) (hlt : h < k)
    (hbody : ∀ j < k, h < j → ¬ key.name <+: lineAt lines j ∧ (lineAt lines j).head? ≠ some '[')
    (hline : key.name ++ ['='] <+: lineAt lines k)
    (honce : ∀ j < e, k < j → ¬ key.name <+: lineAt lines j)
    (hend : (lineAt lines e).head? = some '[' ∨ lines.length ≤ e) (hke : k < e) :
    Located (lineAt lines) sect key.name h k := by
  have heq : ∀ {j}, h < j → h + 1 + (j - (h + 1)) = j := by
    intro j hj
    omega
  refine ⟨hfirst, hheader, hlt, fun j hj => hbody _ (by omega) (by omega), ?_, fun j hj hall => ?_⟩
  · rw [heq hlt]
    exact hline
  · by_cases hje : h + 1 + j < e
    · exact honce _ hje (by omega)
    · rcases hend with hhead | hlen
      · refine absurd ?_ (hall (e - (h + 1)) (by omega) (by omega))
        rwa [heq (by omega)]
      · rw [lineAt_of_le (by omega), prefix_nil]
        exact name_ne_nil key

theorem keys_injective : ∀ a < 6, ∀ b < 6, keys.getD a .apn = keys.getD b .apn → a = b := by
  decide

theorem emptyLines_located {lines : List Str} (heq : lines = emptyLines.map (· ++ ['\n']))
    {pos : Nat} (hi : i < maxQmapNum) (hpos : pos < 6) :
    Located (lineAt lines) (sectOf i) (keys.getD pos .apn).name (7 * i) (7 * i + 1 + pos) := by
  have hsect : ∀ i < maxQmapNum, sectOf i <+: lineAt lines (7 * i) ∧
      (∀ j < 7 * i, ¬ sectOf i <+: lineAt lines j) ∧
      ((lineAt lines (7 * (i + 1))).head? = some '[' ∨ lines.length ≤ 7 * (i + 1)) := by
    rw [heq]
    decide
  have hkeys : ∀ i < maxQmapNum, ∀ pos < 6,
      (keys.getD pos .apn).name ++ ['='] <+: lineAt lines (7 * i + 1 + pos) := by
    rw [heq]
    decide
  have hother : ∀ j, 7 * i < j → j < 7 * (i + 1) → j ≠ 7 * i + 1 + pos →
      ¬ (keys.getD pos .apn).name <+: lineAt lines j ∧ (lineAt lines j).head? ≠ some '[' := by
    intro j hlt hle hne
    obtain ⟨pos', rfl⟩ := Nat.exists_eq_add_of_lt hlt
    have hpos' : pos' < 6 := by omega
    have hline := hkeys i hi pos' hpos'
    rw [show 7 * i + 1 + pos' = 7 * i + pos' + 1 by omega] at hline
    refine ⟨fun hpre => ?_, head_line_ne hline⟩
    have hpos := keys_injective _ hpos _ hpos' ((name_isPrefix_iff hline).mp hpre)
    omega
  obtain ⟨hheader, hfirst, hend⟩ := hsect i hi
  exact located_of_section hfirst hheader (by omega)
    (fun j hj hlt => hother j hlt (by omega) (by omega)) (hkeys i hi pos hpos)
    (fun j hj hlt => (hother j (by omega) hj (by omega)).1) hend (by omega)

theorem sound_emptyFile : Sound emptyFile := by
  refine ⟨?_, ?_, fun i hi key => ?_⟩
  · rw [← flatten_keepLines (s := emptyFile), keepLines_emptyFile]
    decide
  · rw [lines_eq_map, keepLines_emptyFile]
    decide
  · rw [fileAt, keepLines_emptyFile]
    have hpos : ∃ pos < 6, keys.getD pos .apn = key := by
      cases key <;> decide
    obtain ⟨pos, hpos, rfl⟩ := hpos
    exact ⟨_, _, emptyLines_located rfl hi hpos⟩

theorem iniFile_emptyFile : IniFile emptyFile := by
  refine ⟨?_, fun i hi key => ?_⟩
  · rw [keepLines_emptyFile]
    decide
  · obtain ⟨h, k, hloc⟩ := sound_emptyFile.once i hi key
    exact ⟨k, hloc.keyLine⟩

def answer (c : Char) (n : Nat) (hn : 2 ≤ n) (hc : c ≠ '\n') (hnull : '\x00' ≠ c) : Answer n where
  chars := [c, '\n']
  ne_nil := cons_ne_nil _ _
  short := hn
  newline := by simpa using Ne.symm hc
  null := by simpa using hnull

def onePrompts (index : Answer 7) : Prompts where
  index := index
  apn := answer 'a' 255 (by decide) (by decide) (by decide)
  user := answer 'b' 255 (by decide) (by decide) (by decide)
  password := answer 'c' 255 (by decide) (by decide) (by decide)
  auth := answer '1' 7 (by decide) (by decide) (by decide)
  ipfamily := answer '3' 7 (by decide) (by decide) (by decide)
  pin := answer '4' 7 (by decide) (by decide) (by decide)
  beforeIndex := true
  beforeAuth := true
  beforeIpfamily := true

def blank : Profile := ⟨[], [], [], 0, 0, []⟩

def loaded : State := (perform (init emptyFile fun _ => blank) (.load ⟨1, by decide⟩)).1

theorem fileIndex_loaded : loaded.fileIndex ≠ 0 ∧ loaded.fileIndex < fileLines := by
  have hlen : (keepLines emptyFile).length = 56 := by
    rw [keepLines_emptyFile]
    decide
  have hindex : loaded.fileIndex = (lineContents emptyFile).length := rfl
  rw [hindex]
  rcases lineContents_of_rows (rows_of_sound sound_emptyFile) with heq | heq <;>
    simp [heq, hlen, fileLines]

theorem loaded_meets_modify :
    Meets loaded (.modify (onePrompts (answer '1' 7 (by decide) (by decide) (by decide)))) := by
  refine fun _ => ⟨by decide, fun _ key => ?_⟩
  cases key <;> decide

/-- The first profile is set and saved. -/
theorem session_good_save :
    Good (perform loaded
      (.modify (onePrompts (answer '1' 7 (by decide) (by decide) (by decide))))).1 .save := by
  have hload : Meets (init emptyFile fun _ => blank) (.load ⟨1, by decide⟩) :=
    fun _ => Nat.zero_le _
  refine session_good iniFile_emptyFile sound_emptyFile
    (.next (.next .start hload rfl) loaded_meets_modify rfl) ?_
  have hindex := (modify_file (s := loaded)
    (p := onePrompts (answer '1' 7 (by decide) (by decide) (by decide)))).2.1
  rw [Meets, perform, hindex]
  exact fileIndex_loaded

/-- Profile 0 is accepted. -/
theorem session_not_good : ¬ ∀ file profileList s op, IniFile file →
    Reachable step (init file profileList) s → Good s op := by
  intro h
  have hgood := h emptyFile (fun _ => blank) _
    (.modify (onePrompts (answer '0' 7 (by decide) (by decide) (by decide)))) iniFile_emptyFile
    .start
  have hmem : Access.profile (-1) ∈ (perform (init emptyFile fun _ => blank)
      (.modify (onePrompts (answer '0' 7 (by decide) (by decide) (by decide))))).2 := by
    have haccepted :
        (onePrompts (answer '0' 7 (by decide) (by decide) (by decide))).accepted = true := by
      decide
    have hprofile :
        (onePrompts (answer '0' 7 (by decide) (by decide) (by decide))).connectProfile = 0 := by
      decide
    rw [perform, modifyProfile, if_pos haccepted, hprofile]
    exact mem_append_right _ mem_cons_self
  have hwithin := (hgood.within _ hmem).1
  omega

end ModemSupport.Cm.MultiPdn
