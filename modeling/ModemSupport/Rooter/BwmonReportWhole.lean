import ModemSupport.Rooter.BwmonReport

/-! Reports of whole files: the files stay well-formed through the backups, and what
`create_data.lua` has read is the beginning of the file it has open. -/

namespace ModemSupport.Rooter.BwmonReport

open Lib.Directory Lib.Transition Bwmon List Option

variable {s t u init : State} {f g : List Line} {month m : Nat} {btype : Btype} {stage : Stage}
  {d : Option Nat} {report : Option Bwdata}

theorem size_append : size (f ++ g) = size f + size g := by
  rw [size, map_append, sum_append, size, size]

theorem size_eq_zero (h : size f = 0) : f = [] := by
  cases f with
  | nil => rfl
  | cons l f =>
    rw [size, map_cons, sum_cons] at h
    omega

theorem lineAt_size : lineAt (f ++ g) (size f) = g.head?.map fun l => (l, l.length + 1) := by
  induction f with
  | nil =>
    cases g with
    | nil => rfl
    | cons l g => rfl
  | cons l f ih =>
    have hsize : size (l :: f) = l.length + 1 + size f := by
      rw [size, map_cons, sum_cons, size]
    rw [cons_append, lineAt, hsize, if_neg (by omega), Nat.add_sub_cancel_left, ih]

theorem file_write {name : Name} : (s.write name f).file name = f := by
  rw [State.file, State.write, lookup_put_self, getD_some]

theorem lookup_bk_js : (put Name.before (js m) f s.dir).lookup (bk month) =
    s.dir.lookup (bk month) :=
  lookup_put_of_ne (by simp [bk, js])

theorem lookup_js_bk : (put Name.before (bk m) f s.dir).lookup (js month) =
    s.dir.lookup (js month) :=
  lookup_put_of_ne (by simp [bk, js])

theorem copy_goto : (s.goto btype stage).copy = s.copy := rfl

theorem copy_write : (s.write (bk s.monthlyUsageDB) f).copy = f := file_write

theorem copy_append : (s.append f).copy = s.copy ++ f := file_write

theorem copy_copyBack : s.copyBack.copy = s.copy := by
  rw [State.copy, State.copy, State.file, State.file, State.copyBack, State.write]
  exact congrArg (fun o => o.getD []) lookup_bk_js

theorem isMonth_nil : IsMonth [] := ⟨[], by simp, rfl⟩

theorem isMonth_append (hf : IsMonth f) (hg : IsMonth g) : IsMonth (f ++ g) := by
  obtain ⟨days, hdays, rfl⟩ := hf
  obtain ⟨days', hdays', rfl⟩ := hg
  refine ⟨days ++ days', ?_, flatMap_append.symm⟩
  intro d hd
  exact (mem_append.mp hd).elim (hdays d) (hdays' d)

theorem isMonth_day {cDay : List Char} (hc : '\n' ∉ cDay) (hg : IsDaily g) :
    IsMonth (startDay cDay :: (g ++ [endDay cDay])) := by
  obtain ⟨hosts, hhosts, rfl⟩ := hg
  refine ⟨[⟨cDay, hosts⟩], ?_, ?_⟩
  · intro d hd
    obtain rfl := mem_singleton.mp hd
    exact ⟨hc, hhosts⟩
  · rw [flatMap_singleton]
    rfl

theorem isDaily_backupDaily (hf : IsDaily f) : ∃ g, Bwmon.backupDaily f = some g ∧ IsDaily g := by
  obtain ⟨hosts, hhosts, rfl⟩ := hf
  exact ⟨_, backupDaily_lines hhosts, compact hosts, wellFormed_compact hhosts, rfl⟩

theorem isMonth_backupMon (hf : IsMonth f) : IsMonth (backupMon none none f).flatten := by
  obtain ⟨days, hdays, rfl⟩ := hf
  refine ⟨days.map Day.compact, ?_, ?_⟩
  · intro d hd
    obtain ⟨d, hmem, rfl⟩ := List.mem_map.mp hd
    exact (hdays d hmem).compact
  · rw [backupMon_lines hdays, flatMap_map, flatMap_def]

/-- What is known about the files in front of each step of a call. -/
def State.AtStage (s : State) : Stage → Prop
  | .truncate => ∃ f, s.dailyBk = some f ∧ IsDaily f
  | .blocks pending => (∃ f, s.dailyBk = some f ∧ IsDaily f) ∧ IsMonth (s.copy ++ pending.flatten)
  | .copyDaily | .startDay => (∃ f, s.dailyBk = some f ∧ IsDaily f) ∧ IsMonth s.copy
  | .dailyLines => IsMonth (s.copy ++ (s.dailyBk.getD [] ++ [endDay s.cDay]))
  | .endDay => IsMonth (s.copy ++ [endDay s.cDay])
  | _ => True

/-- The month files are well-formed at every time, and the copies when no backup is writing
them. -/
structure Files (s : State) : Prop where
  months : ∀ month f, s.dir.lookup (js month) = some f → IsMonth f
  copies : ∀ month f, s.dir.lookup (bk month) = some f → s.whole (.bk month) = true → IsMonth f
  daily : IsDaily s.daily
  cDay : '\n' ∉ s.cDay

theorem whole_of_ne (h : s.monthlyUsageDB ≠ month) : s.whole (.bk month) = true := by
  simp [State.whole, h]

theorem whole_of_writing (h : s.writer.writing = false) {file : Handle} : s.whole file = true := by
  cases file <;> simp [State.whole, h]

theorem writing_of_whole (h : s.whole (.bk s.monthlyUsageDB) = true) :
    s.writer.writing = false := by
  simpa [State.whole] using h

theorem Files.copy (h : Files s) (hw : s.writer.writing = false) : IsMonth s.copy := by
  rw [State.copy, State.file]
  cases hlookup : s.dir.lookup (bk s.monthlyUsageDB) with
  | none => exact isMonth_nil
  | some f => exact h.copies _ f hlookup (whole_of_writing hw)

theorem Files.move (h : Files s) (hdir : t.dir = s.dir) (hdaily : IsDaily t.daily)
    (hcDay : '\n' ∉ t.cDay) (hw : s.writer.writing = true → IsMonth s.copy) : Files t := by
  refine ⟨?_, ?_, hdaily, hcDay⟩
  · intro month f hf
    exact h.months month f (hdir ▸ hf)
  · intro month f hf hwhole
    rw [hdir] at hf
    by_cases hm : s.monthlyUsageDB = month
    · subst hm
      cases hwriting : s.writer.writing with
      | false => exact h.copies _ f hf (whole_of_writing hwriting)
      | true =>
        have hcopy := hw hwriting
        rwa [State.copy, State.file, hf] at hcopy
    · exact h.copies month f hf (whole_of_ne hm)

theorem Files.writeCopy (h : Files s) (hf : stage.writing = false → IsMonth f) :
    Files ((s.write (bk s.monthlyUsageDB) f).goto btype stage) := by
  refine ⟨?_, ?_, h.daily, h.cDay⟩
  · intro month g hg
    exact h.months month g (lookup_js_bk ▸ hg)
  · intro month g hg hwhole
    by_cases hm : s.monthlyUsageDB = month
    · subst hm
      have hg' : f = g := by
        rw [State.goto, State.write, lookup_put_self] at hg
        exact some.inj hg
      subst hg'
      exact hf (writing_of_whole hwhole)
    · have hg' : s.dir.lookup (bk month) = some g := by
        rw [State.goto, State.write, lookup_put_of_ne (by simpa [bk] using Ne.symm hm)] at hg
        exact hg
      exact h.copies month g hg' (whole_of_ne hm)

theorem Files.writeMonth (h : Files s) (hf : IsMonth f) : Files (s.write (js m) f) := by
  refine ⟨?_, ?_, h.daily, h.cDay⟩
  · intro month g hg
    by_cases hm : month = m
    · subst hm
      have hg' : f = g := by
        rw [State.write, lookup_put_self] at hg
        exact some.inj hg
      exact hg' ▸ hf
    · rw [State.write, lookup_put_of_ne (by simpa [js] using hm)] at hg
      exact h.months month g hg
  · intro month g hg
    exact h.copies month g (lookup_bk_js ▸ hg)

theorem Files.rm {names : List Name} (h : Files s) : Files (s.rm names) :=
  ⟨fun month f hf => h.months month f (lookup_remove hf),
    fun month f hf => h.copies month f (lookup_remove hf), h.daily, h.cDay⟩

theorem Files.touch (h : Files s) : Files (s.touch (js m)) := by
  rw [State.touch]
  split
  · exact h.writeMonth isMonth_nil
  · exact h

/-- What every step keeps of the files. -/
structure Sound (s : State) : Prop where
  files : Files s
  stage : ∀ btype stage, s.writer = .call btype stage → s.AtStage stage

theorem Sound.call (h : Files s) (hw : s.writer = .call btype stage) (hstage : s.AtStage stage) :
    Sound s := by
  refine ⟨h, ?_⟩
  intro btype' stage' heq
  rw [hw] at heq
  cases heq
  exact hstage

theorem Sound.goto (h : Files (s.goto btype stage)) (hstage : (s.goto btype stage).AtStage stage) :
    Sound (s.goto btype stage) :=
  .call h rfl hstage

theorem Sound.loop (h : Files s) (hw : s.writer = .loop) : Sound s := by
  refine ⟨h, ?_⟩
  intro btype stage heq
  rw [hw] at heq
  cases heq

theorem sound_pending (h : Files s) : IsMonth s.pending.flatten := by
  rw [State.pending]
  split
  next => exact isMonth_nil
  next f hf => exact isMonth_backupMon (h.months _ f hf)

theorem writer_sound (h : Sound s) (hw : s.writer = .call btype stage)
    (ht : s.writerStep btype stage = some t) : Sound t := by
  have hfiles := h.files
  have hstage := h.stage btype stage hw
  have hmove {p : Prop} : stage.writing = false → s.writer.writing = true → p := by
    intro hnot hwriting
    rw [hw, Writer.writing, hnot] at hwriting
    cases hwriting
  cases stage with
  | test =>
    obtain rfl := some.inj ht
    split
    · exact h
    · exact .goto (hfiles.move rfl hfiles.daily hfiles.cDay (hmove rfl)) trivial
  | set =>
    obtain rfl := some.inj ht
    exact .call (hfiles.move rfl hfiles.daily hfiles.cDay (hmove rfl)) rfl trivial
  | backupDaily =>
    obtain rfl := some.inj ht
    exact .call (hfiles.move rfl hfiles.daily hfiles.cDay (hmove rfl)) rfl
      (isDaily_backupDaily hfiles.daily)
  | truncate =>
    obtain rfl := some.inj ht
    refine .goto (hfiles.writeCopy fun h => by cases h) ⟨hstage, ?_⟩
    rw [copy_goto, copy_write]
    exact sound_pending hfiles
  | blocks pending =>
    cases pending with
    | nil =>
      obtain rfl := some.inj ht
      have hcopy : IsMonth s.copy := by simpa using hstage.2
      refine .goto ((hfiles.writeMonth hcopy).move rfl hfiles.daily hfiles.cDay ?_)
        ⟨hstage.1, ?_⟩
      · intro _
        show IsMonth s.copyBack.copy
        rwa [copy_copyBack]
      · rwa [copy_goto, copy_copyBack]
    | cons b bs =>
      obtain rfl := some.inj ht
      refine .goto (hfiles.writeCopy fun h => by cases h) ⟨hstage.1, ?_⟩
      rw [copy_goto, copy_append, append_assoc]
      exact hstage.2
  | copyDaily =>
    obtain rfl := some.inj ht
    obtain ⟨⟨g, hg, hdaily⟩, hcopy⟩ := hstage
    refine .call (hfiles.move rfl ?_ hfiles.cDay fun _ => hcopy) rfl ⟨⟨g, hg, hdaily⟩, hcopy⟩
    show IsDaily (s.dailyBk.getD s.daily)
    rwa [hg]
  | startDay =>
    obtain rfl := some.inj ht
    obtain ⟨⟨g, hg, hdaily⟩, hcopy⟩ := hstage
    refine .goto (hfiles.writeCopy fun h => by cases h) ?_
    show IsMonth (State.copy _ ++ (s.dailyBk.getD [] ++ [endDay s.cDay]))
    rw [copy_goto, copy_append, hg, append_assoc]
    exact isMonth_append hcopy (isMonth_day hfiles.cDay hdaily)
  | dailyLines =>
    obtain rfl := some.inj ht
    refine .goto (hfiles.writeCopy fun h => by cases h) ?_
    show IsMonth (State.copy _ ++ [endDay s.cDay])
    rw [copy_goto, copy_append, append_assoc]
    exact hstage
  | endDay =>
    obtain rfl := some.inj ht
    refine .goto (hfiles.writeCopy fun _ => hstage) ?_
    split <;> trivial
  | copyBack =>
    obtain rfl := some.inj ht
    have hcopy := hfiles.copy (s := s) (by rw [hw]; rfl)
    refine .goto ((hfiles.writeMonth hcopy).move rfl hfiles.daily hfiles.cDay ?_) trivial
    intro _
    show IsMonth s.copyBack.copy
    rwa [copy_copyBack]
  | remove =>
    simp only [State.writerStep] at ht
    split at ht
    · obtain rfl := some.inj ht
      exact .loop (hfiles.move rfl hfiles.daily hfiles.cDay (hmove rfl)) rfl
    · obtain rfl := some.inj ht
      exact .call (hfiles.move rfl hfiles.daily hfiles.cDay (hmove rfl)) rfl trivial
  | after =>
    simp only [State.writerStep, ite_none_right_eq_some, some.injEq] at ht
    obtain ⟨-, rfl⟩ := ht
    exact .goto (hfiles.rm.move rfl hfiles.daily hfiles.cDay (hmove rfl)) trivial
  | unlock =>
    obtain rfl := some.inj ht
    exact .loop (hfiles.move rfl hfiles.daily hfiles.cDay (hmove rfl)) rfl

theorem reader_frame (ht : s.readerStep = some t) :
    ∃ lockbw reader bwdata, t =
      { s with lockbw := lockbw, reader := reader, bwdata := bwdata } := by
  unfold State.readerStep at ht
  split at ht
  all_goals try split at ht
  all_goals try split at ht
  all_goals first
    | exact ⟨_, _, _, (some.inj ht).symm⟩
    | cases ht

theorem isDaily_append {hosts : List Host} (hf : IsDaily f) (h : ∀ h ∈ hosts, h.WellFormed) :
    IsDaily (f ++ hosts.map Host.line) := by
  obtain ⟨hosts', hhosts', rfl⟩ := hf
  refine ⟨hosts' ++ hosts, ?_, map_append.symm⟩
  intro g hg
  exact (mem_append.mp hg).elim (hhosts' g) (h g)

theorem isDaily_nil : IsDaily [] := ⟨[], by simp, rfl⟩

theorem newDay_files (h : Files s) (hw : s.writer.writing = false) {pDay : List Char}
    (hpDay : '\n' ∉ pDay) (rollover : Option Nat) : Files (s.newDay pDay rollover) := by
  have hnot {p : Prop} {t : State} (ht : t.writer = s.writer) : t.writer.writing = true → p := by
    rw [ht, hw]
    exact fun h => absurd h (by decide)
  cases rollover with
  | none => exact h.move rfl isDaily_nil hpDay (hnot rfl)
  | some month =>
    refine (h.rm.touch (m := month)).move rfl isDaily_nil hpDay (hnot ?_)
    rw [State.touch]
    split <;> rfl

theorem step_sound (h : Sound s) {l : Label} (ht : step s l = some t) : Sound t := by
  cases l with
  | update hosts =>
    simp only [step, ite_none_right_eq_some, some.injEq] at ht
    obtain ⟨⟨hw, hhosts⟩, rfl⟩ := ht
    exact .loop (h.files.move rfl (isDaily_append h.files.daily hhosts) h.files.cDay (by simp [hw,
      Writer.writing])) hw
  | call btype =>
    simp only [step, ite_none_right_eq_some, some.injEq] at ht
    obtain ⟨hw, rfl⟩ := ht
    refine .goto (h.files.move rfl h.files.daily h.files.cDay (by simp [hw, Writer.writing])) ?_
    rw [firstStage]
    split <;> trivial
  | sameDay =>
    simp only [step, ite_none_right_eq_some, some.injEq] at ht
    obtain ⟨hw, rfl⟩ := ht
    exact .goto (h.files.move rfl h.files.daily h.files.cDay (by simp [hw, Writer.writing,
      Stage.writing])) trivial
  | newDay pDay rollover =>
    simp only [step, ite_none_right_eq_some, some.injEq] at ht
    obtain ⟨⟨hw, hpDay⟩, rfl⟩ := ht
    refine ⟨newDay_files h.files (by rw [hw]; rfl) hpDay rollover, ?_⟩
    intro btype stage heq
    cases rollover <;> cases heq <;> trivial
  | writer =>
    simp only [step] at ht
    split at ht
    next => cases ht
    next hw => exact writer_sound h hw ht
  | reader =>
    obtain ⟨lockbw, reader, bwdata, rfl⟩ := reader_frame ht
    exact ⟨⟨h.files.months, h.files.copies, h.files.daily, h.files.cDay⟩, h.stage⟩

theorem Init.sound (h : Init s) : Sound s :=
  .loop ⟨h.months, fun month f hf _ => h.copies month f hf, h.daily, h.cDay⟩ h.writer

/-- The lines that the backup under way is still going to append. -/
def State.toCome (s : State) : List Line :=
  match s.writer with
  | .call _ (.blocks pending) =>
    pending.flatten ++ startDay s.cDay :: (s.dailyBk.getD [] ++ [endDay s.cDay])
  | .call _ .copyDaily | .call _ .startDay =>
    startDay s.cDay :: (s.dailyBk.getD [] ++ [endDay s.cDay])
  | .call _ .dailyLines => s.dailyBk.getD [] ++ [endDay s.cDay]
  | .call _ .endDay => [endDay s.cDay]
  | _ => []

/-- The bytes of a file when the backup under way is done with it. -/
def State.bytes (s : State) : Handle → Nat
  | .bk month =>
    size (s.file (bk month)) + if s.monthlyUsageDB = month then size s.toCome else 0
  | .gone f => size f

/-- What a step of `wrtbwmon.sh` does to the file that `create_data.lua` has open. -/
inductive Frame (s t : State) : Prop
  | kept : t.reader = s.reader →
      (∀ month offset r, s.reader = .reading (.bk month) offset r →
        ((s.dir.lookup (bk month)).isSome = true → (t.dir.lookup (bk month)).isSome = true) ∧
        (offset ≠ 0 → s.file (bk month) <+: t.file (bk month) ∧
          t.bytes (.bk month) = s.bytes (.bk month))) →
      Frame s t
  | gone {month offset : Nat} {r : Reading} : s.reader = .reading (.bk month) offset r →
      t.reader = .reading (.gone (s.file (bk month))) offset r → s.writer.writing = false →
      Frame s t

theorem toCome_of_writing (h : s.writer.writing = false) : s.toCome = [] := by
  rw [State.toCome]
  split
  all_goals first
    | rfl
    | simp_all [Writer.writing, Stage.writing]

theorem kept_of_lookup {month offset : Nat}
    (hdir : t.dir.lookup (bk month) = s.dir.lookup (bk month))
    (hcome : (if t.monthlyUsageDB = month then size t.toCome else 0) =
      if s.monthlyUsageDB = month then size s.toCome else 0) :
    ((s.dir.lookup (bk month)).isSome = true → (t.dir.lookup (bk month)).isSome = true) ∧
      (offset ≠ 0 → s.file (bk month) <+: t.file (bk month) ∧
        t.bytes (.bk month) = s.bytes (.bk month)) := by
  have hfile : t.file (bk month) = s.file (bk month) := by rw [State.file, hdir, State.file]
  refine ⟨fun h => by rwa [hdir], fun _ => ⟨by rw [hfile], ?_⟩⟩
  rw [State.bytes, State.bytes, hfile, hcome]

theorem Frame.of_lookup (hreader : t.reader = s.reader)
    (hdir : ∀ month, t.dir.lookup (bk month) = s.dir.lookup (bk month))
    (hcome : t.monthlyUsageDB = s.monthlyUsageDB ∧ t.toCome = s.toCome ∨
      t.toCome = [] ∧ s.toCome = []) : Frame s t := by
  refine .kept hreader ?_
  intro month offset r _
  refine kept_of_lookup (hdir month) ?_
  rcases hcome with ⟨hdb, hcome⟩ | ⟨ht, hs⟩
  · rw [hdb, hcome]
  · rw [ht, hs]
    simp [size]

theorem Frame.append (hcome : s.toCome = f ++ ((s.append f).goto btype stage).toCome) :
    Frame s ((s.append f).goto btype stage) := by
  refine .kept rfl ?_
  intro month offset r _
  by_cases hm : s.monthlyUsageDB = month
  · subst hm
    have hfile : ((s.append f).goto btype stage).file (bk s.monthlyUsageDB) = s.copy ++ f :=
      copy_append
    refine ⟨fun _ => ?_, fun _ => ⟨?_, ?_⟩⟩
    · rw [State.goto, State.append, State.write, lookup_put_self]
      rfl
    · rw [hfile]
      exact prefix_append s.copy f
    · show size (State.file _ _) + (if s.monthlyUsageDB = s.monthlyUsageDB then _ else 0) =
        size s.copy + (if s.monthlyUsageDB = s.monthlyUsageDB then _ else 0)
      rw [hfile, hcome, if_pos rfl, if_pos rfl, size_append, size_append, Nat.add_assoc]
  · exact kept_of_lookup (lookup_put_of_ne (by simpa [bk] using Ne.symm hm))
      ((if_neg hm).trans (if_neg hm).symm)

theorem Frame.truncate (hok : ∀ month offset r, s.reader = .reading (.bk month) offset r →
    s.monthlyUsageDB = month → offset = 0) :
    Frame s ((s.write (bk s.monthlyUsageDB) []).goto btype stage) := by
  refine .kept rfl ?_
  intro month offset r hreader
  by_cases hm : s.monthlyUsageDB = month
  · refine ⟨fun _ => ?_, fun hne => absurd (hok month offset r hreader hm) hne⟩
    subst hm
    rw [State.goto, State.write, lookup_put_self]
    rfl
  · exact kept_of_lookup (lookup_put_of_ne (by simpa [bk] using Ne.symm hm))
      ((if_neg hm).trans (if_neg hm).symm)

theorem Frame.rm {names : List Name} (hw : s.writer.writing = false)
    (hstage : stage.writing = false) : Frame s ((s.rm names).goto btype stage) := by
  have hcome : s.toCome = [] := toCome_of_writing hw
  have hcome' : ((s.rm names).goto btype stage).toCome = [] := toCome_of_writing hstage
  by_cases h : ∃ month offset r, s.reader = .reading (.bk month) offset r ∧ bk month ∈ names
  · obtain ⟨month, offset, r, hreader, hmem⟩ := h
    refine .gone hreader ?_ hw
    simp only [State.goto, State.rm, State.unlink, hreader, if_pos hmem]
  · have hunlink : s.unlink names = s.reader := by
      rw [State.unlink]
      split
      next month offset r hreader =>
        rw [if_neg fun hmem => h ⟨month, offset, r, hreader, hmem⟩, hreader]
      next => rfl
    refine .kept hunlink ?_
    intro month offset r hreader
    refine kept_of_lookup
      (lookup_remove_of_notMem fun hmem => h ⟨month, offset, r, hreader, hmem⟩) ?_
    rw [hcome, hcome']
    simp [size]

theorem lookup_touch : (s.touch (js m)).dir.lookup (bk month) = s.dir.lookup (bk month) := by
  rw [State.touch]
  split
  · exact lookup_bk_js
  · rfl

theorem Frame.newDay (hw : s.writer.writing = false) (pDay : List Char) (rollover : Option Nat) :
    Frame s (s.newDay pDay rollover) := by
  have hcome : s.toCome = [] := toCome_of_writing hw
  cases rollover with
  | none => exact .of_lookup rfl (fun _ => rfl) (.inr ⟨rfl, hcome⟩)
  | some m =>
    refine .of_lookup ?_ (fun month => ?_) (.inr ⟨rfl, hcome⟩)
    · have hunlink : s.unlink [js s.monthlyUsageDB] = s.reader := by
        rw [State.unlink]
        split
        next month offset r hreader => rw [if_neg (by simp [bk, js]), hreader]
        next => rfl
      show (State.touch _ _).reader = s.reader
      rw [State.touch]
      split <;> exact hunlink
    · show (State.touch _ _).dir.lookup _ = _
      rw [lookup_touch]
      exact lookup_remove_of_notMem (by simp [bk, js])

theorem writer_frame (hw : s.writer = .call btype stage) (hok : s.MayWrite s.reader)
    (ht : s.writerStep btype stage = some t) : Frame s t := by
  cases stage with
  | test =>
    obtain rfl := some.inj ht
    split
    · exact .of_lookup rfl (fun _ => rfl) (.inl ⟨rfl, rfl⟩)
    · exact .of_lookup rfl (fun _ => rfl) (.inr ⟨rfl, toCome_of_writing (by rw [hw]; rfl)⟩)
  | set | backupDaily | unlock =>
    obtain rfl := some.inj ht
    exact .of_lookup rfl (fun _ => rfl) (.inr ⟨rfl, toCome_of_writing (by rw [hw]; rfl)⟩)
  | truncate =>
    obtain rfl := some.inj ht
    apply Frame.truncate
    intro month offset r hreader
    rw [hreader] at hok
    exact hok (by rw [hw]; rfl)
  | blocks pending =>
    cases pending with
    | nil =>
      obtain rfl := some.inj ht
      refine .of_lookup rfl (fun _ => lookup_bk_js) (.inl ⟨rfl, ?_⟩)
      rw [State.toCome, State.toCome, hw]
      rfl
    | cons b bs =>
      obtain rfl := some.inj ht
      apply Frame.append
      rw [State.toCome, State.toCome, hw]
      show (b ++ bs.flatten) ++ _ = b ++ (bs.flatten ++ _)
      rw [append_assoc]
      rfl
  | copyDaily =>
    obtain rfl := some.inj ht
    refine .of_lookup rfl (fun _ => rfl) (.inl ⟨rfl, ?_⟩)
    rw [State.toCome, State.toCome, hw]
    rfl
  | startDay | dailyLines =>
    obtain rfl := some.inj ht
    apply Frame.append
    rw [State.toCome, State.toCome, hw]
    rfl
  | endDay =>
    obtain rfl := some.inj ht
    apply Frame.append
    rw [State.toCome, hw, toCome_of_writing]
    · rfl
    · show Stage.writing _ = false
      split <;> rfl
  | copyBack =>
    obtain rfl := some.inj ht
    exact .of_lookup rfl (fun _ => lookup_bk_js)
      (.inr ⟨rfl, toCome_of_writing (by rw [hw]; rfl)⟩)
  | remove =>
    have hnot : s.toCome = [] := toCome_of_writing (by rw [hw]; rfl)
    simp only [State.writerStep] at ht
    split at ht
    all_goals
      obtain rfl := some.inj ht
      exact .of_lookup rfl (fun _ => rfl) (.inr ⟨rfl, hnot⟩)
  | after =>
    simp only [State.writerStep, ite_none_right_eq_some, some.injEq] at ht
    obtain ⟨-, rfl⟩ := ht
    exact .rm (by rw [hw]; rfl) rfl

theorem step_frame {l : Label} (hl : l ≠ .reader) (hok : Ok s l) (ht : step s l = some t) :
    Frame s t := by
  cases l with
  | update hosts =>
    simp only [step, ite_none_right_eq_some, some.injEq] at ht
    obtain ⟨-, rfl⟩ := ht
    exact .of_lookup rfl (fun _ => rfl) (.inl ⟨rfl, rfl⟩)
  | call btype =>
    simp only [step, ite_none_right_eq_some, some.injEq] at ht
    obtain ⟨hw, rfl⟩ := ht
    refine .of_lookup rfl (fun _ => rfl) (.inr ⟨toCome_of_writing ?_, toCome_of_writing ?_⟩)
    · show (firstStage btype).writing = false
      rw [firstStage]
      split <;> rfl
    · rw [hw]
      rfl
  | sameDay =>
    simp only [step, ite_none_right_eq_some, some.injEq] at ht
    obtain ⟨hw, rfl⟩ := ht
    exact .of_lookup rfl (fun _ => rfl) (.inr ⟨rfl, toCome_of_writing (by rw [hw]; rfl)⟩)
  | newDay pDay rollover =>
    simp only [step, ite_none_right_eq_some, some.injEq] at ht
    obtain ⟨⟨hw, -⟩, rfl⟩ := ht
    exact .newDay (by rw [hw]; rfl) pDay rollover
  | writer =>
    simp only [step] at ht
    split at ht
    next => cases ht
    next hw => exact writer_frame hw hok ht
  | reader => exact absurd rfl hl

theorem writer_bwdata (ht : s.writerStep btype stage = some t) : t.bwdata = s.bwdata := by
  cases stage with
  | test =>
    obtain rfl := some.inj ht
    split <;> rfl
  | blocks pending =>
    cases pending with
    | nil =>
      obtain rfl := some.inj ht
      rfl
    | cons b bs =>
      obtain rfl := some.inj ht
      rfl
  | remove =>
    simp only [State.writerStep] at ht
    split at ht
    all_goals
      obtain rfl := some.inj ht
      rfl
  | after =>
    simp only [State.writerStep, ite_none_right_eq_some, some.injEq] at ht
    obtain ⟨-, rfl⟩ := ht
    rfl
  | _ =>
    obtain rfl := some.inj ht
    rfl

theorem step_bwdata {l : Label} (hl : l ≠ .reader) (ht : step s l = some t) :
    t.bwdata = s.bwdata := by
  cases l with
  | update | call | sameDay =>
    simp only [step, ite_none_right_eq_some, some.injEq] at ht
    obtain ⟨-, rfl⟩ := ht
    rfl
  | newDay pDay rollover =>
    simp only [step, ite_none_right_eq_some, some.injEq] at ht
    obtain ⟨-, rfl⟩ := ht
    cases rollover with
    | none => rfl
    | some month =>
      show (State.touch _ _).bwdata = s.bwdata
      rw [State.touch]
      split <;> rfl
  | writer =>
    simp only [step] at ht
    split at ht
    next => cases ht
    next => exact writer_bwdata ht
  | reader => exact absurd rfl hl

/-- The lines read so far, and where they have brought `monthly`. -/
def Begun (f : List Line) (offset : Nat) (r : Reading) : Prop :=
  ∃ pre, pre <+: f ∧ size pre = offset ∧ pre.foldlM Reading.line .start = some r

/-- What is known about each place of `create_data.lua`. -/
def AtReader (init s : State) : Reader → Prop
  | .start | .locked | .written | .ended => True
  | .listed dataname => Listed Ok init s dataname
  | .reading (.bk month) offset r => Listed Ok init s (some month) ∧
      (s.dir.lookup (bk month)).isSome = true ∧ Begun (s.file (bk month)) offset r
  | .reading (.gone f) offset r => (∃ month, Kept Ok init s month f) ∧ Begun f offset r
  | .read report => Faithful Ok init s report
  | .failed => False

theorem Begun.mono {offset : Nat} {r : Reading} (h : Begun f offset r) (hfg : f <+: g) :
    Begun g offset r := by
  obtain ⟨pre, hpre, hsize, hfold⟩ := h
  exact ⟨pre, hpre.trans hfg, hsize, hfold⟩

theorem Begun.first {r : Reading} (h : Begun f 0 r) (g : List Line) : Begun g 0 r := by
  obtain ⟨pre, -, hsize, hfold⟩ := h
  obtain rfl := size_eq_zero hsize
  exact ⟨[], nil_prefix, hsize, hfold⟩

theorem Listed.next {ok : State → Label → Prop} (h : Listed ok init s d) {l : Label} (hok : ok s l)
    (ht : step s l = some t) : Listed ok init t d := by
  obtain ⟨s₀, hinit, hs, hnewest⟩ := h
  exact ⟨s₀, hinit, hs.next hok ht, hnewest⟩

theorem Kept.next {ok : State → Label → Prop} (h : Kept ok init s month f) {l : Label}
    (hok : ok s l) (ht : step s l = some t) : Kept ok init t month f := by
  obtain ⟨s₀, s₁, hinit, hs, hs', hrest⟩ := h
  exact ⟨s₀, s₁, hinit, hs, hs'.next hok ht, hrest⟩

theorem Faithful.next {ok : State → Label → Prop} (h : Faithful ok init s report) {l : Label}
    (hok : ok s l) (ht : step s l = some t) : Faithful ok init t report := by
  cases h with
  | nothing h => exact .nothing (h.next hok ht)
  | whole h hf => exact .whole (h.next hok ht) hf

theorem atReader_frame {l : Label} (hok : Ok s l)
    (ht : step s l = some t) (hframe : Frame s t) (h : AtReader init s s.reader) :
    AtReader init t t.reader := by
  cases hframe with
  | gone hreader hreader' hw =>
    rw [hreader] at h
    rw [hreader']
    obtain ⟨⟨s₀, hinit, hs, hnewest⟩, hsome, hbegun⟩ := h
    refine ⟨⟨_, s₀, s, hinit, hs, .single hok ht, hnewest, ?_, whole_of_writing hw⟩, hbegun⟩
    obtain ⟨f, hf⟩ := isSome_iff_exists.mp hsome
    rw [State.file, hf, getD_some]
  | kept hreader hopen =>
    rw [hreader]
    cases hplace : s.reader with
    | start | locked | written | ended => trivial
    | failed =>
      rw [hplace] at h
      exact h
    | listed dataname =>
      rw [hplace] at h
      exact Listed.next h hok ht
    | read report =>
      rw [hplace] at h
      exact Faithful.next h hok ht
    | reading file offset r =>
      rw [hplace] at h
      cases file with
      | gone f => exact ⟨h.1.imp fun _ hkept => hkept.next hok ht, h.2⟩
      | bk month =>
        obtain ⟨hlisted, hsome, hbegun⟩ := h
        obtain ⟨hstill, hgrows⟩ := hopen month offset r hplace
        refine ⟨hlisted.next hok ht, hstill hsome, ?_⟩
        by_cases hoffset : offset = 0
        · subst hoffset
          exact hbegun.first _
        · exact hbegun.mono (hgrows hoffset).1

theorem sound_of_reaches {ok : State → Label → Prop} (hinit : Init init)
    (h : Reaches step ok init s) : Sound s :=
  h.invariant (P := Sound) hinit.sound fun _ _ _ hs _ ht => step_sound hs ht

theorem Kept.isMonth {ok : State → Label → Prop} (hinit : Init init)
    (h : Kept ok init s month f) : IsMonth f := by
  obtain ⟨s₀, s₁, hs₀, hs₁, -, -, hlookup, hwhole⟩ := h
  exact (sound_of_reaches hinit (hs₀.trans hs₁)).files.copies month f hlookup hwhole

theorem Sound.extends (h : Sound s) (month : Nat) :
    ∃ rest, IsMonth (s.file (bk month) ++ rest) := by
  by_cases hwhole : s.whole (.bk month) = true
  · refine ⟨[], ?_⟩
    rw [append_nil, State.file]
    cases hlookup : s.dir.lookup (bk month) with
    | none => exact isMonth_nil
    | some f => exact h.files.copies month f hlookup hwhole
  · have hm : s.monthlyUsageDB = month := by
      by_contra hne
      exact hwhole (whole_of_ne hne)
    subst hm
    cases hw : s.writer with
    | loop => exact absurd (whole_of_writing (by rw [hw]; rfl)) hwhole
    | call btype stage =>
      have hstage := h.stage btype stage hw
      cases stage with
      | blocks pending => exact ⟨_, hstage.2⟩
      | copyDaily | startDay => exact ⟨[], (append_nil s.copy).symm ▸ hstage.2⟩
      | dailyLines | endDay => exact ⟨_, hstage⟩
      | _ => exact absurd (whole_of_writing (by rw [hw]; rfl)) hwhole

theorem foldlM_of_isMonth (h : IsMonth f) :
    ∃ r, f.foldlM Reading.line .start = some r ∧ r.inDay = false := by
  obtain ⟨days, hdays, rfl⟩ := h
  exact ⟨_, foldlM_month rfl hdays, rfl⟩

theorem line_of_isMonth {pre post : List Line} {l : Line} {r : Reading}
    (h : IsMonth (pre ++ l :: post)) (hr : pre.foldlM Reading.line .start = some r) :
    ∃ r', r.line l = some r' := by
  obtain ⟨x, hx, -⟩ := foldlM_of_isMonth h
  rw [foldlM_append, hr, bind_eq_bind, bind_some, foldlM_cons,
    bind_eq_bind, bind_eq_some_iff] at hx
  obtain ⟨r', hline, -⟩ := hx
  exact ⟨r', hline⟩

theorem monthly_of_isMonth {r : Reading} (h : IsMonth f)
    (hr : f.foldlM Reading.line .start = some r) : r.eof = some r ∧ monthly f = some r := by
  obtain ⟨x, hx, hday⟩ := foldlM_of_isMonth h
  obtain rfl : r = x := some.inj (hr ▸ hx)
  have heof : r.eof = some r := by rw [Reading.eof, hday, if_neg (by decide)]
  exact ⟨heof, by rw [monthly, hr, bind_some, heof]⟩

theorem open_begun {file : Handle} {offset : Nat} {r : Reading} (hinit : Init init)
    (hsound : Sound s) (h : AtReader init s (.reading file offset r)) :
    Begun (s.content file) offset r ∧ (∃ rest, IsMonth (s.content file ++ rest)) ∧
      (s.whole file = true → ∃ month, Kept Ok init s month (s.content file)) := by
  cases file with
  | gone f =>
    obtain ⟨⟨month, hkept⟩, hbegun⟩ := h
    exact ⟨hbegun, ⟨[], (append_nil f).symm ▸ hkept.isMonth hinit⟩, fun _ => ⟨month, hkept⟩⟩
  | bk month =>
    obtain ⟨⟨s₀, hs₀, hs, hnewest⟩, hsome, hbegun⟩ := h
    obtain ⟨f, hf⟩ := isSome_iff_exists.mp hsome
    refine ⟨hbegun, hsound.extends month, fun hwhole =>
      ⟨month, s₀, s, hs₀, hs, .start, hnewest, ?_, hwhole⟩⟩
    rw [State.content, State.file, hf, getD_some]

theorem reading_step {file : Handle} {offset : Nat} {r : Reading} (hinit : Init init)
    (hsound : Sound s) (hreader : s.reader = .reading file offset r)
    (h : AtReader init s (.reading file offset r)) (hok : s.MayRead s.reader)
    (ht : s.readerStep = some t) :
    (∃ l r', lineAt (s.content file) offset = some (l, l.length + 1) ∧
      t = { s with reader := .reading file (offset + (l.length + 1)) r' } ∧
      Begun (s.content file) (offset + (l.length + 1)) r') ∨
    ∃ month, Kept Ok init s month (s.content file) ∧ monthly (s.content file) = some r ∧
      t = { s with reader := .read (some r.bwdata) } := by
  obtain ⟨⟨pre, ⟨post, hcontent⟩, hsize, hpre⟩, ⟨rest, hrest⟩, hkept⟩ := open_begun hinit hsound h
  have hlineAt := lineAt_size (f := pre) (g := post)
  rw [hcontent, hsize] at hlineAt
  rw [State.readerStep, hreader] at ht
  rw [hreader] at hok
  cases post with
  | nil =>
    right
    obtain ⟨month, hmonth⟩ := hkept (hok hlineAt)
    rw [append_nil] at hcontent
    rw [hcontent] at hpre
    obtain ⟨heof, hmonthly⟩ := monthly_of_isMonth (hmonth.isMonth hinit) hpre
    simp only [hlineAt, heof, List.head?_nil, map_none, some.injEq] at ht
    exact ⟨month, hmonth, hmonthly, ht.symm⟩
  | cons l post =>
    left
    rw [← hcontent, append_assoc] at hrest
    obtain ⟨r', hline⟩ := line_of_isMonth hrest hpre
    simp only [hlineAt, hline, List.head?_cons, map_some, some.injEq] at ht
    refine ⟨l, r', hlineAt, ht.symm, pre ++ [l], ⟨post, ?_⟩, ?_, ?_⟩
    · rw [append_assoc, singleton_append, hcontent]
    · rw [size_append, hsize]
      rfl
    · rw [foldlM_append, hpre, bind_eq_bind, bind_some]
      simp [hline]

/-- What the steps under the condition keep. -/
structure Inv (init s : State) : Prop where
  reaches : Reaches step Ok init s
  reader : AtReader init s s.reader
  bwdata : ∀ report, s.bwdata = some report → Faithful Ok init s report

/-- How far `create_data.lua` still has to go. -/
def progress (s : State) : Nat ×ₗ Nat :=
  match s.reader with
  | .start => toLex (7, 0)
  | .locked => toLex (6, 0)
  | .listed _ => toLex (5, 0)
  | .reading file offset _ =>
    if offset = 0 then toLex (4, 0) else toLex (3, s.bytes file - offset)
  | .read _ => toLex (2, 0)
  | .written => toLex (1, 0)
  | .ended | .failed => toLex (0, 0)

theorem lt_of_rank {a b c d : Nat} (h : a < b) : toLex (a, c) < toLex (b, d) :=
  Prod.Lex.toLex_lt_toLex.mpr (.inl h)

theorem progress_frame (h : Frame s t) : progress t ≤ progress s := by
  cases h with
  | kept hreader hopen =>
    rw [progress, progress, hreader]
    cases hplace : s.reader with
    | reading file offset r =>
      by_cases hoffset : offset = 0
      · simp only [if_pos hoffset, le_refl]
      · cases file with
        | gone f => exact le_refl _
        | bk month => simp only [((hopen month offset r hplace).2 hoffset).2, le_refl]
    | _ => exact le_refl _
  | @gone month offset r hreader hreader' hw =>
    rw [progress, progress, hreader, hreader']
    by_cases hoffset : offset = 0
    · simp only [if_pos hoffset, le_refl]
    · simp only [if_neg hoffset]
      apply Prod.Lex.toLex_le_toLex.mpr
      refine .inr ⟨rfl, ?_⟩
      show size (s.file (bk month)) - offset ≤ size (s.file (bk month)) + _ - offset
      omega

theorem size_le_bytes {file : Handle} : size (s.content file) ≤ s.bytes file := by
  cases file with
  | bk month => exact Nat.le_add_right _ _
  | gone f => exact le_refl _

theorem reader_step (hinit : Init init) (h : Inv init s) (hok : Ok s .reader)
    (ht : step s .reader = some t) : Inv init t ∧ progress t < progress s := by
  have hreaches : Reaches step Ok init t := h.reaches.next hok ht
  have hfaithful : ∀ report, s.bwdata = some report → Faithful Ok init t report :=
    fun report hreport => (h.bwdata report hreport).next hok ht
  have hstep : s.readerStep = some t := ht
  cases hplace : s.reader with
  | start =>
    rw [State.readerStep, hplace] at hstep
    obtain rfl := some.inj hstep
    refine ⟨⟨hreaches, trivial, hfaithful⟩, ?_⟩
    rw [progress, progress, hplace]
    exact lt_of_rank (by decide)
  | locked =>
    rw [State.readerStep, hplace] at hstep
    obtain rfl := some.inj hstep
    refine ⟨⟨hreaches, ⟨s, h.reaches, .single hok ht, rfl⟩, hfaithful⟩, ?_⟩
    rw [progress, progress, hplace]
    exact lt_of_rank (by decide)
  | listed dataname =>
    have hlisted : Listed Ok init s dataname := by
      have hreader := h.reader
      rwa [hplace] at hreader
    cases dataname with
    | none =>
      rw [State.readerStep, hplace] at hstep
      obtain rfl := some.inj hstep
      refine ⟨⟨hreaches, .nothing (hlisted.next hok ht), hfaithful⟩, ?_⟩
      rw [progress, progress, hplace]
      exact lt_of_rank (by decide)
    | some month =>
      have hthere : s.MayRead s.reader := hok
      rw [hplace] at hthere
      obtain ⟨f, hf⟩ := isSome_iff_exists.mp hthere
      rw [State.readerStep, hplace] at hstep
      simp only [hf, some.injEq] at hstep
      subst hstep
      refine ⟨⟨hreaches, ⟨hlisted.next hok ht, hthere, [], nil_prefix, rfl, rfl⟩,
        hfaithful⟩, ?_⟩
      rw [progress, progress, hplace]
      exact lt_of_rank (by decide)
  | reading file offset r =>
    have hreader := h.reader
    rw [hplace] at hreader
    rcases reading_step hinit (sound_of_reaches hinit h.reaches) hplace hreader hok hstep with
      ⟨l, r', -, rfl, hbegun⟩ | ⟨month, hkept, hmonthly, rfl⟩
    · refine ⟨⟨hreaches, ?_, hfaithful⟩, ?_⟩
      · cases file with
        | bk month => exact ⟨hreader.1.next hok ht, hreader.2.1, hbegun⟩
        | gone f => exact ⟨hreader.1.imp fun _ hkept => hkept.next hok ht, hbegun⟩
      · obtain ⟨pre, ⟨post, hpost⟩, hsize, -⟩ := hbegun
        have hle : size (s.content file) ≤ s.bytes file := size_le_bytes
        rw [← hpost, size_append] at hle
        have hnext : offset + (l.length + 1) ≠ 0 := by omega
        rw [progress, progress, hplace]
        simp only [if_neg hnext]
        split
        · exact lt_of_rank (by decide)
        · apply Prod.Lex.toLex_lt_toLex.mpr
          refine .inr ⟨rfl, ?_⟩
          show s.bytes file - (offset + (l.length + 1)) < s.bytes file - offset
          omega
    · refine ⟨⟨hreaches, .whole (hkept.next hok ht) hmonthly, hfaithful⟩, ?_⟩
      rw [progress, progress, hplace]
      simp only
      split <;> exact lt_of_rank (by decide)
  | read report =>
    rw [State.readerStep, hplace] at hstep
    obtain rfl := some.inj hstep
    have hreader := h.reader
    rw [hplace] at hreader
    refine ⟨⟨hreaches, trivial, ?_⟩, ?_⟩
    · intro report' heq
      obtain rfl := some.inj heq
      exact Faithful.next hreader hok ht
    · rw [progress, progress, hplace]
      exact lt_of_rank (by decide)
  | written =>
    rw [State.readerStep, hplace] at hstep
    obtain rfl := some.inj hstep
    refine ⟨⟨hreaches, trivial, hfaithful⟩, ?_⟩
    rw [progress, progress, hplace]
    exact lt_of_rank (by decide)
  | ended | failed =>
    rw [State.readerStep, hplace] at hstep
    cases hstep

theorem step_inv (hinit : Init init) (h : Inv init s) {l : Label} (hok : Ok s l)
    (ht : step s l = some t) :
    Inv init t ∧ progress t ≤ progress s ∧ (l = .reader → progress t < progress s) := by
  by_cases hl : l = .reader
  · subst hl
    obtain ⟨hinv, hlt⟩ := reader_step hinit h hok ht
    exact ⟨hinv, hlt.le, fun _ => hlt⟩
  · have hframe := step_frame hl hok ht
    refine ⟨⟨h.reaches.next hok ht, atReader_frame hok ht hframe h.reader, ?_⟩,
      progress_frame hframe, fun heq => absurd heq hl⟩
    intro report hreport
    rw [step_bwdata hl ht] at hreport
    exact (h.bwdata report hreport).next hok ht

theorem Init.inv (h : Init init) : Inv init init := by
  refine ⟨.start, ?_, ?_⟩
  · rw [h.reader]
    trivial
  · rw [h.bwdata]
    intro report hreport
    cases hreport

theorem inv_of_reaches (hinit : Init init) (h : Reaches step Ok init s) : Inv init s :=
  h.invariant (P := Inv init) hinit.inv fun _ _ _ hs hok ht => (step_inv hinit hs hok ht).1

/-- A run in which no backup is caught with its file half written reports a whole file. -/
theorem report_whole (hinit : Init init) (h : Reaches step Ok init s) : Report Ok init s := by
  have hinv := inv_of_reaches hinit h
  refine ⟨?_, hinv.bwdata, ?_⟩
  · intro hfailed
    have hreader := hinv.reader
    rw [hfailed] at hreader
    exact hreader
  · have hacc : Acc (fun t s => ∃ u l, Reaches step Ok s u ∧ l = Label.reader ∧ Ok u l ∧
        step u l = some t) s :=
      acc_of_marked progress (fun _ _ _ hs hok ht => step_inv hinit hs hok ht) hinv
    refine Subrelation.accessible ?_ hacc
    rintro t s ⟨u, hreaches, hok, ht⟩
    exact ⟨u, .reader, hreaches, rfl, hok, ht⟩

instance (s : State) : (reader : Reader) → Decidable (s.MayRead reader)
  | .listed (some month) => inferInstanceAs (Decidable ((s.dir.lookup (bk month)).isSome = true))
  | .reading file offset _ =>
    inferInstanceAs (Decidable (lineAt (s.content file) offset = none → s.whole file = true))
  | .start | .locked | .listed none | .read _ | .written | .ended | .failed =>
    inferInstanceAs (Decidable True)

instance (s : State) : (reader : Reader) → Decidable (s.MayWrite reader)
  | .reading (.bk month) offset _ => inferInstanceAs
    (Decidable (s.writer.truncates = true → s.monthlyUsageDB = month → offset = 0))
  | .start | .locked | .listed _ | .reading (.gone _) _ _ | .read _ | .written | .ended | .failed =>
    inferInstanceAs (Decidable True)

instance (s : State) : (l : Label) → Decidable (Ok s l)
  | .reader => inferInstanceAs (Decidable (s.MayRead s.reader))
  | .writer => inferInstanceAs (Decidable (s.MayWrite s.reader))
  | .update _ | .call _ | .sameDay | .newDay _ _ => inferInstanceAs (Decidable True)

def pc : Host := ⟨"a4:01".toList, 10, 5, 0, 0, "192.168.1.2".toList, "pc".toList⟩

def tv : Host := ⟨"b8:02".toList, 40, 2, 0, 0, "192.168.1.3".toList, "tv".toList⟩

def second : State where
  tmplockbw := false
  lockbw := false
  dir := [(js 7, Day.lines ⟨"01".toList, [pc]⟩), (bk 7, Day.lines ⟨"01".toList, [pc]⟩)]
  monthlyUsageDB := 7
  cDay := "02".toList
  daily := [pc.line, tv.line, pc.line]
  dailyBk := none
  writer := .loop
  reader := .start
  bwdata := none

theorem lookup_second {name : Name} (h : second.dir.lookup name = some f) :
    f = Day.lines ⟨"01".toList, [pc]⟩ := by
  rw [second, List.lookup_cons, List.lookup_cons, lookup_nil] at h
  split at h
  next => exact (some.inj h).symm
  next =>
    split at h
    next => exact (some.inj h).symm
    next => cases h

theorem second_init : Init second := by
  have hmonth : IsMonth (Day.lines ⟨"01".toList, [pc]⟩) := by
    refine ⟨[⟨"01".toList, [pc]⟩], ?_, (flatMap_singleton ..).symm⟩
    intro d hd
    obtain rfl := mem_singleton.mp hd
    refine ⟨by decide, ?_⟩
    intro h hh
    obtain rfl := mem_singleton.mp hh
    decide
  refine ⟨?_, ?_, ⟨[pc, tv, pc], by decide, rfl⟩, by decide, rfl, rfl, rfl⟩
  · intro month f hf
    exact lookup_second hf ▸ hmonth
  · intro month f hf
    exact lookup_second hf ▸ hmonth

/-- The report begins in the middle of a backup and ends behind it. -/
theorem report_whole_second : ∃ s, Reaches step Ok second s ∧ s.bwdata = some (some
    ⟨2, 87, 70, 17, [⟨"192.168.1.2".toList, "a4:01".toList, 30, 15, 45, "pc".toList⟩,
      ⟨"192.168.1.3".toList, "b8:02".toList, 40, 2, 42, "tv".toList⟩]⟩) ∧ Report Ok second s := by
  have hrun : (run (guarded step Ok) second (.call .setup :: replicate 6 .writer ++
      replicate 7 .reader ++ replicate 3 .writer ++ replicate 6 .reader)).any
      (fun s => decide (s.bwdata = some (some ⟨2, 87, 70, 17,
        [⟨"192.168.1.2".toList, "a4:01".toList, 30, 15, 45, "pc".toList⟩,
          ⟨"192.168.1.3".toList, "b8:02".toList, 40, 2, 42, "tv".toList⟩]⟩))) = true := by
    decide +kernel
  obtain ⟨s, hreaches, hs⟩ := exists_of_run _ hrun
  exact ⟨s, hreaches, hs, report_whole second_init hreaches⟩

/-- A report that comes to the end of the file in front of the end line of the day. -/
theorem not_report_unguarded : ¬∀ s, Reaches step (fun _ _ => True) second s →
    Report (fun _ _ => True) second s := by
  intro h
  have hrun : (run (guarded step fun _ _ => True) second
      (.call .setup :: replicate 7 .writer ++
      replicate 10 .reader)).any (fun s => decide (s.reader = .failed)) = true := by
    decide +kernel
  obtain ⟨s, hreaches, hs⟩ := exists_of_run _ hrun
  exact (h s hreaches).running hs

end ModemSupport.Rooter.BwmonReport
