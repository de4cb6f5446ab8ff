import ModemSupport.Rooter.BwmonTraffic

/-! What the files of `wrtbwmon.sh` add up to: the month file, the daily file and their backups on
flash agree with the ledger of the run as long as the starts find what the period has saved. -/

namespace ModemSupport.Rooter.BwmonTraffic

open Lib.Calendar Lib.Directory Lib.Transition Bwmon List Option
open BwmonReport (Name Dir Btype bk js newest outdated)

variable {r : Nat} {s t : State} {g : Ledger} {d : Date} {f : List Line} {m : Nat} {tmp : Dir}
  {btype : Btype}

theorem isOrder_before : IsOrder Name.before where
  irrefl a := by simp [Name.before]
  trans a b c hab hbc := by
    simp only [Name.before, Bool.or_eq_true, Bool.and_eq_true, decide_eq_true_eq, beq_iff_eq,
      Bool.not_eq_true'] at hab hbc ⊢
    rcases hab with hab | ⟨⟨hab, ha⟩, hb⟩ <;> rcases hbc with hbc | ⟨⟨hbc, hb'⟩, hc⟩
    · exact .inl (hab.trans hbc)
    · exact .inl (hbc ▸ hab)
    · exact .inl (hab ▸ hbc)
    · rw [hb] at hb'
      cases hb'
  total a b hne hab := by
    rcases a with ⟨m, x⟩
    rcases b with ⟨n, y⟩
    simp only [Name.before, Bool.or_eq_false_iff, Bool.and_eq_false_iff, decide_eq_false_iff_not,
      Bool.or_eq_true, Bool.and_eq_true, decide_eq_true_eq, beq_iff_eq, beq_eq_false_iff_ne,
      ne_eq, Name.mk.injEq, not_and, Bool.not_eq_true', Bool.not_eq_false'] at *
    by_cases hmn : m = n
    · subst hmn
      have hxy := hne rfl
      cases x <;> cases y <;> simp_all
    · left
      omega

theorem before_bk {x : Name} (h : x.month ≤ m) : Name.before (bk m) x = false := by
  have hlt : ¬m < x.month := Nat.not_lt.mpr h
  simp [Name.before, bk, hlt]

theorem newest_of_names (hsorted : Sorted Name.before tmp) (hnames : ∀ x ∈ tmp, x.1.month ≤ m)
    (h : tmp.lookup (bk m) = some f) : newest tmp = some m := by
  have hlast : (tmp.filter fun x => x.1.bk).getLast? = some (bk m, f) := by
    refine getLast?_sorted (hsorted.filter _) ?_ ?_
    · exact mem_filter.mpr ⟨mem_of_lookup h, rfl⟩
    · intro y hy
      exact before_bk (hnames y (mem_of_mem_filter hy))
  have hmap : (tmp.map Prod.fst).filter Name.bk = (tmp.filter fun x => x.1.bk).map Prod.fst :=
    List.filter_map ..
  rw [newest, hmap, getLast?_map, hlast]
  rfl

theorem notMem_outdated {x : Name} (hsorted : Sorted Name.before tmp)
    (hnames : ∀ y ∈ tmp, y.1.month ≤ m) (hx : x.month = m) : x ∉ outdated tmp := by
  intro hmem
  have hmap : outdated tmp = (tmp.take (tmp.length - 3)).map Prod.fst := map_take.symm
  rw [hmap] at hmem
  obtain ⟨y, hy, rfl⟩ := List.mem_map.mp hmem
  have hlen : 3 ≤ (tmp.drop (tmp.length - 3)).length := by
    have hpos := length_pos_of_mem hy
    rw [length_take] at hpos
    rw [length_drop]
    omega
  have hsplit := hsorted
  rw [Sorted, ← take_append_drop (tmp.length - 3) tmp, pairwise_append] at hsplit
  obtain ⟨-, hdrop, hacross⟩ := hsplit
  -- what comes behind a file of the month can only be its copy
  have hbehind : ∀ z ∈ tmp.drop (tmp.length - 3), z.1 = bk m := by
    intro z hz
    have hbefore := hacross y hy z hz
    have hle := hnames z (mem_of_mem_drop hz)
    rcases y with ⟨⟨a, p⟩, q⟩
    rcases z with ⟨⟨b, v⟩, w⟩
    simp only [Name.before, Bool.or_eq_true, decide_eq_true_eq, Bool.and_eq_true, beq_iff_eq,
      bk, Name.mk.injEq] at hbefore hle hx ⊢
    rcases hbefore with hlt | ⟨⟨heq, -⟩, hv⟩
    · omega
    · exact ⟨by omega, hv⟩
  cases hd : tmp.drop (tmp.length - 3) with
  | nil => simp [hd] at hlen
  | cons z rest =>
    cases rest with
    | nil => simp [hd] at hlen
    | cons z' rest =>
      rw [hd] at hbehind hdrop
      have hzz := (pairwise_cons.mp hdrop).1 z' mem_cons_self
      rw [hbehind z (by simp), hbehind z' (by simp), isOrder_before.irrefl] at hzz
      cases hzz

structure Names (s : State) : Prop where
  sorted : Sorted Name.before s.tmp
  tmp : ∀ x ∈ s.tmp, x.1.month ≤ s.monthlyUsageDB
  db : s.monthlyUsageDB ≤ s.date.month
  tmpDaily : ∀ d f, s.tmpDaily.lookup d = some f → d ≤ s.date
  flash : s.flash = [] ∨ ∃ f, s.flash = [(s.date.month, f)]
  flashDaily : ∀ d f, s.flashDaily.lookup d = some f → d = s.date

/-- The days of a book are over or not, but day `r` has not passed since. -/
def Past (r : Nat) (d : Date) (b : Book) : Prop := ∀ x ∈ b, x.1 ≤ d ∧ ¬Date.Passes r x.1 d

def Book.without (d : Date) (b : Book) : Book := b.filter fun x => x.1 ≠ d

structure Backup (r : Nat) (d : Date) (g : Ledger) (f : List Line) (b : Book) : Prop where
  lines : f = b.lines
  named : b.Named
  past : Past r d b
  saved : ∀ w mac, usage w mac b.hosts = usage w mac g.saved

/-- In the main loop the month file has the days before today, and the daily file and its backup
have today. -/
structure Loop (r : Nat) (s : State) (g : Ledger) (b : Book) (today kept : List Host) : Prop where
  month : s.tmp.lookup (js s.monthlyUsageDB) = some b.lines
  named : b.Named
  past : Past r s.date b
  before : ∀ x ∈ b, x.1 ≠ s.date
  daily : s.tmpDaily.lookup s.date = some (today.map Host.line)
  dailyNamed : ∀ h ∈ today, h.Named
  backup : (s.flashDaily.lookup s.date).getD [] = kept.map Host.line
  backupNamed : ∀ h ∈ kept, h.Named
  fresh : ∀ w mac, usage w mac today = usage w mac kept + usage w mac g.fresh
  saved : ∀ w mac, usage w mac g.saved = usage w mac b.hosts + usage w mac kept
  flash : ∀ f, s.flash.lookup s.date.month = some f → ∃ b', Backup r s.date g f b' ∧
    ∀ w mac, usage w mac (Book.hosts (Book.without s.date b')) = usage w mac b.hosts
  missing : s.flash.lookup s.date.month = none → s.monthlyUsageDB < s.date.month ∨ b = []

/-- Behind the `daily` backup the month file has today as well. -/
structure Noticed (r : Nat) (s : State) (g : Ledger) (b : Book) : Prop where
  month : s.tmp.lookup (js s.monthlyUsageDB) = some b.lines
  named : b.Named
  past : Past r s.date b
  fresh : g.fresh = []
  saved : ∀ w mac, usage w mac g.saved = usage w mac b.hosts
  flash : ∃ f b', s.flash.lookup s.date.month = some f ∧ Backup r s.date g f b'

variable {b : Book} {today kept : List Host} {w : Way} {mac : List Char}

theorem Loop.monthBk (h : Loop r s g b today kept) : s.monthBk = b.compact.lines := by
  rw [State.monthBk, h.month, getD_some, backupMon_book h.named]

theorem Loop.dailyBk (h : Loop r s g b today kept) :
    s.dailyBk = some ((compact today).map Host.line) := by
  rw [State.dailyBk, h.daily, bind_some,
    backupDaily_lines fun x hx => (h.dailyNamed x hx).toWellFormed]

/-- The book that `backup.sh` leaves in the `.bk` file. -/
def closed (d : Date) (b : Book) (today : List Host) : Book := b.compact ++ [(d, compact today)]

theorem Loop.copy (h : Loop r s g b today kept) : s.copy = (closed s.date b today).lines := by
  rw [State.copy, h.monthBk, h.dailyBk, getD_some, closed, Book.lines_append,
    Book.lines_singleton]

theorem usage_closed :
    usage w mac (closed d b today).hosts = usage w mac b.hosts + usage w mac today := by
  have hlast : Book.hosts [(d, compact today)] = compact today := flatMap_singleton ..
  rw [closed, Book.hosts_append, usage_append, usage_compact_hosts, hlast, usage_compact]

theorem Loop.usage_closed (h : Loop r s g b today kept) :
    usage w mac (closed s.date b today).hosts = usage w mac g.counted := by
  have hfresh := h.fresh w mac
  have hsaved := h.saved w mac
  rw [BwmonTraffic.usage_closed, Ledger.counted, usage_append]
  omega

theorem mem_compact {x : Date × List Host} (h : x ∈ b.compact) : ∃ y ∈ b, y.1 = x.1 := by
  obtain ⟨y, hy, rfl⟩ := List.mem_map.mp h
  exact ⟨y, hy, rfl⟩

theorem Past.compact (h : Past r d b) : Past r d b.compact := by
  intro x hx
  obtain ⟨y, hy, heq⟩ := mem_compact hx
  exact heq ▸ h y hy

theorem Past.closed (h : Past r d b) : Past r d (closed d b today) := by
  intro x hx
  rcases mem_append.mp hx with hx | hx
  · exact h.compact x hx
  · obtain rfl := mem_singleton.mp hx
    exact ⟨Date.le_refl, Date.not_passes_self⟩

theorem named_closed (hb : b.Named) (htoday : ∀ h ∈ today, h.Named) :
    (closed d b today).Named := by
  intro x hx
  rcases mem_append.mp hx with hx | hx
  · exact hb.compact x hx
  · obtain rfl := mem_singleton.mp hx
    exact named_compact htoday

theorem without_closed (h : ∀ x ∈ b, x.1 ≠ d) :
    Book.without d (closed d b today) = b.compact := by
  have hkeep : b.compact.filter (fun x => decide (x.1 ≠ d)) = b.compact := by
    apply filter_eq_self.mpr
    intro x hx
    obtain ⟨y, hy, heq⟩ := mem_compact hx
    simpa [← heq] using h y hy
  rw [Book.without, closed, filter_append, hkeep, filter_cons_of_neg (by simp)]
  exact append_nil _

theorem names_backup (hn : Names s) : Names (s.backup btype) := by
  have hdaily : ∀ {files : List (Date × List Line)} {d f},
      (copyDaily s.date s.dailyBk files).lookup d = some f →
      d = s.date ∨ files.lookup d = some f := by
    intro files d f hf
    unfold copyDaily at hf
    split at hf
    next => exact .inr hf
    next =>
      by_cases hd : d = s.date
      · exact .inl hd
      · rw [putDaily, lookup_put_of_ne hd] at hf
        exact .inr hf
  refine ⟨?_, ?_, hn.db, ?_, ?_, ?_⟩
  · exact sorted_put isOrder_before (sorted_put isOrder_before hn.sorted)
  · intro x hx
    rcases mem_put hx with rfl | hx
    · exact Nat.le_refl _
    · rcases mem_put hx with rfl | hx
      · exact Nat.le_refl _
      · exact hn.tmp x hx
  · intro d f hf
    rcases hdaily hf with rfl | hf
    · exact Date.le_refl
    · exact hn.tmpDaily d f hf
  · show (if btype = Btype.setup then _ else _) = [] ∨
      ∃ f, (if btype = Btype.setup then _ else _) = _
    split
    · exact hn.flash
    · right
      rcases hn.flash with hflash | ⟨f, hflash⟩
      · exact ⟨s.copy, by rw [hflash]; rfl⟩
      · refine ⟨s.copy, ?_⟩
        rw [hflash, putMonth, put, if_pos rfl]
        rfl
  · intro d f hf
    change List.lookup d (if btype = Btype.backup then _ else _) = some f at hf
    split at hf
    · exact (hdaily hf).elim id (hn.flashDaily d f)
    · exact hn.flashDaily d f hf

theorem lookup_js_backup : (s.backup btype).tmp.lookup (js s.monthlyUsageDB) =
    some (if btype = .daily then s.copy else s.monthBk) := by
  show (put _ _ _ (put _ _ _ _)).lookup _ = _
  rw [lookup_put_of_ne (by simp [bk, js]), lookup_put_self]

theorem lookup_bk_backup :
    (s.backup btype).tmp.lookup (bk s.monthlyUsageDB) = some s.copy :=
  lookup_put_self

theorem Loop.right (hn : Names s) (h : Loop r s g b today kept) {g' : Ledger}
    (hg : ∀ w mac, usage w mac g'.counted = usage w mac g.counted) :
    Right (s.backup btype) g' := by
  have hnames : Names (s.backup btype) := names_backup hn
  obtain ⟨reading, hmonthly, husage⟩ :=
    monthly_book (named_closed (d := s.date) h.named h.dailyNamed)
  refine ⟨s.monthlyUsageDB, s.copy, reading,
    newest_of_names hnames.sorted hnames.tmp lookup_bk_backup, lookup_bk_backup, ?_, ?_⟩
  · rwa [h.copy]
  · intro w mac
    rw [husage, h.usage_closed, hg]

theorem usage_save : usage w mac g.save.counted = usage w mac g.counted := by
  rw [Ledger.counted, Ledger.save, append_nil, Ledger.counted]

theorem Loop.backupClosed (h : Loop r s g b today kept) :
    Backup r s.date g.save s.copy (closed s.date b today) :=
  ⟨h.copy, named_closed h.named h.dailyNamed, h.past.closed, fun w mac => by
    rw [h.usage_closed]
    rfl⟩

theorem Loop.month_backup (h : Loop r s g b today kept) {btype : Btype} (hne : btype ≠ .daily) :
    (s.backup btype).tmp.lookup (js s.monthlyUsageDB) = some b.compact.lines := by
  rw [lookup_js_backup, if_neg hne, h.monthBk]

theorem Loop.daily_backup (h : Loop r s g b today kept) {btype : Btype} :
    (s.backup btype).tmpDaily.lookup s.date = some ((compact today).map Host.line) := by
  show (copyDaily s.date s.dailyBk s.tmpDaily).lookup s.date = _
  rw [h.dailyBk]
  exact lookup_put_self

theorem ne_of_mem_compact (h : ∀ x ∈ b, x.1 ≠ d) : ∀ x ∈ b.compact, x.1 ≠ d := by
  intro x hx
  obtain ⟨y, hy, heq⟩ := mem_compact hx
  exact heq ▸ h y hy

theorem Loop.setup (h : Loop r s g b today kept) :
    Loop r (s.backup .setup) g b.compact (compact today) kept where
  month := h.month_backup (by decide)
  named := h.named.compact
  past := h.past.compact
  before := ne_of_mem_compact h.before
  daily := h.daily_backup
  dailyNamed := named_compact h.dailyNamed
  backup := h.backup
  backupNamed := h.backupNamed
  fresh w mac := by rw [usage_compact, h.fresh]
  saved w mac := by rw [usage_compact_hosts, h.saved]
  flash f hf := by
    obtain ⟨b', hb', hwithout⟩ := h.flash f hf
    exact ⟨b', hb', fun w mac => by rw [usage_compact_hosts]; exact hwithout w mac⟩
  missing hmissing := (h.missing hmissing).imp_right fun heq => by rw [heq]; rfl

theorem Loop.backupRun (h : Loop r s g b today kept) :
    Loop r (s.backup .backup) g.save b.compact (compact today) (compact today) where
  month := h.month_backup (by decide)
  named := h.named.compact
  past := h.past.compact
  before := ne_of_mem_compact h.before
  daily := h.daily_backup
  dailyNamed := named_compact h.dailyNamed
  backup := by
    show ((copyDaily s.date s.dailyBk s.flashDaily).lookup s.date).getD [] = _
    rw [h.dailyBk, copyDaily, putDaily, lookup_put_self, getD_some]
  backupNamed := named_compact h.dailyNamed
  fresh _ _ := rfl
  saved w mac := by
    rw [usage_compact_hosts, usage_compact, ← BwmonTraffic.usage_closed (d := s.date),
      h.usage_closed]
    rfl
  flash f hf := by
    have heq : s.copy = f := some.inj (lookup_put_self.symm.trans hf)
    subst heq
    refine ⟨closed s.date b today, h.backupClosed, fun w mac => ?_⟩
    show usage w mac (Book.hosts (Book.without s.date (closed s.date b today))) = _
    rw [without_closed h.before]
  missing hmissing := by
    have hsome : (putMonth s.date.month s.copy s.flash).lookup s.date.month = some s.copy :=
      lookup_put_self
    cases hsome.symm.trans hmissing

theorem Loop.dailyRun (h : Loop r s g b today kept) :
    Noticed r { s.backup .daily with phase := .noticed } g.save (closed s.date b today) where
  month := by
    show (s.backup .daily).tmp.lookup (js s.monthlyUsageDB) = _
    rw [lookup_js_backup, if_pos rfl, h.copy]
  named := named_closed h.named h.dailyNamed
  past := h.past.closed
  fresh := rfl
  saved w mac := by
    rw [h.usage_closed]
    rfl
  flash := ⟨s.copy, closed s.date b today, lookup_put_self, h.backupClosed⟩

theorem lookup_cleanup (hn : Names s) {x : Name} (hx : x.month = s.monthlyUsageDB) :
    s.cleanup.tmp.lookup x = s.tmp.lookup x :=
  lookup_remove_of_notMem (notMem_outdated hn.sorted hn.tmp hx)

theorem flash_cleanup (hn : Names s) : s.cleanup.flash = s.flash := by
  show remove ((s.flash.map Prod.fst).take (s.flash.length - 3)) s.flash = s.flash
  rcases hn.flash with hflash | ⟨f, hflash⟩ <;> rw [hflash] <;> rfl

theorem names_cleanup (hn : Names s) : Names s.cleanup :=
  ⟨sorted_remove hn.sorted, fun x hx => hn.tmp x (mem_of_mem_filter hx), hn.db, hn.tmpDaily,
    by rw [flash_cleanup hn]; exact hn.flash, hn.flashDaily⟩

theorem Loop.cleanup (hn : Names s) (h : Loop r s g b today kept) :
    Loop r s.cleanup g b today kept where
  month := (lookup_cleanup hn rfl).trans h.month
  named := h.named
  past := h.past
  before := h.before
  daily := h.daily
  dailyNamed := h.dailyNamed
  backup := h.backup
  backupNamed := h.backupNamed
  fresh := h.fresh
  saved := h.saved
  flash f hf := h.flash f (by rwa [flash_cleanup hn] at hf)
  missing hmissing := h.missing (by rwa [flash_cleanup hn] at hmissing)

theorem right_cleanup (hn : Names s) (h : s.tmp.lookup (bk s.monthlyUsageDB) = some f)
    (hright : Right s g) : Right s.cleanup g := by
  have hn' := names_cleanup hn
  have hlookup : s.cleanup.tmp.lookup (bk s.monthlyUsageDB) = some f :=
    (lookup_cleanup hn rfl).trans h
  obtain ⟨month, f', reading, hnewest, hf', hrest⟩ := hright
  have hmonth : month = s.monthlyUsageDB :=
    some.inj (hnewest.symm.trans (newest_of_names hn.sorted hn.tmp h))
  subst hmonth
  have heq : f' = f := some.inj (hf'.symm.trans h)
  subst heq
  exact ⟨_, _, reading, newest_of_names hn'.sorted hn'.tmp hlookup, hlookup, hrest⟩

theorem names_update {hosts : List Host} (hn : Names s) : Names (s.update hosts) := by
  refine ⟨hn.sorted, hn.tmp, hn.db, ?_, hn.flash, hn.flashDaily⟩
  intro d f hf
  by_cases hd : d = s.date
  · exact hd ▸ Date.le_refl
  · exact hn.tmpDaily d f ((lookup_put_of_ne hd).symm.trans hf)

theorem Loop.update {hosts : List Host} (h : Loop r s g b today kept)
    (hhosts : ∀ h ∈ hosts, h.Named) :
    Loop r (s.update hosts) (g.append (hosts.map Host.written)) b
      (today ++ hosts.map Host.written) kept where
  month := h.month
  named := h.named
  past := h.past
  before := h.before
  daily := by
    show (putDaily s.date _ s.tmpDaily).lookup s.date = _
    rw [putDaily, lookup_put_self, h.daily, getD_some, map_append]
  dailyNamed := by
    intro x hx
    rcases mem_append.mp hx with hx | hx
    · exact h.dailyNamed x hx
    · obtain ⟨y, hy, rfl⟩ := List.mem_map.mp hx
      exact ⟨(hhosts y hy).toWellFormed.written, (hhosts y hy).macStart, (hhosts y hy).ipStart,
        (hhosts y hy).nameStart⟩
  backup := h.backup
  backupNamed := h.backupNamed
  fresh w mac := by
    have hfresh := h.fresh w mac
    rw [Ledger.append, usage_append, usage_append]
    omega
  saved := h.saved
  flash f hf := by
    obtain ⟨b', hb', hwithout⟩ := h.flash f hf
    exact ⟨b', ⟨hb'.lines, hb'.named, hb'.past, hb'.saved⟩, hwithout⟩
  missing := h.missing

theorem Past.mono {e : Date} (h : Past r d b) (hle : d ≤ e) (hpass : ¬Date.Passes r d e) :
    Past r e b := by
  intro x hx
  obtain ⟨hxd, hx⟩ := h x hx
  refine ⟨Date.le_trans hxd hle, fun hpasses => ?_⟩
  exact ((Date.passes_trans hxd hle).mp hpasses).elim hx hpass

theorem ne_of_past {e : Date} (h : Past r d b) (hlt : d < e) : ∀ x ∈ b, x.1 ≠ e := by
  intro x hx heq
  exact Date.not_lt_self (Date.lt_of_le_of_lt (heq ▸ (h x hx).1) hlt)

theorem without_eq_self (h : ∀ x ∈ b, x.1 ≠ d) : Book.without d b = b :=
  filter_eq_self.mpr fun x hx => by simpa using h x hx

theorem Backup.mono {e : Date} {b' : Book} (h : Backup r d g f b') (hle : d ≤ e)
    (hpass : ¬Date.Passes r d e) : Backup r e g f b' :=
  ⟨h.lines, h.named, h.past.mono hle hpass, h.saved⟩

theorem lookup_none_of_names (hnames : ∀ x ∈ tmp, x.1.month ≤ m) {x : Name} (hx : m < x.month) :
    tmp.lookup x = none := by
  cases hlookup : tmp.lookup x with
  | none => rfl
  | some f =>
    have hle := hnames _ (mem_of_lookup hlookup)
    exact absurd hle (Nat.not_le.mpr hx)

theorem touchMonth_of_none (h : tmp.lookup (js m) = none) :
    touchMonth m tmp = put Name.before (js m) [] tmp := by
  rw [touchMonth, h]

theorem sorted_touchMonth (h : Sorted Name.before tmp) : Sorted Name.before (touchMonth m tmp) := by
  rw [touchMonth]
  split
  · exact sorted_put isOrder_before h
  · exact h

theorem names_touchMonth {n : Nat} (h : ∀ x ∈ tmp, x.1.month ≤ n) (hm : m ≤ n) :
    ∀ x ∈ touchMonth m tmp, x.1.month ≤ n := by
  rw [touchMonth]
  split
  · intro x hx
    rcases mem_put hx with rfl | hx
    · exact hm
    · exact h x hx
  · exact h

theorem lookup_singleton {α β : Type} [DecidableEq α] {k j : α} {a c : β}
    (h : List.lookup k [(j, a)] = some c) : k = j ∧ a = c := by
  rw [List.lookup_cons] at h
  split at h
  next heq => exact ⟨eq_of_beq heq, some.inj h⟩
  next => cases h

theorem flash_lookup (hn : Names s) (h : s.flash.lookup m = some f) : m = s.date.month := by
  rcases hn.flash with hflash | ⟨f', hflash⟩
  · rw [hflash] at h
    cases h
  · rw [hflash] at h
    exact (lookup_singleton h).1

theorem keptMonths_lookup (h : (s.keptMonths r d).lookup d.month = some f) :
    d.day ≠ r ∧ s.keptMonths r d = s.flash ∧ s.flash.lookup d.month = some f := by
  rw [State.keptMonths] at h ⊢
  split at h
  next => cases h
  next hnot =>
    rw [not_or] at hnot
    exact ⟨hnot.1, if_neg (not_or.mpr hnot), h⟩

theorem names_newDay (hn : Names s) : Names (s.newDay r) := by
  have hmonth : s.date.month ≤ s.date.next.month := Date.month_le (Date.le_of_lt Date.lt_next)
  have htmp : ∀ x ∈ remove [js s.monthlyUsageDB] s.tmp, x.1.month ≤ s.date.next.month :=
    fun x hx => (hn.tmp x (mem_of_mem_filter hx)).trans (hn.db.trans hmonth)
  have hroll : s.date.next.day = r → (s.newDay r).monthlyUsageDB = s.date.next.month ∧
      (s.newDay r).tmp = touchMonth s.date.next.month (remove [js s.monthlyUsageDB] s.tmp) :=
    fun hr => ⟨if_pos hr, if_pos hr⟩
  have hstay : s.date.next.day ≠ r → (s.newDay r).monthlyUsageDB = s.monthlyUsageDB ∧
      (s.newDay r).tmp = s.tmp :=
    fun hr => ⟨if_neg hr, if_neg hr⟩
  refine ⟨?_, ?_, ?_, ?_, ?_, ?_⟩
  · by_cases hr : s.date.next.day = r
    · rw [(hroll hr).2]
      exact sorted_touchMonth (sorted_remove hn.sorted)
    · rw [(hstay hr).2]
      exact hn.sorted
  · by_cases hr : s.date.next.day = r
    · rw [(hroll hr).1, (hroll hr).2]
      exact names_touchMonth htmp (Nat.le_refl _)
    · rw [(hstay hr).1, (hstay hr).2]
      exact hn.tmp
  · by_cases hr : s.date.next.day = r
    · rw [(hroll hr).1]
      exact Nat.le_refl _
    · rw [(hstay hr).1]
      exact hn.db.trans hmonth
  · intro d f hf
    obtain ⟨rfl, -⟩ := lookup_singleton hf
    exact Date.le_refl
  · show s.keptMonths r s.date.next = [] ∨ ∃ f, s.keptMonths r s.date.next = [(_, f)]
    cases hkept : (s.keptMonths r s.date.next).lookup s.date.next.month with
    | none =>
      left
      rw [State.keptMonths] at hkept ⊢
      split at hkept
      next h => exact if_pos h
      next h => exact absurd (.inr hkept) h
    | some f =>
      right
      obtain ⟨-, hflash, hlookup⟩ := keptMonths_lookup hkept
      rw [hflash]
      rcases hn.flash with hnil | ⟨f', hone⟩
      · rw [hnil] at hlookup
        cases hlookup
      · rw [hone] at hlookup ⊢
        obtain ⟨heq, -⟩ := lookup_singleton hlookup
        exact ⟨f', by rw [← heq]; rfl⟩
  · intro d f hf
    cases hf

theorem loop_rollover (hn : Names s) (hr : s.date.next.day = r) :
    Loop r (s.newDay r) .empty [] [] [] where
  month := by
    show List.lookup (js (if s.date.next.day = r then _ else _))
      (if s.date.next.day = r then _ else _) = _
    rw [if_pos hr, if_pos hr, touchMonth_of_none]
    · exact lookup_put_self
    · by_cases hdb : s.date.next.month = s.monthlyUsageDB
      · exact lookup_remove_of_mem (by simp [hdb])
      · rw [lookup_remove_of_notMem (by simpa [js] using hdb)]
        apply lookup_none_of_names hn.tmp
        have hmonth : s.date.month ≤ s.date.next.month :=
          Date.month_le (Date.le_of_lt Date.lt_next)
        have hdb' := hn.db
        show s.monthlyUsageDB < s.date.next.month
        omega
  named := by simp [Book.Named]
  past := by simp [Past]
  before := by simp
  daily := by
    show List.lookup s.date.next [(s.date.next, [])] = some []
    rw [lookup_cons_self]
  dailyNamed := by simp
  backup := rfl
  backupNamed := by simp
  fresh _ _ := rfl
  saved _ _ := rfl
  flash f hf := absurd hr (keptMonths_lookup hf).1
  missing _ := .inr rfl

theorem Noticed.newDay (hr : 1 ≤ r ∧ r ≤ 28) (hn : Names s) (h : Noticed r s g b)
    (hnext : s.date.next.day ≠ r) : Loop r (s.newDay r) g b [] [] where
  month := by
    show List.lookup (js (if s.date.next.day = r then _ else _))
      (if s.date.next.day = r then _ else _) = _
    rw [if_neg hnext, if_neg hnext]
    exact h.month
  named := h.named
  past := h.past.mono (Date.le_of_lt Date.lt_next) (mt (Date.passes_next hr).mp hnext)
  before := ne_of_past h.past Date.lt_next
  daily := by
    show List.lookup s.date.next [(s.date.next, [])] = some []
    rw [lookup_cons_self]
  dailyNamed := by simp
  backup := rfl
  backupNamed := by simp
  fresh w mac := by
    rw [h.fresh]
    rfl
  saved w mac := h.saved w mac
  flash f hf := by
    obtain ⟨-, -, hlookup⟩ := keptMonths_lookup hf
    obtain ⟨f', b', hflash, hb'⟩ := h.flash
    rw [flash_lookup hn hlookup, hflash] at hlookup
    obtain rfl := some.inj hlookup
    refine ⟨b', hb'.mono (Date.le_of_lt Date.lt_next) (mt (Date.passes_next hr).mp hnext), ?_⟩
    intro w mac
    show usage w mac (Book.hosts (Book.without s.date.next b')) = _
    rw [without_eq_self (ne_of_past hb'.past Date.lt_next), hb'.saved, h.saved]
  missing hmissing := by
    left
    show (if s.date.next.day = r then _ else _) < s.date.next.month
    rw [if_neg hnext]
    obtain ⟨f', b', hflash, -⟩ := h.flash
    have hdb := hn.db
    rcases Date.month_next (d := s.date) with hmonth | hmonth
    · have hsome : s.flash.lookup s.date.next.month = some f' := by rw [hmonth, hflash]
      have hkept : s.keptMonths r s.date.next = s.flash := by
        rw [State.keptMonths, if_neg]
        rw [not_or, hsome]
        exact ⟨hnext, by simp⟩
      change (s.keptMonths r s.date.next).lookup s.date.next.month = none at hmissing
      rw [hkept, hsome] at hmissing
      cases hmissing
    · omega

/-- What `createFiles` has made of the daily files. -/
structure Dailies (s : State) (g : Ledger) (today kept : List Host) : Prop where
  daily : s.tmpDaily.lookup s.date = some (today.map Host.line)
  dailyNamed : ∀ h ∈ today, h.Named
  backup : (s.flashDaily.lookup s.date).getD [] = kept.map Host.line
  backupNamed : ∀ h ∈ kept, h.Named
  fresh : ∀ w mac, usage w mac today = usage w mac kept + usage w mac g.fresh
  tmpDaily : ∀ d f, s.tmpDaily.lookup d = some f → d ≤ s.date
  flashDaily : ∀ d f, s.flashDaily.lookup d = some f → d = s.date

/-- Behind the daily files, with the month files of before. -/
structure Started (s : State) (g : Ledger) (today kept : List Host) : Prop
    extends Dailies s g today kept where
  sorted : Sorted Name.before s.tmp
  tmp : ∀ x ∈ s.tmp, x.1.month ≤ s.date.month
  db : s.monthlyUsageDB = s.date.month
  flash : s.flash = [] ∨ ∃ m f, s.flash = [(m, f)]

theorem day_eq_iff {x : Date × List Host} (h : Past r d b) (hx : x ∈ b) :
    x.1.day = d.day ↔ x.1 = d := by
  constructor
  · intro hday
    obtain ⟨hle, hpass⟩ := h x hx
    exact (Date.eq_or_lt_of_le hle).resolve_right fun hlt =>
      hpass (Date.passes_of_day_eq hlt hday)
  · rintro rfl
    rfl

theorem filter_day (h : Past r d b) : b.filter (fun x => x.1.day ≠ d.day) = Book.without d b := by
  apply filter_congr
  intro x hx
  rw [decide_eq_decide, ne_eq, ne_eq, day_eq_iff h hx]

theorem Started.found (h : Started s g today kept) (hf : s.flash.lookup s.date.month = some f)
    (hb : Backup r s.date g f b) (hsaved : ∀ w mac, usage w mac g.saved =
      usage w mac (Book.hosts (Book.without s.date b)) + usage w mac kept) :
    Names s.createMonthly ∧ Loop r s.createMonthly g (Book.without s.date b) today kept := by
  have hdb := h.db
  have hsed : sed (startDay (cDay s.date)) (endDay (cDay s.date)) false f =
      (Book.without s.date b).lines := by
    rw [hb.lines, sed_lines hb.named, filter_day hb.past]
  have hmonthly : s.createMonthly = { s with
      tmp := put Name.before (bk s.monthlyUsageDB) f (put Name.before (js s.monthlyUsageDB)
        (Book.without s.date b).lines s.tmp) } := by
    rw [State.createMonthly, hf, ← hsed]
  rw [hmonthly]
  refine ⟨⟨?_, ?_, ?_, h.tmpDaily, ?_, h.flashDaily⟩, ?_⟩
  · exact sorted_put isOrder_before (sorted_put isOrder_before h.sorted)
  · intro x hx
    rcases mem_put hx with rfl | hx
    · exact Nat.le_refl _
    · rcases mem_put hx with rfl | hx
      · exact Nat.le_refl _
      · exact (h.tmp x hx).trans hdb.ge
  · exact hdb.le
  · rcases h.flash with hnil | ⟨m, f', hone⟩
    · exact .inl hnil
    · rw [hone] at hf
      obtain ⟨rfl, -⟩ := lookup_singleton hf
      exact .inr ⟨f', hone⟩
  · refine ⟨?_, ?_, ?_, ?_, h.daily, h.dailyNamed, h.backup, h.backupNamed, h.fresh, hsaved, ?_, ?_⟩
    · show (put _ _ _ (put _ _ _ _)).lookup _ = _
      rw [lookup_put_of_ne (by simp [bk, js]), lookup_put_self]
    · exact fun x hx => hb.named x (mem_of_mem_filter hx)
    · exact fun x hx => hb.past x (mem_of_mem_filter hx)
    · intro x hx
      simpa using (mem_filter.mp hx).2
    · intro f' hf'
      obtain rfl : f = f' := some.inj (hf.symm.trans hf')
      exact ⟨b, hb, fun _ _ => rfl⟩
    · intro hmissing
      cases hf.symm.trans hmissing

/-- The files of a start that finds no backup of its month, in front of the backup that it makes. -/
def State.touched (s : State) : State :=
  { s with tmp := touchMonth s.monthlyUsageDB s.tmp, flash := [(s.date.month, [])] }

theorem Started.touched (h : Started s g today kept) (hsaved : g.saved = [])
    (hkept : ∀ w mac, usage w mac kept = 0)
    (hjs : s.tmp.lookup (js s.monthlyUsageDB) = none ∨
      s.tmp.lookup (js s.monthlyUsageDB) = some []) :
    Names s.touched ∧ Loop r s.touched g [] today kept := by
  have hdb := h.db
  refine ⟨⟨sorted_touchMonth h.sorted, ?_, hdb.le, h.tmpDaily, .inr ⟨[], rfl⟩, h.flashDaily⟩, ?_⟩
  · exact names_touchMonth (fun x hx => (h.tmp x hx).trans hdb.ge) (Nat.le_refl _)
  · refine ⟨?_, by simp [Book.Named], by simp [Past], by simp, h.daily, h.dailyNamed, h.backup,
      h.backupNamed, h.fresh, ?_, ?_, fun _ => .inr rfl⟩
    · show (touchMonth s.monthlyUsageDB s.tmp).lookup (js s.monthlyUsageDB) = some []
      rcases hjs with hnone | hsome
      · rw [touchMonth_of_none hnone, lookup_put_self]
      · rw [touchMonth, hsome]
        exact hsome
    · intro w mac
      rw [hsaved, hkept]
      rfl
    · intro f hf
      obtain ⟨-, rfl⟩ := lookup_singleton hf
      exact ⟨[], ⟨rfl, by simp [Book.Named], by simp [Past], fun _ _ => by rw [hsaved]; rfl⟩,
        fun _ _ => rfl⟩

theorem Started.missing (h : Started s g today kept) (hf : s.flash.lookup s.date.month = none)
    (hsaved : g.saved = []) (hkept : ∀ w mac, usage w mac kept = 0)
    (hjs : s.tmp.lookup (js s.monthlyUsageDB) = none ∨
      s.tmp.lookup (js s.monthlyUsageDB) = some []) :
    Names s.createMonthly ∧
      Loop r s.createMonthly g.save [] (compact today) (compact today) ∧
      Right s.createMonthly g.save := by
  have hmonthly : s.createMonthly = s.touched.backup .backup := by
    rw [State.createMonthly, hf]
    rfl
  obtain ⟨hnames, hloop⟩ := h.touched (r := r) hsaved hkept hjs
  rw [hmonthly]
  exact ⟨names_backup hnames, hloop.backupRun, hloop.right hnames fun _ _ => usage_save⟩

theorem createDaily_frame : s.createDaily.tmp = s.tmp ∧ s.createDaily.flash = s.flash ∧
    s.createDaily.date = s.date ∧ s.createDaily.monthlyUsageDB = s.monthlyUsageDB ∧
    s.createDaily.phase = s.phase := by
  rw [State.createDaily]
  split <;> exact ⟨rfl, rfl, rfl, rfl, rfl⟩

theorem createMonthly_phase : s.createMonthly.phase = s.phase := by
  rw [State.createMonthly]
  split <;> rfl

theorem createDaily_none (h : s.flashDaily.lookup d = none) : (s.start d).createDaily =
    { s.start d with tmpDaily := touchDaily d s.tmpDaily, flashDaily := [(d, [])] } := by
  rw [State.createDaily]
  split
  next => rfl
  next hf => cases hf.symm.trans h

theorem createDaily_some (h : s.flashDaily.lookup d = some f) :
    (s.start d).createDaily = { s.start d with tmpDaily := putDaily d f s.tmpDaily } := by
  rw [State.createDaily]
  split
  next hf => cases hf.symm.trans h
  next hf =>
    obtain rfl := some.inj (hf.symm.trans h)
    rfl

/-- What a start on a day behind the files finds. -/
structure Later (r : Nat) (s : State) (g : Ledger) (d : Date) : Prop where
  sorted : Sorted Name.before s.tmp
  tmp : ∀ x ∈ s.tmp, x.1.month ≤ d.month
  tmpDaily : ∀ e f, s.tmpDaily.lookup e = some f → e < d
  flash : s.flash = [] ∨ ∃ m f, s.flash = [(m, f)]
  flashDaily : s.flashDaily.lookup d = none
  month : ∀ f, s.flash.lookup d.month = some f → ¬Date.Passes r s.date d →
    ∃ b, Backup r d g f b ∧ ∀ x ∈ b, x.1 ≠ d
  missing : MakesBackup s d → s.tmp.lookup (js d.month) = none ∨ s.tmp.lookup (js d.month) = some []

theorem Later.lose (h : Later r s g d) : Later r s.lose g d where
  sorted := List.Pairwise.nil
  tmp := by simp [State.lose]
  tmpDaily := by simp [State.lose]
  flash := h.flash
  flashDaily := h.flashDaily
  month := h.month
  missing _ := .inl rfl

theorem lookup_touched {e : Date} (h : List.lookup e [(d, ([] : List Line))] = some f) : e = d :=
  (lookup_singleton h).1

theorem lookup_touched_self : (List.lookup d [(d, ([] : List Line))]).getD [] = [] := by
  rw [lookup_cons_self]
  rfl

theorem lookup_putDaily {files : List (Date × List Line)} (h : ∀ e f', files.lookup e = some f' →
    e ≤ d) (e : Date) (f' : List Line) (hf : (putDaily d f files).lookup e = some f') : e ≤ d := by
  by_cases he : e = d
  · exact he ▸ Date.le_refl
  · exact h e f' ((lookup_put_of_ne he).symm.trans hf)

theorem Later.started {g' : Ledger} (h : Later r s g d) (hfresh : g'.fresh = []) :
    Started (s.start d).createDaily g' [] [] := by
  have hnone : s.tmpDaily.lookup d = none := by
    cases hlookup : s.tmpDaily.lookup d with
    | none => rfl
    | some f => exact absurd (h.tmpDaily d f hlookup) Date.not_lt_self
  have htouch : touchDaily d s.tmpDaily = putDaily d [] s.tmpDaily := by
    rw [touchDaily, hnone]
  rw [createDaily_none h.flashDaily, htouch]
  exact ⟨⟨lookup_put_self, by simp, lookup_touched_self, by simp,
    fun w mac => by rw [hfresh]; rfl,
    lookup_putDaily fun e f hf => Date.le_of_lt (h.tmpDaily e f hf), fun _ _ => lookup_touched⟩,
    h.sorted, h.tmp, rfl, h.flash⟩

theorem Names.months (hn : Names s) : s.flash = [] ∨ ∃ m f, s.flash = [(m, f)] :=
  hn.flash.imp_right fun ⟨f, hf⟩ => ⟨_, f, hf⟩

theorem Loop.startedKept (hn : Names s) (h : Loop r s g b today kept)
    (hkept : s.flashDaily.lookup s.date = none) :
    Started (s.start s.date).createDaily g today kept := by
  have hback := h.backup
  rw [hkept, getD_none] at hback
  obtain rfl : kept = [] := map_eq_nil_iff.mp hback.symm
  have htouch : touchDaily s.date s.tmpDaily = s.tmpDaily := by rw [touchDaily, h.daily]
  rw [createDaily_none hkept, htouch]
  exact ⟨⟨h.daily, h.dailyNamed, lookup_touched_self, by simp, h.fresh, hn.tmpDaily,
    fun _ _ => lookup_touched⟩, hn.sorted, fun x hx => (hn.tmp x hx).trans hn.db, rfl, hn.months⟩

theorem Loop.startedBack (hn : Names s) (h : Loop r s g b today kept) (hfresh : g.fresh = [])
    (hkept : s.flashDaily.lookup s.date = some f) :
    Started (s.start s.date).createDaily g kept kept := by
  have hback := h.backup
  rw [hkept, getD_some] at hback
  subst hback
  rw [createDaily_some hkept]
  exact ⟨⟨lookup_put_self, h.backupNamed, h.backup, h.backupNamed,
    fun w mac => by rw [hfresh]; rfl, lookup_putDaily hn.tmpDaily, hn.flashDaily⟩, hn.sorted,
    fun x hx => (hn.tmp x hx).trans hn.db, rfl, hn.months⟩

theorem Loop.startedLost (hn : Names s) (h : Loop r s g b today kept) :
    Started (s.lose.start s.date).createDaily ⟨g.saved, []⟩ kept kept := by
  have hback := h.backup
  cases hkept : s.flashDaily.lookup s.date with
  | none =>
    rw [hkept, getD_none] at hback
    obtain rfl : kept = [] := map_eq_nil_iff.mp hback.symm
    rw [createDaily_none (s := s.lose) hkept]
    exact ⟨⟨lookup_cons_self, by simp, lookup_touched_self, by simp, fun _ _ => rfl,
      fun e f hf => (lookup_touched hf) ▸ Date.le_refl, fun _ _ => lookup_touched⟩,
      List.Pairwise.nil, by simp [State.lose, State.start], rfl, hn.months⟩
  | some f =>
    rw [hkept, getD_some] at hback
    subst hback
    rw [createDaily_some (s := s.lose) hkept]
    exact ⟨⟨lookup_put_self, h.backupNamed, h.backup, h.backupNamed, fun _ _ => rfl,
      lookup_putDaily (by simp [State.lose]), hn.flashDaily⟩, List.Pairwise.nil,
      by simp [State.lose, State.start], rfl, hn.months⟩

theorem Loop.started (hn : Names s) (h : Loop r s g b today kept) (router : Bool)
    (hok : router = false → g.fresh = [] ∨ s.flashDaily.lookup s.date = none) :
    ∃ today', Started ((if router then s.lose else s).start s.date).createDaily
      (g.restart router) today' kept := by
  cases router with
  | true => exact ⟨kept, h.startedLost hn⟩
  | false =>
    cases hkept : s.flashDaily.lookup s.date with
    | none => exact ⟨today, h.startedKept hn hkept⟩
    | some f =>
      have hfresh := (hok rfl).resolve_right (by rw [hkept]; simp)
      exact ⟨kept, h.startedBack hn hfresh hkept⟩

/-- What every step under the condition keeps. -/
inductive Inv (r : Nat) (s : State) (g : Ledger) : Prop
  | off : s.phase = .off → s.tmp = [] → s.tmpDaily = [] → s.flash = [] → s.flashDaily = [] →
      g = .empty → Inv r s g
  | loop {b : Book} {today kept : List Host} : s.phase = .loop → Names s →
      Loop r s g b today kept → Inv r s g
  | noticed {b : Book} : s.phase = .noticed → Names s → Noticed r s g b → Inv r s g

theorem Names.later (hn : Names s) (hlt : s.date < d)
    (hflash : ∀ f, s.flash.lookup s.date.month = some f → ∃ b, Backup r s.date g f b)
    (hmissing : MakesBackup s d →
      s.tmp.lookup (js d.month) = none ∨ s.tmp.lookup (js d.month) = some []) :
    Later r s g d where
  sorted := hn.sorted
  tmp x hx := (hn.tmp x hx).trans (hn.db.trans (Date.month_le (Date.le_of_lt hlt)))
  tmpDaily e f hf := Date.lt_of_le_of_lt (hn.tmpDaily e f hf) hlt
  flash := hn.months
  flashDaily := by
    cases hlookup : s.flashDaily.lookup d with
    | none => rfl
    | some f => exact absurd (hn.flashDaily d f hlookup ▸ hlt) Date.not_lt_self
  month f hf hpass := by
    rw [flash_lookup hn hf] at hf
    obtain ⟨b', hb'⟩ := hflash f hf
    exact ⟨b', hb'.mono (Date.le_of_lt hlt) hpass, ne_of_past hb'.past hlt⟩
  missing := hmissing

theorem Loop.later (hn : Names s) (h : Loop r s g b today kept) (hlt : s.date < d) :
    Later r s g d := by
  refine hn.later hlt (fun f hf => ?_) fun hmissing => ?_
  · obtain ⟨b', hb', -⟩ := h.flash f hf
    exact ⟨b', hb'⟩
  · have hmonth := Date.month_le (Date.le_of_lt hlt)
    have hdb := hn.db
    by_cases heq : s.monthlyUsageDB = d.month
    · have hdate : s.date.month = d.month := by omega
      have hmissing' : s.flash.lookup s.date.month = none := by rw [hdate]; exact hmissing
      right
      rcases h.missing hmissing' with hless | rfl
      · omega
      · rw [← heq]
        exact h.month
    · left
      apply lookup_none_of_names hn.tmp
      show s.monthlyUsageDB < d.month
      omega

theorem Noticed.later (hn : Names s) (h : Noticed r s g b) (hlt : s.date < d) :
    Later r s g d := by
  obtain ⟨f', b', hflash, hb'⟩ := h.flash
  refine hn.later hlt (fun f hf => ?_) fun hmissing => ?_
  · obtain rfl := some.inj (hflash.symm.trans hf)
    exact ⟨b', hb'⟩
  · left
    apply lookup_none_of_names hn.tmp
    show s.monthlyUsageDB < d.month
    have hmonth := Date.month_le (Date.le_of_lt hlt)
    have hdb := hn.db
    have hne : s.date.month ≠ d.month := by
      intro heq
      rw [heq] at hflash
      cases hflash.symm.trans hmissing
    omega

theorem start_inv {g' : Ledger} (h : Started (s.start d).createDaily g' today kept)
    (hfound : ∀ f, s.flash.lookup d.month = some f → ∃ b, Backup r d g' f b ∧
      ∀ w mac, usage w mac g'.saved =
        usage w mac (Book.hosts (Book.without d b)) + usage w mac kept)
    (hmissing : MakesBackup s d → g'.saved = [] ∧ (∀ w mac, usage w mac kept = 0) ∧
      (s.tmp.lookup (js d.month) = none ∨ s.tmp.lookup (js d.month) = some [])) :
    Inv r (s.createFiles d) (if MakesBackup s d then g'.save else g') ∧
      (MakesBackup s d → Right (s.createFiles d) g'.save) := by
  obtain ⟨htmp, hflash, hdate, hdb, hphase⟩ := createDaily_frame (s := s.start d)
  have hloop : (s.createFiles d).phase = .loop := createMonthly_phase.trans hphase
  have hlookup : (s.start d).createDaily.flash.lookup (s.start d).createDaily.date.month =
      s.flash.lookup d.month := by rw [hflash, hdate]; rfl
  by_cases hmakes : MakesBackup s d
  · obtain ⟨hsaved, hkept, hjs⟩ := hmissing hmakes
    have hjs' : (s.start d).createDaily.tmp.lookup (js (s.start d).createDaily.monthlyUsageDB) =
        s.tmp.lookup (js d.month) := by rw [htmp, hdb]; rfl
    obtain ⟨hnames, hfiles, hright⟩ := h.missing (r := r) (hlookup.trans hmakes) hsaved hkept
      (by rw [hjs']; exact hjs)
    rw [if_pos hmakes]
    exact ⟨.loop hloop hnames hfiles, fun _ => hright⟩
  · obtain ⟨f, hf⟩ := ne_none_iff_exists'.mp hmakes
    obtain ⟨b, hb, hsaved⟩ := hfound f hf
    obtain ⟨hnames, hfiles⟩ := h.found (r := r) (b := b) (hlookup.trans hf)
      (by rw [hdate]; exact hb) (by rw [hdate]; exact hsaved)
    rw [if_neg hmakes]
    exact ⟨.loop hloop hnames hfiles, fun hyes => absurd hyes hmakes⟩

/-- The files of a start in front of `createFiles`. -/
def State.found (s : State) (router : Bool) : State := if router then s.lose else s

theorem start_ledger {router : Bool}
    (h : Started ((s.found router).start d).createDaily (g.start r s router d) today kept)
    (hfound : ∀ f, s.flash.lookup d.month = some f → ∃ b, Backup r d (g.start r s router d) f b ∧
      ∀ w mac, usage w mac (g.start r s router d).saved =
        usage w mac (Book.hosts (Book.without d b)) + usage w mac kept)
    (hmissing : MakesBackup s d → (g.start r s router d).saved = [] ∧
      (∀ w mac, usage w mac kept = 0) ∧ ((s.found router).tmp.lookup (js d.month) = none ∨
        (s.found router).tmp.lookup (js d.month) = some [])) :
    Inv r ((s.found router).createFiles d) (ledger r s g (.restart router d)) ∧
      (MakesBackup s d →
        Right ((s.found router).createFiles d) (ledger r s g (.restart router d))) := by
  have hflash : (s.found router).flash = s.flash := by cases router <;> rfl
  have hmakes : MakesBackup (s.found router) d ↔ MakesBackup s d := by
    rw [MakesBackup, hflash, MakesBackup]
  obtain ⟨hinv, hright⟩ := start_inv h (by rwa [hflash]) fun hyes => hmissing (hmakes.mp hyes)
  simp only [ledger]
  by_cases hyes : MakesBackup s d
  · rw [if_pos (hmakes.mpr hyes)] at hinv
    rw [if_pos hyes]
    exact ⟨hinv, fun _ => hright (hmakes.mpr hyes)⟩
  · rw [if_neg (mt hmakes.mp hyes)] at hinv
    rw [if_neg hyes]
    exact ⟨hinv, fun h => absurd h hyes⟩

theorem saved_restart (router : Bool) : (g.restart router).saved = g.saved := by
  cases router <;> rfl

theorem Later.inv (h : Later r s g d) (router : Bool) (hok : StartOk r s g router d)
    (hfresh : (g.start r s router d).fresh = []) :
    Inv r ((s.found router).createFiles d) (ledger r s g (.restart router d)) ∧
      (MakesBackup s d →
        Right ((s.found router).createFiles d) (ledger r s g (.restart router d))) := by
  have hlater : Later r (s.found router) g d := by
    cases router with
    | true => exact h.lose
    | false => exact h
  have hmonth := hok.1
  refine start_ledger (hlater.started hfresh) (fun f hf => ?_) fun hnone => ?_
  · have hpass : ¬Date.Passes r s.date d := by
      intro hpass
      rw [if_pos hpass] at hmonth
      cases hf.symm.trans hmonth
    have hsaved : (g.start r s router d).saved = g.saved := by
      rw [Ledger.start, if_neg hpass, saved_restart]
    obtain ⟨b, hb, hne⟩ := h.month f hf hpass
    refine ⟨b, ⟨hb.lines, hb.named, hb.past, by rw [hsaved]; exact hb.saved⟩, fun w mac => ?_⟩
    rw [without_eq_self hne, hsaved, hb.saved]
    rfl
  · have hsaved : (g.start r s router d).saved = [] := by
      rw [Ledger.start]
      by_cases hpass : Date.Passes r s.date d
      · rw [if_pos hpass]
        rfl
      · rw [if_neg hpass] at hmonth
        rw [if_neg hpass, saved_restart]
        exact hmonth hnone
    refine ⟨hsaved, fun _ _ => rfl, ?_⟩
    cases router with
    | true => exact .inl rfl
    | false => exact h.missing hnone

theorem Loop.inv (hn : Names s) (h : Loop r s g b today kept) (router : Bool)
    (hok : StartOk r s g router s.date) :
    Inv r ((s.found router).createFiles s.date) (ledger r s g (.restart router s.date)) ∧
      (MakesBackup s s.date → Right ((s.found router).createFiles s.date)
        (ledger r s g (.restart router s.date))) := by
  have hstart : g.start r s router s.date = g.restart router := if_neg Date.not_passes_self
  obtain ⟨today', hstarted⟩ := h.started hn router fun hrouter =>
    (hok.2 hrouter Date.not_passes_self).imp_right And.right
  have hmonth := hok.1
  rw [if_neg Date.not_passes_self] at hmonth
  refine start_ledger (by rw [hstart]; exact hstarted) (fun f hf => ?_) fun hnone => ?_
  · obtain ⟨b', hb', hwithout⟩ := h.flash f hf
    rw [hstart, saved_restart]
    refine ⟨b', ⟨hb'.lines, hb'.named, hb'.past, by rw [saved_restart]; exact hb'.saved⟩,
      fun w mac => ?_⟩
    rw [hwithout, h.saved]
  · rw [hstart, saved_restart]
    refine ⟨hmonth hnone, fun w mac => ?_, ?_⟩
    · have hsaved := h.saved w mac
      rw [hmonth hnone, usage] at hsaved
      omega
    · cases router with
      | true => exact .inl rfl
      | false =>
        have hdb := hn.db
        rcases Nat.lt_or_ge s.monthlyUsageDB s.date.month with hlt | hge
        · exact .inl (lookup_none_of_names hn.tmp hlt)
        · have heq : s.date.month = s.monthlyUsageDB := by omega
          obtain rfl := (h.missing hnone).resolve_left (Nat.not_lt.mpr hge)
          right
          show s.tmp.lookup _ = _
          rw [heq]
          exact h.month

theorem restart_inv (h : Inv r s g) (hmay : MayStart s d) (router : Bool)
    (hok : StartOk r s g router d) :
    Inv r ((s.found router).createFiles d) (ledger r s g (.restart router d)) ∧
      (MakesBackup s d →
        Right ((s.found router).createFiles d) (ledger r s g (.restart router d))) := by
  cases h with
  | off hphase htmp htmpDaily hflash hflashDaily hg =>
    have hlater : Later r s g d := by
      refine ⟨?_, ?_, ?_, .inl hflash, ?_, ?_, fun _ => .inl ?_⟩ <;>
        simp [htmp, htmpDaily, hflash, hflashDaily, Sorted]
    refine hlater.inv router hok ?_
    rw [Ledger.start, hg]
    split
    · rfl
    · cases router <;> rfl
  | loop hphase hn hloop =>
    have hle : s.date ≤ d := by
      rcases hmay with hoff | ⟨-, ⟨-, hle⟩ | ⟨hnoticed, -⟩⟩
      · cases hphase.symm.trans hoff
      · exact hle
      · cases hphase.symm.trans hnoticed
    rcases Date.eq_or_lt_of_le hle with rfl | hlt
    · exact hloop.inv hn router hok
    · refine (hloop.later hn hlt).inv router hok ?_
      rw [Ledger.start]
      split
      · rfl
      next hpass =>
        cases router with
        | true => rfl
        | false =>
          refine (hok.2 rfl hpass).resolve_right fun ⟨heq, _⟩ => ?_
          exact Date.not_lt_self (heq ▸ hlt)
  | noticed hphase hn hnoticed =>
    have hlt : s.date < d := by
      rcases hmay with hoff | ⟨-, ⟨hloop, -⟩ | ⟨-, hlt⟩⟩
      · cases hphase.symm.trans hoff
      · cases hphase.symm.trans hloop
      · exact hlt
    refine (hnoticed.later hn hlt).inv router hok ?_
    rw [Ledger.start]
    split
    · rfl
    · cases router with
      | true => rfl
      | false => exact hnoticed.fresh

/-- What a step keeps, and the report behind it when it runs `backup.sh`. -/
theorem step_inv (hr : 1 ≤ r ∧ r ≤ 28) (h : Inv r s g) {l : Label} {x : State × Ledger}
    (hok : Ok r (s, g) l) (hx : step r (s, g) l = some x) :
    Inv r x.1 x.2 ∧ (Backs s l → Right x.1 x.2) := by
  obtain ⟨t, ht, rfl⟩ := map_eq_some_iff.mp hx
  have hloop : s.phase = .loop → ∃ b today kept, Names s ∧ Loop r s g b today kept := by
    intro hphase
    cases h with
    | off hoff => cases hphase.symm.trans hoff
    | loop _ hn hloop => exact ⟨_, _, _, hn, hloop⟩
    | noticed hnoticed => cases hphase.symm.trans hnoticed
  cases l with
  | update hosts =>
    simp only [filesStep, ite_none_right_eq_some, some.injEq] at ht
    obtain ⟨⟨hphase, hhosts⟩, rfl⟩ := ht
    obtain ⟨b, today, kept, hn, hfiles⟩ := hloop hphase
    exact ⟨.loop hphase (names_update hn) (hfiles.update hhosts), False.elim⟩
  | setup =>
    simp only [filesStep, ite_none_right_eq_some, some.injEq] at ht
    obtain ⟨hphase, rfl⟩ := ht
    obtain ⟨b, today, kept, hn, hfiles⟩ := hloop hphase
    exact ⟨.loop hphase (names_backup hn) hfiles.setup, fun _ => hfiles.right hn fun _ _ => rfl⟩
  | backup =>
    simp only [filesStep, ite_none_right_eq_some, some.injEq] at ht
    obtain ⟨hphase, rfl⟩ := ht
    obtain ⟨b, today, kept, hn, hfiles⟩ := hloop hphase
    have hn' : Names (s.backup .backup) := names_backup hn
    have hbk : (s.backup .backup).tmp.lookup (bk (s.backup .backup).monthlyUsageDB) = some s.copy :=
      show (s.backup .backup).tmp.lookup (bk s.monthlyUsageDB) = _ from lookup_bk_backup
    exact ⟨.loop hphase (names_cleanup hn') (hfiles.backupRun.cleanup hn'), fun _ =>
      right_cleanup hn' hbk (hfiles.right hn fun _ _ => usage_save)⟩
  | daily =>
    simp only [filesStep, ite_none_right_eq_some, some.injEq] at ht
    obtain ⟨hphase, rfl⟩ := ht
    obtain ⟨b, today, kept, hn, hfiles⟩ := hloop hphase
    have hn' : Names (s.backup .daily) := names_backup hn
    exact ⟨.noticed rfl ⟨hn'.sorted, hn'.tmp, hn'.db, hn'.tmpDaily, hn'.flash, hn'.flashDaily⟩
      hfiles.dailyRun, fun _ => hfiles.right hn fun _ _ => usage_save⟩
  | newDay =>
    simp only [filesStep, ite_none_right_eq_some, some.injEq] at ht
    obtain ⟨hphase, rfl⟩ := ht
    refine ⟨?_, False.elim⟩
    cases h with
    | off hoff => cases hphase.symm.trans hoff
    | loop hl => cases hphase.symm.trans hl
    | noticed _ hn hnoticed =>
      simp only [ledger]
      by_cases hday : s.date.next.day = r
      · rw [if_pos hday]
        exact .loop rfl (names_newDay hn) (loop_rollover hn hday)
      · rw [if_neg hday]
        exact .loop rfl (names_newDay hn) (hnoticed.newDay hr hn hday)
  | restart router d =>
    simp only [filesStep, ite_none_right_eq_some, some.injEq] at ht
    obtain ⟨hmay, rfl⟩ := ht
    exact restart_inv h hmay router hok

theorem inv_of_reaches (hr : 1 ≤ r ∧ r ≤ 28) {x : State × Ledger}
    (h : Reaches (step r) (Ok r) (init d) x) : Inv r x.1 x.2 :=
  h.invariant (P := fun x => Inv r x.1 x.2) (.off rfl rfl rfl rfl rfl rfl)
    fun _ _ _ hs hok ht => (step_inv hr hs hok ht).1

/-- Behind every run of `backup.sh`, the report has what the period has used, once. -/
theorem counted_once (hr : 1 ≤ r ∧ r ≤ 28) {x y : State × Ledger} {l : Label}
    (h : Reaches (step r) (Ok r) (init d) x) (hok : Ok r x l) (hy : step r x l = some y)
    (hbacks : Backs x.1 l) : Right y.1 y.2 :=
  (step_inv hr (inv_of_reaches hr h) hok hy).2 hbacks

instance (r : Nat) (s : State) (g : Ledger) (router : Bool) (d : Date) :
    Decidable (StartOk r s g router d) :=
  inferInstanceAs (Decidable ((if Date.Passes r s.date d then MakesBackup s d
    else MakesBackup s d → g.saved = []) ∧ (router = false → _)))

instance decidableOk (r : Nat) (x : State × Ledger) : (l : Label) → Decidable (Ok r x l)
  | .restart router d => inferInstanceAs (Decidable (StartOk r x.1 x.2 router d))
  | .update _ | .setup | .backup | .daily | .newDay => inferInstanceAs (Decidable True)

def reported (w : Way) (mac : List Char) (s : State) : Option Nat :=
  (newest s.tmp).bind fun month => (s.tmp.lookup (bk month)).bind fun f =>
    (monthly f).map fun reading => usage w mac reading.bw

theorem Right.reported_eq (h : Right s g) : reported w mac s = some (usage w mac g.counted) := by
  obtain ⟨month, f, reading, hnewest, hlookup, hmonthly, husage⟩ := h
  rw [reported, hnewest, bind_some, hlookup, bind_some, hmonthly, map_some,
    husage]

/-- A router that is up from the 14th on, and starts again on the 15th and on the 16th: the update
in front of the first start has not been saved, and the one in front of the day `r` is over. -/
theorem counted_once_over_restarts : ∃ x y,
    Reaches (step 15) (Ok 15) (init ⟨0, 1, by decide⟩) x ∧ step 15 x .backup = some y ∧
      Right y.1 y.2 ∧ reported .down "m".toList y.1 = some 14 := by
  have hrun : (run (guarded (step 15) (Ok 15)) (init ⟨0, 1, by decide⟩)
      [.restart true ⟨0, 14, by decide⟩, .update [⟨"m".toList, 1, 0, 0, 0, [], []⟩], .setup, .daily,
        .newDay, .update [⟨"m".toList, 2, 0, 0, 0, [], []⟩], .backup,
        .update [⟨"m".toList, 4, 0, 0, 0, [], []⟩], .restart true ⟨0, 15, by decide⟩,
        .update [⟨"m".toList, 4, 0, 0, 0, [], []⟩], .backup, .restart false ⟨0, 16, by decide⟩,
        .update [⟨"m".toList, 8, 0, 0, 0, [], []⟩]]).any
      (fun x => decide ((step 15 x .backup).any
        fun y => decide (reported .down "m".toList y.1 = some 14))) = true := by
    decide
  obtain ⟨x, hreaches, hx⟩ := exists_of_run _ hrun
  obtain ⟨y, hy, hreported⟩ := (Option.any_eq_true ..).mp hx
  exact ⟨x, y, hreaches, hy, counted_once (l := .backup) (by decide) hreaches trivial hy trivial,
    of_decide_eq_true hreported⟩

/-- A reboot on the first of the month: there is no month file of February on flash, and the one of
January, with the period since the 15th, goes. -/
theorem not_counted_once : ¬∀ (r : Nat) (d : Date) (x y : State × Ledger) (l : Label),
    1 ≤ r ∧ r ≤ 28 → Reaches (step r) (fun _ _ => True) (init d) x → step r x l = some y →
      Backs x.1 l → Right y.1 y.2 := by
  intro h
  have hrun : (run (guarded (step 15) fun _ _ => True) (init ⟨0, 20, by decide⟩)
      [.restart true ⟨0, 20, by decide⟩, .update [⟨"m".toList, 5, 0, 0, 0, [], []⟩], .backup]).any
      (fun x => decide (MakesBackup x.1 ⟨1, 1, by decide⟩ ∧
        (step 15 x (.restart true ⟨1, 1, by decide⟩)).any fun y =>
          decide (reported .down "m".toList y.1 ≠ some (usage .down "m".toList y.2.counted)))) =
      true := by
    decide
  obtain ⟨x, hreaches, hmakes, hx⟩ := exists_of_run _ hrun
  obtain ⟨y, hy, hne⟩ := (Option.any_eq_true ..).mp hx
  exact of_decide_eq_true hne
    (h 15 _ x y _ (by decide) hreaches hy hmakes).reported_eq

end ModemSupport.Rooter.BwmonTraffic
