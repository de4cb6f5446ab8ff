import Mathlib.Algebra.GroupWithZero.Nat
import ModemSupport.Lib.Fields

/-! The files of bwmon and the scripts that read them: the lines that `wrtbwmon.sh` writes for the
hosts, `backup-daily.lua` and `backup-mon.lua`, which add up the lines of a day, and the sums that
`create_data.lua` reports. A file is the list of its lines, a `Char` stands for a byte, and the
amounts are kilobytes below `10 ^ 14`, up to which Lua writes a number with all its digits. -/

namespace ModemSupport.Rooter.Bwmon

open Lib.Text Lib.Fields List Option

abbrev Line := List Char

structure Host where
  mac : List Char
  down : Nat
  up : Nat
  offdown : Nat
  offup : Nat
  ip : List Char
  name : List Char
  deriving DecidableEq

def Host.fields (h : Host) : List (List Char × List Char) :=
  [("mac".toList, h.mac), ("down".toList, dec h.down), ("up".toList, dec h.up),
    ("offdown".toList, dec h.offdown), ("offup".toList, dec h.offup), ("ip".toList, h.ip),
    ("name".toList, h.name)]

def Host.line (h : Host) : Line := text h.fields

/-- The Lua scripts drop the amounts outside the peak when they write a host. -/
def Host.written (h : Host) : Host := { h with offdown := 0, offup := 0 }

def Host.dline (h : Host) : Line := h.written.line

def startDay (cDay : List Char) : Line := "start day".toList ++ ' ' :: cDay

def endDay (cDay : List Char) : Line := "end day".toList ++ ' ' :: cDay

def isStart (l : Line) : Bool := (find "start day".toList l).isSome

def isEnd (l : Line) : Bool := (find "end day".toList l).isSome

def tonumber (s : List Char) : Option Nat :=
  if s ≠ [] ∧ s.all Char.isDigit then some (Nat.ofDigitChars 10 s 0) else none

def number (k : List Char) (l : Line) : Option Nat := (value k l).bind tonumber

/-- The values that the Lua loops take from a line. `none` is a runtime error: arithmetic on the
`nil` that `find` or `tonumber` returned. -/
def parse (l : Line) : Option Host :=
  (value "mac".toList l).bind fun mac =>
  (number "down".toList l).bind fun down =>
  (number "up".toList l).bind fun up =>
  (number "offdown".toList l).bind fun offdown =>
  (number "offup".toList l).bind fun offup =>
  (value "ip".toList l).bind fun ip =>
  (value "name".toList l).bind fun name =>
  some ⟨mac, down, up, offdown, offup, ip, name⟩

def Host.plus (g h : Host) : Host :=
  { g with
    down := g.down + h.down
    up := g.up + h.up
    offdown := g.offdown + h.offdown
    offup := g.offup + h.offup
    ip := h.ip
    name := h.name }

/-- The tables `maclist` and `bw` of the Lua loops with one more line: its amounts are added to
those of its MAC address, which is put behind the others when it is new. -/
def add (bw : List Host) (h : Host) : List Host :=
  match bw with
  | [] => [h]
  | g :: bw => if g.mac = h.mac then g.plus h :: bw else g :: add bw h

def backupDaily (daily : List Line) : Option (List Line) :=
  (daily.mapM parse).map fun hosts => (hosts.foldl add []).map Host.dline

/-- The blocks that `backup-mon.lua` appends one by one. `day` is the block that is being read, and
`endday` the end line read last, which closes a block that the file leaves open. -/
def backupMon (endday : Option Line) (day : Option (Line × List Host)) :
    List Line → List (List Line)
  | [] =>
    match day with
    | none => []
    | some (startday, bw) => [startday :: (bw.map Host.dline ++ endday.toList)]
  | l :: ls =>
    match day with
    | none => if isStart l then backupMon endday (some (l, [])) ls else backupMon endday none ls
    | some (startday, bw) =>
      if isEnd l then (startday :: (bw.map Host.dline ++ [l])) :: backupMon (some l) none ls
      else
        match parse l with
        | none => []
        | some h => backupMon endday (some (startday, add bw h)) ls

/-- `monthly` of `create_data.lua` between two lines: whether it is in the loop over a day. -/
structure Reading where
  inDay : Bool
  dayx : Nat
  bw : List Host
  deriving DecidableEq

def Reading.start : Reading := ⟨false, 0, []⟩

def Reading.line (r : Reading) (l : Line) : Option Reading :=
  if r.inDay then
    if isEnd l then some { r with inDay := false }
    else (parse l).map fun h => { r with bw := add r.bw h }
  else if isStart l then some { r with inDay := true, dayx := r.dayx + 1 }
  else some r

/-- The loop over a day does not expect the end of the file: `line:find` on `nil`. -/
def Reading.eof (r : Reading) : Option Reading := if r.inDay then none else some r

def monthly (datafile : List Line) : Option Reading :=
  (datafile.foldlM Reading.line .start).bind Reading.eof

structure Device where
  ip : List Char
  mac : List Char
  down : Nat
  up : Nat
  dtot : Nat
  name : List Char
  deriving DecidableEq

structure Bwdata where
  days : Nat
  total : Nat
  totaldown : Nat
  totalup : Nat
  devices : List Device
  deriving DecidableEq

def Reading.bwdata (r : Reading) : Bwdata where
  days := r.dayx
  total := (r.bw.map Host.up).sum + (r.bw.map Host.down).sum
  totaldown := (r.bw.map Host.down).sum
  totalup := (r.bw.map Host.up).sum
  devices := r.bw.map fun h => ⟨h.ip, h.mac, h.down, h.up, h.down + h.up, h.name⟩

/-- A text that stands between two quotes of a line and does not look like the end of a day. -/
structure Clean (s : List Char) : Prop where
  quote : '"' ∉ s
  newline : '\n' ∉ s
  notEnd : find "end day".toList s = none

structure Host.WellFormed (h : Host) : Prop where
  mac : Clean h.mac
  ip : Clean h.ip
  name : Clean h.name

structure Day where
  cDay : List Char
  hosts : List Host

def Day.lines (d : Day) : List Line :=
  startDay d.cDay :: (d.hosts.map Host.line ++ [endDay d.cDay])

structure Day.WellFormed (d : Day) : Prop where
  newline : '\n' ∉ d.cDay
  hosts : ∀ h ∈ d.hosts, h.WellFormed

def IsMonth (f : List Line) : Prop :=
  ∃ days : List Day, (∀ d ∈ days, d.WellFormed) ∧ f = days.flatMap Day.lines

def IsDaily (f : List Line) : Prop :=
  ∃ hosts : List Host, (∀ h ∈ hosts, h.WellFormed) ∧ f = hosts.map Host.line

variable {h : Host} {hosts bw : List Host} {d : Day} {r : Reading} {f : List Line}

theorem isStart_startDay {cDay : List Char} : isStart (startDay cDay) = true := by
  have hfind := find_append_self (n := "start day".toList) (b := ' ' :: cDay)
  unfold isStart startDay
  rw [hfind, isSome_some]

theorem isEnd_endDay {cDay : List Char} : isEnd (endDay cDay) = true := by
  have hfind := find_append_self (n := "end day".toList) (b := ' ' :: cDay)
  unfold isEnd endDay
  rw [hfind, isSome_some]

theorem tonumber_dec {n : Nat} : tonumber (dec n) = some n := by
  have hdigits : (dec n).all Char.isDigit = true :=
    List.all_eq_true.mpr fun _ hc => isDigit_of_mem_dec hc
  rw [tonumber, if_pos ⟨dec_ne_nil, hdigits⟩]
  simp [dec]

theorem find_dec {n : Nat} : find "end day".toList (dec n) = none := by
  cases hfind : find "end day".toList (dec n) with
  | none => rfl
  | some r =>
    have hmem : 'e' ∈ dec n := by
      rw [append_of_find hfind]
      apply mem_append_right
      exact mem_cons_self
    exact absurd (isDigit_of_mem_dec hmem) (by decide)

theorem fields_isKey (hh : h.WellFormed) : ∀ x ∈ h.fields, IsKey x.1 ∧ '"' ∉ x.2 := by
  have hdec : ∀ n : Nat, '"' ∉ dec n := fun _ => notMem_dec (by decide)
  simp only [Host.fields, forall_mem_cons, not_mem_nil, IsEmpty.forall_iff,
    implies_true, and_true]
  refine ⟨⟨?_, hh.mac.quote⟩, ⟨?_, hdec _⟩, ⟨?_, hdec _⟩, ⟨?_, hdec _⟩, ⟨?_, hdec _⟩,
    ⟨?_, hh.ip.quote⟩, ⟨?_, hh.name.quote⟩⟩ <;> exact ⟨by decide, by decide, by decide⟩

theorem parse_line (hh : h.WellFormed) : parse h.line = some h := by
  have hvalue : ∀ k, IsKey k → value k h.line = (h.fields.find? fun x => x.1 = k).map Prod.snd :=
    fun _ hk => value_text hk (fields_isKey hh)
  have hmac : value "mac".toList h.line = some h.mac :=
    hvalue _ ⟨by decide, by decide, by decide⟩
  have hdown : value "down".toList h.line = some (dec h.down) :=
    hvalue _ ⟨by decide, by decide, by decide⟩
  have hup : value "up".toList h.line = some (dec h.up) :=
    hvalue _ ⟨by decide, by decide, by decide⟩
  have hoffdown : value "offdown".toList h.line = some (dec h.offdown) :=
    hvalue _ ⟨by decide, by decide, by decide⟩
  have hoffup : value "offup".toList h.line = some (dec h.offup) :=
    hvalue _ ⟨by decide, by decide, by decide⟩
  have hip : value "ip".toList h.line = some h.ip := hvalue _ ⟨by decide, by decide, by decide⟩
  have hname : value "name".toList h.line = some h.name :=
    hvalue _ ⟨by decide, by decide, by decide⟩
  rw [parse, number, number, number, number, hmac, hdown, hup, hoffdown, hoffup, hip, hname]
  simp only [bind_some, tonumber_dec]

theorem isEnd_line (hh : h.WellFormed) : isEnd h.line = false := by
  have hline : find "end day".toList h.line = none := by
    apply find_text (n := "end day".toList) ⟨by decide, by decide, by decide⟩ (by decide)
    simp only [Host.fields, forall_mem_cons, not_mem_nil, IsEmpty.forall_iff,
      implies_true, and_true, find_dec, hh.mac.notEnd, hh.ip.notEnd, hh.name.notEnd]
    decide
  rw [isEnd, hline]
  rfl

theorem Host.WellFormed.written (hh : h.WellFormed) : h.written.WellFormed :=
  ⟨hh.mac, hh.ip, hh.name⟩

theorem Host.WellFormed.plus {g : Host} (hg : g.WellFormed) (hh : h.WellFormed) :
    (g.plus h).WellFormed :=
  ⟨hg.mac, hh.ip, hh.name⟩

theorem forall_add {P : Host → Prop} (hplus : ∀ g h, P g → P h → P (g.plus h))
    (hbw : ∀ g ∈ bw, P g) (hh : P h) : ∀ g ∈ add bw h, P g := by
  induction bw with
  | nil => simpa [add] using hh
  | cons g bw ih =>
    rw [forall_mem_cons] at hbw
    rw [add]
    split
    next =>
      rw [forall_mem_cons]
      exact ⟨hplus g h hbw.1 hh, hbw.2⟩
    next =>
      rw [forall_mem_cons]
      exact ⟨hbw.1, ih hbw.2⟩

theorem forall_foldl_add {P : Host → Prop} (hplus : ∀ g h, P g → P h → P (g.plus h))
    (hbw : ∀ g ∈ bw, P g) (hhosts : ∀ h ∈ hosts, P h) : ∀ g ∈ hosts.foldl add bw, P g := by
  induction hosts generalizing bw with
  | nil => exact hbw
  | cons h hosts ih =>
    rw [forall_mem_cons] at hhosts
    exact ih (forall_add hplus hbw hhosts.1) hhosts.2

def compact (hosts : List Host) : List Host := (hosts.foldl add []).map Host.written

theorem forall_compact {P : Host → Prop} (hplus : ∀ g h, P g → P h → P (g.plus h))
    (hwritten : ∀ h, P h → P h.written) (hhosts : ∀ h ∈ hosts, P h) :
    ∀ h ∈ compact hosts, P h := by
  intro h hh
  obtain ⟨g, hg, rfl⟩ := List.mem_map.mp hh
  exact hwritten g (forall_foldl_add hplus (by simp) hhosts g hg)

theorem wellFormed_compact (hhosts : ∀ h ∈ hosts, h.WellFormed) :
    ∀ h ∈ compact hosts, h.WellFormed :=
  forall_compact (fun _ _ hg hh => hg.plus hh) (fun _ hh => hh.written) hhosts

theorem map_dline : (hosts.foldl add []).map Host.dline = (compact hosts).map Host.line := by
  rw [compact, List.map_map]
  rfl

theorem backupDaily_lines (hhosts : ∀ h ∈ hosts, h.WellFormed) :
    backupDaily (hosts.map Host.line) = some ((compact hosts).map Host.line) := by
  have hparse : (hosts.map Host.line).mapM parse = some hosts := by
    induction hosts with
    | nil => rfl
    | cons h hosts ih =>
      rw [forall_mem_cons] at hhosts
      rw [map_cons, mapM_cons, parse_line hhosts.1, ih hhosts.2]
      rfl
  rw [backupDaily, hparse, ← map_dline]
  rfl

def Day.compact (d : Day) : Day := { d with hosts := Bwmon.compact d.hosts }

theorem Day.WellFormed.compact (hd : d.WellFormed) : d.compact.WellFormed :=
  ⟨hd.newline, wellFormed_compact hd.hosts⟩

theorem backupMon_day {e : Option Line} {startday : Line} {cDay : List Char} {rest : List Line}
    (hhosts : ∀ h ∈ hosts, h.WellFormed) :
    backupMon e (some (startday, bw)) (hosts.map Host.line ++ endDay cDay :: rest) =
      (startday :: ((hosts.foldl add bw).map Host.dline ++ [endDay cDay])) ::
        backupMon (some (endDay cDay)) none rest := by
  induction hosts generalizing bw with
  | nil =>
    rw [map_nil, nil_append, backupMon]
    simp only [isEnd_endDay, if_true, foldl_nil]
  | cons h hosts ih =>
    rw [forall_mem_cons] at hhosts
    rw [map_cons, cons_append, backupMon]
    simp only [isEnd_line hhosts.1, parse_line hhosts.1, Bool.false_eq_true, if_false]
    exact ih hhosts.2

theorem backupMon_lines {e : Option Line} {days : List Day} (hdays : ∀ d ∈ days, d.WellFormed) :
    backupMon e none (days.flatMap Day.lines) = days.map fun d => d.compact.lines := by
  induction days generalizing e with
  | nil => rfl
  | cons d days ih =>
    rw [forall_mem_cons] at hdays
    rw [flatMap_cons, Day.lines, cons_append, backupMon]
    simp only [isStart_startDay, if_true]
    rw [append_assoc, singleton_append, backupMon_day hdays.1.hosts, ih hdays.2,
      map_dline]
    rfl

theorem foldlM_hosts (hr : r.inDay = true) (hhosts : ∀ h ∈ hosts, h.WellFormed) :
    (hosts.map Host.line).foldlM Reading.line r = some { r with bw := hosts.foldl add r.bw } := by
  induction hosts generalizing r with
  | nil => rfl
  | cons h hosts ih =>
    rw [forall_mem_cons] at hhosts
    have hline : r.line h.line = some { r with bw := add r.bw h } := by
      rw [Reading.line, if_pos hr, if_neg (by simp [isEnd_line hhosts.1]), parse_line hhosts.1]
      rfl
    rw [map_cons, foldlM_cons, hline]
    exact ih hr hhosts.2

theorem foldlM_day (hr : r.inDay = false) (hd : d.WellFormed) :
    d.lines.foldlM Reading.line r =
      some { r with dayx := r.dayx + 1, bw := d.hosts.foldl add r.bw } := by
  have hstart : r.line (startDay d.cDay) = some { r with inDay := true, dayx := r.dayx + 1 } := by
    rw [Reading.line, if_neg (by simp [hr]), if_pos isStart_startDay]
  rw [Day.lines, foldlM_cons, hstart, bind_eq_bind, bind_some,
    foldlM_append, foldlM_hosts rfl hd.hosts, bind_eq_bind, bind_some,
    foldlM_cons, Reading.line, if_pos rfl, if_pos isEnd_endDay]
  simp [hr]

theorem foldlM_month {days : List Day} (hr : r.inDay = false) (hdays : ∀ d ∈ days, d.WellFormed) :
    (days.flatMap Day.lines).foldlM Reading.line r =
      some ⟨false, r.dayx + days.length, (days.flatMap Day.hosts).foldl add r.bw⟩ := by
  induction days generalizing r with
  | nil => simp [← hr]
  | cons d days ih =>
    rw [forall_mem_cons] at hdays
    have hrest := ih (r := ⟨r.inDay, r.dayx + 1, d.hosts.foldl add r.bw⟩) hr hdays.2
    rw [flatMap_cons, foldlM_append, foldlM_day hr hdays.1, bind_eq_bind,
      bind_some, hrest, flatMap_cons, foldl_append, length_cons]
    simp only [some.injEq, Reading.mk.injEq, true_and, and_true]
    omega

theorem monthly_month {days : List Day} (hdays : ∀ d ∈ days, d.WellFormed) :
    monthly (days.flatMap Day.lines) =
      some ⟨false, days.length, (days.flatMap Day.hosts).foldl add []⟩ := by
  rw [monthly, foldlM_month rfl hdays, bind_some, Reading.eof, if_neg (by simp)]
  simp [Reading.start]

end ModemSupport.Rooter.Bwmon
