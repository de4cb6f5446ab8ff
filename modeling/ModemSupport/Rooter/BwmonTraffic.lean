import ModemSupport.Rooter.BwmonBooks
import ModemSupport.Rooter.BwmonReport

/-! The files of `wrtbwmon.sh` over whole runs: the daily and the monthly file in `/tmp` with the
copy that is reported, their backups on flash, and restarts of the process or of the router. -/

namespace ModemSupport.Rooter.BwmonTraffic

open Lib.Calendar Lib.Directory Lib.Transition Bwmon
open BwmonReport (Name Dir Btype bk js newest outdated)

/-- `noticed` is `checkTime` behind the `daily` backup, when it goes on with the new day. -/
inductive Phase where
  | off
  | loop
  | noticed
  deriving DecidableEq

/-- `date` is `cYear`, `cMonth` and `cDay`; the daily files and `monthlyUsageBack` are named after
it, and `monthlyUsageDB` after its month at the start or at the last rollover. -/
structure State where
  phase : Phase
  date : Date
  monthlyUsageDB : Nat
  tmp : Dir
  tmpDaily : List (Date × List Line)
  flash : List (Nat × List Line)
  flashDaily : List (Date × List Line)

def putMonth (month : Nat) : List Line → List (Nat × List Line) → List (Nat × List Line) :=
  put Nat.blt month

def putDaily (d : Date) : List Line → List (Date × List Line) → List (Date × List Line) :=
  put (fun d e => decide (d < e)) d

/-- `cp -f`, which does nothing without a source. -/
def copyDaily (d : Date) (source : Option (List Line)) (files : List (Date × List Line)) :
    List (Date × List Line) :=
  match source with
  | none => files
  | some f => putDaily d f files

def touchMonth (month : Nat) (tmp : Dir) : Dir :=
  match tmp.lookup (js month) with
  | none => put Name.before (js month) [] tmp
  | some _ => tmp

def touchDaily (d : Date) (files : List (Date × List Line)) : List (Date × List Line) :=
  match files.lookup d with
  | none => putDaily d [] files
  | some _ => files

namespace State

variable (s : State)

/-- `$dailyUsageDB".bk"`, when `backup-daily.lua` has written it. -/
def dailyBk : Option (List Line) := (s.tmpDaily.lookup s.date).bind backupDaily

/-- `$monthlyUsageDB".bk"` behind `backup-mon.lua`. -/
def monthBk : List Line :=
  (backupMon none none ((s.tmp.lookup (js s.monthlyUsageDB)).getD [])).flatten

def copy : List Line :=
  s.monthBk ++ startDay (cDay s.date) :: (s.dailyBk.getD [] ++ [endDay (cDay s.date)])

def backup (btype : Btype) : State :=
  { s with
    tmp := put Name.before (bk s.monthlyUsageDB) s.copy
      (put Name.before (js s.monthlyUsageDB) (if btype = .daily then s.copy else s.monthBk) s.tmp)
    tmpDaily := copyDaily s.date s.dailyBk s.tmpDaily
    flash := if btype = .setup then s.flash else putMonth s.date.month s.copy s.flash
    flashDaily :=
      if btype = .backup then copyDaily s.date s.dailyBk s.flashDaily else s.flashDaily }

/-- `cleanup.lua`: the last three month files of each directory are kept. -/
def cleanup : State :=
  { s with
    tmp := remove (outdated s.tmp) s.tmp
    flash := remove ((s.flash.map Prod.fst).take (s.flash.length - 3)) s.flash }

def shutDown : State := (s.backup .backup).cleanup

def createDaily : State :=
  match s.flashDaily.lookup s.date with
  | none =>
    { s with tmpDaily := touchDaily s.date s.tmpDaily, flashDaily := [(s.date, [])] }
  | some f => { s with tmpDaily := putDaily s.date f s.tmpDaily }

def createMonthly : State :=
  match s.flash.lookup s.date.month with
  | some f =>
    { s with
      tmp := put Name.before (bk s.monthlyUsageDB) f
        (put Name.before (js s.monthlyUsageDB)
          (sed (startDay (cDay s.date)) (endDay (cDay s.date)) false f) s.tmp) }
  | none =>
    { s with
      tmp := touchMonth s.monthlyUsageDB s.tmp
      flash := [(s.date.month, [])] : State }.backup .backup

def start (d : Date) : State :=
  { s with phase := .loop, date := d, monthlyUsageDB := d.month : State }

def createFiles (d : Date) : State := (s.start d).createDaily.createMonthly

/-- What is left of the files when the router starts again. -/
def lose : State := { s with tmp := [], tmpDaily := [] }

/-- The month files that `checkTime` leaves on flash on the day `d`. -/
def keptMonths (r : Nat) (d : Date) : List (Nat × List Line) :=
  if d.day = r ∨ s.flash.lookup d.month = none then [] else s.flash

def newDay (r : Nat) : State :=
  { phase := .loop
    date := s.date.next
    monthlyUsageDB := if s.date.next.day = r then s.date.next.month else s.monthlyUsageDB
    tmp :=
      if s.date.next.day = r then touchMonth s.date.next.month (remove [js s.monthlyUsageDB] s.tmp)
      else s.tmp
    tmpDaily := [(s.date.next, [])]
    flash := s.keptMonths r s.date.next
    flashDaily := [] }

/-- The lines that `update` appends, which say 0 for the time outside the peak. -/
def update (hosts : List Host) : State :=
  { s with
    tmpDaily := putDaily s.date
      ((s.tmpDaily.lookup s.date).getD [] ++ (hosts.map Host.written).map Host.line) s.tmpDaily }

end State

/-- What a run does: `setup`, `backup` and `daily` are the runs of `backup.sh` from `checkSetup`,
`shutDown` and `checkTime`, and `restart` is a start on a date, of the router or of the process. -/
inductive Label where
  | update (hosts : List Host)
  | setup
  | backup
  | daily
  | newDay
  | restart (router : Bool) (d : Date)

/-- A start is the first one, or less than a month after the last date. Behind the `daily` backup
of a day, that day is over. -/
def MayStart (s : State) (d : Date) : Prop :=
  s.phase = .off ∨ s.date.Soon d ∧
    (s.phase = .loop ∧ s.date ≤ d ∨ s.phase = .noticed ∧ s.date < d)

instance (s : State) (d : Date) : Decidable (MayStart s d) :=
  inferInstanceAs (Decidable (_ ∨ _))

/-- The amounts that a run has appended since day `r` was last passed: those that a `backup` or
`daily` run has saved, and those that came later. -/
structure Ledger where
  saved : List Host
  fresh : List Host

namespace Ledger

def empty : Ledger := ⟨[], []⟩

def append (g : Ledger) (hosts : List Host) : Ledger := ⟨g.saved, g.fresh ++ hosts⟩

def save (g : Ledger) : Ledger := ⟨g.saved ++ g.fresh, []⟩

def counted (g : Ledger) : List Host := g.saved ++ g.fresh

/-- A reboot is what loses the amounts that have not been saved. -/
def restart (g : Ledger) (router : Bool) : Ledger := if router then ⟨g.saved, []⟩ else g

end Ledger

def MakesBackup (s : State) (d : Date) : Prop := s.flash.lookup d.month = none

instance (s : State) (d : Date) : Decidable (MakesBackup s d) :=
  inferInstanceAs (Decidable (s.flash.lookup d.month = none))

def Ledger.start (r : Nat) (s : State) (g : Ledger) (router : Bool) (d : Date) : Ledger :=
  if Date.Passes r s.date d then .empty else g.restart router

def ledger (r : Nat) (s : State) (g : Ledger) : Label → Ledger
  | .update hosts => g.append (hosts.map Host.written)
  | .setup => g
  | .backup | .daily => g.save
  | .newDay => if s.date.next.day = r then .empty else g
  | .restart router d =>
    if MakesBackup s d then (g.start r s router d).save else g.start r s router d

instance (h : Host) : Decidable h.Named :=
  decidable_of_iff (h.WellFormed ∧ Lib.Text.find "start day".toList h.mac = none ∧
      Lib.Text.find "start day".toList h.ip = none ∧ Lib.Text.find "start day".toList h.name = none)
    ⟨fun h => ⟨h.1, h.2.1, h.2.2.1, h.2.2.2⟩,
      fun h => ⟨h.toWellFormed, h.macStart, h.ipStart, h.nameStart⟩⟩

def filesStep (r : Nat) (s : State) : Label → Option State
  | .update hosts =>
    if s.phase = .loop ∧ ∀ h ∈ hosts, h.Named then some (s.update hosts) else none
  | .setup => if s.phase = .loop then some (s.backup .setup) else none
  | .backup => if s.phase = .loop then some s.shutDown else none
  | .daily => if s.phase = .loop then some { s.backup .daily with phase := .noticed } else none
  | .newDay => if s.phase = .noticed then some (s.newDay r) else none
  | .restart router d =>
    if MayStart s d then some ((if router then s.lose else s).createFiles d) else none

def step (r : Nat) (s : State × Ledger) (l : Label) : Option (State × Ledger) :=
  (filesStep r s.1 l).map fun t => (t, ledger r s.1 s.2 l)

def init (d : Date) : State × Ledger :=
  (⟨.off, d, 0, [], [], [], []⟩, .empty)

/-- The step runs `backup.sh`. -/
def Backs (s : State) : Label → Prop
  | .setup | .backup | .daily => True
  | .restart _ d => MakesBackup s d
  | .update _ | .newDay => False

/-- The sums that `create_data.lua` makes from the newest `.bk` file are those of the ledger. -/
def Right (s : State) (g : Ledger) : Prop :=
  ∃ month f reading, newest s.tmp = some month ∧ s.tmp.lookup (bk month) = some f ∧
    monthly f = some reading ∧ ∀ w mac, usage w mac reading.bw = usage w mac g.counted

/-- A start on `d` finds on flash what the period has saved: the month file is there when day `r`
has not been passed since, and not there when it has, and a start of the process alone loses
nothing that has not been saved. -/
def StartOk (r : Nat) (s : State) (g : Ledger) (router : Bool) (d : Date) : Prop :=
  (if Date.Passes r s.date d then MakesBackup s d else MakesBackup s d → g.saved = []) ∧
    (router = false → ¬Date.Passes r s.date d → g.fresh = [] ∨
      d = s.date ∧ s.flashDaily.lookup d = none)

def Ok (r : Nat) (s : State × Ledger) : Label → Prop
  | .restart router d => StartOk r s.1 s.2 router d
  | _ => True

end ModemSupport.Rooter.BwmonTraffic
