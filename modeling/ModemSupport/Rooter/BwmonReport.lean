import Mathlib.Data.Prod.Lex
import ModemSupport.Lib.Directory
import ModemSupport.Lib.Transition
import ModemSupport.Rooter.Bwmon

/-! `create_data.lua` beside the backups of `wrtbwmon.sh`: both go through the same `.bk` file, one
line by line and the other block by block, and what is between them is the lock file of
`/tmp/lockbw`, which the script sets but tests under the name `/tmplockbw`. -/

namespace ModemSupport.Rooter.BwmonReport

open Lib.Directory Lib.Transition Bwmon

/-- A file of `/tmp/bwmon/data`: the file of a month, or the copy that the backups make of it. -/
structure Name where
  month : Nat
  bk : Bool
  deriving DecidableEq

def bk (month : Nat) : Name := ⟨month, true⟩

def js (month : Nat) : Name := ⟨month, false⟩

/-- The order of `ls`: by month, and the copy behind its file. -/
def Name.before (a b : Name) : Bool :=
  a.month < b.month || (a.month == b.month && !a.bk && b.bk)

abbrev Dir := List (Name × List Line)

/-- The `.bk` file that `create_data.lua` takes: the last one that `ls` shows. -/
def newest (dir : Dir) : Option Nat := (((dir.map Prod.fst).filter Name.bk).getLast?).map Name.month

/-- The files that `cleanup.lua` removes: all but the last three. -/
def outdated (dir : Dir) : List Name := (dir.map Prod.fst).take (dir.length - 3)

def size (f : List Line) : Nat := (f.map fun l => l.length + 1).sum

def lineAt : List Line → Nat → Option (Line × Nat)
  | [], _ => none
  | l :: ls, offset =>
    if offset ≤ l.length then some (l.drop offset, l.length + 1 - offset)
    else lineAt ls (offset - (l.length + 1))

/-- The first argument of `backup.sh`. -/
inductive Btype where
  | setup
  | backup
  | daily
  deriving DecidableEq

/-- Where `wrtbwmon.sh` and the scripts that it calls are in `checkSetup`, `shutDown` or
`checkTime`, each named by what it does next. -/
inductive Stage where
  | test
  | set
  | backupDaily
  | truncate
  | blocks (pending : List (List Line))
  | copyDaily
  | startDay
  | dailyLines
  | endDay
  | copyBack
  | remove
  | after
  | unlock
  deriving DecidableEq

inductive Writer where
  | loop
  | call (btype : Btype) (stage : Stage)
  deriving DecidableEq

/-- The file that `create_data.lua` has open. `gone` is one that has been removed since. -/
inductive Handle where
  | bk (month : Nat)
  | gone (content : List Line)
  deriving DecidableEq

/-- Where `create_data.lua` is. What it reports is `none` when there is no `.bk` file. -/
inductive Reader where
  | start
  | locked
  | listed (dataname : Option Nat)
  | reading (file : Handle) (offset : Nat) (r : Reading)
  | read (report : Option Bwdata)
  | written
  | ended
  | failed
  deriving DecidableEq

structure State where
  tmplockbw : Bool
  lockbw : Bool
  dir : Dir
  monthlyUsageDB : Nat
  cDay : List Char
  daily : List Line
  dailyBk : Option (List Line)
  writer : Writer
  reader : Reader
  bwdata : Option (Option Bwdata)

namespace State

def goto (s : State) (btype : Btype) (stage : Stage) : State :=
  { s with writer := .call btype stage }

def file (s : State) (name : Name) : List Line := (s.dir.lookup name).getD []

def write (s : State) (name : Name) (f : List Line) : State :=
  { s with dir := put Name.before name f s.dir }

def copy (s : State) : List Line := s.file (bk s.monthlyUsageDB)

def append (s : State) (ls : List Line) : State := s.write (bk s.monthlyUsageDB) (s.copy ++ ls)

def copyBack (s : State) : State := s.write (js s.monthlyUsageDB) s.copy

/-- The blocks that `backup-mon.lua` is going to write. Without a month file it fails. -/
def pending (s : State) : List (List Line) :=
  match s.dir.lookup (js s.monthlyUsageDB) with
  | none => []
  | some f => backupMon none none f

/-- `rm` leaves the file to the process that has it open. -/
def unlink (s : State) (names : List Name) : Reader :=
  match s.reader with
  | .reading (.bk month) offset r =>
    if bk month ∈ names then .reading (.gone (s.file (bk month))) offset r
    else .reading (.bk month) offset r
  | reader => reader

def rm (s : State) (names : List Name) : State :=
  { s with dir := remove names s.dir, reader := s.unlink names }

def touch (s : State) (name : Name) : State :=
  match s.dir.lookup name with
  | none => s.write name []
  | some _ => s

/-- The next step of a call: `set` and `test` of the lock, `backup-daily.lua`, `backup-mon.lua`, the
rest of `backup.sh`, and `cleanup.lua` behind a `backup`. -/
def writerStep (s : State) (btype : Btype) : Stage → Option State
  | .test => some (if s.tmplockbw then s else s.goto btype .set)
  | .set => some { s.goto btype .backupDaily with lockbw := true }
  | .backupDaily => some { s.goto btype .truncate with dailyBk := Bwmon.backupDaily s.daily }
  | .truncate => some ((s.write (bk s.monthlyUsageDB) []).goto btype (.blocks s.pending))
  | .blocks (b :: bs) => some ((s.append b).goto btype (.blocks bs))
  | .blocks [] => some (s.copyBack.goto btype .copyDaily)
  | .copyDaily => some { s.goto btype .startDay with daily := s.dailyBk.getD s.daily }
  | .startDay => some ((s.append [startDay s.cDay]).goto btype .dailyLines)
  | .dailyLines => some ((s.append (s.dailyBk.getD [])).goto btype .endDay)
  | .endDay =>
    some ((s.append [endDay s.cDay]).goto btype (if btype = .daily then .copyBack else .remove))
  | .copyBack => some (s.copyBack.goto btype .remove)
  | .remove =>
    if btype = .setup then some { s with dailyBk := none, writer := .loop }
    else some { s.goto btype .after with dailyBk := none }
  | .after => if btype = .backup then some ((s.rm (outdated s.dir)).goto btype .unlock) else none
  | .unlock => some { s with lockbw := false, writer := .loop }

/-- The end of `checkTime` on a new day, with the month of the new file when the day is the one of
the rollover. -/
def newDay (s : State) (pDay : List Char) : Option Nat → State
  | none => { s.goto .daily .unlock with daily := [], cDay := pDay }
  | some month =>
    { ((s.rm [js s.monthlyUsageDB]).touch (js month)).goto .daily .unlock with
      daily := []
      cDay := pDay
      monthlyUsageDB := month }

def content (s : State) : Handle → List Line
  | .bk month => s.file (bk month)
  | .gone content => content

def readerStep (s : State) : Option State :=
  match s.reader with
  | .start => some { s with lockbw := true, reader := .locked }
  | .locked => some { s with reader := .listed (newest s.dir) }
  | .listed none => some { s with reader := .read none }
  | .listed (some month) =>
    match s.dir.lookup (bk month) with
    | none => some { s with reader := .failed }
    | some _ => some { s with reader := .reading (.bk month) 0 .start }
  | .reading file offset r =>
    match lineAt (s.content file) offset with
    | none =>
      match r.eof with
      | none => some { s with reader := .failed }
      | some r => some { s with reader := .read (some r.bwdata) }
    | some (l, n) =>
      match r.line l with
      | none => some { s with reader := .failed }
      | some r => some { s with reader := .reading file (offset + n) r }
  | .read report => some { s with bwdata := some report, reader := .written }
  | .written => some { s with lockbw := false, reader := .ended }
  | .ended => none
  | .failed => none

end State

/-- `update` and the calls are made in the main loop of `wrtbwmon.sh`; `sameDay` and `newDay` are
the ways through `checkTime`; `writer` and `reader` are the next steps of the two processes. -/
inductive Label where
  | update (hosts : List Host)
  | call (btype : Btype)
  | sameDay
  | newDay (pDay : List Char) (rollover : Option Nat)
  | writer
  | reader
  deriving DecidableEq

/-- `checkSetup` does not look at the lock. -/
def firstStage (btype : Btype) : Stage := if btype = .setup then .backupDaily else .test

instance (s : List Char) : Decidable (Clean s) :=
  decidable_of_iff ('"' ∉ s ∧ '\n' ∉ s ∧ Lib.Text.find "end day".toList s = none)
    ⟨fun h => ⟨h.1, h.2.1, h.2.2⟩, fun h => ⟨h.quote, h.newline, h.notEnd⟩⟩

instance (h : Host) : Decidable h.WellFormed :=
  decidable_of_iff (Clean h.mac ∧ Clean h.ip ∧ Clean h.name)
    ⟨fun h => ⟨h.1, h.2.1, h.2.2⟩, fun h => ⟨h.mac, h.ip, h.name⟩⟩

def step (s : State) : Label → Option State
  | .update hosts =>
    if s.writer = .loop ∧ ∀ h ∈ hosts, h.WellFormed then
      some { s with daily := s.daily ++ hosts.map Host.line }
    else none
  | .call btype => if s.writer = .loop then some (s.goto btype (firstStage btype)) else none
  | .sameDay =>
    if s.writer = .call .daily .backupDaily then some (s.goto .daily .unlock) else none
  | .newDay pDay rollover =>
    if s.writer = .call .daily .after ∧ '\n' ∉ pDay then some (s.newDay pDay rollover) else none
  | .writer =>
    match s.writer with
    | .loop => none
    | .call btype stage => s.writerStep btype stage
  | .reader => s.readerStep

def Stage.writing : Stage → Bool
  | .blocks _ | .copyDaily | .startDay | .dailyLines | .endDay => true
  | _ => false

def Writer.writing : Writer → Bool
  | .loop => false
  | .call _ stage => stage.writing

/-- No backup is between the truncation of the file and its last line. -/
def State.whole (s : State) : Handle → Bool
  | .bk month => s.monthlyUsageDB ≠ month || !s.writer.writing
  | .gone _ => true

/-- The file that was listed is still there when it is opened, and no backup is writing the file
when its end is read. -/
def State.MayRead (s : State) : Reader → Prop
  | .listed (some month) => (s.dir.lookup (bk month)).isSome = true
  | .reading file offset _ => lineAt (s.content file) offset = none → s.whole file = true
  | _ => True

def Writer.truncates : Writer → Bool
  | .call _ .truncate => true
  | _ => false

/-- No backup truncates the file when lines of it have been read and its end has not. -/
def State.MayWrite (s : State) : Reader → Prop
  | .reading (.bk month) offset _ =>
    s.writer.truncates = true → s.monthlyUsageDB = month → offset = 0
  | _ => True

def Ok (s : State) : Label → Prop
  | .reader => s.MayRead s.reader
  | .writer => s.MayWrite s.reader
  | _ => True

/-- The content of a `.bk` file when no backup was writing it, at or after a time when it was the
newest one. -/
def Kept (ok : State → Label → Prop) (init s : State) (month : Nat) (f : List Line) : Prop :=
  ∃ s₀ s₁, Reaches step ok init s₀ ∧ Reaches step ok s₀ s₁ ∧ Reaches step ok s₁ s ∧
    newest s₀.dir = some month ∧ s₁.dir.lookup (bk month) = some f ∧
    s₁.whole (.bk month) = true

/-- The month that was the newest one at some time. -/
def Listed (ok : State → Label → Prop) (init s : State) (dataname : Option Nat) : Prop :=
  ∃ s₀, Reaches step ok init s₀ ∧ Reaches step ok s₀ s ∧ newest s₀.dir = dataname

/-- What is reported comes from one of the whole files of the run. -/
inductive Faithful (ok : State → Label → Prop) (init s : State) : Option Bwdata → Prop
  | nothing : Listed ok init s none → Faithful ok init s none
  | whole {month : Nat} {f : List Line} {r : Reading} : Kept ok init s month f →
      monthly f = some r → Faithful ok init s (some r.bwdata)

/-- One run of `create_data.lua` has met no runtime error, has written only what comes from a whole
file, and does not go on for ever. -/
structure Report (ok : State → Label → Prop) (init s : State) : Prop where
  running : s.reader ≠ .failed
  faithful : ∀ report, s.bwdata = some report → Faithful ok init s report
  ends : Acc (fun t s => ∃ u, Reaches step ok s u ∧ ok u .reader ∧ step u .reader = some t) s

/-- `wrtbwmon.sh` in its main loop with well-formed files, and `create_data.lua` about to start. -/
structure Init (s : State) : Prop where
  months : ∀ month f, s.dir.lookup (js month) = some f → IsMonth f
  copies : ∀ month f, s.dir.lookup (bk month) = some f → IsMonth f
  daily : IsDaily s.daily
  cDay : '\n' ∉ s.cDay
  writer : s.writer = .loop
  reader : s.reader = .start
  bwdata : s.bwdata = none

end ModemSupport.Rooter.BwmonReport
