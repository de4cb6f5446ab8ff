import Mathlib.Data.Rat.Floor
import ModemSupport.Lib.Text

/-! The list of messages of `ext-sms`: `smsread.lua` writes it, and `merge.lua` reads it and puts
the parts of long messages together.  A string is its bytes, each as the character of its code. -/

namespace ModemSupport.Rooter.SmsFile

open Lib.Text

abbrev Str := List Char

local instance lawfulBEqStr : LawfulBEq Str := inferInstanceAs (LawfulBEq (List Char))

def isxdigit (c : Char) : Bool :=
  c.isDigit || 'a' ≤ c && c ≤ 'f' || 'A' ≤ c && c ≤ 'F'

def xdigit (c : Char) : Nat :=
  if c.isDigit then c.toNat - 48 else if 'a' ≤ c then c.toNat - 87 else c.toNat - 55

def exponent : Str → Option Int
  | [] => some 0
  | e :: s =>
    if e = 'e' ∨ e = 'E' then
      let (sign, ds) : Int × Str :=
        match s with
        | '-' :: ds => (-1, ds)
        | '+' :: ds => (1, ds)
        | ds => (1, ds)
      if ds ≠ [] ∧ ds.all Char.isDigit then some (sign * Nat.ofDigitChars 10 ds 0) else none
    else none

def decimal (s : Str) : Option Rat :=
  let int := s.takeWhile Char.isDigit
  let (frac, rest) :=
    match s.dropWhile Char.isDigit with
    | '.' :: s => (s.takeWhile Char.isDigit, s.dropWhile Char.isDigit)
    | s => ([], s)
  if int = [] ∧ frac = [] then none
  else
    (exponent rest).map fun e => Nat.ofDigitChars 10 (int ++ frac) 0 * 10 ^ (e - frac.length : Int)

def unsigned : Str → Option Rat
  | '0' :: x :: hs =>
    if x = 'x' ∨ x = 'X' then
      if hs ≠ [] ∧ hs.all isxdigit then some (hs.foldl (fun n h => 16 * n + xdigit h) 0 : Nat)
      else none
    else decimal ('0' :: x :: hs)
  | s => decimal s

def trim (s : Str) : Str := ((s.dropWhile isspace).reverse.dropWhile isspace).reverse

/-- `tonumber` of a string: a decimal number with an optional fraction and exponent, or a
hexadecimal one, with blanks around it. -/
def tonumber (s : Str) : Option Rat :=
  match trim s with
  | '-' :: s => (unsigned s).map fun x => -x
  | '+' :: s => unsigned s
  | s => unsigned s

/-- `tostring` of a whole number: `%.14g`. -/
def tostring (n : Nat) : Str :=
  if n < 10 ^ 14 then dec n
  else
    let e := (dec n).length - 1
    let unit := 10 ^ (e - 13)
    let q := n / unit
    let q := if 2 * (n % unit) > unit ∨ 2 * (n % unit) = unit ∧ q % 2 = 1 then q + 1 else q
    let (q, e) := if q = 10 ^ 14 then (10 ^ 13, e + 1) else (q, e)
    let ds := ((dec q).reverse.dropWhile (· == '0')).reverse
    ds.take 1 ++ (if ds.length = 1 then [] else '.' :: ds.drop 1) ++ ['e', '+'] ++ dec e

/-- `m_read`: the marks of a message that is new, of one that has been so before, and of others. -/
inductive Mark where
  | fresh
  | kept
  | read

def Mark.str : Mark → Str
  | .fresh => ['\xe2', '\x9a', '\x91', '\xe2', '\x9a', '\x91']
  | .kept => [' ', '\xe2', '\x9a', '\x91']
  | .read => [' ', '\xe2', '\x9c', '\x93']

/-- What `concatinfo` finds: the number of the message, and the place of the part among all. -/
structure Concat where
  msgnum : UInt16
  msgord : UInt8
  msgmax : UInt8

def Concat.str (c : Concat) : Str :=
  ['M', 's', 'g', '#', ' '] ++ dec c.msgnum.toNat ++ [','] ++ dec c.msgord.toNat ++ ['/'] ++
    dec c.msgmax.toNat

/-- A date or a time: digits, and what stands between them. -/
structure Stamp where
  str : Str
  plain : ∀ c ∈ str, c.isDigit ∨ c = '-' ∨ c = ':'

structure Message where
  index : Nat
  read : Mark
  number : Str
  date : Stamp
  time : Stamp
  concat : Option Concat
  text : Str
  oneLine : '\n' ∉ number

/-- `m_text` behind `readpdu`. -/
def Message.mtxt (m : Message) : Str :=
  match m.concat with
  | none => m.text
  | some c => c.str ++ '\n' :: m.text

def stxt : Nat → Str → Str
  | 0, _ => []
  | _, [] => []
  | j + 1, ch :: s =>
    if ch = '\n' ∨ ch = '\r' then ' ' :: stxt j s
    else if ch.toNat < 127 then ch :: stxt j s
    else if ch.toNat < 0xe0 then ch :: s.take 1 ++ stxt j (s.drop 1)
    else if ch.toNat < 0xf0 then ch :: s.take 2 ++ stxt j (s.drop 2)
    else ch :: s.take 3 ++ stxt j (s.drop 3)

def Message.short (m : Message) : Str :=
  m.read.str ++ [' '] ++ (m.number ++ List.replicate 20 ' ').take 20 ++ m.date.str ++ [' '] ++
    m.time.str ++ [' ', ' '] ++ stxt 20 m.mtxt ++
    if m.mtxt = stxt 20 m.mtxt then [] else [' ', ' ', '.', '.', '.']

def ocount (s : Str) : Nat := s.count '\n'

/-- A count as it stands in the answer of the modem. -/
structure Line where
  str : Str
  oneLine : '\n' ∉ str

def writeln (s rest : Str) : Str := s ++ '\n' :: rest

def Message.write (m : Message) (rest : Str) : Str :=
  writeln (dec m.index) (writeln m.number (writeln (dec (ocount m.mtxt + 1))
    (writeln m.mtxt (writeln m.short rest))))

def smsread (used max : Line) (msgs : List Message) : Str :=
  writeln used.str (writeln max.str
    (if tonumber used.str = some 0 then [] else msgs.foldr Message.write []))

structure Record where
  slot : Str
  phone : Str
  nline : Str
  msgnum : Str
  msgord : Str
  msgmax : Str
  msg : Str
  short : Str

def xxx : Str := ['x', 'x', 'x']

/-- The first line of a text, with the number, the place and the count of a long message before
it.  A missing character is an error, as arithmetic on nil is, and so is a missing line. -/
def readHead (line : Str) (rest : List Str) : Option ((Str × Str × Str) × Str × List Str) :=
  match find ['M', 's', 'g', '#', ' '] line with
  | none => some ((xxx, xxx, xxx), line, rest)
  | some (_, s) => do
    let (msgnum, s) ← find [','] s
    let (msgord, msgmax) ← find ['/'] s
    let line ← rest.head?
    some ((msgnum, msgord, msgmax), line, rest.tail)

/-- The loop over the lines behind the first.  `whole` says that the last index of the loop is its
limit. -/
def readText (whole : Bool) : Nat → Str → List Str → Option (Str × List Str)
  | 0, msg, rest => some (msg, rest)
  | _ + 1, _, [] => none
  | k + 1, msg, line :: rest =>
    let sep := if line = [] ∧ k = 0 ∧ whole then ['\n', '\n'] else ['\n']
    readText whole k (msg ++ sep ++ line) rest

/-- The last line without the number of a long message. -/
def cutShort (sht : Str) : Option Str :=
  match find ['M', 's', 'g', '#'] sht with
  | none => some sht
  | some (shtt, s) => (find ['/'] s).map fun r => shtt ++ r.2.drop 1

def readRecord (slot : Str) (rest : List Str) : Option (Record × List Str) :=
  match rest with
  | phone :: nline :: line :: rest => do
    let ((msgnum, msgord, msgmax), line, rest) ← readHead line rest
    let nc ← tonumber nline
    let (msg, rest) ← readText (nc.isInt) ⌊nc - 2⌋.toNat line rest
    let sht ← rest.head?
    let short ← cutShort sht
    some (⟨slot, phone, nline, msgnum, msgord, msgmax, msg, short⟩, rest.tail)
  | _ => none

abbrev Overall := Str → Option Record

def Overall.insert (o : Overall) (r : Record) : Overall :=
  fun key => if key = r.slot then some r else o key

/-- The loop that reads the records; each takes a line, so that as many rounds as there are lines
are enough. -/
def readRecords : Nat → List Str → Overall → Rat → Option (Overall × Rat)
  | _, [], o, maxslot => some (o, maxslot)
  | 0, _ :: _, _, _ => none
  | fuel + 1, line :: rest, o, maxslot => do
    let (r, rest) ← readRecord line rest
    let slot ← tonumber r.slot
    readRecords fuel rest (o.insert r) (max maxslot slot)

/-- What is written for a slot: the slots that have been put together, and the other lines. -/
structure Output where
  slots : List Str
  phone : Str
  nline : Str
  msg : Str
  short : Str
  deriving DecidableEq

/-- `msgbuild` and `shortmsg`: the part that has been stored last for a place. -/
def partAt (parts : List Record) (j : Nat) : Option Record :=
  parts.reverse.find? fun r => r.msgord = tostring j

def cutEnd (msg : Str) : Str :=
  if ['\n', '\n'].isSuffixOf msg then msg.take (msg.length - 2) else msg

def squeeze : Str → Str
  | [] => []
  | c :: s =>
    if isspace c then
      if (s.head?.map isspace).getD false then squeeze s else ' ' :: squeeze s
    else c :: squeeze s

def notice : Str := ['P', 'a', 'r', 't', 'i', 'a', 'l', ' ', 'M', 'e', 's', 's', 'a', 'g', 'e', ' ']

def build (r : Record) (parts : List Record) : Option Output := do
  let msgmax ← tonumber r.msgmax
  let found := (List.range' 1 ⌊msgmax⌋.toNat).map (partAt parts)
  let short ← found.reduceOption.head?.map (·.short)
  let msg := found.reduceOption.flatMap (·.msg)
  let missing := found.any Option.isNone
  let msg := cutEnd (if missing then notice ++ [':', ' '] ++ msg else msg)
  some {
    slots := parts.map (·.slot)
    phone := r.phone
    nline := dec (ocount msg + 1)
    msg := msg
    short := if missing then notice ++ squeeze short else short }

def Overall.part (o : Overall) (msgnum : Str) (j : Nat) : Option Record :=
  (o (tostring j)).filter fun r => r.msgnum = msgnum

/-- The slots among `js` whose records are put to the one before and set to nil. -/
def Overall.taken (o : Overall) (msgnum : Str) (js : List Nat) : List Str :=
  (js.filter fun j => (o.part msgnum j).isSome).map tostring

def writeSlot (maxslot i : Nat) (o : Overall) : Option (Overall × List Output) :=
  match o (tostring i) with
  | none => some (o, [])
  | some r =>
    if r.msgnum = xxx then some (o, [⟨[r.slot], r.phone, r.nline, r.msg, r.short⟩])
    else do
      let js := List.range' (i + 1) (maxslot - i)
      let out ← build r (r :: js.filterMap (o.part r.msgnum))
      some (fun key => if key ∈ o.taken r.msgnum js then none else o key, [out])

def writeSlots (maxslot : Nat) : List Nat → Overall → Option (List Output)
  | [], _ => some []
  | i :: is, o => do
    let (o, out) ← writeSlot maxslot i o
    let outs ← writeSlots maxslot is o
    some (out ++ outs)

/-- `merge.lua` up to what it writes behind the two counts; `none` is a runtime error. -/
def merge (file : Str) : Option (List Output) :=
  match lines file with
  | _ :: _ :: rest => do
    let (o, maxslot) ← readRecords rest.length rest (fun _ => none) (-1)
    writeSlots ⌊maxslot⌋.toNat (if maxslot < 0 then [] else List.range (⌊maxslot⌋.toNat + 1)) o
  | _ => none

end ModemSupport.Rooter.SmsFile
