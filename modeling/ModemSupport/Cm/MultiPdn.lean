import ModemSupport.Lib.Gets
import ModemSupport.Lib.Memory
import ModemSupport.Lib.Transition

/-! `multi-pdn-manager.c`: how `multi-pdn.ini` is loaded into the profiles and into `fileContents`,
edited and saved. -/

namespace ModemSupport.Cm.MultiPdn

open Lib.Text Lib.Gets Lib.Memory

abbrev Str := List Char

def lineContentMaxLen : Nat := 256
def maxPath : Nat := 256
def maxQmapNum : Nat := 8

def fileLines : Nat := 80

def decInt (i : Int) : Str := if i < 0 then '-' :: dec i.natAbs else dec i.natAbs

/-- The number that a text starts with behind its blanks. -/
def strtol (s : Str) : Int :=
  match s.dropWhile isspace with
  | '-' :: s => -Nat.ofDigitChars 10 (s.takeWhile Char.isDigit) 0
  | '+' :: s => Nat.ofDigitChars 10 (s.takeWhile Char.isDigit) 0
  | s => Nat.ofDigitChars 10 (s.takeWhile Char.isDigit) 0

/-- The `int` of a `long`, which is the largest or the smallest one when the number is too large. -/
def atoi (s : Str) : Int := int32 (max (-2 ^ 63) (min (strtol s) (2 ^ 63 - 1)))

/-- What `lineContent` holds, time after time, in a loop that ends at `feof`: nothing the last time
if the call before has not met the end of the file. -/
def lineContents (file : Str) : List Str :=
  let calls := reads (lineContentMaxLen - 1) file
  match calls.getLast? with
  | none => [[]]
  | some line =>
    if line.getLast? ≠ some '\n' ∧ line.length < lineContentMaxLen - 1 then calls
    else calls ++ [[]]

def skipped (lineContent : Str) : Bool :=
  match lineContent with
  | [] => true
  | c :: _ => c == ';' || c == '\r' || c == '\n'

/-- `val` after `strncpy` without a null, with nulls for its newlines. -/
def storeValue (val text : Str) : Str :=
  let val := text ++ val.drop text.length
  let lineContentLen := (val.takeWhile (· ≠ '\x00')).length
  (val.take lineContentLen).map (fun c => if c = '\r' ∨ c = '\n' then '\x00' else c) ++
    val.drop lineContentLen

/-- The inner loop of `IniReadValue`, over the lines behind the section's. -/
def readKey (key : Str) : Str → List Str → Str
  | val, [] => val
  | val, lineContent :: rest =>
    if key.isPrefixOf lineContent then
      match find ['='] (lineContent.drop key.length) with
      | none => val
      | some (_, text) => readKey key (storeValue val text) rest
    else if lineContent.head? = some '[' then val
    else readKey key val rest

def iniReadValue (sect key : Str) : List Str → Str
  | [] => []
  | lineContent :: rest =>
    if skipped lineContent then iniReadValue sect key rest
    else if sect.isPrefixOf lineContent then readKey key [] rest
    else iniReadValue sect key rest

def bracketProfile : Str := ['[', 'p', 'r', 'o', 'f', 'i', 'l', 'e']

/-- `profile1` to `profile8` in brackets, for an index from 0 on. -/
def sectOf (profileIndex : Nat) : Str := bracketProfile ++ (dec (profileIndex + 1) ++ [']'])

inductive Key where
  | apn
  | user
  | password
  | auth
  | ipfamily
  | pin
  deriving DecidableEq

def Key.name : Key → Str
  | .apn => "apn".toList
  | .user => "user".toList
  | .password => "password".toList
  | .auth => "auth".toList
  | .ipfamily => "ipfamily".toList
  | .pin => "pin".toList

def keys : List Key := [.apn, .user, .password, .auth, .ipfamily, .pin]

def readStringValue (profileIndex : Nat) (key : Key) (file : Str) : Str :=
  (iniReadValue (sectOf profileIndex) key.name (lineContents file)).takeWhile (· ≠ '\x00')

def readIntValue (profileIndex : Nat) (key : Key) (file : Str) : Int :=
  atoi (readStringValue profileIndex key file)

structure Profile where
  apn : Str
  user : Str
  password : Str
  auth : Int
  ipfamily : Int
  pin : Str

def Profile.text (p : Profile) : Key → Str
  | .apn => p.apn
  | .user => p.user
  | .password => p.password
  | .auth => decInt p.auth
  | .ipfamily => decInt p.ipfamily
  | .pin => p.pin

/-- The file, and the variables of the program.  A line of `fileContents` is given by its
characters; zeros are behind them. -/
structure State where
  file : Str
  fileContents : Nat → Str
  fileIndex : Nat
  profileList : Int → Profile
  qmapNum : Int

/-- An element of `profileList`, the first bytes of a line of `fileContents`, or the bytes that are
stored to `strWrite`. -/
inductive Access where
  | profile (i : Int)
  | line (k n : Nat)
  | strWrite (n : Nat)

def Access.Within : Access → Prop
  | .profile i => 0 ≤ i ∧ i < maxQmapNum
  | .line k n => k < fileLines ∧ n ≤ lineContentMaxLen
  | .strWrite n => n ≤ lineContentMaxLen

abbrev QmapNum := { n : Nat // 1 ≤ n ∧ n ≤ maxQmapNum }

def readProfile (file : Str) (i : Nat) : Profile where
  apn := readStringValue i .apn file
  user := readStringValue i .user file
  password := readStringValue i .password file
  auth := readIntValue i .auth file
  ipfamily := readIntValue i .ipfamily file
  pin := readStringValue i .pin file

/-- Only as many characters as the new line has are stored. -/
def loadConfigFromIni (s : State) (qmapNum : QmapNum) : State × List Access :=
  let contents := lineContents s.file
  ({ s with
      fileContents := fun k =>
        match contents[k]? with
        | some line => line ++ (s.fileContents k).drop line.length
        | none => s.fileContents k
      fileIndex := contents.length
      profileList := fun i =>
        if 0 ≤ i ∧ i < maxQmapNum then readProfile s.file i.toNat else s.profileList i
      qmapNum := qmapNum.val },
    (List.range maxQmapNum).map (fun i : Nat => .profile i) ++
      (List.range contents.length).map fun k => .line k (contents.getD k []).length)

def saveConfigToIni (s : State) : State × List Access :=
  ({ s with file := (List.range (s.fileIndex + 1)).flatMap s.fileContents },
    (List.range (s.fileIndex + 1)).map fun k => .line k (s.fileContents k).length)

/-- The inner loop of `IniWriteValue`: the line to write, and how many are looked at. -/
def findKey (key : Str) : List Str → Option Nat × Nat
  | [] => (none, 0)
  | lineContent :: rest =>
    if key.isPrefixOf lineContent then (some 0, 1)
    else if lineContent.head? = some '[' then (none, 1)
    else ((findKey key rest).1.map (· + 1), (findKey key rest).2 + 1)

def findLine (sect key : Str) : List Str → Option Nat × Nat
  | [] => (none, 0)
  | lineContent :: rest =>
    let r :=
      if skipped lineContent then findLine sect key rest
      else if sect.isPrefixOf lineContent then findKey key rest
      else findLine sect key rest
    (r.1.map (· + 1), r.2 + 1)

def strWrite (key val : Str) : Str := key ++ '=' :: (val ++ ['\n'])

/-- The lines up to `fileIndex` and with it are looked at. -/
def iniWriteValue (sect key val : Str) (fileIndex : Nat) (fileContents : Nat → Str) :
    (Nat → Str) × List Access :=
  let r := findLine sect key ((List.range (fileIndex + 1)).map fileContents)
  let looked : List Access := (List.range r.2).map fun k => .line k lineContentMaxLen
  match r.1 with
  | none => (fileContents, .strWrite ((strWrite key val).length + 1) :: looked)
  | some k =>
    (Function.update fileContents k (strWrite key val),
      .strWrite ((strWrite key val).length + 1) :: looked ++
        [.line k lineContentMaxLen, .line k (strWrite key val).length])

/-- What `fgets` gives for a prompt into a buffer that holds `n` characters. -/
structure Answer (n : Nat) where
  chars : Str
  ne_nil : chars ≠ []
  short : chars.length ≤ n
  newline : '\n' ∉ chars.dropLast
  null : '\x00' ∉ chars

/-- `IsInt` looks at the byte in front of its text first: only if it is zero is there one character
to test, and otherwise the null behind the text is tested too. -/
def isInt (zeroBefore : Bool) (str : Str) : Bool :=
  zeroBefore && (str.head?.map Char.isDigit).getD false

structure Prompts where
  index : Answer 7
  apn : Answer 255
  user : Answer 255
  password : Answer 255
  auth : Answer 7
  ipfamily : Answer 7
  pin : Answer 7
  beforeIndex : Bool
  beforeAuth : Bool
  beforeIpfamily : Bool

/-- `tempprofile`, where the last character of each text is taken for its newline. -/
def Prompts.profile (p : Prompts) : Profile where
  apn := p.apn.chars.dropLast
  user := p.user.chars.dropLast
  password := p.password.chars.dropLast
  auth := atoi p.auth.chars
  ipfamily := atoi p.ipfamily.chars
  pin := p.pin.chars.dropLast

def Prompts.connectProfile (p : Prompts) : Int := atoi p.index.chars

def Prompts.accepted (p : Prompts) : Bool :=
  isInt p.beforeIndex p.index.chars && (0 ≤ p.connectProfile && p.connectProfile ≤ 8) &&
  isInt p.beforeAuth p.auth.chars && (0 ≤ p.profile.auth && p.profile.auth ≤ 3) &&
  isInt p.beforeIpfamily p.ipfamily.chars && (1 ≤ p.profile.ipfamily && p.profile.ipfamily ≤ 3)

def written (qmapNum : Int) : List (Nat × Key) :=
  (List.range qmapNum.toNat).flatMap fun i => keys.map fun key => (i, key)

def writeKeys (profileList : Int → Profile) (fileIndex : Nat) :
    List (Nat × Key) → (Nat → Str) → (Nat → Str) × List Access
  | [], fileContents => (fileContents, [])
  | (i, key) :: rest, fileContents =>
    let r := iniWriteValue (sectOf i) key.name ((profileList i).text key) fileIndex fileContents
    let r' := writeKeys profileList fileIndex rest r.1
    (r'.1, .profile i :: r.2 ++ r'.2)

def modifyProfile (s : State) (p : Prompts) : State × List Access :=
  let shown : List Access := (List.range maxQmapNum).map fun i : Nat => .profile i
  if p.accepted then
    let profileList := Function.update s.profileList (p.connectProfile - 1) p.profile
    let r := writeKeys profileList s.fileIndex (written s.qmapNum) s.fileContents
    ({ s with profileList := profileList, fileContents := r.1 },
      shown ++ .profile (p.connectProfile - 1) :: r.2)
  else (s, shown)

inductive Op where
  | load (qmapNum : QmapNum)
  | modify (p : Prompts)
  | save

def perform (s : State) : Op → State × List Access
  | .load qmapNum => loadConfigFromIni s qmapNum
  | .modify p => modifyProfile s p
  | .save => saveConfigToIni s

/-- The start of the program, where `profileList` is not set. -/
def init (file : Str) (profileList : Int → Profile) : State where
  file := file
  fileContents := fun _ => []
  fileIndex := 0
  profileList := profileList
  qmapNum := -1

end ModemSupport.Cm.MultiPdn
