import Mathlib.Algebra.Group.Nat.Defs
import ModemSupport.Lib.Text

/-! The program commands of `firehose_protocol.c`: how a line of the table is parsed and given the
size of its file, what the target is asked for, and what it is then sent.  A C string is the list of
its characters in front of the null. -/

namespace ModemSupport.Rooter.Firehose

open Lib.Text

abbrev Str := List Char

/-- `fh_xml_find_value`: the line up to a value, the value, and the line from its end.  The key at
the end of the line counts as no key. -/
def fhXmlFindValue (line key : Str) : Option (Str × Str × Str) :=
  match find key line with
  | some (a, c₀ :: c₁ :: s) =>
    if c₀ ≠ '=' ∧ c₁ ≠ '"' then none
    else (find ['"'] s).map fun r => (a ++ key ++ [c₀, c₁], r.1, '"' :: r.2)
  | _ => none

def fhXmlGetValue (line key : Str) : Option Str :=
  (fhXmlFindValue line key).bind fun r => if r.2.1.length < 64 then some r.2.1 else none

def fhXmlSetValue (line key : Str) (value : Nat) : Str :=
  match fhXmlFindValue line key with
  | none => line
  | some (a, _, b) => a ++ dec value ++ b

/-- `atoi`, with its result as a `uint32_t`; a number that is too large for `long` is the largest
one. -/
def atoi (s : Str) : Nat :=
  match s.dropWhile isspace with
  | '-' :: s =>
    (2 ^ 32 - min (Nat.ofDigitChars 10 (s.takeWhile Char.isDigit) 0) (2 ^ 63) % 2 ^ 32) % 2 ^ 32
  | '+' :: s => min (Nat.ofDigitChars 10 (s.takeWhile Char.isDigit) 0) (2 ^ 63 - 1) % 2 ^ 32
  | s => min (Nat.ofDigitChars 10 (s.takeWhile Char.isDigit) 0) (2 ^ 63 - 1) % 2 ^ 32

def numPartitionSectors : Str := "num_partition_sectors".toList
def sectorSizeInBytes : Str := "SECTOR_SIZE_IN_BYTES".toList

/-- `struct fh_program_cmd` with the text of the command; there is none when it does not fit into
`xml_original_data` with its null. -/
structure Program where
  filename : Option Str
  sparse : Bool
  sectorSize : Nat
  numSectors : Nat
  startSector : Nat
  xmlOriginalData : Option Str
  deriving DecidableEq

def xmlOriginalData (line : Str) : Option Str :=
  if line.getLast? = some '\n' then if line.length ≤ 512 then some line.dropLast else none
  else if line.length < 512 then some line else none

/-- The value of a number, zero when there is none. -/
def getNumber (line key : Str) : Nat := ((fhXmlGetValue line key).map atoi).getD 0

/-- Whether a name begins with another, whatever the case of its letters. -/
def strncasecmp (s name : Str) : Bool := (s.take name.length).map Char.toLower == name

/-- `fh_parse_xml_line` for a program command; `none` for another line, or one without the name of
a file. -/
def fhParseXmlLine (line : Str) : Option Program :=
  if (find "vendor=\"quectel\"".toList line).isSome then none
  else if "<program ".toList.isPrefixOf line then
    let filename := fhXmlGetValue line "filename".toList
    if filename = some [] then none
    else
      some {
        filename := filename
        sparse := (fhXmlGetValue line "sparse".toList).any (strncasecmp · "true".toList)
        sectorSize := getNumber line sectorSizeInBytes
        numSectors := getNumber line numPartitionSectors
        startSector := getNumber line "start_sector".toList
        xmlOriginalData := xmlOriginalData line }
  else none

def unixFilename (s : Str) : Str := s.map fun c => if c = '\\' then '/' else c

def gptEmpty0 : Str := "gpt_empty0.bin".toList

abbrev Bytes := List UInt8

structure File where
  bytes : Bytes
  size : bytes.length < 2 ^ 63

def fixupSectors (filesize sectorSize : Nat) (gpt : Bool) : Nat :=
  let n := filesize / sectorSize % 2 ^ 32
  let n := if filesize % sectorSize ≠ 0 then (n + 1) % 2 ^ 32 else n
  if gpt then (n + (2 ^ 32 - 1)) % 2 ^ 32 else n

def setNumSectors (text : Str) (n : Nat) : Option Str :=
  let text := fhXmlSetValue text numPartitionSectors n
  if text.length < 512 then some text else none

/-- `fh_fixup_program_cmd`, with the test of `firehose_main` behind it: without a file, or without a
sector to write, nothing is sent at all. -/
def fhFixupProgramCmd (files : Str → Option File) (p : Program) : Option (Program × File) := do
  let name ← p.filename
  let file ← files (unixFilename name)
  let n := fixupSectors file.bytes.length p.sectorSize (strncasecmp (unixFilename name) gptEmpty0)
  if file.bytes = [] ∨ p.sectorSize = 0 ∨ n = 0 then none
  else
    let text := if p.numSectors = n then p.xmlOriginalData
      else p.xmlOriginalData.bind (setNumSectors · n)
    some ({ p with numSectors := n, xmlOriginalData := text }, file)

inductive Value where
  | ack
  | nak
  | other
  deriving DecidableEq

structure Response where
  value : Option Value
  rawmode : Bool
  maxPayload : UInt32
  deriving DecidableEq

def maxPayload (deviceType : Str) : Nat :=
  if deviceType = "emmc".toList ∨ deviceType = "ufs".toList then 1048576 else 8192

def fhSendCfgCmd (deviceType : Str) (first second : Option Response) : Option Nat := do
  let r ← first
  if r.value = some .nak ∧ r.maxPayload ≠ 0 then
    let r' ← second
    if r'.value = some .ack then some r.maxPayload.toNat else none
  else if r.value = some .ack then some (maxPayload deviceType)
  else none

/-- What has been sent in raw mode, whether more has been put into the buffer than it holds, and the
count of `filesend`. -/
structure Raw where
  sent : Bytes
  overrun : Bool
  filesend : Nat

def padding (sectorSize reads : Nat) : Nat :=
  if reads % sectorSize = 0 then 0 else sectorSize - reads % sectorSize

/-- The loop of `fh_send_rawmode_image` for an image that is not sparse, on the rest of the file.
Each round reads a byte or more, so that as many rounds as there are bytes are enough. -/
def sendLoop (payload sectorSize filesize : Nat) : Nat → Bytes → Nat → Raw
  | 0, _, filesend => ⟨[], false, filesend⟩
  | fuel + 1, file, filesend =>
    if filesend < filesize then
      let want := if filesize < filesend + payload then filesize - filesend else payload
      let reads := min want file.length
      if reads = 0 then ⟨[], false, filesend⟩
      else
        let pad := padding sectorSize reads
        let rest := sendLoop payload sectorSize filesize fuel (file.drop reads)
          (filesend + reads + pad)
        ⟨file.take reads ++ List.replicate pad 0 ++ rest.sent,
          decide (payload < reads + pad) || rest.overrun, rest.filesend⟩
    else ⟨[], false, filesend⟩

def filesizeOf (name : Str) (file : Bytes) : Nat :=
  if strncasecmp (unixFilename name) gptEmpty0 then (file.length + (2 ^ 64 - 512)) % 2 ^ 64
  else file.length

/-- `fh_send_rawmode_image`, when all writes go through. -/
def fhSendRawmodeImage (payload : Nat) (name : Str) (sectorSize : Nat) (file : Bytes) : Raw :=
  sendLoop payload sectorSize (filesizeOf name file) file.length file 0

/-- What stands between the quotes behind a key. -/
def attrValue (text key : Str) : Option Str :=
  match find key text with
  | some (_, '=' :: '"' :: s) => (find ['"'] s).map Prod.fst
  | _ => none

def number (v : Str) : Option Nat :=
  if v ≠ [] ∧ v.all Char.isDigit then some (Nat.ofDigitChars 10 v 0) else none

def attr (text key : Str) : Option Nat := (attrValue text key).bind number

def image (name : Str) (file : File) : Bytes :=
  if unixFilename name = gptEmpty0 then file.bytes.take (file.bytes.length - 512) else file.bytes

/-- The target is sent as many bytes as the text says, the image with less than a sector of zeros
behind it, and nothing goes past the buffer. -/
def Faithful (payload : Nat) (name : Str) (p : Program) (file : File) : Prop :=
  ∃ text n s, p.xmlOriginalData = some text ∧ attr text numPartitionSectors = some n ∧
    attr text sectorSizeInBytes = some s ∧
    (fhSendRawmodeImage payload name p.sectorSize file.bytes).sent.length = n * s ∧
    (∃ k < s, (fhSendRawmodeImage payload name p.sectorSize file.bytes).sent =
      image name file ++ List.replicate k 0) ∧
    (fhSendRawmodeImage payload name p.sectorSize file.bytes).overrun = false

end ModemSupport.Rooter.Firehose
