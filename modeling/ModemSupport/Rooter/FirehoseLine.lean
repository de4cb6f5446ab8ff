import ModemSupport.Lib.Markup
import ModemSupport.Rooter.Firehose

/-! The lines of `firehose_protocol.c`: what `fh_parse_xml_line` records of an element, and what is
found for a key in it.  The search is one for a substring, so that names and values may have the key
in them. -/

namespace ModemSupport.Rooter.FirehoseLine

open Lib.Text Lib.Markup Firehose

abbrev Str := List Char

structure Erase where
  lastSector : Nat
  startSector : Nat
  numPartitionSectors : Nat
  sectorSizeInBytes : Nat
  deriving DecidableEq

structure ProgramCmd where
  filename : Option Str
  sparse : Option Str
  startSector : Nat
  numPartitionSectors : Nat
  sectorSizeInBytes : Nat
  fileSectorOffset : Nat
  physicalPartitionNumber : Nat
  deriving DecidableEq

/-- `struct fh_cmd`, without the text. -/
inductive FhCmd where
  | vendor
  | erase (cmd : Erase)
  | program (cmd : ProgramCmd)
  | patch
  | response (cmd : Response)
  | log
  deriving DecidableEq

def lastSector : Str := "last_sector".toList
def startSector : Str := "start_sector".toList
def filename : Str := "filename".toList
def sparse : Str := "sparse".toList
def fileSectorOffset : Str := "file_sector_offset".toList
def physicalPartitionNumber : Str := "physical_partition_number".toList
def value : Str := "value".toList
def rawmode : Str := "rawmode".toList
def maxPayloadSizeToTargetInBytes : Str := "MaxPayloadSizeToTargetInBytes".toList
def keys : List Str :=
  [lastSector, startSector, numPartitionSectors, sectorSizeInBytes, filename, sparse,
    fileSectorOffset, physicalPartitionNumber, value, rawmode, maxPayloadSizeToTargetInBytes]

def vendor : Str := "vendor".toList
def quectel : Str := "quectel".toList
def disk : Str := "DISK".toList
def true' : Str := "true".toList

def valueOf (s : Str) : Value :=
  if s = "ACK".toList then .ack else if s = "NAK".toList then .nak else .other

def erase : Str := "erase".toList
def program : Str := "program".toList
def patch : Str := "patch".toList
def response : Str := "response".toList
def log : Str := "log".toList

def isTag (tag line : Str) : Bool := ('<' :: (tag ++ [' '])).isPrefixOf line

def isSparse (s : Option Str) : Bool := s.any (strncasecmp · true')

/-- `fh_parse_xml_line`; `none` is -1. -/
def fhParseXmlLine (line : Str) : Option FhCmd :=
  if (find (vendor ++ '=' :: '"' :: (quectel ++ ['"'])) line).isSome then some .vendor
  else if isTag erase line then
    some <| .erase {
      lastSector := if (find lastSector line).isSome then getNumber line lastSector else 0
      startSector := getNumber line startSector
      numPartitionSectors := getNumber line numPartitionSectors
      sectorSizeInBytes := getNumber line sectorSizeInBytes }
  else if isTag program line then
    let name := fhXmlGetValue line filename
    -- A blank program line of some versions.
    if name = some [] then none
    else
      let sparse := fhXmlGetValue line sparse
      some <| .program {
        filename := name
        sparse := sparse
        startSector := getNumber line startSector
        numPartitionSectors := getNumber line numPartitionSectors
        sectorSizeInBytes := getNumber line sectorSizeInBytes
        fileSectorOffset := if isSparse sparse then getNumber line fileSectorOffset else 0
        physicalPartitionNumber :=
          if isSparse sparse then getNumber line physicalPartitionNumber else 0 }
  else if isTag patch line then
    if (fhXmlGetValue line filename).any (· ≠ disk) then none else some .patch
  else if isTag response line then
    some <| .response {
      value := (fhXmlGetValue line value).map valueOf
      rawmode := (find rawmode line).isSome && fhXmlGetValue line rawmode == some true'
      maxPayload :=
        if (find rawmode line).isSome then 0
        else if (find maxPayloadSizeToTargetInBytes line).isSome then
          UInt32.ofNat (getNumber line maxPayloadSizeToTargetInBytes)
        else 0 }
  else if isTag log line then some .log
  else none

/-- The places in `xml_original_data` to which a line is stored, with what stands behind it: the
copy of 512 characters, and a null over the newline at the end. -/
def stores (behind : Nat → Char) (line : Str) : List Nat :=
  let last := line.length - 1
  let c := if last < 512 then line.getD last '\x00' else behind (last - 512)
  List.range 512 ++ if c = '\n' then [last] else []

structure Element where
  tag : Str
  attributes : List Attribute
  tail : End
  tag_word : IsWord tag
  distinct : Distinct attributes

def Element.rest (e : Element) : Str := text e.attributes ++ e.tail.text

def Element.line (e : Element) : Str := '<' :: (e.tag ++ e.rest)

def Element.number (e : Element) (k : Str) : Nat := ((lookup k e.attributes).map atoi).getD 0

def Element.recorded (e : Element) : Option FhCmd :=
  if lookup vendor e.attributes = some quectel then some .vendor
  else if e.tag = erase then
    some <| .erase {
      lastSector := e.number lastSector
      startSector := e.number startSector
      numPartitionSectors := e.number numPartitionSectors
      sectorSizeInBytes := e.number sectorSizeInBytes }
  else if e.tag = program then
    if lookup filename e.attributes = some [] then none
    else
      let sparse := lookup sparse e.attributes
      some <| .program {
        filename := lookup filename e.attributes
        sparse := sparse
        startSector := e.number startSector
        numPartitionSectors := e.number numPartitionSectors
        sectorSizeInBytes := e.number sectorSizeInBytes
        fileSectorOffset := if isSparse sparse then e.number fileSectorOffset else 0
        physicalPartitionNumber := if isSparse sparse then e.number physicalPartitionNumber else 0 }
  else if e.tag = patch then
    if (lookup filename e.attributes).any (· ≠ disk) then none else some .patch
  else if e.tag = response then
    some <| .response {
      value := (lookup value e.attributes).map valueOf
      rawmode := lookup rawmode e.attributes == some true'
      maxPayload := UInt32.ofNat (e.number maxPayloadSizeToTargetInBytes) }
  else if e.tag = log then some .log
  else none

def Element.set (e : Element) (k v : Str) (hv : '"' ∉ v) : Element :=
  { e with
    attributes := setValue k v hv e.attributes
    distinct := e.distinct.setValue }

def Element.setNumber (e : Element) (k : Str) (v : Nat) : Element :=
  e.set k (dec v) (notMem_dec rfl)

/-- What is taken for a value when a key ends inside another one and `q` is behind it: the rest
after an equals sign and one more character, or what is between the end of that value and the next
quote. -/
def behind (q : Str) (as : List Attribute) : Option Str :=
  match q, as with
  | [_], a :: _ => some (a.space ++ a.name ++ ['='])
  | '=' :: _ :: q, _ => some q
  | _, _ => none

/-- What stands behind the first place of a key. -/
def found (k : Str) : List Attribute → Option Str
  | [] => none
  | a :: as =>
    match find k a.name with
    | some (_, q) => if q = [] then some a.value else none
    | none =>
      match find k a.value with
      | some (_, q) => behind q as
      | none => found k as

def Own (k : Str) : List Attribute → Prop
  | [] => False
  | a :: as => a.name = k ∨ find k a.name = none ∧ find k a.value = none ∧ Own k as

def Element.found (e : Element) (k : Str) : Option Str :=
  if (find k e.tag).isSome then none else FirehoseLine.found k e.attributes

def Element.Own (e : Element) (k : Str) : Prop :=
  find k e.tag = none ∧ FirehoseLine.Own k e.attributes

def Element.shown (e : Element) (k : Str) : Option Str := (e.found k).filter (·.length < 64)

def Element.shownNumber (e : Element) (k : Str) : Nat := ((e.shown k).map atoi).getD 0

def Element.Has (e : Element) (k : Str) : Prop :=
  (find k e.tag).isSome ∨ ∃ a ∈ e.attributes, (find k a.name).isSome ∨ (find k a.value).isSome

/-- What stands behind the first place of the key reads as the number of its attribute. -/
def Element.Reads (e : Element) (k : Str) : Prop := e.shownNumber k = e.number k

def Element.Vendor (e : Element) : Prop := ∃ a ∈ e.attributes, vendor <:+ a.name ∧ a.value = quectel

/-- A program without the name of a file, and a patch for a file. -/
def Element.Ignored (e : Element) : Prop :=
  e.tag = program ∧ lookup filename e.attributes = some [] ∨
    e.tag = patch ∧ (lookup filename e.attributes).any (· ≠ disk)

instance (e : Element) : Decidable e.Ignored := inferInstanceAs (Decidable (_ ∧ _ ∨ _ ∧ _))

/-- What stands behind the first place of each key reads as its attribute does. -/
structure Element.KeysClear (e : Element) : Prop where
  erase : e.tag = erase →
    ∀ k ∈ [lastSector, startSector, numPartitionSectors, sectorSizeInBytes], e.Reads k
  program : e.tag = program → e.shown filename = lookup filename e.attributes ∧
    (lookup filename e.attributes ≠ some [] → e.shown sparse = lookup sparse e.attributes ∧
      (∀ k ∈ [startSector, numPartitionSectors, sectorSizeInBytes], e.Reads k) ∧
      (isSparse (lookup sparse e.attributes) →
        ∀ k ∈ [fileSectorOffset, physicalPartitionNumber], e.Reads k))
  patch : e.tag = patch →
    (e.shown filename).any (· ≠ disk) = (lookup filename e.attributes).any (· ≠ disk)
  response : e.tag = response →
    (e.shown value).map valueOf = (lookup value e.attributes).map valueOf ∧
      (e.shown rawmode = some true' ↔ lookup rawmode e.attributes = some true') ∧
      (e.Has rawmode → e.number maxPayloadSizeToTargetInBytes = 0) ∧
      (¬ e.Has rawmode → e.Reads maxPayloadSizeToTargetInBytes)

def Element.Known (e : Element) : Prop := e.tag ∈ [erase, program, patch, response, log]

def Element.Clear (e : Element) : Prop :=
  (e.Vendor → lookup vendor e.attributes = some quectel) ∧
    (¬ e.Vendor → e.Known → if e.rest.head? = some ' ' then e.KeysClear else e.Ignored)

variable {as : List Attribute} {k q s t v line : Str} {tail : End} {e : Element}

/-- The value behind a key, with the two characters in front of it. -/
def after : Str → Option (Str × Str × Str)
  | c₀ :: c₁ :: s =>
    if c₀ ≠ '=' ∧ c₁ ≠ '"' then none
    else (find ['"'] s).map fun r => ([c₀, c₁], r.1, '"' :: r.2)
  | _ => none

theorem fhXmlFindValue_eq : fhXmlFindValue line k =
    (find k line).bind fun r => (after r.2).map fun x => (r.1 ++ k ++ x.1, x.2) := by
  rw [fhXmlFindValue]
  rcases find k line with _ | ⟨a, _ | ⟨c₀, _ | ⟨c₁, s⟩⟩⟩
  · rfl
  · rfl
  · rfl
  · show (if c₀ ≠ '=' ∧ c₁ ≠ '"' then none
      else (find ['"'] s).map fun r => (a ++ k ++ [c₀, c₁], r.1, '"' :: r.2)) =
        (after (c₀ :: c₁ :: s)).map fun x => (a ++ k ++ x.1, x.2)
    rw [after]
    split
    · rfl
    · rw [Option.map_map]
      rfl

theorem fhXmlFindValue_append (h : find k (s ++ t) = (find k t).map fun r => (s ++ r.1, r.2)) :
    fhXmlFindValue (s ++ t) k = (fhXmlFindValue t k).map fun r => (s ++ r.1, r.2) := by
  rw [fhXmlFindValue_eq, fhXmlFindValue_eq, h]
  cases find k t with
  | none => rfl
  | some r =>
    show (after r.2).map _ = ((after r.2).map _).map _
    rw [Option.map_map]
    congr 1
    funext x
    simp

theorem after_equal (hv : '"' ∉ v) :
    after ('=' :: '"' :: (v ++ '"' :: t)) = some (['=', '"'], v, '"' :: t) := by
  rw [after, if_neg (by simp), find_singleton hv]
  rfl

theorem after_eq_none (h : ∀ c ∈ s.head?, c ≠ '=') (h' : ∀ c ∈ s.tail.head?, c ≠ '"') :
    after s = none := by
  rcases s with _ | ⟨c₀, _ | ⟨c₁, s⟩⟩
  · rfl
  · rfl
  · rw [after, if_pos ⟨h c₀ rfl, h' c₁ rfl⟩]

end ModemSupport.Rooter.FirehoseLine
