import Mathlib.Data.List.TakeWhile
import ModemSupport.Rooter.FirehoseLineWhole

/-! The answers of the target: `_fh_recv_cmd` on the bytes of the buffer `xml_rx_buf`, and the
thread that calls it.  Text is followed from a place in the buffer up to its end, so that what is
read behind the null is seen. -/

namespace ModemSupport.Rooter.FirehoseAnswers

open Lib.Text Lib.Markup FirehoseLine
open Firehose hiding Str fhParseXmlLine

abbrev Str := List Char

def cstr (mem : Str) : Str := mem.takeWhile (· ≠ '\x00')

def slash : Str := ['/', '>']

/-- What stands in front of the next quote; `none` when the buffer ends before the string does. -/
def quoted (mem : Str) : Option (Option Str) :=
  if '\x00' ∈ mem then some ((find ['"'] (cstr mem)).map Prod.fst) else none

/-- `fh_xml_find_value` on the buffer; `none` is an access behind it. -/
def findValueAt (mem key : Str) : Option (Option Str) :=
  match find key (cstr mem) with
  | none => some none
  | some (start, _) =>
    match mem.drop (start.length + key.length) with
    | '=' :: rest => quoted (rest.drop 1)
    | _ :: '"' :: rest => quoted rest
    | _ :: _ :: _ => some none
    | _ => none

def getValueAt (mem key : Str) : Option (Option Str) :=
  (findValueAt mem key).map fun v => v.filter (·.length < 64)

def parseResponse (mem : Str) : Option Response := do
  let value ← getValueAt mem value
  if (find rawmode (cstr mem)).isSome then
    let rawmode ← getValueAt mem rawmode
    some ⟨value.map valueOf, rawmode == some true', 0⟩
  else if (find maxPayloadSizeToTargetInBytes (cstr mem)).isSome then
    let payload ← getValueAt mem maxPayloadSizeToTargetInBytes
    some ⟨value.map valueOf, false, UInt32.ofNat ((payload.map atoi).getD 0)⟩
  else some ⟨value.map valueOf, false, 0⟩

def vendorPair : Str := vendor ++ '=' :: '"' :: (quectel ++ ['"'])

/-- `fh_parse_xml_line` for an answer or a log; `room` is the number of places from the start of
`xml_original_data` to the end of `fh_cmd`, where the last character of the line is looked at. -/
def parseAt (room : Nat) (mem : Str) : Option FhCmd :=
  if room < (cstr mem).length then none
  else if (find vendorPair (cstr mem)).isSome then some .vendor
  else if isTag response (cstr mem) then (parseResponse mem).map .response
  else some .log

def xmlVersion : Str := "<?xml version=".toList
def data : Str := "<data>".toList

inductive Next where
  | none
  | error
  | element (skip : Nat)

def nextElement (s : Str) : Next :=
  match find xmlVersion s with
  | none => .none
  | some (start, rest) =>
    match find data rest with
    | none => .error
    | some (start', rest) =>
      .element (start.length + xmlVersion.length + (start'.length + data.length) +
        if rest.head? = some '\n' then 1 else 0)

/-- Whether `cmd.type` is set to something else than a log. -/
def isAnswer : Option FhCmd → Bool
  | none => false
  | some .log => false
  | some _ => true

def dot (c : Char) : Char := if c = '\r' ∨ c = '\n' then '.' else c

/-- The loop of `_fh_recv_cmd` from a place of the buffer: whether 0 is returned, `fh_cmd`, and what
stands in the buffer then; `none` is an access to something else than the buffer and `fh_cmd`.  An
element without an end is followed from address 3 on. -/
def recvLoop (room : Nat) (mem : Str) (cmd : Option FhCmd) : Option (Bool × Option FhCmd × Str) :=
  match mem with
  | [] => none
  | c :: mem =>
    if c = '\x00' then some (cmd.isSome, cmd, c :: mem)
    else if '\x00' ∉ mem then none
    else
      match nextElement (cstr (c :: mem)) with
      | .none => some (cmd.isSome, cmd, c :: mem)
      | .error => some (false, cmd, c :: mem)
      | .element skip =>
        let line := (c :: mem).drop skip
        if isTag response (cstr line) then
          match parseAt room line, find slash (cstr line) with
          | some cmd', some (start, _) =>
            let used := (c :: mem).take (skip + (start.length + 3))
            (recvLoop room (mem.drop (skip + (start.length + 2))) (some cmd')).map fun r =>
              (r.1, r.2.1, used ++ r.2.2)
          | _, _ => none
        else if isTag log (cstr line) then
          if isAnswer cmd then some (true, cmd, c :: mem)
          else
            match parseAt room line, find slash (cstr line) with
            | some cmd', some (start, _) =>
              let used := (c :: mem).take skip ++ ((line.take (start.length + 2)).map dot ++
                (line.drop (start.length + 2)).take 1)
              (recvLoop room (mem.drop (skip + (start.length + 2))) (some cmd')).map fun r =>
                (r.1, r.2.1, used ++ r.2.2)
            | _, _ => none
        else some (false, cmd, c :: mem)
termination_by mem.length
decreasing_by all_goals simp only [List.length_drop, List.length_cons]; omega

def xmlRxSize : Nat := 1024

/-- `_fh_recv_cmd` when a read has delivered bytes; the null behind them has to be in the buffer. -/
def fhRecvCmd (room : Nat) (buffer bytes : Str) : Option (Bool × Option FhCmd × Str) :=
  if bytes = [] then some (false, none, buffer)
  else if bytes.length < xmlRxSize then
    recvLoop room (bytes ++ '\x00' :: buffer.drop (bytes.length + 1)) none
  else none

/-- `fh_recv_cmd_thread` on the reads: the commands that are written to the socket. -/
def fhRecvCmdThread (room : Nat) : (buffer : Str) → List Str → Option (List FhCmd)
  | _, [] => some []
  | buffer, bytes :: reads =>
    match fhRecvCmd room buffer bytes with
    | none => none
    | some (false, _, _) => some []
    | some (true, cmd, buffer) =>
      (fhRecvCmdThread room buffer reads).map fun cmds => (cmd.filter (· ≠ .log)).toList ++ cmds

/-- A key is not at the end of the text, alone or with an equals sign behind it, unless what stands
behind the null is in the buffer. -/
def LookupFits (mem key : Str) : Prop :=
  ∀ r, find key (cstr mem) = some r →
    let rest := mem.drop ((cstr mem).length + 1)
    (r.2 = [] → rest ≠ [] ∧ (rest.head? = some '"' → '\x00' ∈ rest.tail)) ∧
      (r.2 = ['='] → '\x00' ∈ rest)

def LineFits (mem : Str) : Prop :=
  find vendorPair (cstr mem) = none → isTag response (cstr mem) = true →
    LookupFits mem value ∧
      if (find rawmode (cstr mem)).isSome then LookupFits mem rawmode
      else LookupFits mem maxPayloadSizeToTargetInBytes

/-- Every element that is reached has an end, the text from it on has room in `fh_cmd`, and the text
behind the last one is in the buffer. -/
def Bounded (room : Nat) (mem : Str) (answered : Bool) : Prop :=
  match mem with
  | [] => False
  | c :: mem =>
    c = '\x00' ∨ '\x00' ∈ mem ∧
      match nextElement (cstr (c :: mem)) with
      | .element skip =>
        let line := (c :: mem).drop skip
        isTag response (cstr line) ∨ isTag log (cstr line) ∧ ¬ answered →
          (cstr line).length ≤ room ∧ LineFits line ∧
            match find slash (cstr line) with
            | none => False
            | some (start, _) => Bounded room (mem.drop (skip + (start.length + 2)))
                (isTag response (cstr line) || (find vendorPair (cstr line)).isSome)
      | _ => True
termination_by mem.length
decreasing_by all_goals simp only [List.length_drop, List.length_cons]; omega

def closeData : Str := "</data>".toList

/-- A document with an answer or a log. -/
structure Doc where
  version : Str
  gap : Str
  element : Element
  close : Str
  after : Str
  version_plain : '<' ∉ version
  gap_blank : ∀ c ∈ gap, isspace c = true
  close_blank : ∀ c ∈ close, isspace c = true
  after_blank : ∀ c ∈ after, isspace c = true
  tag : element.tag = response ∨ element.tag = log
  plain : '<' ∉ element.tag ++ element.rest
  ends : slash <:+ element.tail.text
  no_null : '\x00' ∉ version ++ (element.tag ++ element.rest)

def Doc.trailer (d : Doc) : Str := d.close ++ (closeData ++ d.after)

def Doc.text (d : Doc) : Str :=
  xmlVersion ++ (d.version ++ (data ++ (d.gap ++ (d.element.line ++ d.trailer))))

def textOf (ds : List Doc) : Str := ds.flatMap Doc.text

def answer (e : Element) : Response where
  value := (lookup value e.attributes).map valueOf
  rawmode := lookup rawmode e.attributes == some true'
  maxPayload := UInt32.ofNat (e.number maxPayloadSizeToTargetInBytes)

def answers (ds : List Doc) : List Response :=
  (ds.filter fun d => d.element.tag = response).map fun d => answer d.element

def Doc.line (d : Doc) (ds : List Doc) : Str := d.element.line ++ (d.trailer ++ textOf ds)

/-- An element behind one newline at most, with a blank behind its tag. -/
def Doc.Seen (d : Doc) : Prop := (d.gap = [] ∨ d.gap = ['\n']) ∧ d.element.rest.head? = some ' '

/-- The answer has a value, and what is found in the text from it on is its own. -/
structure Reads (e : Element) (t : Str) : Prop where
  value_ne : lookup value e.attributes ≠ none
  value : (fhXmlGetValue t value).map valueOf = (lookup value e.attributes).map valueOf
  rawmode : fhXmlGetValue t rawmode = some true' ↔ lookup rawmode e.attributes = some true'
  payload : (if (find FirehoseLine.rawmode t).isSome then 0
    else getNumber t maxPayloadSizeToTargetInBytes) = e.number maxPayloadSizeToTargetInBytes

/-- The documents of a read, of which one at most has an answer: the elements up to it have room in
`fh_cmd` and nothing of the vendor behind them, and a log behind it is seen as one. -/
def Handed (room : Nat) : (answered : Bool) → List Doc → Prop
  | _, [] => True
  | true, d :: ds => d.Seen ∧ ∀ d' ∈ d :: ds, d'.element.tag = log
  | false, d :: ds => d.Seen ∧ (d.line ds).length ≤ room ∧ find vendorPair (d.line ds) = none ∧
      (d.element.tag = response → Reads d.element (d.line ds)) ∧
      Handed room (d.element.tag = response) ds

structure ReadOk (room : Nat) (ds : List Doc) : Prop where
  ne_nil : ds ≠ []
  length : (textOf ds).length < xmlRxSize
  handed : Handed room false ds

end ModemSupport.Rooter.FirehoseAnswers
