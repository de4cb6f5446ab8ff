import ModemSupport.Lib.Gets
import ModemSupport.Rooter.FirehoseLine

/-! The scripts of `firehose_protocol.c`: the lines that `fh_parse_xml_file` takes for commands, and
the elements of a file that stand outside its comments. -/

namespace ModemSupport.Rooter.FirehoseScript

open Lib.Text Lib.Markup Lib.Gets FirehoseLine
open Firehose hiding Str fhParseXmlLine

abbrev Str := List Char

def opening : Str := ['<', '!', '-', '-']
def closing : Str := ['-', '-', '>']
def slash : Str := ['/', '>']

/-- What is done with a line: it is passed over, the lines behind it are passed over, or a command
is looked for in it. -/
inductive Step where
  | next
  | skip
  | parse (xmlLine : Str)

/-- A line up to `__fh_parse_xml_line`, with the first comment blanked when the first `/>` is not in
it. -/
def step (line : Str) : Step :=
  match find ['<'] line with
  | none => .next
  | some (_, rest) =>
    let xmlLine := '<' :: rest
    match find opening xmlLine with
    | none => .parse xmlLine
    | some (start, rest) =>
      match find closing (opening ++ rest) with
      | none => .skip
      | some (comment, rest) =>
        match find slash xmlLine with
        | none => .next
        | some (tmp, _) =>
          if tmp.length < start.length ∨ start.length + comment.length < tmp.length then
            .parse (start ++ (List.replicate (comment.length + 3) ' ' ++ rest))
          else .next

def tags : List Str := [erase, program, patch]

def startTag (tag : Str) : Str := '<' :: (tag ++ [' '])

def tagOf (xmlLine : Str) : List Str → Option Str
  | [] => none
  | tag :: tags =>
    match find (startTag tag) xmlLine with
    | some (_, rest) => some (startTag tag ++ rest)
    | none => tagOf xmlLine tags

def fhCmdNum : Nat := 1024

/-- Whether the loop over a comment that is not closed goes on behind a line. -/
def skips (line : Str) : Bool := !(find closing line).isSome && (find opening line).isSome

/-- The loop of `fh_parse_xml_file` with the number of commands in the table and the number of the
line: each command with the number of its line, and `none` for an exit.  The test for other lines
never holds. -/
def fhParseLines : (skipping : Bool) → (count number : Nat) → List Str → Option (List (Nat × FhCmd))
  | _, _, _, [] => some []
  | true, count, number, line :: lines => fhParseLines (skips line) count (number + 1) lines
  | false, count, number, line :: lines =>
    match step line with
    | .next => fhParseLines false count (number + 1) lines
    | .skip => fhParseLines true count (number + 1) lines
    | .parse xmlLine =>
      match (tagOf xmlLine tags).bind fhParseXmlLine with
      | none => fhParseLines false count (number + 1) lines
      | some cmd =>
        if fhCmdNum ≤ count + 1 then none
        else (fhParseLines false (count + 1) (number + 1) lines).map ((number, cmd) :: ·)

def fhParseXmlFile (count : Nat) (file : Str) : Option (List (Nat × FhCmd)) :=
  fhParseLines false count 0 ((reads 1023 file).map fun line => line.takeWhile (· ≠ '\x00'))

def inComment : Bool → Str → Bool
  | false, '<' :: '!' :: '-' :: '-' :: s => inComment true s
  | true, '-' :: '-' :: '>' :: s => inComment false s
  | c, _ :: s => inComment c s
  | c, [] => c

/-- Text without a start tag; comments stand between elements, not in a tag. -/
def Tagless (s : Str) : Prop :=
  ∀ tag ∈ tags, ¬ startTag tag <:+: s ∧ ¬ '<' :: (tag ++ opening) <:+: s

structure Command where
  element : Element
  tag : element.tag ∈ tags
  plain : '<' ∉ element.tag ++ element.rest
  ends : slash <:+ element.tail.text

structure CommandLine where
  before : Str
  command : Command
  after : Str
  before_tagless : Tagless before
  after_tagless : Tagless after

def CommandLine.element (l : CommandLine) : Element := l.command.element

def CommandLine.text (l : CommandLine) : Str := l.before ++ (l.element.line ++ l.after)

inductive Line where
  | plain (s : Str) (h : Tagless s)
  | command (l : CommandLine)

def Line.text : Line → Str
  | .plain s _ => s
  | .command l => l.text

/-- A comment in which a command stands does not end inside of it. -/
def Line.Separate (c : Bool) : Line → Prop
  | .plain _ _ => True
  | .command l => inComment c l.before = true → ¬ closing <:+: l.element.line

def Separate : Bool → List Line → Prop
  | _, [] => True
  | c, l :: ls => l.Separate c ∧ Separate (inComment c l.text) ls

def Line.IsCommand (c : Bool) : Line → Prop
  | .plain _ _ => False
  | .command l => inComment c l.before = false ∧ ¬ l.element.Ignored

instance (c : Bool) : (l : Line) → Decidable (l.IsCommand c)
  | .plain _ _ => instDecidableFalse
  | .command _ => instDecidableAnd

def commands : Bool → Nat → List Line → List Nat
  | _, _, [] => []
  | c, number, l :: ls =>
    let rest := commands (inComment c l.text) (number + 1) ls
    if l.IsCommand c then number :: rest else rest

end ModemSupport.Rooter.FirehoseScript
