import ModemSupport.Lib.Loop
import ModemSupport.Rooter.FirehoseLine
import ModemSupport.Rooter.FirehoseSparse

/-! `fh_send_rawmode_image` read by read, with what each write to the device comes to, and the runs
of chunks that `fh_process_sparse_program` has entries for. -/

namespace ModemSupport.Rooter.FirehoseRawmode

open Lib.Loop Lib.Memory
open Firehose hiding Str
open FirehoseLine (isSparse)

abbrev Str := List Char

/-- Where `fh_send_rawmode_image` is: at the top of the `while (1)`, in the loop over what is as
long as the payload, at the data that is left of the chunk, behind it, or in the loop for an image
that is not sparse. -/
inductive Place where
  | header
  | pieces (chunkDataSz : Nat)
  | rest (chunkDataSz : Nat)
  | check
  | whole
  deriving DecidableEq

/-- A call of `qusb_noblock_write`: the bytes it is given, and those it has sent. -/
structure Write where
  reads : Nat
  writes : Nat
  deriving DecidableEq

structure Transfer where
  place : Place
  file : Bytes
  buf : Bytes
  filesend : Nat
  written : List Write
  deriving DecidableEq

/-- What stays the same: the number of bytes in `pbuf`, and how many bytes each write to the device
sends if it is given as many. -/
structure Job where
  payload : Nat
  sectorSize : Nat
  filesize : Nat
  usb : Nat → Nat

inductive Event where
  | fault
  | returned (zero : Bool) (filesend : Nat) (written : List Write)

/-- How a read into `pbuf` and the write behind it come out. -/
inductive Piece where
  | ended
  | fault
  | failed (t : Transfer)
  | sent (t : Transfer)

variable (j : Job)

/-- `fread`, the zeros up to the end of the sector, and `qusb_noblock_write`; a fault is a byte
behind `pbuf`, or a division by zero. -/
def readWrite (want : Nat) (t : Transfer) : Piece :=
  let reads := min want t.file.length
  if reads = 0 then .ended
  else
    let reads := reads + padding j.sectorSize reads
    if j.sectorSize = 0 ∨ j.payload < reads then .fault
    else
      let writes := min (j.usb t.written.length) reads
      let t := { t with file := t.file.drop want, written := t.written ++ [⟨reads, writes⟩] }
      if writes = reads then .sent { t with filesend := t.filesend + reads } else .failed t

def finish (t : Transfer) : List Event × Option Transfer :=
  ([.returned (decide (j.filesize ≤ t.filesend)) t.filesend t.written], none)

/-- The bytes that are read next of an image that is not sparse. -/
def wholeWant (t : Transfer) : Nat :=
  if j.filesize < t.filesend + j.payload then j.filesize - t.filesend else j.payload

def step (t : Transfer) : List Event × Option Transfer :=
  match t.place with
  | .header =>
    let (buf, file) := readHeader t.buf t.file
    ([], some { t with place := .pieces (chunkHeader buf).dataSz, buf, file })
  | .pieces chunkDataSz =>
    if j.payload ≤ chunkDataSz then
      match readWrite j j.payload t with
      | .ended => ([], some { t with place := .rest chunkDataSz })
      | .fault => ([.fault], none)
      | .failed t => ([], some { t with place := .rest chunkDataSz })
      | .sent t => ([], some { t with place := .pieces (chunkDataSz - j.payload) })
    else ([], some { t with place := .rest chunkDataSz })
  | .rest chunkDataSz =>
    if 0 < chunkDataSz then
      match readWrite j chunkDataSz t with
      | .ended => finish j t
      | .fault => ([.fault], none)
      | .failed t => finish j t
      | .sent t => ([], some { t with place := .check })
    else ([], some { t with place := .check })
  | .check =>
    if j.filesize ≤ t.filesend then finish j t else ([], some { t with place := .header })
  | .whole =>
    if t.filesend < j.filesize then
      match readWrite j (wholeWant j t) t with
      | .ended => finish j t
      | .fault => ([.fault], none)
      | .failed t => finish j t
      | .sent t => ([], some t)
    else finish j t

structure Image where
  filename : Str
  sparse : Option Str
  sectorSize : Nat
  fileSectorOffset : Nat
  unsparseFileSize : Nat
  payload : Nat
  file : Bytes
  usb : Nat → Nat

variable (i : Image)

def Image.job : Job where
  payload := i.payload
  sectorSize := i.sectorSize
  filesize :=
    if isSparse i.sparse then sparseFilesize i.filename i.unsparseFileSize
    else filesizeOf i.filename i.file
  usb := i.usb

def Image.start : Transfer :=
  if isSparse i.sparse then
    ⟨.header, i.file.drop i.fileSectorOffset, List.replicate 12 0, 0, []⟩
  else ⟨.whole, i.file, List.replicate 12 0, 0, []⟩

def FhSendRawmodeImage (es : List Event) : Prop := Ends (step i.job) i.start es

/-- The function ends without a fault, and when it returns zero the bytes in `filesend` are those of
writes that have sent them all, up to the size. -/
def Stops : Prop :=
  ∃ es, FhSendRawmodeImage i es ∧ Event.fault ∉ es ∧
    ∃ zero filesend written, es = [.returned zero filesend written] ∧
      (zero = true ↔ i.job.filesize ≤ filesend) ∧
      filesend = ((written.filter fun w => w.writes = w.reads).map (·.writes)).sum

/-- A read of some bytes, made up to whole sectors, fits into the payload. -/
def Fits (want : Nat) (t : Transfer) : Prop :=
  let reads := min want t.file.length
  reads = 0 ∨ j.sectorSize ≠ 0 ∧ reads + padding j.sectorSize reads ≤ j.payload

/-- What is read next fits, and the header that is left at the end of the file is not one of a chunk
without data. -/
def Clear (t : Transfer) : Prop :=
  match t.place with
  | .header => t.file = [] → t.filesend < j.filesize → (chunkHeader t.buf).dataSz ≠ 0
  | .pieces chunkDataSz => j.payload ≤ chunkDataSz → Fits j j.payload t
  | .rest chunkDataSz => Fits j chunkDataSz t
  | .check => True
  | .whole => t.filesend < j.filesize → Fits j (wholeWant j t) t

def chunkTypes : Nat → Bytes → Bytes → List Nat
  | 0, _, _ => []
  | n + 1, buf, file =>
    let (buf, file) := readHeader buf file
    let h := chunkHeader buf
    h.chunkType :: chunkTypes n buf (file.drop (skip h))

def totalChunks (file : Bytes) : Nat :=
  ofLE (((file.take 28 ++ List.replicate (64 - (file.take 28).length) 0).drop 20).take 4)

def typesOf (file : Bytes) : List Nat :=
  chunkTypes (totalChunks file) (List.replicate 12 0) (file.drop 28)

/-- Each chunk with the one in front of it; 0 stands in front of the first one. -/
def pairs (types : List Nat) : List (Nat × Nat) := (0 :: types).zip types

/-- A run of chunks with data is over where a hole follows it. -/
def endsData (p : Nat × Nat) : Bool := p.2 == 0xCAC3 && p.1 != 0xCAC3 && p.1 != 0

/-- A run of holes is over where data follows it. -/
def endsHoles (p : Nat × Nat) : Bool := isData p.2 && !isData p.1 && p.1 != 0

/-- The runs of chunks with data, of which the last one is over at the end of the file. -/
def dataRuns (types : List Nat) : Nat :=
  (pairs types).countP endsData + if isData (types.getLastD 0) then 1 else 0

def holeRuns (types : List Nat) : Nat := (pairs types).countP endsHoles

end ModemSupport.Rooter.FirehoseRawmode
