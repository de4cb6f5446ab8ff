import ModemSupport.Lib.Memory
import ModemSupport.Rooter.Firehose

/-! The program commands of `firehose_protocol.c` for sparse images: the runs of chunks that
`fh_process_sparse_program` counts, and the commands that `fh_process_program` makes of them. -/

namespace ModemSupport.Rooter.Firehose

open Lib.Memory

inductive ChunkType where
  | raw
  | fill
  | dontCare
  | crc
  deriving DecidableEq

def ChunkType.code : ChunkType → Nat
  | .raw => 0xCAC1
  | .fill => 0xCAC2
  | .dontCare => 0xCAC3
  | .crc => 0xCAC4

/-- A chunk: its `chunk_header_t` and the data behind it. -/
structure Chunk where
  type : ChunkType
  reserved1 : Nat
  chunkSz : Nat
  data : Bytes
  deriving DecidableEq

namespace Chunk

def Sized (blkSz : Nat) (c : Chunk) : Prop :=
  match c.type with
  | .raw => c.data.length = c.chunkSz * blkSz
  | .fill => c.data.length = 4
  | .dontCare => c.data.length = 0
  | .crc => c.data.length = 4 ∧ c.chunkSz = 0

structure WellFormed (blkSz : Nat) (c : Chunk) : Prop where
  chunkSz : c.chunkSz < 2 ^ 32
  size : c.Sized blkSz

def bytes (c : Chunk) : Bytes :=
  toLE 2 c.type.code ++ toLE 2 c.reserved1 ++ toLE 4 c.chunkSz ++ toLE 4 (c.data.length + 12) ++
    c.data

/-- What a chunk stands for in the image that is not sparse. -/
def expansion (blkSz : Nat) (c : Chunk) : List (Option UInt8) :=
  match c.type with
  | .raw => c.data.map some
  | .fill => (List.range (c.chunkSz * blkSz)).map fun i => c.data[i % 4]?
  | .dontCare => List.replicate (c.chunkSz * blkSz) none
  | .crc => []

end Chunk

/-- A sparse image: its `sparse_header_t` and its chunks. -/
structure Image where
  minorVersion : Nat
  blkSz : Nat
  totalBlks : Nat
  checksum : Nat
  chunks : List Chunk

namespace Image

def header (image : Image) : Bytes :=
  toLE 4 0xed26ff3a ++ toLE 2 1 ++ toLE 2 image.minorVersion ++ toLE 2 28 ++ toLE 2 12 ++
    toLE 4 image.blkSz ++ toLE 4 image.totalBlks ++ toLE 4 image.chunks.length ++
    toLE 4 image.checksum

def bytes (image : Image) : Bytes := image.header ++ image.chunks.flatMap Chunk.bytes

structure WellFormed (sectorSize : Nat) (image : Image) : Prop where
  blocks : sectorSize ∣ image.blkSz
  chunks : ∀ c ∈ image.chunks, c.WellFormed image.blkSz
  size : image.bytes.length < 2 ^ 32

def expansion (image : Image) : List (Option UInt8) :=
  image.chunks.flatMap (Chunk.expansion image.blkSz)

end Image

structure ChunkHeader where
  chunkType : Nat
  chunkSz : Nat
  totalSz : Nat

def chunkHeader (buf : Bytes) : ChunkHeader :=
  ⟨ofLE (buf.take 2), ofLE ((buf.drop 4).take 4), ofLE ((buf.drop 8).take 4)⟩

def readHeader (buf file : Bytes) : Bytes × Bytes :=
  (file.take 12 ++ buf.drop (file.take 12).length, file.drop 12)

def ChunkHeader.dataSz (h : ChunkHeader) : Nat := (h.totalSz + (2 ^ 32 - 12)) % 2 ^ 32

structure Param where
  totalChunkSz : Nat
  totalSz : Nat
  totalChunkCount : Nat

namespace Param

def zero : Param := ⟨0, 0, 0⟩

def add (p : Param) (h : ChunkHeader) : Param :=
  ⟨(p.totalChunkSz + h.chunkSz) % 2 ^ 32, (p.totalSz + h.dataSz) % 2 ^ 32,
    (p.totalChunkCount + 1) % 2 ^ 32⟩

/-- `total_chunk_count` is a `uint16_t` in the table. -/
def stored (p : Param) : Param := { p with totalChunkCount := p.totalChunkCount % 2 ^ 16 }

end Param

def isData (type : Nat) : Bool := type == 0xCAC1 || type == 0xCAC2

structure Tables where
  lastTime : Nat
  total : Param
  data : List Param
  cac3 : List Param

namespace Tables

def init : Tables := ⟨0, .zero, [], []⟩

/-- One chunk; that it is the last one is dealt with in `last`. -/
def chunk (t : Tables) (h : ChunkHeader) : Tables :=
  let t' :=
    if isData h.chunkType then
      if !isData t.lastTime ∧ t.lastTime ≠ 0 then
        { t with cac3 := t.cac3 ++ [t.total.stored], total := Param.zero.add h }
      else if t.lastTime = 0 then { t with total := Param.zero.add h }
      else { t with total := t.total.add h }
    else if h.chunkType = 0xCAC3 then
      if t.lastTime ≠ 0xCAC3 ∧ t.lastTime ≠ 0 then
        { t with data := t.data ++ [t.total.stored], total := Param.zero.add h }
      else { t with total := t.total.add h }
    else t
  { t' with lastTime := h.chunkType }

def last (t : Tables) : Tables :=
  if isData t.lastTime then { t with data := t.data ++ [t.total.stored] } else t

end Tables

/-- How far `fseek` goes behind a header. -/
def skip (h : ChunkHeader) : Nat :=
  if isData h.chunkType ∨ h.chunkType = 0xCAC3 then h.dataSz else 0

def chunkLoop : Nat → Bytes → Bytes → Tables → Tables
  | 0, _, _, t => t
  | n + 1, buf, file, t =>
    let (buf, file) := readHeader buf file
    let h := chunkHeader buf
    let t := t.chunk h
    chunkLoop n buf (file.drop (skip h)) (if n = 0 then t.last else t)

structure SparseImg where
  data : List Param
  cac3 : List Param
  fileFirstSectorOffset : Nat

/-- `fh_process_sparse_program`; `none` when a table of 100 runs is overrun. -/
def fhProcessSparseProgram (file : Bytes) : Option SparseImg :=
  let header := file.take 28 ++ List.replicate (64 - (file.take 28).length) 0
  let t := chunkLoop (ofLE ((header.drop 20).take 4)) (List.replicate 12 0) (file.drop 28) .init
  if t.data.length ≤ 100 ∧ t.cac3.length ≤ 100 then
    some ⟨t.data, t.cac3, ofLE ((header.drop 8).take 2)⟩
  else none

/-- The rest of the file, what has been sent, and whether the buffer has been overrun. -/
structure Sending where
  file : Bytes
  sent : Bytes
  overrun : Bool

/-- One `fread` and the write behind it; `none` at the end of the file. -/
def sendPiece (payload sectorSize want : Nat) (o : Sending) : Option Sending :=
  let reads := o.file.take want
  if reads = [] then none
  else
    let pad := padding sectorSize reads.length
    some ⟨o.file.drop want, o.sent ++ (reads ++ List.replicate pad 0),
      o.overrun || decide (payload < reads.length + pad)⟩

def sendPieces (payload sectorSize : Nat) : Nat → Nat → Sending → Sending × Nat
  | 0, left, o => (o, left)
  | n + 1, left, o =>
    match sendPiece payload sectorSize payload o with
    | none => (o, left)
    | some o => sendPieces payload sectorSize n (left - payload) o

def sendChunk (payload sectorSize dataSz : Nat) (o : Sending) : Sending × Bool :=
  let (o, left) := sendPieces payload sectorSize (dataSz / payload) dataSz o
  if left > 0 then
    match sendPiece payload sectorSize left o with
    | none => (o, true)
    | some o => (o, false)
  else (o, false)

/-- The loop of `fh_send_rawmode_image` for a sparse image.  Where it goes on it has read from the
file, unless it does so for ever: then there is no result. -/
def sendChunks (payload sectorSize filesize : Nat) : Nat → Bytes → Sending → Option Sending
  | 0, _, _ => none
  | fuel + 1, buf, o =>
    let header := readHeader buf o.file
    let r := sendChunk payload sectorSize (chunkHeader header.1).dataSz { o with file := header.2 }
    if r.2 ∨ filesize ≤ r.1.sent.length then some r.1
    else sendChunks payload sectorSize filesize fuel header.1 r.1

def sparseFilesize (name : Str) (unsparseFileSize : Nat) : Nat :=
  if strncasecmp (unixFilename name) gptEmpty0 then (unsparseFileSize + (2 ^ 64 - 512)) % 2 ^ 64
  else unsparseFileSize

/-- What a `uint32_t` is as a number that is written with `%d`. -/
def printed (n : Nat) : Option Nat := if n < 2 ^ 31 then some n else none

/-- The target: the bytes of a command go into its sectors when they have all come. -/
def program (m : Mem) (sectorSize n start : Nat) (raw : Bytes) : Option Mem :=
  if n * sectorSize ≤ raw.length then
    some (put m (start * sectorSize) ((raw.take (n * sectorSize)).map some))
  else none

/-- How `fh_process_program` ends: with zero, with an error or not at all, or with more written to a
buffer or a table than it holds. -/
inductive Outcome where
  | returned (m : Mem)
  | failed
  | overrun

/-- The image of one command, from `fh_send_cmd` to the second answer. -/
def programRun (payload sectorSize : Nat) (name : Str) (file : Bytes) (unsparseFileSize n : Nat)
    (offset start : Nat) (m : Mem) : Outcome :=
  match printed sectorSize, printed n, printed start with
  | some sectorSize, some n, some start =>
    let filesize := sparseFilesize name unsparseFileSize
    match sendChunks payload sectorSize filesize (2 + file.length) (List.replicate 12 0)
        ⟨file.drop offset, [], false⟩ with
    | none => .failed
    | some o =>
      if o.overrun then .overrun
      else if o.sent.length < filesize then .failed
      else
        match program m sectorSize n start o.sent with
        | none => .failed
        | some m => .returned m
  | _, _, _ => .failed

/-- The loop over the runs, with what is left of the tables; what is behind the entries is zero.
The offset and the start for the next run are found at the end of a round. -/
def programLoop (payload sectorSize : Nat) (name : Str) (file : Bytes) :
    List Param → List Param → Nat → Nat → Mem → Outcome
  | [], _, _, _, m => .returned m
  | d :: ds, hs, offset, start, m =>
    let n := (d.totalSz / sectorSize + if d.totalSz % sectorSize ≠ 0 then 1 else 0) % 2 ^ 32
    match programRun payload sectorSize name file d.totalSz n offset start m with
    | .returned m =>
      let h := hs.headD .zero
      programLoop payload sectorSize name file ds hs.tail
        ((offset + d.totalSz + d.totalChunkCount * 12 + h.totalChunkCount * 12) % 2 ^ 32)
        ((start + n + h.totalChunkSz * 8 % 2 ^ 32) % 2 ^ 32) m
    | o => o

def fhProcessProgram (payload sectorSize start : Nat) (name : Str) (file : Bytes) (m : Mem) :
    Outcome :=
  match fhProcessSparseProgram file with
  | none => .overrun
  | some img =>
    programLoop payload sectorSize name file img.data img.cac3 img.fileFirstSectorOffset start m

/-- When `fh_process_program` returns zero the partition holds the image that is not sparse, and all
other sectors are as before. -/
structure Flashed (image : Image) (sectorSize start : Nat) (m : Mem) (o : Outcome) : Prop where
  buffers : o ≠ .overrun
  mem : ∀ m', o = .returned m' → m' = put m (start * sectorSize) image.expansion

end ModemSupport.Rooter.Firehose
