import ModemSupport.Lib.Memory
import ModemSupport.Lib.Transition

/-! The memory dump of `sahara.c`: `sahara_start` from the memory table to the last file, the port
that its `sahara_rx_data` reads from, and the device behind the port. -/

namespace ModemSupport.Rooter.RamDump

open Lib.Memory Lib.Transition

abbrev Bytes := List UInt8

def saharaRawBufferSize : Nat := 64 * 1024

def miscBufferSize : Nat := 2048

def maxToRead : Nat := 1024 * 64

/-- Below this `max_ram_dump_read` is not halved any more. -/
def minRamDumpRead : Nat := 16 * 1024

def sizeofPacketHeader : Nat := 8
def saharaLastCmdId : Nat := 0x13

/-- The memory of a device, the form of its requests, and where its memory table is. -/
structure Device where
  mem : Mem
  ramDump64bit : Bool
  memoryTableAddr : Nat
  memoryTableLength : Nat

def Device.width (d : Device) : Nat := if d.ramDump64bit then 64 else 32

def Device.bytes (d : Device) (addr length : Nat) : Bytes :=
  (List.range length).map fun i => d.mem ((addr + i) % 2 ^ d.width)

def Device.answer (d : Device) (addr length : Nat) : Bytes :=
  d.bytes (addr % 2 ^ d.width) (length % 2 ^ d.width)

/-- `dload_debug_type_64bit`.  The file name is to end with a NUL. -/
structure Entry where
  memBase : Nat
  length : Nat
  filename : Bytes

def sizeofDebugType (ramDump64bit : Bool) : Nat := if ramDump64bit then 64 else 52

def sizeofDebugType64 : Nat := sizeofDebugType true

def field (bs : Bytes) (offset size : Nat) : Bytes := (bs.drop offset).take size

def entry (ramDump64bit : Bool) (bs : Bytes) : Entry :=
  if ramDump64bit then ⟨ofLE (field bs 8 8), ofLE (field bs 16 8), field bs 44 20⟩
  else ⟨ofLE (field bs 4 4), ofLE (field bs 8 4), field bs 32 20⟩

def entries (ramDump64bit : Bool) : Nat → Bytes → List Entry
  | 0, _ => []
  | n + 1, bs =>
    entry ramDump64bit bs :: entries ramDump64bit n (bs.drop (sizeofDebugType ramDump64bit))

def Device.numDebugEntries (d : Device) : Nat :=
  d.memoryTableLength / sizeofDebugType d.ramDump64bit

def Device.table (d : Device) : List Entry :=
  entries d.ramDump64bit d.numDebugEntries (d.answer d.memoryTableAddr d.memoryTableLength)

def Device.isValidMemoryTable (d : Device) : Bool :=
  d.memoryTableLength % sizeofDebugType d.ramDump64bit == 0

/-- Where `sahara_start` is: in `sahara_rx_data` for the memory table; in front of `open`; at the
head of the loop over an entry; in `sahara_rx_data` for some bytes, for a packet header, or for
what the header says; in front of `write`; at a reset of the device, behind the last entry or
because of its table; at a `return false`; at `exit(0)`; or past the end of a buffer, where
nothing more can be said. -/
inductive Pc where
  | waitMemoryTable (got : Bytes)
  | openFile
  | readRegion
  | rxData (len : Nat) (got : Bytes)
  | rxHeader
  | rxPacket (length : Nat)
  | writeFile (buf : Bytes)
  | dumped
  | invalidTable
  | returnFalse
  | exited
  | overrun
  deriving DecidableEq

/-- `outgoing` is what the device has not sent yet of its answers, and `port` what has come and is
not read.  `memoryTable` has the entries that are not finished; `file` is the file of the first
one. Ghost: the finished entries, each with its file when it is closed. -/
structure State where
  pc : Pc
  outgoing : Bytes
  port : Bytes
  memoryTable : List Entry
  cur : Nat
  maxRamDumpRead : Nat
  file : Bytes
  finished : List (Entry × Bytes)

inductive Label where
  | arrive (k : Nat)
  | lose (k : Nat)
  | read (k : Nat)
  | timeout
  | openFile (ok : Bool)
  | send (ok : Bool)
  | write (retval : Option Nat)
  | next

def waitCommand (d : Device) : State :=
  let s : State := ⟨.openFile, [], [], [], 0, saharaRawBufferSize, [], []⟩
  if !d.isValidMemoryTable then { s with pc := .invalidTable }
  else if d.memoryTableLength = 0 then s
  else
    let s := { s with outgoing := d.answer d.memoryTableAddr d.memoryTableLength }
    if saharaRawBufferSize < d.memoryTableLength then { s with pc := .returnFalse }
    else { s with pc := .waitMemoryTable [] }

def State.waitMemoryTable (d : Device) (s : State) (table : Bytes) : State :=
  if saharaRawBufferSize < d.numDebugEntries * sizeofDebugType64 then { s with pc := .returnFalse }
  else if miscBufferSize < d.numDebugEntries * sizeofDebugType64 then { s with pc := .overrun }
  else { s with pc := .openFile, memoryTable := entries d.ramDump64bit d.numDebugEntries table }

def chunk (e : Entry) (cur maxRamDumpRead : Nat) : Nat :=
  min ((e.length - cur) % 2 ^ 32) maxRamDumpRead

/-- `sahara_rx_data` has returned false in the loop over an entry. -/
def State.failed (s : State) : State :=
  if minRamDumpRead < s.maxRamDumpRead then
    { s with pc := .readRegion, maxRamDumpRead := s.maxRamDumpRead / 2 }
  else { s with pc := .returnFalse }

/-- `port_rx_data` returns false. -/
def State.timeout (s : State) : Option State :=
  match s.pc with
  | .waitMemoryTable _ => some { s with pc := .returnFalse }
  | .rxData _ _ | .rxHeader | .rxPacket _ => some s.failed
  | _ => none

def State.read (d : Device) (s : State) (k : Nat) : Option State :=
  if 0 < k ∧ k ≤ s.port.length ∧ k ≤ maxToRead then
    let more := s.port.take k
    let rest := { s with port := s.port.drop k }
    match s.pc with
    | .waitMemoryTable got =>
      if got.length + k < d.memoryTableLength then
        some { rest with pc := .waitMemoryTable (got ++ more) }
      else if got.length + k = d.memoryTableLength then
        some (rest.waitMemoryTable d (got ++ more))
      else none
    | .rxData len got =>
      if got.length + k < len then some { rest with pc := .rxData len (got ++ more) }
      else if got.length + k = len then
        some { rest with pc := .writeFile (got ++ more), cur := s.cur + len }
      else none
    | .rxHeader =>
      if k < sizeofPacketHeader then some rest.failed
      else if k = sizeofPacketHeader then
        if ofLE (field more 0 4) < saharaLastCmdId then
          some { rest with pc := .rxPacket (ofLE (field more 4 4)) }
        else some rest.failed
      else none
    | .rxPacket length =>
      -- The length is a `size_t`, below the size of the header it wraps.
      let want := (length + 2 ^ 64 - sizeofPacketHeader) % 2 ^ 64
      if want < k then none
      else if saharaRawBufferSize < sizeofPacketHeader + k then some { rest with pc := .overrun }
      else if k = want then some { rest with pc := .writeFile [] }
      else some rest.failed
    | _ => none
  else none

def State.send (d : Device) (s : State) (ok : Bool) : Option State :=
  match s.pc, s.memoryTable with
  | .readRegion, e :: _ =>
    if s.cur < e.length then
      let len := chunk e s.cur s.maxRamDumpRead
      if ok then
        some { s with
          pc := if len = 0 then .rxHeader else .rxData len []
          outgoing := s.outgoing ++ d.answer (e.memBase + s.cur) len }
      else some { s with pc := .returnFalse }
    else none
  | _, _ => none

/-- The end of the loop over an entry, or of the loop over the table. -/
def State.next (s : State) : Option State :=
  match s.pc, s.memoryTable with
  | .readRegion, e :: es =>
    if e.length ≤ s.cur then
      some { s with pc := .openFile, memoryTable := es, finished := s.finished ++ [(e, s.file)] }
    else none
  | .openFile, [] => some { s with pc := .dumped }
  | _, _ => none

def step (d : Device) (s : State) : Label → Option State
  | .arrive k =>
    if 0 < k ∧ k ≤ s.outgoing.length then
      some { s with port := s.port ++ s.outgoing.take k, outgoing := s.outgoing.drop k }
    else none
  | .lose k =>
    if 0 < k ∧ k ≤ s.outgoing.length then
      some { s with outgoing := s.outgoing.take (s.outgoing.length - k) }
    else none
  | .read k => s.read d k
  | .timeout => s.timeout
  | .openFile ok =>
    if s.pc = .openFile ∧ s.memoryTable ≠ [] then
      some (if ok then { s with pc := .readRegion, cur := 0, file := [] }
        else { s with pc := .exited })
    else none
  | .send ok => s.send d ok
  | .write retval =>
    match s.pc, retval with
    | .writeFile _, none => some { s with pc := .returnFalse }
    | .writeFile buf, some k =>
      if k ≤ buf.length then some { s with pc := .readRegion, file := s.file ++ buf.take k }
      else none
    | _, _ => none
  | .next => s.next

/-- The files of the finished entries, the first ones of the table, have the bytes of their regions;
at the end of the dump that is every entry.  No buffer has been written past its end. -/
structure Faithful (d : Device) (s : State) : Prop where
  entries : s.finished.map Prod.fst <+: d.table
  files : ∀ x ∈ s.finished, x.2 = d.bytes x.1.memBase x.1.length
  all : s.pc = .dumped → s.finished.map Prod.fst = d.table
  defined : s.pc ≠ .overrun

def Pc.Running : Pc → Prop
  | .dumped | .invalidTable | .returnFalse | .exited | .overrun => False
  | _ => True

/-- No run goes on forever, and `sahara_start` does not stop within its loops. -/
structure Terminates (d : Device) (s : State) : Prop where
  finite : Acc (fun t s => ∃ l, step d s l = some t) s
  progress : s.pc.Running → ∃ l t, step d s l = some t

end ModemSupport.Rooter.RamDump
