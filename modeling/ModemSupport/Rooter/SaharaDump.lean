import ModemSupport.Lib.Memory
import ModemSupport.Lib.Loop

/-! The accesses of `sahara_start` in the dump client of qlog, from one read of a packet, of the
memory table or of a region to the next one, for everything that may come from the device. -/

namespace ModemSupport.Rooter.SaharaDump

open Lib.Buffer Lib.Loop Lib.Memory

def rawBufferSize : Nat := 64 * 1024

def txBufferSize : Nat := 2048
def miscBufferSize : Nat := 2048
def fullFilenameSize : Nat := 255

def maxToRead : Nat := 1024 * 64

def sizeofHeader : Nat := 8

/-- What is around the program.  `reads` has what each read of the port delivers, if it is asked for
as many bytes; nothing is delivered when it fails. -/
structure Env where
  reads : Nat → Bytes
  sends : Nat → Bool
  opens : Nat → Bool
  writes : Nat → Bool
  pathToSaveFiles : Option Bytes
  doReset : Bool

/-- What is written or read: bytes of a buffer, or of the entries of the table, which have a
size. -/
inductive Access where
  | rxBuffer (start length : Nat)
  | txBuffer (length : Nat)
  | miscBuffer (start length : Nat)
  | fullFilename (length : Nat)
  | table (start length size : Nat)

def Access.InBounds : Access → Prop
  | .rxBuffer start length => start + length ≤ rawBufferSize
  | .txBuffer length => length ≤ txBufferSize
  | .miscBuffer start length => start + length ≤ miscBufferSize
  | .fullFilename length => length ≤ fullFilenameSize
  | .table start length size => start + length ≤ size

def command (buf : Bytes) : Nat := field buf 0 4

def packetRest (length : Nat) : Nat := (length + (2 ^ 64 - sizeofHeader)) % 2 ^ 64

/-- How `sahara_rx_data` ends: what is accessed, what it returns, the buffer, and the number of
reads so far. -/
structure Rx where
  accesses : List Access
  ok : Bool
  rx : Bytes
  reads : Nat

variable (env : Env)

/-- `sahara_rx_data(0)`: a packet. -/
def rxPacket (rx : Bytes) (reads : Nat) : Rx :=
  let rx := store rx 0 (List.replicate sizeofHeader 0)
  let header := (env.reads reads).take sizeofHeader
  let rx := store rx 0 header
  let accesses := [.rxBuffer 0 sizeofHeader, .rxBuffer 0 header.length]
  if header.length ≠ sizeofHeader then ⟨accesses, false, rx, reads + 1⟩
  else if command rx < 0x13 then
    let rest := packetRest (field rx 4 4)
    let more := (env.reads (reads + 1)).take (min rest maxToRead)
    let accesses := accesses ++ [.rxBuffer sizeofHeader more.length]
    let rx := store rx sizeofHeader more
    ⟨accesses, decide (more ≠ [] ∧ more.length = rest), rx, reads + 2⟩
  else ⟨accesses, false, rx, reads + 1⟩

/-- The loop of `sahara_rx_data(bytes_to_read)`, in which every read delivers a byte or more. -/
def rxLoop (bytesToRead : Nat) : (fuel got : Nat) → Bytes → Nat → Rx
  | 0, _, rx, reads => ⟨[], true, rx, reads⟩
  | fuel + 1, got, rx, reads =>
    if bytesToRead ≤ got then ⟨[], true, rx, reads⟩
    else
      let bs := (env.reads reads).take (min (bytesToRead - got) maxToRead)
      if bs = [] then ⟨[], false, rx, reads + 1⟩
      else
        let r := rxLoop bytesToRead fuel (got + bs.length) (store rx got bs) (reads + 1)
        { r with accesses := .rxBuffer got bs.length :: r.accesses }

def rxBytes (bytesToRead : Nat) (rx : Bytes) (reads : Nat) : Rx :=
  rxLoop env bytesToRead bytesToRead 0 rx reads

def saharaRxData (bytesToRead : Nat) (rx : Bytes) (reads : Nat) : Rx :=
  if bytesToRead = 0 then rxPacket env rx reads else rxBytes env bytesToRead rx reads

def sizeofDebugType (ramDump64bit : Bool) : Nat := if ramDump64bit then 64 else 52

def strncpy20 (bs : Bytes) : Bytes :=
  let s := (bs.take 20).takeWhile (· ≠ 0)
  s ++ List.replicate (20 - s.length) 0

def convertEntry (e : Bytes) : Bytes :=
  toLE 8 (field e 0 4) ++ (toLE 8 (field e 4 4) ++ (toLE 8 (field e 8 4) ++
    (strncpy20 (e.drop 12) ++ strncpy20 (e.drop 32))))

def convert : Nat → Bytes → Bytes
  | 0, _ => []
  | n + 1, bs => convertEntry (bs.take 52) ++ convert n (bs.drop 52)

def stringAccess (table : Bytes) (start : Nat) : Access :=
  .table start (((table.drop start).takeWhile (· ≠ 0)).length + 1) table.length

def filenameAt (i : Nat) : Nat := 64 * i + 44

def nameLength (table : Bytes) (i : Nat) : Nat :=
  ((table.drop (filenameAt i)).takeWhile (· ≠ 0)).length

def printed (table : Bytes) (n : Nat) : List Access :=
  (List.range n).flatMap fun i =>
    [.table (64 * i) 24 table.length, stringAccess table (64 * i + 24),
      stringAccess table (filenameAt i)]

/-- Where `sahara_start` is: in front of the first hello and of its second try, in one of the states
with a read, at the next entry, or in the loop over an entry. -/
inductive Pc where
  | waitHello
  | secondHello
  | waitCommand
  | waitMemoryTable (memoryTableLength : Nat)
  | entry (i : Nat)
  | region (i cur : Nat)
  | waitResetResp

structure State where
  pc : Pc
  rx : Bytes
  table : Bytes
  ramDump64bit : Bool
  maxRamDumpRead : Nat
  reads : Nat
  sends : Nat
  opens : Nat
  writes : Nat

abbrev Next := List Access × Option State

def after (accesses : List Access) (r : Next) : Next := (accesses ++ r.1, r.2)

def send (length : Nat) (s : State) (behind : State → Next) : Next :=
  if env.sends s.sends then after [.txBuffer length] (behind { s with sends := s.sends + 1 })
  else ([.txBuffer length], none)

def goTo (pc : Pc) (s : State) : Next := ([], some { s with pc })

def stop : Next := ([], none)

def reset (s : State) : Next := send env 8 s (goTo .waitResetResp)

def sizeofMemoryRead (ramDump64bit : Bool) : Nat := if ramDump64bit then 24 else 16

/-- Behind the first packet; a hello is answered with 48 bytes. -/
def hello (s : State) : Next :=
  if command s.rx ≠ 1 then reset env s
  else if field s.rx 20 4 ≠ 2 then ([.txBuffer 48], none)
  else send env 48 s (goTo .waitCommand)

def debugLength (ramDump64bit : Bool) (rx : Bytes) : Nat :=
  if ramDump64bit then field rx 16 8 else field rx 12 4

def waitCommand (s : State) : Next :=
  if command s.rx = 0x09 ∨ command s.rx = 0x10 then
    let s := { s with ramDump64bit := decide (command s.rx = 0x10) }
    let memoryTableLength := debugLength s.ramDump64bit s.rx
    if memoryTableLength % sizeofDebugType s.ramDump64bit ≠ 0 then reset env s
    else if 0 < memoryTableLength then
      send env (sizeofMemoryRead s.ramDump64bit) s fun s =>
        if rawBufferSize < memoryTableLength then stop
        else goTo (.waitMemoryTable memoryTableLength) s
    else goTo (.waitMemoryTable 0) s
  else if command s.rx = 0x01 then goTo .waitCommand s
  else reset env s

def copyTable (memoryTableLength : Nat) (s : State) : Next :=
  let n := memoryTableLength / sizeofDebugType s.ramDump64bit
  let received := s.rx.take memoryTableLength
  if s.ramDump64bit then
    after ([.table 0 memoryTableLength received.length, .miscBuffer 0 memoryTableLength] ++
      printed received n) (goTo (.entry 0) { s with table := received })
  else if rawBufferSize < n * 64 then stop
  else
    let table := convert n received
    after ((List.range n).flatMap (fun i =>
      [.table (52 * i) 52 received.length, .miscBuffer (64 * i) 64]) ++ printed table n)
      (goTo (.entry 0) { s with table })

def waitMemoryTable (memoryTableLength : Nat) (s : State) : Next :=
  if 0 < memoryTableLength then
    let r := saharaRxData env memoryTableLength s.rx s.reads
    let s := { s with rx := r.rx, reads := r.reads }
    after r.accesses (if r.ok then copyTable memoryTableLength s else stop)
  else goTo (.entry 0) { s with table := [] }

def pathLength : Nat := (env.pathToSaveFiles.map fun p => p.length + 1).getD 0

/-- The file of an entry is opened; when that fails an entry behind the last one is printed. -/
def openEntry (i : Nat) (s : State) : Next :=
  if i < s.table.length / 64 then
    after [.fullFilename (pathLength env + 1), stringAccess s.table (filenameAt i),
        .fullFilename (pathLength env + nameLength s.table i + 1)]
      (if env.opens s.opens then goTo (.region i 0) { s with opens := s.opens + 1 }
      else ([stringAccess s.table (filenameAt (s.table.length / 64))], none))
  else if env.doReset then reset env s
  else stop

def chunk (s : State) (i cur : Nat) : Nat :=
  min ((field s.table (64 * i + 16) 8 - cur) % 2 ^ 32) s.maxRamDumpRead

def readRegion (i cur : Nat) (s : State) : Next :=
  after [.table (64 * i) 24 s.table.length]
    (if cur < field s.table (64 * i + 16) 8 then
      send env (sizeofMemoryRead s.ramDump64bit) s fun s =>
        let len := chunk s i cur
        let r := saharaRxData env len s.rx s.reads
        let s := { s with rx := r.rx, reads := r.reads }
        after r.accesses
          (if r.ok then
            if env.writes s.writes then
              goTo (.region i (cur + len)) { s with writes := s.writes + 1 }
            else stop
          else if 16 * 1024 < s.maxRamDumpRead then
            goTo (.region i cur) { s with maxRamDumpRead := s.maxRamDumpRead / 2 }
          else stop)
    else after [stringAccess s.table (filenameAt i)] (goTo (.entry (i + 1)) s))

def step (s : State) : Next :=
  match s.pc with
  | .waitHello =>
    let r := saharaRxData env 0 s.rx s.reads
    let s := { s with rx := r.rx, reads := r.reads }
    after r.accesses
      (if r.ok then hello env s else goTo .secondHello { s with sends := s.sends + 1 })
  | .secondHello =>
    let r := saharaRxData env 0 s.rx s.reads
    let s := { s with rx := r.rx, reads := r.reads }
    after r.accesses (if r.ok then hello env s else stop)
  | .waitCommand =>
    let r := saharaRxData env 0 s.rx s.reads
    let s := { s with rx := r.rx, reads := r.reads }
    after r.accesses (if r.ok then waitCommand env s else stop)
  | .waitMemoryTable memoryTableLength => waitMemoryTable env memoryTableLength s
  | .entry i => openEntry env i s
  | .region i cur => readRegion env i cur s
  | .waitResetResp =>
    let r := saharaRxData env 0 s.rx s.reads
    let s := { s with rx := r.rx, reads := r.reads }
    after r.accesses (if r.ok ∧ command s.rx ≠ 0x08 then goTo .waitResetResp s else stop)

def start (rx : Bytes) : State := ⟨.waitHello, rx, [], false, rawBufferSize, 0, 0, 0, 0⟩

/-- The rest of a packet, if its header has come whole, has room behind it. -/
def PacketFits (reads : Nat) : Prop :=
  sizeofHeader ≤ (env.reads reads).length → command (env.reads reads) < 0x13 →
    min (env.reads (reads + 1)).length (packetRest (field (env.reads reads) 4 4)) ≤
      rawBufferSize - sizeofHeader

/-- The last name of a table has its null. -/
def Terminated (table : Bytes) : Prop := 0 ∈ table.drop (table.length - 20)

/-- A table that comes: its entries have room as entries of 64 bytes, and the last name its null. -/
def TableFits (ramDump64bit : Bool) (table : Bytes) : Prop :=
  (ramDump64bit = false ∧ rawBufferSize < table.length / 52 * 64) ∨
    table.length / sizeofDebugType ramDump64bit * 64 ≤ miscBufferSize ∧ Terminated table

def Clear (s : State) : Prop :=
  match s.pc with
  | .waitHello | .secondHello | .waitCommand | .waitResetResp => PacketFits env s.reads
  | .waitMemoryTable memoryTableLength =>
    0 < memoryTableLength → (rxBytes env memoryTableLength s.rx s.reads).ok = true →
      TableFits s.ramDump64bit ((rxBytes env memoryTableLength s.rx s.reads).rx.take
        memoryTableLength)
  | .entry i =>
    i < s.table.length / 64 → 0 ∈ s.table.drop (filenameAt i) ∧
      pathLength env + nameLength s.table i < fullFilenameSize ∧ env.opens s.opens = true
  | .region i cur =>
    if cur < field s.table (64 * i + 16) 8 then
      env.sends s.sends = true → chunk s i cur = 0 → PacketFits env s.reads
    else 0 ∈ s.table.drop (filenameAt i)

end ModemSupport.Rooter.SaharaDump
