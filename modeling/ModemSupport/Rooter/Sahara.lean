import ModemSupport.Lib.Memory
import ModemSupport.Lib.Loop

/-! The upload of the programmer in `sahara.c`: `sahara_rx_data` on what each read from the device
delivers, `start_image_transfer` with what each write comes to, and the loop of
`sahara_flash_all`. -/

namespace ModemSupport.Rooter.Sahara

open Lib.Buffer Lib.Loop Lib.Memory

def rawBufSz : Nat := 4 * 1024

def sizeofPacketH : Nat := 8

/-- What each call of `qusb_noblock_read` delivers, if it is asked for as many bytes, where `none`
is -1; and how many bytes each call of `qusb_noblock_write` sends at most. -/
structure Device where
  reads : Nat → Option Bytes
  writes : Nat → Nat

def qCmd (buf : Bytes) : Nat := field buf 0 4
def qLen (buf : Bytes) : Nat := field buf 4 4

def endImageId (buf : Bytes) : Nat := field buf 8 4
def endStatus (buf : Bytes) : Nat := field buf 12 4
def doneStatus (buf : Bytes) : Nat := field buf 8 4

/-- What is left of a packet, as an `int`; a read of less than nothing fails. -/
def restLen (qLen : Nat) : Nat :=
  if sizeofPacketH ≤ qLen ∧ qLen - sizeofPacketH < 2 ^ 31 then qLen - sizeofPacketH else 0

/-- How `sahara_rx_data` ends: with more written than the buffer holds, with 0, or with 1 and the
bytes that have come. -/
inductive Rx where
  | overrun
  | failed (rx : Bytes) (reads : Nat)
  | packet (rx : Bytes) (reads : Nat) (received : Bytes)
  deriving DecidableEq

/-- `sahara_rx_data` for a packet; `reads` counts the reads so far. -/
def saharaRxData (usbfs : Bool) (d : Device) (rx : Bytes) (reads : Nat) : Rx :=
  if usbfs then
    let bs := ((d.reads reads).getD []).take rawBufSz
    let rx := store rx 0 bs
    if bs.length < sizeofPacketH then .failed rx (reads + 1)
    else if qCmd rx < 0x13 then
      if bs.length = qLen rx then .packet rx (reads + 1) bs else .failed rx (reads + 1)
    else .failed rx (reads + 1)
  else
    let bs := ((d.reads reads).getD []).take sizeofPacketH
    let rx := store rx 0 bs
    if bs.length ≠ sizeofPacketH then .failed rx (reads + 1)
    else if qCmd rx < 0x13 then
      match d.reads (reads + 1) with
      | none =>
        -- 8 and -1 bytes
        if qLen rx = 7 then .packet rx (reads + 2) bs else .failed rx (reads + 2)
      | some more =>
        let more := more.take (restLen (qLen rx))
        if rawBufSz < sizeofPacketH + more.length then .overrun
        else
          let rx' := store rx sizeofPacketH more
          if sizeofPacketH + more.length = qLen rx then .packet rx' (reads + 2) (bs ++ more)
          else .failed rx' (reads + 2)
    else .failed rx (reads + 1)

/-- The loop of `start_image_transfer` from a place in the file, with the bytes that are sent and
the number of writes. -/
def transferLoop (d : Device) : (fuel : Nat) → Bytes → Nat → Nat → Bytes × Nat
  | 0, _, _, writes => ([], writes)
  | fuel + 1, file, left, writes =>
    if left = 0 then ([], writes)
    else
      let next := min left rawBufSz
      let piece := file.take next
      if piece.length ≠ next then ([], writes)
      else
        let sent := min (d.writes writes) next
        if sent = 0 then ([], writes + 1)
        else
          let r := transferLoop d fuel (file.drop next) (left - next) (writes + 1)
          (piece.take sent ++ r.1, r.2)

/-- `DataOffset` and `DataLength`, which have 32 bits. -/
def dataRange (buf : Bytes) : Nat × Nat :=
  if qCmd buf = 0x12 then (field buf 16 8 % 2 ^ 32, field buf 24 8 % 2 ^ 32)
  else (field buf 12 4, field buf 16 4)

/-- `start_image_transfer`; each round of the loop is for a byte or more. -/
def startImageTransfer (d : Device) (file rx : Bytes) (writes : Nat) : Bytes × Nat :=
  let (dataOffset, dataLength) := dataRange rx
  transferLoop d dataLength (file.drop dataOffset) dataLength writes

/-- Where `sahara_flash_all` is: in front of a call of `sahara_rx_data` for the first hello, for the
second try, in the loop, or for the answer to the done packet. -/
inductive Pc where
  | first
  | second
  | loop
  | done (qImageId : Nat)

structure State where
  pc : Pc
  rx : Bytes
  reads : Nat
  writes : Nat

/-- A request has come and bytes have been sent, from the write of a number on; the end of the image
has come; or `sahara_flash_all` returns. -/
inductive Event where
  | overrun
  | request (received : Bytes) (writes : Nat) (sent : Bytes)
  | ended (received : Bytes)
  | returned (ok : Bool)

/-- The last status; some images end without the device being in the mode of the programmer. -/
def finished (qImageId status : Nat) : Bool :=
  if status = 0 then qImageId == 13 || qImageId == 7 || qImageId == 21 else status == 1

/-- Behind the first packet: `send_hello_response`. -/
def hello (d : Device) (rx : Bytes) (reads writes : Nat) : List Event × Option State :=
  if qCmd rx ≠ 1 then ([.returned false], none)
  else if min (d.writes writes) 48 = 0 then ([.returned false], none)
  else ([], some ⟨.loop, rx, reads, writes + 1⟩)

def loopPacket (d : Device) (file rx : Bytes) (reads writes : Nat) (received : Bytes) :
    List Event × Option State :=
  if qCmd rx = 0x03 ∨ qCmd rx = 0x12 then
    let r := startImageTransfer d file rx writes
    ([.request received writes r.1], some ⟨.loop, rx, reads, r.2⟩)
  else if qCmd rx = 0x04 then
    if endStatus rx = 0 then
      ([.ended received], some ⟨.done (endImageId rx), rx, reads, writes + 1⟩)
    else ([.returned false], none)
  else if qCmd rx = 0x01 then ([], some ⟨.loop, rx, reads, writes⟩)
  else ([.returned false], none)

/-- `sahara_flash_all` from one call of `sahara_rx_data` to the next one. -/
def step (usbfs : Bool) (d : Device) (file : Bytes) (s : State) : List Event × Option State :=
  match saharaRxData usbfs d s.rx s.reads, s.pc with
  | .overrun, _ => ([.overrun], none)
  | .failed rx reads, .first => ([], some ⟨.second, rx, reads, s.writes + 1⟩)
  | .failed _ _, _ => ([.returned false], none)
  | .packet rx reads _, .first | .packet rx reads _, .second => hello d rx reads s.writes
  | .packet rx reads received, .loop => loopPacket d file rx reads s.writes received
  | .packet rx _ _, .done qImageId => ([.returned (finished qImageId (doneStatus rx))], none)

def start (rx : Bytes) : State := ⟨.first, rx, 0, 0⟩

def requestOf (received : Bytes) : Option (Nat × Nat) :=
  if qCmd received = 0x12 then
    if 32 ≤ received.length then some (field received 16 8, field received 24 8) else none
  else if 20 ≤ received.length then some (field received 12 4, field received 16 4)
  else none

def range (file : Bytes) (r : Nat × Nat) : Bytes := (file.drop r.1).take r.2

def Event.Served (file : Bytes) : Event → Prop
  | .request received _ sent =>
    ∃ r, requestOf received = some r ∧ r.1 + r.2 ≤ file.length ∧ sent = range file r
  | .ended received => 16 ≤ received.length ∧ endStatus received = 0
  | _ => True

def WritesAll (d : Device) (writes length : Nat) : Prop :=
  ∀ i, rawBufSz * i < length → min (length - rawBufSz * i) rawBufSz ≤ d.writes (writes + i)

/-- What a range is to be like to be sent: its offset and length have 32 bits, or the bytes are the
same at the offset without the rest of it; and the writes go through. -/
def Sendable (d : Device) (file : Bytes) (writes : Nat) (r : Nat × Nat) : Prop :=
  r.2 < 2 ^ 32 ∧ range file (r.1 % 2 ^ 32, r.2) = range file r ∧ WritesAll d writes r.2

def Event.Servable (d : Device) (file : Bytes) : Event → Prop
  | .request received writes _ =>
    ∃ r, requestOf received = some r ∧ r.1 + r.2 ≤ file.length ∧ Sendable d file writes r
  | .ended received => 16 ≤ received.length
  | _ => True

end ModemSupport.Rooter.Sahara
