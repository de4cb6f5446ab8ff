import ModemSupport.Lib.Memory
import ModemSupport.Lib.Transition

/-! `usb2tcp.c` between a USB endpoint and a socket, and the reads and writes of `usb_linux.c` at
the other end of the socket, once the two are connected.  The socket carries its bytes in order,
and a call moves as many of them as it happens to. -/

namespace ModemSupport.Rooter.Usb2tcp

open Lib.Memory Lib.Transition

abbrev Bytes := List UInt8

def qUsb2tcpVersion : Nat := 0x12345678

def maxBulkIn : Nat := 4 * 1024
def maxBulkOut : Nat := 16 * 1024

structure Tlv where
  tag : Nat
  length : Nat

def Tlv.bytes (tlv : Tlv) : Bytes := toLE 4 tlv.tag ++ toLE 4 tlv.length

def Tlv.ofBytes (bs : Bytes) : Tlv := ⟨ofLE (bs.take 4), ofLE ((bs.drop 4).take 4)⟩

def int32 (n : Nat) : Int := if n < 2 ^ 31 then n else n - 2 ^ 32

def header (size : Nat) : Bytes := Tlv.bytes ⟨qUsb2tcpVersion, size⟩

/-- Where the flasher is: in `qusb_noblock_write` in front of a call of `qtcp_write` or in the
loop of it, in `qusb_noblock_read` in front of a call of `qtcp_read` or in the loop of it, or in
neither.  A write has `cur` bytes of its buffer behind it and `done` bytes of its call; a read has
got some bytes, and wants more of a frame of which it has a piece. -/
inductive Flasher where
  | idle
  | writing (buf : Bytes) (cur : Nat)
  | writeBody (buf : Bytes) (cur done : Nat)
  | reading (max min : Nat) (got : Bytes)
  | readBody (max min : Nat) (got : Bytes) (want : Nat) (piece : Bytes)
  deriving DecidableEq

/-- Where `usb2tcp_main` is: at its `poll`, in a `noblock_full_read` of a header or of what follows
it, in its writes to the socket, or at its end. -/
inductive Bridge where
  | poll
  | readHeader (got : Bytes)
  | readBody (size : Nat) (got : Bytes)
  | sending (rest : Bytes)
  | closed
  deriving DecidableEq

/-- The two ends and the bytes under way between them.  Ghosts: the buffers that the flasher has
written with success, what its reads have returned, the transfers to and from the endpoint, and
whether `usb2tcp_main` has read past its buffer. -/
structure State where
  flasher : Flasher
  tlv : Tlv
  toBridge : Bytes
  toFlasher : Bytes
  bridge : Bridge
  written : List Bytes
  reads : List Bytes
  usbOut : List Bytes
  usbIn : List Bytes
  overrun : Bool

def init : State :=
  ⟨.idle, ⟨qUsb2tcpVersion, 0⟩, [], [], .poll, [], [], [], [], false⟩

inductive Label where
  | write (buf : Bytes)
  | wrote (k : Nat)
  | read (max min : Nat)
  | took (k : Nat)
  | go
  | timeout
  | usb (transfer : Bytes)
  | sent (k : Nat)
  | bridgeTook (k : Nat)
  | hangup

def State.returns (s : State) (got : Bytes) : State :=
  { s with flasher := .idle, reads := s.reads ++ [got] }

/-- `qtcp_read` behind the header: the size comes off `tlv.length` before a byte has been read. -/
def State.enter (s : State) (max min : Nat) (got : Bytes) : State :=
  let length := (int32 s.tlv.length).toNat
  let want := Min.min (max - got.length) length
  let s := { s with tlv := ⟨s.tlv.tag, length - want⟩ }
  if want = 0 then s.returns got else { s with flasher := .readBody max min got want [] }

/-- A call of `qtcp_read` returns some bytes. -/
def State.piece (s : State) (max min : Nat) (got piece : Bytes) : State :=
  let got := got ++ piece
  if piece ≠ [] ∧ got.length < min then { s with flasher := .reading max min got }
  else s.returns got

/-- A call of `qtcp_write` returns. -/
def State.wroteBody (s : State) (buf : Bytes) (cur done : Nat) : State :=
  if cur + done = buf.length then
    { s with flasher := .idle, written := s.written ++ [buf] }
  else if done = 0 then { s with flasher := .idle }
  else { s with flasher := .writing buf (cur + done) }

def State.timeout (s : State) : Option State :=
  match s.flasher with
  | .idle => none
  | .writing _ _ => some { s with flasher := .idle }
  | .writeBody buf cur done => some (s.wroteBody buf cur done)
  | .reading _ _ got => some (s.returns got)
  | .readBody max min got _ piece => some (s.piece max min got piece)

/-- `write` has taken some bytes, of the header or of what follows it. -/
def State.wrote (s : State) (k : Nat) : Option State :=
  match s.flasher with
  | .writing buf cur =>
    if k ≤ 8 then
      let s := { s with toBridge := s.toBridge ++ (header (buf.length - cur)).take k }
      if k = 8 then some { s with flasher := .writeBody buf cur 0 }
      else some { s with flasher := .idle }
    else none
  | .writeBody buf cur done =>
    if 0 < k ∧ cur + done + k ≤ buf.length then
      let s := { s with toBridge := s.toBridge ++ (buf.drop (cur + done)).take k }
      if cur + done + k = buf.length then some (s.wroteBody buf cur (done + k))
      else some { s with flasher := .writeBody buf cur (done + k) }
    else none
  | _ => none

/-- `read` has given some bytes, of the header or of what follows it. -/
def State.took (s : State) (k : Nat) : Option State :=
  match s.flasher with
  | .reading max min got =>
    if s.tlv.length = 0 ∧ 0 < k ∧ k ≤ 8 ∧ k ≤ s.toFlasher.length then
      let tlv := Tlv.ofBytes (s.toFlasher.take k ++ s.tlv.bytes.drop k)
      let s := { s with tlv, toFlasher := s.toFlasher.drop k }
      if k = 8 ∧ tlv.tag = qUsb2tcpVersion then some (s.enter max min got)
      else some (s.returns got)
    else none
  | .readBody max min got want piece =>
    if 0 < k ∧ piece.length + k ≤ want ∧ k ≤ s.toFlasher.length then
      let piece := piece ++ s.toFlasher.take k
      let s := { s with toFlasher := s.toFlasher.drop k }
      if piece.length = want then some (s.piece max min got piece)
      else some { s with flasher := .readBody max min got want piece }
    else none
  | _ => none

def State.go (s : State) : Option State :=
  match s.flasher with
  | .reading max min got =>
    if s.tlv.length ≠ 0 ∧ s.toFlasher ≠ [] then some (s.enter max min got) else none
  | _ => none

def State.bridgeHeader (s : State) (got : Bytes) : State :=
  let tlv := Tlv.ofBytes got
  if tlv.tag ≠ qUsb2tcpVersion then { s with bridge := .poll }
  else if int32 tlv.length < 0 then { s with bridge := .closed }
  else if tlv.length = 0 then { s with bridge := .poll }
  else { s with bridge := .readBody tlv.length [] }

/-- `read` in `noblock_full_read`, and the write to the endpoint when a buffer is complete. -/
def State.bridgeTook (s : State) (k : Nat) : Option State :=
  if 0 < k ∧ k ≤ s.toBridge.length then
    let more := s.toBridge.take k
    let rest := { s with toBridge := s.toBridge.drop k }
    match s.bridge with
    | .poll =>
      if k < 8 then some { rest with bridge := .readHeader more }
      else if k = 8 then some (rest.bridgeHeader more)
      else none
    | .readHeader got =>
      if got.length + k < 8 then some { rest with bridge := .readHeader (got ++ more) }
      else if got.length + k = 8 then some (rest.bridgeHeader (got ++ more))
      else none
    | .readBody size got =>
      let rest := { rest with overrun := s.overrun || decide (maxBulkOut < got.length + k) }
      if got.length + k < size then some { rest with bridge := .readBody size (got ++ more) }
      else if got.length + k = size then
        some { rest with bridge := .poll, usbOut := s.usbOut ++ [got ++ more] }
      else none
    | _ => none
  else none

/-- A step.  A transfer comes to `usb2tcp_main` in one read, since `usb_bulk_read_thread` waits for
it to be taken; when there is none for 30 seconds the thread ends, and so does `usb2tcp_main`. -/
def step (s : State) : Label → Option State
  | .write buf =>
    if s.flasher = .idle ∧ buf ≠ [] then some { s with flasher := .writing buf 0 } else none
  | .wrote k => s.wrote k
  | .read max min =>
    if s.flasher = .idle then some
      { s with flasher := .reading max (if min = 0 then 1 else min) [] }
    else none
  | .took k => s.took k
  | .go => s.go
  | .timeout => s.timeout
  | .usb transfer =>
    if s.bridge = .poll ∧ transfer ≠ [] ∧ transfer.length ≤ maxBulkIn then
      some { s with
        bridge := .sending (header transfer.length ++ transfer), usbIn := s.usbIn ++ [transfer] }
    else none
  | .sent k =>
    match s.bridge with
    | .sending rest =>
      if 0 < k ∧ k ≤ rest.length then
        some { s with
          toFlasher := s.toFlasher ++ rest.take k
          bridge := if k = rest.length then .poll else .sending (rest.drop k) }
      else none
    | _ => none
  | .bridgeTook k => s.bridgeTook k
  | .hangup => if s.bridge = .poll then some { s with bridge := .closed } else none

/-- The reads are pieces of the transfers, one behind the other, each of one transfer: so far all of
the first `j` transfers and `n` bytes of the next one. -/
inductive Cut (transfers : List Bytes) : Nat → Nat → List Bytes → Prop
  | start : Cut transfers 0 0 []
  | piece {j n k : Nat} {t : Bytes} {reads : List Bytes} : Cut transfers j n reads →
      transfers[j]? = some t → n + k ≤ t.length →
      Cut transfers j (n + k) (reads ++ [(t.drop n).take k])
  | next {j : Nat} {t : Bytes} {reads : List Bytes} : Cut transfers j t.length reads →
      transfers[j]? = some t → Cut transfers (j + 1) 0 reads
  | nothing {j n : Nat} {reads : List Bytes} : Cut transfers j n reads →
      Cut transfers j n (reads ++ [[]])

/-- The endpoint gets the buffers that have been written, and the reads return the transfers from
it; where nothing is under way they are all there. -/
structure Transparent (s : State) : Prop where
  usbOut : s.usbOut <+: s.written
  usbOut_all : s.flasher = .idle → s.toBridge = [] →
    s.bridge = .poll ∨ (∃ rest, s.bridge = .sending rest) → s.usbOut = s.written
  reads : ∃ j n, Cut s.usbIn j n s.reads
  reads_all : s.flasher = .idle → s.toFlasher = [] → s.bridge = .poll →
    s.reads.flatten = s.usbIn.flatten
  buffer : s.overrun = false
  alive : s.bridge ≠ .closed

end ModemSupport.Rooter.Usb2tcp
