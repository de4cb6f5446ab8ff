import ModemSupport.Lib.Memory
import ModemSupport.Qmi.Qmap

/-! Reception of QMAP frames by the USB driver of the other vendor (`qmi_wwan_f.c`):
`qmap_qmi_wwan_rx_fixup` queues packets that lie in the received buffer and packets that are copied
from it, and puts an Ethernet header in front of each. -/

namespace ModemSupport.Qmi.Fibocom

open Lib.Memory

structure SQmiWwanQmap where
  mpQmapNetDev : Fin 4 → Option NetDevice
  qmapMode : UInt32
  bridgeMode : Bool
  bridgeMac : Mac
  useRmnetUsb : UInt32
  qmapMode_pos : 1 ≤ qmapMode
  qmapMode_le : qmapMode ≤ 4

variable (q : SQmiWwanQmap)

def fibocomQmapMuxId : UInt8 := 0x81

/-- The network device of a multiplexer id: `mux_id` is an `int`, which is compared as
`unsigned int`. -/
def SQmiWwanQmap.muxIndex (muxId : UInt8) : Option (Fin 4) :=
  let muxId := muxId.toUInt32 - fibocomQmapMuxId.toUInt32
  if h : muxId ≥ q.qmapMode then none
  else some ⟨muxId.toNat, by
    have hle := UInt32.le_iff_toNat_le.mp q.qmapMode_le
    have hlt := UInt32.lt_iff_toNat_lt.mp (UInt32.not_le.mp h)
    change q.qmapMode.toNat ≤ 4 at hle
    omega⟩

def SQmiWwanQmap.bridgeModeRxFixup (net : NetDevice) : Mac :=
  let (bridgeMode, bridgeMac) :=
    if q.qmapMode > 1 ∨ q.useRmnetUsb = 1 then (net.bridgeMode, net.bridgeMac)
    else (q.bridgeMode, q.bridgeMac)
  if bridgeMode then bridgeMac else net.devAddr

def ethHlen : Nat := 14

/-- The `struct ethhdr` in front of a packet. -/
def SQmiWwanQmap.ethHdr (net : NetDevice) (protocol : UInt16) : List UInt8 :=
  (q.bridgeModeRxFixup net).toList ++ defaultModemAddr.toList ++ cpuToBe16 protocol

/-- What a round makes of the frame at the start of the data: `goto error_pkt`, `goto skip_pkt`, or
a packet for a device, with `pkt_len` and the padding. -/
inductive Frame where
  | error
  | skip (pktLen : Nat)
  | packet (dev : Fin 4) (net : NetDevice) (protocol : UInt16) (pktLen pad : Nat)

def skbLen (pktLen pad : Nat) : Int := pktLen - pad

/-- The checks of a round, with `skb_in->data` at an address. -/
def frame (m : Mem) (data len : Nat) : Frame :=
  let pktLen := (ntohs (m (data + 2)) (m (data + 3))).toNat
  let pad := (m data &&& 0x3F).toNat
  if skbLen pktLen pad > 1500 then .error
  else if len < pktLen + qmapHdrSize then .error
  else if m data &&& 0x80 ≠ 0 then .skip pktLen
  else
    match protocolOf (m (data + qmapHdrSize)), q.muxIndex (m (data + 1)) with
    | some protocol, some dev =>
      match q.mpQmapNetDev dev with
      | none => .skip pktLen
      | some net => .packet dev net protocol pktLen pad
    | _, _ => .error

/-- A packet in `skb_chain`, with the Ethernet header: a clone lies in the received buffer, and the
data of a copy, or of a packet that an earlier call has left, are its own. -/
inductive QmapSkb where
  | clone (dev : Fin 4) (data len : Nat)
  | copy (dev : Fin 4) (bytes : List UInt8)

/-- A packet as its device gets it. -/
structure RxFrame where
  dev : Fin 4
  bytes : List UInt8

def QmapSkb.resolve (m : Mem) : QmapSkb → RxFrame
  | .clone dev data len => ⟨dev, slice m data len⟩
  | .copy dev bytes => ⟨dev, bytes⟩

/-- An Ethernet header that is written into the received buffer, what is queued then, and where the
bytes are that are still to be used. -/
structure Push where
  data : Nat
  skbChain : List QmapSkb
  rest : Nat

/-- The loop is in front of a round; `skb_in` is the received buffer, which starts at 0. -/
structure State where
  mem : Mem
  data : Nat
  len : Nat
  headroom : Nat
  skbChain : List QmapSkb
  pushes : List Push

def State.pull (s : State) (n : Nat) : State := { s with data := s.data + n, len := s.len - n }

/-- How a round ends: with the next one, with `return 0`, or with no return, when a header would be
in front of the buffer or a negative length is copied. -/
inductive Round where
  | next (s : State)
  | leave
  | crash

/-- A packet is queued, with the outcome of `skb_clone` or `netdev_alloc_skb`. -/
def State.packet (s : State) (alloc : Bool) (dev : Fin 4) (net : NetDevice) (protocol : UInt16)
    (pktLen pad : Nat) : Round :=
  let start := s.data + qmapHdrSize
  let hdr := q.ethHdr net protocol
  if alloc = false then .leave
  else if s.headroom ≥ ethHlen then
    if start < ethHlen then .crash
    else
      -- `skb_trim` takes a negative length as a large one, which leaves the clone as it is
      let len := if pktLen < pad then s.len - qmapHdrSize else pktLen - pad
      .next { s with
        mem := put s.mem (start - ethHlen) (hdr.map some)
        headroom := pad
        skbChain := s.skbChain ++ [.clone dev (start - ethHlen) (ethHlen + len)]
        pushes := s.pushes ++ [⟨start - ethHlen, s.skbChain, start⟩] }
  else if pktLen < pad then .crash
  else
    .next { s with
      headroom := pktLen
      skbChain := s.skbChain ++ [.copy dev (hdr ++ slice s.mem start (pktLen - pad))] }

/-- A round of the loop; `alloc` are the outcomes of the allocations by the address of the frame. -/
def State.round (s : State) (alloc : Nat → Bool) : Round :=
  match frame q s.mem s.data s.len with
  | .error => .leave
  | .skip pktLen => .next (s.pull (pktLen + qmapHdrSize))
  | .packet dev net protocol pktLen pad =>
    match s.packet q (alloc s.data) dev net protocol pktLen pad with
    | .next t => .next (t.pull (pktLen + qmapHdrSize))
    | .leave => .leave
    | .crash => .crash

/-- How the loop ends: `done` when it is over. -/
inductive Exit where
  | done (s : State)
  | leave (s : State)
  | crash

def loop (alloc : Nat → Bool) : (fuel : Nat) → State → Exit
  | 0, s => .done s
  | fuel + 1, s =>
    if s.len ≤ qmapHdrSize then .done s
    else
      match s.round q alloc with
      | .next t => loop alloc fuel t
      | .leave => .leave s
      | .crash => .crash

/-- What the function has done when it returns: the frames that have gone to the devices, what is in
`skb_chain`, and the headers that have been written into the buffer. -/
structure Result where
  delivered : List RxFrame
  skbChain : List QmapSkb
  pushes : List Push

/-- `qmap_qmi_wwan_rx_fixup` for a buffer with some headroom, or `none` when it does not return. -/
def rxFixup (alloc : Nat → Bool) (mem : Mem) (headroom len : Nat) (skbChain : List QmapSkb) :
    Option Result :=
  match loop q alloc len ⟨mem, headroom, len, headroom, skbChain, []⟩ with
  | .done s => some ⟨s.skbChain.map (QmapSkb.resolve s.mem), [], s.pushes⟩
  | .leave s => some ⟨[], s.skbChain, s.pushes⟩
  | .crash => none

end ModemSupport.Qmi.Fibocom
