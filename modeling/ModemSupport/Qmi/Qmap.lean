import Mathlib.Data.BitVec

/-! The QMAP frames of the USB driver (`qmi_wwan_q.c`): `add_qhdr` and `add_qhdr_v5` put a header in
front of an IP packet and pad it to four bytes, and `qmap_packet_decode` takes a buffer of frames
apart into packets for the network devices. -/

namespace ModemSupport.Qmi

/-- `struct sk_buff`, with the bytes of the tailroom behind the data. -/
structure Skb where
  data : List UInt8
  tail : List UInt8
  deriving DecidableEq

namespace Skb

def len (skb : Skb) : Nat := skb.data.length

def tailroom (skb : Skb) : Nat := skb.tail.length

/-- `__skb_put`: the bytes are those that the tailroom had. -/
def put (skb : Skb) (n : Nat) : Skb :=
  { data := skb.data ++ skb.tail.take n, tail := skb.tail.drop n }

def push (skb : Skb) (hdr : List UInt8) : Skb := { skb with data := hdr ++ skb.data }

/-- `skb_pull`, which leaves a shorter buffer as it is. -/
def pull (skb : Skb) (n : Nat) : Skb :=
  if n > skb.len then skb else { skb with data := skb.data.drop n }

/-- `skb_put` and the bytes written there, or `none` for `skb_over_panic`. -/
def append (skb : Skb) (bytes : List UInt8) : Option Skb :=
  if skb.tailroom < bytes.length then none
  else some { data := skb.data ++ bytes, tail := skb.tail.drop bytes.length }

def get (skb : Skb) (i : Nat) : UInt8 := (skb.data ++ skb.tail).getD i 0

end Skb

def cpuToBe16 (x : UInt16) : List UInt8 :=
  [⟨x.toBitVec.extractLsb' 8 8⟩, ⟨x.toBitVec.extractLsb' 0 8⟩]

def ntohs (hi lo : UInt8) : UInt16 := ⟨hi.toBitVec ++ lo.toBitVec⟩

structure RmnetMapHeader where
  padLen : BitVec 6
  nextHdr : Bool
  cdBit : Bool
  muxId : UInt8
  pktLen : UInt16

namespace RmnetMapHeader

def bytes (h : RmnetMapHeader) : List UInt8 :=
  [⟨BitVec.ofBool h.cdBit ++ BitVec.ofBool h.nextHdr ++ h.padLen⟩, h.muxId] ++ cpuToBe16 h.pktLen

def read (skb : Skb) : RmnetMapHeader where
  padLen := (skb.get 0).toBitVec.extractLsb' 0 6
  nextHdr := (skb.get 0).toBitVec.getLsbD 6
  cdBit := (skb.get 0).toBitVec.getLsbD 7
  muxId := skb.get 1
  pktLen := ntohs (skb.get 2) (skb.get 3)

end RmnetMapHeader

structure RmnetMapV5CsumHeader where
  nextHdr : Bool
  headerType : BitVec 7
  hwReserved : BitVec 7
  csumValidRequired : Bool
  reserved : UInt16

def RmnetMapV5CsumHeader.bytes (h : RmnetMapV5CsumHeader) : List UInt8 :=
  [⟨h.headerType ++ BitVec.ofBool h.nextHdr⟩, ⟨BitVec.ofBool h.csumValidRequired ++ h.hwReserved⟩]
    ++ cpuToBe16 h.reserved

def qmapHdrSize : Nat := 4

def csumHeaderSize : Nat := 4

def quectelQmapMuxId : UInt8 := 0x81

/-- The padding, none where the tailroom is too small. -/
def padding (skb : Skb) : Nat :=
  let pad := skb.len % 4
  if pad ≠ 0 then
    let pad := 4 - pad
    if skb.tailroom < pad then 0 else pad
  else 0

def addQhdr (skb : Skb) (muxId : UInt8) : Skb :=
  let pad := padding skb
  let skb := skb.put pad
  skb.push ([pad.toUInt8, muxId] ++ cpuToBe16 skb.len.toUInt16)

def rmnetMapHeaderTypeCsumOffload : BitVec 7 := 0x2

def addQhdrV5 (skb : Skb) (muxId : UInt8) : Skb :=
  let mapDatalen := skb.len
  let padding := padding skb
  let skb := skb.put padding
  let mapHeader : RmnetMapHeader :=
    { padLen := BitVec.ofNat 6 padding, nextHdr := true, cdBit := false, muxId := muxId
      pktLen := (mapDatalen + padding).toUInt16 }
  let ulHeader : RmnetMapV5CsumHeader :=
    { nextHdr := false, headerType := rmnetMapHeaderTypeCsumOffload, hwReserved := 0
      csumValidRequired := false, reserved := 0 }
  skb.push (mapHeader.bytes ++ ulHeader.bytes)

abbrev Mac : Type := Vector UInt8 6

/-- `struct net_device` with its `struct qmap_priv`; `ether` is set for the type `ARPHRD_ETHER`. -/
structure NetDevice where
  mtu : UInt32
  ether : Bool
  devAddr : Mac
  bridgeMode : Bool
  bridgeMac : Mac

/-- `struct sQmiWwanQmap`; `qmi_wwan_bind` keeps `qmap_mode` within the array of devices. -/
structure SQmiWwanQmap where
  mpQmapNetDev : Fin 4 → Option NetDevice
  qmapMode : UInt32
  qmapVersion : UInt32
  dlMinimumPadding : UInt32
  bridgeMode : Bool
  bridgeMac : Mac
  useRmnetUsb : UInt32
  qmapMode_le : qmapMode ≤ 4

structure RxSkb where
  dev : Fin 4
  protocol : UInt16
  data : List UInt8
  networkHeader : Nat

def ethPIp : UInt16 := 0x0800

def ethPIpv6 : UInt16 := 0x86DD

def defaultModemAddr : Mac := #v[0x02, 0x50, 0xf3, 0x00, 0x00, 0x00]

def bridgeModeRxFixup (q : SQmiWwanQmap) (net : NetDevice) : Mac :=
  let (bridgeMode, bridgeMac) :=
    if q.qmapMode > 1 ∨ q.useRmnetUsb = 1 then (net.bridgeMode, net.bridgeMac)
    else (q.bridgeMode, q.bridgeMac)
  if bridgeMode then bridgeMac else net.devAddr

/-- The `struct ethhdr` in front of a packet to a device of type `ARPHRD_ETHER`. -/
def ethHdr (q : SQmiWwanQmap) (net : NetDevice) (protocol : UInt16) : List UInt8 :=
  (bridgeModeRxFixup q net).toList ++ defaultModemAddr.toList ++ cpuToBe16 protocol

def protocolOf (byte : UInt8) : Option UInt16 :=
  if byte &&& 0xf0 = 0x40 then some ethPIp
  else if byte &&& 0xf0 = 0x60 then some ethPIpv6
  else none

/-- The network device of a multiplexer id, by the comparison of `unsigned int`. -/
def muxIndex (q : SQmiWwanQmap) (muxId : UInt8) : Option (Fin 4) :=
  let muxId := muxId.toUInt32 - quectelQmapMuxId.toUInt32
  if h : muxId ≥ q.qmapMode then none
  else some ⟨muxId.toNat, by
    have hle := UInt32.le_iff_toNat_le.mp q.qmapMode_le
    have hlt := UInt32.lt_iff_toNat_lt.mp (UInt32.not_le.mp h)
    change q.qmapMode.toNat ≤ 4 at hle
    omega⟩

def rxSkb (q : SQmiWwanQmap) (dev : Fin 4) (net : NetDevice) (protocol : UInt16)
    (data : List UInt8) : RxSkb :=
  let hdr := if net.ether then ethHdr q net protocol else []
  { dev := dev, protocol := protocol, data := hdr ++ data, networkHeader := hdr.length }

/-- A round of the loop of `qmap_packet_decode`, with the outcome of `netdev_alloc_skb`: what goes
to `skb_chain` and the bytes to pull, or `none` for `error_pkt`. -/
def decodePacket (q : SQmiWwanQmap) (alloc : Bool) (skbIn : Skb) : Option (Option RxSkb × Nat) := do
  let dlMinimumPadding := if q.qmapVersion = 9 then q.dlMinimumPadding else 0
  let mapHeader := RmnetMapHeader.read skbIn
  let pktLen := mapHeader.pktLen.toNat
  let hdrSize := if mapHeader.nextHdr then qmapHdrSize + csumHeaderSize else qmapHdrSize
  let skbLen := mapHeader.pktLen.toUInt32 - UInt32.ofNat mapHeader.padLen.toNat - dlMinimumPadding
  let dev ← muxIndex q mapHeader.muxId
  match q.mpQmapNetDev dev with
  | none => return (none, pktLen + hdrSize)
  | some net =>
    if skbLen > net.mtu then none
    else if skbIn.len < pktLen + hdrSize then none
    else if mapHeader.cdBit then return (none, pktLen + hdrSize)
    else
      let protocol ← protocolOf (skbIn.get hdrSize)
      if alloc then
        return (some (rxSkb q dev net protocol ((skbIn.data.drop hdrSize).take skbLen.toNat)),
          pktLen + hdrSize)
      else none

/-- The loop, and what is left of the buffer, or `none` when `fuel` rounds do not end it. -/
def decodeLoop (q : SQmiWwanQmap) (alloc : Nat → Bool) :
    Nat → Skb → List RxSkb → Option (List RxSkb × Skb)
  | 0, _, _ => none
  | fuel + 1, skbIn, skbChain =>
    if skbIn.len > qmapHdrSize then
      match decodePacket q (alloc skbChain.length) skbIn with
      | none => some (skbChain, skbIn)
      | some (qmapSkb, n) =>
        decodeLoop q alloc fuel (skbIn.pull n) (skbChain ++ qmapSkb.toList)
    else some (skbChain, skbIn)

/-- `qmap_packet_decode`: `alloc` are the outcomes of `netdev_alloc_skb`.  A round that pulls
something pulls a header, so a loop that is not over after a round for each byte never is. -/
def qmapPacketDecode (q : SQmiWwanQmap) (alloc : Nat → Bool) (skbIn : Skb) :
    Option (List RxSkb × Skb) :=
  decodeLoop q alloc (skbIn.len + 1) skbIn []

end ModemSupport.Qmi
