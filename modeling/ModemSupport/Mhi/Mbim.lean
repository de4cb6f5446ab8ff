import ModemSupport.Lib.Loop
import ModemSupport.Qmi.Qmap

/-! The MBIM blocks of the PCIe driver (`mhi_netdev_quectel.c`): `add_mbim_hdr` puts one packet
into a block, and `rmnet_mbim_rx_handler` takes a block apart, without
`CONFIG_QCA_NSS_PACKET_FILTER`. -/

namespace ModemSupport.Mhi.Mbim

open Lib.Loop
open Qmi (Skb NetDevice protocolOf)

def le16 (skb : Skb) (i : Nat) : Nat := (skb.get i).toNat + 256 * (skb.get (i + 1)).toNat

def host16 (bigEndian : Bool) (skb : Skb) (i : Nat) : Nat :=
  if bigEndian then 256 * (skb.get i).toNat + (skb.get (i + 1)).toNat else le16 skb i

def toLe16 (x : Nat) : List UInt8 := [UInt8.ofNat x, UInt8.ofNat (x / 256)]

def toHost16 (bigEndian : Bool) (x : Nat) : List UInt8 :=
  if bigEndian then [UInt8.ofNat (x / 256), UInt8.ofNat x] else toLe16 x

structure MhiNetdev where
  mpQmapNetDev : Fin 8 → Option NetDevice
  qmapMode : UInt32
  mbimMuxId : UInt32
  rxMax : Nat
  bigEndian : Bool
  qmapMode_pos : 1 ≤ qmapMode.toNat
  qmapMode_le : qmapMode.toNat ≤ 8

variable (c : MhiNetdev)

/-- The entry at an index; there is none behind the table. -/
def MhiNetdev.entry (index : UInt32) : Option NetDevice :=
  if h : index.toNat < 8 then c.mpQmapNetDev ⟨index.toNat, h⟩ else none

def nth16Sign : List UInt8 := [0x4E, 0x43, 0x4D, 0x48]

def ipsSign : List UInt8 := [0x49, 0x50, 0x53]

def dssSign : List UInt8 := [0x44, 0x53, 0x53]

def nth16Size : Nat := 12

def ndp16Size : Nat := 8

def dpe16Size : Nat := 4

def mbimHdrSize : Nat := nth16Size + ndp16Size + dpe16Size * 2

def mbimHdr (muxId : UInt8) (sequence : List UInt8) (len : Nat) : List UInt8 :=
  let tci : UInt8 := if c.qmapMode.toNat > 1 then muxId + 1 else muxId
  nth16Sign ++ toLe16 nth16Size ++ sequence ++ toLe16 (len + mbimHdrSize) ++ toLe16 nth16Size ++
    (ipsSign ++ [tci]) ++ toLe16 (ndp16Size + dpe16Size * 2) ++ toHost16 c.bigEndian 0 ++
    (toHost16 c.bigEndian mbimHdrSize ++ toHost16 c.bigEndian len) ++
    (toHost16 c.bigEndian 0 ++ toHost16 c.bigEndian 0)

def addMbimHdr (headroom data : List UInt8) (muxId : UInt8) : Option (List UInt8) :=
  if headroom.length < mbimHdrSize then none
  else
    let old := headroom.drop (headroom.length - mbimHdrSize)
    some (mbimHdr c muxId [old.getD 6 0, old.getD 7 0] data.length ++ data)

def stamp (txSeq : UInt16) (block : List UInt8) : List UInt8 :=
  block.take 6 ++ toLe16 txSeq.toNat ++ block.drop 8

/-- A packet for the device at an index, without the Ethernet header that is written into the
headroom. -/
structure Packet where
  index : UInt32
  protocol : UInt16
  data : List UInt8
  deriving DecidableEq

/-- What is done with the block, the table and the packets: `device` is the use of an entry, `alloc`
a packet of `netdev_alloc_skb`, and `queue` one in `skb_chain`, which goes to
`netif_receive_skb`. -/
inductive Access where
  | read (start size : Nat)
  | index (index : UInt32)
  | device (index : UInt32)
  | alloc
  | queue (packet : Packet)
  deriving DecidableEq

/-- The datagrams of an NDP, from one of the table on, and whether the loop over the NDPs goes on;
`alloc` are the outcomes of `netdev_alloc_skb`. -/
def datagrams (alloc : Nat → Bool) (skbIn : Skb) (index : UInt32) :
    (nframes : Nat) → (dpe16 : Nat) → List Access × Bool
  | 0, _ => ([], true)
  | nframes + 1, dpe16 =>
    let offset := le16 skbIn dpe16
    let skbLen := le16 skbIn (dpe16 + 2)
    let entry := Access.read dpe16 dpe16Size
    if offset = 0 ∨ skbLen = 0 then ([entry], true)
    else if offset + skbLen > skbIn.len ∨ skbLen > c.rxMax then ([entry], false)
    else if alloc dpe16 = false then ([entry, .device index], false)
    else
      match protocolOf (skbIn.get offset) with
      | none => ([entry, .device index, .alloc, .read offset 1], false)
      | some protocol =>
        let rest := datagrams alloc skbIn index nframes (dpe16 + dpe16Size)
        ([entry, .device index, .alloc, .read offset skbLen,
          .queue ⟨index, protocol, (skbIn.data.drop offset).take skbLen⟩] ++ rest.1, rest.2)

attribute [grind =] datagrams

def tci (skbIn : Skb) (ndpoffset : Nat) : Option UInt32 :=
  let sign := [skbIn.get ndpoffset, skbIn.get (ndpoffset + 1), skbIn.get (ndpoffset + 2)]
  if sign = ipsSign then some (skbIn.get (ndpoffset + 3)).toUInt32
  else if sign = dssSign then some ((skbIn.get (ndpoffset + 3)).toUInt32 + 256)
  else none

/-- The index for a session, or `none` for one that is not supported. -/
def MhiNetdev.index (tci : UInt32) : Option UInt32 :=
  if c.qmapMode = 1 then (if tci = c.mbimMuxId then some 0 else none)
  else if tci - c.mbimMuxId > c.qmapMode then none
  else some (tci - 1 - c.mbimMuxId)

def nframes (skbIn : Skb) (ndpoffset : Nat) : Nat :=
  (le16 skbIn (ndpoffset + 4) - ndp16Size) / dpe16Size

/-- A round of the loop over the NDPs, with the offset of the next one. -/
def ndp (alloc : Nat → Nat → Bool) (skbIn : Skb) (ndpoffset : Nat) : List Access × Option Nat :=
  if ndpoffset = 0 then ([], none)
  else if skbIn.len < ndpoffset + ndp16Size then ([], none)
  else
    let header := Access.read ndpoffset ndp16Size
    if le16 skbIn (ndpoffset + 4) < 0x10 then ([header], none)
    else if skbIn.len < ndp16Size + nframes skbIn ndpoffset * dpe16Size then ([header], none)
    else
      match (tci skbIn ndpoffset).bind c.index with
      | none => ([header], none)
      | some index =>
        let frames := datagrams c (alloc ndpoffset) skbIn index (nframes skbIn ndpoffset)
          (ndpoffset + ndp16Size)
        (header :: .index index :: frames.1,
          if frames.2 then some (le16 skbIn (ndpoffset + 6)) else none)

/-- The header of the block: the offset of the first NDP, or `none` for a block that is not
accepted. -/
def nth (skbIn : Skb) : List Access × Option Nat :=
  if skbIn.len < nth16Size + ndp16Size then ([], none)
  else
    let header := Access.read 0 nth16Size
    if [skbIn.get 0, skbIn.get 1, skbIn.get 2, skbIn.get 3] ≠ nth16Sign then ([header], none)
    else if le16 skbIn 8 > c.rxMax then ([header], none)
    else ([header], some (host16 c.bigEndian skbIn 10))

def RxHandler (alloc : Nat → Nat → Bool) (skbIn : Skb) (as : List Access) : Prop :=
  match (nth c skbIn).2 with
  | none => as = (nth c skbIn).1
  | some ndpoffset => ∃ bs, Ends (ndp c alloc skbIn) ndpoffset bs ∧ as = (nth c skbIn).1 ++ bs

/-- The packets that go to `netif_receive_skb`. -/
def queued : List Access → List Packet
  | [] => []
  | .queue packet :: as => packet :: queued as
  | _ :: as => queued as

end ModemSupport.Mhi.Mbim
