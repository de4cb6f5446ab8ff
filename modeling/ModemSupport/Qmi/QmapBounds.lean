import ModemSupport.Lib.Loop
import ModemSupport.Qmi.Qmap

/-! What `qmap_packet_decode` of the USB driver and `rmnet_qmi_rx_handler` of the PCIe driver read
of a received buffer and of their table of devices, without `CONFIG_QCA_NSS_PACKET_FILTER`. -/

namespace ModemSupport.Qmi.QmapBounds

open Lib.Loop

/-- The table and the settings that a demultiplexer goes by. -/
structure Demux (size : Nat) where
  mpQmapNetDev : Fin size → Option NetDevice
  qmapMode : UInt32
  qmapVersion : UInt32
  dlMinimumPadding : UInt32
  qmapMode_le : qmapMode.toNat ≤ size

/-- What is done with the received buffer, at a place of it, and with the table: lengths are an
`int` in the source. -/
inductive Access where
  | read (start size : Nat)
  | copy (start : Nat) (len : UInt32)
  | alloc (len : UInt32)
  | index (muxId : UInt32)

variable {size : Nat} (d : Demux size)

def muxIndex (muxId : UInt8) : UInt32 := muxId.toUInt32 - quectelQmapMuxId.toUInt32

/-- The entry at an index; there is none behind the table. -/
def Demux.entry (muxId : UInt32) : Option NetDevice :=
  if h : muxId.toNat < size then d.mpQmapNetDev ⟨muxId.toNat, h⟩ else none

def hdrSize (h : RmnetMapHeader) : Nat :=
  if h.nextHdr then qmapHdrSize + csumHeaderSize else qmapHdrSize

def Demux.skbLen (h : RmnetMapHeader) : UInt32 :=
  h.pktLen.toUInt32 - UInt32.ofNat h.padLen.toNat -
    (if d.qmapVersion = 9 then d.dlMinimumPadding else 0)

/-- The packet in a frame for `net`, from the byte for its protocol on: `none` is `error_pkt`. -/
def Demux.packet (alloc : Bool) (start : Nat) (skbIn : Skb) : List Access × Option Nat :=
  let h := RmnetMapHeader.read skbIn
  let first := Access.read (start + hdrSize h) 1
  match protocolOf (skbIn.get (hdrSize h)) with
  | none => ([first], none)
  | some _ =>
    if alloc then
      ([first, .alloc (d.skbLen h), .copy (start + hdrSize h) (d.skbLen h)] ++
        (if h.nextHdr then [.read (start + qmapHdrSize) 2] else []),
        some (h.pktLen.toNat + hdrSize h))
    else ([first, .alloc (d.skbLen h)], none)

/-- A round of the loop over the frames, with what is done for a command and the outcome of
`netdev_alloc_skb`: the bytes to pull, or `none` for `error_pkt`. -/
def Demux.frame (command : Nat → Skb → List Access) (alloc : Bool) (start : Nat) (skbIn : Skb) :
    List Access × Option Nat :=
  let h := RmnetMapHeader.read skbIn
  let n := h.pktLen.toNat + hdrSize h
  let header := Access.read start qmapHdrSize
  if muxIndex h.muxId ≥ d.qmapMode then ([header], none)
  else
    let index := Access.index (muxIndex h.muxId)
    match d.entry (muxIndex h.muxId) with
    | none => ([header, index], some n)
    | some net =>
      if d.skbLen h > net.mtu then ([header, index], none)
      else if skbIn.len < n then ([header, index], none)
      else if h.cdBit then (header :: index :: command start skbIn, some n)
      else
        let packet := d.packet alloc start skbIn
        (header :: index :: packet.1, packet.2)

/-- The loop, in a buffer of `total` bytes: `alloc` are the outcomes of the allocations, by
place. -/
def Demux.round (command : Nat → Skb → List Access) (alloc : Nat → Bool) (total : Nat)
    (skbIn : Skb) : List Access × Option Skb :=
  if skbIn.len > qmapHdrSize then
    let start := total - skbIn.len
    let frame := d.frame command (alloc start) start skbIn
    (frame.1, frame.2.map skbIn.pull)
  else ([], none)

def quectelWwanQmap : Nat := 4

/-- `qmap_packet_decode`, which skips commands. -/
def qmapPacketDecode (d : Demux quectelWwanQmap) (alloc : Nat → Bool) (total : Nat) :
    Skb → List Access × Option Skb :=
  d.round (fun _ _ => []) alloc total

def rmnetMapCommandFlowDisable : UInt8 := 1

def rmnetMapCommandFlowEnable : UInt8 := 2

def controlCommandSize : Nat := 16

/-- `rmnet_map_send_ack`, with the outcome of `alloc_skb`. -/
def rmnetMapSendAck (alloc : Bool) (start : Nat) : List Access :=
  if alloc then [.copy start (UInt32.ofNat (qmapHdrSize + controlCommandSize))] else []

def rmnetMapDoFlowControl (start : Nat) (h : RmnetMapHeader) : List Access × Bool :=
  let muxId := h.muxId - quectelQmapMuxId
  if muxId.toUInt32 ≥ d.qmapMode then ([], false)
  else
    match d.entry muxId.toUInt32 with
    | none => ([.index muxId.toUInt32], false)
    | some _ => ([.index muxId.toUInt32, .read (start + 13) 1, .read (start + 14) 2,
        .read (start + 16) 4], true)

def rmnetDataMapCommand (alloc : Nat → Bool) (start : Nat) (skbIn : Skb) : List Access :=
  let name := Access.read (start + qmapHdrSize) 1
  if skbIn.get qmapHdrSize = rmnetMapCommandFlowEnable ∨
      skbIn.get qmapHdrSize = rmnetMapCommandFlowDisable then
    let control := rmnetMapDoFlowControl d start (RmnetMapHeader.read skbIn)
    name :: (control.1 ++ if control.2 then rmnetMapSendAck (alloc start) start else [])
  else [name]

def rmnetQmiRxHandler (d : Demux 8) (alloc : Nat → Bool) (total : Nat) :
    Skb → List Access × Option Skb :=
  d.round (rmnetDataMapCommand d alloc) alloc total

/-- An access within a buffer of `total` bytes and the first `qmap_mode` entries, with a length that
is not negative. -/
def Within (total : Nat) : Access → Prop
  | .read start size => start + size ≤ total
  | .copy start len => len.toNat < 2 ^ 31 ∧ start + len.toNat ≤ total
  | .alloc len => len.toNat < 2 ^ 31
  | .index muxId => muxId < d.qmapMode

/-- The loop over a buffer ends, and stays within it. -/
def InBounds (round : Nat → Skb → List Access × Option Skb) (skbIn : Skb) : Prop :=
  ∃ as, Ends (round skbIn.len) skbIn as ∧ ∀ a ∈ as, Within d skbIn.len a

/-- A packet has a first byte, and if that is one of IP, a length that is not negative and, when
there is memory for it, no longer than what is left. -/
def PacketFits (alloc : Bool) (skbIn : Skb) : Prop :=
  let h := RmnetMapHeader.read skbIn
  hdrSize h < skbIn.len ∧ (protocolOf (skbIn.get (hdrSize h)) ≠ none →
    (d.skbLen h).toNat < 2 ^ 31 ∧ (alloc = true → hdrSize h + (d.skbLen h).toNat ≤ skbIn.len))

/-- A frame for an entry that is `NULL` is whole.  One that is whole and not too long for its device
has a packet that fits, or a command that does. -/
def FrameFits (command : Skb → Prop) (alloc : Bool) (skbIn : Skb) : Prop :=
  let h := RmnetMapHeader.read skbIn
  let n := h.pktLen.toNat + hdrSize h
  muxIndex h.muxId < d.qmapMode →
    (d.entry (muxIndex h.muxId) = none → n ≤ skbIn.len) ∧
    ∀ net, d.entry (muxIndex h.muxId) = some net → d.skbLen h ≤ net.mtu → n ≤ skbIn.len →
      (h.cdBit = true → command skbIn) ∧ (h.cdBit = false → PacketFits d alloc skbIn)

def CommandFits (skbIn : Skb) : Prop :=
  skbIn.get qmapHdrSize = rmnetMapCommandFlowEnable ∨
      skbIn.get qmapHdrSize = rmnetMapCommandFlowDisable →
    qmapHdrSize + controlCommandSize ≤ skbIn.len

def FramesFit (command : Skb → Prop) (alloc : Nat → Bool)
    (round : Nat → Skb → List Access × Option Skb) (skbIn : Skb) : Prop :=
  ∀ skb, Comes (round skbIn.len) skbIn skb → skb.len > qmapHdrSize →
    FrameFits d command (alloc (skbIn.len - skb.len)) skb

end ModemSupport.Qmi.QmapBounds
