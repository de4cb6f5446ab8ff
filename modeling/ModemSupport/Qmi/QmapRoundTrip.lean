import ModemSupport.Qmi.Qmap
import Mathlib.Data.List.GetD
import Mathlib.Tactic.IntervalCases

/-! The QMAP frames of a buffer, decoded in the order in which they were encoded.  Both headers
are a `struct rmnet_map_header`, whose length and padding lead the decoder to the next frame. -/

namespace ModemSupport.Qmi

open List

theorem ntohs_cpuToBe16 (x : UInt16) :
    ntohs ⟨x.toBitVec.extractLsb' 8 8⟩ ⟨x.toBitVec.extractLsb' 0 8⟩ = x := by
  apply UInt16.eq_of_toBitVec_eq
  apply BitVec.eq_of_getLsbD_eq
  intro i hi
  simp only [ntohs, BitVec.getLsbD_append, BitVec.getLsbD_extractLsb']
  rcases Nat.lt_or_ge i 8 with h | h
  · simp [h]
  · simp [Nat.not_lt.mpr h, show i - 8 < 8 by omega, Nat.add_sub_cancel' h]

theorem RmnetMapHeader.read_bytes (h : RmnetMapHeader) (rest tail : List UInt8) :
    RmnetMapHeader.read ⟨h.bytes ++ rest, tail⟩ = h := by
  obtain ⟨padLen, nextHdr, cdBit, muxId, pktLen⟩ := h
  simp only [RmnetMapHeader.read, RmnetMapHeader.bytes, cpuToBe16, Skb.get, cons_append,
    nil_append, getD_cons_zero, getD_cons_succ, ntohs_cpuToBe16]
  have hnext : (BitVec.ofBool cdBit ++ BitVec.ofBool nextHdr ++ padLen).getLsbD 6 = nextHdr := by
    rw [BitVec.getLsbD_append, if_neg (by decide)]
    cases cdBit <;> cases nextHdr <;> rfl
  have hcd : (BitVec.ofBool cdBit ++ BitVec.ofBool nextHdr ++ padLen).getLsbD 7 = cdBit := by
    rw [BitVec.getLsbD_append, if_neg (by decide)]
    cases cdBit <;> cases nextHdr <;> rfl
  have hpad :
      (BitVec.ofBool cdBit ++ BitVec.ofBool nextHdr ++ padLen).extractLsb' 0 6 = padLen := by
    apply BitVec.eq_of_getLsbD_eq
    intro i hi
    rw [BitVec.getLsbD_extractLsb', BitVec.getLsbD_append]
    simp [hi]
  rw [hnext, hcd, hpad]

theorem qmapHdr_bytes {pad : Nat} (hpad : pad < 4) (muxId : UInt8) (pktLen : UInt16) :
    [pad.toUInt8, muxId] ++ cpuToBe16 pktLen =
      (RmnetMapHeader.mk (BitVec.ofNat 6 pad) false false muxId pktLen).bytes := by
  have hbyte : pad.toUInt8 =
      ⟨BitVec.ofBool false ++ BitVec.ofBool false ++ BitVec.ofNat 6 pad⟩ := by
    interval_cases pad <;> rfl
  rw [RmnetMapHeader.bytes, hbyte]

theorem padding_lt (skb : Skb) : padding skb < 4 := by
  unfold padding
  dsimp only
  split
  · split <;> omega
  · omega

theorem padding_le (skb : Skb) : padding skb ≤ skb.tailroom := by
  unfold padding
  dsimp only
  split
  · split <;> omega
  · omega

/-- A packet that a network device sends, with the header format it gets. -/
structure Uplink (q : SQmiWwanQmap) where
  dev : Fin 4
  net : NetDevice
  skb : Skb
  v5 : Bool
  dev_lt : dev.val < q.qmapMode.toNat
  registered : q.mpQmapNetDev dev = some net
  nibble : skb.get 0 >>> 4 = 4 ∨ skb.get 0 >>> 4 = 6
  len_pos : 0 < skb.len
  len_le : skb.len ≤ net.mtu.toNat
  len_lt : skb.len + 3 < 2 ^ 16

namespace Uplink

variable {q : SQmiWwanQmap} (u : Uplink q)

def muxId : UInt8 := quectelQmapMuxId + u.dev.val.toUInt8

def frame : List UInt8 :=
  (if u.v5 then addQhdrV5 u.skb u.muxId else addQhdr u.skb u.muxId).data

def protocol : UInt16 := if u.skb.get 0 >>> 4 = 4 then ethPIp else ethPIpv6

def received : RxSkb where
  dev := u.dev
  protocol := u.protocol
  data := (if u.net.ether then ethHdr q u.net u.protocol else []) ++ u.skb.data
  networkHeader := if u.net.ether then 14 else 0

def header : RmnetMapHeader where
  padLen := BitVec.ofNat 6 (padding u.skb)
  nextHdr := u.v5
  cdBit := false
  muxId := u.muxId
  pktLen := (u.skb.len + padding u.skb).toUInt16

def ulHeader : List UInt8 :=
  if u.v5 then (RmnetMapV5CsumHeader.mk false rmnetMapHeaderTypeCsumOffload 0 false 0).bytes else []

def pad : List UInt8 := u.skb.tail.take (padding u.skb)

theorem pad_length : u.pad.length = padding u.skb :=
  length_take_of_le (padding_le u.skb)

theorem frame_eq : u.frame = u.header.bytes ++ (u.ulHeader ++ (u.skb.data ++ u.pad)) := by
  have hlen : (u.skb.put (padding u.skb)).len = u.skb.len + padding u.skb := by
    rw [Skb.len, Skb.put, length_append, length_take_of_le (padding_le u.skb), Skb.len]
  unfold frame header ulHeader pad
  cases u.v5 with
  | true =>
    simp only [if_true, addQhdrV5, Skb.push, append_assoc]
    rfl
  | false =>
    rw [← qmapHdr_bytes (padding_lt u.skb), ← hlen]
    rfl

theorem ulHeader_length : qmapHdrSize + u.ulHeader.length =
    if u.header.nextHdr then qmapHdrSize + csumHeaderSize else qmapHdrSize := by
  unfold ulHeader header
  cases u.v5 <;> rfl

theorem frame_length : u.frame.length =
    u.skb.len + padding u.skb + (qmapHdrSize + u.ulHeader.length) := by
  rw [u.frame_eq, length_append, length_append, length_append, u.pad_length]
  simp only [RmnetMapHeader.bytes, cpuToBe16, qmapHdrSize, Skb.len, length_append,
    length_cons, length_nil]
  omega

theorem pktLen_toNat : u.header.pktLen.toNat = u.skb.len + padding u.skb := by
  have hlen := u.len_lt
  have hpad := padding_lt u.skb
  exact Nat.mod_eq_of_lt (by omega)

theorem padLen_toNat : u.header.padLen.toNat = padding u.skb := by
  have hpad := padding_lt u.skb
  exact Nat.mod_eq_of_lt (by omega)

theorem skbLen_toNat :
    (u.header.pktLen.toUInt32 - UInt32.ofNat u.header.padLen.toNat).toNat = u.skb.len := by
  have hlen := u.len_lt
  have hpad := padding_lt u.skb
  have hpkt : u.header.pktLen.toUInt32.toNat = u.skb.len + padding u.skb := u.pktLen_toNat
  have hofNat : (UInt32.ofNat (padding u.skb)).toNat = padding u.skb :=
    Nat.mod_eq_of_lt (by omega)
  rw [u.padLen_toNat, UInt32.toNat_sub_of_le, hpkt, hofNat, Nat.add_sub_cancel]
  rw [UInt32.le_iff_toNat_le, hpkt, hofNat]
  omega

theorem muxIndex_eq : muxIndex q u.header.muxId = some u.dev := by
  have hval : ∀ d : Fin 4,
      ((quectelQmapMuxId + d.val.toUInt8).toUInt32 - quectelQmapMuxId.toUInt32).toNat = d.val := by
    decide
  have hlt : ¬u.header.muxId.toUInt32 - quectelQmapMuxId.toUInt32 ≥ q.qmapMode := by
    have hdev := u.dev_lt
    rw [ge_iff_le, UInt32.le_iff_toNat_le,
      show (u.header.muxId.toUInt32 - quectelQmapMuxId.toUInt32).toNat = u.dev.val from hval u.dev]
    omega
  unfold muxIndex
  rw [dif_neg hlt]
  exact congrArg some (Fin.ext (hval u.dev))

theorem protocolOf_eq : protocolOf (u.skb.get 0) = some u.protocol := by
  have hmask : ∀ b : Fin 256, UInt8.ofFin b &&& (0xf0 : UInt8) =
      UInt8.ofFin b >>> (4 : UInt8) <<< (4 : UInt8) := by
    decide +kernel
  unfold protocolOf protocol
  rw [show u.skb.get 0 &&& (0xf0 : UInt8) = u.skb.get 0 >>> (4 : UInt8) <<< (4 : UInt8) from
    hmask (u.skb.get 0).toFin]
  rcases u.nibble with h | h <;> rw [h] <;> rfl

theorem get_frame (rest tail : List UInt8) :
    Skb.get ⟨u.frame ++ rest, tail⟩ (qmapHdrSize + u.ulHeader.length) = u.skb.get 0 := by
  obtain ⟨byte, data, hdata⟩ := exists_cons_of_length_pos u.len_pos
  have hsplit : u.frame ++ rest ++ tail =
      (u.header.bytes ++ u.ulHeader) ++ (u.skb.data ++ (u.pad ++ (rest ++ tail))) := by
    rw [u.frame_eq]
    simp only [append_assoc]
  have hlen : (u.header.bytes ++ u.ulHeader).length = qmapHdrSize + u.ulHeader.length :=
    length_append
  simp only [Skb.get]
  rw [hsplit, ← hlen, getD_append_right _ _ _ _ le_rfl, Nat.sub_self, hdata]
  rfl

theorem decodePacket_frame (hpad : q.qmapVersion = 9 → q.dlMinimumPadding = 0)
    (rest tail : List UInt8) :
    decodePacket q true ⟨u.frame ++ rest, tail⟩ = some (some u.received, u.frame.length) := by
  have hmin : (if q.qmapVersion = 9 then q.dlMinimumPadding else 0) = 0 := by
    split
    next h => exact hpad h
    next => rfl
  have hread : RmnetMapHeader.read ⟨u.frame ++ rest, tail⟩ = u.header := by
    rw [u.frame_eq, append_assoc]
    exact RmnetMapHeader.read_bytes _ _ _
  have hprefix : u.header.bytes.length = qmapHdrSize := rfl
  have hdrop : (u.frame ++ rest).drop (qmapHdrSize + u.ulHeader.length) =
      u.skb.data ++ (u.pad ++ rest) := by
    rw [u.frame_eq, ← hprefix]
    simp
  have hlen : ¬(⟨u.frame ++ rest, tail⟩ : Skb).len <
      u.header.pktLen.toNat + (qmapHdrSize + u.ulHeader.length) := by
    rw [Skb.len, length_append, u.frame_length, u.pktLen_toNat]
    omega
  have hmtu : ¬u.header.pktLen.toUInt32 - UInt32.ofNat u.header.padLen.toNat > u.net.mtu := by
    rw [gt_iff_lt, UInt32.lt_iff_toNat_lt, u.skbLen_toNat]
    exact Nat.not_lt.mpr u.len_le
  unfold decodePacket
  simp only [hread, hmin, UInt32.sub_zero, ← u.ulHeader_length, u.muxIndex_eq, u.registered,
    Option.bind_eq_bind, Option.bind_some, if_neg hmtu, if_neg hlen, u.get_frame, u.protocolOf_eq,
    if_true, u.skbLen_toNat, hdrop]
  have htake : (u.skb.data ++ (u.pad ++ rest)).take u.skb.len = u.skb.data :=
    take_left' rfl
  rw [htake, u.pktLen_toNat, ← u.frame_length]
  refine congrArg (fun r => some (some r, u.frame.length)) ?_
  unfold rxSkb received
  cases u.net.ether <;> simp [ethHdr, cpuToBe16]

end Uplink

section

variable {q : SQmiWwanQmap}

theorem decodeLoop_frames {alloc : Nat → Bool} (halloc : ∀ i, alloc i = true)
    (hpad : q.qmapVersion = 9 → q.dlMinimumPadding = 0) (us : List (Uplink q)) (tail : List UInt8)
    {fuel : Nat} (hfuel : us.length < fuel) (skbChain : List RxSkb) :
    decodeLoop q alloc fuel ⟨(us.map Uplink.frame).flatten, tail⟩ skbChain =
      some (skbChain ++ us.map Uplink.received, ⟨[], tail⟩) := by
  induction us generalizing fuel skbChain with
  | nil =>
    obtain ⟨m, rfl⟩ : ∃ m, fuel = m + 1 := ⟨fuel - 1, by rw [length_nil] at hfuel; omega⟩
    simp [decodeLoop, Skb.len]
  | cons u us ih =>
    rw [length_cons] at hfuel
    obtain ⟨m, rfl⟩ : ∃ m, fuel = m + 1 := ⟨fuel - 1, by omega⟩
    rw [map_cons, flatten_cons, decodeLoop, halloc, u.decodePacket_frame hpad]
    have hgt : (⟨u.frame ++ (us.map Uplink.frame).flatten, tail⟩ : Skb).len > qmapHdrSize := by
      have hpos := u.len_pos
      rw [Skb.len, length_append, u.frame_length]
      omega
    have hpull : Skb.pull ⟨u.frame ++ (us.map Uplink.frame).flatten, tail⟩ u.frame.length =
        ⟨(us.map Uplink.frame).flatten, tail⟩ := by
      rw [Skb.pull, if_neg (by rw [Skb.len, length_append]; omega), drop_left]
    rw [if_pos hgt]
    dsimp only
    rw [hpull, ih (by omega)]
    simp

theorem length_le_flatten (us : List (Uplink q)) :
    us.length ≤ ((us.map Uplink.frame).flatten).length := by
  induction us with
  | nil => exact le_rfl
  | cons u us ih =>
    have hpos := u.len_pos
    rw [map_cons, flatten_cons, length_append, length_cons, u.frame_length]
    omega

end

/-- The packets are queued in order, each for its own device with its protocol, and on a device of
type `ARPHRD_ETHER` behind an Ethernet header. -/
theorem qmap_round_trip (q : SQmiWwanQmap) (alloc : Nat → Bool) (us : List (Uplink q))
    (tail : List UInt8) (halloc : ∀ i, alloc i = true)
    (hpad : q.qmapVersion = 9 → q.dlMinimumPadding = 0) :
    qmapPacketDecode q alloc ⟨(us.map Uplink.frame).flatten, tail⟩ =
      some (us.map Uplink.received, ⟨[], tail⟩) :=
  decodeLoop_frames halloc hpad us tail (Nat.lt_succ_of_le (length_le_flatten us)) []

def twoDevices : SQmiWwanQmap where
  mpQmapNetDev i :=
    if i.val < 2 then
      some
        { mtu := 1500, ether := i.val == 0, devAddr := #v[2, 0, 0, 0, 0, 1], bridgeMode := false
          bridgeMac := #v[0, 0, 0, 0, 0, 0] }
    else none
  qmapMode := 2
  qmapVersion := 9
  dlMinimumPadding := 0
  bridgeMode := false
  bridgeMac := #v[0, 0, 0, 0, 0, 0]
  useRmnetUsb := 1
  qmapMode_le := by decide

def shortUplink : Uplink twoDevices where
  dev := 0
  net := ⟨1500, true, #v[2, 0, 0, 0, 0, 1], false, #v[0, 0, 0, 0, 0, 0]⟩
  skb := ⟨[0x45, 1, 2, 3, 4], [9]⟩
  v5 := false
  dev_lt := by decide
  registered := rfl
  nibble := by decide
  len_pos := by decide
  len_le := by decide
  len_lt := by decide

def paddedUplink : Uplink twoDevices where
  dev := 1
  net := ⟨1500, false, #v[2, 0, 0, 0, 0, 1], false, #v[0, 0, 0, 0, 0, 0]⟩
  skb := ⟨[0x60, 5, 6], [7, 7, 7]⟩
  v5 := true
  dev_lt := by decide
  registered := rfl
  nibble := by decide
  len_pos := by decide
  len_le := by decide
  len_lt := by decide

theorem qmap_round_trip_mixed :
    [shortUplink, paddedUplink].map Uplink.frame =
        [[0, 0x81, 0, 5, 0x45, 1, 2, 3, 4], [0x41, 0x82, 0, 4, 4, 0, 0, 0, 0x60, 5, 6, 7]] ∧
      qmapPacketDecode twoDevices (fun _ => true)
          ⟨([shortUplink, paddedUplink].map Uplink.frame).flatten, []⟩ =
        some ([shortUplink, paddedUplink].map Uplink.received, ⟨[], []⟩) :=
  ⟨by decide, qmap_round_trip twoDevices _ _ _ (fun _ => rfl) fun _ => rfl⟩

/-- On a device of type `ARPHRD_ETHER` more is queued than the bytes of the packet. -/
theorem not_byte_for_byte_ether :
    ¬ ∀ us : List (Uplink twoDevices),
      (qmapPacketDecode twoDevices (fun _ => true) ⟨(us.map Uplink.frame).flatten, []⟩).map
          (fun r => r.1.map RxSkb.data) = some (us.map fun u => u.skb.data) :=
  fun h => absurd (h [shortUplink]) (by decide)

end ModemSupport.Qmi
