import ModemSupport.Mhi.MbimBounds

/-! What `rmnet_mbim_rx_handler` makes of the blocks of `add_mbim_hdr` under the same configuration,
with memory for the packets. -/

namespace ModemSupport.Mhi.Mbim

open Lib.Loop
open Qmi (Skb NetDevice protocolOf)

def dwNtbInMaxSize : Nat := 1024 * 32

def maxMtu : Nat := dwNtbInMaxSize - mbimHdrSize

def mbimMuxIdSdx7x : UInt32 := 112

/-- A packet that a device of `mhi_netdev_probe` sends, with the headroom in front of it. -/
structure Uplink (c : MhiNetdev) where
  i : Fin 8
  headroom : List UInt8
  data : List UInt8
  txSeq : UInt16
  i_lt : i.val < c.qmapMode.toNat
  registered : c.mpQmapNetDev i ≠ none
  mbimMuxId_eq : c.mbimMuxId = 0 ∨ c.mbimMuxId = mbimMuxIdSdx7x
  rxMax_eq : c.rxMax = dwNtbInMaxSize
  headroom_ge : mbimHdrSize ≤ headroom.length
  data_pos : 0 < data.length
  data_le : data.length ≤ maxMtu
  nibble : data.getD 0 0 >>> 4 = 4 ∨ data.getD 0 0 >>> 4 = 6

namespace Uplink

variable {c : MhiNetdev} (u : Uplink c)

def muxId : UInt8 := c.mbimMuxId.toUInt8 + u.i.val.toUInt8

/-- The block that is sent, or `none` for a packet that is dropped. -/
def block : Option (List UInt8) :=
  (addMbimHdr c u.headroom u.data u.muxId).map (stamp u.txSeq)

def index : UInt32 := u.i.val.toUInt32

def protocol : UInt16 :=
  if u.data.getD 0 0 >>> 4 = 4 then Qmi.ethPIp else Qmi.ethPIpv6

def received : Packet := ⟨u.index, u.protocol, u.data⟩

end Uplink

/-- The block is accepted, and the packet is the only one that goes to the stack, on a device that
is there. -/
def Delivers (c : MhiNetdev) (skbIn : Skb) (packet : Packet) : Prop :=
  c.entry packet.index ≠ none ∧ (nth c skbIn).2 ≠ none ∧
    ∃ as, RxHandler c (fun _ _ => true) skbIn as ∧ queued as = [packet]

variable {c : MhiNetdev} (u : Uplink c)

def Uplink.tci : UInt8 := if c.qmapMode.toNat > 1 then u.muxId + 1 else u.muxId

theorem toHost16_eq (bigEndian : Bool) (x : Nat) :
    toHost16 bigEndian x =
      [if bigEndian then UInt8.ofNat (x / 256) else UInt8.ofNat x,
        if bigEndian then UInt8.ofNat x else UInt8.ofNat (x / 256)] := by
  cases bigEndian <;> rfl

/-- The bytes of the header, up to the first datagram of the table. -/
def Uplink.front : List UInt8 :=
  [0x4E, 0x43, 0x4D, 0x48, 12, 0, UInt8.ofNat u.txSeq.toNat, UInt8.ofNat (u.txSeq.toNat / 256),
    UInt8.ofNat (u.data.length + 28), UInt8.ofNat ((u.data.length + 28) / 256), 12, 0,
    0x49, 0x50, 0x53, u.tci, 16, 0, 0, 0]

def Uplink.bytes : List UInt8 :=
  u.front ++ (toHost16 c.bigEndian 28 ++ toHost16 c.bigEndian u.data.length ++ [0, 0, 0, 0]) ++
    u.data

theorem Uplink.block_eq : u.block = some u.bytes := by
  have hzero : toHost16 c.bigEndian 0 = [0, 0] := by cases c.bigEndian <;> rfl
  unfold Uplink.block addMbimHdr
  rw [if_neg (Nat.not_lt.mpr u.headroom_ge)]
  simp only [Option.map_some, mbimHdr, hzero]
  rfl

def Uplink.skbIn (tail : List UInt8) : Skb := ⟨u.bytes, tail⟩

variable (tail : List UInt8)

theorem Uplink.len_skbIn : (u.skbIn tail).len = 28 + u.data.length := by
  simp only [Uplink.skbIn, Uplink.bytes, Skb.len, List.length_append, Uplink.front, toHost16_eq,
    List.length_cons, List.length_nil]

theorem le16_ofNat {x : Nat} (h : x < 65536) :
    (UInt8.ofNat x).toNat + 256 * (UInt8.ofNat (x / 256)).toNat = x := by
  simp only [UInt8.toNat_ofNat']
  omega

theorem Uplink.nth_skbIn :
    (nth c (u.skbIn tail)).2 = some (if c.bigEndian then 0x0C00 else 12) ∧
      queued (nth c (u.skbIn tail)).1 = [] := by
  have hlen := u.len_skbIn tail
  have hpos := u.data_pos
  have hmtu : u.data.length ≤ 32740 := u.data_le
  have hblock : le16 (u.skbIn tail) 8 = u.data.length + 28 := le16_ofNat (by omega)
  have hmax : c.rxMax = 32768 := u.rxMax_eq
  have hndp : host16 c.bigEndian (u.skbIn tail) 10 = if c.bigEndian then 0x0C00 else 12 := by
    unfold host16
    split <;> rfl
  have hsign : [(u.skbIn tail).get 0, (u.skbIn tail).get 1, (u.skbIn tail).get 2,
      (u.skbIn tail).get 3] = nth16Sign := rfl
  unfold nth
  rw [if_neg (by rw [hlen]; simp only [nth16Size, ndp16Size]; omega), hblock, hndp]
  dsimp only
  rw [if_neg (not_not_intro hsign), if_neg (by omega)]
  exact ⟨rfl, rfl⟩

theorem Uplink.index_tci : c.index u.tci.toUInt32 = some u.index := by
  have hpos := c.qmapMode_pos
  have hle := c.qmapMode_le
  have hi := u.i_lt
  have hmode : c.qmapMode = 1 ↔ c.qmapMode.toNat = 1 := by
    rw [← UInt32.toNat_inj]
    rfl
  have hmux : c.mbimMuxId.toNat = 0 ∨ c.mbimMuxId.toNat = 112 := by
    rcases u.mbimMuxId_eq with h | h <;> simp [h, mbimMuxIdSdx7x]
  have hmuxId : u.muxId.toNat = c.mbimMuxId.toNat + u.i.val := by
    simp only [Uplink.muxId, UInt8.toNat_add, UInt32.toNat_toUInt8, UInt8.toNat_ofNat', Nat.toUInt8]
    omega
  have htci : u.tci.toNat =
      c.mbimMuxId.toNat + u.i.val + (if c.qmapMode.toNat > 1 then 1 else 0) := by
    unfold Uplink.tci
    split
    · rw [UInt8.toNat_add, hmuxId]
      simp only [UInt8.toNat_one]
      omega
    · exact hmuxId
  unfold MhiNetdev.index
  by_cases hone : c.qmapMode.toNat = 1
  · have heq : u.tci.toUInt32 = c.mbimMuxId := by
      rw [← UInt32.toNat_inj, UInt8.toNat_toUInt32, htci, if_neg (by omega)]
      omega
    have hzero : u.i.val = 0 := by omega
    rw [if_pos (hmode.mpr hone), if_pos heq, Uplink.index, hzero]
    rfl
  · have hdiff : (u.tci.toUInt32 - c.mbimMuxId).toNat = u.i.val + 1 := by
      rw [UInt32.toNat_sub, UInt8.toNat_toUInt32, htci, if_pos (by omega)]
      omega
    have hindex : (u.tci.toUInt32 - 1 - c.mbimMuxId).toNat = u.i.val := by
      rw [UInt32.toNat_sub, UInt32.toNat_sub, UInt8.toNat_toUInt32, htci, if_pos (by omega),
        UInt32.toNat_one]
      omega
    have hsession : ¬u.tci.toUInt32 - c.mbimMuxId > c.qmapMode := by
      rw [gt_iff_lt, UInt32.lt_iff_toNat_lt]
      omega
    rw [if_neg (fun h => hone (hmode.mp h)), if_neg hsession]
    rw [Option.some.injEq, ← UInt32.toNat_inj, hindex, Uplink.index]
    simp only [Nat.toUInt32, UInt32.toNat_ofNat']
    omega

theorem Uplink.protocolOf_eq : protocolOf (u.data.getD 0 0) = some u.protocol := by
  have hmask : ∀ b : Fin 256, UInt8.ofFin b &&& (0xf0 : UInt8) =
      UInt8.ofFin b >>> (4 : UInt8) <<< (4 : UInt8) := by
    decide +kernel
  unfold protocolOf Uplink.protocol
  rw [show u.data.getD 0 0 &&& (0xf0 : UInt8) = u.data.getD 0 0 >>> (4 : UInt8) <<< (4 : UInt8) from
    hmask (u.data.getD 0 0).toFin]
  rcases u.nibble with h | h <;> rw [h] <;> rfl

theorem Uplink.drop_skbIn : (u.skbIn tail).data.drop 28 = u.data := by
  simp only [Uplink.skbIn, Uplink.bytes, Uplink.front, toHost16_eq]
  rfl

theorem Uplink.get_skbIn : (u.skbIn tail).get 28 = u.data.getD 0 0 := by
  obtain ⟨byte, rest, hdata⟩ := List.exists_cons_of_length_pos u.data_pos
  simp only [Uplink.skbIn, Uplink.bytes, Uplink.front, toHost16_eq, Skb.get, hdata]
  rfl

theorem Uplink.tci_skbIn : Mbim.tci (u.skbIn tail) 12 = some u.tci.toUInt32 := rfl

/-- On a little-endian host the NDP of the header lists the packet, and no NDP comes after it. -/
theorem Uplink.ndp_skbIn (hendian : c.bigEndian = false) :
    ndp c (fun _ _ => true) (u.skbIn tail) 12 =
      ([.read 12 ndp16Size, .index u.index, .read 20 dpe16Size, .device u.index, .alloc,
        .read 28 u.data.length, .queue u.received, .read 24 dpe16Size], some 0) := by
  have hlen := u.len_skbIn tail
  have hpos := u.data_pos
  have hmtu : u.data.length ≤ 32740 := u.data_le
  have hmax : c.rxMax = 32768 := u.rxMax_eq
  have hlength : le16 (u.skbIn tail) (12 + 4) = 16 := rfl
  have hframes : nframes (u.skbIn tail) 12 = 2 := by rw [nframes, hlength]; rfl
  have hsupported : Supported c (u.skbIn tail) 12 u.tci.toUInt32 u.index := by
    refine ⟨by decide, ?_, Nat.le_refl _, ?_, u.tci_skbIn tail, u.index_tci⟩
    · simp only [hlen, ndp16Size]
      omega
    · simp only [hframes, hlen, ndp16Size, dpe16Size]
      omega
  have hoffset : le16 (u.skbIn tail) 20 = 28 := by
    simp only [Uplink.skbIn, Uplink.bytes, hendian]
    rfl
  have hskbLen : le16 (u.skbIn tail) 22 = u.data.length := by
    simp only [Uplink.skbIn, Uplink.bytes, hendian]
    exact le16_ofNat (by omega)
  have hend : le16 (u.skbIn tail) 24 = 0 := by
    simp only [Uplink.skbIn, Uplink.bytes, toHost16_eq]
    rfl
  have hprotocol : protocolOf ((u.skbIn tail).get 28) = some u.protocol := by
    rw [u.get_skbIn, u.protocolOf_eq]
  rw [ndp_of_supported hsupported, hframes, show 12 + ndp16Size = 20 from rfl,
    datagrams_next hoffset hskbLen (by omega) (by omega) rfl hprotocol,
    show 20 + dpe16Size = 24 from rfl, datagrams_end hend rfl (.inl rfl), u.drop_skbIn,
    List.take_length]
  rfl

theorem Uplink.entry_index : c.entry u.index ≠ none := by
  have hi := u.i.isLt
  have hindex : u.index.toNat = u.i.val := by
    simp only [Uplink.index, Nat.toUInt32, UInt32.toNat_ofNat']
    omega
  unfold MhiNetdev.entry
  rw [dif_pos (by omega)]
  simp only [hindex]
  exact u.registered

theorem queued_append (as bs : List Access) : queued (as ++ bs) = queued as ++ queued bs := by
  induction as with
  | nil => rfl
  | cons a as ih => cases a <;> simp [queued, ih]

/-- The handler goes through the NDPs from the offset on, and the packet is the only one that they
list. -/
def Lists (c : MhiNetdev) (skbIn : Skb) (ndpoffset : Nat) (packet : Packet) : Prop :=
  ∃ bs, Ends (ndp c (fun _ _ => true) skbIn) ndpoffset bs ∧ queued bs = [packet]

theorem Uplink.delivers_iff_lists :
    Delivers c (u.skbIn tail) u.received ↔
      Lists c (u.skbIn tail) (if c.bigEndian then 0x0C00 else 12) u.received := by
  obtain ⟨hnth, hqueued⟩ := u.nth_skbIn tail
  constructor
  · rintro ⟨-, -, as, has, hpacket⟩
    obtain ⟨bs, hbs, rfl⟩ := (rxHandler_some hnth).mp has
    rw [queued_append, hqueued, List.nil_append] at hpacket
    exact ⟨bs, hbs, hpacket⟩
  · rintro ⟨bs, hbs, hpacket⟩
    refine ⟨u.entry_index, by simp [hnth], _, (rxHandler_some hnth).mpr ⟨bs, hbs, rfl⟩, ?_⟩
    rw [queued_append, hqueued, List.nil_append, hpacket]

theorem Uplink.lists (hendian : c.bigEndian = false) : Lists c (u.skbIn tail) 12 u.received := by
  have hndp := u.ndp_skbIn tail hendian
  have hstop : ndp c (fun _ _ => true) (u.skbIn tail) 0 = ([], none) := rfl
  have hends := Ends.stop (congrArg Prod.snd hstop)
  have hends := Ends.next (congrArg Prod.snd hndp) hends
  rw [hndp, hstop] at hends
  exact ⟨_, hends, rfl⟩

theorem Lists.len_ge {skbIn : Skb} {ndpoffset : Nat} {packet : Packet}
    (h : Lists c skbIn ndpoffset packet) : ndpoffset + ndp16Size ≤ skbIn.len := by
  obtain ⟨bs, hbs, hpacket⟩ := h
  by_contra hlen
  have hndp : ndp c (fun _ _ => true) skbIn ndpoffset = ([], none) := by
    unfold ndp
    split
    · rfl
    · rw [if_pos (by omega)]
  cases hbs with
  | stop =>
    rw [hndp] at hpacket
    cases hpacket
  | next hnext =>
    rw [hndp] at hnext
    cases hnext

/-- A little-endian host takes from every block the packet that was put there.  A big-endian host
reads `wNdpIndex` as it is and looks for the NDPs behind the first 3044 bytes of the packet, so that
there it depends on the bytes of the packet. -/
theorem mbim_delivers_iff (c : MhiNetdev) (u : Uplink c) (tail : List UInt8) :
    ∃ block, u.block = some block ∧
      (Delivers c ⟨block, tail⟩ u.received ↔ c.bigEndian = false ∨
        3052 ≤ u.data.length ∧ Lists c ⟨block, tail⟩ 0x0C00 u.received) := by
  refine ⟨u.bytes, u.block_eq, ?_⟩
  have hiff := u.delivers_iff_lists tail
  have hskb : u.skbIn tail = ⟨u.bytes, tail⟩ := rfl
  rw [← hskb]
  cases hendian : c.bigEndian with
  | false =>
    rw [hendian] at hiff
    simpa using hiff.mpr (u.lists tail hendian)
  | true =>
    rw [hendian, if_pos rfl] at hiff
    refine Iff.trans hiff ⟨fun h => .inr ⟨?_, h⟩, fun h => ?_⟩
    · have hlen := h.len_ge
      rw [u.len_skbIn, ndp16Size] at hlen
      omega
    · rcases h with h | h
      · cases h
      · exact h.2

def bigEndianHost : MhiNetdev := { oneDevice with bigEndian := true }

def emptyPacket : Uplink bigEndianHost where
  i := 0
  headroom := .replicate 28 0
  data := [0x45, 0, 0, 20, 0, 0, 0, 0, 64, 59, 0, 0, 10, 0, 0, 1, 10, 0, 0, 2]
  txSeq := 0
  i_lt := by decide
  registered := by decide
  mbimMuxId_eq := .inl rfl
  rxMax_eq := rfl
  headroom_ge := by decide
  data_pos := by decide
  data_le := by decide
  nibble := by decide

theorem mbim_not_delivered : ¬∀ (c : MhiNetdev) (u : Uplink c) (tail block : List UInt8),
    u.block = some block → Delivers c ⟨block, tail⟩ u.received := by
  intro h
  have hlists := (emptyPacket.delivers_iff_lists []).mp (h _ emptyPacket [] _ emptyPacket.block_eq)
  have hlen := hlists.len_ge
  revert hlen
  decide

end ModemSupport.Mhi.Mbim
