import ModemSupport.Qmi.QmapBounds

/-! When the demultiplexers end and stay within the received buffer. -/

namespace ModemSupport.Qmi.QmapBounds

open Lib.Loop List Option

variable {size total start n : Nat} {d : Demux size} {command : Nat → Skb → List Access}
  {fits : Skb → Prop} {alloc : Bool} {allocs : Nat → Bool} {skbIn skb : Skb} {a : Access}

/-- The accesses of a frame are within the buffer, and it is not longer than what is left. -/
structure FrameWithin (d : Demux size) (command : Nat → Skb → List Access) (alloc : Bool)
    (total start : Nat) (skbIn : Skb) : Prop where
  within : ∀ a ∈ (d.frame command alloc start skbIn).1, Within d total a
  whole : ∀ n, (d.frame command alloc start skbIn).2 = some n → n ≤ skbIn.len

/-- The frame that is read from the last `skbIn.len` bytes of `total`. -/
structure At (total start : Nat) (skbIn : Skb) : Prop where
  sum : start + skbIn.len = total
  header : qmapHdrSize < skbIn.len

theorem hdrSize_cases (h : RmnetMapHeader) : hdrSize h = 4 ∨ hdrSize h = 8 ∧ h.nextHdr = true := by
  rw [hdrSize]
  split
  next hnext => exact .inr ⟨rfl, hnext⟩
  next => exact .inl rfl

theorem forall_header (hat : At total start skbIn) {as : List Access} :
    (∀ a ∈ Access.read start qmapHdrSize :: as, Within d total a) ↔ ∀ a ∈ as, Within d total a := by
  rw [forall_mem_cons, and_iff_right]
  have hsum := hat.sum
  have hheader := hat.header
  show start + qmapHdrSize ≤ total
  omega

theorem packet_within (hat : At total start skbIn) (hwhole :
      (RmnetMapHeader.read skbIn).pktLen.toNat + hdrSize (RmnetMapHeader.read skbIn) ≤ skbIn.len) :
    (∀ a ∈ (d.packet alloc start skbIn).1, Within d total a) ↔ PacketFits d alloc skbIn := by
  have hsum := hat.sum
  have hread : Within d total (.read (start + hdrSize (RmnetMapHeader.read skbIn)) 1) ↔
      hdrSize (RmnetMapHeader.read skbIn) < skbIn.len := by
    show start + _ + 1 ≤ total ↔ _
    omega
  simp only [Demux.packet, PacketFits]
  cases hprotocol : protocolOf (skbIn.get (hdrSize (RmnetMapHeader.read skbIn))) with
  | none => simp [hread]
  | some protocol =>
    have hcopy : Within d total (.copy (start + hdrSize (RmnetMapHeader.read skbIn))
        (d.skbLen (RmnetMapHeader.read skbIn))) ↔
        (d.skbLen (RmnetMapHeader.read skbIn)).toNat < 2 ^ 31 ∧
          hdrSize (RmnetMapHeader.read skbIn) + (d.skbLen (RmnetMapHeader.read skbIn)).toNat ≤
            skbIn.len := by
      show _ ∧ start + _ + _ ≤ total ↔ _
      omega
    have hul : ∀ a ∈ (if (RmnetMapHeader.read skbIn).nextHdr then
        [Access.read (start + qmapHdrSize) 2] else []), Within d total a := by
      intro a ha
      split at ha
      next hnext =>
        obtain rfl := mem_singleton.mp ha
        have hsize : hdrSize (RmnetMapHeader.read skbIn) = 8 := by
          rw [hdrSize, if_pos hnext]
          rfl
        show start + 4 + 2 ≤ total
        omega
      next => cases ha
    have hne : some protocol ≠ none := some_ne_none protocol
    cases alloc with
    | true =>
      show (∀ a ∈ [_, _, _] ++ _, Within d total a) ↔ _
      rw [forall_mem_append, and_iff_left hul, forall_mem_cons, forall_mem_cons,
        forall_mem_singleton, hread, hcopy]
      constructor
      · rintro ⟨hbyte, hlen, -, hroom⟩
        exact ⟨hbyte, fun _ => ⟨hlen, fun _ => hroom⟩⟩
      · rintro ⟨hbyte, hrest⟩
        exact ⟨hbyte, (hrest hne).1, (hrest hne).1, (hrest hne).2 rfl⟩
    | false =>
      show (∀ a ∈ [_, _], Within d total a) ↔ _
      rw [forall_mem_cons, forall_mem_singleton, hread]
      constructor
      · rintro ⟨hbyte, hlen⟩
        exact ⟨hbyte, fun _ => ⟨hlen, fun h => by cases h⟩⟩
      · rintro ⟨hbyte, hrest⟩
        exact ⟨hbyte, (hrest hne).1⟩

theorem packet_whole {h : RmnetMapHeader} (hh : h = RmnetMapHeader.read skbIn)
    (hn : (d.packet alloc start skbIn).2 = some n) : n = h.pktLen.toNat + hdrSize h := by
  subst hh
  simp only [Demux.packet] at hn
  split at hn
  · cases hn
  · split at hn
    · exact (some.inj hn).symm
    · cases hn

/-- There is a device for the frame. -/
structure Known (d : Demux size) (skbIn : Skb) : Prop where
  below : muxIndex (RmnetMapHeader.read skbIn).muxId < d.qmapMode
  entry : d.entry (muxIndex (RmnetMapHeader.read skbIn).muxId) ≠ none

theorem frame_within (hat : At total start skbIn)
    (hcommand : Known d skbIn → ((∀ a ∈ command start skbIn, Within d total a) ↔ fits skbIn)) :
    FrameWithin d command alloc total start skbIn ↔ FrameFits d fits alloc skbIn := by
  have hiff : FrameWithin d command alloc total start skbIn ↔
      (∀ a ∈ (d.frame command alloc start skbIn).1, Within d total a) ∧
        ∀ n, (d.frame command alloc start skbIn).2 = some n → n ≤ skbIn.len :=
    ⟨fun h => ⟨h.within, h.whole⟩, fun h => ⟨h.1, h.2⟩⟩
  rw [hiff]
  simp only [Demux.frame, FrameFits]
  by_cases hmux : muxIndex (RmnetMapHeader.read skbIn).muxId ≥ d.qmapMode
  · rw [if_pos hmux, forall_header hat]
    refine iff_of_true ⟨by simp, by simp⟩ fun hlt => ?_
    exact absurd hmux (UInt32.not_le.mpr hlt)
  · have hlt : muxIndex (RmnetMapHeader.read skbIn).muxId < d.qmapMode := UInt32.not_le.mp hmux
    have hindex : Within d total (.index (muxIndex (RmnetMapHeader.read skbIn).muxId)) := hlt
    rw [if_neg hmux]
    cases hentry : d.entry (muxIndex (RmnetMapHeader.read skbIn).muxId) with
    | none =>
      show (∀ a ∈ [_, _], Within d total a) ∧ (∀ n, some _ = some n → n ≤ skbIn.len) ↔ _
      rw [forall_header hat, forall_mem_singleton, and_iff_right hindex]
      constructor
      · exact fun hwhole _ => ⟨fun _ => hwhole _ rfl, fun net hnet => by cases hnet⟩
      · intro hfits n hn
        obtain rfl := some.inj hn
        exact (hfits hlt).1 rfl
    | some net =>
      dsimp only
      by_cases hmtu : d.skbLen (RmnetMapHeader.read skbIn) > net.mtu
      · rw [if_pos hmtu, forall_header hat, forall_mem_singleton, and_iff_right hindex]
        refine iff_of_true (fun n hn => by cases hn) fun _ => ⟨(fun hnone => by cases hnone), ?_⟩
        intro net' hnet hle
        obtain rfl := some.inj hnet
        exact absurd hle (UInt32.not_le.mpr hmtu)
      have hle : d.skbLen (RmnetMapHeader.read skbIn) ≤ net.mtu := UInt32.not_lt.mp hmtu
      rw [if_neg hmtu]
      by_cases hlen : skbIn.len < (RmnetMapHeader.read skbIn).pktLen.toNat +
          hdrSize (RmnetMapHeader.read skbIn)
      · rw [if_pos hlen, forall_header hat, forall_mem_singleton, and_iff_right hindex]
        refine iff_of_true (fun n hn => by cases hn) fun _ => ⟨(fun hnone => by cases hnone), ?_⟩
        exact fun _ _ _ hwhole => absurd hlen (Nat.not_lt.mpr hwhole)
      have hwhole := Nat.le_of_not_lt hlen
      rw [if_neg hlen]
      by_cases hcd : (RmnetMapHeader.read skbIn).cdBit = true
      · have hknown : Known d skbIn := ⟨hlt, by simp [hentry]⟩
        rw [if_pos hcd, forall_header hat, forall_mem_cons, and_iff_right hindex,
          hcommand hknown]
        constructor
        · rintro ⟨hfits, -⟩ -
          exact ⟨(fun hnone => by cases hnone),
            fun _ _ _ _ => ⟨fun _ => hfits, fun hno => by cases hcd.symm.trans hno⟩⟩
        · intro hall
          refine ⟨((hall hlt).2 net rfl hle hwhole).1 hcd, fun n hn => ?_⟩
          obtain rfl := some.inj hn
          exact hwhole
      · have hno : (RmnetMapHeader.read skbIn).cdBit = false := Bool.eq_false_iff.mpr hcd
        rw [if_neg hcd, forall_header hat, forall_mem_cons, and_iff_right hindex,
          packet_within hat hwhole]
        constructor
        · rintro ⟨hfits, -⟩ -
          exact ⟨(fun hnone => by cases hnone),
            fun _ _ _ _ => ⟨fun hyes => absurd hyes hcd, fun _ => hfits⟩⟩
        · intro hall
          refine ⟨((hall hlt).2 net rfl hle hwhole).2 hno, fun n hn => ?_⟩
          rw [packet_whole rfl hn]
          exact hwhole

theorem pull_len (h : n ≤ skbIn.len) : (skbIn.pull n).len = skbIn.len - n := by
  rw [Skb.pull, if_neg (Nat.not_lt.mpr h), Skb.len, length_drop, Skb.len]

theorem pull_too_long (h : skbIn.len < n) : skbIn.pull n = skbIn := if_pos h

theorem pull_le : (skbIn.pull n).len ≤ skbIn.len := by
  by_cases h : n ≤ skbIn.len
  · rw [pull_len h]
    exact Nat.sub_le ..
  · rw [pull_too_long (Nat.lt_of_not_le h)]

theorem round_next (h : (d.round command allocs total skbIn).2 = some skb) :
    qmapHdrSize < skbIn.len ∧ ∃ n, (d.frame command (allocs (total - skbIn.len))
      (total - skbIn.len) skbIn).2 = some n ∧ skb = skbIn.pull n := by
  rw [Demux.round] at h
  split at h
  next hlen =>
    obtain ⟨n, hn, rfl⟩ := map_eq_some_iff.mp h
    exact ⟨hlen, n, hn, rfl⟩
  next => cases h

theorem round_eq (h : qmapHdrSize < skbIn.len) : d.round command allocs total skbIn =
    ((d.frame command (allocs (total - skbIn.len)) (total - skbIn.len) skbIn).1,
      (d.frame command (allocs (total - skbIn.len)) (total - skbIn.len) skbIn).2.map skbIn.pull) :=
  if_pos h

theorem round_stop (h : ¬qmapHdrSize < skbIn.len) :
    d.round command allocs total skbIn = ([], none) := if_neg h

theorem frame_pos (h : (d.frame command alloc start skbIn).2 = some n) : qmapHdrSize ≤ n := by
  have hsize : qmapHdrSize ≤ hdrSize (RmnetMapHeader.read skbIn) := by
    have hcases := hdrSize_cases (RmnetMapHeader.read skbIn)
    rw [qmapHdrSize]
    omega
  simp only [Demux.frame] at h
  split at h
  · cases h
  · split at h
    · obtain rfl := some.inj h
      omega
    · split at h
      · cases h
      · split at h
        · cases h
        · split at h
          · obtain rfl := some.inj h
            omega
          · rw [packet_whole rfl h]
            omega

theorem comes_le (h : Comes (d.round command allocs total) skbIn skb) : skb.len ≤ skbIn.len := by
  induction h with
  | start => exact Nat.le_refl _
  | next _ hu ih =>
    obtain ⟨-, n, -, rfl⟩ := round_next hu
    exact pull_le.trans ih

theorem inBounds_iff (hcommand : ∀ skb, At skbIn.len (skbIn.len - skb.len) skb → Known d skb →
      ((∀ a ∈ command (skbIn.len - skb.len) skb, Within d skbIn.len a) ↔ fits skb)) :
    InBounds d (d.round command allocs) skbIn ↔
      FramesFit d fits allocs (d.round command allocs) skbIn := by
  have hframe : ∀ skb, Comes (d.round command allocs skbIn.len) skbIn skb → qmapHdrSize < skb.len →
      (FrameWithin d command (allocs (skbIn.len - skb.len)) skbIn.len (skbIn.len - skb.len) skb ↔
        FrameFits d fits (allocs (skbIn.len - skb.len)) skb) := by
    intro skb hcomes hlen
    have hle := comes_le hcomes
    have hat : At skbIn.len (skbIn.len - skb.len) skb := ⟨by omega, hlen⟩
    exact frame_within hat (hcommand skb hat)
  constructor
  · rintro ⟨as, hends, hwithin⟩ skb hcomes hlen
    rw [← hframe skb hcomes hlen]
    have hround := hends.forall_iff.mp hwithin skb hcomes
    rw [round_eq hlen] at hround
    refine ⟨hround, fun n hn => ?_⟩
    -- a frame that is longer is not pulled, and the loop is where it was
    by_contra hlong
    obtain ⟨bs, hbs⟩ := hends.of_comes hcomes
    have hsame : (d.round command allocs skbIn.len skb).2 = some skb := by
      rw [round_eq hlen, hn, map_some, pull_too_long (Nat.lt_of_not_le hlong)]
    exact hbs.not_cycle ⟨skb, hsame, .start⟩
  · intro hfit
    have hends : ∃ as, Ends (d.round command allocs skbIn.len) skbIn as := by
      refine exists_ends Skb.len fun skb hcomes skb' hnext => ?_
      obtain ⟨hlen, n, hn, rfl⟩ := round_next hnext
      have hwhole := ((hframe skb hcomes hlen).mpr (hfit skb hcomes hlen)).whole n hn
      have hpos := frame_pos hn
      rw [pull_len hwhole]
      rw [qmapHdrSize] at hpos
      omega
    obtain ⟨as, has⟩ := hends
    refine ⟨as, has, has.forall_iff.mpr fun skb hcomes => ?_⟩
    by_cases hlen : qmapHdrSize < skb.len
    · rw [round_eq hlen]
      exact ((hframe skb hcomes hlen).mpr (hfit skb hcomes hlen)).within
    · rw [round_stop hlen]
      simp

theorem muxIndex_command {muxId : UInt8} {mode : UInt32} (hmode : mode.toNat ≤ 8)
    (h : muxIndex muxId < mode) : (muxId - quectelQmapMuxId).toUInt32 = muxIndex muxId := by
  have hlt := UInt32.lt_iff_toNat_lt.mp h
  have hid := muxId.toNat_lt
  rw [muxIndex, UInt32.toNat_sub, UInt8.toNat_toUInt32, UInt8.toNat_toUInt32] at hlt
  rw [← UInt32.toNat_inj, muxIndex, UInt8.toNat_toUInt32, UInt8.toNat_sub, UInt32.toNat_sub,
    UInt8.toNat_toUInt32, UInt8.toNat_toUInt32]
  have hbase : quectelQmapMuxId.toNat = 129 := rfl
  rw [hbase] at hlt ⊢
  omega

theorem ack_within (hsum : start + skbIn.len = total)
    (h : qmapHdrSize + controlCommandSize ≤ skbIn.len) :
    ∀ a ∈ rmnetMapSendAck alloc start, Within d total a := by
  intro a ha
  rw [rmnetMapSendAck] at ha
  split at ha
  · obtain rfl := mem_singleton.mp ha
    rw [qmapHdrSize, controlCommandSize] at h
    exact ⟨by decide, show start + 20 ≤ total by omega⟩
  · cases ha

theorem command_within {d : Demux 8} (hat : At total start skbIn) (hknown : Known d skbIn) :
    (∀ a ∈ rmnetDataMapCommand d allocs start skbIn, Within d total a) ↔ CommandFits skbIn := by
  have hsum := hat.sum
  have hheader := hat.header
  have hname : Within d total (.read (start + qmapHdrSize) 1) := by
    show start + qmapHdrSize + 1 ≤ total
    omega
  have hindex := muxIndex_command d.qmapMode_le hknown.below
  obtain ⟨net, hnet⟩ := ne_none_iff_exists'.mp hknown.entry
  rw [rmnetDataMapCommand, CommandFits]
  by_cases hflow : skbIn.get qmapHdrSize = rmnetMapCommandFlowEnable ∨
      skbIn.get qmapHdrSize = rmnetMapCommandFlowDisable
  · have hcontrol : rmnetMapDoFlowControl d start (RmnetMapHeader.read skbIn) =
        ([.index (muxIndex (RmnetMapHeader.read skbIn).muxId), .read (start + 13) 1,
          .read (start + 14) 2, .read (start + 16) 4], true) := by
      simp only [rmnetMapDoFlowControl, hindex, hnet]
      exact if_neg (UInt32.not_le.mpr hknown.below)
    simp only [hflow, ↓reduceIte, hcontrol, forall_const, forall_mem_cons, hname, true_and,
      cons_append, nil_append]
    constructor
    · rintro ⟨-, -, -, hread, -⟩
      have hread' : start + 16 + 4 ≤ total := hread
      rw [qmapHdrSize, controlCommandSize]
      omega
    · intro hroom
      have hack : ∀ a ∈ rmnetMapSendAck (allocs start) start, Within d total a :=
        ack_within hsum hroom
      rw [qmapHdrSize, controlCommandSize] at hroom
      refine ⟨hknown.below, ?_, ?_, ?_, hack⟩
      · show start + 13 + 1 ≤ total
        omega
      · show start + 14 + 2 ≤ total
        omega
      · show start + 16 + 4 ≤ total
        omega
  · simp only [hflow, ↓reduceIte, forall_mem_singleton, hname, false_imp_iff]

def ofSQmiWwanQmap (q : SQmiWwanQmap) : Demux quectelWwanQmap where
  mpQmapNetDev := q.mpQmapNetDev
  qmapMode := q.qmapMode
  qmapVersion := q.qmapVersion
  dlMinimumPadding := q.dlMinimumPadding
  qmapMode_le := UInt32.le_iff_toNat_le.mp q.qmapMode_le

/-- A frame is pulled, and the loop goes on, just as when packets are taken out of it. -/
theorem frame_decodePacket (q : SQmiWwanQmap) : ((ofSQmiWwanQmap q).frame
    (fun _ _ => []) alloc start skbIn).2 = (decodePacket q alloc skbIn).map Prod.snd := by
  by_cases hmux : q.qmapMode ≤ muxIndex (RmnetMapHeader.read skbIn).muxId
  · have hnone : Qmi.muxIndex q (RmnetMapHeader.read skbIn).muxId = none := dif_pos hmux
    have hmode : (ofSQmiWwanQmap q).qmapMode ≤ muxIndex (RmnetMapHeader.read skbIn).muxId := hmux
    simp only [Demux.frame, decodePacket, hnone, ge_iff_le, hmode, ↓reduceIte, bind_eq_bind,
      bind_none, map_none]
  · obtain ⟨dev, hdev, hval⟩ : ∃ dev, Qmi.muxIndex q (RmnetMapHeader.read skbIn).muxId = some dev ∧
        (muxIndex (RmnetMapHeader.read skbIn).muxId).toNat = dev.val := ⟨_, dif_neg hmux, rfl⟩
    have hmode : ¬(ofSQmiWwanQmap q).qmapMode ≤ muxIndex (RmnetMapHeader.read skbIn).muxId := hmux
    have hentry : (ofSQmiWwanQmap q).entry (muxIndex (RmnetMapHeader.read skbIn).muxId) =
        q.mpQmapNetDev dev := by
      have hlt : (muxIndex (RmnetMapHeader.read skbIn).muxId).toNat < quectelWwanQmap := by
        rw [hval]
        exact dev.isLt
      rw [Demux.entry, dif_pos hlt]
      exact congrArg q.mpQmapNetDev (Fin.ext hval)
    have hlen : (ofSQmiWwanQmap q).skbLen (RmnetMapHeader.read skbIn) =
      (RmnetMapHeader.read skbIn).pktLen.toUInt32 -
        UInt32.ofNat (RmnetMapHeader.read skbIn).padLen.toNat -
        (if q.qmapVersion = 9 then q.dlMinimumPadding else 0) := rfl
    have hsize : (if (RmnetMapHeader.read skbIn).nextHdr = true then qmapHdrSize + csumHeaderSize
      else qmapHdrSize) = hdrSize (RmnetMapHeader.read skbIn) := rfl
    simp only [Demux.frame, decodePacket, hdev, ge_iff_le, hmode, ↓reduceIte, bind_eq_bind,
      bind_some, hentry, ← hlen, hsize]
    cases q.mpQmapNetDev dev with
    | none => rfl
    | some net =>
      dsimp only
      by_cases hmtu : (ofSQmiWwanQmap q).skbLen (RmnetMapHeader.read skbIn) > net.mtu
      · rw [if_pos hmtu, if_pos hmtu]
        rfl
      rw [if_neg hmtu, if_neg hmtu]
      by_cases hroom : skbIn.len < (RmnetMapHeader.read skbIn).pktLen.toNat +
          hdrSize (RmnetMapHeader.read skbIn)
      · rw [if_pos hroom, if_pos hroom]
        rfl
      rw [if_neg hroom, if_neg hroom]
      by_cases hcd : (RmnetMapHeader.read skbIn).cdBit = true
      · rw [if_pos hcd, if_pos hcd]
        rfl
      rw [if_neg hcd, if_neg hcd, Demux.packet]
      cases protocolOf (skbIn.get (hdrSize (RmnetMapHeader.read skbIn))) with
      | none => rfl
      | some protocol => cases alloc <;> rfl

/-- Both demultiplexers end within the buffer when the frames that they come to fit: for the USB
driver a command always does. -/
theorem demux_in_bounds (usb : Demux quectelWwanQmap) (pcie : Demux 8) (alloc : Nat → Bool)
    (skbIn : Skb) :
    (InBounds usb (qmapPacketDecode usb alloc) skbIn ↔
      FramesFit usb (fun _ => True) alloc (qmapPacketDecode usb alloc) skbIn) ∧
    (InBounds pcie (rmnetQmiRxHandler pcie alloc) skbIn ↔
      FramesFit pcie CommandFits alloc (rmnetQmiRxHandler pcie alloc) skbIn) := by
  constructor
  · exact inBounds_iff fun skb _ _ => by simp
  · exact inBounds_iff fun skb hat hknown => command_within hat hknown

def oneDevice : Demux quectelWwanQmap where
  mpQmapNetDev i :=
    if i.val = 0 then some ⟨1500, false, .replicate 6 0, false, .replicate 6 0⟩
    else none
  qmapMode := 2
  qmapVersion := 5
  dlMinimumPadding := 0
  qmapMode_le := by decide

/-- A frame for the second device that is longer than the buffer: nothing is pulled, again and
again. -/
theorem not_demux_in_bounds : ¬((∀ (d : Demux quectelWwanQmap) (alloc : Nat → Bool) (skbIn : Skb),
      InBounds d (qmapPacketDecode d alloc) skbIn) ∧
    ∀ (d : Demux 8) (alloc : Nat → Bool) (skbIn : Skb),
      InBounds d (rmnetQmiRxHandler d alloc) skbIn) := by
  rintro ⟨h, -⟩
  obtain ⟨as, hends, -⟩ := h oneDevice (fun _ => true) ⟨[0x00, 0x82, 0x01, 0x00, 0x45], []⟩
  have hsame : (qmapPacketDecode oneDevice (fun _ => true) 5
      ⟨[0x00, 0x82, 0x01, 0x00, 0x45], []⟩).2 = some ⟨[0x00, 0x82, 0x01, 0x00, 0x45], []⟩ := by
    decide
  exact hends.not_cycle ⟨_, hsame, .start⟩

end ModemSupport.Qmi.QmapBounds
