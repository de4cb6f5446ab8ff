import ModemSupport.Lib.BitFields

/-! The node descriptor of the SIPA FIFOs in memory (`sipa_core.h`): the modem reads the bytes
that a little-endian compiler stores, and a big-endian host converts its own. -/

namespace ModemSupport.Sipa.NodeDesc

open ModemSupport.Lib BitFields Memory Function

structure NodeDescriptionTag where
  address : BitVec 40
  length : BitVec 20
  offset : BitVec 12
  netId : UInt8
  src : BitVec 5
  dst : BitVec 5
  prio : BitVec 3
  bearId : BitVec 7
  intr : BitVec 1
  indx : BitVec 1
  errCode : BitVec 4
  reserved : BitVec 22

def NodeDescriptionTag.fields (node : NodeDescriptionTag) : List Field :=
  [⟨40, node.address⟩, ⟨20, node.length⟩, ⟨12, node.offset⟩, ⟨8, node.netId.toBitVec⟩,
    ⟨5, node.src⟩, ⟨5, node.dst⟩, ⟨3, node.prio⟩, ⟨7, node.bearId⟩, ⟨1, node.intr⟩,
    ⟨1, node.indx⟩, ⟨4, node.errCode⟩, ⟨22, node.reserved⟩]

def NodeDescriptionTag.mem (node : NodeDescriptionTag) : Mem :=
  fun i => (bigEndian node.fields).getD i 0

/-- `sipa_get_node_desc`, which leaves the other fields of the node. -/
def sipaGetNodeDesc (nodeAddr : Mem) (node : NodeDescriptionTag) : NodeDescriptionTag :=
  let low : UInt32 := (nodeAddr 0).toUInt32 + ((nodeAddr 1).toUInt32 <<< 8) +
    ((nodeAddr 2).toUInt32 <<< 16) + ((nodeAddr 3).toUInt32 <<< 24)
  let address : UInt64 := low.toUInt64 + ((nodeAddr 4).toUInt64 <<< 32)
  let src : UInt8 := nodeAddr 10 &&& 0x1f
  let errCode : UInt8 := ((nodeAddr 12 &&& 0xc0) >>> 6) + ((nodeAddr 13 &&& 0x03) <<< 2)
  { node with
    address := address.toBitVec.setWidth 40
    netId := nodeAddr 9
    src := src.toBitVec.setWidth 5
    errCode := errCode.toBitVec.setWidth 4 }

def store (m : Mem) (i : Nat) (byte : UInt8) : Mem := update m i byte

def sipaSetNodeDesc (dstAddr srcAddr : Mem) : Mem :=
  -- address
  let dstAddr := store dstAddr 0 (srcAddr 4)
  let dstAddr := store dstAddr 1 (srcAddr 3)
  let dstAddr := store dstAddr 2 (srcAddr 2)
  let dstAddr := store dstAddr 3 (srcAddr 1)
  let dstAddr := store dstAddr 4 (srcAddr 0)
  -- length
  let dstAddr := store dstAddr 5 ((srcAddr 7 >>> 4) + ((srcAddr 6 &&& 0x0f) <<< 4))
  let dstAddr := store dstAddr 6 ((srcAddr 6 >>> 4) + ((srcAddr 5 &&& 0x0f) <<< 4))
  let dstAddr := store dstAddr 7 (srcAddr 5 >>> 4)
  -- offset
  let dstAddr := store dstAddr 7 (dstAddr 7 + ((srcAddr 8 &&& 0x0f) <<< 4))
  let dstAddr := store dstAddr 8 ((srcAddr 7 <<< 4) + (srcAddr 8 >>> 4))
  -- netid
  let dstAddr := store dstAddr 9 (srcAddr 9)
  -- src
  let dstAddr := store dstAddr 10 ((srcAddr 10 &&& 0xf8) >>> 3)
  -- dst
  let dstAddr := store dstAddr 10
    (dstAddr 10 + (((srcAddr 11 >>> 6) + ((srcAddr 10 &&& 0x01) <<< 2)) <<< 5))
  let dstAddr := store dstAddr 11 ((srcAddr 10 &&& 0x6) >>> 1)
  -- prio
  let dstAddr := store dstAddr 11 (dstAddr 11 + ((srcAddr 11 &&& 0x38) >>> 1))
  -- bear_id
  let dstAddr := store dstAddr 11 (dstAddr 11 + ((srcAddr 12 &&& 0x70) <<< 1))
  let dstAddr := store dstAddr 12 (((srcAddr 11 &&& 0x7) <<< 1) + (srcAddr 12 >>> 7))
  -- intx
  let dstAddr := store dstAddr 12 (dstAddr 12 + ((srcAddr 12 &&& 0x8) <<< 1))
  -- indx
  let dstAddr := store dstAddr 12 (dstAddr 12 + ((srcAddr 12 &&& 0x4) <<< 3))
  -- err code
  let dstAddr := store dstAddr 12 (dstAddr 12 + (srcAddr 13 &&& 0xc0))
  let dstAddr := store dstAddr 13 (srcAddr 12 &&& 0x3)
  -- reserved
  let dstAddr := store dstAddr 13 (dstAddr 13 + (srcAddr 15 <<< 2))
  let dstAddr := store dstAddr 14 ((srcAddr 15 &&& (0x3 : UInt8)) + (srcAddr 14 <<< 2))
  store dstAddr 15 (((srcAddr 13 &&& 0x3f) <<< 2) + ((srcAddr 14 &&& 0xc0) >>> 6))

variable {node : NodeDescriptionTag} {dstAddr : Mem}

def NodeDescriptionTag.tail (node : NodeDescriptionTag) : List Field :=
  [⟨5, node.src⟩, ⟨5, node.dst⟩, ⟨3, node.prio⟩, ⟨7, node.bearId⟩, ⟨1, node.intr⟩,
    ⟨1, node.indx⟩, ⟨4, node.errCode⟩, ⟨22, node.reserved⟩]

theorem fields_eq (node : NodeDescriptionTag) : node.fields = [⟨40, node.address⟩] ++
    ([⟨20, node.length⟩, ⟨12, node.offset⟩] ++ ([⟨8, node.netId.toBitVec⟩] ++ node.tail)) := rfl

theorem littleEndian_fields (node : NodeDescriptionTag) : littleEndian node.fields =
    toLE 5 (lsbFirst [⟨40, node.address⟩]) ++
      (toLE 4 (lsbFirst [⟨20, node.length⟩, ⟨12, node.offset⟩]) ++
        (toLE 1 (lsbFirst [⟨8, node.netId.toBitVec⟩]) ++ toLE 6 (lsbFirst node.tail))) := by
  rw [fields_eq, littleEndian_append ⟨5, rfl⟩, littleEndian_append ⟨4, rfl⟩,
    littleEndian_append ⟨1, rfl⟩, littleEndian_eq (n := 5) rfl, littleEndian_eq (n := 4) rfl,
    littleEndian_eq (n := 1) rfl, littleEndian_eq (n := 6) rfl]

theorem bigEndian_fields (node : NodeDescriptionTag) : bigEndian node.fields =
    (toLE 5 (msbFirst [⟨40, node.address⟩])).reverse ++
      ((toLE 4 (msbFirst [⟨20, node.length⟩, ⟨12, node.offset⟩])).reverse ++
        ((toLE 1 (msbFirst [⟨8, node.netId.toBitVec⟩])).reverse ++
          (toLE 6 (msbFirst node.tail)).reverse)) := by
  rw [fields_eq, bigEndian_append ⟨11, rfl⟩, bigEndian_append ⟨7, rfl⟩, bigEndian_append ⟨6, rfl⟩,
    bigEndian_eq (n := 5) rfl, bigEndian_eq (n := 4) rfl, bigEndian_eq (n := 1) rfl,
    bigEndian_eq (n := 6) rfl]

theorem address_bytes (a : Nat) : toLE 5 a = [UInt8.ofNat a, UInt8.ofNat (a / 256),
    UInt8.ofNat (a / 256 / 256), UInt8.ofNat (a / 256 / 256 / 256),
    UInt8.ofNat (a / 256 / 256 / 256 / 256)] := rfl

section

variable {length offset src dst prio bearId intr indx errCode reserved : Nat}

theorem length_offset_lsb (hlength : length < 2 ^ 20) :
    toLE 4 (length + 2 ^ 20 * offset) = [UInt8.ofNat length, UInt8.ofNat (length / 256),
      UInt8.ofNat (length / 65536 + offset % 16 * 16), UInt8.ofNat (offset / 16)] := by
  simp only [toLE, List.cons.injEq, and_true]
  refine ⟨ofNat_congr ?_, ofNat_congr ?_, ofNat_congr ?_, ofNat_congr ?_⟩ <;> omega

theorem length_offset_msb (hoffset : offset < 2 ^ 12) :
    toLE 4 (length * 2 ^ 12 + offset) = [UInt8.ofNat (offset % 256),
      UInt8.ofNat (length % 16 * 16 + offset / 256), UInt8.ofNat (length / 16 % 256),
      UInt8.ofNat (length / 4096)] := by
  simp only [toLE, List.cons.injEq, and_true]
  refine ⟨ofNat_congr ?_, ofNat_congr ?_, ofNat_congr ?_, ofNat_congr ?_⟩ <;> omega

theorem tail_lsb (hsrc : src < 2 ^ 5) (hdst : dst < 2 ^ 5) (hprio : prio < 2 ^ 3)
    (hbear : bearId < 2 ^ 7) (hintr : intr < 2 ^ 1) (hindx : indx < 2 ^ 1)
    (herr : errCode < 2 ^ 4) :
    toLE 6 (src + 2 ^ 5 * (dst + 2 ^ 5 * (prio + 2 ^ 3 * (bearId + 2 ^ 7 *
      (intr + 2 ^ 1 * (indx + 2 ^ 1 * (errCode + 2 ^ 4 * reserved))))))) =
    [UInt8.ofNat (src + dst % 8 * 32), UInt8.ofNat (dst / 8 + prio * 4 + bearId % 8 * 32),
      UInt8.ofNat (bearId / 8 + intr * 16 + indx * 32 + errCode % 4 * 64),
      UInt8.ofNat (errCode / 4 + reserved % 64 * 4), UInt8.ofNat (reserved / 64),
      UInt8.ofNat (reserved / 16384)] := by
  simp only [toLE, List.cons.injEq, and_true]
  refine ⟨ofNat_congr ?_, ofNat_congr ?_, ofNat_congr ?_, ofNat_congr ?_, ofNat_congr ?_,
    ofNat_congr ?_⟩ <;> omega

theorem tail_msb (hprio : prio < 2 ^ 3) (hbear : bearId < 2 ^ 7) (hintr : intr < 2 ^ 1)
    (hindx : indx < 2 ^ 1) (herr : errCode < 2 ^ 4) (hreserved : reserved < 2 ^ 22) :
    toLE 6 (src * 2 ^ 43 + (dst * 2 ^ 38 + (prio * 2 ^ 35 + (bearId * 2 ^ 28 +
      (intr * 2 ^ 27 + (indx * 2 ^ 26 + (errCode * 2 ^ 22 + reserved))))))) =
    [UInt8.ofNat reserved, UInt8.ofNat (reserved / 256),
      UInt8.ofNat (errCode % 4 * 64 + reserved / 65536),
      UInt8.ofNat (bearId % 16 * 16 + intr * 8 + indx * 4 + errCode / 4),
      UInt8.ofNat (dst % 4 * 64 + prio * 8 + bearId / 16), UInt8.ofNat (src * 8 + dst / 4)] := by
  simp only [toLE, List.cons.injEq, and_true]
  refine ⟨ofNat_congr ?_, ofNat_congr ?_, ofNat_congr ?_, ofNat_congr ?_, ofNat_congr ?_,
    ofNat_congr ?_⟩ <;> omega

end

theorem bigEndian_bytes (node : NodeDescriptionTag) : bigEndian node.fields =
    [UInt8.ofNat (node.address.toNat / 256 / 256 / 256 / 256),
      UInt8.ofNat (node.address.toNat / 256 / 256 / 256),
      UInt8.ofNat (node.address.toNat / 256 / 256), UInt8.ofNat (node.address.toNat / 256),
      UInt8.ofNat node.address.toNat, UInt8.ofNat (node.length.toNat / 4096),
      UInt8.ofNat (node.length.toNat / 16 % 256),
      UInt8.ofNat (node.length.toNat % 16 * 16 + node.offset.toNat / 256),
      UInt8.ofNat (node.offset.toNat % 256), node.netId,
      UInt8.ofNat (node.src.toNat * 8 + node.dst.toNat / 4),
      UInt8.ofNat (node.dst.toNat % 4 * 64 + node.prio.toNat * 8 + node.bearId.toNat / 16),
      UInt8.ofNat (node.bearId.toNat % 16 * 16 + node.intr.toNat * 8 + node.indx.toNat * 4 +
        node.errCode.toNat / 4),
      UInt8.ofNat (node.errCode.toNat % 4 * 64 + node.reserved.toNat / 65536),
      UInt8.ofNat (node.reserved.toNat / 256), UInt8.ofNat node.reserved.toNat] := by
  have haddress : msbFirst [⟨40, node.address⟩] = node.address.toNat := by simp [msbFirst, width]
  have hlength : msbFirst [⟨20, node.length⟩, ⟨12, node.offset⟩] =
      node.length.toNat * 2 ^ 12 + node.offset.toNat := by simp [msbFirst, width]
  have hnetId : toLE 1 (msbFirst [⟨8, node.netId.toBitVec⟩]) = [node.netId] := by
    simp [msbFirst, width, toLE]
  have htail : msbFirst node.tail = node.src.toNat * 2 ^ 43 + (node.dst.toNat * 2 ^ 38 +
      (node.prio.toNat * 2 ^ 35 + (node.bearId.toNat * 2 ^ 28 + (node.intr.toNat * 2 ^ 27 +
        (node.indx.toNat * 2 ^ 26 + (node.errCode.toNat * 2 ^ 22 + node.reserved.toNat)))))) := by
    simp [NodeDescriptionTag.tail, msbFirst, width]
  rw [bigEndian_fields, haddress, hlength, hnetId, htail, address_bytes,
    length_offset_msb node.offset.isLt, tail_msb node.prio.isLt node.bearId.isLt node.intr.isLt
      node.indx.isLt node.errCode.isLt node.reserved.isLt]
  rfl

theorem littleEndian_bytes (node : NodeDescriptionTag) : littleEndian node.fields =
    [UInt8.ofNat node.address.toNat, UInt8.ofNat (node.address.toNat / 256),
      UInt8.ofNat (node.address.toNat / 256 / 256),
      UInt8.ofNat (node.address.toNat / 256 / 256 / 256),
      UInt8.ofNat (node.address.toNat / 256 / 256 / 256 / 256), UInt8.ofNat node.length.toNat,
      UInt8.ofNat (node.length.toNat / 256),
      UInt8.ofNat (node.length.toNat / 65536 + node.offset.toNat % 16 * 16),
      UInt8.ofNat (node.offset.toNat / 16), node.netId,
      UInt8.ofNat (node.src.toNat + node.dst.toNat % 8 * 32),
      UInt8.ofNat (node.dst.toNat / 8 + node.prio.toNat * 4 + node.bearId.toNat % 8 * 32),
      UInt8.ofNat (node.bearId.toNat / 8 + node.intr.toNat * 16 + node.indx.toNat * 32 +
        node.errCode.toNat % 4 * 64),
      UInt8.ofNat (node.errCode.toNat / 4 + node.reserved.toNat % 64 * 4),
      UInt8.ofNat (node.reserved.toNat / 64), UInt8.ofNat (node.reserved.toNat / 16384)] := by
  have haddress : lsbFirst [⟨40, node.address⟩] = node.address.toNat := by simp [lsbFirst]
  have hlength : lsbFirst [⟨20, node.length⟩, ⟨12, node.offset⟩] =
      node.length.toNat + 2 ^ 20 * node.offset.toNat := by simp [lsbFirst]
  have hnetId : toLE 1 (lsbFirst [⟨8, node.netId.toBitVec⟩]) = [node.netId] := by
    simp [lsbFirst, toLE]
  have htail : lsbFirst node.tail = node.src.toNat + 2 ^ 5 * (node.dst.toNat + 2 ^ 5 *
      (node.prio.toNat + 2 ^ 3 * (node.bearId.toNat + 2 ^ 7 * (node.intr.toNat + 2 ^ 1 *
        (node.indx.toNat + 2 ^ 1 * (node.errCode.toNat + 2 ^ 4 * node.reserved.toNat)))))) := by
    simp [NodeDescriptionTag.tail, lsbFirst]
  rw [littleEndian_fields, haddress, hlength, hnetId, htail, address_bytes,
    length_offset_lsb node.length.isLt, tail_lsb node.src.isLt node.dst.isLt node.prio.isLt
      node.bearId.isLt node.intr.isLt node.indx.isLt node.errCode.isLt]
  rfl

theorem map_setNodeDesc (dstAddr srcAddr : Mem) :
    (List.range 16).map (sipaSetNodeDesc dstAddr srcAddr) =
      [srcAddr 4, srcAddr 3, srcAddr 2, srcAddr 1, srcAddr 0,
        (srcAddr 7 >>> 4) + ((srcAddr 6 &&& 0x0f) <<< 4),
        (srcAddr 6 >>> 4) + ((srcAddr 5 &&& 0x0f) <<< 4),
        (srcAddr 5 >>> 4) + ((srcAddr 8 &&& 0x0f) <<< 4), (srcAddr 7 <<< 4) + (srcAddr 8 >>> 4),
        srcAddr 9,
        ((srcAddr 10 &&& 0xf8) >>> 3) +
          (((srcAddr 11 >>> 6) + ((srcAddr 10 &&& 0x01) <<< 2)) <<< 5),
        ((srcAddr 10 &&& 0x6) >>> 1) + ((srcAddr 11 &&& 0x38) >>> 1) +
          ((srcAddr 12 &&& 0x70) <<< 1),
        ((srcAddr 11 &&& 0x7) <<< 1) + (srcAddr 12 >>> 7) + ((srcAddr 12 &&& 0x8) <<< 1) +
          ((srcAddr 12 &&& 0x4) <<< 3) + (srcAddr 13 &&& 0xc0),
        (srcAddr 12 &&& (0x3 : UInt8)) + (srcAddr 15 <<< 2),
        (srcAddr 15 &&& (0x3 : UInt8)) + (srcAddr 14 <<< 2),
        ((srcAddr 13 &&& 0x3f) <<< 2) + ((srcAddr 14 &&& 0xc0) >>> 6)] := rfl

/-! What the masks pick of the last bytes of a big-endian machine. -/

section

variable {src dst prio bearId intr indx errCode reserved : Nat}

theorem pick_byte10 (hsrc : src < 2 ^ 5) (hdst : dst < 2 ^ 5) :
    (src * 8 + dst / 4) / 2 ^ 3 % 2 ^ 5 = src ∧ (src * 8 + dst / 4) / 2 ^ 0 % 2 ^ 1 = dst / 4 % 2 ∧
      (src * 8 + dst / 4) / 2 ^ 1 % 2 ^ 2 = dst / 8 := by
  omega

theorem pick_byte11 (hprio : prio < 2 ^ 3) (hbear : bearId < 2 ^ 7) :
    (dst % 4 * 64 + prio * 8 + bearId / 16) / 2 ^ 6 = dst % 4 ∧
      (dst % 4 * 64 + prio * 8 + bearId / 16) / 2 ^ 3 % 2 ^ 3 = prio ∧
      (dst % 4 * 64 + prio * 8 + bearId / 16) / 2 ^ 0 % 2 ^ 3 = bearId / 16 := by
  omega

theorem pick_byte12 (hintr : intr < 2 ^ 1) (hindx : indx < 2 ^ 1) (herr : errCode < 2 ^ 4) :
    (bearId % 16 * 16 + intr * 8 + indx * 4 + errCode / 4) / 2 ^ 7 = bearId / 8 % 2 ∧
      (bearId % 16 * 16 + intr * 8 + indx * 4 + errCode / 4) / 2 ^ 4 % 2 ^ 3 = bearId % 8 ∧
      (bearId % 16 * 16 + intr * 8 + indx * 4 + errCode / 4) / 2 ^ 3 % 2 ^ 1 = intr ∧
      (bearId % 16 * 16 + intr * 8 + indx * 4 + errCode / 4) / 2 ^ 2 % 2 ^ 1 = indx ∧
      (bearId % 16 * 16 + intr * 8 + indx * 4 + errCode / 4) / 2 ^ 0 % 2 ^ 2 = errCode / 4 := by
  omega

theorem pick_byte13 (hreserved : reserved < 2 ^ 22) :
    (errCode % 4 * 64 + reserved / 65536) / 2 ^ 6 % 2 ^ 2 = errCode % 4 ∧
      (errCode % 4 * 64 + reserved / 65536) / 2 ^ 0 % 2 ^ 6 = reserved / 65536 := by
  omega

end

/-- All bytes but the one at 14 are those of a little-endian compiler. The two lowest bits of that
one are the bits 0 and 1 of `reserved`, where a little-endian compiler has the bits 6 and 7. -/
theorem setNodeDesc_bytes (node : NodeDescriptionTag) (dstAddr : Mem) :
    (List.range 16).map (sipaSetNodeDesc dstAddr node.mem) = (littleEndian node.fields).set 14
      (UInt8.ofNat (node.reserved.toNat % 4 + node.reserved.toNat / 256 % 64 * 4)) := by
  have hmem : ∀ i, node.mem i = (bigEndian node.fields).getD i 0 := fun _ => rfl
  have hlength := node.length.isLt
  have hoffset := node.offset.isLt
  have hsrc := node.src.isLt
  have hdst := node.dst.isLt
  have hprio := node.prio.isLt
  have hbear := node.bearId.isLt
  have hintr := node.intr.isLt
  have hindx := node.indx.isLt
  have herr := node.errCode.isLt
  have hreserved := node.reserved.isLt
  rw [map_setNodeDesc, littleEndian_bytes]
  simp only [hmem, bigEndian_bytes, List.getD_cons_zero, List.getD_cons_succ, List.set_cons_succ,
    List.set_cons_zero, List.cons.injEq, true_and, and_true]
  -- each byte becomes one number
  simp (disch := first | decide | omega) only [ofNat_mask 0x01 0 1 rfl, ofNat_mask 0x3 0 2 rfl,
    ofNat_mask 0x4 2 1 rfl, ofNat_mask 0x6 1 2 rfl, ofNat_mask 0x7 0 3 rfl, ofNat_mask 0x8 3 1 rfl,
    ofNat_mask 0x0f 0 4 rfl, ofNat_mask 0x38 3 3 rfl, ofNat_mask 0x3f 0 6 rfl,
    ofNat_mask 0x70 4 3 rfl, ofNat_mask 0xc0 6 2 rfl, ofNat_mask 0xf8 3 5 rfl, ofNat_shl, ofNat_shr,
    ← UInt8.ofNat_add, UInt8.reduceToNat]
  simp only [pick_byte10 hsrc hdst, pick_byte11 hprio hbear, pick_byte12 hintr hindx herr,
    pick_byte13 hreserved]
  refine ⟨ofNat_congr ?_, ofNat_congr ?_, ofNat_congr ?_, ofNat_congr ?_, ofNat_congr ?_,
    ofNat_congr ?_, ofNat_congr ?_, ofNat_congr ?_, ofNat_congr ?_, ofNat_congr ?_⟩
  all_goals omega

theorem getNodeDesc_eq {nodeAddr : Mem}
    (h : ∀ i < 14, nodeAddr i = (littleEndian node.fields).getD i 0) (old : NodeDescriptionTag) :
    sipaGetNodeDesc nodeAddr old =
      { old with
        address := node.address
        netId := node.netId
        src := node.src
        errCode := node.errCode } := by
  have haddress := node.address.isLt
  have hsrc := node.src.isLt
  have hintr := node.intr.isLt
  have hindx := node.indx.isLt
  have herr := node.errCode.isLt
  unfold sipaGetNodeDesc
  simp only [NodeDescriptionTag.mk.injEq, true_and, and_true]
  simp only [h 0 (by omega), h 1 (by omega), h 2 (by omega), h 3 (by omega), h 4 (by omega),
    h 9 (by omega), h 10 (by omega), h 12 (by omega), h 13 (by omega), littleEndian_bytes,
    List.getD_cons_zero, List.getD_cons_succ, true_and]
  refine ⟨BitVec.eq_of_toNat_eq ?_, BitVec.eq_of_toNat_eq ?_, BitVec.eq_of_toNat_eq ?_⟩
  case refine_1 =>
    simp
    simp only [Nat.shiftLeft_eq]
    omega
  case refine_2 =>
    rw [ofNat_mask 0x1f 0 5 rfl (by decide)]
    simp
    omega
  case refine_3 =>
    have hbear := node.bearId.isLt
    rw [ofNat_mask 0xc0 6 2 rfl (by decide), ofNat_mask 0x03 0 2 rfl (by decide),
      ofNat_shr 6 (by decide) (by omega), ofNat_shl 2 (by decide), ← UInt8.ofNat_add]
    simp
    omega

theorem setNodeDesc_byte (node : NodeDescriptionTag) (dstAddr : Mem) {i : Nat} (hi : i < 14) :
    sipaSetNodeDesc dstAddr node.mem i = (littleEndian node.fields).getD i 0 := by
  have hbytes := congrArg (·[i]?) (setNodeDesc_bytes node dstAddr)
  simp only [List.getElem?_map, List.getElem?_range (show i < 16 by omega), Option.map_some,
    List.getElem?_set_ne (show 14 ≠ i by omega)] at hbytes
  rw [List.getD_eq_getElem?_getD, ← hbytes, Option.getD_some]

structure Converted (node : NodeDescriptionTag) (dstAddr : Mem) (old : NodeDescriptionTag) :
    Prop where
  bytes : (List.range 16).map (sipaSetNodeDesc dstAddr node.mem) = littleEndian node.fields
  address : (sipaGetNodeDesc (sipaSetNodeDesc dstAddr node.mem) old).address = node.address
  netId : (sipaGetNodeDesc (sipaSetNodeDesc dstAddr node.mem) old).netId = node.netId
  src : (sipaGetNodeDesc (sipaSetNodeDesc dstAddr node.mem) old).src = node.src
  errCode : (sipaGetNodeDesc (sipaSetNodeDesc dstAddr node.mem) old).errCode = node.errCode

/-- The conversion is right exactly when the bits 0 and 1 of `reserved` are its bits 6 and 7. -/
theorem converted_iff (node : NodeDescriptionTag) (dstAddr : Mem) (old : NodeDescriptionTag) :
    Converted node dstAddr old ↔
      node.reserved.extractLsb' 0 2 = node.reserved.extractLsb' 6 2 := by
  have hbits : node.reserved.extractLsb' 0 2 = node.reserved.extractLsb' 6 2 ↔
      node.reserved.toNat % 4 = node.reserved.toNat / 64 % 4 := by
    rw [← BitVec.toNat_inj, BitVec.extractLsb'_toNat, BitVec.extractLsb'_toNat,
      Nat.shiftRight_zero, Nat.shiftRight_eq_div_pow]
  have hquarter : node.reserved.toNat / 256 = node.reserved.toNat / 64 / 4 := by omega
  have hget := getNodeDesc_eq (fun i hi => setNodeDesc_byte node dstAddr hi) old
  rw [hbits]
  constructor
  · intro h
    have hbyte := congrArg (·[14]?) (h.bytes.symm.trans (setNodeDesc_bytes node dstAddr))
    simp only [littleEndian_bytes, List.set_cons_succ, List.set_cons_zero, List.getElem?_cons_succ,
      List.getElem?_cons_zero, Option.some.injEq, ← UInt8.toNat_inj, UInt8.toNat_ofNat'] at hbyte
    omega
  · intro h
    refine ⟨?_, by rw [hget], by rw [hget], by rw [hget], by rw [hget]⟩
    rw [setNodeDesc_bytes, littleEndian_bytes]
    simp only [List.set_cons_succ, List.set_cons_zero, List.cons.injEq, true_and, and_true]
    apply ofNat_congr
    omega

/-- A node of which only a bit of `reserved` is set. -/
def reservedNode : NodeDescriptionTag := ⟨0, 0, 0, 0, 0, 0, 0, 0, 0, 0, 0, 1⟩

theorem not_converted_reserved : ¬∀ (node : NodeDescriptionTag) (dstAddr : Mem)
    (old : NodeDescriptionTag), Converted node dstAddr old := by
  intro h
  have hbytes := (h reservedNode (fun _ => 0) reservedNode).bytes
  rw [setNodeDesc_bytes, littleEndian_bytes] at hbytes
  exact absurd (congrArg (·[14]?) hbytes) (by decide)

end ModemSupport.Sipa.NodeDesc
