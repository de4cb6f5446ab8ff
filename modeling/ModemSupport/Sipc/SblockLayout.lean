import ModemSupport.Sipc.SbufLayout
import ModemSupport.Sipc.Sblock

/-! The shared memory of an sblock channel (`sblock.c`): `sblock_host_init` lays out the header, the
blocks of both directions and the four arrays of descriptors, and `sblock_client_init` finds them
again from the header. -/

namespace ModemSupport.Sipc.SblockLayout

open ModemSupport.Lib.Regions SbufLayout List

structure SblockRingHeader where
  txblkAddr : UInt32
  txblkCount : UInt32
  txblkSize : UInt32
  txblkBlks : UInt32
  txblkRdptr : UInt32
  txblkWrptr : UInt32
  rxblkAddr : UInt32
  rxblkCount : UInt32
  rxblkSize : UInt32
  rxblkBlks : UInt32
  rxblkRdptr : UInt32
  rxblkWrptr : UInt32

/-- What the host leaves in the memory: `struct sblock_header`, and the descriptors in the arrays of
the pool. -/
structure SblockSmem where
  ring : SblockRingHeader
  pool : SblockRingHeader
  pTxblks : Nat → Sblock.SblockBlks
  pRxblks : Nat → Sblock.SblockBlks

/-- `struct sblock_ring_header_op`; the pointers are distances from `smem_virt`. -/
structure SblockRingHeaderOp where
  txRdP : Nat
  txWtP : Nat
  rxRdP : Nat
  rxWtP : Nat
  txAddr : UInt32
  txCount : UInt32
  txSize : UInt32
  txBlks : UInt32
  rxAddr : UInt32
  rxCount : UInt32
  rxSize : UInt32
  rxBlks : UInt32

structure SblockRing where
  header : Nat
  ringhdOp : SblockRingHeaderOp
  poolhdOp : SblockRingHeaderOp
  txblkVirt : Nat
  rxblkVirt : Nat
  rTxblks : Nat
  rRxblks : Nat
  pTxblks : Nat
  pRxblks : Nat

structure SblockMgr where
  smemAddr : UInt32
  smemSize : UInt32
  dstSmemAddr : UInt32
  storedSmemAddr : UInt32
  txblksz : UInt32
  rxblksz : UInt32
  txblknum : UInt32
  rxblknum : UInt32
  ring : SblockRing

def align (x a : UInt32) : UInt32 := (x + (a - 1)) &&& ~~~(a - 1)

def hsize : UInt32 := 96

def blksSize : UInt32 := 8

section

variable (w : Width) (e : Env)

def smemSize (txblocknum txblocksize rxblocknum rxblocksize : UInt32) : UInt32 :=
  hsize + txblocknum * txblocksize + rxblocknum * rxblocksize +
    (txblocknum + rxblocknum) * blksSize + (txblocknum + rxblocknum) * blksSize

end

/-- The header, the blocks and the four arrays, as the ring points to them. -/
def SblockMgr.regions (m : SblockMgr) : List Region :=
  ⟨0, hsize.toNat⟩ ::
    (((List.range m.txblknum.toNat).map fun i =>
      ⟨m.ring.txblkVirt + m.txblksz.toNat * i, m.txblksz.toNat⟩) ++
    (((List.range m.rxblknum.toNat).map fun i =>
      ⟨m.ring.rxblkVirt + m.rxblksz.toNat * i, m.rxblksz.toNat⟩) ++
    [⟨m.ring.rTxblks, 8 * m.txblknum.toNat⟩, ⟨m.ring.rRxblks, 8 * m.rxblknum.toNat⟩,
      ⟨m.ring.pTxblks, 8 * m.txblknum.toNat⟩, ⟨m.ring.pRxblks, 8 * m.rxblknum.toNat⟩]))

def SblockSmem.regions (smem : SblockSmem) (base : UInt32) : List Region :=
  ⟨0, hsize.toNat⟩ ::
    (((List.range smem.ring.txblkCount.toNat).map fun i =>
      ⟨((smem.pTxblks i).addr - base).toNat, (smem.pTxblks i).length.toNat⟩) ++
    (((List.range smem.ring.rxblkCount.toNat).map fun i =>
      ⟨((smem.pRxblks i).addr - base).toNat, (smem.pRxblks i).length.toNat⟩) ++
    [⟨(smem.ring.txblkBlks - base).toNat, 8 * smem.ring.txblkCount.toNat⟩,
      ⟨(smem.ring.rxblkBlks - base).toNat, 8 * smem.ring.rxblkCount.toNat⟩,
      ⟨(smem.pool.txblkBlks - base).toNat, 8 * smem.pool.txblkCount.toNat⟩,
      ⟨(smem.pool.rxblkBlks - base).toNat, 8 * smem.pool.rxblkCount.toNat⟩]))

def SblockRingHeaderOp.swap (op : SblockRingHeaderOp) : SblockRingHeaderOp :=
  ⟨op.rxRdP, op.rxWtP, op.txRdP, op.txWtP, op.rxAddr, op.rxCount, op.rxSize, op.rxBlks, op.txAddr,
    op.txCount, op.txSize, op.txBlks⟩

def SblockRing.swap (ring : SblockRing) : SblockRing :=
  ⟨ring.header, ring.ringhdOp.swap, ring.poolhdOp.swap, ring.rxblkVirt, ring.txblkVirt,
    ring.rRxblks, ring.rTxblks, ring.pRxblks, ring.pTxblks⟩

/-- The client's ring is the host's with tx and rx swapped, in a memory of the same size. -/
structure Agrees (host client : SblockMgr) : Prop where
  smemSize : client.smemSize = host.smemSize
  txblksz : client.txblksz = host.rxblksz
  rxblksz : client.rxblksz = host.txblksz
  txblknum : client.txblknum = host.rxblknum
  rxblknum : client.rxblknum = host.txblknum
  ring : client.ring = host.ring.swap

/-- The layout that the host makes and the client finds. -/
structure Matches (host : SblockMgr) (smem : SblockSmem) (client : SblockMgr) : Prop where
  pointers : Laid host.smemSize.toNat host.regions
  addresses : Laid host.smemSize.toNat (smem.regions host.dstSmemAddr)
  agrees : Agrees host client

variable {w w' : Width} {txnum txsz rxnum rxsz base : UInt32} {i : Nat}

/-- The size of the memory, not reduced to 32 bits. -/
def total (txblocknum txblocksize rxblocknum rxblocksize : UInt32) : Nat :=
  96 + txblocknum.toNat * txblocksize.toNat + rxblocknum.toNat * rxblocksize.toNat +
    8 * (txblocknum.toNat + rxblocknum.toNat) + 8 * (txblocknum.toNat + rxblocknum.toNat)

theorem back (x : UInt32) : base + x - base = x := by
  rw [UInt32.add_comm, UInt32.add_sub_cancel]

def sizes (txnum txsz rxnum rxsz : UInt32) : List Nat :=
  96 :: (replicate txnum.toNat txsz.toNat ++ (replicate rxnum.toNat rxsz.toNat ++
    [8 * txnum.toNat, 8 * rxnum.toNat, 8 * txnum.toNat, 8 * rxnum.toNat]))

variable {e e' : Env} {sipc : SmsgIpc} {host client : SblockMgr} {smem : SblockSmem}
  {smemAddr txblocksize rxblocksize : UInt32}

def cleared : Nat → SbufRingHeader := fun _ => ⟨0, 0, 0, 0, 0, 0, 0, 0⟩

end ModemSupport.Sipc.SblockLayout
