import ModemSupport.Lib.Regions
import ModemSupport.Sipc.Basic

/-! The shared memory of an sbuf channel (`sbuf.c`): `sbuf_host_init` lays out the header, the
ring descriptors and the buffers of each ring, and `sbuf_client_init` finds them again from the
header. -/

namespace ModemSupport.Sipc.SbufLayout

open ModemSupport.Lib.Regions List

inductive Width where
  | w32
  | w64
  deriving DecidableEq

def Width.bits : Width → Nat
  | .w32 => 32
  | .w64 => 64

def Width.ptr (w : Width) (distance : Int) : Nat := (distance % 2 ^ w.bits).toNat

structure SbufRingHeader where
  txbufAddr : UInt32
  txbufSize : UInt32
  txbufRdptr : UInt32
  txbufWrptr : UInt32
  rxbufAddr : UInt32
  rxbufSize : UInt32
  rxbufRdptr : UInt32
  rxbufWrptr : UInt32

structure SbufSmemHeader where
  ringnr : UInt32
  headers : Nat → SbufRingHeader

/-- `struct sbuf_ring_header_op`; the pointers are distances from `smem_virt`. -/
structure SbufRingHeaderOp where
  rxRdP : Nat
  rxWtP : Nat
  txRdP : Nat
  txWtP : Nat
  rxSize : UInt32
  txSize : UInt32

structure SbufRing where
  header : Nat
  headerOp : SbufRingHeaderOp
  txbufVirt : Nat
  rxbufVirt : Nat

structure SbufMgr where
  ringnr : UInt32
  smemAddr : UInt32
  smemSize : UInt32
  dstSmemAddr : UInt32
  rings : List SbufRing

structure SmsgIpc where
  smemBase : UInt32
  dstSmemBase : UInt32

/-- What the functions that are called give: the address of `smem_alloc` (0 when there is none),
whether `shmem_ram_vmap_nocache` and `kcalloc` succeed, and `sipc_smem_request_resource`. -/
structure Env where
  smemAlloc : UInt32 → UInt32
  vmap : Bool
  kcalloc : Bool
  requestResource : Int

def enomem : Int := -12

def efault : Int := -14

/-- `hsize`, which is an `int`: its bits. -/
def hsize (bufnum : UInt32) : UInt32 := 4 + 32 * bufnum

def row (txbufsize rxbufsize : UInt32) (i : Nat) : UInt32 :=
  (txbufsize + rxbufsize) * UInt32.ofNat i

def headerAt (i : Nat) : Nat := 4 + 32 * i

section

variable (w : Width) (e : Env)

end

/-- The header, the ring descriptors and the buffers, as the rings point to them. -/
def SbufMgr.regions (m : SbufMgr) : List Region :=
  ⟨0, 4⟩ :: ((List.range m.ringnr.toNat).map fun i => ⟨headerAt i, 32⟩) ++
    m.rings.flatMap fun ring =>
      [⟨ring.txbufVirt, ring.headerOp.txSize.toNat⟩, ⟨ring.rxbufVirt, ring.headerOp.rxSize.toNat⟩]

def SbufSmemHeader.regions (smem : SbufSmemHeader) (base : UInt32) : List Region :=
  ⟨0, 4⟩ :: ((List.range smem.ringnr.toNat).map fun i => ⟨headerAt i, 32⟩) ++
    (List.range smem.ringnr.toNat).flatMap fun i =>
      [⟨((smem.headers i).txbufAddr - base).toNat, (smem.headers i).txbufSize.toNat⟩,
        ⟨((smem.headers i).rxbufAddr - base).toNat, (smem.headers i).rxbufSize.toNat⟩]

structure Laid (size : Nat) (regions : List Region) : Prop where
  apart : regions.Pairwise Apart
  within : ∀ r ∈ regions, Within 0 size r

def SbufRing.swap (ring : SbufRing) : SbufRing where
  header := ring.header
  headerOp :=
    { rxRdP := ring.headerOp.txRdP, rxWtP := ring.headerOp.txWtP, txRdP := ring.headerOp.rxRdP
      txWtP := ring.headerOp.rxWtP, rxSize := ring.headerOp.txSize, txSize := ring.headerOp.rxSize }
  txbufVirt := ring.rxbufVirt
  rxbufVirt := ring.txbufVirt

/-- The client's rings are the host's with tx and rx swapped, in a memory of the same size. -/
structure Agrees (host client : SbufMgr) : Prop where
  ringnr : client.ringnr = host.ringnr
  smemSize : client.smemSize = host.smemSize
  rings : client.rings = host.rings.map SbufRing.swap

variable {w w' : Width} {bufnum txbufsize rxbufsize : UInt32} {i : Nat}

/-- The size of the memory, not reduced to 32 bits. -/
def total (bufnum txbufsize rxbufsize : UInt32) : Nat :=
  4 + 32 * bufnum.toNat + (txbufsize.toNat + rxbufsize.toNat) * bufnum.toNat

section

variable (h : total bufnum txbufsize rxbufsize < 2 ^ 32)

include h

end

def sizes (bufnum txbufsize rxbufsize : UInt32) : List Nat :=
  4 :: (replicate bufnum.toNat 32 ++
    (List.range bufnum.toNat).flatMap fun _ => [txbufsize.toNat, rxbufsize.toNat])

variable {e e' : Env} {sipc : SmsgIpc} {old : Nat → SbufRingHeader} {host client : SbufMgr}
  {smem : SbufSmemHeader}

structure Matches (host : SbufMgr) (smem : SbufSmemHeader) (client : SbufMgr) : Prop where
  pointers : Laid host.smemSize.toNat host.regions
  addresses : Laid host.smemSize.toNat (smem.regions host.dstSmemAddr)
  agrees : Agrees host client

end ModemSupport.Sipc.SbufLayout
