import ModemSupport.Lib.Ring
import ModemSupport.Lib.Transition
import ModemSupport.Sipc.Basic
import Mathlib.Data.Nat.Prime.Basic

/-! Block channels (`sblock.c`).  The host lays two directions of blocks out in shared memory, each
with a ring of sent blocks and a pool of free blocks; each party transmits through its own half and
receives through the half of its peer (in client mode, tx <=> rx). -/

namespace ModemSupport.Sipc.Sblock

open Function ModemSupport.Lib

/-- An entry of a ring or a pool: the address stored for a block, and its length. -/
structure SblockBlks where
  addr : UInt32
  length : UInt32

structure Block where
  addr : UInt64
  length : UInt32

/-- A ring or a pool of one direction, with its free-running counters. -/
structure Queue where
  blks : Nat → SblockBlks
  rdptr : UInt32
  wrptr : UInt32

/-- One direction of the shared memory: its blocks, the ring of sent ones and the pool of free
ones. -/
structure Half where
  addr : UInt32
  count : UInt32
  size : UInt32
  ring : Queue
  pool : Queue

inductive State where
  | idle
  | ready
  deriving DecidableEq

inductive BlkState where
  | done
  | pending
  deriving DecidableEq

structure Mgr where
  state : State
  smemVirt : UInt64
  storedSmemAddr : UInt32
  txblksz : UInt32
  rxblksz : UInt32
  txblkVirt : UInt64
  rxblkVirt : UInt64
  txrecord : Nat → BlkState
  rxrecord : Nat → BlkState
  pollIn : Bool
  pollOut : Bool
  yell : Bool

def sblockGetIndex (x y : UInt32) : UInt32 := x / y

def isPowerOf2 (n : UInt32) : Bool := n != 0 && (n &&& (n - 1)) == 0

def sblockGetRingpos (x y : UInt32) : UInt32 :=
  if isPowerOf2 y then x &&& (y - 1) else x % y

theorem isPowerOf2_iff {n : UInt32} : isPowerOf2 n = true ↔ ∃ k, n.toNat = 2 ^ k := by
  rw [isPowerOf2, Bool.and_eq_true, bne_iff_ne, beq_iff_eq, ← Nat.isPowerOfTwo,
    ← Nat.ne_zero_and_sub_one_eq_zero_iff_isPowerOfTwo, Ne, ← UInt32.toNat_inj,
    ← UInt32.toNat_inj, UInt32.toNat_zero, UInt32.toNat_and]
  exact and_congr_right fun h => by rw [Ring.toNat_sub_one h]

theorem isPowerOf2_iff_dvd {n : UInt32} : isPowerOf2 n = true ↔ n.toNat ∣ 2 ^ 32 := by
  rw [Nat.dvd_prime_pow Nat.prime_two, isPowerOf2_iff]
  constructor
  · rintro ⟨k, hk⟩
    have := n.toNat_lt
    rw [hk] at this
    exact ⟨k, ((Nat.pow_lt_pow_iff_right (by omega)).mp this).le, hk⟩
  · rintro ⟨k, -, hk⟩
    exact ⟨k, hk⟩

theorem sblockGetRingpos_toNat (x y : UInt32) :
    (sblockGetRingpos x y).toNat = x.toNat % y.toNat := by
  rw [sblockGetRingpos]
  split
  next h =>
    obtain ⟨k, hk⟩ := isPowerOf2_iff.mp h
    have hne : y.toNat ≠ 0 := by
      rw [hk]
      exact (Nat.two_pow_pos k).ne'
    rw [UInt32.toNat_and, Ring.toNat_sub_one hne, hk, Nat.and_two_pow_sub_one_eq_mod]
  next => rw [UInt32.toNat_mod]

def Mgr.toStored (m : Mgr) (addr : UInt64) : UInt32 :=
  (addr - m.smemVirt + m.storedSmemAddr.toUInt64).toUInt32

theorem Mgr.toStored_congr {m m' : Mgr} (hvirt : m.smemVirt = m'.smemVirt)
    (hstored : m.storedSmemAddr = m'.storedSmemAddr) : m.toStored = m'.toStored := by
  funext addr
  rw [toStored, toStored, hvirt, hstored]

def Mgr.toVirt (m : Mgr) (addr : UInt32) : UInt64 :=
  m.smemVirt + (addr - m.storedSmemAddr).toUInt64

def Mgr.txIndex (m : Mgr) (addr : UInt64) : Nat :=
  (sblockGetIndex (addr - m.txblkVirt).toUInt32 m.txblksz).toNat

def Mgr.rxIndex (m : Mgr) (addr : UInt64) : Nat :=
  (sblockGetIndex (addr - m.rxblkVirt).toUInt32 m.rxblksz).toNat

@[simp] theorem Mgr.toStored_toVirt (m : Mgr) (addr : UInt32) :
    m.toStored (m.toVirt addr) = addr := by
  have hcancel : m.smemVirt + (addr - m.storedSmemAddr).toUInt64 - m.smemVirt =
      (addr - m.storedSmemAddr).toUInt64 := by grind
  rw [Mgr.toStored, Mgr.toVirt, hcancel, UInt64.toUInt32_add, UInt32.toUInt32_toUInt64,
    UInt32.toUInt32_toUInt64, UInt32.sub_add_cancel]

def Half.ringpos (h : Half) (x : UInt32) : Nat := (sblockGetRingpos x h.count).toNat

theorem Half.ringpos_eq (h : Half) : h.ringpos = Ring.modSlot h.count.toNat :=
  funext fun x => sblockGetRingpos_toNat x h.count

/-- `sblock_put`: put one block back at the read side of the pool. -/
def sblockPut (m : Mgr) (tx : Half) (blk : Block) : Mgr × Half :=
  let txpos := tx.ringpos (tx.pool.rdptr - 1)
  let pool : Queue :=
    { tx.pool with
      blks := update tx.pool.blks txpos ⟨m.toStored blk.addr, tx.size⟩
      rdptr := tx.pool.rdptr - 1 }
  ({ m with txrecord := update m.txrecord (m.txIndex blk.addr) .done, pollOut := true },
    { tx with pool := pool })

/-- The first half of `sblock_get`: test the state, and set the write mask from the pool. -/
def sblockGetPoll (m : Mgr) (tx : Half) : Mgr × Except Errno Bool :=
  if m.state = .ready then
    let noData : Bool := tx.pool.rdptr == tx.pool.wrptr
    ({ m with pollOut := !noData }, .ok noData)
  else (m, .error .eio)

/-- The second half of `sblock_get`, under `p_txlock`: the pool is tested again, since several
callers may have seen the same block. -/
def sblockGet (m : Mgr) (tx : Half) : Mgr × Half × Except Errno Block :=
  if tx.pool.rdptr ≠ tx.pool.wrptr ∧ m.state = .ready then
    let txpos := tx.ringpos tx.pool.rdptr
    let blk : Block := ⟨m.toVirt (tx.pool.blks txpos).addr, tx.size⟩
    let pool := { tx.pool with rdptr := tx.pool.rdptr + 1 }
    ({ m with
        txrecord := update m.txrecord (m.txIndex blk.addr) .pending
        pollOut := pool.wrptr != pool.rdptr },
      { tx with pool := pool }, .ok blk)
  else
    ({ m with pollOut := tx.pool.wrptr != tx.pool.rdptr }, tx,
      .error (if m.state = .ready then .eagain else .eio))

/-- `sblock_send_ex`; the result says whether the send event is to be sent. -/
def sblockSendEx (m : Mgr) (tx : Half) (blk : Block) (yell : Bool) :
    Mgr × Half × Except Errno Bool :=
  if m.state = .ready then
    let txpos := tx.ringpos tx.ring.wrptr
    let ring : Queue :=
      { tx.ring with
        blks := update tx.ring.blks txpos ⟨m.toStored blk.addr, blk.length⟩
        wrptr := tx.ring.wrptr + 1 }
    ({ m with
        txrecord := update m.txrecord (m.txIndex blk.addr) .done
        yell := m.yell || (!yell && ring.wrptr - ring.rdptr == 1) },
      { tx with ring := ring }, .ok yell)
  else (m, tx, .error .eio)

def sblockSend (m : Mgr) (tx : Half) (blk : Block) : Mgr × Half × Except Errno Bool :=
  sblockSendEx m tx blk true

def sblockSendPrepare (m : Mgr) (tx : Half) (blk : Block) : Mgr × Half × Except Errno Bool :=
  sblockSendEx m tx blk false

/-- The first half of `sblock_receive`: test the state, and set the read mask from the ring. -/
def sblockReceivePoll (m : Mgr) (rx : Half) : Mgr × Except Errno Bool :=
  if m.state = .ready then
    let noData : Bool := rx.ring.wrptr == rx.ring.rdptr
    ({ m with pollIn := !noData }, .ok noData)
  else (m, .error .eio)

def sblockReceive (m : Mgr) (rx : Half) : Mgr × Half × Except Errno Block :=
  if rx.ring.wrptr ≠ rx.ring.rdptr ∧ m.state = .ready then
    let rxpos := rx.ringpos rx.ring.rdptr
    let blk : Block := ⟨m.toVirt (rx.ring.blks rxpos).addr, (rx.ring.blks rxpos).length⟩
    let ring := { rx.ring with rdptr := rx.ring.rdptr + 1 }
    ({ m with
        rxrecord := update m.rxrecord (m.rxIndex blk.addr) .pending
        pollIn := ring.wrptr != ring.rdptr },
      { rx with ring := ring }, .ok blk)
  else
    ({ m with pollIn := rx.ring.wrptr != rx.ring.rdptr }, rx,
      .error (if m.state = .ready then .eagain else .eio))

/-- `sblock_release`; the result says whether the release event is to be sent. -/
def sblockRelease (m : Mgr) (rx : Half) (blk : Block) : Mgr × Half × Except Errno Bool :=
  if m.state = .ready then
    let rxpos := rx.ringpos rx.pool.wrptr
    let pool : Queue :=
      { rx.pool with
        blks := update rx.pool.blks rxpos ⟨m.toStored blk.addr, rx.size⟩
        wrptr := rx.pool.wrptr + 1 }
    ({ m with rxrecord := update m.rxrecord (m.rxIndex blk.addr) .done },
      { rx with pool := pool }, .ok (pool.wrptr - pool.rdptr == 1))
  else (m, rx, .error .enodev)

/-- One turn of a loop of `sblock_recover` that rebuilds a pool, at block `i`; the counter `j` is
the slot that the next block is written to. -/
def recoverBlk (record : Nat → BlkState) (addr blksz : UInt32) (acc : Queue × Nat) (i : Nat) :
    Queue × Nat :=
  if record i = .done then
    ({ acc.1 with
        blks := update acc.1.blks acc.2 ⟨UInt32.ofNat i * blksz + addr, blksz⟩
        wrptr := acc.1.wrptr + 1 }, acc.2 + 1)
  else acc

def recoverPool (record : Nat → BlkState) (addr count blksz : UInt32) (pool : Queue) : Queue :=
  ((List.range count.toNat).foldl (recoverBlk record addr blksz) (pool, 0)).1

/-- The tx half after `sblock_recover`: the ring is emptied, and the pool is rebuilt from its write
counter on. -/
def recoverTx (m : Mgr) (tx : Half) : Half :=
  { tx with
    ring := { tx.ring with wrptr := tx.ring.rdptr }
    pool := recoverPool m.txrecord tx.addr tx.count m.txblksz
      { tx.pool with rdptr := tx.pool.wrptr } }

/-- The rx half after `sblock_recover`: the ring is emptied, and the pool is rebuilt from its read
counter on. -/
def recoverRx (m : Mgr) (rx : Half) : Half :=
  { rx with
    ring := { rx.ring with rdptr := rx.ring.wrptr }
    pool := recoverPool m.rxrecord rx.addr rx.count m.rxblksz
      { rx.pool with wrptr := rx.pool.rdptr } }

/-- `sblock_recover`: clean the rings and recover the pools. -/
def sblockRecover (m : Mgr) (tx rx : Half) : Mgr × Half × Half :=
  ({ m with state := .idle, pollOut := true }, recoverTx m tx, recoverRx m rx)

def hsize : UInt32 := 96

def align (x : UInt32) : UInt32 := (x + 7) &&& ~~~7

/-- The arguments of `sblock_create` and where the shared memory lies.  The blocks have a size, and
the header, the blocks and the four arrays of entries fit in a 32-bit address space. -/
structure Config where
  txblocknum : UInt32
  txblocksize : UInt32
  rxblocknum : UInt32
  rxblocksize : UInt32
  dstSmemAddr : UInt32
  hostVirt : UInt64
  clientVirt : UInt64
  txblocksize_pos : 0 < align txblocksize
  rxblocksize_pos : 0 < align rxblocksize
  fits : hsize.toNat + txblocknum.toNat * (align txblocksize).toNat +
    rxblocknum.toNat * (align rxblocksize).toNat +
    16 * (txblocknum.toNat + rxblocknum.toNat) < 2 ^ 32

def fullPool (addr count size : UInt32) : Queue where
  blks i := if i < count.toNat then ⟨addr + UInt32.ofNat i * size, size⟩ else ⟨0, 0⟩
  rdptr := 0
  wrptr := count

def emptyRing : Queue where
  blks _ := ⟨0, 0⟩
  rdptr := 0
  wrptr := 0

def newHalf (addr count size : UInt32) : Half where
  addr := addr
  count := count
  size := size
  ring := emptyRing
  pool := fullPool addr count size

def hostInitHalf (c : Config) : Party → Half
  | .host => newHalf (c.dstSmemAddr + hsize) c.txblocknum (align c.txblocksize)
  | .client =>
    newHalf (c.dstSmemAddr + hsize + c.txblocknum * align c.txblocksize) c.rxblocknum
      (align c.rxblocksize)

def hostInit (c : Config) : Mgr where
  state := .ready
  smemVirt := c.hostVirt
  storedSmemAddr := c.dstSmemAddr
  txblksz := align c.txblocksize
  rxblksz := align c.rxblocksize
  txblkVirt := c.hostVirt + ((hostInitHalf c .host).addr - c.dstSmemAddr).toUInt64
  rxblkVirt := c.hostVirt + ((hostInitHalf c .client).addr - c.dstSmemAddr).toUInt64
  txrecord _ := .done
  rxrecord _ := .done
  pollIn := false
  pollOut := true
  yell := false

/-- The manager of the client after `sblock_client_init`, which reads the header that the host
laid out: tx <=> rx. -/
def clientInit (c : Config) : Mgr where
  state := .ready
  smemVirt := c.clientVirt
  storedSmemAddr := c.dstSmemAddr
  txblksz := (hostInitHalf c .client).size
  rxblksz := (hostInitHalf c .host).size
  txblkVirt := c.clientVirt + ((hostInitHalf c .client).addr - c.dstSmemAddr).toUInt64
  rxblkVirt := c.clientVirt + ((hostInitHalf c .host).addr - c.dstSmemAddr).toUInt64
  txrecord _ := .done
  rxrecord _ := .done
  pollIn := false
  pollOut := false
  yell := false

/-- The channel and the blocks in the hands of its callers: those a party got and has not
returned, and those it received and has not released. -/
structure Sys where
  mgr : Party → Mgr
  half : Party → Half
  got : Party → List UInt64
  rcvd : Party → List UInt64

def Sys.init (c : Config) : Sys where
  mgr
    | .host => hostInit c
    | .client => clientInit c
  half := hostInitHalf c
  got _ := []
  rcvd _ := []

/-- The critical sections of the calls that the parties make. -/
inductive Op where
  | getPoll (p : Party)
  | get (p : Party)
  | put (p : Party) (blk : Block)
  | send (p : Party) (blk : Block) (yell : Bool)
  | receivePoll (p : Party)
  | receive (p : Party)
  | release (p : Party) (blk : Block)

/-- The state after a call on the half that `p` transmits through. -/
def Sys.setTx (s : Sys) (p : Party) (m : Mgr) (tx : Half) (got : List UInt64) : Sys :=
  { s with mgr := update s.mgr p m, half := update s.half p tx, got := update s.got p got }

/-- The state after a call on the half that `p` receives through. -/
def Sys.setRx (s : Sys) (p : Party) (m : Mgr) (rx : Half) (rcvd : List UInt64) : Sys :=
  { s with mgr := update s.mgr p m, half := update s.half p.peer rx, rcvd := update s.rcvd p rcvd }

/-- The blocks in hand after a call that hands out a block when it succeeds. -/
def taken (hand : List UInt64) : Except Errno Block → List UInt64
  | .ok blk => blk.addr :: hand
  | .error _ => hand

/-- The blocks in hand after a call that gives `blk` back when it succeeds. -/
def returned (hand : List UInt64) (blk : Block) : Except Errno Bool → List UInt64
  | .ok _ => hand.erase blk.addr
  | .error _ => hand

/-- One critical section.  Callers put and send only blocks they got, and release only blocks they
received. -/
def step (s : Sys) : Op → Option Sys
  | .getPoll p => some (s.setTx p (sblockGetPoll (s.mgr p) (s.half p)).1 (s.half p) (s.got p))
  | .get p =>
    let r := sblockGet (s.mgr p) (s.half p)
    some (s.setTx p r.1 r.2.1 (taken (s.got p) r.2.2))
  | .put p blk =>
    let r := sblockPut (s.mgr p) (s.half p) blk
    if blk.addr ∈ s.got p then some (s.setTx p r.1 r.2 ((s.got p).erase blk.addr)) else none
  | .send p blk yell =>
    let r := sblockSendEx (s.mgr p) (s.half p) blk yell
    if blk.addr ∈ s.got p then some (s.setTx p r.1 r.2.1 (returned (s.got p) blk r.2.2)) else none
  | .receivePoll p =>
    some (s.setRx p (sblockReceivePoll (s.mgr p) (s.half p.peer)).1 (s.half p.peer) (s.rcvd p))
  | .receive p =>
    let r := sblockReceive (s.mgr p) (s.half p.peer)
    some (s.setRx p r.1 r.2.1 (taken (s.rcvd p) r.2.2))
  | .release p blk =>
    let r := sblockRelease (s.mgr p) (s.half p.peer) blk
    if blk.addr ∈ s.rcvd p then some (s.setRx p r.1 r.2.1 (returned (s.rcvd p) blk r.2.2))
    else none

/-- The states of the channel that some interleaving of calls reaches. -/
abbrev Reachable (c : Config) : Sys → Prop := Transition.Reachable step (Sys.init c)

end ModemSupport.Sipc.Sblock
