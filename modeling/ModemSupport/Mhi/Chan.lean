import ModemSupport.Mhi.MhiRing

/-! The transfer channels of the MHI host driver (`mhi_main.c`): `mhi_queue_skb`, `mhi_queue_dma`
and `mhi_queue_buf`, `parse_xfer_event`, and `mhi_reset_data_chan`, for any number of channels of
one controller.  A call takes a step for each access to what other calls read or write. -/

namespace ModemSupport.Mhi

structure Tre where
  ptr : UInt64
  dword0 : UInt32
  dword1 : UInt32
  deriving Inhabited

def mhiMaxMtu : UInt32 := 0xffff

def treDataDword0 (len : Nat) : UInt32 := UInt32.ofNat len &&& mhiMaxMtu

def treDataDword1 (bei ieot ieob chain : Bool) : UInt32 :=
  ((2 : UInt32) <<< (16 : UInt32)) ||| (bei.toUInt32 <<< (10 : UInt32)) |||
    (ieot.toUInt32 <<< (9 : UInt32)) ||| (ieob.toUInt32 <<< (8 : UInt32)) ||| chain.toUInt32

namespace Tre

def evCode (tre : Tre) : UInt32 := (tre.dword0 >>> (24 : UInt32)) &&& (0xff : UInt32)

def evLen (tre : Tre) : UInt32 := tre.dword0 &&& (0xffff : UInt32)

def evChid (tre : Tre) : UInt32 := (tre.dword1 >>> (24 : UInt32)) &&& (0xff : UInt32)

def evType (tre : Tre) : UInt32 := (tre.dword1 >>> (16 : UInt32)) &&& (0xff : UInt32)

def cmdChid (tre : Tre) : UInt32 := (tre.dword1 >>> (24 : UInt32)) &&& (0xff : UInt32)

def cmdType (tre : Tre) : UInt32 := (tre.dword1 >>> (16 : UInt32)) &&& (0xff : UInt32)

end Tre

/-! The codes of `enum MHI_EV_CCS`. -/

def evCcSuccess : UInt32 := 0x1

def evCcEot : UInt32 := 0x2

def evCcOverflow : UInt32 := 0x3

def evCcEob : UInt32 := 0x4

def evCcOob : UInt32 := 0x5

def evCcDbMode : UInt32 := 0x6

def xferCodes : List UInt32 := [evCcOverflow, evCcEob, evCcEot]

def dbCodes : List UInt32 := [evCcOob, evCcDbMode]

inductive PmState where
  | disable
  | por
  | m0
  | m2
  | m3Enter
  | m3
  | m3Exit
  | fwDlErr
  | sysErrDetect
  | sysErrProcess
  | shutdownProcess
  | ldErrFatalDetect
  deriving DecidableEq

namespace PmState

def inErrorState : PmState → Bool
  | fwDlErr | sysErrDetect | sysErrProcess | shutdownProcess | ldErrFatalDetect => true
  | _ => false

def inSuspendState (s : PmState) : Bool := s = m3Enter || s = m3

def dbAccessValid (s : PmState) : Bool := s = m0

end PmState

inductive Dir where
  | toDevice
  | fromDevice
  deriving DecidableEq

inductive ChState where
  | disabled
  | enabled
  | running
  | suspended
  | stop
  | error
  deriving DecidableEq

inductive Errno where
  | eio
  | enomem
  | eoverflow
  | enotconn
  deriving DecidableEq

structure BufInfo where
  pAddr : Nat
  vAddr : Nat
  wp : Nat
  len : Nat
  cbBuf : Nat
  preMapped : Bool
  deriving Inhabited

structure DbCfg where
  dbMode : Bool
  dbVal : Nat

structure Result where
  transactionStatus : Option Errno
  bytesXferd : Nat
  bufAddr : Nat
  deriving DecidableEq

def sizeofMhiTre : Nat := 16

def sizeofMhiBufInfo : Nat := 56

/-- A channel that is not RSC, with the memory of its two rings.  `brstmode` is set when
`process_db` is `mhi_db_brstmode`. -/
structure ChanCfg where
  elements : Nat
  dir : Dir
  preAlloc : Bool
  intmod : Nat
  brstmode : Bool
  iommuBase : Nat
  treBase : Nat
  bufBase : Nat
  two_le : 2 ≤ elements
  fromDevice_of_preAlloc : preAlloc = true → dir = .fromDevice
  treBase_le : treBase + elements * sizeofMhiTre ≤ 2 ^ 64
  iommuBase_le : iommuBase + elements * sizeofMhiTre ≤ 2 ^ 64

/-- The arguments of a queue call.  `addr` is `skb->data` or `dma_addr`; `mhi_queue_buf` has no use
for it. -/
structure Req where
  buf : Nat
  addr : Nat
  len : Nat
  mflags : Nat

/-- The callers of `gen_tre` and its like; `prepare` is a round of the loop with which
`__mhi_prepare_channel` fills the ring. -/
inductive QueueFn where
  | skb
  | dma
  | buf
  | prepare
  deriving DecidableEq

inductive QueueOp where
  | isRingFull
  | inErrorState
  | suspendGet
  | suspendPut
  | wakeGet
  | genTre
  | incPending
  | runtimeGet
  | addElements
  | ringDb
  | wakePut
  | mapError
  deriving DecidableEq

/-- A queue call: what it has still to do, its local variables, and its result.  `suspended` and
`first` are the tests of the power state and of `pending_pkts` under which it calls
`runtime_get`. -/
structure Call where
  fn : QueueFn
  req : Req
  recycle : Bool
  rest : List QueueOp
  suspended : Bool
  assertWake : Bool
  first : Bool
  ret : Option Errno

inductive RoundOp where
  | del
  | xferCb
  | decPending
  | runtimePut
  | wakePut
  | recycle
  | recycled
  | resetCb
  deriving DecidableEq

inductive Loop where
  | parse (devRp : Nat) (status : Option Errno) (xferLen : Nat)
  | reset

/-- A loop that completes buffers: what is left of its round, and its local variables.  `bufInfo` is
the element that it points to, and `last` the test under which it calls `runtime_put`. -/
structure Round where
  loop : Loop
  rest : List RoundOp
  bufInfo : Nat
  result : Result
  last : Bool

/-- How a buffer left the driver. -/
inductive Done where
  | xferCb (result : Result)
  | kfree (buf : Nat)
  deriving DecidableEq

def Done.buf : Done → Nat
  | .xferCb result => result.bufAddr
  | .kfree buf => buf

/-- What happened on a channel: the buffers accepted with their lengths, the number of them taken
off the rings, those completed, and those freed because they could not be recycled. -/
structure ChanHist where
  accepted : List (Nat × Nat)
  taken : Nat
  completed : List Done
  freed : List Nat

/-- `struct mhi_chan` with the memory of its rings, the calls in progress on it, and what the device
sees of it: the write pointer in the channel context and the doorbell register. -/
structure Chan where
  treRing : MhiRing
  bufRing : MhiRing
  tres : Nat → Tre
  infos : Nat → BufInfo
  ctxtWp : Nat
  dbReg : Nat
  dbCfg : DbCfg
  chState : ChState
  call : Option Call
  round : Option Round
  hist : ChanHist

/-- `struct mhi_controller`.  `wake` and `runtime` count the calls of `wake_get` and `runtime_get`
less those of `wake_put` and `runtime_put`. -/
structure Ctrl where
  pmState : PmState
  pendingPkts : Int
  wake : Int
  runtime : Int

def processDb (cfg : ChanCfg) (ch : Chan) (wp : Nat) : Chan :=
  if cfg.brstmode then
    if ch.dbCfg.dbMode then { ch with dbReg := wp, dbCfg := ⟨false, wp⟩ } else ch
  else { ch with dbReg := wp, dbCfg := { ch.dbCfg with dbVal := wp } }

def ringChanDb (cfg : ChanCfg) (ch : Chan) : Chan :=
  let db := ch.treRing.iommuBase + (ch.treRing.wp - ch.treRing.base)
  processDb cfg { ch with ctxtWp := db } db

namespace QueueFn

def body : QueueFn → List QueueOp
  | skb | dma =>
    [.isRingFull, .inErrorState, .suspendGet, .suspendPut, .wakeGet, .genTre, .incPending,
      .runtimeGet, .addElements, .ringDb, .wakePut]
  | buf =>
    [.inErrorState, .isRingFull, .genTre, .addElements, .suspendGet, .suspendPut, .wakeGet,
      .incPending, .runtimeGet, .ringDb, .wakePut]
  | prepare => [.genTre, .addElements]

end QueueFn

def Call.start (fn : QueueFn) (req : Req) (recycle : Bool) : Call where
  fn := fn
  req := req
  recycle := recycle
  rest := fn.body
  suspended := false
  assertWake := false
  first := false
  ret := none

def Call.fail (c : Call) (ret : Errno) (rest : List QueueOp) : Call :=
  { c with ret := some ret, rest := rest }

def Call.bufInfo (c : Call) (old : BufInfo) (wp : Nat) : BufInfo :=
  match c.fn with
  | .skb => { old with vAddr := c.req.addr, cbBuf := c.req.buf, wp := wp, len := c.req.len }
  | .dma =>
    { old with
      pAddr := c.req.addr, preMapped := true, cbBuf := c.req.buf, wp := wp, len := c.req.len }
  | .buf | .prepare =>
    { old with vAddr := c.req.buf, cbBuf := c.req.buf, wp := wp, len := c.req.len }

def mhiEob : Nat := 0

def mhiEot : Nat := 1

def mhiChain : Nat := 2

def Call.tre (cfg : ChanCfg) (c : Call) (info : BufInfo) : Tre where
  ptr := UInt64.ofNat info.pAddr
  dword0 := treDataDword0 c.req.len
  dword1 :=
    match c.fn with
    | .skb | .dma => treDataDword1 true true false false
    | .buf | .prepare =>
      treDataDword1 (cfg.intmod ≠ 0) (c.req.mflags &&& mhiEot ≠ 0) (c.req.mflags &&& mhiEob ≠ 0)
        (c.req.mflags &&& mhiChain ≠ 0)

/-- Filling the next element, with the address that `map_single` gives.  `mhi_queue_skb` undoes its
vote when there is none. -/
def genTre (cfg : ChanCfg) (ch : Chan) (c : Call) (mapped : Option Nat) : Chan :=
  let wp := ch.bufRing.index ch.bufRing.wp
  let info := c.bufInfo (ch.infos wp) ch.treRing.wp
  let mapped := if c.fn = .dma then some info.pAddr else mapped
  match mapped with
  | none =>
    { ch with
      infos := Function.update ch.infos wp info
      call := some (c.fail .enomem (if c.fn = .skb then [.mapError] else [])) }
  | some pAddr =>
    let info := { info with pAddr := pAddr }
    { ch with
      infos := Function.update ch.infos wp info
      tres := Function.update ch.tres (ch.treRing.index ch.treRing.wp) (c.tre cfg info)
      call := some c }

def addElements (ch : Chan) (c : Call) : Chan :=
  { ch with
    treRing := ch.treRing.addRingElement
    bufRing := ch.bufRing.addRingElement
    call := some c
    hist := { ch.hist with accepted := ch.hist.accepted ++ [(c.req.buf, c.req.len)] } }

/-- A step of a queue call, which has `c.rest` left to do. -/
def queueOp (cfg : ChanCfg) (k : Ctrl) (ch : Chan) (c : Call) (mapped : Option Nat) :
    QueueOp → Ctrl × Chan
  | .isRingFull =>
    (k, { ch with call := some (if ch.treRing.isRingFull then c.fail .enomem [] else c) })
  | .inErrorState =>
    (k, { ch with call := some (if k.pmState.inErrorState then c.fail .eio [] else c) })
  | .suspendGet =>
    let suspended := k.pmState.inSuspendState
    ({ k with runtime := k.runtime + suspended.toNat },
      { ch with call := some { c with suspended := suspended } })
  | .suspendPut =>
    ({ k with runtime := k.runtime - c.suspended.toNat }, { ch with call := some c })
  | .wakeGet =>
    let assertWake := cfg.dir = .toDevice || (cfg.dir = .fromDevice && k.pmState ≠ .m0)
    ({ k with wake := k.wake + assertWake.toNat },
      { ch with call := some { c with assertWake := assertWake } })
  | .genTre => (k, genTre cfg ch c mapped)
  | .incPending =>
    if cfg.dir = .toDevice then
      ({ k with pendingPkts := k.pendingPkts + 1 },
        { ch with call := some { c with first := k.pendingPkts + 1 = 1 } })
    else (k, { ch with call := some { c with first := false } })
  | .runtimeGet => ({ k with runtime := k.runtime + c.first.toNat }, { ch with call := some c })
  | .addElements => (k, addElements ch c)
  | .ringDb =>
    (k, { (if k.pmState.dbAccessValid then ringChanDb cfg ch else ch) with call := some c })
  | .wakePut =>
    ({ k with wake := k.wake - (cfg.dir = .fromDevice && c.assertWake).toNat },
      { ch with call := some c })
  | .mapError => ({ k with wake := k.wake - c.assertWake.toNat }, { ch with call := some c })

def queueStep (cfg : ChanCfg) (k : Ctrl) (ch : Chan) (mapped : Option Nat) :
    Option (Ctrl × Chan) := do
  let c ← ch.call
  match c.rest with
  | [] => none
  | op :: rest => some (queueOp cfg k ch { c with rest := rest } mapped op)

def Loop.body (cfg : ChanCfg) : Loop → List RoundOp
  | .parse .. =>
    [.del, .xferCb, .decPending, .runtimePut, .wakePut] ++
      if cfg.preAlloc then [.recycle, .recycled] else []
  | .reset => [.decPending, .runtimePut, .wakePut, .del, .resetCb]

def Round.start (loop : Loop) : Round where
  loop := loop
  rest := []
  bufInfo := 0
  result := ⟨none, 0, 0⟩
  last := false

/-- `parse_xfer_event`, up to its loop.  Its caller is the only one that takes elements off the
rings: it holds the channel's lock, under which the channel is disabled before it is reset. -/
def parseXferEvent (cfg : ChanCfg) (k : Ctrl) (ch : Chan) (event : Tre) : Chan :=
  let evCode := event.evCode
  if ch.chState ≠ .enabled then ch
  else if evCode ∈ xferCodes then
    let status := if evCode = evCcOverflow then some .eoverflow else none
    let evTre := ch.treRing.toVirtual event.ptr.toNat
    { ch with
      round := some (.start (.parse (ch.treRing.next evTre) status event.evLen.toNat)) }
  else if evCode ∈ dbCodes then
    let ch := { ch with dbCfg := { ch.dbCfg with dbMode := true } }
    if ch.treRing.wp ≠ ch.treRing.rp ∧ k.pmState.dbAccessValid then ringChanDb cfg ch else ch
  else ch

def Loop.goesOn (ch : Chan) : Loop → Bool
  | .parse devRp _ _ => ch.treRing.rp ≠ devRp
  | .reset => ch.treRing.rp ≠ ch.treRing.wp

def delElements (ch : Chan) (r : Round) : Chan :=
  { ch with
    treRing := ch.treRing.delRingElement
    bufRing := ch.bufRing.delRingElement
    round := some { r with
      result :=
        match r.loop with
        | .parse _ status xferLen => ⟨status, xferLen, (ch.infos r.bufInfo).cbBuf⟩
        | .reset => r.result }
    hist := { ch.hist with taken := ch.hist.taken + 1 } }

def Chan.resetDone (cfg : ChanCfg) (ch : Chan) (r : Round) : Done :=
  let cbBuf := (ch.infos r.bufInfo).cbBuf
  if cfg.preAlloc then .kfree cbBuf else .xferCb ⟨some .enotconn, 0, cbBuf⟩

def Chan.complete (ch : Chan) (d : Done) : Chan :=
  { ch with hist := { ch.hist with completed := ch.hist.completed ++ [d] } }

/-- A step of a round, which has `r.rest` left to do.  The `mhi_queue_buf` that recycles the buffer
takes its own steps. -/
def roundOp (cfg : ChanCfg) (k : Ctrl) (ch : Chan) (r : Round) : RoundOp → Option (Ctrl × Chan)
  | .del => some (k, delElements ch r)
  | .xferCb => some (k, { ch.complete (.xferCb r.result) with round := some r })
  | .decPending =>
    some <|
      if cfg.dir = .toDevice then
        ({ k with pendingPkts := k.pendingPkts - 1 },
          { ch with round := some { r with last := k.pendingPkts - 1 = 0 } })
      else (k, { ch with round := some { r with last := false } })
  | .runtimePut =>
    some ({ k with runtime := k.runtime - r.last.toNat }, { ch with round := some r })
  | .wakePut =>
    some ({ k with wake := k.wake - (decide (cfg.dir = .toDevice)).toNat },
      { ch with round := some r })
  | .recycle =>
    match ch.call with
    | some _ => none
    | none =>
      let info := ch.infos r.bufInfo
      let req : Req := ⟨info.cbBuf, info.cbBuf, info.len, mhiEot⟩
      some (k, { ch with call := some (.start .buf req true), round := some r })
  | .recycled =>
    match ch.call with
    | none => none
    | some c =>
      if c.recycle ∧ c.rest = [] then
        let freed := if c.ret = none then [] else [(ch.infos r.bufInfo).cbBuf]
        some (k, { ch with
          call := none
          round := some r
          hist := { ch.hist with freed := ch.hist.freed ++ freed } })
      else none
  | .resetCb => some (k, { ch.complete (ch.resetDone cfg r) with round := some r })

def roundStep (cfg : ChanCfg) (k : Ctrl) (ch : Chan) : Option (Ctrl × Chan) := do
  let r ← ch.round
  match r.rest with
  | [] =>
    some (k, { ch with
      round :=
        if r.loop.goesOn ch then
          some { r with rest := r.loop.body cfg, bufInfo := ch.bufRing.index ch.bufRing.rp }
        else none })
  | op :: rest => roundOp cfg k ch { r with rest := rest } op

/-- The steps on a channel: a client starts a queue call and gets its result, which it does one at
a time, `xfer_cb` included; `queue` is the next step of the queue call in progress, and `round`
that of `parse_xfer_event` or `mhi_reset_data_chan`. -/
inductive ChanLabel where
  | call (fn : QueueFn) (req : Req)
  | prepare (buf len : Nat)
  | queue (mapped : Option Nat)
  | ret
  | event (event : Tre)
  | reset
  | round
  | chState (st : ChState)

def chanStep (cfg : ChanCfg) (k : Ctrl) (ch : Chan) : ChanLabel → Option (Ctrl × Chan)
  | .call fn req =>
    if ch.call = none ∧ fn ≠ .prepare then some (k, { ch with call := some (.start fn req false) })
    else none
  | .prepare buf len =>
    -- the loop counts down the elements that were available at its start
    if ch.call = none ∧ cfg.preAlloc ∧ 0 < ch.treRing.getNrAvailRingElements then
      some (k, { ch with call := some (.start .prepare ⟨buf, buf, len, mhiEot⟩ false) })
    else none
  | .queue mapped => queueStep cfg k ch mapped
  | .ret =>
    match ch.call with
    | some c => if c.recycle = false ∧ c.rest = [] then some (k, { ch with call := none }) else none
    | none => none
  | .event event =>
    if ch.round = none then some (k, parseXferEvent cfg k ch event) else none
  | .reset => if ch.round = none then some (k, { ch with round := some (.start .reset) }) else none
  | .round => roundStep cfg k ch
  | .chState st => if ch.round = none then some (k, { ch with chState := st }) else none

def chanInit (cfg : ChanCfg) : Chan where
  treRing :=
    { iommuBase := cfg.iommuBase, base := cfg.treBase, rp := cfg.treBase, wp := cfg.treBase
      elSize := sizeofMhiTre, len := sizeofMhiTre * cfg.elements }
  bufRing :=
    { iommuBase := 0, base := cfg.bufBase, rp := cfg.bufBase, wp := cfg.bufBase
      elSize := sizeofMhiBufInfo, len := sizeofMhiBufInfo * cfg.elements }
  tres _ := default
  infos _ := default
  ctxtWp := cfg.iommuBase
  dbReg := 0
  dbCfg := ⟨true, 0⟩
  chState := .disabled
  call := none
  round := none
  hist := ⟨[], 0, [], []⟩

section

variable {ι : Type} [DecidableEq ι]

structure Sys (ι : Type) where
  ctrl : Ctrl
  chans : ι → Chan

inductive Label (ι : Type) where
  | chan (i : ι) (l : ChanLabel)
  | pm (st : PmState)

/-- The power state may change at any time. -/
def step (cfg : ι → ChanCfg) (s : Sys ι) : Label ι → Option (Sys ι)
  | .chan i l =>
    (chanStep (cfg i) s.ctrl (s.chans i) l).map fun x =>
      ⟨x.1, Function.update s.chans i x.2⟩
  | .pm st => some { s with ctrl := { s.ctrl with pmState := st } }

def init (cfg : ι → ChanCfg) : Sys ι where
  ctrl := ⟨.disable, 0, 0, 0⟩
  chans i := chanInit (cfg i)

end

end ModemSupport.Mhi
