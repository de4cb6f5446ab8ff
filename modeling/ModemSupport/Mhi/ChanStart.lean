import ModemSupport.Lib.Heap
import ModemSupport.Mhi.Chan

/-! The start of the two channels of an MHI device (`mhi_main.c`): `mhi_prepare_for_transfer`,
`__mhi_prepare_channel` and `__mhi_unprepare_channel`, with all that can go wrong on the way. -/

namespace ModemSupport.Mhi.Start

open Lib (Heap)

/-- A channel as `of_parse_ch_cfg` leaves it: an offload channel is one without elements, and
bidirectional, and a `pre_alloc` channel is one of buffers from the device. -/
structure ChanCfg where
  eeMask : Nat
  offloadCh : Bool
  preAlloc : Bool
  rscDma : Bool
  dir : Dir
  elements : Nat
  treBase : Nat
  iommuBase : Nat
  offloadCh_iff : offloadCh = true ↔ elements = 0
  preAlloc_ok : preAlloc = true → offloadCh = false ∧ dir = .fromDevice ∧ rscDma = false

structure Info where
  cbBuf : Nat
  used : Bool

/-- `struct mhi_chan`, with the elements of `buf_ring`; `buf_ring.base` is its allocation. -/
structure Chan where
  chState : ChState
  treRing : MhiRing
  bufRing : MhiRing
  infos : Nat → Info

/-- `struct mhi_controller`: the votes, the heap, and the buffers that `xfer_cb` has got. -/
structure Ctrl where
  wake : Int
  runtime : Int
  pendingPkts : Int
  heap : Heap
  callbacks : List Nat

/-- `mhi_init_chan_ctxt`, when `kzalloc` gives a `buf_ring`. -/
def mhiInitChanCtxt (cfg : ChanCfg) (k : Ctrl) (ch : Chan) : Ctrl × Chan :=
  ({ k with heap := k.heap.alloc },
    { ch with
      treRing :=
        { iommuBase := cfg.iommuBase, base := cfg.treBase, rp := cfg.treBase, wp := cfg.treBase
          elSize := sizeofMhiTre, len := sizeofMhiTre * cfg.elements }
      bufRing :=
        { iommuBase := 0, base := k.heap.next, rp := k.heap.next, wp := k.heap.next
          elSize := sizeofMhiBufInfo, len := sizeofMhiBufInfo * cfg.elements }
      infos := fun _ => ⟨0, false⟩ })

def mhiInitChanCtxtFailed (cfg : ChanCfg) (ch : Chan) : Chan :=
  { ch with
    treRing :=
      { ch.treRing with
        iommuBase := cfg.iommuBase, base := cfg.treBase, elSize := sizeofMhiTre
        len := sizeofMhiTre * cfg.elements }
    bufRing :=
      { ch.bufRing with
        base := 0, elSize := sizeofMhiBufInfo, len := sizeofMhiBufInfo * cfg.elements } }

def mhiDeinitChanCtxt (k : Ctrl) (ch : Chan) : Ctrl × Chan :=
  ({ k with heap := k.heap.free ch.bufRing.base },
    { ch with treRing := { ch.treRing with base := 0 }, bufRing := { ch.bufRing with base := 0 } })

def resetRound (cfg : ChanCfg) (k : Ctrl) (ch : Chan) : Ctrl × Chan :=
  let cbBuf := (ch.infos (ch.bufRing.index ch.bufRing.rp)).cbBuf
  let k :=
    if cfg.dir = .toDevice then
      { k with
        pendingPkts := k.pendingPkts - 1
        runtime := k.runtime - (if k.pendingPkts - 1 = 0 then 1 else 0)
        wake := k.wake - 1 }
    else k
  let ch := { ch with
    treRing := ch.treRing.delRingElement, bufRing := ch.bufRing.delRingElement }
  if cfg.preAlloc then ({ k with heap := k.heap.free cbBuf }, ch)
  else ({ k with callbacks := k.callbacks ++ [cbBuf] }, ch)

/-- `mhi_reset_data_chan`, or `none` when the loop is not over after `fuel` rounds. -/
def mhiResetDataChan (cfg : ChanCfg) : (fuel : Nat) → Ctrl → Chan → Option (Ctrl × Chan)
  | 0, k, ch => if ch.treRing.rp = ch.treRing.wp then some (k, ch) else none
  | fuel + 1, k, ch =>
    if ch.treRing.rp = ch.treRing.wp then some (k, ch)
    else mhiResetDataChan cfg fuel (resetRound cfg k ch).1 (resetRound cfg k ch).2

def mhiResetRscChan (cfg : ChanCfg) (k : Ctrl) (ch : Chan) : Ctrl × Chan :=
  let used := (List.range cfg.elements).filter fun i => (ch.infos i).used
  ({ k with callbacks := k.callbacks ++ used.map fun i => (ch.infos i).cbBuf },
    { ch with infos := fun i => if i < cfg.elements then { ch.infos i with used := false }
        else ch.infos i })

/-- `mhi_reset_chan` of a channel that is not an offload channel; a ring has fewer than `elements`
elements outstanding. -/
def mhiResetChan (cfg : ChanCfg) (k : Ctrl) (ch : Chan) : Option (Ctrl × Chan) :=
  if cfg.rscDma then some (mhiResetRscChan cfg k ch) else mhiResetDataChan cfg cfg.elements k ch

def Ctrl.get (k : Ctrl) : Ctrl := { k with wake := k.wake + 1, runtime := k.runtime + 1 }

def Ctrl.put (k : Ctrl) : Ctrl := { k with wake := k.wake - 1, runtime := k.runtime - 1 }

/-- `__mhi_unprepare_channel`, with the power state that it finds.  Whatever becomes of the command
to reset the channel, its votes are given back and the channel is reset. -/
def unprepareChannel (cfg : ChanCfg) (pmState : PmState) (k : Ctrl) (ch : Chan) :
    Option (Ctrl × Chan) :=
  if ch.chState ≠ .enabled then some (k, ch)
  else
    let ch := { ch with chState := .disabled }
    let k := if pmState.inErrorState then k else k.get.put
    if cfg.offloadCh then some (k, ch)
    else (mhiResetChan cfg k ch).map fun x => mhiDeinitChanCtxt x.1 x.2

/-- `wait_for_completion_timeout` of a command: what is left of the time, and `ccs`. -/
structure Wait where
  left : Nat
  ccs : UInt32

/-- What a call of `__mhi_prepare_channel` finds: the execution environment, the outcome of
`kzalloc`, the power state, whether the command ring is full, the completion, for each buffer the
outcomes of `kmalloc` and `map_single`, and the power state when it unprepares the channel. -/
structure PrepareEnv where
  ee : Nat
  ctxt : Bool
  pmState : PmState
  cmdFull : Bool
  wait : Wait
  kmalloc : Nat → Bool
  mapSingle : Nat → Option Errno
  unprepare : PmState

/-- `mhi_gen_tre` before `map_single`. -/
def Chan.setCbBuf (ch : Chan) (buf : Nat) : Chan :=
  { ch with
    infos := Function.update ch.infos (ch.bufRing.index ch.bufRing.wp)
      { ch.infos (ch.bufRing.index ch.bufRing.wp) with cbBuf := buf } }

/-- `mhi_gen_tre` behind `map_single`. -/
def Chan.addElements (ch : Chan) : Chan :=
  { ch with treRing := ch.treRing.addRingElement, bufRing := ch.bufRing.addRingElement }

def fill (env : PrepareEnv) : (nrEl : Nat) → (i : Nat) → Ctrl → Chan → Option Errno × Ctrl × Chan
  | 0, _, k, ch => (none, k, ch)
  | nrEl + 1, i, k, ch =>
    if env.kmalloc i = false then (some .enomem, k, ch)
    else
      let buf := k.heap.next
      let k := { k with heap := k.heap.alloc }
      let ch := ch.setCbBuf buf
      match env.mapSingle i with
      | some e => (some e, { k with heap := k.heap.free buf }, ch)
      | none => fill env nrEl (i + 1) k ch.addElements

/-- `error_pm_state` and the labels behind it. -/
def errorPmState (cfg : ChanCfg) (ret : Errno) (k : Ctrl) (ch : Chan) :
    Option Errno × Ctrl × Chan :=
  (some ret, if cfg.offloadCh then (k, ch) else mhiDeinitChanCtxt k ch)

/-- `__mhi_prepare_channel` behind `mhi_init_chan_ctxt`.  The ring of a `pre_alloc` channel has just
been set up, so that `nr_el` is not negative. -/
def startChannel (cfg : ChanCfg) (env : PrepareEnv) (k : Ctrl) (ch : Chan) :
    Option (Option Errno × Ctrl × Chan) :=
  if env.pmState.inErrorState then some (errorPmState cfg .eio k ch)
  else
    let k := k.get
    if env.cmdFull then some (errorPmState cfg .enomem k.put ch)
    else if env.wait.left = 0 ∨ env.wait.ccs ≠ evCcSuccess then
      some (errorPmState cfg .eio k.put ch)
    else
      let k := { k with runtime := k.runtime - 1 }
      let ch := { ch with chState := .enabled }
      if cfg.preAlloc = false then some (none, { k with wake := k.wake - 1 }, ch)
      else
        let filled := fill env ch.treRing.getNrAvailRingElements.toNat 0 k ch
        let k := { filled.2.1 with wake := filled.2.1.wake - 1 }
        match filled.1 with
        | none => some (none, k, filled.2.2)
        | some e =>
          (unprepareChannel cfg env.unprepare k filled.2.2).map fun x => (some e, x.1, x.2)

def prepareChannel (cfg : ChanCfg) (env : PrepareEnv) (k : Ctrl) (ch : Chan) :
    Option (Option Errno × Ctrl × Chan) :=
  if cfg.eeMask.testBit env.ee = false then some (some .enotconn, k, ch)
  else if ch.chState ≠ .disabled then some (some .eio, k, ch)
  else if cfg.offloadCh then startChannel cfg env k ch
  else if env.ctxt = false then some (some .enomem, k, mhiInitChanCtxtFailed cfg ch)
  else startChannel cfg env (mhiInitChanCtxt cfg k ch).1 (mhiInitChanCtxt cfg k ch).2

section

variable {ι : Type} [DecidableEq ι]

structure Device (ι : Type) where
  ulChan : Option ι
  dlChan : Option ι

structure State (ι : Type) where
  ctrl : Ctrl
  chans : ι → Chan

def State.set (s : State ι) (i : ι) (x : Ctrl × Chan) : State ι :=
  ⟨x.1, Function.update s.chans i x.2⟩

/-- The round of `mhi_prepare_for_transfer` for `dl_chan`, with `error_open_chan`; the power state
is what the call of `__mhi_unprepare_channel` for `ul_chan` finds. -/
def startDl (cfg : ι → ChanCfg) (dev : Device ι) (env : PrepareEnv) (pmState : PmState)
    (s : State ι) : Option (Option Errno × State ι) :=
  match dev.dlChan with
  | none => some (none, s)
  | some dl =>
    (prepareChannel (cfg dl) env s.ctrl (s.chans dl)).bind fun x =>
      let s := s.set dl x.2
      match x.1, dev.ulChan with
      | some e, some ul =>
        (unprepareChannel (cfg ul) pmState s.ctrl (s.chans ul)).map fun x => (some e, s.set ul x)
      | ret, _ => some (ret, s)

def mhiPrepareForTransfer (cfg : ι → ChanCfg) (dev : Device ι) (envUl envDl : PrepareEnv)
    (pmState : PmState) (s : State ι) : Option (Option Errno × State ι) :=
  match dev.ulChan with
  | none => startDl cfg dev envDl pmState s
  | some ul =>
    (prepareChannel (cfg ul) envUl s.ctrl (s.chans ul)).bind fun x =>
      let s := s.set ul x.2
      if x.1 ≠ none then some (x.1, s)
      else if dev.dlChan = dev.ulChan then some (none, s)
      else startDl cfg dev envDl pmState s

end

end ModemSupport.Mhi.Start
