import ModemSupport.Mhi.Chan

/-! The event rings of the MHI host driver (`mhi_main.c`): `mhi_process_data_event_ring` and
`mhi_process_ctrl_ev_ring` with `parse_xfer_event`, `parse_rsc_event` and
`mhi_process_cmd_completion`, run one after another on events of any content.  What they look up
with a value that the device wrote is listed; where that leaves an array or a ring, what is found
there is not known, and the model stops at the look-up. -/

namespace ModemSupport.Mhi.Event

structure Info where
  cbBuf : Nat
  used : Bool
  deriving Inhabited

/-- `struct mhi_chan`.  `rsc` stands for the type `MHI_XFER_RSC_DMA`, and `completion` counts the
calls of `complete`. -/
structure EvChan where
  rsc : Bool
  treRing : MhiRing
  bufRing : MhiRing
  infos : Nat → Info
  chState : ChState
  ccs : UInt32
  completion : Nat

/-- The channels below `max_chan`, and the command ring with its elements. -/
structure State where
  chans : Nat → EvChan
  cmdRing : MhiRing
  cmds : Nat → Tre

/-- The configuration of the channels in use, with those that are RSC. -/
structure Config where
  maxChan : Nat
  chans : Nat → Option (Bool × ChanCfg)
  cmdBase : Nat
  cmdIommuBase : Nat
  maxChan_pos : 0 < maxChan
  maxChan_le : maxChan ≤ 256

def cmdElPerRing : Nat := 128

def IsElement (r : MhiRing) (addr : Nat) : Prop :=
  ∃ j < r.len / r.elSize, addr = r.base + j * r.elSize

instance (r : MhiRing) (addr : Nat) : Decidable (IsElement r addr) :=
  inferInstanceAs (Decidable (∃ j < r.len / r.elSize, addr = r.base + j * r.elSize))

/-- The element `info` is one of those from `rp` up to `wp` of the transfer ring. -/
def Outstanding (ch : EvChan) (info : Nat) : Prop :=
  ∃ k < ch.treRing.outstanding, info = ch.treRing.index (ch.treRing.next^[k] ch.treRing.rp)

instance (ch : EvChan) (info : Nat) : Decidable (Outstanding ch info) :=
  inferInstanceAs (Decidable (∃ k < ch.treRing.outstanding,
    info = ch.treRing.index (ch.treRing.next^[k] ch.treRing.rp)))

def pktTypeCmdCompletion : UInt32 := 0x21

def pktTypeTx : UInt32 := 0x22

def pktTypeRscTx : UInt32 := 0x28

def cmdTypeReset : UInt32 := 16

def cmdTypeStart : UInt32 := 18

def cmdTypeTsync : UInt32 := 24

def cookie (event : Tre) : Nat := event.ptr.toNat % 2 ^ 32

def Names (ch : EvChan) (event : Tre) : Prop :=
  if event.evType = pktTypeTx then ch.treRing.Names event.ptr.toNat
  else ∃ info, Outstanding ch info ∧ cookie event = info * ch.bufRing.elSize

/-- What an event makes the driver do: an index into `mhi_chan`, the elements read, `xfer_cb` with
the element of its buffer, and the channel left behind by a transfer event.  `found` is the
channel at the start of the event, and `ch` the one at the act. -/
inductive Act where
  | index (chan : Nat)
  | readCmd (ring : MhiRing) (addr : Nat)
  | readInfo (ring : MhiRing) (addr : Nat)
  | xferCb (event : Tre) (found ch : EvChan) (info : Nat) (result : Result)
  | handled (event : Tre) (found left : EvChan)

/-- What is safe.  An event that names no outstanding element calls no `xfer_cb` and leaves both
rings as they were. -/
def Act.Safe (c : Config) : Act → Prop
  | .index chan => chan < c.maxChan
  | .readCmd ring addr => IsElement ring addr
  | .readInfo ring addr => IsElement ring addr
  | .xferCb event found ch info _ => Names found event ∧ Outstanding ch info
  | .handled event found left =>
    Names found event ∨ left.treRing = found.treRing ∧ left.bufRing = found.bufRing

/-- A buffer that is queued, by `xfer_cb` too. -/
def enqueue (ch : EvChan) (buf : Nat) : EvChan :=
  if ch.treRing.isRingFull then ch
  else
    { ch with
      infos := Function.update ch.infos (ch.bufRing.index ch.bufRing.wp) ⟨buf, ch.rsc⟩
      treRing := ch.treRing.addRingElement
      bufRing := ch.bufRing.addRingElement }

/-- The loop of `parse_xfer_event`, with what the calls of `xfer_cb` queue, or `none` when it takes
more rounds than `fuel`. -/
def xferLoop (event : Tre) (found : EvChan) (devRp : Nat) (status : Option Errno) :
    Nat → List (List Nat) → EvChan → Option (List Act × EvChan)
  | 0, _, _ => none
  | fuel + 1, requeued, ch =>
    if ch.treRing.rp = devRp then some ([], ch)
    else
      let info := ch.bufRing.index ch.bufRing.rp
      let result : Result := ⟨status, event.evLen.toNat, (ch.infos info).cbBuf⟩
      let left := { ch with
        treRing := ch.treRing.delRingElement, bufRing := ch.bufRing.delRingElement }
      (xferLoop event found devRp status fuel requeued.tail
        (requeued.headD [] |>.foldl enqueue left)).map fun x =>
          (.xferCb event found ch info result :: x.1, x.2)

def parseXferEvent (fuel : Nat) (ch : EvChan) (event : Tre) (requeued : List (List Nat)) :
    Option (List Act × EvChan) :=
  if ch.chState ≠ .enabled then some ([], ch)
  else if event.evCode ∈ xferCodes then
    let status := if event.evCode = evCcOverflow then some .eoverflow else none
    let devRp := ch.treRing.next (ch.treRing.toVirtual event.ptr.toNat)
    xferLoop event ch devRp status fuel requeued ch
  else some ([], ch)

def parseRscEvent (ch : EvChan) (event : Tre) (requeued : List (List Nat)) : List Act × EvChan :=
  let addr := ch.bufRing.base + cookie event
  let read := Act.readInfo ch.bufRing addr
  let info := ch.bufRing.index addr
  let status := if event.evCode = evCcOverflow then some .eoverflow else none
  let result : Result := ⟨status, event.evLen.toNat, (ch.infos info).cbBuf⟩
  if ¬IsElement ch.bufRing addr then ([read], ch)
  else if ch.chState ≠ .enabled then ([read], ch)
  else
    let left := requeued.headD [] |>.foldl enqueue ch
    ([read, .xferCb event ch ch info result],
      { left with
        treRing := left.treRing.delRingElement
        infos := Function.update left.infos info { left.infos info with used := false } })

def processCmdCompletion (c : Config) (s : State) (event : Tre) : List Act × State :=
  let addr := s.cmdRing.toVirtual event.ptr.toNat
  let read := Act.readCmd s.cmdRing addr
  if ¬IsElement s.cmdRing addr then ([read], s)
  else
    let cmdPkt := s.cmds (s.cmdRing.index addr)
    if cmdPkt.cmdType = cmdTypeTsync then
      ([read], { s with cmdRing := s.cmdRing.delRingElement })
    else
      let chan := cmdPkt.cmdChid.toNat
      if c.maxChan ≤ chan then ([read, .index chan], s)
      else
        let ch := s.chans chan
        ([read, .index chan],
          { s with
            chans := Function.update s.chans chan
              { ch with ccs := event.evCode, completion := ch.completion + 1 }
            cmdRing := s.cmdRing.delRingElement })

inductive EventRing where
  | data
  | ctrl
  deriving DecidableEq

/-- An event, with what the calls of `xfer_cb` queue. -/
structure Delivery where
  event : Tre
  requeued : List (List Nat)

def parseTransfer (fuel : Nat) (ch : EvChan) (d : Delivery) : Option (List Act × EvChan) :=
  if d.event.evType = pktTypeTx then parseXferEvent fuel ch d.event d.requeued
  else if d.event.evType = pktTypeRscTx then some (parseRscEvent ch d.event d.requeued)
  else some ([], ch)

def transferEvent (c : Config) (fuel : Nat) (s : State) (d : Delivery) :
    Option (List Act × State) :=
  let chan := d.event.evChid.toNat
  if c.maxChan ≤ chan then some ([.index chan], s)
  else
    (parseTransfer fuel (s.chans chan) d).map fun x =>
      (.index chan :: (x.1 ++ [.handled d.event (s.chans chan) x.2]),
        { s with chans := Function.update s.chans chan x.2 })

/-- A round of `mhi_process_data_event_ring`, which looks up the channel of every event, or of
`mhi_process_ctrl_ev_ring`, whose other events change none of this. -/
def processEvent (c : Config) (ring : EventRing) (fuel : Nat) (s : State) (d : Delivery) :
    Option (List Act × State) :=
  match ring with
  | .data => transferEvent c fuel s d
  | .ctrl =>
    if d.event.evType = pktTypeCmdCompletion then some (processCmdCompletion c s d.event)
    else if d.event.evType = pktTypeTx ∨ d.event.evType = pktTypeRscTx then
      transferEvent c fuel s d
    else some ([], s)

/-- What an event takes off `event_quota`, which is not a limit for the control ring. -/
def EventRing.cost (ring : EventRing) (d : Delivery) : Nat :=
  match ring with
  | .data => if d.event.evType = pktTypeTx ∨ d.event.evType = pktTypeRscTx then 1 else 0
  | .ctrl => 0

/-- The loop of both functions, on the events up to `dev_rp`. -/
def processEventRing (c : Config) (ring : EventRing) (fuel : Nat) :
    Nat → List Delivery → State → Option (List Act × State)
  | _, [], s => some ([], s)
  | quota, d :: ds, s =>
    if ring = .data ∧ quota = 0 then some ([], s)
    else do
      let x ← processEvent c ring fuel s d
      let y ← processEventRing c ring fuel (quota - ring.cost d) ds x.2
      return (x.1 ++ y.1, y.2)

def processDataEventRing (c : Config) : Nat → Nat → List Delivery → State →
    Option (List Act × State) :=
  processEventRing c .data

def processCtrlEvRing (c : Config) : Nat → Nat → List Delivery → State →
    Option (List Act × State) :=
  processEventRing c .ctrl

def sendCmd (s : State) (type : UInt32) (chan : Nat) : State :=
  if s.cmdRing.getNrAvailRingElements = 0 then s
  else
    { s with
      cmds := Function.update s.cmds (s.cmdRing.index s.cmdRing.wp)
        ⟨0, 0, (UInt32.ofNat chan <<< (24 : UInt32)) ||| (type <<< (16 : UInt32))⟩
      cmdRing := s.cmdRing.addRingElement }

inductive Label where
  | events (ring : EventRing) (fuel quota : Nat) (ds : List Delivery)
  | enqueue (chan buf : Nat)
  | startChan (chan : Nat)
  | resetChan (chan : Nat)
  | tsyncCfg (er : Nat)
  | chState (chan : Nat) (st : ChState)

def step (c : Config) (s : State) : Label → Option State
  | .events .data fuel quota ds => (processDataEventRing c fuel quota ds s).map Prod.snd
  | .events .ctrl fuel quota ds => (processCtrlEvRing c fuel quota ds s).map Prod.snd
  | .enqueue chan buf =>
    if (c.chans chan).isSome then
      some { s with chans := Function.update s.chans chan (enqueue (s.chans chan) buf) }
    else none
  | .startChan chan => if chan < c.maxChan then some (sendCmd s cmdTypeStart chan) else none
  | .resetChan chan => if chan < c.maxChan then some (sendCmd s cmdTypeReset chan) else none
  | .tsyncCfg er => if er < 256 then some (sendCmd s cmdTypeTsync er) else none
  | .chState chan st =>
    if (c.chans chan).isSome then
      some { s with chans := Function.update s.chans chan { s.chans chan with chState := st } }
    else none

def noRing : MhiRing := ⟨0, 0, 0, 0, 0, 0⟩

def init (c : Config) : State where
  chans i :=
    match c.chans i with
    | some (rsc, cfg) =>
      { rsc := rsc, treRing := (chanInit cfg).treRing, bufRing := (chanInit cfg).bufRing
        infos := fun _ => default, chState := .disabled, ccs := 0, completion := 0 }
    | none =>
      { rsc := false, treRing := noRing, bufRing := noRing
        infos := fun _ => default, chState := .disabled, ccs := 0, completion := 0 }
  cmdRing :=
    { iommuBase := c.cmdIommuBase, base := c.cmdBase, rp := c.cmdBase, wp := c.cmdBase
      elSize := sizeofMhiTre, len := sizeofMhiTre * cmdElPerRing }
  cmds _ := default

/-- A transfer event of a channel in use names an element that is outstanding, by a pointer where
the channel is not RSC and by a cookie where it is; or its element is the one completed last. -/
def TransferOk (ch : EvChan) (event : Tre) : Prop :=
  if event.evType = pktTypeTx then
    ch.chState = .enabled → event.evCode ∈ xferCodes → ch.rsc = false ∧
      (Names ch event ∨ ch.treRing.next (ch.treRing.toVirtual event.ptr.toNat) = ch.treRing.rp)
  else if event.evType = pktTypeRscTx then
    IsElement ch.bufRing (ch.bufRing.base + cookie event) ∧
      (ch.chState = .enabled → ch.rsc = true ∧ Names ch event)
  else True

/-- A command completion names an element of the command ring, and the other events that are
looked at name a channel below `max_chan`. -/
def EventOk (c : Config) (ring : EventRing) (s : State) (event : Tre) : Prop :=
  match ring with
  | .data => event.evChid.toNat < c.maxChan ∧ TransferOk (s.chans event.evChid.toNat) event
  | .ctrl =>
    if event.evType = pktTypeCmdCompletion then
      IsElement s.cmdRing (s.cmdRing.toVirtual event.ptr.toNat)
    else if event.evType = pktTypeTx ∨ event.evType = pktTypeRscTx then
      event.evChid.toNat < c.maxChan ∧ TransferOk (s.chans event.evChid.toNat) event
    else True

def EventsOk (c : Config) (ring : EventRing) (fuel : Nat) : Nat → List Delivery → State → Prop
  | _, [], _ => True
  | quota, d :: ds, s =>
    if ring = .data ∧ quota = 0 then True
    else
      EventOk c ring s d.event ∧ ∀ x ∈ processEvent c ring fuel s d,
        EventsOk c ring fuel (quota - ring.cost d) ds x.2

instance (ch : EvChan) (event : Tre) : Decidable (Names ch event) :=
  decidable_of_iff
    (if event.evType = pktTypeTx then ch.treRing.Names event.ptr.toNat
      else ∃ k < ch.treRing.outstanding, cookie event =
        ch.treRing.index (ch.treRing.next^[k] ch.treRing.rp) * ch.bufRing.elSize)
    (by
      unfold Names Outstanding
      split
      · rfl
      · constructor
        · rintro ⟨k, hk, heq⟩
          exact ⟨_, ⟨k, hk, rfl⟩, heq⟩
        · rintro ⟨_, ⟨k, hk, rfl⟩, heq⟩
          exact ⟨k, hk, heq⟩)

instance (ch : EvChan) (event : Tre) : Decidable (TransferOk ch event) := by
  unfold TransferOk
  infer_instance

instance (c : Config) (ring : EventRing) (s : State) (event : Tre) :
    Decidable (EventOk c ring s event) :=
  match ring with
  | .data => inferInstanceAs (Decidable (_ ∧ _))
  | .ctrl => by
    unfold EventOk
    infer_instance

instance decidableEventsOk (c : Config) (ring : EventRing) (fuel : Nat) :
    ∀ quota ds s, Decidable (EventsOk c ring fuel quota ds s)
  | _, [], _ => isTrue trivial
  | quota, d :: ds, s =>
    have := fun x : List Act × State =>
      decidableEventsOk c ring fuel (quota - ring.cost d) ds x.2
    inferInstanceAs (Decidable (if ring = .data ∧ quota = 0 then True
      else EventOk c ring s d.event ∧ ∀ x ∈ processEvent c ring fuel s d,
        EventsOk c ring fuel (quota - ring.cost d) ds x.2))

end ModemSupport.Mhi.Event
