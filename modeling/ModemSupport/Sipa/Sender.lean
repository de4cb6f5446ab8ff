import ModemSupport.Sipa.Fifo
import ModemSupport.Lib.Transition

/-! The sender of the SIPA data path (`sipa_skb_send.c`): `sipa_skb_sender_send_data` posts a packet
for each credit, the modem takes the descriptors and gives them back in any order, and
`sipa_free_sent_items`, in the only `sipa-free` thread, frees the packets and returns the credits.
Each part of `sipa_free_sent_items` between two accesses to what others write is a step of its
own. -/

namespace ModemSupport.Sipa

open ModemSupport.Lib

inductive Evt where
  | enterFlowctrl
  | leaveFlowctrl

structure Nic where
  flowCtrlStatus : Bool
  evts : List Evt

def sipaNicNotifyEvt (nic : Nic) (evt : Evt) : Nic := { nic with evts := nic.evts ++ [evt] }

structure SkbDmaAddrNode where
  skb : Option Skb
  dmaAddr : UInt64
  deriving DecidableEq

/-- The part of `struct sipa_skb_sender` that `send_lock` protects: the lists hold indices of
`pair_cache`. -/
structure Queue where
  leftCnt : Nat
  sendingList : List Nat
  pairFreeList : List Nat
  pairCache : Nat → SkbDmaAddrNode

/-- The flow control part of `struct sipa_skb_sender`; `nicLock` is set while `nic_lock` is
held. -/
structure Flow where
  nicLock : Bool
  nicList : List Nic
  freeNotifyNet : Bool
  epCoverNet : Bool
  noFreeCnt : Nat
  enterFlowCtrlCnt : Nat
  exitFlowCtrlCnt : Nat

/-- The locals of the loop of `sipa_free_sent_items`. -/
structure Scan where
  num : Nat
  i : Nat
  successCnt : Nat
  failedCnt : Nat
  deriving DecidableEq

/-- Where `sipa_free_sent_items` stands: at `check_again`, before `dma_unmap_single` of the node
`iter`, before `set_tx_fifo_rp`, before `atomic_add`, at `sipa_free_end`, at the test of
`ep_cover_net`, and before the call that leaves flow control. -/
inductive Pass where
  | idle
  | check (l : Scan) (retryCnt : Nat)
  | release (l : Scan) (iter : Nat)
  | ack (l : Scan)
  | credit (successCnt : Nat)
  | freeEnd
  | cover (exitFlow : Bool)
  | leave
  deriving DecidableEq

/-- What happened so far: the packets accepted and freed, the mappings undone, the descriptors
posted and those back in the tx FIFO, how many of the first the modem took and how many of the
second were acknowledged, and how many were back when the last `sipa_free_sent_items` began. -/
structure History where
  accepted : List Skb
  posted : List Node
  fetched : Nat
  consumed : List Node
  acked : Nat
  seen : Nat
  freed : List Skb
  unmapped : List (UInt64 × Nat)

/-- `held` are the descriptors that the modem has taken and not given back. -/
structure State where
  queue : Queue
  flow : Flow
  fifo : FifoCfg
  pass : Pass
  held : List Node
  hist : History

/-- The send FIFO of depth `2 ^ order` and what `create_sipa_skb_sender` finds. -/
structure Config where
  order : Nat
  pcieMemOffset : UInt64
  nics : Nat
  order_le : order ≤ 15

def Config.depth (c : Config) : Nat := 2 ^ c.order

/-- The FIFO that `sipa_parse_dts_configuration` sets up, with one network interface. -/
def Config.built : Config where
  order := 12
  pcieMemOffset := 0x200000000
  nics := 1
  order_le := by decide

/-- The state after `create_sipa_skb_sender` and `ipa_common_fifo_hal_open`. -/
def init (c : Config) : State where
  queue :=
    { leftCnt := c.depth / 4 * 3, sendingList := [], pairFreeList := List.range c.depth
      pairCache := fun _ => ⟨none, 0⟩ }
  flow := ⟨false, List.replicate c.nics ⟨false, []⟩, false, false, 0, 0, 0⟩
  fifo :=
    { rxFifo := ⟨c.depth, 0, 0, fun _ => default⟩, txFifo := ⟨c.depth, 0, 0, fun _ => default⟩
      cur := 0x10, rxWptr := 0, rxRptr := 0, txWptr := 0, txRptr := 0 }
  pass := .idle
  held := []
  hist := ⟨[], [], 0, [], 0, 0, [], []⟩

def intEnterFlowCtrlSts : UInt32 := 0x80000

def intExitFlowCtrlSts : UInt32 := 0x100000

def recvWarnEvt : UInt32 := 0x60000

/-- `sipa_inform_evt_to_nics`, or `none` when it waits for `nic_lock` for ever.  The early returns
leave the lock held. -/
def sipaInformEvtToNics (f : Flow) (evt : Evt) : Option Flow :=
  if f.nicLock then none
  else
    match evt with
    | .leaveFlowctrl =>
      if f.freeNotifyNet then some { f with nicLock := true }
      else if f.epCoverNet then some { f with nicLock := true }
      else some { f with
        nicList := f.nicList.map fun nic =>
          if nic.flowCtrlStatus then sipaNicNotifyEvt { nic with flowCtrlStatus := false } evt
          else nic }
    | .enterFlowctrl =>
      some { f with
        nicList := f.nicList.map fun nic =>
          if nic.flowCtrlStatus then nic
          else sipaNicNotifyEvt { nic with flowCtrlStatus := true } evt }

def notifyEnter (f : Flow) (evt : UInt32) : Option Flow :=
  if evt &&& intEnterFlowCtrlSts ≠ 0 then
    sipaInformEvtToNics
      { f with enterFlowCtrlCnt := f.enterFlowCtrlCnt + 1, epCoverNet := true } .enterFlowctrl
  else some f

def notifyExit (f : Flow) (evt : UInt32) : Option Flow :=
  if evt &&& intExitFlowCtrlSts ≠ 0 then
    sipaInformEvtToNics
      { f with exitFlowCtrlCnt := f.exitFlowCtrlCnt + 1, epCoverNet := false } .leaveFlowctrl
  else some f

def sipaSenderNotifyCb (f : Flow) (evt : UInt32) : Option Flow :=
  let noFreeCnt := if evt &&& recvWarnEvt ≠ 0 then f.noFreeCnt + 1 else f.noFreeCnt
  (notifyEnter { f with noFreeCnt := noFreeCnt } evt).bind fun f => notifyExit f evt

def refuse (s : State) (f : Flow) : Option (Except Errno Unit × State) :=
  (sipaInformEvtToNics f .enterFlowctrl).map fun f => (.error .eagain, { s with flow := f })

def des (s : State) (skb : Skb) (dst : BitVec 5) (netid : UInt8) (dmaAddr : UInt64) : Node where
  address := dmaAddr.toBitVec.setWidth 40
  length := BitVec.ofNat 20 skb.len
  offset := BitVec.ofNat 12 skb.headroom
  netId := netid
  src := s.fifo.cur
  dst := dst
  intr := false
  errCode := 0
  skb := skb

/-- `node` is the first of `pair_free_list`, and `index` the slot of the descriptor. -/
def post (s : State) (skb : Skb) (dmaAddr : UInt64) (des : Node) (index node : Nat) : State :=
  { s with
    queue :=
      { leftCnt := s.queue.leftCnt - 1
        sendingList := s.queue.sendingList ++ [node]
        pairFreeList := s.queue.pairFreeList.tail
        pairCache := Function.update s.queue.pairCache node ⟨some skb, dmaAddr⟩ }
    fifo := ((s.fifo.write index des).setRxFifoWr 1).2
    hist := { s.hist with
      accepted := s.hist.accepted ++ [skb]
      posted := s.hist.posted ++ [des] } }

/-- `sipa_skb_sender_send_data`, with the interrupt status it reads and the address that
`dma_map_single` gives, `none` for a mapping error.  It is `none` itself where it waits for
`nic_lock` or goes through a null pointer. -/
def sipaSkbSenderSendData (c : Config) (s : State) (skb : Skb) (dst : BitVec 5) (netid : UInt8)
    (intStatus : UInt32) (dma : Option UInt64) : Option (Except Errno Unit × State) :=
  if s.flow.epCoverNet then some (.error .eagain, s)
  else if intStatus = 0x5FF000 then some (.error .einprogress, s)
  else if intStatus &&& intEnterFlowCtrlSts ≠ 0 then
    refuse s { s.flow with epCoverNet := true, enterFlowCtrlCnt := s.flow.enterFlowCtrlCnt + 1 }
  else if s.flow.freeNotifyNet then some (.error .eagain, s)
  else if s.queue.leftCnt = 0 then
    refuse s { s.flow with noFreeCnt := s.flow.noFreeCnt + 1, freeNotifyNet := true }
  else
    match dma with
    | none => refuse s { s.flow with freeNotifyNet := true }
    | some dmaAddr =>
      let dmaAddr := dmaAddr + c.pcieMemOffset
      match s.fifo.getRxFifoWr 0, s.queue.pairFreeList with
      | some index, node :: _ =>
        some (.ok (), post s skb dmaAddr (des s skb dst netid dmaAddr) index node)
      | _, _ => none

def Scan.next (l : Scan) : Pass :=
  if l.i + 1 < l.num then .check { l with i := l.i + 1 } 10 else .ack { l with i := l.i + 1 }

def freeSentItems (s : State) : Option State :=
  match s.pass with
  | .idle =>
    let num := s.fifo.recvNodeFromTxFifo
    some { s with
      pass := if 0 < num then .check ⟨num, 0, 0, 0⟩ 10 else .ack ⟨num, 0, 0, 0⟩
      hist := { s.hist with seen := s.hist.consumed.length } }
  | _ => none

def check (s : State) (l : Scan) (retryCnt : Nat) : State :=
  let node := s.fifo.getTxFifoRp l.i
  if s.queue.sendingList = [] then { s with pass := .freeEnd }
  else
    match s.queue.sendingList.find? fun iter =>
        (s.queue.pairCache iter).dmaAddr = node.dmaAddr with
    | some iter =>
      { s with
        queue := { s.queue with
          sendingList := s.queue.sendingList.erase iter
          pairFreeList := s.queue.pairFreeList ++ [iter] }
        pass := .release l iter }
    | none =>
      if retryCnt ≠ 0 then { s with pass := .check l (retryCnt - 1) }
      else { s with pass := { l with failedCnt := l.failedCnt + 1 }.next }

def release (c : Config) (s : State) (l : Scan) (iter : Nat) : Option State :=
  let node := s.queue.pairCache iter
  node.skb.map fun skb =>
    { s with
      pass := { l with successCnt := l.successCnt + 1 }.next
      hist := { s.hist with
        freed := s.hist.freed ++ [skb]
        unmapped := s.hist.unmapped ++
          [(node.dmaAddr - c.pcieMemOffset, skb.len + skb.headroom)] } }

def passStep (c : Config) (s : State) (intStatus : UInt32) : Option State :=
  match s.pass with
  | .idle => none
  | .check l retryCnt => some (check s l retryCnt)
  | .release l iter => release c s l iter
  | .ack l =>
    some { s with
      fifo := (s.fifo.setTxFifoRp l.i).2
      pass := .credit l.successCnt
      hist := { s.hist with acked := s.hist.acked + l.i } }
  | .credit successCnt =>
    some { s with
      queue := { s.queue with leftCnt := s.queue.leftCnt + successCnt }
      pass := .freeEnd }
  | .freeEnd =>
    if s.flow.freeNotifyNet ∧ s.queue.leftCnt > s.fifo.rxFifo.depth / 4 then
      some { s with flow := { s.flow with freeNotifyNet := false }, pass := .cover true }
    else some { s with pass := .cover false }
  | .cover exitFlow =>
    if s.flow.epCoverNet ∧ intStatus &&& intExitFlowCtrlSts ≠ 0 then
      some { s with flow := { s.flow with epCoverNet := false }, pass := .leave }
    else some { s with pass := if exitFlow then .leave else .idle }
  | .leave =>
    (sipaInformEvtToNics s.flow .leaveFlowctrl).map fun f => { s with flow := f, pass := .idle }

/-- The calls of the host and the steps of the modem: `fetch` takes a descriptor off the rx FIFO,
and `complete k` puts one that it holds on the tx FIFO. -/
inductive Label where
  | sendData (skb : Skb) (dst : BitVec 5) (netid : UInt8) (intStatus : UInt32)
      (dma : Option UInt64)
  | notifyCb (evt : UInt32)
  | freeSentItems
  | pass (intStatus : UInt32)
  | fetch
  | complete (k : Nat) (errCode : BitVec 4)

def deviceFetch (s : State) : Option State :=
  s.fifo.fetch.map fun (node, f) =>
    { s with
      fifo := f
      held := s.held ++ [node]
      hist := { s.hist with fetched := s.hist.fetched + 1 } }

def deviceComplete (s : State) (k : Nat) (errCode : BitVec 4) : Option State := do
  let node ← s.held[k]?
  let f ← s.fifo.complete { node with errCode := errCode }
  some { s with
    fifo := f
    held := s.held.eraseIdx k
    hist := { s.hist with consumed := s.hist.consumed ++ [{ node with errCode := errCode }] } }

def step (c : Config) (s : State) : Label → Option State
  | .sendData skb dst netid intStatus dma =>
    (sipaSkbSenderSendData c s skb dst netid intStatus dma).map Prod.snd
  | .notifyCb evt => (sipaSenderNotifyCb s.flow evt).map fun f => { s with flow := f }
  | .freeSentItems => freeSentItems s
  | .pass intStatus => passStep c s intStatus
  | .fetch => deviceFetch s
  | .complete k errCode => deviceComplete s k errCode

def Pass.AtEnd : Pass → Prop
  | .idle | .freeEnd | .cover _ | .leave => True
  | _ => False

/-- The steps: of flow control alone, and each that changes a list, a pointer or the credit. -/
inductive Move (c : Config) (s : State) : Label → State → Prop
  | flow {l : Label} (f : Flow) : Move c s l { s with flow := f }
  | atEnd {l : Label} (f : Flow) {p : Pass} : s.pass.AtEnd → p.AtEnd →
      Move c s l { s with flow := f, pass := p }
  | post {skb : Skb} {dst : BitVec 5} {netid : UInt8} {intStatus : UInt32} {a : UInt64}
      {index node : Nat} {rest : List Nat} : s.queue.leftCnt ≠ 0 →
      s.fifo.getRxFifoWr 0 = some index → s.queue.pairFreeList = node :: rest →
      Move c s (.sendData skb dst netid intStatus (some a))
        (post s skb (a + c.pcieMemOffset) (des s skb dst netid (a + c.pcieMemOffset)) index node)
  | start {l : Label} {p : Pass} : s.pass = .idle →
      p = (if 0 < s.fifo.txFilled then .check ⟨s.fifo.txFilled, 0, 0, 0⟩ 10
        else .ack ⟨s.fifo.txFilled, 0, 0, 0⟩) →
      Move c s l { s with
        pass := p, hist := { s.hist with seen := s.hist.consumed.length } }
  | empty {l : Label} {m : Scan} {retryCnt : Nat} : s.pass = .check m retryCnt →
      s.queue.sendingList = [] → Move c s l { s with pass := .freeEnd }
  | found {l : Label} {m : Scan} {retryCnt iter : Nat} : s.pass = .check m retryCnt →
      iter ∈ s.queue.sendingList →
      (s.queue.pairCache iter).dmaAddr = (s.fifo.getTxFifoRp m.i).dmaAddr →
      Move c s l { s with
        queue := { s.queue with
          sendingList := s.queue.sendingList.erase iter
          pairFreeList := s.queue.pairFreeList ++ [iter] }
        pass := .release m iter }
  | missed {l : Label} {m : Scan} {retryCnt : Nat} {p : Pass} : s.pass = .check m retryCnt →
      (∀ iter ∈ s.queue.sendingList,
        (s.queue.pairCache iter).dmaAddr ≠ (s.fifo.getTxFifoRp m.i).dmaAddr) →
      p = .check m (retryCnt - 1) ∨ p = Scan.next { m with failedCnt := m.failedCnt + 1 } →
      Move c s l { s with pass := p }
  | release {l : Label} {m : Scan} {iter : Nat} {skb : Skb} : s.pass = .release m iter →
      (s.queue.pairCache iter).skb = some skb →
      Move c s l { s with
        pass := Scan.next { m with successCnt := m.successCnt + 1 }
        hist := { s.hist with
          freed := s.hist.freed ++ [skb]
          unmapped := s.hist.unmapped ++
            [((s.queue.pairCache iter).dmaAddr - c.pcieMemOffset, skb.len + skb.headroom)] } }
  | ack {l : Label} {m : Scan} : s.pass = .ack m →
      Move c s l { s with
        fifo := (s.fifo.setTxFifoRp m.i).2
        pass := .credit m.successCnt
        hist := { s.hist with acked := s.hist.acked + m.i } }
  | credit {l : Label} {n : Nat} : s.pass = .credit n →
      Move c s l { s with
        queue := { s.queue with leftCnt := s.queue.leftCnt + n }, pass := .freeEnd }
  | fetch {l : Label} {node : Node} {f : FifoCfg} : s.fifo.fetch = some (node, f) →
      Move c s l { s with
        fifo := f, held := s.held ++ [node]
        hist := { s.hist with fetched := s.hist.fetched + 1 } }
  | complete {l : Label} {k : Nat} {node : Node} {errCode : BitVec 4} {f : FifoCfg} :
      s.held[k]? = some node → s.fifo.complete { node with errCode := errCode } = some f →
      Move c s l { s with
        fifo := f, held := s.held.eraseIdx k
        hist := { s.hist with consumed := s.hist.consumed ++ [{ node with errCode := errCode }] } }

section

variable {c : Config} {s t : State} {l : Label}

theorem move_refuse {f : Flow} {r : Except Errno Unit} (h : refuse s f = some (r, t)) :
    Move c s l t := by
  obtain ⟨g, _, heq⟩ := Option.map_eq_some_iff.mp h
  cases heq
  exact .flow g

theorem move_sendData {skb : Skb} {dst : BitVec 5} {netid : UInt8} {intStatus : UInt32}
    {dma : Option UInt64} {r : Except Errno Unit}
    (h : sipaSkbSenderSendData c s skb dst netid intStatus dma = some (r, t)) :
    Move c s (.sendData skb dst netid intStatus dma) t := by
  unfold sipaSkbSenderSendData at h
  by_cases hcover : s.flow.epCoverNet = true
  · rw [if_pos hcover] at h
    cases h
    exact .flow s.flow
  rw [if_neg hcover] at h
  by_cases hdown : intStatus = 0x5FF000
  · rw [if_pos hdown] at h
    cases h
    exact .flow s.flow
  rw [if_neg hdown] at h
  by_cases henter : intStatus &&& intEnterFlowCtrlSts ≠ 0
  · rw [if_pos henter] at h
    exact move_refuse h
  rw [if_neg henter] at h
  by_cases hnotify : s.flow.freeNotifyNet = true
  · rw [if_pos hnotify] at h
    cases h
    exact .flow s.flow
  rw [if_neg hnotify] at h
  by_cases hleft : s.queue.leftCnt = 0
  · rw [if_pos hleft] at h
    exact move_refuse h
  rw [if_neg hleft] at h
  cases dma with
  | none => exact move_refuse h
  | some a =>
    dsimp only at h
    split at h
    next index node rest hindex hnode =>
      cases h
      exact .post hleft hindex hnode
    next => cases h

theorem move_check {m : Scan} {retryCnt : Nat} (hp : s.pass = .check m retryCnt) :
    Move c s l (check s m retryCnt) := by
  unfold check
  dsimp only
  split
  next hempty => exact .empty hp hempty
  next =>
    split
    next iter hfind =>
      exact .found hp (List.mem_of_find?_eq_some hfind) (by simpa using List.find?_some hfind)
    next hnone =>
      have hmiss := List.find?_eq_none.mp hnone
      split
      next => exact .missed hp (by simpa using hmiss) (.inl rfl)
      next => exact .missed hp (by simpa using hmiss) (.inr rfl)

theorem move_pass {intStatus : UInt32} (h : passStep c s intStatus = some t) : Move c s l t := by
  unfold passStep at h
  cases hp : s.pass with
  | idle => simp [hp] at h
  | check m retryCnt =>
    rw [hp] at h
    cases h
    exact move_check hp
  | release m iter =>
    rw [hp] at h
    obtain ⟨skb, hskb, heq⟩ := Option.map_eq_some_iff.mp h
    cases heq
    exact .release hp hskb
  | ack m =>
    rw [hp] at h
    cases h
    exact .ack hp
  | credit n =>
    rw [hp] at h
    cases h
    exact .credit hp
  | freeEnd =>
    have hend : s.pass.AtEnd := by rw [hp]; trivial
    rw [hp] at h
    dsimp only at h
    split at h
    all_goals
      cases h
      exact .atEnd _ hend trivial
  | cover exitFlow =>
    have hend : s.pass.AtEnd := by rw [hp]; trivial
    rw [hp] at h
    dsimp only at h
    split at h
    · cases h
      exact .atEnd _ hend trivial
    · cases h
      exact .atEnd _ hend (by cases exitFlow <;> trivial)
  | leave =>
    have hend : s.pass.AtEnd := by rw [hp]; trivial
    rw [hp] at h
    obtain ⟨f, _, heq⟩ := Option.map_eq_some_iff.mp h
    cases heq
    exact .atEnd f hend trivial

theorem move_of_step (h : step c s l = some t) : Move c s l t := by
  cases l with
  | sendData skb dst netid intStatus dma =>
    obtain ⟨x, hx, rfl⟩ := Option.map_eq_some_iff.mp h
    exact move_sendData hx
  | notifyCb evt =>
    obtain ⟨f, _, rfl⟩ := Option.map_eq_some_iff.mp h
    exact .flow f
  | freeSentItems =>
    change freeSentItems s = some t at h
    unfold freeSentItems at h
    split at h
    next hp =>
      cases h
      exact .start hp rfl
    next => cases h
  | pass intStatus => exact move_pass h
  | fetch =>
    obtain ⟨x, hx, rfl⟩ := Option.map_eq_some_iff.mp h
    exact .fetch hx
  | complete k errCode =>
    change deviceComplete s k errCode = some t at h
    unfold deviceComplete at h
    simp only [Option.bind_eq_bind, Option.bind_eq_some_iff] at h
    obtain ⟨node, hnode, f, hf, heq⟩ := h
    cases heq
    exact .complete hnode hf

end

end ModemSupport.Sipa
