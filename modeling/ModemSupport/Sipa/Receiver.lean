import ModemSupport.Sipa.Sender

/-! The receiver of the SIPA data path (`sipa_skb_recv.c` and the poll handler of `sipa_dummy.c`):
the `sipa-fill` thread posts buffers to the rx FIFO and notes them in `recv_array`, the modem fills
them in order, and the poll handler takes each off `recv_array` beside its node of the tx FIFO.  The
thread and the handler take a step for each access to what the other one writes. -/

namespace ModemSupport.Sipa.Receiver

open ModemSupport.Lib

structure SkbArray where
  array : Nat → SkbDmaAddrNode
  rp : UInt32
  wp : UInt32
  depth : UInt32

def SkbArray.pos (p : SkbArray) (x : UInt32) : Nat := (x &&& (p.depth - 1)).toNat

/-- `put_recv_array_node`, or `none` for -1. -/
def SkbArray.put (p : SkbArray) (skb : Skb) (dmaAddr : UInt64) : Option SkbArray :=
  if p.wp - p.rp < p.depth then
    some { p with
      array := Function.update p.array (p.pos p.wp) ⟨some skb, dmaAddr⟩
      wp := p.wp + 1 }
  else none

/-- `get_recv_array_node`, or `none` for -1. -/
def SkbArray.get (p : SkbArray) : Option (SkbDmaAddrNode × SkbArray) :=
  if p.rp ≠ p.wp then some (p.array (p.pos p.rp), { p with rp := p.rp + 1 }) else none

def SkbArray.entries (p : SkbArray) : List SkbDmaAddrNode := Ring.window p.pos p.array p.rp p.wp

section

variable {p : SkbArray} {k : Nat}

theorem SkbArray.pos_eq (hdepth : p.depth.toNat = 2 ^ k) : p.pos = Ring.modSlot (2 ^ k) := by
  funext x
  have hone : (1 : UInt32) ≤ p.depth := by
    rw [UInt32.le_iff_toNat_le, hdepth]
    exact Nat.two_pow_pos k
  rw [SkbArray.pos, UInt32.toNat_and, UInt32.toNat_sub_of_le _ _ hone, hdepth,
    show (1 : UInt32).toNat = 1 from rfl, Nat.and_two_pow_sub_one_eq_mod]
  rfl

theorem SkbArray.put_of_room (hdepth : p.depth.toNat = 2 ^ k) (hk : k ≤ 15)
    (hroom : p.entries.length < 2 ^ k) (skb : Skb) (dmaAddr : UInt64) :
    ∃ q, p.put skb dmaAddr = some q ∧ q.depth = p.depth ∧
      q.entries = p.entries ++ [⟨some skb, dmaAddr⟩] := by
  have hpow := Nat.pow_le_pow_right (n := 2) Nat.two_pos hk
  rw [SkbArray.entries, Ring.window_length] at hroom
  have hlt : p.wp - p.rp < p.depth := by
    rw [UInt32.lt_iff_toNat_lt, hdepth]
    exact hroom
  have hdvd : 2 ^ k ∣ 2 ^ 32 := Nat.pow_dvd_pow 2 (by omega)
  refine ⟨_, if_pos hlt, rfl, ?_⟩
  change Ring.window p.pos (Function.update p.array (p.pos p.wp) _) p.rp (p.wp + 1) = _
  rw [SkbArray.entries, SkbArray.pos_eq hdepth]
  exact Ring.window_push (by omega) (Ring.Coherent.fresh_wrptr (.inl hdvd) hroom)

theorem SkbArray.get_of_entries {entry : SkbDmaAddrNode} {rest : List SkbDmaAddrNode}
    (h : p.entries = entry :: rest) :
    ∃ q, p.get = some (entry, q) ∧ q.depth = p.depth ∧ q.entries = rest := by
  have hne : p.rp ≠ p.wp := fun heq => by
    rw [SkbArray.entries, heq, Ring.window_self] at h
    cases h
  have hpop : Ring.window p.pos p.array p.rp p.wp = _ := Ring.window_pop hne
  rw [show Ring.window p.pos p.array p.rp p.wp = entry :: rest from h] at hpop
  obtain ⟨hentry, hrest⟩ := List.cons.inj hpop
  refine ⟨{ p with rp := p.rp + 1 }, ?_, rfl, hrest.symm⟩
  rw [SkbArray.get, if_pos hne, hentry]

end

/-- Where `fill_free_fifo` stands: at the test of its loop, before `set_rx_fifo_wr`, and before
`atomic_sub`. -/
inductive Fill where
  | idle
  | loop (cnt i successCnt : Nat)
  | publish (successCnt : Nat)
  | sub (successCnt : Nat)

/-- Where the poll handler stands: at the test of the loop of `sipa_dummy_rx`, at `read_again` and
at `check_again` in `sipa_recv_skb` with what `get_recv_array_node` gave, and before
`sipa_nic_set_tx_fifo_rp`. -/
inductive Poll where
  | idle
  | rx (budget skbCnt : Nat)
  | read (budget skbCnt : Nat) (recv : Option SkbDmaAddrNode) (retryCnt : Nat)
  | check (budget skbCnt : Nat) (recv : Option SkbDmaAddrNode) (retryCnt : Nat)
  | ack (pkts : Nat)

/-- What happened so far: the buffers posted and the descriptors written for them, how many of these
were published and how many the modem took, the nodes back in the tx FIFO and how many of them were
acknowledged, how many buffers were taken off `recv_array`, and those that `sipa_recv_skb` returned,
each with the node at its index. -/
structure History where
  posted : List SkbDmaAddrNode
  written : List Node
  published : Nat
  fetched : Nat
  consumed : List Node
  acked : Nat
  taken : Nat
  returned : List (SkbDmaAddrNode × Node)

/-- `held` are the descriptors that the modem has taken and not given back. -/
structure State where
  recvArray : SkbArray
  needFillCnt : Int
  fifo : FifoCfg
  fill : Fill
  poll : Poll
  held : List Node
  hist : History

/-- The receive FIFO of depth `2 ^ order`. -/
structure Config where
  order : Nat
  pcieMemOffset : UInt64
  dst : BitVec 5
  cur : BitVec 5
  order_le : order ≤ 15

def Config.depth (c : Config) : Nat := 2 ^ c.order

def recvBufLen : Nat := 1600

def recvRsvdLen : Nat := 128

def skbPut (skb : Skb) (n : Nat) : Skb := { skb with len := skb.len + n }

def skbPush (skb : Skb) (n : Nat) : Skb :=
  { skb with len := skb.len + n, headroom := skb.headroom - n }

def skbReserve (skb : Skb) (n : Nat) : Skb := { skb with headroom := skb.headroom + n }

def allocRecvSkb (skb : Skb) : Skb :=
  if skb.headroom < recvRsvdLen then skbReserve skb (recvRsvdLen - skb.headroom) else skb

def sizeRecvSkb (skb : Skb) : Skb :=
  let tmp := skb.headroom
  if tmp > recvRsvdLen then
    let tmp := tmp - recvRsvdLen
    skbPush (skbPut skb (recvBufLen - tmp)) tmp
  else skbPut skb recvBufLen

def des (c : Config) (skb : Skb) (dmaAddr : UInt64) : Node where
  address := dmaAddr.toBitVec.setWidth 40
  length := BitVec.ofNat 20 skb.len
  offset := BitVec.ofNat 12 skb.headroom
  netId := 0
  src := c.cur
  dst := c.dst
  intr := false
  errCode := 0
  skb := skb

/-- A round of the loops of `sipa_prepare_free_node_init` and `fill_free_fifo`, with what
`__dev_alloc_skb` and `dma_map_single` give.  It is `none` where the loop breaks; the value of
`put_recv_array_node` is not looked at. -/
def fillNode (c : Config) (s : State) (i : Nat) (skb : Option Skb) (dma : Option UInt64) :
    Option State := do
  let skb ← skb
  let skb := sizeRecvSkb (allocRecvSkb skb)
  let dmaAddr ← dma
  let index ← s.fifo.getRxFifoWr i
  let dmaAddr := dmaAddr + c.pcieMemOffset
  let node := des c skb dmaAddr
  return { s with
    fifo := s.fifo.write index node
    recvArray := (s.recvArray.put skb dmaAddr).getD s.recvArray
    hist := { s.hist with
      posted := s.hist.posted ++ [⟨some skb, dmaAddr⟩]
      written := s.hist.written ++ [node] } }

def sipaPrepareFreeNodeInit (c : Config) : State → Nat → List (Option Skb × Option UInt64) → State
  | s, _, [] => s
  | s, i, (skb, dma) :: rest =>
    match fillNode c s i skb dma with
    | some t => sipaPrepareFreeNodeInit c t (i + 1) rest
    | none => s

def setRxFifoWr (s : State) (num : Nat) : State :=
  { s with
    fifo := (s.fifo.setRxFifoWr num).2
    hist := { s.hist with published := s.hist.published + num } }

def sipaFillFreeNode (s : State) (cnt : Nat) : State :=
  { setRxFifoWr s cnt with needFillCnt := 0 }

def created (c : Config) : State where
  recvArray := ⟨fun _ => ⟨none, 0⟩, 0, 0, UInt32.ofNat c.depth⟩
  needFillCnt := 0
  fifo :=
    { rxFifo := ⟨c.depth, 0, 0, fun _ => default⟩, txFifo := ⟨c.depth, 0, 0, fun _ => default⟩
      cur := c.cur, rxWptr := 0, rxRptr := 0, txWptr := 0, txRptr := 0 }
  fill := .idle
  poll := .idle
  held := []
  hist := ⟨[], [], 0, 0, [], 0, 0, []⟩

/-- The state after `sipa_receiver_init` and `sipa_receiver_open_cmn_fifo`, when each of the buffers
`bufs` was allocated and mapped. -/
def init (c : Config) (bufs : Nat → Skb × UInt64) : State :=
  sipaFillFreeNode
    (sipaPrepareFreeNodeInit c (created c) 0
      ((List.range c.depth).map fun i => (some (bufs i).1, some (bufs i).2)))
    c.depth

def fillEnd (s : State) (successCnt : Nat) : State :=
  { s with fill := if 0 < successCnt then .publish successCnt else .idle }

/-- A step of `fill_free_fifo`, in `fill_recv_thread`, which waits for buffers to fill. -/
def fillFreeFifo (c : Config) (s : State) (skb : Option Skb) (dma : Option UInt64) :
    Option State :=
  match s.fill with
  | .idle =>
    if 0 < s.needFillCnt then some { s with fill := .loop s.needFillCnt.toNat 0 0 } else none
  | .loop cnt i successCnt =>
    some <|
      if i < cnt then
        match fillNode c s i skb dma with
        | some t => { t with fill := .loop cnt (i + 1) (successCnt + 1) }
        | none => fillEnd s successCnt
      else fillEnd s successCnt
  | .publish successCnt => some { setRxFifoWr s successCnt with fill := .sub successCnt }
  | .sub successCnt =>
    some { s with
      needFillCnt :=
        if 0 < s.needFillCnt then s.needFillCnt - successCnt else s.needFillCnt
      fill := .idle }

def setTxFifoRp (s : State) (num : Nat) : State :=
  { s with
    fifo := (s.fifo.setTxFifoRp num).2
    hist := { s.hist with acked := s.hist.acked + num } }

/-- `sipa_recv_skb` returns `NULL`, and `sipa_dummy_rx` leaves its loop.  The buffer that
`get_recv_array_node` gave is freed. -/
def recvNull (s : State) (skbCnt : Nat) (recv : Option SkbDmaAddrNode) : State :=
  match recv with
  | some _ =>
    { setTxFifoRp s 1 with needFillCnt := s.needFillCnt + 1, poll := .ack skbCnt }
  | none => { s with poll := .ack skbCnt }

def readAgain (s : State) (budget skbCnt : Nat) (recv : Option SkbDmaAddrNode) (retryCnt : Nat) :
    State :=
  let node := s.fifo.getTxFifoRp skbCnt
  if node.address = 0 then
    if retryCnt ≠ 0 then { s with poll := .read budget skbCnt recv (retryCnt - 1) }
    else recvNull s skbCnt recv
  else { s with poll := .check budget skbCnt recv 10 }

/-- `check_again`.  `sipa_dummy_rx` goes on after a packet that it passes up, and leaves its loop
after one that it drops. -/
def checkAgain (s : State) (budget skbCnt : Nat) (recv : Option SkbDmaAddrNode) (retryCnt : Nat)
    (accept : Bool) : State :=
  let node := s.fifo.getTxFifoRp skbCnt
  match recv with
  | none => recvNull s skbCnt none
  | some entry =>
    if entry.dmaAddr ≠ node.dmaAddr then
      if retryCnt ≠ 0 then { s with poll := .check budget skbCnt recv (retryCnt - 1) }
      else recvNull s skbCnt recv
    else
      { s with
        needFillCnt := s.needFillCnt + 1
        poll := if accept then .rx budget (skbCnt + 1) else .ack (skbCnt + 1)
        hist := { s.hist with returned := s.hist.returned ++ [(entry, node)] } }

def pollHandler (s : State) (budget : Nat) (accept : Bool) : State :=
  match s.poll with
  | .idle =>
    let num := s.fifo.recvNodeFromTxFifo
    if num = 0 then s else { s with poll := .rx (if num > budget then budget else num) 0 }
  | .rx budget skbCnt =>
    if skbCnt < budget then
      match s.recvArray.get with
      | some (entry, recvArray) =>
        { s with
          recvArray := recvArray
          poll := .read budget skbCnt (some entry) 10
          hist := { s.hist with taken := s.hist.taken + 1 } }
      | none => { s with poll := .read budget skbCnt none 10 }
    else { s with poll := .ack skbCnt }
  | .read budget skbCnt recv retryCnt => readAgain s budget skbCnt recv retryCnt
  | .check budget skbCnt recv retryCnt => checkAgain s budget skbCnt recv retryCnt accept
  | .ack pkts => { (if 0 < pkts then setTxFifoRp s pkts else s) with poll := .idle }

def deviceFetch (s : State) : Option State :=
  s.fifo.fetch.map fun x =>
    { s with
      fifo := x.2
      held := s.held ++ [x.1]
      hist := { s.hist with fetched := s.hist.fetched + 1 } }

structure Filled where
  length : BitVec 20
  offset : BitVec 12
  netId : UInt8
  errCode : BitVec 4

def Filled.node (d : Filled) (node : Node) : Node :=
  { node with length := d.length, offset := d.offset, netId := d.netId, errCode := d.errCode }

/-- The modem gives the oldest buffer back. -/
def deviceComplete (s : State) (d : Filled) : Option State :=
  match s.held with
  | [] => none
  | node :: held =>
    (s.fifo.complete (d.node node)).map fun fifo =>
      { s with
        fifo := fifo
        held := held
        hist := { s.hist with consumed := s.hist.consumed ++ [d.node node] } }

inductive Label where
  | fill (skb : Option Skb) (dma : Option UInt64)
  | poll (budget : Nat) (accept : Bool)
  | fetch
  | complete (d : Filled)

def step (c : Config) (s : State) : Label → Option State
  | .fill skb dma => fillFreeFifo c s skb dma
  | .poll budget accept => some (pollHandler s budget accept)
  | .fetch => deviceFetch s
  | .complete d => deviceComplete s d

end ModemSupport.Sipa.Receiver
