import ModemSupport.Sipa.Receiver

/-! The poll handler of the receiver (`sipa_dummy.c`): one call of `sipa_dummy_rx_poll_handler`,
from its entry to its return, while the modem gives no further node back. Each round of
`READ_AGAIN` takes the nodes in the tx FIFO beside the buffers in `recv_array`. -/

namespace ModemSupport.Sipa.NapiPoll

open ModemSupport.Lib Sipa.Receiver List

def sipaDummyIfaceNum : Nat := 4

/-- What a poll reads and writes. `devList` says which network devices are there and whether they
are `DEV_ON`, `received` are the buffers that went up the stack with their net ids, and
`completions` counts the calls of `napi_complete`. -/
structure State where
  recvArray : SkbArray
  needFillCnt : Int
  fifo : FifoCfg
  remoteReady : Bool
  devList : List (Option Bool)
  rxEvt : Bool
  rxBusy : Bool
  intrEb : Bool
  napiScheduled : Bool
  completions : Nat
  received : List (SkbDmaAddrNode × UInt8)

/-- `read_again` in `sipa_recv_skb`: the node at `index`, unless its address stays null. -/
def readNode (f : FifoCfg) (index : Nat) : Nat → Option Node
  | 0 =>
    let node := f.getTxFifoRp index
    if node.address = 0 then none else some node
  | retryCnt + 1 =>
    let node := f.getTxFifoRp index
    if node.address = 0 then readNode f index retryCnt else some node

/-- `check_again`: whether the address of the node is that of the buffer. -/
def checkNode (f : FifoCfg) (index : Nat) (addr : UInt64) : Nat → Bool
  | 0 => addr = (f.getTxFifoRp index).dmaAddr
  | retryCnt + 1 =>
    if addr = (f.getTxFifoRp index).dmaAddr then true else checkNode f index addr retryCnt

def State.dropNode (s : State) : State :=
  { s with needFillCnt := s.needFillCnt + 1, fifo := (s.fifo.setTxFifoRp 1).2 }

/-- `sipa_recv_skb`, of an array whose entries have their buffers; `none` is `NULL`. -/
def State.sipaRecvSkb (s : State) (index : Nat) : Option (SkbDmaAddrNode × UInt8) × State :=
  match s.recvArray.get, readNode s.fifo index 10 with
  | none, _ => (none, s)
  | some (_, recvArray), none => (none, { s with recvArray := recvArray }.dropNode)
  | some (entry, recvArray), some node =>
    if checkNode s.fifo index entry.dmaAddr 10 then
      (some (entry, node.netId),
        { s with recvArray := recvArray, needFillCnt := s.needFillCnt + 1 })
    else (none, { s with recvArray := recvArray }.dropNode)

/-- The tests of `sipa_dummy_rx` on the net id. -/
def State.deviceOn (s : State) (netId : UInt8) : Bool :=
  decide (netId.toNat < sipaDummyIfaceNum) && decide (s.devList[netId.toNat]? = some (some true))

/-- The loop of `sipa_dummy_rx`, with the rounds that the budget leaves and `skb_cnt`. -/
def State.rxLoop : Nat → Nat → State → Nat × State
  | 0, skbCnt, s => (skbCnt, s)
  | n + 1, skbCnt, s =>
    match s.sipaRecvSkb skbCnt with
    | (none, t) => (skbCnt, { t with rxBusy := false })
    | (some (entry, netId), t) =>
      if t.deviceOn netId then
        rxLoop n (skbCnt + 1) { t with received := t.received ++ [(entry, netId)] }
      -- the packet counts, and is dropped
      else (skbCnt + 1, t)

def State.sipaDummyRx (s : State) (budget : Nat) : Nat × State :=
  { s with rxEvt := false }.rxLoop budget 0

def State.filledNum (s : State) : Nat :=
  if s.remoteReady then s.fifo.recvNodeFromTxFifo else 0

def State.fifoEmpty (s : State) : Bool :=
  !s.remoteReady || decide (s.fifo.txFilled = 0)

def State.setTxFifoRp (s : State) (pkts : Nat) : State :=
  if s.remoteReady then { s with fifo := (s.fifo.setTxFifoRp pkts).2 } else s

/-- `napi_complete`, and what comes behind it. -/
def State.complete (s : State) : State :=
  let s := { s with
    rxBusy := false
    napiScheduled := false
    completions := s.completions + 1
    intrEb := s.intrEb || s.remoteReady }
  if s.rxEvt || s.rxBusy || !s.fifoEmpty then { s with rxEvt := false, napiScheduled := true }
  else s

/-- Where a round of the handler goes: back to `READ_AGAIN` with the budget that is left and `tmp`,
or to `out`. -/
inductive Round where
  | readAgain (s : State) (budget tmp : Nat)
  | out (tmp : Nat) (s : State)

def State.check (s : State) (budget tmp : Nat) : Round :=
  if !s.fifoEmpty || s.rxEvt then .readAgain { s with rxEvt := false } budget tmp
  else .out tmp s.complete

/-- The handler from `READ_AGAIN` to the next `goto READ_AGAIN` or its end. -/
def State.round (s : State) (budget tmp : Nat) : Round :=
  let num := s.filledNum
  if num = 0 then s.check budget tmp
  else
    let (pkts, t) := s.sipaDummyRx (if num > budget then budget else num)
    let t := if 0 < pkts then t.setTxFifoRp pkts else t
    if budget - pkts = 0 then .out (tmp + pkts) t else t.check (budget - pkts) (tmp + pkts)

/-- `sipa_dummy_rx_poll_handler`, when it returns in that many rounds: what it returns, and the
state that it leaves. -/
def State.poll : Nat → State → Nat → Nat → Option (Nat × State)
  | 0, _, _, _ => none
  | rounds + 1, s, budget, tmp =>
    match s.round budget tmp with
    | .readAgain t budget tmp => poll rounds t budget tmp
    | .out tmp t => some (tmp, t)

def txNodes (f : FifoCfg) : List Node :=
  Ring.span f.txFifo.depth f.txFifo.mem f.txFifo.rd f.txFilled

structure TxValid (f : FifoCfg) : Prop where
  depth : ∃ k ≤ 15, f.txFifo.depth = 2 ^ k
  rptr : f.txRptr = f.txFifo.rd
  rd_lt : f.txFifo.rd < 2 * f.txFifo.depth
  wptr_lt : f.txWptr < 2 * f.txFifo.depth
  filled_le : f.txFilled ≤ f.txFifo.depth

section

variable {k i n : Nat} {f : FifoCfg} {posted consumed : List Node} {fetched acked : Nat}

theorem txNodes_length (f : FifoCfg) : (txNodes f).length = f.txFilled :=
  Ring.span_length _ _

theorem TxValid.getTxFifoRp (h : TxValid f) (hi : i < f.txFilled) :
    (txNodes f)[i]? = some (f.getTxFifoRp i) := by
  obtain ⟨k, -, hdepth⟩ := h.depth
  rw [txNodes, Ring.span, List.getElem?_map, List.getElem?_range hi, Option.map_some,
    FifoCfg.getTxFifoRp, hdepth, Nat.and_two_pow_sub_one_eq_mod]

theorem TxValid.txWptr_eq (h : TxValid f) :
    (f.txFifo.rd + f.txFilled) % (2 * f.txFifo.depth) = f.txWptr := by
  have hrd := h.rd_lt
  rw [FifoCfg.txFilled, filledDepth, h.rptr, Nat.add_mod_mod,
    show f.txFifo.rd + (f.txWptr + 2 * f.txFifo.depth - f.txFifo.rd) =
      f.txWptr + 2 * f.txFifo.depth by omega, Nat.add_mod_right, Nat.mod_eq_of_lt h.wptr_lt]

theorem TxValid.setTxFifoRp (h : TxValid f) (hn : n ≤ f.txFilled) :
    TxValid (f.setTxFifoRp n).2 ∧ txNodes (f.setTxFifoRp n).2 = (txNodes f).drop n := by
  obtain ⟨k, hk, hdepth⟩ := h.depth
  have hpos := Nat.two_pow_pos k
  have hpow := Nat.pow_le_pow_right (n := 2) Nat.two_pos hk
  have hle := h.filled_le
  have hmask : (f.txFifo.rd + n) &&& ptrMask f.txFifo.depth =
      (f.txFifo.rd + n) % (2 * f.txFifo.depth) := by
    rw [hdepth, and_ptrMask]
  have hlt := Nat.mod_lt (f.txFifo.rd + n) (show 0 < 2 * f.txFifo.depth by omega)
  have hset := FifoCfg.setTxFifoRp_snd hmask (by omega)
  have hleft : (f.setTxFifoRp n).2.txFilled = f.txFilled - n := by
    have hdist := Ring.mod_distance (m := 2 * f.txFifo.depth)
      (show f.txFifo.rd + n ≤ f.txFifo.rd + f.txFilled by omega) (by omega)
    rw [h.txWptr_eq] at hdist
    rw [hset]
    exact hdist.trans (by omega)
  constructor
  · constructor
    case depth => rw [hset]; exact ⟨k, hk, hdepth⟩
    case rptr => rw [hset]
    case rd_lt => rw [hset]; exact hlt
    case wptr_lt => rw [hset]; exact h.wptr_lt
    case filled_le =>
      rw [hleft, hset]
      show f.txFilled - n ≤ f.txFifo.depth
      omega
  · have hsplit : txNodes f = Ring.span f.txFifo.depth f.txFifo.mem f.txFifo.rd n ++
        Ring.span f.txFifo.depth f.txFifo.mem (f.txFifo.rd + n) (f.txFilled - n) := by
      rw [← Ring.span_add, Nat.add_sub_cancel' hn, txNodes]
    have hstart : (f.txFifo.rd + n) % (2 * f.txFifo.depth) % f.txFifo.depth =
        (f.txFifo.rd + n) % f.txFifo.depth :=
      Nat.mod_mod_of_dvd _ (Nat.dvd_mul_left _ _)
    rw [txNodes, hleft, hset, hsplit, drop_left' (Ring.span_length _ _)]
    exact Ring.span_mod hstart _

end

def Matches (pair : SkbDmaAddrNode × Node) : Bool :=
  decide (pair.2.address ≠ 0) && decide (pair.1.dmaAddr = pair.2.dmaAddr)

variable {s t : State} {f : FifoCfg} {n c skbCnt index budget tmp pkts rounds ret : Nat}

theorem readNode_eq (f : FifoCfg) (index retryCnt : Nat) : readNode f index retryCnt =
    if (f.getTxFifoRp index).address = 0 then none else some (f.getTxFifoRp index) := by
  induction retryCnt with
  | zero => rfl
  | succ retryCnt ih =>
    simp only [readNode, ih]
    split <;> rfl

theorem checkNode_eq (f : FifoCfg) (index : Nat) (addr : UInt64) (retryCnt : Nat) :
    checkNode f index addr retryCnt = decide (addr = (f.getTxFifoRp index).dmaAddr) := by
  induction retryCnt with
  | zero => rfl
  | succ retryCnt ih =>
    simp only [checkNode, ih]
    split
    next heq => simp [heq]
    next hne => rfl

/-- `sipa_recv_skb` returns a buffer whose node is its own. It takes the buffer and the node of
another pair, and nothing of an empty array. -/
theorem sipaRecvSkb_cases (s : State) (index : Nat) :
    (s.recvArray.entries = [] ∧ s.sipaRecvSkb index = (none, s)) ∨
    ∃ entry rest a, s.recvArray.entries = entry :: rest ∧ a.entries = rest ∧
      ((Matches (entry, s.fifo.getTxFifoRp index) = true ∧
        s.sipaRecvSkb index = (some (entry, (s.fifo.getTxFifoRp index).netId),
          { s with recvArray := a, needFillCnt := s.needFillCnt + 1 })) ∨
      (Matches (entry, s.fifo.getTxFifoRp index) = false ∧
        s.sipaRecvSkb index = (none, { s with recvArray := a }.dropNode))) := by
  cases hentries : s.recvArray.entries with
  | nil =>
    left
    have hget : s.recvArray.get = none := by
      rw [SkbArray.get, if_neg]
      intro hne
      have hpop : s.recvArray.entries = _ :: _ := Ring.window_pop hne
      rw [hentries] at hpop
      cases hpop
    exact ⟨rfl, by simp only [State.sipaRecvSkb, hget]⟩
  | cons entry rest =>
    right
    obtain ⟨a, hget, -, ha⟩ := SkbArray.get_of_entries hentries
    refine ⟨entry, rest, a, rfl, ha, ?_⟩
    by_cases hnull : (s.fifo.getTxFifoRp index).address = 0
    · right
      refine ⟨by rw [Matches, decide_eq_false (not_not.mpr hnull), Bool.false_and], ?_⟩
      simp only [State.sipaRecvSkb, hget, readNode_eq, if_pos hnull]
    · have hread : readNode s.fifo index 10 = some (s.fifo.getTxFifoRp index) := by
        rw [readNode_eq, if_neg hnull]
      by_cases haddr : entry.dmaAddr = (s.fifo.getTxFifoRp index).dmaAddr
      · left
        refine ⟨by rw [Matches, decide_eq_true hnull, decide_eq_true haddr, Bool.true_and], ?_⟩
        simp only [State.sipaRecvSkb, hget, hread, checkNode_eq, decide_eq_true haddr, if_true]
      · right
        refine ⟨by rw [Matches, decide_eq_false haddr, Bool.and_false], ?_⟩
        simp only [State.sipaRecvSkb, hget, hread, checkNode_eq, decide_eq_false haddr,
          Bool.false_eq_true, if_false]

/-- What receiving leaves as it is. -/
structure Frame (s t : State) : Prop where
  remoteReady : t.remoteReady = s.remoteReady
  rxEvt : t.rxEvt = s.rxEvt
  completions : t.completions = s.completions

theorem Frame.trans {u : State} (h : Frame s t) (h' : Frame t u) : Frame s u :=
  ⟨h'.remoteReady.trans h.remoteReady, h'.rxEvt.trans h.rxEvt, h'.completions.trans h.completions⟩

/-- What the loop of `sipa_dummy_rx` leaves when it has taken `c` buffers and nodes: it counts those
that match, and has yet to acknowledge their nodes. -/
structure Took (s : State) (n skbCnt c pkts : Nat) (t : State) : Prop where
  frame : Frame s t
  entries_le : c ≤ s.recvArray.entries.length
  nodes_le : skbCnt + c ≤ s.fifo.txFilled
  entries : t.recvArray.entries = s.recvArray.entries.drop c
  valid : TxValid t.fifo
  nodes : (txNodes t.fifo).drop pkts = (txNodes s.fifo).drop (skbCnt + c)
  pkts_fifo : pkts ≤ t.fifo.txFilled
  pkts_le : pkts ≤ skbCnt + n
  pkts_eq : pkts = skbCnt +
    ((s.recvArray.entries.zip ((txNodes s.fifo).drop skbCnt)).take c).countP Matches

theorem Took.none (h : TxValid s.fifo) (hle : skbCnt ≤ s.fifo.txFilled) (hframe : Frame s t)
    (hentries : t.recvArray.entries = s.recvArray.entries) (hfifo : t.fifo = s.fifo) :
    Took s n skbCnt 0 skbCnt t := by
  refine ⟨hframe, Nat.zero_le _, hle, hentries, ?_, ?_, ?_, Nat.le_add_right _ _, ?_⟩
  · rwa [hfifo]
  · rw [hfifo, Nat.add_zero]
  · rwa [hfifo]
  · rw [take_zero, countP_nil, Nat.add_zero]

theorem drop_txNodes (h : TxValid f) (hlt : skbCnt < f.txFilled) :
    (txNodes f).drop skbCnt = f.getTxFifoRp skbCnt :: (txNodes f).drop (skbCnt + 1) := by
  have hlen : skbCnt < (txNodes f).length := by rwa [txNodes_length]
  have hget := h.getTxFifoRp hlt
  rw [List.getElem?_eq_getElem hlen, Option.some.injEq] at hget
  rw [drop_eq_getElem_cons hlen, hget]

theorem Took.cons {u : State} {entry : SkbDmaAddrNode} {rest : List SkbDmaAddrNode}
    (htook : Took u n (skbCnt + 1) c pkts t) (h : TxValid s.fifo) (hlt : skbCnt < s.fifo.txFilled)
    (hmatch : Matches (entry, s.fifo.getTxFifoRp skbCnt) = true)
    (hentries : s.recvArray.entries = entry :: rest) (hframe : Frame s u)
    (hrest : u.recvArray.entries = rest) (hfifo : u.fifo = s.fifo) :
    Took s (n + 1) skbCnt (c + 1) pkts t := by
  have hle := htook.entries_le
  have hnodes := htook.nodes
  have heq := htook.pkts_eq
  have hpkts := htook.pkts_le
  rw [hrest] at hle
  rw [hfifo] at hnodes
  rw [hrest, hfifo] at heq
  refine ⟨hframe.trans htook.frame, ?_, ?_, ?_, htook.valid, ?_, htook.pkts_fifo, ?_, ?_⟩
  · rw [hentries, length_cons]
    omega
  · have hnodes_le := htook.nodes_le
    rw [hfifo] at hnodes_le
    omega
  · rw [htook.entries, hrest, hentries, drop_succ_cons]
  · rw [hnodes]
    congr 1
    omega
  · omega
  · rw [hentries, drop_txNodes h hlt, zip_cons_cons, take_succ_cons,
      countP_cons_of_pos hmatch]
    omega

theorem Took.dropNode {entry : SkbDmaAddrNode} {rest : List SkbDmaAddrNode}
    (h : TxValid s.fifo) (hlt : skbCnt < s.fifo.txFilled)
    (hmatch : Matches (entry, s.fifo.getTxFifoRp skbCnt) = false)
    (hentries : s.recvArray.entries = entry :: rest) (hframe : Frame s t)
    (hrest : t.recvArray.entries = rest) (hfifo : t.fifo = (s.fifo.setTxFifoRp 1).2) :
    Took s n skbCnt 1 skbCnt t := by
  obtain ⟨hvalid, hnodes⟩ := h.setTxFifoRp (show 1 ≤ s.fifo.txFilled by omega)
  refine ⟨hframe, ?_, hlt, ?_, ?_, ?_, ?_, Nat.le_add_right _ _, ?_⟩
  · rw [hentries, length_cons]
    omega
  · rw [hrest, hentries, drop_succ_cons, drop_zero]
  · rwa [hfifo]
  · rw [hfifo, hnodes, drop_drop, Nat.add_comm]
  · rw [hfifo, ← txNodes_length, hnodes, length_drop, txNodes_length]
    omega
  · rw [hentries, drop_txNodes h hlt, zip_cons_cons, take_succ_cons, take_zero,
      countP_cons_of_neg (by simp [hmatch]), countP_nil, Nat.add_zero]

theorem rxLoop_spec (h : TxValid s.fifo) (skbCnt : Nat) (hfilled : skbCnt + n ≤ s.fifo.txFilled) :
    ∃ c, Took s n skbCnt c (s.rxLoop n skbCnt).1 (s.rxLoop n skbCnt).2 ∧
      (0 < n → s.recvArray.entries ≠ [] → 0 < c) := by
  induction n generalizing s skbCnt with
  | zero =>
    refine ⟨0, Took.none h hfilled ⟨rfl, rfl, rfl⟩ rfl rfl, ?_⟩
    exact fun hpos => absurd hpos (lt_irrefl 0)
  | succ n ih =>
    have hlt : skbCnt < s.fifo.txFilled := by omega
    rcases sipaRecvSkb_cases s skbCnt with
      ⟨hnil, hrecv⟩ | ⟨entry, rest, a, hentries, ha, ⟨hmatch, hrecv⟩ | ⟨hmatch, hrecv⟩⟩
    · simp only [State.rxLoop, hrecv]
      exact ⟨0, Took.none h hlt.le ⟨rfl, rfl, rfl⟩ rfl rfl, fun _ hne => absurd hnil hne⟩
    · simp only [State.rxLoop, hrecv]
      split
      next =>
        obtain ⟨c, htook, -⟩ := ih (s := { s with
            recvArray := a
            needFillCnt := s.needFillCnt + 1
            received := s.received ++ [(entry, (s.fifo.getTxFifoRp skbCnt).netId)] })
          h (skbCnt + 1) (by show skbCnt + 1 + n ≤ s.fifo.txFilled; omega)
        exact ⟨c + 1, htook.cons h hlt hmatch hentries ⟨rfl, rfl, rfl⟩ ha rfl,
          fun _ _ => Nat.succ_pos c⟩
      next =>
        have htook : Took { s with recvArray := a, needFillCnt := s.needFillCnt + 1 } n (skbCnt + 1)
            0 (skbCnt + 1) { s with recvArray := a, needFillCnt := s.needFillCnt + 1 } :=
          Took.none h hlt ⟨rfl, rfl, rfl⟩ rfl rfl
        exact ⟨1, htook.cons h hlt hmatch hentries ⟨rfl, rfl, rfl⟩ ha rfl, fun _ _ => Nat.one_pos⟩
    · simp only [State.rxLoop, hrecv]
      exact ⟨1, Took.dropNode h hlt hmatch hentries ⟨rfl, rfl, rfl⟩ ha rfl,
        fun _ _ => Nat.one_pos⟩

def State.matched (s : State) : Nat :=
  (s.recvArray.entries.zip (txNodes s.fifo)).countP Matches

/-- A round that took `c` buffers and nodes and received `pkts` of them. -/
structure Advanced (s : State) (c pkts : Nat) (t : State) : Prop where
  remoteReady : t.remoteReady = s.remoteReady
  rxEvt : t.rxEvt = false
  completions : t.completions = s.completions
  valid : TxValid t.fifo
  entries : t.recvArray.entries.length + c = s.recvArray.entries.length
  nodes : t.fifo.txFilled + c = s.fifo.txFilled
  matched : s.matched = pkts + t.matched

theorem Took.advanced_of_nodes {u : State} (htook : Took { s with rxEvt := false } n 0 c pkts u)
    (hframe : Frame u t) (harray : t.recvArray = u.recvArray) (hvalid : TxValid t.fifo)
    (hnodes : txNodes t.fifo = (txNodes u.fifo).drop pkts) : Advanced s c pkts t := by
  have hle : c ≤ s.recvArray.entries.length := htook.entries_le
  have hnodes_le : 0 + c ≤ s.fifo.txFilled := htook.nodes_le
  have hentries : t.recvArray.entries = s.recvArray.entries.drop c := by
    rw [harray]
    exact htook.entries
  have hdrop : txNodes t.fifo = (txNodes s.fifo).drop c := by
    rw [hnodes, htook.nodes, Nat.zero_add]
  have hcount : pkts = 0 + ((s.recvArray.entries.zip ((txNodes s.fifo).drop 0)).take c).countP
      Matches := htook.pkts_eq
  constructor
  case remoteReady => rw [hframe.remoteReady, htook.frame.remoteReady]
  case rxEvt => rw [hframe.rxEvt, htook.frame.rxEvt]
  case completions => rw [hframe.completions, htook.frame.completions]
  case valid => exact hvalid
  case entries =>
    rw [hentries, length_drop]
    omega
  case nodes =>
    rw [← txNodes_length, hdrop, length_drop, txNodes_length]
    omega
  case matched =>
    rw [Nat.zero_add, drop_zero] at hcount
    have hzip : (s.recvArray.entries.drop c).zip ((txNodes s.fifo).drop c) =
        (s.recvArray.entries.zip (txNodes s.fifo)).drop c := drop_zipWith.symm
    rw [State.matched, State.matched, hentries, hdrop, hzip, hcount, ← countP_append,
      take_append_drop]

theorem Took.advanced {u : State} (htook : Took { s with rxEvt := false } n 0 c pkts u)
    (hready : s.remoteReady = true) :
    Advanced s c pkts (if 0 < pkts then u.setTxFifoRp pkts else u) := by
  have hready' : u.remoteReady = true := htook.frame.remoteReady.trans hready
  obtain ⟨hvalid, hnodes⟩ := htook.valid.setTxFifoRp htook.pkts_fifo
  split
  next =>
    rw [State.setTxFifoRp, if_pos hready']
    exact htook.advanced_of_nodes ⟨rfl, rfl, rfl⟩ rfl hvalid hnodes
  next hzero =>
    obtain rfl : pkts = 0 := by omega
    exact htook.advanced_of_nodes ⟨rfl, rfl, rfl⟩ rfl htook.valid drop_zero.symm

theorem round_of_filled (h : TxValid s.fifo) (hready : s.remoteReady = true)
    (hfilled : 0 < s.fifo.txFilled) (hbudget : 0 < budget) (tmp : Nat) :
    ∃ c pkts t, Advanced s c pkts t ∧ pkts ≤ budget ∧ (s.recvArray.entries ≠ [] → 0 < c) ∧
      s.round budget tmp = if budget - pkts = 0 then .out (tmp + pkts) t
        else t.check (budget - pkts) (tmp + pkts) := by
  have hnum : s.filledNum = s.fifo.txFilled := by
    rw [State.filledNum, if_pos hready, FifoCfg.recvNodeFromTxFifo]
  have hmin : (if s.fifo.txFilled > budget then budget else s.fifo.txFilled) ≤ budget := by
    split <;> omega
  obtain ⟨c, htook, hprogress⟩ := rxLoop_spec (s := { s with rxEvt := false })
    (n := if s.fifo.txFilled > budget then budget else s.fifo.txFilled) h 0
    (by show 0 + _ ≤ s.fifo.txFilled; split <;> omega)
  refine ⟨c, _, _, htook.advanced hready, ?_, ?_, ?_⟩
  · exact htook.pkts_le.trans ((Nat.zero_add _).trans_le hmin)
  · refine hprogress ?_
    split <;> omega
  · rw [State.round, hnum]
    simp only
    rw [if_neg (by omega)]
    rfl

theorem round_of_empty (hnum : s.filledNum = 0) (budget tmp : Nat) :
    s.round budget tmp = s.check budget tmp := by
  rw [State.round]
  simp only
  rw [if_pos hnum]

theorem fifoEmpty_eq (hready : s.remoteReady = true) :
    s.fifoEmpty = decide (s.fifo.txFilled = 0) := by
  rw [State.fifoEmpty, hready, Bool.not_true, Bool.false_or]

/-- The poll of that budget terminates, returns at most its budget, and less only when it has called
`napi_complete`. -/
def Bounded (s : State) (budget : Nat) : Prop :=
  ∃ rounds ret t, State.poll rounds s budget 0 = some (ret, t) ∧ ret ≤ budget ∧
    (ret < budget → s.completions < t.completions)

theorem completions_complete (s : State) : s.complete.completions = s.completions + 1 := by
  unfold State.complete
  simp only
  split <;> rfl

theorem poll_out (h : s.round budget tmp = .out ret t) (rounds : Nat) :
    State.poll (rounds + 1) s budget tmp = some (ret, t) := by
  rw [State.poll, h]

theorem poll_readAgain {b m : Nat} (h : s.round budget tmp = .readAgain t b m) (rounds : Nat) :
    State.poll (rounds + 1) s budget tmp = State.poll rounds t b m := by
  rw [State.poll, h]

theorem poll_of_empty (hnum : s.filledNum = 0) (hempty : s.fifoEmpty = true) (budget tmp : Nat) :
    ∃ t, State.poll 2 s budget tmp = some (tmp, t) ∧ t.completions = s.completions + 1 := by
  cases hevt : s.rxEvt with
  | false =>
    have hround : s.round budget tmp = .out tmp s.complete := by
      rw [round_of_empty hnum, State.check, if_neg (by simp [hempty, hevt])]
    exact ⟨_, poll_out hround 1, completions_complete s⟩
  | true =>
    have hround : s.round budget tmp = .readAgain { s with rxEvt := false } budget tmp := by
      rw [round_of_empty hnum, State.check, if_pos (by simp [hevt])]
    have hagain : State.round { s with rxEvt := false } budget tmp =
        .out tmp (State.complete { s with rxEvt := false }) := by
      have hcheck := round_of_empty (s := { s with rxEvt := false }) hnum budget tmp
      have hempty' : State.fifoEmpty { s with rxEvt := false } = true := hempty
      rw [hcheck, State.check, if_neg (by simp [hempty'])]
    exact ⟨_, (poll_readAgain hround 1).trans (poll_out hagain 0), completions_complete _⟩

theorem check_eq (hready : s.remoteReady = true) (hevt : s.rxEvt = false) :
    s.check budget tmp = if s.fifo.txFilled = 0 then .out tmp s.complete
      else .readAgain s budget tmp := by
  have hsame : { s with rxEvt := false } = s := by rw [← hevt]
  rw [State.check, fifoEmpty_eq hready, hevt, hsame, Bool.or_false]
  by_cases hzero : s.fifo.txFilled = 0
  · rw [if_pos hzero, hzero]
    rfl
  · rw [if_neg hzero, decide_eq_false hzero]
    rfl

/-- A state whose poll comes to the end of its nodes or of its budget. -/
def Fits (s : State) (budget : Nat) : Prop :=
  s.fifo.txFilled ≤ s.recvArray.entries.length ∨ budget ≤ s.matched

theorem Fits.entries_ne_nil (hfits : Fits s budget) (hpos : 0 < s.fifo.txFilled)
    (hbudget : 0 < budget) : s.recvArray.entries ≠ [] := by
  intro hnil
  rcases hfits with hle | hle
  · rw [hnil, length_nil] at hle
    omega
  · rw [State.matched, hnil, zip_nil_left, countP_nil] at hle
    omega

theorem poll_of_fits (h : TxValid s.fifo) (hready : s.remoteReady = true) (hbudget : 0 < budget)
    (hfits : Fits s budget) (tmp : Nat) : ∃ rounds ret t,
      State.poll rounds s budget tmp = some (ret, t) ∧ ret ≤ tmp + budget ∧
        (ret < tmp + budget → s.completions < t.completions) := by
  -- the nodes become fewer with each round
  induction hn : s.fifo.txFilled using Nat.strong_induction_on generalizing s budget tmp with
  | _ filled ih =>
    subst hn
    rcases Nat.eq_zero_or_pos s.fifo.txFilled with hzero | hpos
    · have hnum : s.filledNum = 0 := by
        rw [State.filledNum, if_pos hready]
        exact hzero
      have hempty : s.fifoEmpty = true := by
        rw [fifoEmpty_eq hready, hzero]
        rfl
      obtain ⟨t, hpoll, hcompletions⟩ := poll_of_empty hnum hempty budget tmp
      exact ⟨2, tmp, t, hpoll, Nat.le_add_right _ _, fun _ => by omega⟩
    · obtain ⟨c, pkts, t, hadv, hle, hprogress, hround⟩ :=
        round_of_filled h hready hpos hbudget tmp
      have hentries := hadv.entries
      have hnodes := hadv.nodes
      have hmatched := hadv.matched
      have hcompletions := hadv.completions
      have hready' : t.remoteReady = true := hadv.remoteReady.trans hready
      have hc := hprogress (hfits.entries_ne_nil hpos hbudget)
      rw [check_eq hready' hadv.rxEvt] at hround
      split at hround
      next hleft => exact ⟨1, _, t, poll_out hround 0, by omega, fun hlt => by omega⟩
      next hleft =>
        split at hround
        next =>
          refine ⟨1, _, _, poll_out hround 0, by omega, fun _ => ?_⟩
          rw [completions_complete]
          omega
        next =>
          have hfits' : Fits t (budget - pkts) := by
            unfold Fits at hfits ⊢
            omega
          obtain ⟨rounds, ret, u, hpoll, hret, hu⟩ := ih t.fifo.txFilled (by omega) hadv.valid
            hready' (by omega) hfits' (tmp + pkts) rfl
          refine ⟨rounds + 1, ret, u, ?_, by omega, fun hlt => ?_⟩
          · rw [poll_readAgain hround, hpoll]
          · have hdone := hu (by omega)
            omega

theorem poll_of_not_fits (h : TxValid s.fifo) (hready : s.remoteReady = true)
    (hnot : ¬Fits s budget) (tmp rounds : Nat) : State.poll rounds s budget tmp = none := by
  induction rounds generalizing s budget tmp with
  | zero => rfl
  | succ rounds ih =>
    have hfew := not_or.mp hnot
    obtain ⟨c, pkts, t, hadv, -, -, hround⟩ :=
      round_of_filled h hready (by omega) (show 0 < budget by omega) tmp
    have hentries := hadv.entries
    have hnodes := hadv.nodes
    have hmatched := hadv.matched
    have hready' : t.remoteReady = true := hadv.remoteReady.trans hready
    have hnot' : ¬Fits t (budget - pkts) := by
      unfold Fits
      omega
    rw [if_neg (by omega), check_eq hready' hadv.rxEvt, if_neg (by omega)] at hround
    rw [poll_readAgain hround, ih hadv.valid hready' hnot']

/-- The poll is bounded exactly when the modem is not ready, when `recv_array` has a buffer for each
node, or when as many of the nodes that have a buffer match it as the budget allows. -/
theorem bounded_iff (h : TxValid s.fifo) (hbudget : 0 < budget) :
    Bounded s budget ↔ s.remoteReady = false ∨
      s.fifo.txFilled ≤ s.recvArray.entries.length ∨ budget ≤ s.matched := by
  cases hready : s.remoteReady with
  | false =>
    have hnum : s.filledNum = 0 := by
      rw [State.filledNum, hready]
      rfl
    have hempty : s.fifoEmpty = true := by
      rw [State.fifoEmpty, hready]
      rfl
    obtain ⟨t, hpoll, hcompletions⟩ := poll_of_empty hnum hempty budget 0
    refine iff_of_true ⟨2, 0, t, hpoll, Nat.zero_le _, fun _ => ?_⟩ (.inl rfl)
    omega
  | true =>
    constructor
    · rintro ⟨rounds, ret, t, hpoll, -⟩
      right
      by_contra hnot
      rw [poll_of_not_fits h hready hnot] at hpoll
      cases hpoll
    · rintro (hfalse | hfits)
      · cases hfalse
      · obtain ⟨rounds, ret, t, hpoll, hret, ht⟩ := poll_of_fits h hready hbudget hfits 0
        rw [Nat.zero_add] at hret ht
        exact ⟨rounds, ret, t, hpoll, hret, ht⟩

/-- A ready receiver with two nodes in its FIFO, of which the first one has a null address, and that
many buffers in `recv_array`. -/
def twoNodes (buffers : UInt32) : State where
  recvArray := ⟨fun i => ⟨some ⟨i, 1600, 128⟩, UInt64.ofNat i⟩, 0, buffers, 8⟩
  needFillCnt := 0
  fifo :=
    { rxFifo := ⟨8, 0, 0, fun _ => default⟩
      txFifo := ⟨8, 0, 0, fun i => { (default : Node) with address := BitVec.ofNat 40 i }⟩
      cur := 1, rxWptr := 0, rxRptr := 0, txWptr := 2, txRptr := 0 }
  remoteReady := true
  devList := [some true]
  rxEvt := true
  rxBusy := true
  intrEb := false
  napiScheduled := true
  completions := 0
  received := []

theorem twoNodes_valid (buffers : UInt32) : TxValid (twoNodes buffers).fifo :=
  ⟨⟨3, by decide, rfl⟩, rfl, by show 0 < 2 * 8; decide, by show 2 < 2 * 8; decide,
    by show (2 + 2 * 8 - 0) % (2 * 8) ≤ 8; decide⟩

theorem bounded_twoNodes : Bounded (twoNodes 2) 64 :=
  (bounded_iff (twoNodes_valid 2) (by decide)).mpr (.inr (.inl (by decide)))

/-- With a buffer for the first node only, the second one brings the handler back for ever. -/
theorem not_bounded_twoNodes : ¬∀ (s : State) (budget : Nat),
    TxValid s.fifo → 0 < budget → Bounded s budget := by
  intro h
  obtain ⟨rounds, ret, t, hpoll, -⟩ := h (twoNodes 1) 64 (twoNodes_valid 1) (by decide)
  have hnot : ¬Fits (twoNodes 1) 64 := by
    unfold Fits
    decide
  rw [poll_of_not_fits (twoNodes_valid 1) rfl hnot] at hpoll
  cases hpoll

end ModemSupport.Sipa.NapiPoll
