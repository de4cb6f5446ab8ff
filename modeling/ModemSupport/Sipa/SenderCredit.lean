import ModemSupport.Sipa.Sender

/-! The credits of the sender.  Whatever `dma_map_single` gives, the lists share out the nodes, the
credit and the pending packets make up three quarters of the FIFO, and each node of the tx FIFO is
acknowledged once.  A packet is freed after the modem is done with it when the addresses of the
pending packets differ and fit in a descriptor. -/

namespace ModemSupport.Sipa

open ModemSupport.Lib List Option

namespace Pass

/-- The credits that the call has still to give back. -/
def owed : Pass → Nat
  | .check l _ | .ack l => l.successCnt
  | .release l _ => l.successCnt + 1
  | .credit n => n
  | _ => 0

/-- The nodes of the tx FIFO, not yet acknowledged, whose packet has left `sending_list`. -/
def cleared : Pass → Nat
  | .check l _ | .ack l => l.successCnt
  | .release l _ => l.successCnt + 1
  | _ => 0

/-- The nodes of the tx FIFO, not yet acknowledged, that the call is done with. -/
def done : Pass → Nat
  | .check l _ | .ack l => l.i
  | .release l _ => l.i + 1
  | _ => 0

/-- The node taken off `sending_list` whose packet is still to be freed. -/
def iters : Pass → List Nat
  | .release _ iter => [iter]
  | _ => []

/-- The nodes that the call has still to acknowledge. -/
def unacked : Pass → Nat
  | .check l _ | .release l _ => l.num
  | .ack l => l.i
  | _ => 0

def InLoop : Pass → Prop
  | .check l _ | .release l _ => l.i < l.num ∧ l.successCnt ≤ l.i
  | .ack l => l.successCnt ≤ l.i
  | _ => True

theorem AtEnd.eq {p : Pass} (h : p.AtEnd) :
    p.owed = 0 ∧ p.cleared = 0 ∧ p.done = 0 ∧ p.iters = [] ∧ p.unacked = 0 ∧ p.InLoop := by
  cases p <;> first | exact ⟨rfl, rfl, rfl, rfl, rfl, trivial⟩ | cases h

end Pass

namespace Scan

variable (l : Scan)

@[simp] theorem owed_next : l.next.owed = l.successCnt := by
  unfold next
  split <;> rfl

@[simp] theorem cleared_next : l.next.cleared = l.successCnt := by
  unfold next
  split <;> rfl

@[simp] theorem done_next : l.next.done = l.i + 1 := by
  unfold next
  split <;> rfl

@[simp] theorem iters_next : l.next.iters = [] := by
  unfold next
  split <;> rfl

theorem unacked_next (h : l.i < l.num) : l.next.unacked = l.num := by
  unfold next
  split
  next => rfl
  next hend =>
    change l.i + 1 = l.num
    omega

theorem inLoop_next (h : l.successCnt ≤ l.i + 1) : l.next.InLoop := by
  unfold next
  split
  next hlt => exact ⟨hlt, h⟩
  next => exact h

end Scan

/-- The packets whose nodes are on `sending_list` or about to be freed. -/
def State.pending (s : State) : List (Option Skb) :=
  (s.pass.iters ++ s.queue.sendingList).map fun n => (s.queue.pairCache n).skb

structure Inv (c : Config) (s : State) : Prop where
  fifo : Tracks c.order s.fifo s.hist.posted s.hist.fetched s.hist.consumed s.hist.acked
  nodes : (s.queue.pairFreeList ++ s.queue.sendingList).Perm (List.range c.depth)
  credit : s.queue.leftCnt + s.queue.sendingList.length + s.pass.owed = c.depth / 4 * 3
  room : (s.hist.posted.length - s.hist.fetched) + s.held.length +
    (s.hist.consumed.length - s.hist.acked) ≤ s.queue.sendingList.length + s.pass.cleared
  seen : s.hist.seen = s.hist.acked + s.pass.unacked
  seen_le : s.hist.seen ≤ s.hist.consumed.length
  loop : s.pass.InLoop
  /-- A node about to be freed is not among those that the credits can take. -/
  iters : ∀ n ∈ s.pass.iters, n ∈ s.queue.pairFreeList.drop s.queue.leftCnt
  account : (s.hist.accepted.map some).Perm (s.hist.freed.map some ++ s.pending)

theorem inv_init (c : Config) : Inv c (init c) where
  fifo :=
    { k_le := c.order_le, rx_depth := rfl, tx_depth := rfl, rx_wr := by simp [init]
      rx_wptr := by simp [init], rx_rptr := by simp [init], tx_wptr := by simp [init]
      tx_rd := by simp [init], tx_rptr := by simp [init], fetched_le := le_rfl
      acked_le := le_rfl, rx_room := Nat.zero_le _, tx_room := Nat.zero_le _
      rx_holds := fun _ _ h => absurd h (Nat.not_lt_zero _)
      tx_holds := fun _ _ h => absurd h (Nat.not_lt_zero _) }
  nodes := by simp [init]
  credit := rfl
  room := le_rfl
  seen := rfl
  seen_le := le_rfl
  loop := trivial
  iters := by simp [init, Pass.iters]
  account := by simp [init, State.pending, Pass.iters]

namespace Inv

variable {c : Config} {s t : State} {l : Label}

theorem nodup (h : Inv c s) : (s.queue.pairFreeList ++ s.queue.sendingList).Nodup :=
  h.nodes.nodup_iff.mpr nodup_range

theorem length (h : Inv c s) :
    s.queue.pairFreeList.length + s.queue.sendingList.length = c.depth := by
  have hlen := h.nodes.length_eq
  rwa [length_append, length_range] at hlen

theorem sendingList_ne_nil (h : Inv c s) {m : Scan} {retryCnt : Nat}
    (hp : s.pass = .check m retryCnt) : s.queue.sendingList ≠ [] := by
  intro hnil
  have hroom := h.room
  have hseen := h.seen
  have hle := h.seen_le
  have hloop := h.loop
  simp only [hp, hnil, Pass.cleared, Pass.unacked, Pass.InLoop, length_nil]
    at hroom hseen hloop
  omega

theorem atEnd (h : Inv c s) (f : Flow) {p : Pass} (hs : s.pass.AtEnd) (hp : p.AtEnd) :
    Inv c { s with flow := f, pass := p } := by
  obtain ⟨ho, hc, _, hi, hu, _⟩ := hs.eq
  obtain ⟨ho', hc', _, hi', hu', hl'⟩ := hp.eq
  have hpending : State.pending { s with flow := f, pass := p } = s.pending := by
    simp only [State.pending, hi, hi']
  exact
    { fifo := h.fifo
      nodes := h.nodes
      credit := by simpa only [ho, ho'] using h.credit
      room := by simpa only [hc, hc'] using h.room
      seen := by simpa only [hu, hu'] using h.seen
      seen_le := h.seen_le
      loop := hl'
      iters := by simp [hi']
      account := by rw [hpending]; exact h.account }

theorem not_mem_of_first (h : Inv c s) {node : Nat} {rest : List Nat}
    (hleft : s.queue.leftCnt ≠ 0) (hnode : s.queue.pairFreeList = node :: rest) :
    node ∉ s.pass.iters ++ s.queue.sendingList := by
  have hnodup := h.nodup
  rw [hnode, cons_append, nodup_cons, mem_append, not_or] at hnodup
  obtain ⟨⟨hrest, hsending⟩, _⟩ := hnodup
  rw [mem_append, not_or]
  refine ⟨fun hiter => hrest ?_, hsending⟩
  have hdrop := h.iters node hiter
  obtain ⟨n, hn⟩ := Nat.exists_eq_succ_of_ne_zero hleft
  rw [hnode, hn, drop_succ_cons] at hdrop
  exact mem_of_mem_drop hdrop

theorem posted_lt (h : Inv c s) (hleft : s.queue.leftCnt ≠ 0) :
    s.hist.posted.length < s.hist.fetched + 2 ^ c.order := by
  have hcredit := h.credit
  have hroom := h.room
  have howed : s.pass.cleared ≤ s.pass.owed := by cases s.pass <;> simp [Pass.cleared, Pass.owed]
  have hdepth : c.depth = 2 ^ c.order := rfl
  omega

theorem post (h : Inv c s) {skb : Skb} {dmaAddr : UInt64} {des : Node} {index node : Nat}
    {rest : List Nat} (hleft : s.queue.leftCnt ≠ 0) (hindex : s.fifo.getRxFifoWr 0 = some index)
    (hnode : s.queue.pairFreeList = node :: rest) :
    Inv c (post s skb dmaAddr des index node) := by
  have hfresh := h.not_mem_of_first hleft hnode
  have hfirst : index = s.hist.posted.length % 2 ^ c.order :=
    some.inj (hindex.symm.trans (h.fifo.getRxFifoWr (Nat.two_pow_pos _)))
  have hlt := h.posted_lt hleft
  have hfetched := h.fifo.fetched_le
  have hskb : ∀ n ∈ s.pass.iters ++ s.queue.sendingList,
      Function.update s.queue.pairCache node ⟨some skb, dmaAddr⟩ n = s.queue.pairCache n :=
    fun n hn => Function.update_of_ne (ne_of_mem_of_not_mem hn hfresh) _ _
  have hpending : (Sipa.post s skb dmaAddr des index node).pending = s.pending ++ [some skb] := by
    simp only [State.pending, Sipa.post, ← append_assoc]
    rw [map_append, map_congr_left fun n hn => congrArg SkbDmaAddrNode.skb (hskb n hn)]
    simp
  exact
    { fifo := by rw [hfirst]; exact h.fifo.post hlt
      nodes := by
        have hnodes := h.nodes
        rw [hnode] at hnodes
        simp only [Sipa.post, hnode, tail_cons]
        rw [← append_assoc]
        exact (perm_append_singleton node _).trans hnodes
      credit := by
        have hcredit := h.credit
        simp only [Sipa.post, length_append, length_singleton]
        omega
      room := by
        have hroom := h.room
        simp only [Sipa.post, length_append, length_singleton]
        omega
      seen := h.seen
      seen_le := h.seen_le
      loop := h.loop
      iters := fun n hn => by
        have hdrop := h.iters n hn
        obtain ⟨k, hk⟩ := Nat.exists_eq_succ_of_ne_zero hleft
        rw [hnode, hk, drop_succ_cons] at hdrop
        simpa only [Sipa.post, hnode, tail_cons, hk, Nat.succ_sub_one] using hdrop
      account := by
        rw [hpending]
        have haccount := h.account.append_right [some skb]
        simpa only [Sipa.post, map_append, map_cons, map_nil, append_assoc]
          using haccount }

theorem start (h : Inv c s) (hp : s.pass = .idle) {p : Pass}
    (hstart : p = if 0 < s.fifo.txFilled then .check ⟨s.fifo.txFilled, 0, 0, 0⟩ 10
      else .ack ⟨s.fifo.txFilled, 0, 0, 0⟩) :
    Inv c { s with
      pass := p, hist := { s.hist with seen := s.hist.consumed.length } } := by
  have hfilled := h.fifo.txFilled
  have hacked := h.fifo.acked_le
  have hfields : p.owed = 0 ∧ p.cleared = 0 ∧ p.iters = [] ∧ p.unacked = s.fifo.txFilled ∧
      p.InLoop := by
    subst hstart
    split
    next hpos => exact ⟨rfl, rfl, rfl, rfl, hpos, le_rfl⟩
    next hzero => exact ⟨rfl, rfl, rfl, (Nat.eq_zero_of_not_pos hzero).symm, le_rfl⟩
  obtain ⟨ho, hc, hi, hu, hl⟩ := hfields
  have hcredit := h.credit
  have hroom := h.room
  have haccount := h.account
  simp only [State.pending, hp, Pass.owed, Pass.cleared, Pass.iters] at hcredit hroom haccount
  exact
    { fifo := h.fifo
      nodes := h.nodes
      credit := by simpa only [ho] using hcredit
      room := by simpa only [hc] using hroom
      seen := by
        simp only [hu]
        omega
      seen_le := le_rfl
      loop := hl
      iters := by simp [hi]
      account := by simpa only [State.pending, hi] using haccount }

theorem found (h : Inv c s) {m : Scan} {retryCnt iter : Nat} (hp : s.pass = .check m retryCnt)
    (hiter : iter ∈ s.queue.sendingList) :
    Inv c { s with
      queue := { s.queue with
        sendingList := s.queue.sendingList.erase iter
        pairFreeList := s.queue.pairFreeList ++ [iter] }
      pass := .release m iter } := by
  have hcredit := h.credit
  have hroom := h.room
  have hlen := h.length
  have hseen := h.seen
  have hloop := h.loop
  have haccount := h.account
  have herase := length_erase_of_mem hiter
  have hpos := length_pos_of_mem hiter
  simp only [State.pending, hp, Pass.owed, Pass.cleared, Pass.unacked, Pass.iters,
    nil_append] at hcredit hroom hseen hloop haccount
  exact
    { fifo := h.fifo
      nodes := by
        have hperm := perm_cons_erase hiter
        rw [append_assoc, singleton_append]
        exact (hperm.symm.append_left _).trans h.nodes
      credit := by
        simp only [Pass.owed, herase]
        omega
      room := by
        simp only [Pass.cleared, herase]
        omega
      seen := hseen
      seen_le := h.seen_le
      loop := hloop
      iters := by
        -- the free nodes before it are more than the credits
        have hle : s.queue.leftCnt ≤ s.queue.pairFreeList.length := by
          have hdepth := Nat.div_mul_le_self c.depth 4
          omega
        intro n hn
        obtain rfl : n = iter := by simpa [Pass.iters] using hn
        rw [drop_append_of_le_length hle]
        simp
      account := by
        refine haccount.trans (Perm.append_left _ ?_)
        exact (perm_cons_erase hiter).map _ }

theorem missed (h : Inv c s) {m : Scan} {retryCnt : Nat} {p : Pass}
    (hp : s.pass = .check m retryCnt)
    (hnext : p = .check m (retryCnt - 1) ∨
      p = Scan.next { m with failedCnt := m.failedCnt + 1 }) :
    Inv c { s with pass := p } := by
  have hloop := h.loop
  simp only [hp, Pass.InLoop] at hloop
  have hfields : p.owed = s.pass.owed ∧ p.cleared = s.pass.cleared ∧ p.iters = s.pass.iters ∧
      p.unacked = s.pass.unacked ∧ p.InLoop := by
    rw [hp]
    rcases hnext with rfl | rfl
    · exact ⟨rfl, rfl, rfl, rfl, hloop⟩
    · exact ⟨Scan.owed_next _, Scan.cleared_next _, Scan.iters_next _,
        Scan.unacked_next _ hloop.1, Scan.inLoop_next _ (Nat.le_succ_of_le hloop.2)⟩
  obtain ⟨ho, hc, hi, hu, hl⟩ := hfields
  have hpending : State.pending { s with pass := p } = s.pending := by
    simp only [State.pending, hi]
  exact
    { fifo := h.fifo
      nodes := h.nodes
      credit := by simpa only [ho] using h.credit
      room := by simpa only [hc] using h.room
      seen := by simpa only [hu] using h.seen
      seen_le := h.seen_le
      loop := hl
      iters := by simpa only [hi] using h.iters
      account := by rw [hpending]; exact h.account }

theorem release (h : Inv c s) {m : Scan} {iter : Nat} {skb : Skb} (x : UInt64 × Nat)
    (hp : s.pass = .release m iter) (hskb : (s.queue.pairCache iter).skb = some skb) :
    Inv c { s with
      pass := Scan.next { m with successCnt := m.successCnt + 1 }
      hist := { s.hist with
        freed := s.hist.freed ++ [skb], unmapped := s.hist.unmapped ++ [x] } } := by
  have hcredit := h.credit
  have hroom := h.room
  have hseen := h.seen
  have hloop := h.loop
  have haccount := h.account
  simp only [State.pending, hp, Pass.owed, Pass.cleared, Pass.unacked, Pass.InLoop, Pass.iters,
    singleton_append, map_cons, hskb] at hcredit hroom hseen hloop haccount
  exact
    { fifo := h.fifo
      nodes := h.nodes
      credit := by simpa using hcredit
      room := by simpa using hroom
      seen := hseen.trans (congrArg (s.hist.acked + ·)
        (Scan.unacked_next { m with successCnt := m.successCnt + 1 } hloop.1).symm)
      seen_le := h.seen_le
      loop := Scan.inLoop_next _ (Nat.succ_le_succ hloop.2)
      iters := by simp
      account := by simpa [State.pending] using haccount }

theorem ack (h : Inv c s) {m : Scan} (hp : s.pass = .ack m) :
    Inv c { s with
      fifo := (s.fifo.setTxFifoRp m.i).2
      pass := .credit m.successCnt
      hist := { s.hist with acked := s.hist.acked + m.i } } := by
  have hcredit := h.credit
  have hroom := h.room
  have hseen := h.seen
  have hle := h.seen_le
  have hloop := h.loop
  have haccount := h.account
  simp only [State.pending, hp, Pass.owed, Pass.cleared, Pass.unacked, Pass.InLoop, Pass.iters]
    at hcredit hroom hseen hloop haccount
  exact
    { fifo := h.fifo.ack (by omega)
      nodes := h.nodes
      credit := hcredit
      room := by
        simp only [Pass.cleared]
        omega
      seen := hseen
      seen_le := hle
      loop := trivial
      iters := by simp [Pass.iters]
      account := haccount }

theorem giveBack (h : Inv c s) {n : Nat} (hp : s.pass = .credit n) :
    Inv c { s with
      queue := { s.queue with leftCnt := s.queue.leftCnt + n }, pass := .freeEnd } := by
  have hcredit := h.credit
  have hroom := h.room
  have hseen := h.seen
  have haccount := h.account
  simp only [State.pending, hp, Pass.owed, Pass.cleared, Pass.unacked, Pass.iters]
    at hcredit hroom hseen haccount
  exact
    { fifo := h.fifo
      nodes := h.nodes
      credit := by
        simp only [Pass.owed]
        omega
      room := hroom
      seen := hseen
      seen_le := h.seen_le
      loop := trivial
      iters := by simp [Pass.iters]
      account := haccount }

theorem fetch (h : Inv c s) {node : Node} {f : FifoCfg} (hf : s.fifo.fetch = some (node, f)) :
    Inv c { s with
      fifo := f, held := s.held ++ [node]
      hist := { s.hist with fetched := s.hist.fetched + 1 } } := by
  obtain ⟨hnode, hfifo⟩ := h.fifo.fetch hf
  have hlt := (List.getElem?_eq_some_iff.mp hnode).1
  have hroom := h.room
  exact
    { h with
      fifo := hfifo
      room := by
        simp only [length_append, length_singleton]
        omega }

theorem complete (h : Inv c s) {k : Nat} {node node' : Node} {f : FifoCfg}
    (hnode : s.held[k]? = some node) (hf : s.fifo.complete node' = some f) :
    Inv c { s with
      fifo := f, held := s.held.eraseIdx k
      hist := { s.hist with consumed := s.hist.consumed ++ [node'] } } := by
  have hlt := (List.getElem?_eq_some_iff.mp hnode).1
  have hroom := h.room
  have hle := h.seen_le
  exact
    { h with
      fifo := h.fifo.complete hf
      room := by
        simp only [length_append, length_singleton, length_eraseIdx_of_lt hlt]
        omega
      seen_le := by
        simp only [length_append]
        omega }

theorem step (h : Inv c s) (hstep : Sipa.step c s l = some t) : Inv c t := by
  cases move_of_step hstep with
  | flow f => exact { h with }
  | atEnd f hs hp => exact h.atEnd f hs hp
  | post hleft hindex hnode => exact h.post hleft hindex hnode
  | start hp hstart => exact h.start hp hstart
  | empty hp hnil => exact absurd hnil (h.sendingList_ne_nil hp)
  | found hp hiter _ => exact h.found hp hiter
  | missed hp _ hnext => exact h.missed hp hnext
  | release hp hskb => exact h.release _ hp hskb
  | ack hp => exact h.ack hp
  | credit hp => exact h.giveBack hp
  | fetch hf => exact h.fetch hf
  | complete hnode hf => exact h.complete hnode hf

theorem of_reachable (h : Transition.Reachable (Sipa.step c) (init c) s) : Inv c s :=
  h.invariant (inv_init c) fun _ _ _ hinv _ hstep => hinv.step hstep

theorem done_le (h : Inv c s) : s.hist.acked + s.pass.done ≤ s.hist.consumed.length := by
  have hseen := h.seen
  have hle := h.seen_le
  have hloop := h.loop
  cases hp : s.pass with
  | check m _ | release m _ | ack m =>
    simp only [hp, Pass.unacked, Pass.InLoop, Pass.done] at hseen hloop ⊢
    omega
  | _ =>
    simp only [hp, Pass.unacked, Pass.done] at hseen ⊢
    omega

theorem node_of_check (h : Inv c s) {m : Scan} {retryCnt : Nat}
    (hp : s.pass = .check m retryCnt) :
    s.hist.consumed.drop (s.hist.acked + m.i) =
      s.fifo.getTxFifoRp m.i :: s.hist.consumed.drop (s.hist.acked + m.i + 1) := by
  have hseen := h.seen
  have hle := h.seen_le
  have hloop := h.loop
  simp only [hp, Pass.unacked, Pass.InLoop] at hseen hloop
  rw [h.fifo.getTxFifoRp (by omega), ← drop_eq_getElem_cons]

end Inv

/-- A mapping fits in a descriptor and differs from those of the pending packets. -/
def Keyed (c : Config) (s : State) : Label → Prop
  | .sendData _ _ _ _ (some a) => (a + c.pcieMemOffset).toNat < 2 ^ 40 ∧
      ∀ n ∈ s.queue.sendingList, (s.queue.pairCache n).dmaAddr ≠ a + c.pcieMemOffset
  | _ => True

instance (c : Config) (s : State) : (l : Label) → Decidable (Keyed c s l)
  | .sendData _ _ _ _ (some a) => inferInstanceAs (Decidable ((a + c.pcieMemOffset).toNat < 2 ^ 40 ∧
      ∀ n ∈ s.queue.sendingList, (s.queue.pairCache n).dmaAddr ≠ a + c.pcieMemOffset))
  | .sendData _ _ _ _ none | .notifyCb _ | .freeSentItems | .pass _ | .fetch | .complete _ _ =>
    inferInstanceAs (Decidable True)

/-- The descriptors whose packet the call has not come to. -/
def State.inflight (s : State) : List Node :=
  s.hist.posted.drop s.hist.fetched ++ s.held ++
    s.hist.consumed.drop (s.hist.acked + s.pass.done)

def Node.key (node : Node) : UInt64 × Option Skb := (node.dmaAddr, some node.skb)

def SkbDmaAddrNode.key (n : SkbDmaAddrNode) : UInt64 × Option Skb := (n.dmaAddr, n.skb)

structure Matched (s : State) : Prop where
  distinct : (s.queue.sendingList.map fun n => (s.queue.pairCache n).dmaAddr).Nodup
  keys : (s.inflight.map Node.key).Perm
    (s.queue.sendingList.map fun n => (s.queue.pairCache n).key)
  freed : (s.hist.freed.map some ++ s.pass.iters.map fun n => (s.queue.pairCache n).skb) =
    (s.hist.consumed.take (s.hist.acked + s.pass.done)).map fun node => some node.skb

theorem dmaAddr_des {s : State} {skb : Skb} {dst : BitVec 5} {netid : UInt8} {a : UInt64}
    (ha : a.toNat < 2 ^ 40) : (des s skb dst netid a).dmaAddr = a := by
  apply UInt64.toNat_inj.mp
  change (((a.toBitVec.setWidth 40).setWidth 64).toNat) = a.toNat
  rw [BitVec.toNat_setWidth, BitVec.toNat_setWidth, UInt64.toNat_toBitVec,
    Nat.mod_eq_of_lt (a := a.toNat) ha, Nat.mod_eq_of_lt (by omega)]

namespace Matched

variable {c : Config} {s t : State} {l : Label}

theorem atEnd (h : Matched s) (f : Flow) {p : Pass} (hs : s.pass.AtEnd) (hp : p.AtEnd) :
    Matched { s with flow := f, pass := p } := by
  obtain ⟨_, _, hd, hi, _⟩ := hs.eq
  obtain ⟨_, _, hd', hi', _⟩ := hp.eq
  have hkeys := h.keys
  have hfreed := h.freed
  simp only [State.inflight, hd] at hkeys
  simp only [hd, hi] at hfreed
  exact
    { distinct := h.distinct
      keys := by simpa only [State.inflight, hd'] using hkeys
      freed := by simpa only [hd', hi'] using hfreed }

theorem post (h : Matched s) (hinv : Inv c s) {skb : Skb} {dmaAddr : UInt64} {des : Node}
    {index node : Nat} {rest : List Nat} (hleft : s.queue.leftCnt ≠ 0)
    (hnode : s.queue.pairFreeList = node :: rest) (hdes : des.key = (dmaAddr, some skb))
    (hnew : ∀ n ∈ s.queue.sendingList, (s.queue.pairCache n).dmaAddr ≠ dmaAddr) :
    Matched (post s skb dmaAddr des index node) := by
  have hfresh := hinv.not_mem_of_first hleft hnode
  rw [mem_append, not_or] at hfresh
  have hfetched := hinv.fifo.fetched_le
  have hcache : ∀ l : List Nat, node ∉ l → ∀ {β : Type} (f : SkbDmaAddrNode → β),
      (l.map fun n => f (Function.update s.queue.pairCache node ⟨some skb, dmaAddr⟩ n)) =
        l.map fun n => f (s.queue.pairCache n) := fun l hl β f =>
    map_congr_left fun n hn => by
      rw [Function.update_of_ne (ne_of_mem_of_not_mem hn hl)]
  exact
    { distinct := by
        simp only [Sipa.post, map_append, map_cons, map_nil, Function.update_self]
        rw [hcache _ hfresh.2, nodup_append]
        refine ⟨h.distinct, by simp, fun x hx y hy => ?_⟩
        obtain ⟨n, hn, rfl⟩ := List.mem_map.mp hx
        obtain rfl : y = dmaAddr := by simpa using hy
        exact hnew n hn
      keys := by
        have hkeys := h.keys.append_right [des.key]
        simp only [State.inflight, Sipa.post, drop_append_of_le_length hfetched,
          map_append, map_cons, map_nil, Function.update_self] at hkeys ⊢
        rw [hcache _ hfresh.2]
        refine Perm.trans ?_ (hdes ▸ hkeys)
        grind
      freed := by
        simp only [Sipa.post]
        rw [hcache _ hfresh.1]
        exact h.freed }

theorem start (h : Matched s) (hp : s.pass = .idle) {p : Pass}
    (hstart : p = if 0 < s.fifo.txFilled then .check ⟨s.fifo.txFilled, 0, 0, 0⟩ 10
      else .ack ⟨s.fifo.txFilled, 0, 0, 0⟩) :
    Matched { s with
      pass := p, hist := { s.hist with seen := s.hist.consumed.length } } := by
  have hfields : p.done = 0 ∧ p.iters = [] := by
    subst hstart
    split <;> exact ⟨rfl, rfl⟩
  obtain ⟨hd, hi⟩ := hfields
  have hkeys := h.keys
  have hfreed := h.freed
  simp only [State.inflight, hp, Pass.done] at hkeys
  simp only [hp, Pass.done, Pass.iters] at hfreed
  exact
    { distinct := h.distinct
      keys := by simpa only [State.inflight, hd] using hkeys
      freed := by simpa only [hd, hi] using hfreed }

theorem exists_pending (h : Matched s) (hinv : Inv c s) {m : Scan} {retryCnt : Nat}
    (hp : s.pass = .check m retryCnt) :
    ∃ n ∈ s.queue.sendingList, (s.queue.pairCache n).key = (s.fifo.getTxFifoRp m.i).key := by
  have hmem : (s.fifo.getTxFifoRp m.i).key ∈ s.inflight.map Node.key := by
    refine List.mem_map_of_mem (mem_append_right _ ?_)
    simp only [hp, Pass.done, hinv.node_of_check hp, mem_cons, true_or]
  obtain ⟨n, hn, heq⟩ := List.mem_map.mp (h.keys.subset hmem)
  exact ⟨n, hn, heq⟩

theorem key_of_dmaAddr (h : Matched s) (hinv : Inv c s) {m : Scan} {retryCnt iter : Nat}
    (hp : s.pass = .check m retryCnt) (hiter : iter ∈ s.queue.sendingList)
    (haddr : (s.queue.pairCache iter).dmaAddr = (s.fifo.getTxFifoRp m.i).dmaAddr) :
    (s.queue.pairCache iter).key = (s.fifo.getTxFifoRp m.i).key := by
  obtain ⟨n, hn, hkey⟩ := h.exists_pending hinv hp
  have hsame : (s.queue.pairCache n).dmaAddr = (s.queue.pairCache iter).dmaAddr :=
    (congrArg Prod.fst hkey).trans haddr.symm
  obtain rfl : n = iter := inj_on_of_nodup_map h.distinct hn hiter hsame
  exact hkey

theorem found (h : Matched s) (hinv : Inv c s) {m : Scan} {retryCnt iter : Nat}
    (hp : s.pass = .check m retryCnt) (hiter : iter ∈ s.queue.sendingList)
    (haddr : (s.queue.pairCache iter).dmaAddr = (s.fifo.getTxFifoRp m.i).dmaAddr) :
    Matched { s with
      queue := { s.queue with
        sendingList := s.queue.sendingList.erase iter
        pairFreeList := s.queue.pairFreeList ++ [iter] }
      pass := .release m iter } := by
  have hkey := h.key_of_dmaAddr hinv hp hiter haddr
  have hnode := hinv.node_of_check hp
  have hkeys := h.keys
  have hfreed := h.freed
  simp only [State.inflight, hp, Pass.done, hnode] at hkeys
  simp only [hp, Pass.done, Pass.iters, map_nil, append_nil] at hfreed
  exact
    { distinct := h.distinct.sublist (erase_sublist.map _)
      keys := by
        have herase := (perm_cons_erase hiter).map fun n => (s.queue.pairCache n).key
        have hperm := (perm_middle.map Node.key).symm.trans (hkeys.trans herase)
        rw [map_cons, map_cons, hkey] at hperm
        exact hperm.cons_inv
      freed := by
        have hskb := congrArg Prod.snd hkey
        simp only [SkbDmaAddrNode.key, Node.key] at hskb
        simp only [Pass.done, Pass.iters, map_cons, map_nil, hfreed, hskb]
        rw [← Nat.add_assoc, take_add (j := 1), hnode, map_append]
        rfl }

theorem release (h : Matched s) {m : Scan} {iter : Nat} {skb : Skb} (x : UInt64 × Nat)
    (hp : s.pass = .release m iter) (hskb : (s.queue.pairCache iter).skb = some skb) :
    Matched { s with
      pass := Scan.next { m with successCnt := m.successCnt + 1 }
      hist := { s.hist with
        freed := s.hist.freed ++ [skb], unmapped := s.hist.unmapped ++ [x] } } := by
  have hkeys := h.keys
  have hfreed := h.freed
  simp only [State.inflight, hp, Pass.done] at hkeys
  simp only [hp, Pass.done, Pass.iters, map_cons, map_nil, hskb] at hfreed
  exact
    { distinct := h.distinct
      keys := by simpa only [State.inflight, Scan.done_next] using hkeys
      freed := by simpa [Scan.done_next, Scan.iters_next] using hfreed }

theorem ack (h : Matched s) {m : Scan} (f : FifoCfg) (hp : s.pass = .ack m) :
    Matched { s with
      fifo := f, pass := .credit m.successCnt
      hist := { s.hist with acked := s.hist.acked + m.i } } := by
  have hkeys := h.keys
  have hfreed := h.freed
  simp only [State.inflight, hp, Pass.done] at hkeys
  simp only [hp, Pass.done, Pass.iters] at hfreed
  exact { distinct := h.distinct, keys := hkeys, freed := hfreed }

theorem giveBack (h : Matched s) {n : Nat} (hp : s.pass = .credit n) :
    Matched { s with
      queue := { s.queue with leftCnt := s.queue.leftCnt + n }, pass := .freeEnd } := by
  have hkeys := h.keys
  have hfreed := h.freed
  simp only [State.inflight, hp, Pass.done] at hkeys
  simp only [hp, Pass.done, Pass.iters] at hfreed
  exact { distinct := h.distinct, keys := hkeys, freed := hfreed }

theorem fetch (h : Matched s) (hinv : Inv c s) {node : Node} {f : FifoCfg}
    (hf : s.fifo.fetch = some (node, f)) :
    Matched { s with
      fifo := f, held := s.held ++ [node]
      hist := { s.hist with fetched := s.hist.fetched + 1 } } := by
  obtain ⟨hnode, _⟩ := hinv.fifo.fetch hf
  obtain ⟨hlt, hget⟩ := List.getElem?_eq_some_iff.mp hnode
  have hkeys := h.keys
  simp only [State.inflight, drop_eq_getElem_cons hlt, hget] at hkeys
  exact
    { distinct := h.distinct
      keys := by
        refine Perm.trans (Perm.map _ ?_) hkeys
        simp only [State.inflight, append_assoc, cons_append]
        rw [← append_assoc, ← append_assoc]
        exact perm_middle.trans (by simp)
      freed := h.freed }

theorem complete (h : Matched s) (hinv : Inv c s) {k : Nat} {node : Node} {errCode : BitVec 4}
    {f : FifoCfg} (hnode : s.held[k]? = some node) :
    Matched { s with
      fifo := f, held := s.held.eraseIdx k
      hist := { s.hist with
        consumed := s.hist.consumed ++ [{ node with errCode := errCode }] } } := by
  have hdone := hinv.done_le
  obtain ⟨hlt, hget⟩ := List.getElem?_eq_some_iff.mp hnode
  have hheld : (node :: s.held.eraseIdx k).Perm s.held := by
    rw [← hget]
    exact getElem_cons_eraseIdx_perm hlt
  exact
    { distinct := h.distinct
      keys := by
        refine Perm.trans ?_ h.keys
        have hkey : Node.key { node with errCode := errCode } = node.key := rfl
        have hmap := hheld.map Node.key
        simp only [State.inflight, drop_append_of_le_length hdone, map_append,
          map_cons, map_nil, hkey] at hmap ⊢
        grind
      freed := by
        simp only [take_append_of_le_length hdone]
        exact h.freed }

theorem step (h : Matched s) (hinv : Inv c s) (hl : Keyed c s l)
    (hstep : Sipa.step c s l = some t) : Matched t := by
  cases move_of_step hstep with
  | flow f => exact { h with }
  | atEnd f hs hp => exact h.atEnd f hs hp
  | post hleft _ hnode =>
    exact h.post hinv hleft hnode (by rw [Node.key, dmaAddr_des hl.1]; rfl) hl.2
  | start hp hstart => exact h.start hp hstart
  | empty hp hnil => exact absurd hnil (hinv.sendingList_ne_nil hp)
  | found hp hiter haddr => exact h.found hinv hp hiter haddr
  | missed hp hmiss _ =>
    obtain ⟨n, hn, hkey⟩ := h.exists_pending hinv hp
    exact absurd (congrArg Prod.fst hkey) (hmiss n hn)
  | release hp hskb => exact h.release _ hp hskb
  | ack hp => exact h.ack _ hp
  | credit hp => exact h.giveBack hp
  | fetch hf => exact h.fetch hinv hf
  | complete hnode _ => exact h.complete hinv hnode

theorem of_reaches (h : Transition.Reaches (Sipa.step c) (Keyed c) (init c) s) :
    Inv c s ∧ Matched s := by
  have hinit : Matched (init c) :=
    { distinct := nodup_nil, keys := Perm.nil, freed := rfl }
  exact h.invariant (P := fun s => Inv c s ∧ Matched s) ⟨inv_init c, hinit⟩
    fun _ _ _ hinv hl hstep => ⟨hinv.1.step hstep, hinv.2.step hinv.1 hl hstep⟩

end Matched

namespace Pass

/-- The steps left up to `sipa_free_end`, at most. -/
def weight : Pass → Nat
  | .check l retryCnt => 13 * (l.num - l.i) + retryCnt + 2
  | .release l _ => 13 * (l.num - l.i) + 1
  | .ack _ => 2
  | .credit _ => 1
  | _ => 0

/-- Before `sipa_free_end`. -/
def Working : Pass → Prop
  | .check _ _ | .release _ _ | .ack _ | .credit _ => True
  | _ => False

end Pass

theorem Scan.working_next (l : Scan) : l.next.Working := by
  unfold Scan.next
  split <;> trivial

theorem Scan.weight_next {l : Scan} (h : l.i < l.num) :
    l.next.weight ≤ 13 * (l.num - l.i) := by
  unfold Scan.next
  split
  next hlt =>
    simp only [Pass.weight]
    omega
  next =>
    simp only [Pass.weight]
    omega

section

variable {c : Config} {s : State}

theorem exists_pass (h : Inv c s) (hp : s.pass.Working) :
    ∃ t, passStep c s 0 = some t ∧ (t.pass.Working ∨ t.pass = .freeEnd) ∧
      t.pass.weight < s.pass.weight ∧ t.hist.seen = s.hist.seen := by
  unfold passStep
  cases hpass : s.pass with
  | idle | freeEnd | cover _ | leave => simp [hpass, Pass.Working] at hp
  | check m retryCnt =>
    have hloop := h.loop
    simp only [hpass, Pass.InLoop] at hloop
    refine ⟨check s m retryCnt, rfl, ?_⟩
    unfold check
    rw [if_neg (h.sendingList_ne_nil hpass)]
    split
    next iter _ => exact ⟨.inl trivial, by simp only [Pass.weight]; omega, rfl⟩
    next =>
      split
      next hretry => exact ⟨.inl trivial, by simp only [Pass.weight]; omega, rfl⟩
      next =>
        have hweight := Scan.weight_next (l := { m with failedCnt := m.failedCnt + 1 }) hloop.1
        exact ⟨.inl (Scan.working_next _), by simp only [Pass.weight] at hweight ⊢; omega, rfl⟩
  | release m iter =>
    have hloop := h.loop
    have hmem : (s.queue.pairCache iter).skb ∈ s.hist.accepted.map some := by
      refine h.account.symm.subset (mem_append_right _ ?_)
      simp [State.pending, hpass, Pass.iters]
    obtain ⟨skb, _, hskb⟩ := List.mem_map.mp hmem
    simp only [hpass, Pass.InLoop] at hloop
    have hweight := Scan.weight_next (l := { m with successCnt := m.successCnt + 1 }) hloop.1
    simp only [release, ← hskb, map_some, some.injEq, exists_eq_left', Pass.weight]
      at hweight ⊢
    exact ⟨.inl (Scan.working_next _), by omega, trivial⟩
  | ack m => exact ⟨_, rfl, .inl trivial, Nat.lt_succ_self 1, rfl⟩
  | credit n => exact ⟨_, rfl, .inr rfl, Nat.one_pos, rfl⟩

def OfCall : Label → Prop
  | .freeSentItems | .pass _ => True
  | _ => False

theorem exists_freeEnd (h : Inv c s) (hp : s.pass.Working) :
    ∃ t, Transition.Reaches (step c) (fun _ l => OfCall l) s t ∧ t.pass = .freeEnd ∧
      t.hist.acked = s.hist.seen := by
  induction hw : s.pass.weight using Nat.strong_induction_on generalizing s with
  | h w ih =>
    obtain ⟨t, hstep, hnext, hlt, hseen⟩ := exists_pass h hp
    have hstep' : step c s (.pass 0) = some t := hstep
    have hreach : Transition.Reaches (step c) (fun _ l => OfCall l) s t :=
      .single (show OfCall (.pass 0) from trivial) hstep'
    have hinv : Inv c t := h.step hstep'
    rcases hnext with hworking | hend
    · obtain ⟨u, hu, huend, huacked⟩ := ih _ (hw ▸ hlt) hinv hworking rfl
      exact ⟨u, hreach.trans hu, huend, huacked.trans hseen⟩
    · have hacked := hinv.seen
      simp only [hend, Pass.unacked, Nat.add_zero] at hacked
      exact ⟨t, hreach, hend, hacked.symm.trans hseen⟩

theorem exists_call (h : Inv c s) (hp : s.pass = .idle) :
    ∃ t, Transition.Reaches (step c) (fun _ l => OfCall l) s t ∧ t.pass = .freeEnd ∧
      t.hist.acked = s.hist.consumed.length := by
  obtain ⟨u, hu, hworking, hseen⟩ : ∃ u, step c s .freeSentItems = some u ∧ u.pass.Working ∧
      u.hist.seen = s.hist.consumed.length := by
    simp only [step, freeSentItems, hp]
    refine ⟨_, rfl, ?_, rfl⟩
    dsimp only
    split <;> trivial
  obtain ⟨t, ht, hend, hacked⟩ := exists_freeEnd (h.step hu) hworking
  have hfirst : Transition.Reaches (step c) (fun _ l => OfCall l) s u :=
    .single (show OfCall .freeSentItems from trivial) hu
  exact ⟨t, hfirst.trans ht, hend, hacked.trans hseen⟩

end

/-- The lists share out the nodes of `pair_cache`, the credit makes up for the pending packets
between calls, each accepted packet is pending or was freed, and each node of the tx FIFO that a
call found is acknowledged once.  No call stops at an empty `sending_list`. -/
structure Conserved (c : Config) (s : State) : Prop where
  nodes : (s.queue.pairFreeList ++ s.queue.sendingList).Perm (List.range c.depth)
  credit : s.pass = .idle → s.queue.leftCnt + s.queue.sendingList.length = 3 * (c.depth / 4)
  account : (s.hist.accepted.map some).Perm (s.hist.freed.map some ++ s.pending)
  rd : s.fifo.txFifo.rd = s.hist.acked % (2 * c.depth)
  acked_le : s.hist.acked ≤ s.hist.consumed.length
  acked : s.pass = .idle → s.hist.acked = s.hist.seen
  goesOn : ∀ m retryCnt, s.pass = .check m retryCnt → s.queue.sendingList ≠ []
  call : s.pass = .idle → ∃ t, Transition.Reaches (step c) (fun _ l => OfCall l) s t ∧
    t.pass = .freeEnd ∧ t.hist.acked = s.hist.consumed.length

/-- Between calls the packets freed are those of the acknowledged nodes, in their order, and every
node that a call comes to matches a pending packet. -/
structure Released (s : State) : Prop where
  freed : s.pass = .idle →
    s.hist.freed = (s.hist.consumed.take s.hist.acked).map Node.skb
  matched : ∀ m retryCnt, s.pass = .check m retryCnt → ∃ n ∈ s.queue.sendingList,
    (s.queue.pairCache n).dmaAddr = (s.fifo.getTxFifoRp m.i).dmaAddr

theorem Inv.conserved {c : Config} {s : State} (h : Inv c s) : Conserved c s where
  nodes := h.nodes
  credit hp := by
    have hcredit := h.credit
    simp only [hp, Pass.owed] at hcredit
    omega
  account := h.account
  rd := h.fifo.tx_rd
  acked_le := h.fifo.acked_le
  acked hp := by
    have hseen := h.seen
    simp only [hp, Pass.unacked] at hseen
    exact hseen.symm
  goesOn _ _ hp := h.sendingList_ne_nil hp
  call hp := exists_call h hp

theorem Matched.released {c : Config} {s : State} (h : Matched s) (hinv : Inv c s) :
    Released s where
  freed hp := by
    have hfreed := h.freed
    simp only [hp, Pass.done, Pass.iters, map_nil, append_nil, Nat.add_zero] at hfreed
    refine map_injective_iff.mpr (some_injective _) ?_
    rw [hfreed, List.map_map]
    rfl
  matched _ _ hp := by
    obtain ⟨n, hn, hkey⟩ := h.exists_pending hinv hp
    exact ⟨n, hn, congrArg Prod.fst hkey⟩

theorem sender_conserves (c : Config) :
    (∀ s, Transition.Reachable (step c) (init c) s → Conserved c s) ∧
      ∀ s, Transition.Reaches (step c) (Keyed c) (init c) s → Released s :=
  ⟨fun _ h => (Inv.of_reachable h).conserved, fun _ h =>
    (Matched.of_reaches h).2.released (Matched.of_reaches h).1⟩

theorem sender_conserves_sentRun : ∃ s,
    Transition.Reaches (step .built) (Keyed .built) (init .built) s ∧
      (s.pass = .idle ∧ s.hist.freed = [⟨1, 60, 64⟩]) ∧ Conserved .built s ∧ Released s := by
  obtain ⟨s, hs, hrun⟩ : ∃ s,
      Transition.Reaches (step .built) (Keyed .built) (init .built) s ∧
        (s.pass = .idle ∧ s.hist.freed = [⟨1, 60, 64⟩]) :=
    Transition.exists_of_run
      [.sendData ⟨0, 100, 64⟩ 6 0 0 (some 0x1000), .sendData ⟨1, 60, 64⟩ 6 1 0 (some 0x2000),
        .fetch, .fetch, .complete 1 0, .freeSentItems, .pass 0, .pass 0, .pass 0, .pass 0,
        .pass 0, .pass 0]
      (by decide +kernel)
  exact ⟨s, hs, hrun, (sender_conserves .built).1 s hs.reachable,
    (sender_conserves .built).2 s hs⟩

def sharedRun : List Label :=
  [.sendData ⟨0, 100, 64⟩ 6 0 0 (some 0x1000), .sendData ⟨1, 100, 64⟩ 6 1 0 (some 0x1000),
    .fetch, .fetch, .complete 1 0, .freeSentItems, .pass 0, .pass 0, .pass 0, .pass 0, .pass 0,
    .pass 0]

theorem not_released_sharedRun :
    ¬ ∀ s, Transition.Reachable (step .built) (init .built) s → s.pass = .idle →
      s.hist.freed ⊆ s.hist.consumed.map Node.skb := by
  intro h
  obtain ⟨s, hs, hpass, hfreed, hconsumed⟩ :
      ∃ s, Transition.Reachable (step .built) (init .built) s ∧
      s.pass = .idle ∧ s.hist.freed = [⟨0, 100, 64⟩] ∧
        s.hist.consumed.map Node.skb = [⟨1, 100, 64⟩] :=
    Transition.exists_of_run sharedRun (by decide +kernel)
  have hsub := h s hs hpass
  rw [hfreed, hconsumed] at hsub
  revert hsub
  decide

end ModemSupport.Sipa
