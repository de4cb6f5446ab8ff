import ModemSupport.Sipa.Receiver
import ModemSupport.Lib.Lists

/-! The buffers and the descriptors of the receiver.  `recv_array` lists the buffers posted and not
yet received, the count of buffers to fill is what is missing, and a buffer received goes with the
node that has its address.  The count is what keeps `fill_free_fifo` within the room of the array,
and the array keeps it within the room of the rx FIFO. -/

namespace ModemSupport.Sipa.Receiver

open ModemSupport.Lib Lists List Option

/-- What the modem keeps of a descriptor: the address, and with it the buffer. -/
def nodeKey (node : Node) : BitVec 40 × Option Skb := (node.address, some node.skb)

def entryKey (entry : SkbDmaAddrNode) : BitVec 40 × Option Skb :=
  (entry.dmaAddr.toBitVec.setWidth 40, entry.skb)

/-- The entries that `sipa_recv_skb` takes for the buffers of the nodes beside them. -/
def matching (posted : List SkbDmaAddrNode) (consumed : List Node) :
    List (SkbDmaAddrNode × Node) :=
  (posted.zip consumed).filter fun x => x.1.dmaAddr = x.2.dmaAddr ∧ x.2.address ≠ 0

namespace Fill

def staged : Fill → Nat
  | .loop _ _ successCnt => successCnt
  | .publish successCnt => successCnt
  | _ => 0

/-- The buffers posted and not yet taken off the count. -/
def uncounted : Fill → Nat
  | .loop _ _ successCnt => successCnt
  | .publish successCnt => successCnt
  | .sub successCnt => successCnt
  | .idle => 0

/-- The call fills no more than the count asks for. -/
def Within (needFillCnt : Int) : Fill → Prop
  | .idle => True
  | .loop cnt i successCnt => i = successCnt ∧ i ≤ cnt ∧ cnt ≤ needFillCnt
  | .publish successCnt => 0 < successCnt ∧ successCnt ≤ needFillCnt
  | .sub successCnt => 0 < successCnt ∧ successCnt ≤ needFillCnt

theorem Within.mono {f : Fill} {n m : Int} (h : f.Within n) (hle : n ≤ m) : f.Within m := by
  cases f with
  | idle => trivial
  | loop => exact ⟨h.1, h.2.1, h.2.2.trans hle⟩
  | publish => exact ⟨h.1, h.2.trans hle⟩
  | sub => exact ⟨h.1, h.2.trans hle⟩

end Fill

namespace Poll

/-- The nodes that the pass is done with or looks at, and has not acknowledged. -/
def unacked : Poll → Nat
  | .idle => 0
  | .rx _ skbCnt => skbCnt
  | .read _ skbCnt _ _ => skbCnt + 1
  | .check _ skbCnt _ _ => skbCnt + 1
  | .ack pkts => pkts

/-- The buffers taken off `recv_array` and not yet put on the count. -/
def uncounted : Poll → Nat
  | .read .. => 1
  | .check .. => 1
  | _ => 0

def Looks (posted : List SkbDmaAddrNode) (consumed : List Node) (acked : Nat) : Poll → Prop
  | .rx budget skbCnt => skbCnt ≤ budget ∧ acked + budget ≤ consumed.length
  | .read budget skbCnt recv _ =>
    skbCnt < budget ∧ acked + budget ≤ consumed.length ∧
      ∃ entry, recv = some entry ∧ posted[acked + skbCnt]? = some entry
  | .check budget skbCnt recv _ =>
    skbCnt < budget ∧ acked + budget ≤ consumed.length ∧
      (∃ entry, recv = some entry ∧ posted[acked + skbCnt]? = some entry) ∧
      ∃ node, consumed[acked + skbCnt]? = some node ∧ node.address ≠ 0
  | _ => True

theorem Looks.mono {p : Poll} {posted : List SkbDmaAddrNode} {consumed : List Node} {acked : Nat}
    (h : p.Looks posted consumed acked) (entries : List SkbDmaAddrNode) (nodes : List Node) :
    p.Looks (posted ++ entries) (consumed ++ nodes) acked := by
  have hlen : consumed.length ≤ (consumed ++ nodes).length := by
    rw [length_append]
    omega
  cases p with
  | idle => trivial
  | ack => trivial
  | rx => exact ⟨h.1, h.2.trans hlen⟩
  | read =>
    obtain ⟨hlt, hle, entry, hrecv, hentry⟩ := h
    exact ⟨hlt, hle.trans hlen, entry, hrecv, getElem?_of_prefix (prefix_append _ _) hentry⟩
  | check =>
    obtain ⟨hlt, hle, ⟨entry, hrecv, hentry⟩, node, hnode, hne⟩ := h
    exact ⟨hlt, hle.trans hlen,
      ⟨entry, hrecv, getElem?_of_prefix (prefix_append _ _) hentry⟩, node,
      getElem?_of_prefix (prefix_append _ _) hnode, hne⟩

end Poll

structure Posted (c : Config) (s : State) : Prop where
  fifo : Stages c.order s.fifo s.hist.written s.hist.published s.hist.fetched s.hist.consumed
    s.hist.acked
  depth : s.recvArray.depth.toNat = 2 ^ c.order
  entries : s.recvArray.entries = s.hist.posted.drop s.hist.taken
  nodes : s.hist.written.map nodeKey = s.hist.posted.map entryKey

section

variable {c : Config} {s t : State}

theorem Posted.length (h : Posted c s) : s.hist.written.length = s.hist.posted.length := by
  have hlen := congrArg List.length h.nodes
  rwa [length_map, length_map] at hlen

theorem Posted.consumed_le (h : Posted c s) (hheld : s.hist.consumed.length ≤ s.hist.fetched) :
    s.hist.consumed.length ≤ s.hist.posted.length := by
  have hfetched := h.fifo.fetched_le
  have hpublished := h.fifo.published_le
  rw [← h.length]
  omega

theorem Posted.fillNode (h : Posted c s) {i : Nat} {skb : Option Skb} {dma : Option UInt64}
    (hlen : s.hist.published + i = s.hist.written.length)
    (htaken : s.hist.taken ≤ s.hist.fetched)
    (hroom : s.hist.posted.length < s.hist.taken + 2 ^ c.order)
    (hf : fillNode c s i skb dma = some t) :
    ∃ fifo recvArray entry node,
      t = { s with
        fifo := fifo
        recvArray := recvArray
        hist := { s.hist with
          posted := s.hist.posted ++ [entry]
          written := s.hist.written ++ [node] } } ∧
      Posted c t := by
  have hle := h.fifo.fetched_le
  have hlength := h.length
  unfold Receiver.fillNode at hf
  simp only [bind_eq_bind, bind_eq_some_iff, Option.pure_def] at hf
  obtain ⟨skb, _, dmaAddr, _, index, hindex, ht⟩ := hf
  rw [h.fifo.getRxFifoWr (by omega) hlen] at hindex
  obtain rfl := some.inj hindex
  have hentries : s.recvArray.entries.length < 2 ^ c.order := by
    rw [h.entries, length_drop]
    have := Nat.two_pow_pos c.order
    omega
  obtain ⟨p, hp, hdepth, hput⟩ :=
    SkbArray.put_of_room h.depth c.order_le hentries (sizeRecvSkb (allocRecvSkb skb))
      (dmaAddr + c.pcieMemOffset)
  rw [hp, getD_some] at ht
  cases ht
  refine ⟨_, _, _, _, rfl, ?_⟩
  exact
    { fifo := h.fifo.write (by omega)
      depth := hdepth ▸ h.depth
      entries := by
        have htakenle : s.hist.taken ≤ s.hist.posted.length := by omega
        rw [hput, h.entries, drop_append_of_le_length htakenle]
      nodes := by
        rw [map_append, map_append, h.nodes]
        rfl }

theorem Posted.setRxFifoWr (h : Posted c s) {num : Nat} (hnum : 0 < num)
    (hlen : s.hist.published + num = s.hist.written.length) : Posted c (setRxFifoWr s num) where
  fifo := by
    have hpublish := h.fifo.publish hnum hlen
    rw [← hlen] at hpublish
    exact hpublish
  depth := h.depth
  entries := h.entries
  nodes := h.nodes

theorem Posted.setTxFifoRp (h : Posted c s) {num : Nat}
    (hnum : s.hist.acked + num ≤ s.hist.consumed.length) : Posted c (setTxFifoRp s num) where
  fifo := h.fifo.ack hnum
  depth := h.depth
  entries := h.entries
  nodes := h.nodes

end

structure Prepared (c : Config) (i : Nat) (s : State) : Prop extends Posted c s where
  needFillCnt : s.needFillCnt = 0
  fill : s.fill = .idle
  poll : s.poll = .idle
  held : s.held = []
  written : s.hist.written.length = i
  published : s.hist.published = 0
  fetched : s.hist.fetched = 0
  consumed : s.hist.consumed = []
  acked : s.hist.acked = 0
  taken : s.hist.taken = 0
  returned : s.hist.returned = []

theorem created_prepared (c : Config) : Prepared c 0 (created c) where
  fifo :=
    { tracks :=
        { k_le := c.order_le, rx_depth := rfl, tx_depth := rfl, rx_wr := by simp [created]
          rx_wptr := by simp [created], rx_rptr := by simp [created], tx_wptr := by simp [created]
          tx_rd := by simp [created], tx_rptr := by simp [created], fetched_le := Nat.zero_le _
          acked_le := le_rfl, rx_room := Nat.zero_le _, tx_room := Nat.zero_le _
          rx_holds := fun _ _ h => absurd h (Nat.not_lt_zero _)
          tx_holds := fun _ _ h => absurd h (Nat.not_lt_zero _) }
      published_le := le_rfl
      room := Nat.zero_le _
      holds := fun _ _ h => absurd h (Nat.not_lt_zero _) }
  depth := by
    have hpow := Nat.pow_le_pow_right (n := 2) Nat.two_pos c.order_le
    exact UInt32.toNat_ofNat_of_lt' (by change 2 ^ c.order < 2 ^ 32; omega)
  entries := by simp [created, SkbArray.entries]
  nodes := rfl
  needFillCnt := rfl
  fill := rfl
  poll := rfl
  held := rfl
  written := rfl
  published := rfl
  fetched := rfl
  consumed := rfl
  acked := rfl
  taken := rfl
  returned := rfl

section

variable {c : Config} {s t : State} {i : Nat}

theorem Prepared.fillNode (h : Prepared c i s) (hi : i < 2 ^ c.order) (skb : Skb) (dma : UInt64) :
    ∃ t, Receiver.fillNode c s i (some skb) (some dma) = some t ∧ Prepared c (i + 1) t := by
  have hlen : s.hist.published + i = s.hist.written.length := by
    rw [h.published, h.written, Nat.zero_add]
  obtain ⟨t, ht⟩ : ∃ t, Receiver.fillNode c s i (some skb) (some dma) = some t := by
    unfold Receiver.fillNode
    rw [h.fifo.getRxFifoWr hi hlen]
    exact ⟨_, rfl⟩
  refine ⟨t, ht, ?_⟩
  have hposted : s.hist.posted.length < s.hist.taken + 2 ^ c.order := by
    rw [← h.length, h.written, h.taken, Nat.zero_add]
    exact hi
  obtain ⟨fifo, recvArray, entry, node, rfl, hpost⟩ :=
    h.toPosted.fillNode hlen (h.taken ▸ Nat.zero_le _) hposted ht
  exact { h with
    toPosted := hpost
    written := by simp [h.written] }

theorem Prepared.init (h : Prepared c i s) (bufs : List (Skb × UInt64))
    (hlen : i + bufs.length ≤ 2 ^ c.order) :
    Prepared c (i + bufs.length)
      (sipaPrepareFreeNodeInit c s i (bufs.map fun b => (some b.1, some b.2))) := by
  induction bufs generalizing s i with
  | nil => exact h
  | cons b bufs ih =>
    rw [length_cons] at hlen
    obtain ⟨t, ht, hprep⟩ := h.fillNode (by omega) b.1 b.2
    rw [map_cons, sipaPrepareFreeNodeInit, ht, length_cons,
      show i + (bufs.length + 1) = i + 1 + bufs.length by omega]
    exact ih hprep (by omega)

end

structure Inv (c : Config) (s : State) : Prop extends Posted c s where
  device : (s.hist.consumed ++ s.held).map nodeKey =
    (s.hist.written.take s.hist.fetched).map nodeKey
  count : s.needFillCnt + s.hist.posted.length + s.poll.uncounted =
    c.depth + s.fill.uncounted + s.hist.taken
  within : s.fill.Within s.needFillCnt
  staged : s.hist.published + s.fill.staged = s.hist.written.length
  taken : s.hist.taken = s.hist.acked + s.poll.unacked
  taken_le : s.hist.taken ≤ s.hist.consumed.length
  looks : s.poll.Looks s.hist.posted s.hist.consumed s.hist.acked
  returned : s.hist.returned =
    matching (s.hist.posted.take (s.hist.taken - s.poll.uncounted))
      (s.hist.consumed.take (s.hist.taken - s.poll.uncounted))

section

variable {c : Config} {s t : State}

theorem Prepared.inv (h : Prepared c c.depth s) : Inv c (sipaFillFreeNode s c.depth) where
  toPosted := by
    have hset := h.toPosted.setRxFifoWr (Nat.two_pow_pos c.order)
      (by rw [h.published, h.written, Nat.zero_add]; rfl)
    exact { hset with }
  device := by simp [sipaFillFreeNode, setRxFifoWr, h.consumed, h.held, h.fetched]
  count := by
    simp [sipaFillFreeNode, setRxFifoWr, h.poll, h.fill, h.taken, ← h.length, h.written,
      Poll.uncounted, Fill.uncounted]
  within := by simp [sipaFillFreeNode, setRxFifoWr, h.fill, Fill.Within]
  staged := by simp [sipaFillFreeNode, setRxFifoWr, h.fill, h.published, h.written, Fill.staged]
  taken := by simp [sipaFillFreeNode, setRxFifoWr, h.taken, h.acked, h.poll, Poll.unacked]
  taken_le := by simp [sipaFillFreeNode, setRxFifoWr, h.taken]
  looks := by simp [sipaFillFreeNode, setRxFifoWr, h.poll, Poll.Looks]
  returned := by simp [sipaFillFreeNode, setRxFifoWr, h.returned, h.taken, matching]

theorem init_inv (c : Config) (bufs : Nat → Skb × UInt64) : Inv c (init c bufs) := by
  have hlen : ((List.range c.depth).map bufs).length = c.depth := by simp
  have hprep := (created_prepared c).init ((List.range c.depth).map bufs)
    (by rw [hlen, Nat.zero_add]; exact le_rfl)
  rw [hlen, Nat.zero_add, List.map_map] at hprep
  exact hprep.inv

theorem Inv.consumed_le (h : Inv c s) :
    s.hist.consumed.length + s.held.length = s.hist.fetched := by
  have hlen := congrArg List.length h.device
  rw [length_map, length_append, length_map, length_take_of_le
    (h.fifo.fetched_le.trans h.fifo.published_le)] at hlen
  exact hlen

theorem Inv.taken_le_posted (h : Inv c s) : s.hist.taken ≤ s.hist.posted.length := by
  have hconsumed := h.consumed_le
  have htaken := h.taken_le
  have hfetched := h.fifo.fetched_le
  have hpublished := h.fifo.published_le
  have hlength := h.length
  omega

theorem Inv.room (h : Inv c s) {cnt i successCnt : Nat} (hfill : s.fill = .loop cnt i successCnt)
    (hi : i < cnt) : s.hist.posted.length < s.hist.taken + 2 ^ c.order := by
  have hcount := h.count
  have hwithin := h.within
  rw [hfill] at hcount hwithin
  obtain ⟨hsucc, _, hcnt⟩ := hwithin
  simp only [Fill.uncounted, Config.depth] at hcount
  omega

theorem Inv.fillEnd (h : Inv c s) {cnt i successCnt : Nat}
    (hfill : s.fill = .loop cnt i successCnt) : Inv c (fillEnd s successCnt) := by
  have hwithin := h.within
  have hcount := h.count
  have hstaged := h.staged
  rw [hfill] at hwithin hcount hstaged
  obtain ⟨hsucc, hle, hcnt⟩ := hwithin
  have hsuccle : (successCnt : Int) ≤ s.needFillCnt := by omega
  unfold Receiver.fillEnd
  split
  next hpos =>
    exact { h with
      count := hcount
      within := ⟨hpos, hsuccle⟩
      staged := hstaged }
  next hzero =>
    obtain rfl : successCnt = 0 := by omega
    exact { h with
      count := hcount
      within := trivial
      staged := hstaged }

theorem Inv.fillNode (h : Inv c s) {cnt i successCnt : Nat} {skb : Option Skb} {dma : Option UInt64}
    (hfill : s.fill = .loop cnt i successCnt) (hi : i < cnt)
    (hf : Receiver.fillNode c s i skb dma = some t) :
    Inv c { t with fill := .loop cnt (i + 1) (successCnt + 1) } := by
  have hwithin := h.within
  have hstaged := h.staged
  have hcount := h.count
  rw [hfill] at hwithin hstaged hcount
  obtain ⟨hsucc, hle, hcnt⟩ := hwithin
  have hconsumed := h.consumed_le
  have htaken := h.taken_le
  have hfetched := h.fifo.fetched_le.trans h.fifo.published_le
  have hposted : s.hist.taken - s.poll.uncounted ≤ s.hist.posted.length :=
    (Nat.sub_le _ _).trans h.taken_le_posted
  obtain ⟨fifo, recvArray, entry, node, rfl, hpost⟩ :=
    h.toPosted.fillNode (hsucc ▸ hstaged) (by omega) (h.room hfill hi) hf
  exact
    { fifo := hpost.fifo
      depth := hpost.depth
      entries := hpost.entries
      nodes := hpost.nodes
      device := by
        rw [take_append_of_le_length hfetched]
        exact h.device
      count := by
        simp only [Fill.uncounted, length_append, length_singleton] at hcount ⊢
        omega
      within := ⟨by omega, by omega, hcnt⟩
      staged := by
        simp only [Fill.staged, length_append, length_singleton] at hstaged ⊢
        omega
      taken := h.taken
      taken_le := htaken
      looks := by
        have hlooks := h.looks.mono [entry] []
        rwa [append_nil] at hlooks
      returned := by
        rw [take_append_of_le_length hposted]
        exact h.returned }

theorem Inv.fillFreeFifo (h : Inv c s) {skb : Option Skb} {dma : Option UInt64}
    (hf : fillFreeFifo c s skb dma = some t) : Inv c t := by
  unfold Receiver.fillFreeFifo at hf
  have hwithin := h.within
  have hcount := h.count
  have hstaged := h.staged
  cases hfill : s.fill with
  | idle =>
    rw [hfill] at hf hcount hstaged
    dsimp only at hf
    split at hf
    next hpos =>
      cases hf
      have hcnt : (s.needFillCnt.toNat : Int) ≤ s.needFillCnt := (Int.toNat_of_nonneg hpos.le).le
      exact { h with
        count := hcount
        within := ⟨rfl, Nat.zero_le _, hcnt⟩
        staged := hstaged }
    next => cases hf
  | loop cnt i successCnt =>
    rw [hfill] at hf
    obtain rfl := some.inj hf
    split
    next hi =>
      split
      next t ht => exact h.fillNode hfill hi ht
      next => exact h.fillEnd hfill
    next => exact h.fillEnd hfill
  | publish successCnt =>
    rw [hfill] at hf hwithin hcount hstaged
    obtain rfl := some.inj hf
    have hset := h.toPosted.setRxFifoWr hwithin.1 hstaged
    exact { hset, h with
      count := hcount
      within := hwithin
      staged := hstaged }
  | sub successCnt =>
    rw [hfill] at hf hwithin hcount hstaged
    obtain rfl := some.inj hf
    have hpos : 0 < s.needFillCnt := by
      have := hwithin.1
      have := hwithin.2
      omega
    exact { h with
      count := by
        simp only [if_pos hpos, Fill.uncounted] at hcount ⊢
        omega
      within := trivial
      staged := hstaged }

theorem Inv.setPoll (h : Inv c s) {p : Poll} (hunacked : p.unacked = s.poll.unacked)
    (huncounted : p.uncounted = s.poll.uncounted)
    (hlooks : p.Looks s.hist.posted s.hist.consumed s.hist.acked) : Inv c { s with poll := p } :=
  { h with
    count := by
      have hcount := h.count
      rwa [← huncounted] at hcount
    taken := by
      have htaken := h.taken
      rwa [← hunacked] at htaken
    looks := hlooks
    returned := by
      have hreturned := h.returned
      rwa [← huncounted] at hreturned }

theorem Inv.look (h : Inv c s) {entry : SkbDmaAddrNode} {skbCnt : Nat}
    (hentry : s.hist.posted[s.hist.acked + skbCnt]? = some entry)
    (hlt : s.hist.acked + skbCnt < s.hist.consumed.length) :
    s.hist.consumed[s.hist.acked + skbCnt]? = some (s.fifo.getTxFifoRp skbCnt) ∧
      nodeKey (s.fifo.getTxFifoRp skbCnt) = entryKey entry := by
  have hnode : s.hist.consumed[s.hist.acked + skbCnt]? = some (s.fifo.getTxFifoRp skbCnt) := by
    rw [h.fifo.tracks.getTxFifoRp hlt, List.getElem?_eq_getElem hlt]
  refine ⟨hnode, ?_⟩
  have hconsumed := h.consumed_le
  have hdevice := congrArg (fun l => l[s.hist.acked + skbCnt]?) h.device
  have hnodes := congrArg (fun l => l[s.hist.acked + skbCnt]?) h.nodes
  simp only [List.getElem?_map] at hdevice hnodes
  rw [List.getElem?_append_left hlt, hnode, List.getElem?_take_of_lt (by omega), hnodes, hentry]
    at hdevice
  exact some.inj hdevice

theorem matching_succ {posted : List SkbDmaAddrNode} {consumed : List Node} {n : Nat}
    {entry : SkbDmaAddrNode} {node : Node} (hentry : posted[n]? = some entry)
    (hnode : consumed[n]? = some node) :
    matching (posted.take (n + 1)) (consumed.take (n + 1)) =
      matching (posted.take n) (consumed.take n) ++
        if entry.dmaAddr = node.dmaAddr ∧ node.address ≠ 0 then [(entry, node)] else [] := by
  obtain ⟨hposted, _⟩ := List.getElem?_eq_some_iff.mp hentry
  obtain ⟨hconsumed, _⟩ := List.getElem?_eq_some_iff.mp hnode
  have hlen : (posted.take n).length = (consumed.take n).length := by
    rw [length_take_of_le hposted.le, length_take_of_le hconsumed.le]
  rw [matching, take_add_one, take_add_one, hentry, hnode, toList_some,
    toList_some, zip_append hlen, filter_append]
  rw [zip_cons_cons, zip_nil_right, filter_singleton]
  simp [matching]

theorem Inv.recvNull (h : Inv c s) {budget skbCnt : Nat} {entry : SkbDmaAddrNode}
    (hunacked : s.hist.taken = s.hist.acked + (skbCnt + 1))
    (huncounted : s.poll.uncounted = 1)
    (hbudget : s.hist.acked + budget ≤ s.hist.consumed.length) (hlt : skbCnt < budget)
    (hentry : s.hist.posted[s.hist.acked + skbCnt]? = some entry)
    (hno : ¬(entry.dmaAddr = (s.fifo.getTxFifoRp skbCnt).dmaAddr ∧
      (s.fifo.getTxFifoRp skbCnt).address ≠ 0)) :
    Inv c (recvNull s skbCnt (some entry)) := by
  have hset : Posted c (setTxFifoRp s 1) := h.toPosted.setTxFifoRp (by omega)
  have hcount := h.count
  have hreturned := h.returned
  have hnode := (h.look hentry (by omega)).1
  rw [huncounted] at hcount hreturned
  exact { hset, h with
    count := by
      simp only [Receiver.recvNull, setTxFifoRp, Poll.uncounted]
      omega
    within := h.within.mono (by simp [Receiver.recvNull, setTxFifoRp])
    taken := by
      simp only [Receiver.recvNull, setTxFifoRp, Poll.unacked]
      omega
    looks := trivial
    returned := by
      have hpred : s.hist.taken - 1 = s.hist.acked + skbCnt := by omega
      simp only [Receiver.recvNull, setTxFifoRp, Poll.uncounted, Nat.sub_zero]
      rw [hunacked, ← Nat.add_assoc, matching_succ hentry hnode, if_neg hno, append_nil,
        ← hpred]
      exact hreturned }

theorem Inv.readAgain (h : Inv c s) {budget skbCnt retryCnt : Nat} {recv : Option SkbDmaAddrNode}
    (hpoll : s.poll = .read budget skbCnt recv retryCnt) :
    Inv c (readAgain s budget skbCnt recv retryCnt) := by
  have htaken := h.taken
  have hlooks := h.looks
  rw [hpoll] at htaken hlooks
  obtain ⟨hlt, hbudget, entry, rfl, hentry⟩ := hlooks
  have hlook := h.look hentry (by omega)
  unfold Receiver.readAgain
  dsimp only
  split
  next hnull =>
    split
    next =>
      apply h.setPoll
      · rw [hpoll]; rfl
      · rw [hpoll]; rfl
      · exact ⟨hlt, hbudget, entry, rfl, hentry⟩
    next =>
      apply h.recvNull htaken (by rw [hpoll]; rfl) hbudget hlt hentry
      rintro ⟨_, hne⟩
      exact hne hnull
  next hne =>
    apply h.setPoll
    · rw [hpoll]; rfl
    · rw [hpoll]; rfl
    · exact ⟨hlt, hbudget, ⟨entry, rfl, hentry⟩, _, hlook.1, hne⟩

theorem Inv.checkAgain (h : Inv c s) {budget skbCnt retryCnt : Nat} {recv : Option SkbDmaAddrNode}
    {accept : Bool} (hpoll : s.poll = .check budget skbCnt recv retryCnt) :
    Inv c (checkAgain s budget skbCnt recv retryCnt accept) := by
  have htaken := h.taken
  have hcount := h.count
  have hreturned := h.returned
  have hlooks := h.looks
  rw [hpoll] at htaken hcount hreturned hlooks
  obtain ⟨hlt, hbudget, ⟨entry, rfl, hentry⟩, node, hnode, hne⟩ := hlooks
  have hlook := h.look hentry (by omega)
  obtain rfl := some.inj (hnode.symm.trans hlook.1)
  unfold Receiver.checkAgain
  dsimp only
  split
  next hdiff =>
    split
    next =>
      apply h.setPoll
      · rw [hpoll]; rfl
      · rw [hpoll]; rfl
      · exact ⟨hlt, hbudget, ⟨entry, rfl, hentry⟩, _, hnode, hne⟩
    next =>
      apply h.recvNull htaken (by rw [hpoll]; rfl) hbudget hlt hentry
      rintro ⟨heq, _⟩
      exact hdiff heq
  next hsame =>
    have heq : entry.dmaAddr = (s.fifo.getTxFifoRp skbCnt).dmaAddr := by
      by_contra hdiff
      exact hsame hdiff
    -- whether the pass goes on or not, the packet is counted
    have hpoll' : ∀ p, p = (if accept then Poll.rx budget (skbCnt + 1) else .ack (skbCnt + 1)) →
        p.unacked = skbCnt + 1 ∧ p.uncounted = 0 ∧
          p.Looks s.hist.posted s.hist.consumed s.hist.acked := by
      rintro _ rfl
      split
      next => exact ⟨rfl, rfl, hlt, hbudget⟩
      next => exact ⟨rfl, rfl, trivial⟩
    obtain ⟨hunacked, huncounted, hlooks⟩ := hpoll' _ rfl
    have hpred : s.hist.taken - 1 = s.hist.acked + skbCnt := by
      simp only [Poll.unacked] at htaken
      omega
    exact { h with
      count := by
        simp only [Poll.uncounted] at hcount
        simp only [huncounted]
        omega
      within := h.within.mono (by simp)
      taken := by
        simp only [hunacked]
        exact htaken
      looks := hlooks
      returned := by
        simp only [huncounted, Nat.sub_zero]
        rw [htaken, Poll.unacked, ← Nat.add_assoc, matching_succ hentry hnode, if_pos ⟨heq, hne⟩,
          ← hpred]
        rw [hreturned, Poll.uncounted] }

theorem Inv.pollHandler (h : Inv c s) (budget : Nat) (accept : Bool) :
    Inv c (pollHandler s budget accept) := by
  have htaken := h.taken
  have hcount := h.count
  have hreturned := h.returned
  have hlooks := h.looks
  unfold Receiver.pollHandler
  cases hpoll : s.poll with
  | idle =>
    dsimp only
    split
    next => exact h
    next =>
      have hacked := h.fifo.tracks.acked_le
      have hnum : s.fifo.recvNodeFromTxFifo = s.hist.consumed.length - s.hist.acked :=
        h.fifo.tracks.txFilled
      have hle : s.hist.acked + (if s.fifo.recvNodeFromTxFifo > budget then budget
          else s.fifo.recvNodeFromTxFifo) ≤ s.hist.consumed.length := by
        split <;> omega
      apply h.setPoll
      · rw [hpoll]; rfl
      · rw [hpoll]; rfl
      · exact ⟨Nat.zero_le _, hle⟩
  | rx budget skbCnt =>
    rw [hpoll] at htaken hcount hreturned hlooks
    obtain ⟨hle, hbudget⟩ := hlooks
    dsimp only
    split
    next hlt =>
      simp only [Poll.unacked] at htaken
      have hconsumed := h.toPosted.consumed_le (by have := h.consumed_le; omega)
      have hlt' : s.hist.taken < s.hist.posted.length := by omega
      have hentries : s.recvArray.entries =
          s.hist.posted[s.hist.taken] :: s.hist.posted.drop (s.hist.taken + 1) := by
        rw [h.entries, drop_eq_getElem_cons hlt']
      obtain ⟨p, hp, hdepth, hrest⟩ := SkbArray.get_of_entries hentries
      rw [hp]
      exact { h with
        depth := hdepth ▸ h.depth
        entries := hrest
        count := by
          simp only [Poll.uncounted] at hcount ⊢
          omega
        taken := by
          simp only [Poll.unacked]
          omega
        taken_le := by
          simp only
          omega
        looks := ⟨hlt, hbudget, _, rfl, by rw [← htaken, List.getElem?_eq_getElem hlt']⟩
        returned := hreturned }
    next =>
      apply h.setPoll
      · rw [hpoll]; rfl
      · rw [hpoll]; rfl
      · trivial
  | read budget skbCnt recv retryCnt => exact h.readAgain hpoll
  | check budget skbCnt recv retryCnt => exact h.checkAgain hpoll
  | ack pkts =>
    rw [hpoll] at htaken hcount hreturned
    have htakenle := h.taken_le
    simp only [Poll.unacked] at htaken
    dsimp only
    split
    next =>
      have hset : Posted c (setTxFifoRp s pkts) := h.toPosted.setTxFifoRp (by omega)
      exact { hset, h with
        count := hcount
        taken := htaken
        looks := trivial
        returned := hreturned }
    next hzero =>
      obtain rfl : pkts = 0 := by omega
      apply h.setPoll
      · rw [hpoll]; rfl
      · rw [hpoll]; rfl
      · trivial

theorem Inv.deviceFetch (h : Inv c s) (hf : deviceFetch s = some t) : Inv c t := by
  obtain ⟨⟨node, fifo⟩, hfetch, rfl⟩ := map_eq_some_iff.mp hf
  obtain ⟨hnode, hstages⟩ := h.fifo.fetch hfetch
  exact { h with
    fifo := hstages
    device := by
      rw [← append_assoc, map_append, h.device, take_add_one, hnode]
      rw [map_append]
      rfl }

theorem Inv.deviceComplete (h : Inv c s) {d : Filled} (hf : deviceComplete s d = some t) :
    Inv c t := by
  unfold Receiver.deviceComplete at hf
  split at hf
  next => cases hf
  next node held hheld =>
    obtain ⟨fifo, hcomplete, rfl⟩ := map_eq_some_iff.mp hf
    have hlooks := h.looks.mono [] [d.node node]
    rw [append_nil] at hlooks
    have htaken : s.hist.taken - s.poll.uncounted ≤ s.hist.consumed.length :=
      (Nat.sub_le _ _).trans h.taken_le
    exact { h with
      fifo := h.fifo.complete hcomplete
      device := by
        have hdevice := h.device
        rw [hheld] at hdevice
        rw [append_assoc, ← hdevice]
        simp [nodeKey, Filled.node]
      taken_le := by
        have hle := h.taken_le
        simp only [length_append]
        omega
      looks := hlooks
      returned := by
        rw [take_append_of_le_length htaken]
        exact h.returned }

theorem Inv.step (h : Inv c s) {l : Label} (hstep : step c s l = some t) : Inv c t := by
  cases l with
  | fill skb dma => exact h.fillFreeFifo hstep
  | poll budget accept =>
    obtain rfl := some.inj hstep
    exact h.pollHandler budget accept
  | fetch => exact h.deviceFetch hstep
  | complete d => exact h.deviceComplete hstep

end

/-- A buffer returned has the address of the node at its index, and only buffers that differ from
their node are left out.  `recv_array` lists the other buffers posted, and the count is what they
lack of the depth, up to the buffers on their way in `fill_free_fifo` and `sipa_recv_skb`.  Each
descriptor before the write pointer was written. -/
structure Matched (c : Config) (s : State) : Prop where
  returned : ∀ r ∈ s.hist.returned, r.1.dmaAddr = r.2.dmaAddr ∧ r.1.skb = some r.2.skb
  inOrder : s.hist.returned =
    matching (s.hist.posted.take (s.hist.taken - s.poll.uncounted))
      (s.hist.consumed.take (s.hist.taken - s.poll.uncounted))
  entries : s.recvArray.entries = s.hist.posted.drop s.hist.taken
  needFillCnt : s.needFillCnt =
    c.depth - (s.recvArray.entries.length : Int) + s.fill.uncounted - s.poll.uncounted
  rxWptr : s.fifo.rxWptr = s.hist.published % (2 * c.depth)
  published_le : s.hist.published ≤ s.hist.written.length
  written : Ring.Holds c.depth s.fifo.rxFifo.mem s.hist.written s.hist.fetched

section

variable {c : Config} {s : State}

theorem Inv.paired (h : Inv c s) : s.hist.consumed.map nodeKey <+: s.hist.posted.map entryKey := by
  have hprefix : s.hist.consumed.map nodeKey <+: (s.hist.consumed ++ s.held).map nodeKey := by
    rw [map_append]
    exact prefix_append _ _
  rw [h.device, map_take, h.nodes] at hprefix
  exact hprefix.trans (List.take_prefix _ _)

theorem Inv.skb_of_matching (h : Inv c s) {n : Nat} {r : SkbDmaAddrNode × Node}
    (hr : r ∈ matching (s.hist.posted.take n) (s.hist.consumed.take n)) :
    r.1.dmaAddr = r.2.dmaAddr ∧ r.1.skb = some r.2.skb := by
  obtain ⟨hzip, hkeep⟩ := mem_filter.mp hr
  refine ⟨(of_decide_eq_true hkeep).1, ?_⟩
  obtain ⟨i, hi⟩ := mem_iff_getElem?.mp hzip
  obtain ⟨hentry, hnode⟩ := List.getElem?_zip_eq_some.mp hi
  have hkeys : (s.hist.consumed.map nodeKey)[i]? = some (nodeKey r.2) := by
    rw [List.getElem?_map, getElem?_of_prefix (List.take_prefix _ _) hnode]
    rfl
  have hentries := getElem?_of_prefix h.paired hkeys
  rw [List.getElem?_map, getElem?_of_prefix (List.take_prefix _ _) hentry] at hentries
  exact congrArg Prod.snd (some.inj hentries)

theorem Inv.matched (h : Inv c s) : Matched c s where
  returned r hr := by
    rw [h.returned] at hr
    exact h.skb_of_matching hr
  inOrder := h.returned
  entries := h.entries
  needFillCnt := by
    have hcount := h.count
    have htaken := h.taken_le_posted
    rw [h.entries, length_drop, Nat.cast_sub htaken]
    omega
  rxWptr := by rw [h.fifo.tracks.rx_wptr, h.fifo.take_length, Config.depth]
  published_le := h.fifo.published_le
  written := h.fifo.holds

end

theorem receiver_matched (c : Config) (bufs : Nat → Skb × UInt64) {s : State}
    (h : Transition.Reachable (step c) (init c bufs) s) : Matched c s :=
  (h.invariant (init_inv c bufs) fun _ _ _ hs _ hstep => hs.step hstep).matched

/-- One buffer is received and posted again. -/
theorem receiver_matched_refilled :
    let c : Config := ⟨1, 0x200000000, 6, 0x10, by decide⟩
    let bufs : Nat → Skb × UInt64 := fun i => (⟨i, 0, 64⟩, 0x1000 + 0x800 * i.toUInt64)
    ∃ s, Transition.Reachable (step c) (init c bufs) s ∧
      (s.hist.returned.map Prod.fst = [⟨some ⟨0, 1600, 128⟩, 0x200001000⟩] ∧
        s.recvArray.entries =
          [⟨some ⟨1, 1600, 128⟩, 0x200001800⟩, ⟨some ⟨2, 1600, 128⟩, 0x200003000⟩]) ∧
      Matched c s := by
  intro c bufs
  obtain ⟨s, hs, hrun⟩ : ∃ s, Transition.Reachable (step c) (init c bufs) s ∧
      (s.hist.returned.map Prod.fst = [⟨some ⟨0, 1600, 128⟩, 0x200001000⟩] ∧
        s.recvArray.entries =
          [⟨some ⟨1, 1600, 128⟩, 0x200001800⟩, ⟨some ⟨2, 1600, 128⟩, 0x200003000⟩]) :=
    Transition.exists_of_run
      [.fetch, .complete ⟨100, 142, 3, 0⟩, .poll 64 true, .poll 64 true, .poll 64 true,
        .poll 64 true, .fill none none, .fill (some ⟨2, 0, 64⟩) (some 0x3000), .fill none none,
        .fill none none, .fill none none, .poll 64 true, .poll 64 true]
      (by decide)
  exact ⟨s, hs, hrun, receiver_matched c bufs hs⟩

end ModemSupport.Sipa.Receiver
