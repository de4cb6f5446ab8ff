import ModemSupport.Lib.Ring
import Mathlib.Data.Nat.Bitwise

/-! The FIFO pair between the host and the modem (`sipa_common_fifo_hal.c`): the host posts
descriptors to the rx FIFO and finds those the modem is done with in the tx FIFO.  The pointers
carry a wrap bit, and the modem counts the entries between them. -/

namespace ModemSupport.Sipa

open ModemSupport.Lib

inductive Errno where
  | einval
  | enospc
  | eagain
  | einprogress

structure Skb where
  id : Nat
  len : Nat
  headroom : Nat
  deriving DecidableEq, Inhabited

/-- `struct sipa_node_description_tag`.  `skb` is the packet that the node was posted for; neither
side reads it. -/
structure Node where
  address : BitVec 40
  length : BitVec 20
  offset : BitVec 12
  netId : UInt8
  src : BitVec 5
  dst : BitVec 5
  intr : Bool
  errCode : BitVec 4
  skb : Skb
  deriving Inhabited

def Node.dmaAddr (node : Node) : UInt64 := ⟨node.address.setWidth 64⟩

structure CmnFifo where
  depth : Nat
  wr : Nat
  rd : Nat
  mem : Nat → Node

structure FifoCfg where
  rxFifo : CmnFifo
  txFifo : CmnFifo
  cur : BitVec 5
  rxWptr : Nat
  rxRptr : Nat
  txWptr : Nat
  txRptr : Nat

def ptrMask (depth : Nat) : Nat := depth ||| (depth - 1)

/-- The entries from a read pointer to a write pointer, as the modem counts them. -/
def filledDepth (depth wptr rptr : Nat) : Nat := (wptr + 2 * depth - rptr) % (2 * depth)

namespace FifoCfg

def rxFilled (f : FifoCfg) : Nat := filledDepth f.rxFifo.depth f.rxWptr f.rxRptr

def txFilled (f : FifoCfg) : Nat := filledDepth f.txFifo.depth f.txWptr f.txRptr

/-- `ipa_common_fifo_hal_recv_node_from_tx_fifo`; the count asked for is not used. -/
def recvNodeFromTxFifo (f : FifoCfg) : Nat := f.txFilled

def getTxFifoRp (f : FifoCfg) (index : Nat) : Node :=
  f.txFifo.mem ((f.txFifo.rd + index) &&& (f.txFifo.depth - 1))

def getRxFifoWr (f : FifoCfg) (index : Nat) : Option Nat :=
  if index ≥ f.rxFifo.depth then none
  else some ((f.rxFifo.wr + index) &&& (f.rxFifo.depth - 1))

def ipaPhyUpdateTxFifoRptr (f : FifoCfg) (rptr : Nat) : Except Errno Unit × FifoCfg :=
  if rptr > 0xFFFF then (.error .einval, f) else (.ok (), { f with txRptr := rptr })

def ipaPhyUpdateRxFifoWptr (f : FifoCfg) (wptr : Nat) : Except Errno Unit × FifoCfg :=
  if wptr > 0xFFFF then (.error .einval, f) else (.ok (), { f with rxWptr := wptr })

def setTxFifoRp (f : FifoCfg) (txRd : Nat) : Except Errno Unit × FifoCfg :=
  let rd := (f.txFifo.rd + txRd) &&& ptrMask f.txFifo.depth
  { f with txFifo := { f.txFifo with rd := rd } }.ipaPhyUpdateTxFifoRptr rd

theorem setTxFifoRp_snd {f : FifoCfg} {n rd : Nat}
    (hrd : (f.txFifo.rd + n) &&& ptrMask f.txFifo.depth = rd) (hle : rd ≤ 0xFFFF) :
    (f.setTxFifoRp n).2 = { f with txFifo := { f.txFifo with rd := rd }, txRptr := rd } := by
  rw [setTxFifoRp, hrd, ipaPhyUpdateTxFifoRptr, if_neg (by omega)]

def setRxFifoWr (f : FifoCfg) (num : Nat) : Except Errno Unit × FifoCfg :=
  let leftCnt := f.rxFifo.depth - f.rxFilled
  if leftCnt = 0 then (.error .enospc, f)
  else
    let num := if leftCnt < num then leftCnt else num
    let wr := (f.rxFifo.wr + num) &&& ptrMask f.rxFifo.depth
    { f with rxFifo := { f.rxFifo with wr := wr } }.ipaPhyUpdateRxFifoWptr wr

theorem setRxFifoWr_snd {f : FifoCfg} {n wr : Nat} (hroom : f.rxFilled + n ≤ f.rxFifo.depth)
    (hn : 0 < n) (hwr : (f.rxFifo.wr + n) &&& ptrMask f.rxFifo.depth = wr) (hle : wr ≤ 0xFFFF) :
    (f.setRxFifoWr n).2 = { f with rxFifo := { f.rxFifo with wr := wr }, rxWptr := wr } := by
  unfold setRxFifoWr
  simp only
  rw [if_neg (by omega), if_neg (show ¬f.rxFifo.depth - f.rxFilled < n by omega), hwr,
    ipaPhyUpdateRxFifoWptr, if_neg (by omega)]

def write (f : FifoCfg) (index : Nat) (node : Node) : FifoCfg :=
  { f with rxFifo := { f.rxFifo with mem := Function.update f.rxFifo.mem index node } }

def fetch (f : FifoCfg) : Option (Node × FifoCfg) :=
  if f.rxFilled = 0 then none
  else some (f.rxFifo.mem (f.rxRptr &&& (f.rxFifo.depth - 1)),
    { f with rxRptr := (f.rxRptr + 1) &&& ptrMask f.rxFifo.depth })

/-- The modem puts a descriptor on the tx FIFO; it waits while that is full. -/
def complete (f : FifoCfg) (node : Node) : Option FifoCfg :=
  if f.txFilled ≥ f.txFifo.depth then none
  else
    let index := f.txWptr &&& (f.txFifo.depth - 1)
    some { f with
      txFifo := { f.txFifo with mem := Function.update f.txFifo.mem index node }
      txWptr := (f.txWptr + 1) &&& ptrMask f.txFifo.depth }

end FifoCfg

theorem and_ptrMask {k x : Nat} : x &&& ptrMask (2 ^ k) = x % (2 * 2 ^ k) := by
  have hmask : ptrMask (2 ^ k) = 2 ^ (k + 1) - 1 := by
    have hlt : 2 ^ k - 1 < 2 ^ k := Nat.sub_lt (Nat.two_pow_pos k) Nat.one_pos
    have hor := Nat.two_pow_add_eq_or_of_lt hlt 1
    rw [Nat.mul_one] at hor
    rw [ptrMask, ← hor, Nat.pow_succ]
    omega
  rw [hmask, Nat.and_two_pow_sub_one_eq_mod, Nat.pow_succ, Nat.mul_comm]

/-- The FIFO pair of depth `2 ^ k` through which the descriptors `posted` went out, `fetched` of
them taken by the modem, and the descriptors `consumed` came back, `acked` of them acknowledged. -/
structure Tracks (k : Nat) (f : FifoCfg) (posted : List Node) (fetched : Nat)
    (consumed : List Node) (acked : Nat) : Prop where
  k_le : k ≤ 15
  rx_depth : f.rxFifo.depth = 2 ^ k
  tx_depth : f.txFifo.depth = 2 ^ k
  rx_wr : f.rxFifo.wr = posted.length % (2 * 2 ^ k)
  rx_wptr : f.rxWptr = posted.length % (2 * 2 ^ k)
  rx_rptr : f.rxRptr = fetched % (2 * 2 ^ k)
  tx_wptr : f.txWptr = consumed.length % (2 * 2 ^ k)
  tx_rd : f.txFifo.rd = acked % (2 * 2 ^ k)
  tx_rptr : f.txRptr = acked % (2 * 2 ^ k)
  fetched_le : fetched ≤ posted.length
  acked_le : acked ≤ consumed.length
  rx_room : posted.length ≤ fetched + 2 ^ k
  tx_room : consumed.length ≤ acked + 2 ^ k
  rx_holds : Ring.Holds (2 ^ k) f.rxFifo.mem posted fetched
  tx_holds : Ring.Holds (2 ^ k) f.txFifo.mem consumed acked

namespace Tracks

variable {k : Nat} {f f' : FifoCfg} {posted consumed : List Node} {fetched acked : Nat}
  {node : Node}

theorem mod_le (h : Tracks k f posted fetched consumed acked) (x : Nat) :
    x % (2 * 2 ^ k) ≤ 0xFFFF := by
  have hpow := Nat.pow_le_pow_right (n := 2) Nat.two_pos h.k_le
  have hlt := Nat.mod_lt x (show 0 < 2 * 2 ^ k by have := Nat.two_pow_pos k; omega)
  omega

theorem mod_and (x i : Nat) : (x % (2 * 2 ^ k) + i) &&& (2 ^ k - 1) = (x + i) % 2 ^ k := by
  rw [Nat.and_two_pow_sub_one_eq_mod, Nat.add_mod, Nat.mod_mod_of_dvd x (Nat.dvd_mul_left _ _),
    ← Nat.add_mod]

theorem rxFilled (h : Tracks k f posted fetched consumed acked) :
    f.rxFilled = posted.length - fetched := by
  have hpos := Nat.two_pow_pos k
  have hroom := h.rx_room
  rw [FifoCfg.rxFilled, filledDepth, h.rx_depth, h.rx_wptr, h.rx_rptr]
  exact Ring.mod_distance h.fetched_le (by omega)

theorem txFilled (h : Tracks k f posted fetched consumed acked) :
    f.txFilled = consumed.length - acked := by
  have hpos := Nat.two_pow_pos k
  have hroom := h.tx_room
  rw [FifoCfg.txFilled, filledDepth, h.tx_depth, h.tx_wptr, h.tx_rptr]
  exact Ring.mod_distance h.acked_le (by omega)

theorem getTxFifoRp (h : Tracks k f posted fetched consumed acked) {i : Nat}
    (hi : acked + i < consumed.length) : f.getTxFifoRp i = consumed[acked + i] := by
  rw [FifoCfg.getTxFifoRp, h.tx_rd, h.tx_depth, mod_and]
  exact h.tx_holds _ (by omega) hi

theorem getRxFifoWr (h : Tracks k f posted fetched consumed acked) {i : Nat} (hi : i < 2 ^ k) :
    f.getRxFifoWr i = some ((posted.length + i) % 2 ^ k) := by
  rw [FifoCfg.getRxFifoWr, h.rx_depth, if_neg (by omega), h.rx_wr, mod_and]

theorem fetch (h : Tracks k f posted fetched consumed acked) (hf : f.fetch = some (node, f')) :
    posted[fetched]? = some node ∧ Tracks k f' posted (fetched + 1) consumed acked := by
  unfold FifoCfg.fetch at hf
  rw [h.rxFilled] at hf
  split at hf
  next => cases hf
  next hne =>
    obtain ⟨rfl, rfl⟩ := Prod.mk.inj (Option.some.inj hf)
    have hlt : fetched < posted.length := by omega
    have hroom := h.rx_room
    have hslot : f.rxRptr &&& (f.rxFifo.depth - 1) = fetched % 2 ^ k := by
      rw [h.rx_rptr, h.rx_depth]
      exact mod_and fetched 0
    refine ⟨?_, { h with
      rx_rptr := by simp only [h.rx_depth, and_ptrMask, h.rx_rptr, Nat.mod_add_mod]
      fetched_le := hlt
      rx_room := by omega
      rx_holds := h.rx_holds.advance (Nat.le_succ _) }⟩
    rw [hslot, h.rx_holds fetched le_rfl hlt, List.getElem?_eq_getElem hlt]

theorem complete (h : Tracks k f posted fetched consumed acked)
    (hf : f.complete node = some f') :
    Tracks k f' posted fetched (consumed ++ [node]) acked := by
  unfold FifoCfg.complete at hf
  rw [h.txFilled] at hf
  split at hf
  next => cases hf
  next hroom =>
    obtain rfl := Option.some.inj hf
    have hle := h.acked_le
    have hdepth := h.tx_depth
    have hslot : f.txWptr &&& (f.txFifo.depth - 1) = consumed.length % 2 ^ k := by
      rw [h.tx_wptr, h.tx_depth]
      exact mod_and consumed.length 0
    exact { h with
      tx_wptr := by simp [h.tx_depth, and_ptrMask, h.tx_wptr]
      acked_le := by simp only [List.length_append]; omega
      tx_room := by simp only [List.length_append, List.length_singleton]; omega
      tx_holds := by
        simp only [hslot]
        exact h.tx_holds.push (by omega) }

theorem ack (h : Tracks k f posted fetched consumed acked) {n : Nat}
    (hn : acked + n ≤ consumed.length) :
    Tracks k (f.setTxFifoRp n).2 posted fetched consumed (acked + n) := by
  have hrd : (f.txFifo.rd + n) &&& ptrMask f.txFifo.depth = (acked + n) % (2 * 2 ^ k) := by
    rw [h.tx_depth, and_ptrMask, h.tx_rd, Nat.mod_add_mod]
  have hroom := h.tx_room
  rw [FifoCfg.setTxFifoRp_snd hrd (h.mod_le _)]
  exact { h with
    tx_rd := rfl
    tx_rptr := rfl
    acked_le := hn
    tx_room := by omega
    tx_holds := h.tx_holds.advance (by omega) }

end Tracks

/-- The FIFO pair with the descriptors `written` in the rx FIFO, the first `published` of them
before the write pointer. -/
structure Stages (k : Nat) (f : FifoCfg) (written : List Node) (published fetched : Nat)
    (consumed : List Node) (acked : Nat) : Prop where
  tracks : Tracks k f (written.take published) fetched consumed acked
  published_le : published ≤ written.length
  room : written.length ≤ fetched + 2 ^ k
  holds : Ring.Holds (2 ^ k) f.rxFifo.mem written fetched

theorem Tracks.stages {k : Nat} {f : FifoCfg} {posted consumed : List Node} {fetched acked : Nat}
    (h : Tracks k f posted fetched consumed acked) :
    Stages k f posted posted.length fetched consumed acked :=
  ⟨by rw [List.take_length]; exact h, le_rfl, h.rx_room, h.rx_holds⟩

namespace Stages

variable {k : Nat} {f f' : FifoCfg} {written consumed : List Node} {published fetched acked : Nat}
  {node : Node}

theorem take_length (h : Stages k f written published fetched consumed acked) :
    (written.take published).length = published :=
  List.length_take_of_le h.published_le

theorem fetched_le (h : Stages k f written published fetched consumed acked) :
    fetched ≤ published := by
  have hle := h.tracks.fetched_le
  rwa [h.take_length] at hle

theorem getRxFifoWr (h : Stages k f written published fetched consumed acked) {i : Nat}
    (hi : i < 2 ^ k) (hlen : published + i = written.length) :
    f.getRxFifoWr i = some (written.length % 2 ^ k) := by
  rw [h.tracks.getRxFifoWr hi, h.take_length, hlen]

theorem write (h : Stages k f written published fetched consumed acked)
    (hroom : written.length < fetched + 2 ^ k) :
    Stages k (f.write (written.length % 2 ^ k) node) (written ++ [node]) published fetched
      consumed acked := by
  have hle := h.published_le
  have hholds := h.holds.push (x := node) hroom
  refine ⟨?_, by simp only [List.length_append]; omega,
    by simp only [List.length_append, List.length_singleton]; omega, hholds⟩
  rw [List.take_append_of_le_length hle]
  exact { h.tracks with
    rx_holds := by
      have htake := hholds.take published
      rwa [List.take_append_of_le_length hle] at htake }

theorem publish (h : Stages k f written published fetched consumed acked) {n : Nat} (hn : 0 < n)
    (hlen : published + n = written.length) :
    Stages k (f.setRxFifoWr n).2 written written.length fetched consumed acked := by
  have hle := h.fetched_le
  have hroom := h.room
  have hfilled : f.rxFilled + n ≤ f.rxFifo.depth := by
    rw [h.tracks.rxFilled, h.take_length, h.tracks.rx_depth]
    omega
  have hwr : (f.rxFifo.wr + n) &&& ptrMask f.rxFifo.depth = written.length % (2 * 2 ^ k) := by
    rw [h.tracks.rx_depth, and_ptrMask, h.tracks.rx_wr, h.take_length, Nat.mod_add_mod, hlen]
  rw [FifoCfg.setRxFifoWr_snd hfilled hn hwr (h.tracks.mod_le _)]
  refine ⟨?_, le_rfl, hroom, h.holds⟩
  rw [List.take_length]
  exact { h.tracks with
    rx_wr := rfl
    rx_wptr := rfl
    fetched_le := by omega
    rx_room := hroom
    rx_holds := h.holds }

theorem fetch (h : Stages k f written published fetched consumed acked)
    (hf : f.fetch = some (node, f')) :
    written[fetched]? = some node ∧ Stages k f' written published (fetched + 1) consumed acked := by
  obtain ⟨hnode, htracks⟩ := h.tracks.fetch hf
  have hroom := h.room
  have hmem : f'.rxFifo = f.rxFifo := by
    unfold FifoCfg.fetch at hf
    split at hf
    next => cases hf
    next =>
      cases hf
      rfl
  refine ⟨?_, htracks, h.published_le, by omega, ?_⟩
  · rw [List.getElem?_take] at hnode
    split at hnode
    next => exact hnode
    next => cases hnode
  · rw [hmem]
    exact h.holds.advance (Nat.le_succ _)

theorem complete (h : Stages k f written published fetched consumed acked)
    (hf : f.complete node = some f') :
    Stages k f' written published fetched (consumed ++ [node]) acked := by
  refine ⟨h.tracks.complete hf, h.published_le, h.room, ?_⟩
  unfold FifoCfg.complete at hf
  split at hf
  next => cases hf
  next =>
    cases hf
    exact h.holds

theorem ack (h : Stages k f written published fetched consumed acked) {n : Nat}
    (hn : acked + n ≤ consumed.length) :
    Stages k (f.setTxFifoRp n).2 written published fetched consumed (acked + n) := by
  refine ⟨h.tracks.ack hn, h.published_le, h.room, ?_⟩
  have hrx : (f.setTxFifoRp n).2.rxFifo = f.rxFifo := by
    unfold FifoCfg.setTxFifoRp FifoCfg.ipaPhyUpdateTxFifoRptr
    dsimp only
    split <;> rfl
  rw [hrx]
  exact h.holds

end Stages

theorem Tracks.post {k : Nat} {f : FifoCfg} {posted consumed : List Node} {fetched acked : Nat}
    {node : Node} (h : Tracks k f posted fetched consumed acked)
    (hroom : posted.length < fetched + 2 ^ k) :
    Tracks k ((f.write (posted.length % 2 ^ k) node).setRxFifoWr 1).2 (posted ++ [node]) fetched
      consumed acked := by
  have hwrite : Stages k (f.write (posted.length % 2 ^ k) node) (posted ++ [node]) posted.length
      fetched consumed acked := h.stages.write hroom
  have htracks := (hwrite.publish Nat.one_pos (by simp)).tracks
  rwa [List.take_length] at htracks

end ModemSupport.Sipa
