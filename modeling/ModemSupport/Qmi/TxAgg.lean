import ModemSupport.Lib.Transition
import ModemSupport.Qmi.Qmap

/-! Uplink aggregation of the USB driver (`qmi_wwan_q.c`): `rmnet_usb_tx_agg` gathers frames in
`agg_skb` and gives it to `dev_queue_xmit` when it is full, late or urgent, and a timer gives what
is left to `rmnet_usb_tx_agg_work`. -/

namespace ModemSupport.Qmi.TxAgg

open ModemSupport.Lib

structure Timespec where
  sec : Int
  nsec : Int

def nsecPerSec : Int := 1000000000

def timespec64Sub (lhs rhs : Timespec) : Timespec :=
  let nsec := lhs.nsec - rhs.nsec
  ⟨lhs.sec - rhs.sec + nsec / nsecPerSec, nsec % nsecPerSec⟩

/-- `struct tx_agg_ctx`, and the largest buffer that `alloc_skb` gives. -/
structure Config where
  ulDataAggregationMaxDatagrams : UInt32
  ulDataAggregationMaxSize : UInt32
  allocMax : Nat
  allocMax_lt : allocMax < 2 ^ 31

/-- The part of `struct qmap_priv` for aggregation: `aggHrtimer` is set while the timer is queued,
and `aggWq` while the work is pending. -/
structure QmapPriv where
  aggSkb : Option Skb
  aggCount : Nat
  aggTime : Timespec
  aggHrtimer : Bool
  aggWq : Bool

structure TxSkb where
  skb : Skb
  protocol : UInt16

/-- What a pass through `new_packet` finds: the time, the two limits, which are module parameters,
and the outcome of `alloc_skb`. -/
structure Round where
  now : Timespec
  aggTimeLimit : Int
  aggBypassTime : Int
  alloc : Bool

def ipprotoIcmp : UInt8 := 1

def ipprotoTcp : UInt8 := 6

def ipprotoIcmpv6 : UInt8 := 58

def nexthdrFragment : UInt8 := 44

def tcpPsh (skb : Skb) (start : Nat) : Bool := (skb.get (start + 13)).toBitVec.getLsbD 3

def rmnetUsbTxAggSkip (skb : TxSkb) (offset : Nat) : Bool :=
  if skb.protocol = ethPIp then
    let protocol := skb.skb.get (offset + 9)
    if protocol = ipprotoTcp then tcpPsh skb.skb (offset + 20)
    else protocol = ipprotoIcmp
  else if skb.protocol = ethPIpv6 then
    let nexthdr := skb.skb.get (offset + 6)
    if nexthdr = ipprotoTcp then tcpPsh skb.skb (offset + 40)
    else if nexthdr = ipprotoIcmpv6 then true
    else if nexthdr = nexthdrFragment then skb.skb.get (offset + 40) = ipprotoIcmpv6
    else false
  else false

def packetOffset (skb : Skb) : Nat :=
  if (RmnetMapHeader.read skb).nextHdr then qmapHdrSize + csumHeaderSize else qmapHdrSize

def readyToSend (diff : Timespec) (limit : Int) (full : Bool) (skb : TxSkb) (xmitMore : Bool) :
    Bool :=
  if diff.sec > 0 ∨ diff.nsec > limit then true
  else if full then true
  else if xmitMore then false
  else rmnetUsbTxAggSkip skb (packetOffset skb.skb)

theorem readyToSend_full (diff : Timespec) (limit : Int) (skb : TxSkb) (xmitMore : Bool) :
    readyToSend diff limit true skb xmitMore = true := by
  unfold readyToSend
  split <;> rfl

def allocSkb (c : Config) (r : Round) : Option Skb :=
  if r.alloc ∧ c.ulDataAggregationMaxSize.toNat ≤ c.allocMax then
    some ⟨[], List.replicate c.ulDataAggregationMaxSize.toNat 0⟩
  else none

/-- What a pass leaves: the device, the buffer for `dev_queue_xmit`, and the frame when it is still
to be sent. -/
structure Pass where
  priv : QmapPriv
  xmit : Option (List UInt8)
  skb : Option TxSkb

/-- The pass with `agg_skb`; it is `none` for `skb_over_panic`. -/
def addToAgg (c : Config) (p : QmapPriv) (agg : Skb) (skb : TxSkb) (xmitMore : Bool) (r : Round) :
    Option Pass :=
  let diff := timespec64Sub r.now p.aggTime
  if (agg.len + skb.skb.len) % 2 ^ 32 < c.ulDataAggregationMaxSize.toNat then
    (agg.append skb.skb.data).map fun agg =>
      let aggCount := p.aggCount + 1
      let full : Bool := aggCount = c.ulDataAggregationMaxDatagrams.toNat
      if readyToSend diff r.aggTimeLimit full skb xmitMore then
        ⟨{ p with aggSkb := none, aggCount := 0, aggTime := r.now }, some agg.data, none⟩
      else ⟨{ p with aggSkb := some agg, aggCount := aggCount }, none, none⟩
  else
    some ⟨{ p with aggSkb := none, aggCount := 0, aggTime := r.now }, some agg.data, some skb⟩

def startAgg (c : Config) (p : QmapPriv) (skb : TxSkb) (xmitMore : Bool) (r : Round) :
    Option Pass :=
  let diff := timespec64Sub r.now p.aggTime
  if readyToSend diff r.aggBypassTime false skb xmitMore then
    some ⟨{ p with aggTime := r.now }, some skb.skb.data, none⟩
  else
    match allocSkb c r with
    | some agg =>
      (agg.append skb.skb.data).map fun agg =>
        ⟨{ p with aggSkb := some agg, aggCount := p.aggCount + 1 }, none, none⟩
    | none => some ⟨{ p with aggTime := r.now }, some skb.skb.data, none⟩

/-- `sent` are the buffers given to `dev_queue_xmit`, and `submitted` the frames given to
`rmnet_usb_tx_agg`. -/
structure State where
  priv : QmapPriv
  sent : List (List UInt8)
  submitted : List (List UInt8)

def init (aggTime : Timespec) : State := ⟨⟨none, 0, aggTime, false, false⟩, [], []⟩

/-- The loop from `new_packet` on, with what its passes find; it is `none` when `fuel` passes do not
end it, and for `skb_over_panic`. -/
def newPacket (c : Config) (xmitMore : Bool) : Nat → (Nat → Round) → State → TxSkb → Option State
  | 0, _, _, _ => none
  | fuel + 1, rounds, s, skb =>
    let pass :=
      match s.priv.aggSkb with
      | some agg => addToAgg c s.priv agg skb xmitMore (rounds 0)
      | none => startAgg c s.priv skb xmitMore (rounds 0)
    pass.bind fun pass =>
      let s := { s with priv := pass.priv, sent := s.sent ++ pass.xmit.toList }
      match pass.skb with
      | some skb => newPacket c xmitMore fuel (fun i => rounds (i + 1)) s skb
      | none => some s

/-- The end of `rmnet_usb_tx_agg`. -/
def startTimer (s : State) : State :=
  if s.priv.aggSkb.isSome ∧ s.priv.aggHrtimer = false then
    { s with priv := { s.priv with aggHrtimer := true } }
  else s

def rmnetUsbTxAgg (c : Config) (fuel : Nat) (s : State) (skb : TxSkb) (xmitMore : Bool)
    (rounds : Nat → Round) : Option State :=
  let s := { s with submitted := s.submitted ++ [skb.skb.data] }
  if c.ulDataAggregationMaxDatagrams = 1 then some { s with sent := s.sent ++ [skb.skb.data] }
  else (newPacket c xmitMore fuel rounds s skb).map startTimer

/-- `rmnet_usb_tx_agg_timer_cb`, when the timer is queued. -/
def rmnetUsbTxAggTimerCb (s : State) : Option State :=
  if s.priv.aggHrtimer then
    some { s with priv := { s.priv with aggHrtimer := false, aggWq := true } }
  else none

/-- `rmnet_usb_tx_agg_work`, when it is pending. -/
def rmnetUsbTxAggWork (s : State) (now : Timespec) : Option State :=
  if s.priv.aggWq then
    match s.priv.aggSkb with
    | some skb =>
      some { s with
        priv := { s.priv with aggWq := false, aggSkb := none, aggCount := 0, aggTime := now }
        sent := s.sent ++ [skb.data] }
    | none => some { s with priv := { s.priv with aggWq := false } }
  else none

inductive Label where
  | txAgg (skb : TxSkb) (xmitMore : Bool) (rounds : Nat → Round)
  | timerCb
  | work (now : Timespec)

/-- The loop gets two passes; it needs no more. -/
def step (c : Config) (s : State) : Label → Option State
  | .txAgg skb xmitMore rounds => rmnetUsbTxAgg c 2 s skb xmitMore rounds
  | .timerCb => rmnetUsbTxAggTimerCb s
  | .work now => rmnetUsbTxAggWork s now

end ModemSupport.Qmi.TxAgg
