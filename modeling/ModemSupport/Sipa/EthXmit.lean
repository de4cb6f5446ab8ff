import ModemSupport.Sipa.Sender

/-! Transmitting a packet of a network device (`sipa_eth.c`): `sipa_eth_start_xmit` puts an Ethernet
header in front of the packets of other devices, hands the packet to the sender, and gives it back
to the stack when the sender is busy. The stack then transmits it again. -/

namespace ModemSupport.Sipa.EthXmit

open Sipa

/-- A socket buffer: the bytes from `skb->head` on, and where the packet and its network header
are. -/
structure SkBuff where
  id : Nat
  buf : List UInt8
  start : Nat
  len : Nat
  networkHeader : Nat
  -- As `ntohs` reads it.
  protocol : UInt16

def SkBuff.data (skb : SkBuff) : List UInt8 := (skb.buf.drop skb.start).take skb.len

def SkBuff.byte (skb : SkBuff) (i : Nat) : UInt8 := skb.buf.getD (skb.start + i) 0

def SkBuff.write (skb : SkBuff) (pos : Nat) (bytes : List UInt8) : SkBuff :=
  { skb with buf := skb.buf.take pos ++ bytes ++ skb.buf.drop (pos + bytes.length) }

/-- `skb_push`, or `none` for the panic when the headroom is too short. -/
def SkBuff.push (skb : SkBuff) (n : Nat) : Option SkBuff :=
  if n ≤ skb.start then some { skb with start := skb.start - n, len := skb.len + n } else none

def SkBuff.handle (skb : SkBuff) : Skb := ⟨skb.id, skb.len, skb.start⟩

def arphrdEther : UInt16 := 1

def ethHlen : Nat := 14

def ethPIp : UInt16 := 0x0800

def ethPIpv6 : UInt16 := 0x86DD

def ethPArp : UInt16 := 0x0806

def dhcpDstAddr : List UInt8 := List.replicate 6 0xFF

structure SipaEth where
  on : Bool
  devType : UInt16
  devAddr : List UInt8
  macH : Bool
  modemMac : List UInt8
  termType : BitVec 5
  netid : UInt8
  registered : Bool
  remoteReady : Bool

/-- What the device and the core read from outside: the interrupt status of the FIFO, and the
address that `dma_map_single` gives. -/
structure Env where
  intStatus : UInt32
  dma : Option UInt64

/-- `NETDEV_TX_OK`, with the frame that was handed to the sender unless the packet was dropped, and
`NETDEV_TX_BUSY`, with the buffer that the stack has back. -/
inductive Xmit
  | ok (frame : Option (List UInt8))
  | busy (skb : SkBuff)

def SkBuff.dhcp (skb : SkBuff) : Bool :=
  skb.byte 9 == 17 && (List.range 4).all (fun i => skb.byte (12 + i) == 0) &&
    (List.range 4).all (fun i => skb.byte (16 + i) == 0xFF)

/-- The packet of a device other than an Ethernet one, classified by its first byte: the buffer and
the destination of its header, or `none` for one that is dropped. -/
def SkBuff.classify (skb : SkBuff) (eth : SipaEth) : Option (SkBuff × List UInt8) :=
  if skb.byte 0 &&& 0xf0 = 0x40 then
    some ({ skb with protocol := ethPIp }, if skb.dhcp then dhcpDstAddr else eth.modemMac)
  else if skb.byte 0 &&& 0xf0 = 0x60 then
    some ({ skb with protocol := ethPIpv6 }, eth.modemMac)
  else if skb.protocol ≠ ethPArp then none
  else
    -- `arp_hdr(skb)->ar_hrd`
    some (skb.write skb.networkHeader [0, 1], eth.modemMac)

def SkBuff.header (skb : SkBuff) (eth : SipaEth) (dest : List UInt8) : Option SkBuff :=
  (skb.push ethHlen).map fun pushed =>
    pushed.write pushed.start
      (dest ++ eth.devAddr ++ [(skb.protocol >>> 8).toUInt8, skb.protocol.toUInt8])

def sipaNicTx (c : Config) (eth : SipaEth) (env : Env) (s : State) (skb : SkBuff) :
    Option (Except Errno Unit × State) :=
  if ¬eth.registered then some (.error .einval, s)
  else if ¬eth.remoteReady then some (.error .einprogress, s)
  else sipaSkbSenderSendData c s skb.handle eth.termType eth.netid env.intStatus env.dma

/-- The end of `sipa_eth_start_xmit`, from the call of `sipa_nic_tx` on. -/
def sendFrame (c : Config) (eth : SipaEth) (env : Env) (s : State) (skb : SkBuff) :
    Option (Xmit × State) :=
  match sipaNicTx c eth env s skb with
  | none => none
  | some (.ok (), t) => some (.ok (some skb.data), t)
  | some (.error .eagain, t) =>
    -- resume skb, otherwise we may pull this skb ETH_HLEN-bytes twice
    if eth.macH then some (.busy skb, t) else (skb.push ethHlen).map fun skb => (.busy skb, t)
  | some (.error _, t) => some (.ok none, t)

/-- `sipa_eth_start_xmit`, or `none` where it hangs or panics. -/
def sipaEthStartXmit (c : Config) (eth : SipaEth) (env : Env) (s : State) (skb : SkBuff) :
    Option (Xmit × State) :=
  if ¬eth.on then some (.ok none, s)
  else if eth.devType = arphrdEther then sendFrame c eth env s skb
  else
    match skb.classify eth with
    | none => some (.ok none, s)
    | some (classified, dest) => (classified.header eth dest).bind (sendFrame c eth env s)

variable {c : Config} {eth : SipaEth} {env : Env} {s t : State} {skb skb' pushed : SkBuff}
  {dest : List UInt8}

theorem start_push {n : Nat} (h : skb.push n = some pushed) : pushed.start + n = skb.start := by
  simp only [SkBuff.push, Option.ite_none_right_eq_some, Option.some.injEq] at h
  obtain ⟨hle, rfl⟩ := h
  show skb.start - n + n = skb.start
  omega

theorem start_header (h : skb.header eth dest = some pushed) :
    pushed.start + ethHlen = skb.start := by
  obtain ⟨q, hq, rfl⟩ := Option.map_eq_some_iff.mp h
  show q.start + ethHlen = skb.start
  exact start_push hq

theorem start_classify (h : skb.classify eth = some (pushed, dest)) :
    pushed.start = skb.start := by
  unfold SkBuff.classify at h
  split at h
  next =>
    cases h
    rfl
  next =>
    split at h
    next =>
      cases h
      rfl
    next =>
      split at h
      next => cases h
      next =>
        cases h
        rfl

/-- The buffer that a busy sender gives back is the one that was sent, with 14 bytes more when the
device has no MAC header. -/
theorem sendFrame_busy (h : sendFrame c eth env s skb = some (.busy skb', t)) :
    (eth.macH = true ∧ skb' = skb) ∨ (eth.macH = false ∧ skb'.start + ethHlen = skb.start) := by
  unfold sendFrame at h
  split at h
  next => cases h
  next => cases h
  next =>
    split at h
    next hmac =>
      cases h
      exact .inl ⟨hmac, rfl⟩
    next hmac =>
      obtain ⟨q, hq, hpair⟩ := Option.map_eq_some_iff.mp h
      cases hpair
      exact .inr ⟨by simpa using hmac, start_push hq⟩
  next => cases h

theorem start_busy (h : sipaEthStartXmit c eth env s skb = some (.busy skb', t)) :
    (eth.devType = arphrdEther ∧ eth.macH = true ∧ skb' = skb) ∨ skb'.start < skb.start := by
  have hlen : ethHlen = 14 := rfl
  unfold sipaEthStartXmit at h
  split at h
  next => cases h
  next =>
    split at h
    next hether =>
      rcases sendFrame_busy h with ⟨hmac, heq⟩ | ⟨-, hstart⟩
      · exact .inl ⟨hether, hmac, heq⟩
      · right
        omega
    next =>
      right
      split at h
      next => cases h
      next classified dest hclassified =>
        obtain ⟨pushed, hpushed, hsent⟩ := Option.bind_eq_some_iff.mp h
        have hheader := start_header hpushed
        rw [start_classify hclassified] at hheader
        rcases sendFrame_busy hsent with ⟨-, rfl⟩ | ⟨-, hstart⟩ <;> omega

def frameOf : Option (Xmit × State) → Option (List UInt8)
  | some (.ok frame, _) => frame
  | _ => none

/-- The packet that the stack has back is the one it gave, and when it is transmitted again, the
sender gets the frame of a first transmit. -/
structure Intact (c : Config) (eth : SipaEth) (skb skb' : SkBuff) : Prop where
  start : skb'.start = skb.start
  data : skb'.data = skb.data
  retry : ∀ env s, frameOf (sipaEthStartXmit c eth env s skb') =
    frameOf (sipaEthStartXmit c eth env s skb)

/-- A busy transmit leaves the packet intact exactly on an Ethernet device with a MAC header. -/
theorem intact_iff (h : sipaEthStartXmit c eth env s skb = some (.busy skb', t)) :
    Intact c eth skb skb' ↔ eth.devType = arphrdEther ∧ eth.macH = true := by
  constructor
  · intro hintact
    rcases start_busy h with ⟨hether, hmac, -⟩ | hlt
    · exact ⟨hether, hmac⟩
    · exact absurd hintact.start hlt.ne
  · rintro ⟨hether, hmac⟩
    have hsame : skb' = skb := by
      unfold sipaEthStartXmit at h
      split at h
      next => cases h
      next =>
        rcases sendFrame_busy h with ⟨-, heq⟩ | ⟨hnot, -⟩
        · exact heq
        · rw [hmac] at hnot
          cases hnot
    subst hsame
    exact ⟨rfl, rfl, fun _ _ => rfl⟩

def modemDevice (devType : UInt16) (macH : Bool) : SipaEth :=
  ⟨true, devType, [2, 0, 0, 0, 0, 1], macH, [2, 0, 0, 0, 0, 2], 6, 0, true, true⟩

/-- An IPv4 packet of four bytes, behind 32 bytes of headroom. -/
def shortPacket : SkBuff := ⟨0, List.replicate 32 0 ++ [0x45, 1, 2, 3], 32, 4, 32, ethPIp⟩

def covered : State :=
  { Sipa.init Config.built with
    flow := { (Sipa.init Config.built).flow with epCoverNet := true } }

theorem intact_ether :
    Intact Config.built (modemDevice arphrdEther true) shortPacket shortPacket := by
  have hbusy : sipaEthStartXmit Config.built (modemDevice arphrdEther true) ⟨0, none⟩ covered
      shortPacket = some (.busy shortPacket, covered) := rfl
  exact (intact_iff hbusy).mpr ⟨rfl, rfl⟩

/-- A device of another type has the header in front of the packet that it gets back. -/
theorem not_intact_header : ¬∀ (eth : SipaEth) (env : Env) (s t : State) (skb skb' : SkBuff),
    28 ≤ skb.start → sipaEthStartXmit Config.built eth env s skb = some (.busy skb', t) →
      Intact Config.built eth skb skb' := by
  intro h
  have hintact :=
    h (modemDevice 0xFFFE true) ⟨0, none⟩ covered covered shortPacket _ (by decide) rfl
  exact absurd hintact.start (by decide)

end ModemSupport.Sipa.EthXmit
