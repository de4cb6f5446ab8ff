import ModemSupport.Cm.MbimRecv

/-! For which messages `mbim_recv_command` and the queries stay within the message, its copy and
their arrays. -/

namespace ModemSupport.Cm.MbimRecv

open Lib.Memory MbimIpConfig
open MbimCompose (uuidBasicConnect)

/-- A string in an information buffer at `b` is shorter than the array of `limit` bytes it is copied
to, by every second byte, and all of these bytes are in the message. -/
structure StringFits (limit size b : Nat) (offset len : UInt32) : Prop where
  short : len.toNat < 2 * limit
  inside : 2 ≤ len.toNat → b + offset.toNat + 2 * (len.toNat / 2) ≤ size + 1

structure SubscriberFits (m : Mem) (b size : Nat) : Prop where
  room : b + 28 ≤ size
  simIccId : StringFits 256 size b (word (infoAt m b) 12) (word (infoAt m b) 16)
  subscriberId : StringFits 256 size b (word (infoAt m b) 4) (word (infoAt m b) 8)
  telephoneNumber : word (infoAt m b) 24 ≠ 0 → b + 36 ≤ size ∧
    StringFits 256 size b (word (infoAt m b) 28) (word (infoAt m b) 32)

/-- `MBIM_IP_CONFIGURATION_INFO_T` and, for each family, what its mask makes `mbim_dump_ipconfig`
print. -/
structure IpconfigFits (m : Mem) (b size : Nat) : Prop where
  room : b + 60 ≤ size
  address : ∀ f ∈ [ipv4, ipv6], f.available (infoAt m b) 0x1 →
    b + pointer (infoAt m b) f.addressOffset + 4 + f.size ≤ size
  gateway : ∀ f ∈ [ipv4, ipv6], f.available (infoAt m b) 0x2 →
    b + pointer (infoAt m b) f.gatewayOffset + f.size ≤ size
  dns : ∀ f ∈ [ipv4, ipv6], f.available (infoAt m b) 0x3 →
    b + pointer (infoAt m b) f.dnsServerOffset + f.size ≤ size ∧
    (word (infoAt m b) f.dnsServerCount = 2 →
      b + pointer (infoAt m b) f.dnsServerOffset + 2 * f.size ≤ size)

structure CommandMsgFits (m : Mem) (size : Nat) : Prop where
  sessionId : cid m = mbimCidConnect ∨ cid m = mbimCidIpConfiguration → commandInfo + 4 ≤ size

structure CommandDoneFits (m : Mem) (size : Nat) : Prop where
  connect : cid m = mbimCidConnect → commandInfo + 36 ≤ size
  ipConfiguration : cid m = mbimCidIpConfiguration → IpconfigFits m commandInfo size
  packetService : cid m = mbimCidPacketService → commandInfo + 28 ≤ size
  subscriber : cid m = mbimCidSubscriberReadyStatus → SubscriberFits m commandInfo size
  registerState : cid m = mbimCidRegisterState → commandInfo + 12 ≤ size

structure IndicateFits (m : Mem) (size : Nat) : Prop where
  connect : cid m = mbimCidConnect → indicateInfo + 36 ≤ size
  signalState : cid m = mbimCidSignalState → indicateInfo + 20 ≤ size
  subscriber : cid m = mbimCidSubscriberReadyStatus → SubscriberFits m indicateInfo size
  registerState : cid m = mbimCidRegisterState → indicateInfo + 12 ≤ size
  packetService : cid m = mbimCidPacketService → indicateInfo + 28 ≤ size

/-- What `mbim_dump` prints when it is verbose: the header, `MessageLength` bytes up to 4096, and by
the type. -/
structure DumpFits (m : Mem) (size : Nat) : Prop where
  header : 12 ≤ size
  bytes : min (messageLength m).toNat 4096 ≤ size
  status : messageType m ∈ [mbimOpenMsg, mbimOpenDone, mbimCloseDone, mbimFunctionErrorMsg] →
    16 ≤ size
  commandMsg : messageType m = mbimCommandMsg →
    commandInfo ≤ size ∧ (deviceServiceId m = uuidBasicConnect → CommandMsgFits m size)
  commandDone : messageType m = mbimCommandDone →
    commandInfo ≤ size ∧ (deviceServiceId m = uuidBasicConnect → CommandDoneFits m size)
  indicateStatusMsg : messageType m = mbimIndicateStatusMsg →
    indicateInfo ≤ size ∧ (deviceServiceId m = uuidBasicConnect → IndicateFits m size)

/-- The indications that `mbim_recv_command` takes a state from: the field is at the start of the
information buffer or behind its first one. -/
structure IndicationFits (m : Mem) (size : Nat) : Prop where
  header : 4 ≤ size
  uuid : messageType m = mbimIndicateStatusMsg → 36 ≤ size
  service : messageType m = mbimIndicateStatusMsg → deviceServiceId m = uuidBasicConnect → 40 ≤ size
  readyState : messageType m = mbimIndicateStatusMsg → deviceServiceId m = uuidBasicConnect →
    cid m = mbimCidSubscriberReadyStatus → indicateInfo + 4 ≤ size
  state : messageType m = mbimIndicateStatusMsg → deviceServiceId m = uuidBasicConnect →
    cid m ∈ [mbimCidConnect, mbimCidRegisterState, mbimCidPacketService] → indicateInfo + 8 ≤ size

structure RecvFits (e : Env) (m : Mem) (size : Nat) : Prop where
  direction : 4 ≤ size
  dump : e.mbimVerbose → DumpFits m size
  request : e.mbimPRequest ≠ none → 12 ≤ size
  answer : e.answers m ≠ none → e.allocated → (messageLength m).toNat ≤ size
  indication : e.answers m = none → IndicationFits m size

/-- The strings of `MBIM_DEVICE_CAPS_INFO_T` in an answer, which are copied to `tmp`. -/
structure CapsFits (c : Mem) (size : Nat) : Prop where
  offsets : commandInfo + 60 ≤ size
  sizes : ∀ field ∈ capsStrings, word (infoAt c commandInfo) field ≠ 0 →
    commandInfo + field + 8 ≤ size ∧
    StringFits 32 size commandInfo (word (infoAt c commandInfo) field)
      (word (infoAt c commandInfo) (field + 4))

structure BlockFits (c : Mem) (size : Nat) (f : Family) : Prop where
  mask : commandInfo + f.configurationAvailable + 4 ≤ size
  address : f.available (infoAt c commandInfo) 0x1 → commandInfo + f.addressOffset + 4 ≤ size ∧
    commandInfo + pointer (infoAt c commandInfo) f.addressOffset + 4 + f.size ≤ size
  gateway : f.available (infoAt c commandInfo) 0x1 → f.available (infoAt c commandInfo) 0x2 →
    commandInfo + f.gatewayOffset + 4 ≤ size ∧
    commandInfo + pointer (infoAt c commandInfo) f.gatewayOffset + f.size ≤ size
  dns : f.available (infoAt c commandInfo) 0x1 → f.available (infoAt c commandInfo) 0x4 →
    commandInfo + f.dnsServerOffset + 4 ≤ size ∧ commandInfo + f.dnsServerCount + 4 ≤ size ∧
    commandInfo + pointer (infoAt c commandInfo) f.dnsServerOffset + f.size ≤ size ∧
    (word (infoAt c commandInfo) f.dnsServerCount = 2 →
      commandInfo + pointer (infoAt c commandInfo) f.dnsServerOffset + 2 * f.size ≤ size)
  mtu : f.available (infoAt c commandInfo) 0x1 → f.available (infoAt c commandInfo) 0x8 →
    commandInfo + f.mtu + 4 ≤ size

/-- What the IPv4 block has found and the IPv6 one takes, 16 bytes of each, for want of its own. -/
structure LeftFits (c : Mem) (size : Nat) : Prop where
  gateway : ipv4.available (infoAt c commandInfo) 0x1 → ipv4.available (infoAt c commandInfo) 0x2 →
    ¬ ipv6.available (infoAt c commandInfo) 0x2 →
    commandInfo + pointer (infoAt c commandInfo) ipv4.gatewayOffset + ipv6.size ≤ size
  dns : ipv4.available (infoAt c commandInfo) 0x1 → ipv4.available (infoAt c commandInfo) 0x4 →
    ¬ ipv6.available (infoAt c commandInfo) 0x4 →
    commandInfo + pointer (infoAt c commandInfo) ipv4.dnsServerOffset + ipv6.size ≤ size
  second : SecondLeft (infoAt c commandInfo) →
    ¬ (ipv6.available (infoAt c commandInfo) 0x4 ∧
      word (infoAt c commandInfo) ipv6.dnsServerCount = 2) →
    commandInfo + (pointer (infoAt c commandInfo) ipv4.dnsServerOffset + ipv4.size) + ipv6.size ≤
      size

/-- `mbim_ip_config`, which prints the answer if it has not been printed yet. -/
structure ConfigFits (c : Mem) (mbimVerbose : Bool) (size : Nat) : Prop where
  dump : mbimVerbose = false → IpconfigFits c commandInfo size
  blocks : ∀ f ∈ [ipv4, ipv6], BlockFits c size f
  left : ipv6.available (infoAt c commandInfo) 0x1 → LeftFits c size

def InfoFits (c : Mem) (mbimVerbose : Bool) (size : Nat) : Query → Prop
  | .deviceCapsQuery => CapsFits c size
  | .subscriberStatusQuery => commandInfo + 4 ≤ size
  | .ipConfig => ConfigFits c mbimVerbose size

/-- A message whose status is not 0, of a type that has one. -/
def Failed (c : Mem) : Prop :=
  messageType c ∈ [mbimOpenDone, mbimCloseDone, mbimFunctionErrorMsg] ∧ status c ≠ 0 ∨
    messageType c = mbimCommandDone ∧ commandDoneStatus c ≠ 0

/-- The copy of an answer: it is long enough for the query, and for `mbim_dump` if that prints it
for its status. -/
structure AnswerFits (c : Mem) (mbimVerbose : Bool) (size : Nat) (q : Query) : Prop where
  header : commandInfo ≤ size
  dump : Failed c → mbimVerbose = false → DumpFits c size
  info : informationBufferLength c ≠ 0 → InfoFits c mbimVerbose size q

/-- What a message has to be for the queries and `mbim_recv_command` to stay within it. -/
structure Fits (e : Env) (m : Mem) (size : Nat) : Prop where
  recv : RecvFits e m size
  answer : ∀ q, e.answered m = some q →
    AnswerFits (copy e m) e.mbimVerbose (messageLength m).toNat q

variable {size b n limit : Nat} {as as' : List Access} {m c : Mem} {offset len : UInt32}

def message (bytes : List UInt8) : Mem := fun i => bytes.getD i 0

def unsolicited (mbimVerbose : Bool) : Env := ⟨mbimVerbose, none, true, fun _ => 0, true⟩

end ModemSupport.Cm.MbimRecv
