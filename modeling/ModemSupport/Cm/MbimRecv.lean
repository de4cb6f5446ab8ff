import ModemSupport.Cm.MbimCompose
import ModemSupport.Cm.MbimIpConfig

/-! What `mbim_recv_command` (`mbim-cm.c`) and the queries that it answers access for a message of
the device. -/

namespace ModemSupport.Cm.MbimRecv

open Lib.Memory MbimIpConfig
open MbimCompose (uuidBasicConnect)

/-- Bytes of a message that are read, by their offset and number, or a byte that is written: of the
`buff` of `mbim_get_segment` or of the `tmp` of `mbim_device_caps_query`. -/
inductive Access where
  | read (p n : Nat)
  | buff (idx : Nat)
  | tmp (i : Nat)
  deriving DecidableEq

def Access.Within (size : Nat) : Access → Prop
  | .read p n => p + n ≤ size
  | .buff idx => idx < 256
  | .tmp i => i < 32

def AllWithin (size : Nat) (as : List Access) : Prop := ∀ a ∈ as, a.Within size

def fields (b : Nat) (offsets : List Nat) : List Access := offsets.map fun p => .read (b + p) 4

def mbimOpenMsg : UInt32 := 1
def mbimCommandMsg : UInt32 := 3
def mbimOpenDone : UInt32 := 0x80000001
def mbimCloseDone : UInt32 := 0x80000002
def mbimCommandDone : UInt32 := 0x80000003
def mbimFunctionErrorMsg : UInt32 := 0x80000004
def mbimIndicateStatusMsg : UInt32 := 0x80000007

def mbimCidSubscriberReadyStatus : UInt32 := 2
def mbimCidRegisterState : UInt32 := 9
def mbimCidPacketService : UInt32 := 10
def mbimCidSignalState : UInt32 := 11
def mbimCidConnect : UInt32 := 12
def mbimCidIpConfiguration : UInt32 := 15

def messageType (m : Mem) : UInt32 := word m 0
def messageLength (m : Mem) : UInt32 := word m 4
def transactionId (m : Mem) : UInt32 := word m 8
def deviceServiceId (m : Mem) : List UInt8 := slice m 20 16
def cid (m : Mem) : UInt32 := word m 36

/-- `Status` of `MBIM_OPEN_DONE_T` and `MBIM_CLOSE_DONE_T`, `ErrorStatusCode` of
`MBIM_FUNCTION_ERROR_MSG_T`. -/
def status (m : Mem) : UInt32 := word m 12

def commandDoneStatus (m : Mem) : UInt32 := word m 40
def informationBufferLength (m : Mem) : UInt32 := word m 44

/-- The offset of `InformationBuffer` in `MBIM_COMMAND_MSG_T` and `MBIM_COMMAND_DONE_T`, and in
`MBIM_INDICATE_STATUS_MSG_T`. -/
def commandInfo : Nat := 48
def indicateInfo : Nat := 44

def infoAt (m : Mem) (b : Nat) : Mem := fun i => m (b + i)

/-- `offset+idx*2` is a `UINT32`. -/
def mbimGetSegment (b : Nat) (offset len : UInt32) : List Access :=
  (List.range (len.toNat / 2)).flatMap (fun idx =>
    [.read (b + (offset + UInt32.ofNat (2 * idx)).toNat) 1, .buff idx]) ++
  [.buff (len.toNat / 2)]

def mbimDumpHeader : List Access := fields 0 [4, 0, 8]

def mbimDumpCommandMsg : List Access := .read 20 16 :: fields 0 [36, 40, 44]

def mbimDumpCommandDone : List Access := .read 20 16 :: fields 0 [36, 40, 44]

def mbimDumpIndicateMsg : List Access := .read 20 16 :: fields 0 [36, 40]

def mbimDumpConnect (b : Nat) : List Access :=
  fields b [0, 4, 12, 8] ++ [.read (b + 16) 16, .read (b + 32) 4]

def mbimDumpSignalState (b : Nat) : List Access := fields b [0, 4, 8, 12, 16]

def mbimDumpPacketService (b : Nat) : List Access :=
  fields b [0, 4, 8] ++ [.read (b + 12) 8, .read (b + 20) 8]

/-- The first element of the list is printed `ElementCount` times. -/
def mbimDumpSubscriberStatus (m : Mem) (b : Nat) : List Access :=
  let info := infoAt m b
  fields b [0, 12, 16] ++ mbimGetSegment b (word info 12) (word info 16) ++
  fields b [4, 8] ++ mbimGetSegment b (word info 4) (word info 8) ++
  fields b [24] ++ (List.replicate (word info 24).toNat
    (fields b [28, 32] ++ mbimGetSegment b (word info 28) (word info 32) ++ fields b [24])).flatten

def mbimDumpRegiesterStatus (b : Nat) : List Access := fields b [0, 4, 8]

/-- What is printed of the second DNS server: for IPv6 the first one's bytes are printed in the
place of its bytes 4 to 7. -/
def dumpSecond (f : Family) (p : Nat) : List Access :=
  if f.size = 16 then [.read p 4, .read (p + 8) 8] else [.read p f.size]

def dumpFamily (m : Mem) (b : Nat) (f : Family) : List Access :=
  let info := infoAt m b
  (if f.available info 0x1 then
    [.read (b + f.addressOffset) 4, .read (b + pointer info f.addressOffset) 4,
      .read (b + pointer info f.addressOffset + 4) f.size]
  else []) ++
  (if f.available info 0x2 then
    [.read (b + f.gatewayOffset) 4, .read (b + pointer info f.gatewayOffset) f.size]
  else []) ++
  (if f.available info 0x3 then
    [.read (b + f.dnsServerOffset) 4, .read (b + pointer info f.dnsServerOffset) f.size,
      .read (b + f.dnsServerCount) 4] ++
    (if word info f.dnsServerCount = 2 then
      dumpSecond f (b + pointer info f.dnsServerOffset + f.size)
    else [])
  else []) ++
  fields b [f.mtu]

def mbimDumpIpconfig (m : Mem) (b : Nat) : List Access :=
  fields b [0, 4, 8, 12, 16, 20, 24] ++ dumpFamily m b ipv4 ++ dumpFamily m b ipv6

def commandMsgInfo (m : Mem) : List Access :=
  if cid m = mbimCidConnect then fields commandInfo [0]
  else if cid m = mbimCidIpConfiguration then fields commandInfo [0]
  else []

def commandDoneInfo (m : Mem) : List Access :=
  if cid m = mbimCidConnect then mbimDumpConnect commandInfo
  else if cid m = mbimCidIpConfiguration then mbimDumpIpconfig m commandInfo
  else if cid m = mbimCidPacketService then mbimDumpPacketService commandInfo
  else if cid m = mbimCidSubscriberReadyStatus then mbimDumpSubscriberStatus m commandInfo
  else if cid m = mbimCidRegisterState then mbimDumpRegiesterStatus commandInfo
  else []

def indicateStatusInfo (m : Mem) : List Access :=
  if cid m = mbimCidConnect then mbimDumpConnect indicateInfo
  else if cid m = mbimCidSignalState then mbimDumpSignalState indicateInfo
  else if cid m = mbimCidSubscriberReadyStatus then mbimDumpSubscriberStatus m indicateInfo
  else if cid m = mbimCidRegisterState then mbimDumpRegiesterStatus indicateInfo
  else if cid m = mbimCidPacketService then mbimDumpPacketService indicateInfo
  else []

def dumpContents (m : Mem) : List Access :=
  if messageType m = mbimOpenMsg then fields 0 [12]
  else if messageType m = mbimOpenDone then fields 0 [12]
  else if messageType m = mbimCloseDone then fields 0 [12]
  else if messageType m = mbimCommandMsg then
    mbimDumpCommandMsg ++ (if deviceServiceId m = uuidBasicConnect then commandMsgInfo m else [])
  else if messageType m = mbimCommandDone then
    mbimDumpCommandDone ++ (if deviceServiceId m = uuidBasicConnect then commandDoneInfo m else [])
  else if messageType m = mbimIndicateStatusMsg then
    mbimDumpIndicateMsg ++
      (if deviceServiceId m = uuidBasicConnect then indicateStatusInfo m else [])
  else if messageType m = mbimFunctionErrorMsg then fields 0 [12]
  else []

/-- The type is read in any case, for `direction`. -/
def mbimDump (m : Mem) (mbimVerbose : Bool) : List Access :=
  fields 0 [0] ++
  if mbimVerbose then
    fields 0 [4] ++ (List.range (min (messageLength m).toNat 4096)).map (.read · 1) ++
      mbimDumpHeader ++ dumpContents m
  else []

/-- The queries that go through more of their answer than its status. -/
inductive Query where
  | deviceCapsQuery
  | subscriberStatusQuery
  | ipConfig

/-- `mbim_pRequest`: its `TransactionId` and the query that waits for the answer, `none` for one of
the other commands. -/
structure Request where
  transactionId : UInt32
  query : Option Query

/-- What a message meets: whether `mbim_alloc` succeeds, what the heap holds behind the copy, and
whether the query is still waiting when it is signalled. -/
structure Env where
  mbimVerbose : Bool
  mbimPRequest : Option Request
  allocated : Bool
  heap : Mem
  waiting : Bool

def Env.answers (e : Env) (m : Mem) : Option Request :=
  e.mbimPRequest.filter fun r => r.transactionId = transactionId m

/-- What is done about a message that is no answer.  The second case for `MBIM_CID_CONNECT` of the
source is never reached. -/
def indication (m : Mem) : List Access :=
  fields 0 [0] ++
  if messageType m = mbimIndicateStatusMsg then
    .read 20 16 ::
    if deviceServiceId m = uuidBasicConnect then
      fields 0 [36] ++
      if cid m = mbimCidConnect then fields indicateInfo [4]
      else if cid m = mbimCidSubscriberReadyStatus then fields indicateInfo [0]
      else if cid m = mbimCidRegisterState then fields indicateInfo [4]
      else if cid m = mbimCidPacketService then fields indicateInfo [4]
      else []
    else []
  else []

def mbimRecvCommand (e : Env) (m : Mem) : List Access :=
  mbimDump m e.mbimVerbose ++
  (if e.mbimPRequest.isSome then fields 0 [8] else []) ++
  match e.answers m with
  | some _ =>
    fields 0 [4] ++
      if e.allocated then fields 0 [4] ++ [.read 0 (messageLength m).toNat] else []
  | none => indication m

/-- `mbim_pResponse`, of `MessageLength` bytes. -/
def copy (e : Env) (m : Mem) : Mem := fun i =>
  if i < (messageLength m).toNat then m i else e.heap i

def mbimStatusCode (c : Mem) : UInt32 × List Access :=
  if messageType c = mbimOpenDone then (status c, fields 0 [0, 12])
  else if messageType c = mbimCloseDone then (status c, fields 0 [0, 12])
  else if messageType c = mbimCommandDone then (commandDoneStatus c, fields 0 [0, 40])
  else if messageType c = mbimFunctionErrorMsg then (status c, fields 0 [0, 12])
  else (0, fields 0 [0])

def mbimCheckErr (c : Mem) (mbimVerbose : Bool) : List Access :=
  (mbimStatusCode c).2 ++
  if (mbimStatusCode c).1 ≠ 0 then mbimDump c (!mbimVerbose) else []

/-- A string of `MBIM_DEVICE_CAPS_INFO_T` whose offset is at `field` and whose size is behind it. -/
def capsString (c : Mem) (field : Nat) : List Access :=
  let info := infoAt c commandInfo
  let count := min 32 ((word info (field + 4)).toNat / 2)
  fields commandInfo [field] ++
  if word info field ≠ 0 then
    fields commandInfo [field + 4] ++
    if word info (field + 4) ≠ 0 then
      (List.range count).flatMap (fun i =>
        [.read (commandInfo + (word info field).toNat + 2 * i) 1, .tmp i]) ++ [.tmp count]
    else []
  else []

/-- `DeviceIdOffset`, `FirmwareInfoOffset` and `HardwareInfoOffset`. -/
def capsStrings : List Nat := [40, 48, 56]

def configBlock (c : Mem) (f : Family) (v : Locals) : List Access :=
  let info := infoAt c commandInfo
  let v' := assign info f v
  fields commandInfo [f.configurationAvailable] ++
  if f.available info 0x1 then
    fields commandInfo [f.addressOffset] ++
    [.read (commandInfo + pointer info f.addressOffset) 4] ++
    (if f.available info 0x2 then fields commandInfo [f.gatewayOffset] else []) ++
    (if f.available info 0x4 then fields commandInfo [f.dnsServerOffset, f.dnsServerCount]
    else []) ++
    (if f.available info 0x8 then fields commandInfo [f.mtu] else []) ++
    ([some (pointer info f.addressOffset + 4), v'.gw, v'.dns1, v'.dns2].filterMap id).map fun p =>
      .read (commandInfo + p) f.size
  else []

def queryInfo (c : Mem) (mbimVerbose : Bool) : Query → List Access
  | .deviceCapsQuery => capsStrings.flatMap (capsString c)
  | .subscriberStatusQuery => fields commandInfo [0]
  | .ipConfig =>
    (if mbimVerbose then [] else mbimDumpIpconfig c commandInfo) ++
    configBlock c ipv4 .init ++ configBlock c ipv6 (after (infoAt c commandInfo) ipv4 .init)

def runQuery (c : Mem) (mbimVerbose : Bool) (q : Query) : List Access :=
  mbimCheckErr c mbimVerbose ++ fields 0 [44] ++
  if informationBufferLength c ≠ 0 then queryInfo c mbimVerbose q else []

def Env.answered (e : Env) (m : Mem) : Option Query :=
  if e.allocated ∧ e.waiting then (e.answers m).bind Request.query else none

/-- What `mbim_read_thread` does with `size` bytes that it has read, which start at `m`, is within
the message, and what the query does is within the copy. -/
def Safe (e : Env) (m : Mem) (size : Nat) : Prop :=
  size ≠ 0 → AllWithin size (mbimRecvCommand e m) ∧
    ∀ q, e.answered m = some q →
      AllWithin (messageLength m).toNat (runQuery (copy e m) e.mbimVerbose q)

end ModemSupport.Cm.MbimRecv
