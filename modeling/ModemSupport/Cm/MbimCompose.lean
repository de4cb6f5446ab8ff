import ModemSupport.Lib.Memory

/-! The messages that `mbim_main` (`mbim-cm.c`) puts together and `mbim_send_command` writes to the
device. -/

namespace ModemSupport.Cm.MbimCompose

open Lib.Memory

structure Message where
  allocated : Nat
  mem : Mem

def Message.messageLength (m : Message) : Nat := ofLE (slice m.mem 4 4)

def sizeofOpenMsg : Nat := 16

def sizeofCloseMsg : Nat := 12

def sizeofCommandMsg : Nat := 48

def le32 (x : Int) : List UInt8 := toLE 4 (x % 2 ^ 32).toNat

def header (messageType messageLength : Nat) (transactionId : UInt32) : Writes :=
  [(0, toLE 4 messageType), (4, toLE 4 messageLength), (8, toLE 4 transactionId.toNat)]

/-- The numbers that all messages take, and what uninitialised memory holds: the message's and that
of a variable on the stack. -/
structure Env where
  transactionId : UInt32
  heap : Mem
  stack : Mem

def composeOpenCommand (env : Env) (maxControlTransfer : UInt32) : Message :=
  ⟨sizeofOpenMsg, written env.heap (header 1 sizeofCommandMsg env.transactionId ++
    [(12, toLE 4 maxControlTransfer.toNat)])⟩

def composeCloseCommand (env : Env) : Message :=
  ⟨sizeofCloseMsg, written env.heap (header 2 sizeofCloseMsg env.transactionId)⟩

def uuidBasicConnect : List UInt8 :=
  [0xa2, 0x89, 0xcc, 0x33, 0xbc, 0xbb, 0x8b, 0x4f, 0xb6, 0xb0, 0x13, 0x3e, 0xc2, 0xaa, 0xe6, 0xdf]

/-- The information buffer and its length; `none` is `NULL`. -/
def information (pInformationBuffer : Option Mem) (informationBufferLength : UInt32) : Writes :=
  match pInformationBuffer with
  | none => [(44, toLE 4 0)]
  | some info =>
    if informationBufferLength = 0 then [(44, toLE 4 0)]
    else [(44, toLE 4 informationBufferLength.toNat),
      (sizeofCommandMsg, slice info 0 informationBufferLength.toNat)]

def composeBasicConnectCommand (env : Env) (cid commandType : Nat)
    (pInformationBuffer : Option Mem) (informationBufferLength : UInt32) : Message :=
  ⟨sizeofCommandMsg + informationBufferLength.toNat, written env.heap
    (header 3 (sizeofCommandMsg + informationBufferLength.toNat) env.transactionId ++
      [(12, toLE 4 1), (16, toLE 4 0), (20, uuidBasicConnect), (36, toLE 4 cid),
        (40, toLE 4 commandType)] ++
      information pInformationBuffer informationBufferLength)⟩

/-- `mbim_apn`, `mbim_user`, `mbim_passwd`, of which `none` is `NULL`, `mbim_auth` and
`mbim_iptype`. -/
structure Config where
  mbimApn : Option (List UInt8)
  mbimUser : Option (List UInt8)
  mbimPasswd : Option (List UInt8)
  mbimAuth : Int
  mbimIptype : Int

def sizeofSetConnect : Nat := 60

/-- An allocation, which fails for more than `PTRDIFF_MAX` bytes only. -/
def malloc (size : Int) : Bool := (size % 2 ^ 64).toNat < 2 ^ 63

/-- `buflen` with a string. -/
def addLength (buflen : Int) : Option (List UInt8) → Int
  | none => buflen
  | some s => int32 (buflen + 2 * s.length)

def buflen (c : Config) : Int :=
  addLength (addLength (addLength 0 c.mbimApn) c.mbimUser) c.mbimPasswd

/-- The characters of a string as the loop writes them, a zero behind each. -/
def wide (s : List UInt8) : List UInt8 := s.flatMap fun c => [c, 0]

/-- A string at `offset` in `DataBuffer`, its own offset at `field` and its size behind it, and
`offset` with this size. -/
def putString (field : Nat) (s : Option (List UInt8)) (m : Mem) (offset : Int) : Mem × Int :=
  let m := if s.getD [] = [] then m else
    written m [(field + 4, le32 (2 * (s.getD []).length)),
      (field, le32 (offset + sizeofSetConnect)),
      ((offset + sizeofSetConnect).toNat, wide (s.getD []))]
  (m, int32 (offset + ofLE (slice m (field + 4) 4)))

/-- `mbim_populate_connect_data`; `none` is -1. -/
def mbimPopulateConnectData (c : Config) (heap : Mem) : Option (Int × Mem) :=
  if malloc (sizeofSetConnect + buflen c) then
    let m : Mem := fun i => if i < (sizeofSetConnect + buflen c).toNat then 0 else heap i
    let access := putString 8 c.mbimApn m 0
    let user := putString 16 c.mbimUser access.1 access.2
    let passwd := putString 24 c.mbimPasswd user.1 user.2
    some (buflen c, passwd.1)
  else none

def uuidContextTypeInternet : List UInt8 :=
  [0x7e, 0x5e, 0x2a, 0x7e, 0x4e, 0x6f, 0x72, 0x72, 0x73, 0x6b, 0x65, 0x6e, 0x7e, 0x5e, 0x2a, 0x7e]

inductive Command where
  | openDevice (maxControlTransfer : UInt32)
  | closeDevice
  | queryConnect (sessionID : Int)
  | deviceCapsQuery
  | subscriberStatusQuery
  | registerStateQuery
  | packetServiceQuery
  | packetServiceSet
  | setConnect (onoff sessionID : Int)
  | ipConfig (sessionID : Int)

/-- The message of `mbim_set_connect`; `none` is `ENOMEM`. -/
def setConnect (env : Env) (c : Config) (onoff sessionID : Int) : Option Message :=
  match mbimPopulateConnectData c env.heap with
  | none => none
  | some (buflen, m) =>
    if buflen < 0 then none
    else
      let info := written m [(0, le32 sessionID), (4, toLE 4 (if onoff = 0 then 0 else 1)),
        (32, toLE 4 0), (36, le32 c.mbimAuth), (40, le32 c.mbimIptype),
        (44, uuidContextTypeInternet)]
      some (composeBasicConnectCommand env 12 1 (some info)
        (UInt32.ofNat (sizeofSetConnect + buflen).toNat))

/-- A variable on the stack of which only `SessionId` is set. -/
def sessionInfo (env : Env) (sessionID : Int) : Option Mem :=
  some (written env.stack [(0, le32 sessionID)])

def compose (env : Env) (c : Config) : Command → Option Message
  | .openDevice maxControlTransfer => some (composeOpenCommand env maxControlTransfer)
  | .closeDevice => some (composeCloseCommand env)
  | .queryConnect sessionID =>
    some (composeBasicConnectCommand env 12 0 (sessionInfo env sessionID) 60)
  | .deviceCapsQuery => some (composeBasicConnectCommand env 1 0 none 0)
  | .subscriberStatusQuery => some (composeBasicConnectCommand env 2 0 none 0)
  | .registerStateQuery => some (composeBasicConnectCommand env 9 0 none 0)
  | .packetServiceQuery => some (composeBasicConnectCommand env 10 0 none 0)
  | .packetServiceSet =>
    some (composeBasicConnectCommand env 10 1 (some (written env.stack [(0, toLE 4 0)])) 4)
  | .setConnect onoff sessionID => setConnect env c onoff sessionID
  | .ipConfig sessionID =>
    some (composeBasicConnectCommand env 15 0 (sessionInfo env sessionID) 60)

def Message.info (m : Message) : Mem := fun i => m.mem (sizeofCommandMsg + i)

def Message.infoLength (m : Message) : Nat := ofLE (slice m.mem 44 4)

structure Region where
  offset : Nat
  size : Nat

def Message.region (m : Message) (field : Nat) : Region :=
  ⟨ofLE (slice m.info field 4), ofLE (slice m.info (field + 4) 4)⟩

def Message.read (m : Message) (r : Region) : List UInt8 := slice m.info r.offset r.size

def Region.Apart (r r' : Region) : Prop :=
  r.size = 0 ∨ r'.size = 0 ∨ r.offset + r.size ≤ r'.offset ∨ r'.offset + r'.size ≤ r.offset

def utf16le (s : Option (List UInt8)) : List UInt8 :=
  (s.getD []).flatMap fun c => toLE 2 c.toNat

structure Message.ReadsBack (c : Config) (m : Message) : Prop where
  information : sizeofCommandMsg + m.infoLength = m.allocated
  accessString : m.read (m.region 8) = utf16le c.mbimApn
  userName : m.read (m.region 16) = utf16le c.mbimUser
  password : m.read (m.region 24) = utf16le c.mbimPasswd
  inside : ∀ field ∈ [8, 16, 24], (m.region field).offset + (m.region field).size ≤ m.infoLength
  accessString_userName : (m.region 8).Apart (m.region 16)
  accessString_password : (m.region 8).Apart (m.region 24)
  userName_password : (m.region 16).Apart (m.region 24)

/-- A message that is sent is as long as its allocation, and one that connects or disconnects has
the strings. -/
structure Correct (c : Config) (command : Command) (message : Option Message) : Prop where
  length : ∀ m, message = some m → m.messageLength = m.allocated
  readsBack : ∀ m onoff sessionID, message = some m → command = .setConnect onoff sessionID →
    m.ReadsBack c

def Config.size (c : Config) : Nat :=
  2 * ((c.mbimApn.getD []).length + (c.mbimUser.getD []).length + (c.mbimPasswd.getD []).length)

/-- An `int` holds the size of the strings, or takes it for negative so that nothing is sent. -/
def Config.Counted (c : Config) : Prop := c.size < 2 ^ 31 ∨ int32 c.size < 0

/-- The commands whose messages are as long as they say: all but the one that opens the device. -/
structure Command.Sound (c : Config) (command : Command) : Prop where
  notOpen : ∀ maxControlTransfer, command ≠ .openDevice maxControlTransfer
  counted : ∀ onoff sessionID, command = .setConnect onoff sessionID → c.Counted

end ModemSupport.Cm.MbimCompose
