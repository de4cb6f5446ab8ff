import ModemSupport.Cm.GetTlv

/-! `ComposeQMUXMsg` (`QMIThread.c`) with the requests of a data call: what it writes to its buffer,
and what `GetTLV` finds in the request that is returned. -/

namespace ModemSupport.Cm.ComposeQmux

open Lib.Memory Lib.Tlv GetTlv

/-- The fields of a `PROFILE_T` that requests are made of; of a string its characters. -/
structure Profile where
  apn : Option (List UInt8)
  user : Option (List UInt8)
  password : Option (List UInt8)
  auth : Int
  pdp : Int
  isDualIPSupported : Int
  curIpFamily : Int
  enableIpv6 : Int

structure Service where
  sIsCdma : Int
  sHdrPersonality : Int

structure Tlvs where
  pTLV : Nat
  writes : Writes
  tlvLength : UInt16

def Tlvs.place (s : Tlvs) : Nat := s.pTLV + s.tlvLength.toNat

def Tlvs.byte (s : Tlvs) (tlvType : UInt8) (v : UInt8) : Tlvs :=
  { s with
    writes := s.writes ++ [(s.place, tlvType :: (toLE 2 1 ++ [v]))]
    tlvLength := s.tlvLength + (1 + 3) }

/-- A TLV of a string, behind which `qstrcpy` writes the end of the string. -/
def Tlvs.string (s : Tlvs) (tlvType : UInt8) (v : List UInt8) : Tlvs :=
  { s with
    writes := s.writes ++ [(s.place, tlvType :: (toLE 2 v.length ++ (v ++ [0])))]
    tlvLength := s.tlvLength + (UInt16.ofNat v.length + 3) }

def Tlvs.stringOf (s : Tlvs) (tlvType : UInt8) : Option (List UInt8) → Tlvs
  | none => s
  | some v => s.string tlvType v

def cdmaUser : List UInt8 :=
  [0x63, 0x74, 0x6E, 0x65, 0x74, 0x40, 0x6D, 0x79, 0x63, 0x64, 0x6D, 0x61, 0x2E, 0x63, 0x6E]

def cdmaPassword : List UInt8 := [0x76, 0x6E, 0x65, 0x74, 0x2E, 0x6D, 0x6F, 0x62, 0x69]

def NoString (s : Option (List UInt8)) : Prop := s.getD [] = []

instance (s : Option (List UInt8)) : Decidable (NoString s) :=
  inferInstanceAs (Decidable (s.getD [] = []))

structure Credentials where
  user : Option (List UInt8)
  password : Option (List UInt8)
  auth : Int

def credentials (g : Service) (profile : Profile) : Credentials :=
  if g.sIsCdma ≠ 0 ∧ NoString profile.user ∧ NoString profile.password then
    ⟨some cdmaUser, some cdmaPassword, 2⟩
  else ⟨profile.user, profile.password, profile.auth⟩

/-- `WdsStartNwInterfaceReq`: what is written, and what is returned. -/
def wdsStartNwInterfaceReq (g : Service) (profile : Profile) : Writes × UInt16 :=
  let c := credentials g profile
  let s : Tlvs := ⟨tlvOffset, [(lengthOffset, [0, 0])], 0⟩
  let s := s.byte 0x30 (if g.sIsCdma = 0 then 0x01 else 0x02)
  let s := if g.sIsCdma = 0 then s.stringOf 0x14 profile.apn else s
  let s := s.stringOf 0x17 c.user
  let s := s.stringOf 0x18 c.password
  let s := if c.user.isSome ∧ c.password.isSome then s.byte 0x16 (UInt8.ofInt c.auth) else s
  let s := s.byte 0x19 (UInt8.ofInt profile.curIpFamily)
  let s := if profile.pdp ≠ 0 ∧ g.sIsCdma = 0 then
      if g.sIsCdma ≠ 0 ∧ g.sHdrPersonality = 0x02 then s.byte 0x32 101
      else s.byte 0x31 (UInt8.ofInt profile.pdp)
    else s
  (s.writes, 4 + s.tlvLength)

def wdsModifyProfileSettingsReq (profile : Profile) : Writes × UInt16 :=
  let s : Tlvs := ⟨tlvOffset + 5, [(lengthOffset, toLE 2 (9 - 4)),
    (tlvOffset, 0x01 :: (toLE 2 2 ++ [0x00, UInt8.ofInt profile.pdp]))], 0⟩
  let s := s.byte 0x11
    (if profile.isDualIPSupported ≠ 0 then 3 else if profile.enableIpv6 ≠ 0 then 2 else 0)
  let s := s.stringOf 0x14 profile.apn
  let s := s.stringOf 0x1B profile.user
  let s := s.stringOf 0x1C profile.password
  let s := if profile.user.isSome ∧ profile.password.isSome then
      s.byte 0x1D (UInt8.ofInt profile.auth)
    else s
  (s.writes, 9 + s.tlvLength)

def wdmDefaultBufsize : Nat := 256

/-- A request: the bytes that have been allocated for it, and the memory from it on. -/
structure Request where
  length : Nat
  mem : Mem

structure Composed where
  writes : Writes
  request : Option Request

/-- `ComposeQMUXMsg`, with the client that has been found for the type, the transaction, which
allocations succeed and what stands behind the buffer. -/
def composeQMUXMsg (qmiType : UInt8) (type : UInt16) (custom : Option (Writes × UInt16))
    (qmiclientId : Int) (transactionId : UInt16) (malloc : Nat → Bool) (stack : Mem) : Composed :=
  let qmiHdr : Writes :=
    [(0, [0x01]), (3, [0x00]), (4, [qmiType]), (5, [UInt8.ofInt qmiclientId])]
  if qmiclientId = 0 then ⟨qmiHdr, none⟩
  else
    let qmuxHdr : Writes :=
      [(6, [0x00]), (7, toLE 2 transactionId.toNat), (9, toLE 2 type.toNat)]
    let message : Writes × UInt16 := (custom.map fun c => (c.1, c.2 - 4)).getD ([], 0)
    let qmiLength : UInt16 := message.2 + 4 + 3 + 6 - 1
    let length := qmiLength.toNat + 1
    let writes := qmiHdr ++ qmuxHdr ++ message.1 ++
      [(lengthOffset, toLE 2 message.2.toNat), (1, toLE 2 qmiLength.toNat)]
    let qmiBuf := written (fun i => if i < wdmDefaultBufsize then 0 else stack i) writes
    ⟨writes, if malloc length then some ⟨length, qmiBuf⟩ else none⟩

inductive Kind where
  | start
  | modify
  deriving DecidableEq

def Kind.custom (k : Kind) (g : Service) (profile : Profile) : Writes × UInt16 :=
  match k with
  | .start => wdsStartNwInterfaceReq g profile
  | .modify => wdsModifyProfileSettingsReq profile

/-- What a request is for: the types of its TLVs and the values that are given.  CDMA has no APN
and no profile index, and a user and a password of its own when there is neither. -/
def Kind.table (k : Kind) (g : Service) (profile : Profile) :
    List (UInt8 × Option (List UInt8)) :=
  match k with
  | .start =>
    let c := credentials g profile
    [(0x30, some [if g.sIsCdma = 0 then 0x01 else 0x02]),
      (0x14, if g.sIsCdma = 0 then profile.apn else none),
      (0x17, c.user), (0x18, c.password),
      (0x16, if c.user.isSome ∧ c.password.isSome then some [UInt8.ofInt c.auth] else none),
      (0x19, some [UInt8.ofInt profile.curIpFamily]),
      (0x31, if profile.pdp ≠ 0 ∧ g.sIsCdma = 0 then some [UInt8.ofInt profile.pdp] else none)]
  | .modify =>
    [(0x01, some [0x00, UInt8.ofInt profile.pdp]),
      (0x11, some [if profile.isDualIPSupported ≠ 0 then 3
        else if profile.enableIpv6 ≠ 0 then 2 else 0]),
      (0x14, profile.apn), (0x1B, profile.user), (0x1C, profile.password),
      (0x1D, if profile.user.isSome ∧ profile.password.isSome then
        some [UInt8.ofInt profile.auth] else none)]

/-- The last TLV is a string, whose end is written behind the request. -/
def Kind.EndsInString (k : Kind) (profile : Profile) : Prop :=
  k = .modify ∧ ¬(profile.user.isSome ∧ profile.password.isSome) ∧
    (profile.apn.isSome ∨ profile.user.isSome ∨ profile.password.isSome)

instance (k : Kind) (profile : Profile) : Decidable (k.EndsInString profile) :=
  inferInstanceAs (Decidable (_ ∧ _ ∧ _))

def Kind.Fits (k : Kind) (g : Service) (profile : Profile) : Prop :=
  tlvOffset + (encode (items (k.table g profile))).length +
    (if k.EndsInString profile then 1 else 0) ≤ wdmDefaultBufsize

instance (k : Kind) (g : Service) (profile : Profile) : Decidable (k.Fits g profile) :=
  inferInstanceAs (Decidable (_ ≤ wdmDefaultBufsize))

structure Request.Consistent (r : Request) : Prop where
  qmi : ofLE (slice r.mem 1 2) + 1 = r.length
  qmux : tlvOffset + messageLength r.mem = r.length
  tlvs : ∃ xs, Fills r.mem xs

/-- `GetTLV` finds a value in a request, or nothing. -/
def Request.Answers (r : Request) (t : UInt8) (v : Option (List UInt8)) : Prop :=
  ∃ as, GetTLV r.mem t.toNat as ∧
    match v with
    | none => returned as = [none]
    | some v => ∃ p, returned as = [some p] ∧ p + headerSize + v.length ≤ r.length ∧
        size r.mem p = v.length ∧ slice r.mem (p + headerSize) v.length = v

/-- The buffer is not left, and a request that is returned reads back. -/
structure Correct (table : List (UInt8 × Option (List UInt8))) (c : Composed) : Prop where
  inside : Inside c.writes wdmDefaultBufsize
  copied : ∀ r, c.request = some r → r.length ≤ wdmDefaultBufsize
  consistent : ∀ r, c.request = some r → r.Consistent
  answers : ∀ r, c.request = some r → ∀ t, r.Answers t (table.lookup t).join

end ModemSupport.Cm.ComposeQmux
