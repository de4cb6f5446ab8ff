import ModemSupport.Rooter.SmsDecode

/-! `smsread.lua`: a line behind the header of a message, from the address of its centre to the
table of messages.  `none` is a runtime error. -/

namespace ModemSupport.Rooter.SmsRead

open Lib.Text SmsFile

/-- A digit is compared, which a missing one cannot be. -/
def isdigit (digit : Option Nat) : Option Nat :=
  digit.map fun d => if 48 ≤ d ∧ d ≤ 57 then 1 else 0

/-- The characters in pairs, each of which is swapped; nil when there is none. -/
def swapchars : Str → Option Str
  | c1 :: c2 :: s => some (c2 :: c1 :: (swapchars s).getD [])
  | _ => none

def maxSmsc : Int := 64

def maxNumber : Int := 64

/-- `parseSMSC`: what is behind the address, unless that is rejected. -/
def parseSMSC (mPdu : Str) : Option (Option Str) :=
  let length := octet2binCheck mPdu
  if length < 0 then some none
  else if length = 0 then some (some (sub mPdu 3))
  else if length < 2 ∨ length > maxSmsc then some none
  else
    let length := length.toNat * 2 - 2
    if mPdu.length < length + 4 then some none
    else
      let ptr := sub mPdu 3
      let addrType := octet2binCheck ptr
      if addrType < 0x80 then some none
      else
        let ptr := sub ptr 3
        (swapchars (ptr.take length)).bind fun mSmsc =>
          if addrType < 0x90 then
            if (List.range' 1 length).any fun j => isxdigit (byte mSmsc j) = 0 then some none
            else some (some (sub ptr (length + 1)))
          else
            let mSmsc := if byte mSmsc length = some 70 then subTo mSmsc 1 (length - 1) else mSmsc
            ((List.range' 1 mSmsc.length).anyM fun j => (isdigit (byte mSmsc j)).map (· = 0)).map
              fun wrong => if wrong then none else some (sub ptr (length + 1))

/-- What is set while a message is read; `m_dcs` and the decoders keep it. -/
structure Message where
  mWithUdh : Nat
  mNumber : Option Str
  mAlphabet : Int
  mDcs : Option Nat
  mDate : Option Str
  mTime : Option Str
  mText : Option Str
  mConcat : Option Str
  decoder : Decoder

def Message.decoded (m : Message) (r : Decoded) : Message :=
  { m with mText := some r.mText, mConcat := r.mConcat, decoder := r.decoder }

/-- The address of a sender or a receiver: what is behind it, unless it is rejected.  `format`
writes the number of septets, `plain` is done to a number in letters, and `plus` says whether a
number of type 145 gets a plus. -/
def address (format : Nat → Str) (plain : Str → Str) (plus : Bool) (ptr : Str) (length : Nat)
    (m : Message) : Option (Option Str × Message) :=
  let padding := length % 2
  let ptr := sub ptr 3
  let addrType := octet2binCheck ptr
  if addrType < 0x80 then some (none, m)
  else
    let ptr := sub ptr 3
    if bitand addrType.toNat 112 = 80 then
      if ptr.length < length + padding then some (none, m)
      else
        (pdu2text (format (length * 4 / 7) ++ ptr) 0 m.mConcat m.decoder).map fun r =>
          if r.1 < 0 then (none, m.decoded r.2)
          else
            (some (sub ptr (length + padding + 1)),
              { m.decoded r.2 with mNumber := some (plain r.2.mText), mText := none })
    else
      (swapchars (subTo ptr 1 (length + padding + 1))).map fun number =>
        let number :=
          if byte number (length + padding) = some 70 then subTo number 1 (length + padding - 1)
          else number
        let number := if plus ∧ addrType = 145 then '+' :: number else number
        (some (sub ptr (length + padding + 1)), { m with mNumber := some number })

def swapped (ptr : Str) (sep : Char) : Str :=
  subTo ptr 2 2 ++ subTo ptr 1 1 ++ sep :: (subTo ptr 4 4 ++ subTo ptr 3 3) ++
    sep :: (subTo ptr 6 6 ++ subTo ptr 5 5)

/-- Whether one of six characters is `not isdigit`, which no number is: 0 is true. -/
def noDigits (ptr : Str) : Option Bool :=
  (List.range' 1 6).anyM fun k => (isdigit (byte ptr k)).map fun _ => false

def quarter (n : Nat) : Str :=
  dec (n / 4) ++
    match n % 4 with
    | 0 => []
    | 1 => ['.', '2', '5']
    | 2 => ['.', '5']
    | _ => ['.', '7', '5']

def timezone (ptr : Str) : Option Str := do
  let high ← tonumber16 (subTo ptr 8 8)
  let low ← tonumber16 (subTo ptr 7 7)
  let digits := (if high > 7 then high - 8 else high) * (if low < 10 then 10 else 100) + low
  some ((if high > 7 then '-' else '+') :: quarter digits)

def upperHex (n : Nat) : Str := formatX 2 n

def lowerHex (n : Nat) : Str := (formatX 2 n).map Char.toLower

def withoutNewlines (s : Str) : Str := s.map fun c => if c = '\n' then ' ' else c

def parseText (ptr : Str) (m : Message) : Option (Int × Message) :=
  if m.mAlphabet ≤ 0 then
    (pdu2text ptr m.mWithUdh m.mConcat m.decoder).map fun r => (r.1, m.decoded r.2)
  else
    (pdu2binary m.mAlphabet ptr m.mWithUdh m.mConcat m.decoder).map fun r => (r.1, m.decoded r.2)

/-- `parseDeliver` behind the address. -/
def parseDeliverBody (ptr : Str) (m : Message) : Option (Int × Message) :=
  if ptr.length < 20 then some (0, m)
  else if octet2binCheck ptr < 0 then some (0, m)
  else
    let ptr := sub ptr 3
    let byteBuf := octet2binCheck ptr
    if byteBuf < 0 then some (0, m)
    else
      let mAlphabet := bitand byteBuf.toNat 0x0C / 4
      if mAlphabet = 3 then some (0, { m with mAlphabet := 3 })
      else
        let m :=
          { m with
            mAlphabet := if mAlphabet = 0 then -1 else (mAlphabet : Int)
            mDcs := some byteBuf.toNat }
        let ptr := sub ptr 3
        (noDigits ptr).bind fun wrong =>
          if wrong then some (0, m)
          else
            let m := { m with mDate := some (swapped ptr '-') }
            let ptr := sub ptr 7
            (noDigits ptr).bind fun wrong =>
              if wrong then some (0, m)
              else
                (timezone ptr).bind fun zone =>
                  let m := { m with mTime := some (swapped ptr ':' ++ ' ' :: zone ++ ['h']) }
                  let ptr := sub ptr 7
                  if octet2binCheck ptr < 0 then some (0, m) else parseText (sub ptr 3) m

def parseDeliver (ptr : Str) (m : Message) : Option (Int × Message) :=
  if ptr.length < 4 then some (0, m)
  else
    let length := octet2binCheck ptr
    if length < 0 ∨ length > maxNumber then some (0, m)
    else if length = 0 then parseDeliverBody (sub ptr 5) m
    else
      (address upperHex withoutNewlines true ptr length.toNat m).bind fun r =>
        match r with
        | (none, m) => some (0, m)
        | (some ptr, m) => parseDeliverBody ptr m

/-- A date and a time with their zone, as far as they are not rejected, and what is behind them. -/
def timestamp (ptr : Str) : Option (Option Str × Option Str × Option Str) :=
  (noDigits ptr).bind fun wrong =>
    if wrong then some (none, none, none)
    else
      (noDigits (sub ptr 7)).map fun wrong =>
        if wrong then (some (swapped ptr '-'), none, none)
        else
          (some (swapped ptr '-'), some (swapped (sub ptr 7) ':'),
            if octet2binCheck (sub (sub ptr 7) 7) < 0 then none
            else some (sub (sub (sub ptr 7) 7) 3))

/-- `parseStatusReport` behind the address. -/
def parseReportBody (messageid : Nat) (ptr : Str) (m : Message) : Option (Int × Message) :=
  if ptr.length < 14 then some (0, m)
  else
    (timestamp ptr).bind fun first =>
      let m := { m with mDate := first.1, mTime := first.2.1 }
      match first.2.2 with
      | none => some (0, m)
      | some ptr =>
        (timestamp ptr).map fun second =>
          match second.2.2 with
          | none => (0, m)
          | some ptr =>
            let status := octet2binCheck ptr
            if status < 0 then (0, m)
            else
              (1, { m with mText := some ("Discharge Timestamp: ".toList ++ second.1.getD [] ++
                ' ' :: second.2.1.getD [] ++ "  Message ID: ".toList ++ dec messageid ++
                  "  Status: ".toList ++ dec status.toNat) })

def parseStatusReport (ptr : Str) (m : Message) : Option (Int × Message) :=
  if ptr.length < 6 then some (0, m)
  else
    let messageid := octet2binCheck ptr
    if messageid < 0 then some (0, m)
    else
      let ptr := sub ptr 3
      let length := octet2binCheck ptr
      if length < 1 ∨ length > maxNumber then some (0, m)
      else
        (address lowerHex id false ptr length.toNat m).bind fun r =>
          match r with
          | (none, m) => some (0, m)
          | (some ptr, m) => parseReportBody messageid.toNat ptr m

/-- `parse`: a flag that is positive for a message. -/
def parse (mPdu : Str) (m : Message) : Option (Int × Message) :=
  (parseSMSC mPdu).bind fun r =>
    match r with
    | none => some (0, m)
    | some ptr =>
      let tmp := octet2binCheck ptr
      if tmp < 0 then some (0, m)
      else
        let m := if bitand tmp.toNat 0x40 > 0 then { m with mWithUdh := 1 } else m
        if bitand tmp.toNat 3 = 0 then
          (parseDeliver (sub ptr 3) m).map fun r => (if r.1 < 1 then 0 else 1, r.2)
        else if bitand tmp.toNat 3 = 2 then parseStatusReport (sub ptr 3) m
        else some (0, m)

structure Deletes where
  senders2delete : List Str
  deletebinaries : Bool

def gschar : Char := char 29

def Deletes.delsend (c : Deletes) : Str :=
  gschar :: [gschar].intercalate c.senders2delete ++ [gschar]

/-- The table of messages, the slots to delete, and what stays set. -/
structure Reader where
  t : Nat → Option Str
  tptr : Nat
  delslots : Str
  message : Message

def Message.reset (m : Message) : Message where
  mWithUdh := 0
  mNumber := none
  mAlphabet := -1
  mDcs := m.mDcs
  mDate := none
  mTime := none
  mText := none
  mConcat := none
  decoder := m.decoder

def store (c : Deletes) (mIndex mRead : Str) (r : Reader) (m : Message) : Option Reader :=
  m.mNumber.bind fun number =>
    let deleted := gschar :: number ++ [gschar] <:+: c.delsend ∨
      m.mDcs = some 245 ∧ c.deletebinaries
    let mText : Option (Option Str) :=
      match m.mConcat with
      | none => some m.mText
      | some part => m.mText.map fun text => some (part ++ '\n' :: text)
    mText.map fun mText =>
      let row := [some mIndex, some mRead, some number, m.mDate, m.mTime, mText]
      { t := fun k => if r.tptr ≤ k ∧ k < r.tptr + 6 then row.getD (k - r.tptr) none else r.t k
        tptr := r.tptr + 6
        delslots := if deleted then r.delslots ++ mIndex ++ [' '] else r.delslots
        message := { m with mText := mText } }

def readpdu (c : Deletes) (mIndex mRead pdu : Str) (r : Reader) : Option Reader :=
  (parse pdu r.message.reset).bind fun result =>
    if result.1 > 0 then store c mIndex mRead r result.2
    else some { r with message := result.2 }

end ModemSupport.Rooter.SmsRead
