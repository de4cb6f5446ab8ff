import ModemSupport.Sendat.SeptetsRoundTrip

/-! `pdu_decode` (`pdu.c`), which takes an SMS apart into a sender, a time and a text. -/

namespace ModemSupport.Sendat.PduDecode

open Lib.Memory (Mem put)
open Septets (Buffer capacity decodePDUMessage decode_eq extend gsm7bitsEscape unpack unpack_lt)

def gsm7bitsToLatin1 : List UInt8 :=
  [0x40, 0xa3, 0x24, 0xa5, 0xe8, 0xe9, 0xf9, 0xec, 0xf2, 0xc7, 0x0a, 0xd8, 0xf8, 0x0d, 0xc5, 0xe5,
   0x00, 0x5f, 0x00, 0x00, 0x00, 0x00, 0x00, 0x00, 0x00, 0x00, 0x00, 0x00, 0xc6, 0xe6, 0xdf, 0xc9,
   0x20, 0x21, 0x22, 0x23, 0xa4, 0x25, 0x26, 0x27, 0x28, 0x29, 0x2a, 0x2b, 0x2c, 0x2d, 0x2e, 0x2f,
   0x30, 0x31, 0x32, 0x33, 0x34, 0x35, 0x36, 0x37, 0x38, 0x39, 0x3a, 0x3b, 0x3c, 0x3d, 0x3e, 0x3f,
   0xa1, 0x41, 0x42, 0x43, 0x44, 0x45, 0x46, 0x47, 0x48, 0x49, 0x4a, 0x4b, 0x4c, 0x4d, 0x4e, 0x4f,
   0x50, 0x51, 0x52, 0x53, 0x54, 0x55, 0x56, 0x57, 0x58, 0x59, 0x5a, 0xc4, 0xd6, 0xd1, 0xdc, 0xa7,
   0xbf, 0x61, 0x62, 0x63, 0x64, 0x65, 0x66, 0x67, 0x68, 0x69, 0x6a, 0x6b, 0x6c, 0x6d, 0x6e, 0x6f,
   0x70, 0x71, 0x72, 0x73, 0x74, 0x75, 0x76, 0x77, 0x78, 0x79, 0x7a, 0xe4, 0xf6, 0xf1, 0xfc, 0xe0]

def gsm7bitsExtendToLatin1 : List UInt8 :=
  [0x00, 0x00, 0x00, 0x00, 0x00, 0x00, 0x00, 0x00, 0x00, 0x00, 0x0c, 0x00, 0x00, 0x00, 0x00, 0x00,
   0x00, 0x00, 0x00, 0x00, 0x5e, 0x00, 0x00, 0x00, 0x00, 0x00, 0x00, 0x00, 0x00, 0x00, 0x00, 0x00,
   0x00, 0x00, 0x00, 0x00, 0x00, 0x00, 0x00, 0x00, 0x7b, 0x7d, 0x00, 0x00, 0x00, 0x00, 0x00, 0x5c,
   0x00, 0x00, 0x00, 0x00, 0x00, 0x00, 0x00, 0x00, 0x00, 0x00, 0x00, 0x00, 0x5b, 0x7e, 0x5d, 0x00,
   0x7c, 0x00, 0x00, 0x00, 0x00, 0x00, 0x00, 0x00, 0x00, 0x00, 0x00, 0x00, 0x00, 0x00, 0x00, 0x00,
   0x00, 0x00, 0x00, 0x00, 0x00, 0x00, 0x00, 0x00, 0x00, 0x00, 0x00, 0x00, 0x00, 0x00, 0x00, 0x00,
   0x00, 0x00, 0x00, 0x00, 0x00, 0x00, 0x00, 0x00, 0x00, 0x00, 0x00, 0x00, 0x00, 0x00, 0x00, 0x00,
   0x00, 0x00, 0x00, 0x00, 0x00, 0x00, 0x00, 0x00, 0x00, 0x00, 0x00, 0x00, 0x00, 0x00, 0x00, 0x00]

/-- What is left in the text, with the offsets of it that are read and written and the indexes into
the two tables. -/
structure Rewritten where
  text : Mem
  length : Nat
  reads : List Nat
  writes : List Nat
  indexes : List UInt8

/-- `memmove` of `n` bytes from behind the byte at an offset to its place. -/
def moveDown (text : Mem) (i n : Nat) : Mem :=
  fun j => if i ≤ j ∧ j < i + n then text (j + 1) else text j

def g7bitToAscii (text : Mem) (i bufferLength : Nat) : Rewritten :=
  if i < bufferLength then
    if text i < 128 then
      if text i = gsm7bitsEscape then
        let n := bufferLength - i - 1
        let byte := gsm7bitsExtendToLatin1.getD (text (i + 1)).toNat 0
        let rest := g7bitToAscii (moveDown (Function.update text i byte) (i + 1) n) (i + 1)
          (bufferLength - 1)
        { rest with
          reads := i :: (i + 1) :: (List.range' (i + 2) n ++ rest.reads)
          writes := i :: (List.range' (i + 1) n ++ rest.writes)
          indexes := text (i + 1) :: rest.indexes }
      else
        let byte := gsm7bitsToLatin1.getD (text i).toNat 0
        let rest := g7bitToAscii (Function.update text i byte) (i + 1) bufferLength
        { rest with
          reads := i :: rest.reads
          writes := i :: rest.writes
          indexes := text i :: rest.indexes }
    else
      let rest := g7bitToAscii text (i + 1) bufferLength
      { rest with reads := i :: rest.reads }
  else ⟨text, bufferLength, [], [], []⟩
termination_by bufferLength - i

def swapDecimalNibble (x : UInt8) : UInt8 := x / 16 + x % 16 * 10

structure Tm where
  year : Int
  mon : Int
  mday : Int
  hour : Int
  min : Int
  sec : Int

def smsBrokenTime (buffer : Buffer) : Tm where
  year := 100 + (swapDecimalNibble (buffer 2)).toNat
  mon := (swapDecimalNibble (buffer 3)).toNat - 1
  mday := (swapDecimalNibble (buffer 4)).toNat
  hour := (swapDecimalNibble (buffer 5)).toNat
  min := (swapDecimalNibble (buffer 6)).toNat
  sec := (swapDecimalNibble (buffer 7)).toNat

/-- `DecodePhoneNumber`: what is written, the end of the string included, and what is read. -/
def decodePhoneNumber (buffer : Buffer) (phoneNumberLength : Nat) : List UInt8 × List Nat :=
  ((List.range phoneNumberLength).map (fun i =>
      if i % 2 = 0 then (buffer (i / 2) &&& 0x0F) + 0x30
      else (buffer (i / 2) &&& 0xF0) >>> 4 + 0x30) ++ [0],
    (List.range phoneNumberLength).map (· / 2))

def typeOfAddressAlphanumeric : UInt8 := 0xD0

def senderNumber (buffer : Buffer) (typeOfAddress : UInt8) (length : Nat) :
    List UInt8 × List Nat :=
  if typeOfAddress = typeOfAddressAlphanumeric then
    let split := decodePDUMessage buffer ((length + 1) / 2) length
    (split.text, split.reads)
  else decodePhoneNumber buffer length

/-- What is written to the arguments; `none` is an argument that is left as it is. -/
structure Outputs where
  smsTime : Option Tm := none
  senderPhoneNumber : List UInt8 := []
  smsText : Mem
  tpDcs : Option UInt8 := none
  refNumber : Option Nat := none
  totalParts : Option Nat := none
  partNumber : Option Nat := none
  skipBytes : Option Nat := none

/-- The offsets of the PDU that are read, those of the text that are read and written, and the
indexes into the two tables. -/
structure Log where
  reads : List Nat := []
  textReads : List Nat := []
  textWrites : List Nat := []
  indexes : List UInt8 := []

def Log.append (a b : Log) : Log :=
  ⟨a.reads ++ b.reads, a.textReads ++ b.textReads, a.textWrites ++ b.textWrites,
    a.indexes ++ b.indexes⟩

structure Run where
  ret : Int
  outputs : Outputs
  log : Log

/-- A text and its length, for which `none` is an unexpected one. -/
structure Decoded where
  length : Option Nat
  text : Mem
  log : Log

/-- `GSM 7 bit`, for `n` septets behind an offset. -/
def sevenBit (buffer : Buffer) (bufferLength : Int) (smsStart n : Nat) (text : Mem) : Decoded :=
  let split := decodePDUMessage (fun i => buffer (smsStart + 1 + i))
    (bufferLength - (smsStart + 1 : Nat)).toNat n
  let log : Log :=
    { reads := split.reads.map (smsStart + 1 + ·), textWrites := List.range split.text.length }
  let text := put text 0 (split.text.map some)
  if split.text.length ≠ n then ⟨none, text, log⟩
  else
    let ascii := g7bitToAscii text 0 n
    ⟨some ascii.length, ascii.text, log.append ⟨[], ascii.reads, ascii.writes, ascii.indexes⟩⟩

def ucs2 (buffer : Buffer) (smsStart n : Nat) (text : Mem) : Decoded :=
  let bytes := (List.range n).map fun i => buffer (smsStart + 1 + i)
  ⟨some n, put text 0 (bytes.map some),
    { reads := List.range' (smsStart + 1) n, textWrites := List.range n }⟩

def decodeText (buffer : Buffer) (bufferLength : Int) (smsStart : Nat) (tpDcs : UInt8) (n : Nat)
    (text : Mem) : Decoded :=
  match tpDcs.toNat / 4 % 4 with
  | 0 => sevenBit buffer bufferLength smsStart n text
  | 2 => ucs2 buffer smsStart n text
  | _ => ⟨some n, text, {}⟩

def stringEnd (length smsTextSize : Nat) : Nat :=
  if length < smsTextSize then length else smsTextSize - 1

def deliverStart (buffer : Buffer) : Nat := 1 + (buffer 0).toNat

def senderLength (buffer : Buffer) : Nat := (buffer (deliverStart buffer + 1)).toNat

def pidStart (buffer : Buffer) : Nat := deliverStart buffer + 3 + (senderLength buffer + 1) / 2

def smsStart (buffer : Buffer) : Nat := pidStart buffer + 2 + 7

def HasHeader (buffer : Buffer) : Prop :=
  (buffer (deliverStart buffer)).toNat >>> 4 &&& 0x04 = 0x04

instance (buffer : Buffer) : Decidable (HasHeader buffer) :=
  inferInstanceAs (Decidable ((buffer (deliverStart buffer)).toNat >>> 4 &&& 0x04 = 0x04))

def readHeader (buffer : Buffer) (outputs : Outputs) : Outputs × List Nat :=
  let start := smsStart buffer
  if HasHeader buffer then
    let tmp := (buffer (start + 1)).toNat + 1
    ({ outputs with
        skipBytes := some tmp
        refNumber := some (buffer (start + tmp - 2)).toNat
        totalParts := some (buffer (start + tmp - 1)).toNat
        partNumber := some (buffer (start + tmp)).toNat },
      [start + 1, start + tmp - 2, start + tmp - 1, start + tmp])
  else
    ({ outputs with
        skipBytes := some 0, refNumber := some 0, totalParts := some 0, partNumber := some 0 }, [])

def readText (buffer : Buffer) (bufferLength : Int) (smsTextSize : Nat) (outputs : Outputs)
    (log : Log) : Run :=
  let start := smsStart buffer
  let length := (buffer start).toNat
  let log := log.append { reads := [start] }
  if smsTextSize < length then ⟨-1, outputs, log⟩
  else
    let tpDcs := buffer (pidStart buffer + 1)
    let decoded := decodeText buffer bufferLength start tpDcs length outputs.smsText
    let outputs := { outputs with tpDcs := some tpDcs, smsText := decoded.text }
    let log := (log.append { reads := [pidStart buffer + 1] }).append decoded.log
    match decoded.length with
    | none => ⟨-1, outputs, log⟩
    | some length =>
      let last := stringEnd length smsTextSize
      ⟨length, { outputs with smsText := Function.update decoded.text last 0 },
        log.append { textWrites := [last] }⟩

def pduDecode (buffer : Buffer) (bufferLength : Int) (senderPhoneNumberSize smsTextSize : Nat)
    (text : Mem) : Run :=
  let outputs : Outputs := { smsText := text }
  if bufferLength ≤ 0 then ⟨-1, outputs, {}⟩
  else
    let start := deliverStart buffer
    let log : Log := { reads := [0] }
    if start + 1 > bufferLength then ⟨-2, outputs, log⟩
    else
      let log := log.append { reads := [start, start + 1] }
      if senderLength buffer + 1 > senderPhoneNumberSize then ⟨-3, outputs, log⟩
      else
        let number := senderNumber (fun i => buffer (start + 3 + i)) (buffer (start + 2))
          (senderLength buffer)
        let outputs := { outputs with
          senderPhoneNumber := number.1
          smsTime := some (smsBrokenTime fun i => buffer (pidStart buffer + i)) }
        let log := log.append { reads :=
          (start + 2) :: (number.2.map (start + 3 + ·) ++ List.range' (pidStart buffer + 2) 6) }
        if smsStart buffer + 1 > bufferLength then ⟨-1, outputs, log⟩
        else
          let header := readHeader buffer outputs
          readText buffer bufferLength smsTextSize header.1 (log.append { reads := header.2 })

end ModemSupport.Sendat.PduDecode
