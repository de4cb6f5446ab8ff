import ModemSupport.Sendat.Septets

/-! `pdu_encode` (`pdu.c`), which puts an SMS together from a service center, a phone number and a
text. -/

namespace ModemSupport.Sendat.PduEncode

open Lib.Memory List
open Septets (Buffer Accepts gsm7bitsEscape encodePDUMessage encode_length)

def npc : Int := 0x3f

/-- `latin1_to_gsm7bits`; a negative entry is one of the extension table. -/
def latin1ToGsm7bits : List Int :=
  [npc, npc, npc, npc, npc, npc, npc, npc,
   npc, npc, 0x0a, npc, -0x0a, 0x0d, npc, npc,
   npc, npc, npc, npc, npc, npc, npc, npc, npc, npc, npc, npc, npc, npc, npc, npc,
   0x20, 0x21, 0x22, 0x23, 0x02, 0x25, 0x26, 0x27, 0x28, 0x29, 0x2a, 0x2b, 0x2c, 0x2d, 0x2e, 0x2f,
   0x30, 0x31, 0x32, 0x33, 0x34, 0x35, 0x36, 0x37, 0x38, 0x39, 0x3a, 0x3b, 0x3c, 0x3d, 0x3e, 0x3f,
   0x00, 0x41, 0x42, 0x43, 0x44, 0x45, 0x46, 0x47, 0x48, 0x49, 0x4a, 0x4b, 0x4c, 0x4d, 0x4e, 0x4f,
   0x50, 0x51, 0x52, 0x53, 0x54, 0x55, 0x56, 0x57,
   0x58, 0x59, 0x5a, -0x3c, -0x2f, -0x3e, -0x14, 0x11,
   npc, 0x61, 0x62, 0x63, 0x64, 0x65, 0x66, 0x67, 0x68, 0x69, 0x6a, 0x6b, 0x6c, 0x6d, 0x6e, 0x6f,
   0x70, 0x71, 0x72, 0x73, 0x74, 0x75, 0x76, 0x77,
   0x78, 0x79, 0x7a, -0x28, -0x40, -0x29, -0x3d, npc,
   npc, npc, npc, npc, npc, npc, npc, npc, npc, npc, npc, npc, npc, npc, npc, npc,
   npc, npc, npc, npc, npc, npc, npc, npc, npc, npc, npc, npc, npc, npc, npc, npc,
   npc, 0x40, npc, 0x01, 0x24, 0x03, npc, 0x5f, npc, npc, npc, npc, npc, npc, npc, npc,
   npc, npc, npc, npc, npc, npc, npc, npc, npc, npc, npc, npc, npc, npc, npc, 0x60,
   npc, npc, npc, npc, 0x5b, 0x0e, 0x1c, 0x09, npc, 0x1f, npc, npc, npc, npc, npc, npc,
   npc, 0x5d, npc, npc, npc, npc, 0x5c, npc, 0x0b, npc, npc, npc, 0x5e, npc, npc, 0x1e,
   0x7f, npc, npc, npc, 0x7b, 0x0f, 0x1d, npc, 0x04, 0x05, npc, npc, 0x07, npc, npc, npc,
   npc, 0x7d, 0x08, npc, npc, npc, 0x7c, npc, 0x0c, 0x06, npc, npc, 0x7e, npc, npc, npc]

/-- `AsciiToG7bit`: the septets that are written one behind the other. -/
def asciiToG7bit : List UInt8 → List UInt8
  | [] => []
  | c :: text =>
    let val := latin1ToGsm7bits.getD c.toNat 0
    if val < 0 then gsm7bitsEscape :: UInt8.ofNat (-val).toNat :: asciiToG7bit text
    else if c &&& 0xE0 = 0xC0 then UInt8.ofNat npc.toNat :: asciiToG7bit (text.drop 1)
    else if c &&& 0xF0 = 0xE0 then UInt8.ofNat npc.toNat :: asciiToG7bit (text.drop 2)
    else UInt8.ofNat val.toNat :: asciiToG7bit text
termination_by text => text.length

def counted (s : List UInt8) : List UInt8 := s.take (int32 s.length).toNat

def refused (c : UInt8) : Bool := c.toNat < 0x30 && c.toNat > 0x39

def encodeDigits : List UInt8 → List UInt8
  | [] => []
  | [a] => [0xF0 ||| (a - 0x30)]
  | a :: b :: s =>
    ((0xF0 ||| (a - 0x30)) &&& 0x0F ||| ((b - 0x30) <<< (4 : UInt8))) :: encodeDigits s

/-- `EncodePhoneNumber`; `none` is -1. -/
def encodePhoneNumber (phoneNumber : List UInt8) (bufferSize : Int) : Option (List UInt8) :=
  if (int32 (int32 phoneNumber.length + 1)).tdiv 2 > bufferSize then none
  else if (counted phoneNumber).any refused then none
  else some (encodeDigits (counted phoneNumber))

/-- What is returned, what is written to `output_buffer` at an offset, one after the other, and the
bytes that are written to `sms_text_7bit`. -/
structure Run where
  ret : Int
  writes : Writes
  smsText7bit : List UInt8

/-- `length` of the service center, and what is written before it; `none` for the test that is never
met. -/
def serviceCenter (number : Option (List UInt8)) (bufferSize : Int) : Option (Nat × Writes) :=
  match number with
  | none => some (0, [])
  | some number =>
    if number.length > 0 then
      let address : Nat × List UInt8 := (1, [0x91])
      match encodePhoneNumber number (bufferSize - 2) with
      | none =>
        let length : Int := -1
        if length < 0 ∧ length ≥ 254 then none else some ((length + 1).toNat, [address])
      | some digits =>
        let length : Int := digits.length
        if length < 0 ∧ length ≥ 254 then none
        else some ((length + 1).toNat, [address, (2, digits)])
    else some (0, [])

/-- The phone number at an offset, and the offset behind it: -1 for a number without room is added
like a length. -/
def destination (phoneNumber : List UInt8) (start : Nat) (bufferSize : Int) : Nat × Writes :=
  let head : Nat × List UInt8 := (start, [UInt8.ofNat phoneNumber.length,
    if phoneNumber.length < 6 then 0x81 else 0x91])
  match encodePhoneNumber phoneNumber (bufferSize - start - 2) with
  | none => (start + 1, [head])
  | some digits => (start + 2 + digits.length, [head, (start + 2, digits)])

def pduEncode (serviceCenterNumber : Option (List UInt8)) (phoneNumber smsText : List UInt8)
    (stack : Buffer) (bufferSize : Int) : Run :=
  if bufferSize < 2 then ⟨-1, [], []⟩
  else
    match serviceCenter serviceCenterNumber bufferSize with
    | none => ⟨-1, [], []⟩
    | some (length, center) =>
      let center := center ++ [(0, [UInt8.ofNat length])]
      if length + 1 + 4 > bufferSize then ⟨-1, center, []⟩
      else
        let number := destination phoneNumber (length + 3) bufferSize
        let address := center ++ [(length + 1, [0x11, 0x00])] ++ number.2
        if number.1 + 4 > bufferSize then ⟨-1, address, []⟩
        else
          let header := address ++ [(number.1, [0x00, 0x00, 0xB0])]
          let septets := asciiToG7bit (counted smsText)
          if septets.length > 160 then ⟨-1, header, septets⟩
          else
            let start := number.1 + 4
            let whole := header ++ [(number.1 + 3, [UInt8.ofNat septets.length])]
            match encodePDUMessage (fun i => septets.getD i (stack i)) septets.length
              (bufferSize - start) with
            | none => ⟨-1, whole, septets⟩
            | some text =>
              ⟨start + text.bytes.length, whole ++ [(start, text.bytes)], septets⟩

def Digits (s : List UInt8) : Prop := ∀ c ∈ s, 0x30 ≤ c.toNat ∧ c.toNat ≤ 0x39

instance (s : List UInt8) : Decidable (Digits s) :=
  inferInstanceAs (Decidable (∀ c ∈ s, 0x30 ≤ c.toNat ∧ c.toNat ≤ 0x39))

/-- The length of the service center in the message: the octets of its type and of its digits. -/
def centerOctets (number : List UInt8) : Nat :=
  if number = [] then 0 else (number.length + 1) / 2 + 1

def userDataOffset (number phoneNumber : List UInt8) : Nat :=
  centerOctets number + 8 + (phoneNumber.length + 1) / 2

def content (writes : Writes) : Mem := written (fun _ => 0) writes

/-- The numbers have digits only, the lengths are at their places, and what is returned is the end
of the last byte. -/
structure WellFormed (number phoneNumber smsText : List UInt8) (r : Run) : Prop where
  center : Digits number
  phone : Digits phoneNumber
  centerLength : (content r.writes 0).toNat = centerOctets number
  phoneLength : (content r.writes (centerOctets number + 3)).toNat = phoneNumber.length
  userData : (userDataOffset number phoneNumber : Int) < r.ret
  userDataLength : (content r.writes (userDataOffset number phoneNumber)).toNat =
    (asciiToG7bit smsText).length
  septets : (asciiToG7bit smsText).length ≤ 160
  written_le : ∀ w ∈ r.writes, (w.1 + w.2.length : Int) ≤ r.ret
  written_end : ∃ w ∈ r.writes, w.2 ≠ [] ∧ (w.1 + w.2.length : Int) = r.ret

/-- All writes are inside of the two buffers, and the call is refused or the message is well formed;
a number that does not consist of digits is refused. -/
structure Correct (serviceCenterNumber : Option (List UInt8)) (phoneNumber smsText : List UInt8)
    (bufferSize : Int) (r : Run) : Prop where
  inside : ∀ w ∈ r.writes, (w.1 + w.2.length : Int) ≤ bufferSize
  smsText7bit : r.smsText7bit.length ≤ 320
  result : r.ret = -1 ∨ WellFormed (serviceCenterNumber.getD []) phoneNumber smsText r
  digits : ¬(Digits (serviceCenterNumber.getD []) ∧ Digits phoneNumber) → r.ret = -1

def octets (s : List UInt8) : Nat := ((int32 s.length).toNat + 1) / 2

def Fits (s : List UInt8) (size : Int) : Prop := ¬(int32 (int32 s.length + 1)).tdiv 2 > size

instance (s : List UInt8) (size : Int) : Decidable (Fits s size) :=
  inferInstanceAs (Decidable ¬(int32 (int32 s.length + 1)).tdiv 2 > size)

/-- The bytes that a service center takes; one without room is left out. -/
def centerSize (number : List UInt8) (bufferSize : Int) : Nat :=
  if number = [] then 0 else if Fits number (bufferSize - 2) then octets number + 1 else 0

def phoneRoom (number : List UInt8) (bufferSize : Int) : Int :=
  bufferSize - centerSize number bufferSize - 5

/-- The offset of the text; a phone number without room takes one byte less than none. -/
def textOffset (number phoneNumber : List UInt8) (bufferSize : Int) : Nat :=
  centerSize number bufferSize + 3 +
    (if Fits phoneNumber (phoneRoom number bufferSize) then 2 + octets phoneNumber else 1) + 4

/-- What a message is well formed for: digits, lengths of at most a byte that fit, and room for one
byte more than a text of whole groups of eight septets needs. -/
structure Suits (number phoneNumber smsText : List UInt8) (bufferSize : Int) : Prop where
  center : Digits number
  phone : Digits phoneNumber
  centerOctets_le : centerOctets number ≤ 255
  center_fits : number ≠ [] → ((number.length + 1) / 2 : Nat) ≤ bufferSize - 2
  phone_le : phoneNumber.length ≤ 255
  phone_fits : (centerOctets number + 5 + (phoneNumber.length + 1) / 2 : Nat) ≤ bufferSize
  text : smsText.length < 2 ^ 31
  room : (textOffset number phoneNumber bufferSize +
    (7 * (asciiToG7bit smsText).length / 8 + 1) : Nat) ≤ bufferSize

/-- A call that gets as far as a check passes it for a good reason: a number that is found to fit
does, the septets are no more than 320, and a message that is not refused suits. -/
structure Sound (number phoneNumber smsText : List UInt8) (bufferSize : Int) : Prop where
  center : 2 ≤ bufferSize → number ≠ [] → Fits number (bufferSize - 2) →
    (octets number : Int) ≤ bufferSize - 2
  phone : 2 ≤ bufferSize → 0 ≤ phoneRoom number bufferSize →
    Fits phoneNumber (phoneRoom number bufferSize) →
    (octets phoneNumber : Int) ≤ phoneRoom number bufferSize
  septets : 2 ≤ bufferSize → 0 ≤ phoneRoom number bufferSize →
    textOffset number phoneNumber bufferSize ≤ bufferSize →
    (asciiToG7bit (counted smsText)).length ≤ 320
  suits : 2 ≤ bufferSize → 0 ≤ phoneRoom number bufferSize →
    textOffset number phoneNumber bufferSize ≤ bufferSize →
    (asciiToG7bit (counted smsText)).length ≤ 160 →
    (textOffset number phoneNumber bufferSize +
      (7 * (asciiToG7bit (counted smsText)).length + 7) / 8 : Nat) ≤ bufferSize →
    Suits number phoneNumber smsText bufferSize

variable {number phoneNumber smsText s : List UInt8} {serviceCenterNumber : Option (List UInt8)}
  {stack : Buffer} {bufferSize size : Int} {m : Mem} {writes : Writes}
  {n start : Nat}

theorem length_counted : (counted s).length = (int32 s.length).toNat := by
  have hle := int32_le (x := s.length) (by omega)
  rw [counted, length_take]
  omega

theorem counted_of_lt (h : s.length < 2 ^ 31) : counted s = s := by
  rw [counted, int32_of_lt h, Int.toNat_natCast, List.take_length]

theorem length_encodeDigits (s : List UInt8) : (encodeDigits s).length = (s.length + 1) / 2 := by
  induction s using encodeDigits.induct with
  | case1 => rw [encodeDigits]; rfl
  | case2 a => rw [encodeDigits, length_singleton, length_singleton]
  | case3 a b s ih =>
    rw [encodeDigits, length_cons, ih, length_cons, length_cons]
    omega

theorem encodePhoneNumber_eq : encodePhoneNumber s size =
    if Fits s size then some (encodeDigits (counted s)) else none := by
  have hrefused : (counted s).any refused = false := by
    rw [List.any_eq_false]
    intro c _
    simp only [refused, Bool.and_eq_true, decide_eq_true_eq]
    omega
  rw [encodePhoneNumber, hrefused, ← ite_not]
  rfl

theorem length_digits : (encodeDigits (counted s)).length = octets s := by
  rw [length_encodeDigits, length_counted, octets]

theorem length_le_asciiToG7bit (s : List UInt8) : s.length ≤ 3 * (asciiToG7bit s).length := by
  induction s using asciiToG7bit.induct with
  | case1 => exact Nat.zero_le _
  | case2 c s val hval ih =>
    rw [asciiToG7bit, if_pos hval]
    simp only [length_cons]
    omega
  | case3 c s val hval hc ih =>
    rw [asciiToG7bit, if_neg hval, if_pos hc]
    simp only [length_cons, length_drop] at ih ⊢
    omega
  | case4 c s val hval hc hc' ih =>
    rw [asciiToG7bit, if_neg hval, if_neg hc, if_pos hc']
    simp only [length_cons, length_drop] at ih ⊢
    omega
  | case5 c s val hval hc hc' ih =>
    rw [asciiToG7bit, if_neg hval, if_neg hc, if_neg hc']
    simp only [length_cons]
    omega

def centerWrites (number : List UInt8) (bufferSize : Int) : Writes :=
  (if number = [] then []
    else (1, [0x91]) ::
      if Fits number (bufferSize - 2) then [(2, encodeDigits (counted number))] else []) ++
    [(0, [UInt8.ofNat (centerSize number bufferSize)])]

def phoneWrites (phoneNumber : List UInt8) (start : Nat) (room : Int) : Writes :=
  (start, [UInt8.ofNat phoneNumber.length, if phoneNumber.length < 6 then 0x81 else 0x91]) ::
    if Fits phoneNumber room then [(start + 2, encodeDigits (counted phoneNumber))] else []

theorem serviceCenter_eq (serviceCenterNumber : Option (List UInt8)) (bufferSize : Int) :
    ∃ center, serviceCenter serviceCenterNumber bufferSize =
    some (centerSize (serviceCenterNumber.getD []) bufferSize, center) ∧
      center ++ [(0, [UInt8.ofNat (centerSize (serviceCenterNumber.getD []) bufferSize)])] =
        centerWrites (serviceCenterNumber.getD []) bufferSize := by
  cases serviceCenterNumber with
  | none => exact ⟨[], by simp [serviceCenter, centerSize], by simp [centerWrites]⟩
  | some number =>
    simp only [Option.getD_some]
    by_cases hnil : number = []
    · subst hnil
      exact ⟨[], by simp [serviceCenter, centerSize], by simp [centerWrites]⟩
    · have hpos : number.length > 0 := length_pos_iff.mpr hnil
      rw [serviceCenter]
      dsimp only
      rw [if_pos hpos, encodePhoneNumber_eq, centerWrites, if_neg hnil, centerSize, if_neg hnil]
      by_cases hfits : Fits number (bufferSize - 2)
      · refine ⟨[(1, [0x91]), (2, encodeDigits (counted number))], ?_, ?_⟩
        · simp only [if_pos hfits, length_digits]
          rw [if_neg (by omega), Int.toNat_natCast_add_one]
        · rw [if_pos hfits, if_pos hfits]
      · refine ⟨[(1, [0x91])], ?_, ?_⟩
        · simp only [if_neg hfits]
          rw [if_neg (by omega), Int.add_left_neg, Int.toNat_zero]
        · rw [if_neg hfits, if_neg hfits]

theorem destination_eq : destination phoneNumber (centerSize number bufferSize + 3) bufferSize =
    (textOffset number phoneNumber bufferSize - 4,
      phoneWrites phoneNumber (centerSize number bufferSize + 3)
        (phoneRoom number bufferSize)) := by
  have hroom : bufferSize - ((centerSize number bufferSize + 3 : Nat) : Int) - 2 =
      phoneRoom number bufferSize := by
    rw [phoneRoom]
    omega
  rw [destination, hroom, encodePhoneNumber_eq, textOffset, phoneWrites]
  by_cases hfits : Fits phoneNumber (phoneRoom number bufferSize)
  · simp only [if_pos hfits, length_digits]
    rw [Nat.add_sub_cancel, Nat.add_assoc]
  · simp only [if_neg hfits]
    rw [Nat.add_sub_cancel]

/-- What is written up to the phone number. -/
def addressWrites (number phoneNumber : List UInt8) (bufferSize : Int) : Writes :=
  centerWrites number bufferSize ++ [(centerSize number bufferSize + 1, [0x11, 0x00])] ++
    phoneWrites phoneNumber (centerSize number bufferSize + 3) (phoneRoom number bufferSize)

def headerWrites (number phoneNumber : List UInt8) (bufferSize : Int) : Writes :=
  addressWrites number phoneNumber bufferSize ++
    [(textOffset number phoneNumber bufferSize - 4, [0x00, 0x00, 0xB0])]

def lengthWrites (number phoneNumber smsText : List UInt8) (bufferSize : Int) : Writes :=
  headerWrites number phoneNumber bufferSize ++
    [(textOffset number phoneNumber bufferSize - 1,
      [UInt8.ofNat (asciiToG7bit (counted smsText)).length])]

theorem pduEncode_of_small (h : bufferSize < 2) :
    pduEncode serviceCenterNumber phoneNumber smsText stack bufferSize = ⟨-1, [], []⟩ := by
  rw [pduEncode, if_pos h]

theorem pduEncode_of_noRoom (h : 2 ≤ bufferSize)
    (hroom : phoneRoom (serviceCenterNumber.getD []) bufferSize < 0) :
    pduEncode serviceCenterNumber phoneNumber smsText stack bufferSize =
      ⟨-1, centerWrites (serviceCenterNumber.getD []) bufferSize, []⟩ := by
  obtain ⟨center, hcenter, hwrites⟩ :=
    serviceCenter_eq serviceCenterNumber bufferSize
  rw [phoneRoom] at hroom
  rw [pduEncode, if_neg (by omega), hcenter]
  dsimp only
  rw [hwrites, if_pos (by omega)]

theorem pduEncode_of_noOffset (h : 2 ≤ bufferSize)
    (hroom : 0 ≤ phoneRoom (serviceCenterNumber.getD []) bufferSize)
    (hoffset : bufferSize < textOffset (serviceCenterNumber.getD []) phoneNumber bufferSize) :
    pduEncode serviceCenterNumber phoneNumber smsText stack bufferSize =
      ⟨-1, addressWrites (serviceCenterNumber.getD []) phoneNumber bufferSize, []⟩ := by
  obtain ⟨center, hcenter, hwrites⟩ :=
    serviceCenter_eq serviceCenterNumber bufferSize
  have hfour : 4 ≤ textOffset (serviceCenterNumber.getD []) phoneNumber bufferSize := by
    rw [textOffset]
    omega
  rw [phoneRoom] at hroom
  rw [pduEncode, if_neg (by omega), hcenter]
  dsimp only
  rw [hwrites, if_neg (by omega), destination_eq]
  dsimp only
  rw [if_pos (by omega)]
  rfl

theorem pduEncode_of_offset (h : 2 ≤ bufferSize)
    (hroom : 0 ≤ phoneRoom (serviceCenterNumber.getD []) bufferSize)
    (hoffset : textOffset (serviceCenterNumber.getD []) phoneNumber bufferSize ≤ bufferSize) :
    pduEncode serviceCenterNumber phoneNumber smsText stack bufferSize =
      let number := serviceCenterNumber.getD []
      let septets := asciiToG7bit (counted smsText)
      let start := textOffset number phoneNumber bufferSize
      if septets.length > 160 then ⟨-1, headerWrites number phoneNumber bufferSize, septets⟩
      else
        let whole := lengthWrites number phoneNumber smsText bufferSize
        match encodePDUMessage (fun i => septets.getD i (stack i)) septets.length
          (bufferSize - start) with
        | none => ⟨-1, whole, septets⟩
        | some text => ⟨start + text.bytes.length, whole ++ [(start, text.bytes)], septets⟩ := by
  obtain ⟨center, hcenter, hwrites⟩ :=
    serviceCenter_eq serviceCenterNumber bufferSize
  have hfour : 4 ≤ textOffset (serviceCenterNumber.getD []) phoneNumber bufferSize := by
    rw [textOffset]
    omega
  have hback : textOffset (serviceCenterNumber.getD []) phoneNumber bufferSize - 4 + 4 =
      textOffset (serviceCenterNumber.getD []) phoneNumber bufferSize := by omega
  have hlength : textOffset (serviceCenterNumber.getD []) phoneNumber bufferSize - 4 + 3 =
      textOffset (serviceCenterNumber.getD []) phoneNumber bufferSize - 1 := by omega
  rw [phoneRoom] at hroom
  rw [pduEncode, if_neg (by omega), hcenter]
  dsimp only
  rw [hwrites, if_neg (by omega), destination_eq]
  dsimp only
  rw [if_neg (by omega), hlength, hback]
  rfl

theorem accepts_iff (h : n ≤ 160) : Accepts n size ↔ ((7 * n + 7) / 8 : Nat) ≤ size := by
  have hint : int32 (n * 7 + 7) = n * 7 + 7 := int32_of_lt (n := n * 7 + 7) (by omega)
  rw [Accepts, hint, Int.tdiv_eq_ediv_of_nonneg (by omega)]
  omega

theorem fits_iff (h : s.length < 2 ^ 30) : Fits s size ↔ ((s.length + 1) / 2 : Nat) ≤ size := by
  have hint : int32 (s.length + 1) = s.length + 1 := int32_of_lt (n := s.length + 1) (by omega)
  rw [Fits, int32_of_lt (by omega), hint, Int.tdiv_eq_ediv_of_nonneg (by omega)]
  omega

theorem octets_eq (h : s.length < 2 ^ 30) : octets s = (s.length + 1) / 2 := by
  rw [octets, int32_of_lt (by omega), Int.toNat_natCast]

theorem inside_center (h : 2 ≤ bufferSize) : Inside (centerWrites number bufferSize) bufferSize ↔
    (number ≠ [] → Fits number (bufferSize - 2) → (octets number : Int) ≤ bufferSize - 2) := by
  have hlast : Inside [(0, [UInt8.ofNat (centerSize number bufferSize)])] bufferSize :=
    inside_cons.mpr ⟨by simp; omega, inside_nil⟩
  rw [centerWrites, inside_append, and_iff_left hlast]
  by_cases hnil : number = []
  · rw [if_pos hnil]
    exact ⟨fun _ hnil' => absurd hnil hnil', fun _ => inside_nil⟩
  · rw [if_neg hnil, inside_cons, and_iff_right (by simp; omega)]
    by_cases hfits : Fits number (bufferSize - 2)
    · rw [if_pos hfits, inside_cons, and_iff_left inside_nil, length_digits]
      constructor
      · intro hle _ _
        omega
      · intro hle
        have hroom := hle hnil hfits
        omega
    · rw [if_neg hfits]
      exact ⟨fun _ _ hfits' => absurd hfits' hfits, fun _ => inside_nil⟩

theorem inside_address (hroom : 0 ≤ phoneRoom number bufferSize) :
    Inside (addressWrites number phoneNumber bufferSize) bufferSize ↔
      Inside (centerWrites number bufferSize) bufferSize ∧
        (Fits phoneNumber (phoneRoom number bufferSize) →
          (octets phoneNumber : Int) ≤ phoneRoom number bufferSize) := by
  have htype : Inside [(centerSize number bufferSize + 1, [0x11, 0x00])] bufferSize := by
    refine inside_cons.mpr ⟨?_, inside_nil⟩
    rw [phoneRoom] at hroom
    simp
    omega
  have hhead : 5 + (centerSize number bufferSize : Int) ≤ bufferSize := by
    rw [phoneRoom] at hroom
    omega
  rw [addressWrites, inside_append, inside_append, and_iff_left htype]
  apply and_congr_right
  intro _
  rw [phoneWrites, inside_cons, and_iff_right (by simp; omega)]
  by_cases hfits : Fits phoneNumber (phoneRoom number bufferSize)
  · rw [if_pos hfits, inside_cons, and_iff_left inside_nil, length_digits]
    rw [phoneRoom]
    constructor
    · intro hle _
      omega
    · intro hle
      have hroom := hle (by rwa [phoneRoom] at hfits)
      omega
  · rw [if_neg hfits]
    exact ⟨fun _ hfits' => absurd hfits' hfits, fun _ => inside_nil⟩

theorem inside_length (hoffset : textOffset number phoneNumber bufferSize ≤ bufferSize) :
    Inside (lengthWrites number phoneNumber smsText bufferSize) bufferSize ↔
      Inside (headerWrites number phoneNumber bufferSize) bufferSize := by
  have hfour : 4 ≤ textOffset number phoneNumber bufferSize := by
    rw [textOffset]
    omega
  rw [lengthWrites, inside_append, and_iff_left]
  refine inside_cons.mpr ⟨?_, inside_nil⟩
  simp only [length_singleton]
  omega

theorem inside_header (hoffset : textOffset number phoneNumber bufferSize ≤ bufferSize) :
    Inside (headerWrites number phoneNumber bufferSize) bufferSize ↔
      Inside (addressWrites number phoneNumber bufferSize) bufferSize := by
  have hfour : 4 ≤ textOffset number phoneNumber bufferSize := by
    rw [textOffset]
    omega
  rw [headerWrites, inside_append, and_iff_left]
  refine inside_cons.mpr ⟨?_, inside_nil⟩
  simp only [length_cons, length_nil]
  omega

theorem content_first {i : Nat} {b : UInt8} {bs : List UInt8}
    {before behind : Writes} (h : ∀ w ∈ behind, i < w.1) :
    content (before ++ (i, b :: bs) :: behind) i = b := by
  rw [content, written_append]
  refine (written_of_lt h).trans ?_
  simp [put]

theorem phoneWrites_eq (phoneNumber : List UInt8) (start : Nat) (room : Int) :
    ∃ typ rest, phoneWrites phoneNumber start room =
      (start, [UInt8.ofNat phoneNumber.length, typ]) :: rest ∧ ∀ w ∈ rest, start < w.1 := by
  refine ⟨_, _, rfl, fun w hw => ?_⟩
  by_cases hfits : Fits phoneNumber room
  · rw [if_pos hfits] at hw
    obtain rfl := mem_singleton.mp hw
    exact Nat.lt_add_of_pos_right (by decide)
  · rw [if_neg hfits] at hw
    exact absurd hw not_mem_nil

theorem le_textOffset (number phoneNumber : List UInt8) (bufferSize : Int) :
    centerSize number bufferSize + 8 ≤ textOffset number phoneNumber bufferSize := by
  rw [textOffset]
  split <;> omega

def message (number phoneNumber smsText : List UInt8) (bufferSize : Int) (text : List UInt8) :
    Writes :=
  lengthWrites number phoneNumber smsText bufferSize ++
    [(textOffset number phoneNumber bufferSize, text)]

theorem message_center : content (message number phoneNumber smsText bufferSize s) 0 =
    UInt8.ofNat (centerSize number bufferSize) := by
  obtain ⟨typ, rest, hphone, hrest⟩ := phoneWrites_eq phoneNumber
    (centerSize number bufferSize + 3) (phoneRoom number bufferSize)
  have hle := le_textOffset number phoneNumber bufferSize
  rw [message, lengthWrites, headerWrites, addressWrites, centerWrites, hphone]
  simp only [append_assoc, cons_append, nil_append]
  refine content_first ?_
  simp only [forall_mem_cons, forall_mem_append]
  refine ⟨by omega, by omega, fun w hw => Nat.zero_lt_of_lt (hrest w hw), by omega, by omega,
    by omega, nofun⟩

theorem message_phone : content (message number phoneNumber smsText bufferSize s)
    (centerSize number bufferSize + 3) = UInt8.ofNat phoneNumber.length := by
  obtain ⟨typ, rest, hphone, hrest⟩ := phoneWrites_eq phoneNumber
    (centerSize number bufferSize + 3) (phoneRoom number bufferSize)
  have hle := le_textOffset number phoneNumber bufferSize
  rw [message, lengthWrites, headerWrites, addressWrites, hphone]
  simp only [append_assoc, cons_append, nil_append]
  rw [← singleton_append, ← append_assoc]
  refine content_first ?_
  simp only [forall_mem_cons, forall_mem_append]
  refine ⟨hrest, by omega, by omega, by omega, nofun⟩

theorem message_text : content (message number phoneNumber smsText bufferSize s)
    (textOffset number phoneNumber bufferSize - 1) =
      UInt8.ofNat (asciiToG7bit (counted smsText)).length := by
  have hle := le_textOffset number phoneNumber bufferSize
  rw [message, lengthWrites, append_assoc, singleton_append]
  refine content_first ?_
  simp only [forall_mem_cons]
  refine ⟨by omega, nofun⟩

theorem inside_textOffset : Inside (lengthWrites number phoneNumber smsText bufferSize)
    (textOffset number phoneNumber bufferSize) := by
  have hle := le_textOffset number phoneNumber bufferSize
  have hcenter : Inside (centerWrites number bufferSize)
      (textOffset number phoneNumber bufferSize) := by
    have hlast : Inside [(0, [UInt8.ofNat (centerSize number bufferSize)])]
        (textOffset number phoneNumber bufferSize) :=
      inside_cons.mpr ⟨by simp only [length_singleton]; omega, inside_nil⟩
    rw [centerWrites, inside_append, and_iff_left hlast]
    by_cases hnil : number = []
    · rw [if_pos hnil]
      exact inside_nil
    · rw [if_neg hnil, inside_cons]
      refine ⟨by simp only [length_singleton]; omega, ?_⟩
      by_cases hfits : Fits number (bufferSize - 2)
      · rw [centerSize, if_neg hnil, if_pos hfits] at hle
        rw [if_pos hfits]
        exact inside_cons.mpr ⟨by rw [length_digits]; omega, inside_nil⟩
      · rw [if_neg hfits]
        exact inside_nil
  have hphone : Inside (phoneWrites phoneNumber (centerSize number bufferSize + 3)
      (phoneRoom number bufferSize)) (textOffset number phoneNumber bufferSize) := by
    refine inside_cons.mpr ⟨by simp only [length_cons, length_nil]; omega, ?_⟩
    by_cases hfits : Fits phoneNumber (phoneRoom number bufferSize)
    · rw [if_pos hfits, textOffset, if_pos hfits]
      exact inside_cons.mpr ⟨by rw [length_digits]; omega, inside_nil⟩
    · rw [if_neg hfits]
      exact inside_nil
  rw [lengthWrites, headerWrites, addressWrites]
  simp only [inside_append, inside_cons]
  refine ⟨⟨⟨⟨hcenter, ?_, inside_nil⟩, hphone⟩, ?_, inside_nil⟩, ?_, inside_nil⟩ <;>
    simp only [length_cons, length_nil] <;> omega

theorem centerSize_eq (hlength : number.length < 2 ^ 30)
    (hfits : number ≠ [] → ((number.length + 1) / 2 : Nat) ≤ bufferSize - 2) :
    centerSize number bufferSize = centerOctets number := by
  rw [centerSize, centerOctets]
  by_cases hnil : number = []
  · rw [if_pos hnil, if_pos hnil]
  · rw [if_neg hnil, if_neg hnil, if_pos ((fits_iff hlength).mpr (hfits hnil)), octets_eq hlength]

theorem textOffset_eq (hcenter : centerSize number bufferSize = centerOctets number)
    (hlength : phoneNumber.length < 2 ^ 30)
    (hfits : (centerOctets number + 5 + (phoneNumber.length + 1) / 2 : Nat) ≤ bufferSize) :
    textOffset number phoneNumber bufferSize = userDataOffset number phoneNumber + 1 := by
  have hroom : ((phoneNumber.length + 1) / 2 : Nat) ≤ phoneRoom number bufferSize := by
    rw [phoneRoom, hcenter]
    omega
  rw [textOffset, if_pos ((fits_iff hlength).mpr hroom), octets_eq hlength, hcenter,
    userDataOffset]
  omega

theorem wellFormed_of_suits (h : Suits number phoneNumber smsText bufferSize)
    (hseptets : (asciiToG7bit smsText).length ≤ 160) {text : List UInt8} (htext : text ≠ [])
    {r : Run} (hwrites : r.writes = message number phoneNumber smsText bufferSize text)
    (hret : r.ret = (textOffset number phoneNumber bufferSize + text.length : Nat)) :
    WellFormed number phoneNumber smsText r := by
  have hnumber : number.length < 2 ^ 30 := by
    have hle := h.centerOctets_le
    rw [centerOctets] at hle
    split at hle
    next hnil =>
      rw [hnil]
      decide
    next => omega
  have hphone : phoneNumber.length < 2 ^ 30 := Nat.lt_of_le_of_lt h.phone_le (by decide)
  have hcenter := centerSize_eq hnumber h.center_fits
  have hoffset := textOffset_eq hcenter hphone h.phone_fits
  have hpos := length_pos_iff.mpr htext
  exact {
    center := h.center
    phone := h.phone
    centerLength := by
      rw [hwrites, message_center, hcenter, UInt8.toNat_ofNat']
      exact Nat.mod_eq_of_lt (Nat.lt_succ_of_le h.centerOctets_le)
    phoneLength := by
      rw [hwrites, ← hcenter, message_phone, UInt8.toNat_ofNat']
      exact Nat.mod_eq_of_lt (Nat.lt_succ_of_le h.phone_le)
    userData := by omega
    userDataLength := by
      have hlast : userDataOffset number phoneNumber =
          textOffset number phoneNumber bufferSize - 1 := by omega
      rw [hwrites, hlast, message_text, counted_of_lt h.text, UInt8.toNat_ofNat']
      exact Nat.mod_eq_of_lt (Nat.lt_of_le_of_lt hseptets (by decide))
    septets := hseptets
    written_le := by
      rw [hwrites, hret]
      refine inside_append.mpr ⟨fun w hw => ?_, inside_cons.mpr ⟨by dsimp only; omega, inside_nil⟩⟩
      have hle := inside_textOffset w hw
      omega
    written_end := by
      refine ⟨(textOffset number phoneNumber bufferSize, text), ?_, htext,
        by rw [hret]; rfl⟩
      rw [hwrites]
      exact mem_append_right _ (mem_singleton_self _) }

theorem suits_of_wellFormed {text : List UInt8} {r : Run}
    (htext : text.length = 7 * (asciiToG7bit (counted smsText)).length / 8 + 1)
    (hsize : (textOffset number phoneNumber bufferSize + text.length : Nat) ≤ bufferSize)
    (hwrites : r.writes = message number phoneNumber smsText bufferSize text)
    (hret : r.ret = (textOffset number phoneNumber bufferSize + text.length : Nat))
    (h : WellFormed number phoneNumber smsText r) :
    Suits number phoneNumber smsText bufferSize := by
  have hcenterByte := h.centerLength
  rw [hwrites, message_center, UInt8.toNat_ofNat'] at hcenterByte
  have hcenter_le : centerOctets number ≤ 255 := by omega
  have hnumber : number.length < 2 ^ 30 := by
    rw [centerOctets] at hcenter_le
    split at hcenter_le
    next hnil =>
      rw [hnil]
      decide
    next => omega
  -- a service center that is left out has no length
  have hcenter_fits : number ≠ [] → ((number.length + 1) / 2 : Nat) ≤ bufferSize - 2 := by
    intro hnil
    by_contra hfits
    rw [← fits_iff hnumber] at hfits
    rw [centerSize, if_neg hnil, if_neg hfits, centerOctets, if_neg hnil] at hcenterByte
    omega
  have hcenter := centerSize_eq hnumber hcenter_fits
  have hphoneByte := h.phoneLength
  rw [hwrites, ← hcenter, message_phone, UInt8.toNat_ofNat'] at hphoneByte
  have hphone_le : phoneNumber.length ≤ 255 := by omega
  have hphone : phoneNumber.length < 2 ^ 30 := by omega
  -- without the phone number the buffer ends before the length of the text
  have hphone_fits : ((phoneNumber.length + 1) / 2 : Nat) ≤ phoneRoom number bufferSize := by
    by_contra hroom
    have hfits := mt (fits_iff hphone).mp hroom
    have huser := h.userData
    rw [hret, textOffset, if_neg hfits, userDataOffset] at huser
    rw [textOffset, if_neg hfits] at hsize
    rw [phoneRoom] at hroom
    omega
  rw [phoneRoom, hcenter] at hphone_fits
  have hseptets := length_le_asciiToG7bit smsText
  have hshort := h.septets
  have hcounted : counted smsText = smsText := counted_of_lt (by omega)
  rw [htext, hcounted] at hsize
  exact ⟨h.center, h.phone, hcenter_le, hcenter_fits, hphone_le, by omega, by omega, hsize⟩

theorem sound_iff (htwo : 2 ≤ bufferSize) (hroom : 0 ≤ phoneRoom number bufferSize)
    (hoffset : textOffset number phoneNumber bufferSize ≤ bufferSize) :
    Sound number phoneNumber smsText bufferSize ↔
      Inside (headerWrites number phoneNumber bufferSize) bufferSize ∧
        (asciiToG7bit (counted smsText)).length ≤ 320 ∧
        ((asciiToG7bit (counted smsText)).length ≤ 160 →
          (textOffset number phoneNumber bufferSize +
            (7 * (asciiToG7bit (counted smsText)).length + 7) / 8 : Nat) ≤ bufferSize →
          Suits number phoneNumber smsText bufferSize) := by
  rw [inside_header hoffset, inside_address hroom, inside_center htwo]
  constructor
  · intro h
    exact ⟨⟨h.center htwo, h.phone htwo hroom⟩, h.septets htwo hroom hoffset,
      h.suits htwo hroom hoffset⟩
  · rintro ⟨⟨hcenter, hphone⟩, hseptets, hsuits⟩
    exact ⟨fun _ => hcenter, fun _ _ => hphone, fun _ _ _ => hseptets, fun _ _ _ => hsuits⟩

theorem correct_refused {septets : List UInt8} :
    Correct serviceCenterNumber phoneNumber smsText bufferSize ⟨-1, writes, septets⟩ ↔
      Inside writes bufferSize ∧ septets.length ≤ 320 :=
  ⟨fun h => ⟨h.inside, h.smsText7bit⟩, fun h => ⟨h.1, h.2, .inl rfl, fun _ => rfl⟩⟩

theorem correct_message {text septets : List UInt8}
    (hseptets : septets = asciiToG7bit (counted smsText)) (hshort : septets.length ≤ 160)
    (htext : text.length = 7 * septets.length / 8 + 1)
    (hoffset : textOffset (serviceCenterNumber.getD []) phoneNumber bufferSize ≤ bufferSize) :
    Correct serviceCenterNumber phoneNumber smsText bufferSize
        ⟨textOffset (serviceCenterNumber.getD []) phoneNumber bufferSize + text.length,
          message (serviceCenterNumber.getD []) phoneNumber smsText bufferSize text, septets⟩ ↔
      Inside (headerWrites (serviceCenterNumber.getD []) phoneNumber bufferSize) bufferSize ∧
        Suits (serviceCenterNumber.getD []) phoneNumber smsText bufferSize := by
  subst hseptets
  constructor
  · intro h
    obtain ⟨hbefore, hlast⟩ := inside_append.mp h.inside
    have hsize := hlast _ (mem_singleton_self _)
    dsimp only at hsize
    refine ⟨(inside_length hoffset).mp hbefore, ?_⟩
    rcases h.result with hret | hwell
    · dsimp only at hret
      omega
    · exact suits_of_wellFormed htext (by omega) rfl (by dsimp only; omega) hwell
  · rintro ⟨hbefore, hsuits⟩
    have hcounted : counted smsText = smsText := counted_of_lt hsuits.text
    have hsize := hsuits.room
    rw [hcounted] at hshort htext ⊢
    refine ⟨inside_append.mpr ⟨(inside_length hoffset).mpr hbefore,
      inside_cons.mpr ⟨by dsimp only; omega, inside_nil⟩⟩, by dsimp only; omega, .inr ?_, ?_⟩
    · exact wellFormed_of_suits hsuits hshort (ne_nil_of_length_pos (by omega)) rfl
        (by dsimp only; omega)
    · intro hnot
      exact absurd ⟨hsuits.center, hsuits.phone⟩ hnot

/-- A call is correct just when it is sound: its numbers consist of digits and fit, and there is
room for the byte that the packing of the text may take too much. -/
theorem pduEncode_correct_iff (serviceCenterNumber : Option (List UInt8))
    (phoneNumber smsText : List UInt8) (stack : Buffer) (bufferSize : Int) :
    Correct serviceCenterNumber phoneNumber smsText bufferSize
        (pduEncode serviceCenterNumber phoneNumber smsText stack bufferSize) ↔
      Sound (serviceCenterNumber.getD []) phoneNumber smsText bufferSize := by
  by_cases hsmall : bufferSize < 2
  · rw [pduEncode_of_small hsmall]
    refine ⟨fun _ => ⟨?_, ?_, ?_, ?_⟩, fun _ => ⟨nofun, Nat.zero_le _, .inl rfl, fun _ => rfl⟩⟩ <;>
      (intro h; omega)
  have htwo : 2 ≤ bufferSize := by omega
  by_cases hroom : phoneRoom (serviceCenterNumber.getD []) bufferSize < 0
  · rw [pduEncode_of_noRoom htwo hroom]
    constructor
    · intro h
      refine ⟨fun _ => (inside_center htwo).mp h.inside, ?_, ?_, ?_⟩ <;> (intro _ hnot; omega)
    · intro h
      exact ⟨(inside_center htwo).mpr (h.center htwo), Nat.zero_le _, .inl rfl, fun _ => rfl⟩
  have hroom : 0 ≤ phoneRoom (serviceCenterNumber.getD []) bufferSize := by omega
  by_cases hoffset : bufferSize < textOffset (serviceCenterNumber.getD []) phoneNumber bufferSize
  · rw [pduEncode_of_noOffset htwo hroom hoffset]
    constructor
    · intro h
      obtain ⟨hcenter, hphone⟩ := (inside_address hroom).mp h.inside
      refine ⟨fun _ => (inside_center htwo).mp hcenter, fun _ _ => hphone, ?_, ?_⟩ <;>
        (intro _ _ hnot; omega)
    · intro h
      have hinside := (inside_address hroom).mpr
        ⟨(inside_center htwo).mpr (h.center htwo), h.phone htwo hroom⟩
      exact ⟨hinside, Nat.zero_le _, .inl rfl, fun _ => rfl⟩
  have hoffset : textOffset (serviceCenterNumber.getD []) phoneNumber bufferSize ≤ bufferSize := by
    omega
  rw [pduEncode_of_offset htwo hroom hoffset, sound_iff htwo hroom hoffset]
  dsimp only
  by_cases hlong : (asciiToG7bit (counted smsText)).length > 160
  · rw [if_pos hlong, correct_refused]
    constructor
    · rintro ⟨hinside, hseptets⟩
      exact ⟨hinside, hseptets, fun hshort => absurd hshort (by omega)⟩
    · rintro ⟨hinside, hseptets, -⟩
      exact ⟨hinside, hseptets⟩
  have hshort : (asciiToG7bit (counted smsText)).length ≤ 160 := by omega
  rw [if_neg hlong, encodePDUMessage]
  by_cases haccepts : Accepts (asciiToG7bit (counted smsText)).length
      (bufferSize - textOffset (serviceCenterNumber.getD []) phoneNumber bufferSize)
  · rw [if_neg haccepts]
    dsimp only
    have hroom' := (accepts_iff hshort).mp haccepts
    refine (correct_message rfl hshort (encode_length _ _) hoffset).trans ?_
    constructor
    · rintro ⟨hinside, hsuits⟩
      exact ⟨hinside, by omega, fun _ _ => hsuits⟩
    · rintro ⟨hinside, -, hsuits⟩
      exact ⟨hinside, hsuits hshort (by omega)⟩
  · have hfull := mt (accepts_iff hshort).mpr haccepts
    rw [if_pos (not_not.mp haccepts)]
    dsimp only
    rw [correct_refused, inside_length hoffset]
    constructor
    · rintro ⟨hinside, hseptets⟩
      exact ⟨hinside, hseptets, fun _ hfits => absurd hfits (by omega)⟩
    · rintro ⟨hinside, hseptets, -⟩
      exact ⟨hinside, hseptets⟩

def hello : List UInt8 := [0x68, 0x65, 0x6C, 0x6C, 0x6F]

theorem asciiToG7bit_hello : asciiToG7bit hello = hello := by
  rw [hello]
  repeat rw [asciiToG7bit]
  rfl

/-- The number `48a` is accepted, and a message is returned. -/
theorem pduEncode_not_correct : ¬Correct none [0x34, 0x38, 0x61] hello 100
    (pduEncode none [0x34, 0x38, 0x61] hello (fun _ => 0) 100) := by
  intro h
  have hnot : ¬Digits [0x34, 0x38, 0x61] := by decide
  have hrefused := h.digits fun hdigits => hnot hdigits.2
  have hcounted : counted hello = hello := by decide
  rw [pduEncode_of_offset (by decide) (by decide) (by decide), hcounted,
    asciiToG7bit_hello] at hrefused
  dsimp only at hrefused
  rw [if_neg (by decide), encodePDUMessage, if_neg (by decide)] at hrefused
  dsimp only at hrefused
  omega

end ModemSupport.Sendat.PduEncode
