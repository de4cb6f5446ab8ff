import ModemSupport.Rooter.SmsFile

/-! `smsread.lua`: the user data of a message, that is its header and its text.  `none` is a runtime
error. -/

namespace ModemSupport.Rooter.SmsRead

open Lib.Text SmsFile

def sub (s : Str) (i : Nat) : Str := s.drop (i - 1)

def subTo (s : Str) (i j : Nat) : Str := (s.take j).drop (i - 1)

/-- `s:byte(k)`, which is nil behind the end. -/
def byte (s : Str) (k : Nat) : Option Nat := s[k - 1]?.map Char.toNat

def char (n : Nat) : Char := Char.ofNat n

/-- What is behind `0x` in front of a digit. -/
def withoutX (s : Str) : Str :=
  match s with
  | '0' :: x :: hs =>
    if (x = 'x' ∨ x = 'X') ∧ (hs.head?.map SmsFile.isxdigit).getD false then hs else s
  | _ => s

/-- `strtoul` to base 16, without blanks and sign. -/
def unsigned16 (s : Str) : Option Nat :=
  let ds := (withoutX s).takeWhile SmsFile.isxdigit
  if ds ≠ [] ∧ ((withoutX s).dropWhile SmsFile.isxdigit).all isspace then
    some (ds.foldl (fun n h => 16 * n + xdigit h) 0)
  else none

/-- `tonumber(s, 16)`, where a number with a minus is one of 64 bits. -/
def tonumber16 (s : Str) : Option Nat :=
  match s.dropWhile isspace with
  | '-' :: s => (unsigned16 s).map fun n => (2 ^ 64 - n) % 2 ^ 64
  | '+' :: s => unsigned16 s
  | s => unsigned16 s

def hexDigit (n : Nat) : Char := if n < 10 then Char.ofNat (48 + n) else Char.ofNat (55 + n)

def formatX (k n : Nat) : Str :=
  let digits := max k (Nat.toDigits 16 n).length
  (List.range digits).map fun j => hexDigit (n / 16 ^ (digits - 1 - j) % 16)

def hasbit (x p : Nat) : Bool := x % (p + p) ≥ p

def bitLoop (op : Bool → Bool → Bool) (x y limit p z : Nat) : Nat :=
  if 0 < p ∧ p ≤ limit then
    bitLoop op x y limit (p + p) (if op (hasbit x p) (hasbit y p) then z + p else z)
  else z
termination_by limit + 1 - p

def bitand (x y : Nat) : Nat := bitLoop and x y (if x > y then x else y) 1 0

def bitor (x y : Nat) : Nat := bitLoop or x y (if x > y then x else y) 1 0

def bitleft (x y : Nat) : Nat := x * 2 ^ y

def bitright (x y : Nat) : Nat := x / 2 ^ y

/-- 1 for the code of a hexadecimal digit and 0 otherwise, also for nil. -/
def isxdigit (digit : Option Nat) : Nat :=
  match digit with
  | none => 0
  | some d =>
    if 48 ≤ d ∧ d ≤ 57 ∨ 97 ≤ d ∧ d ≤ 102 ∨ 65 ≤ d ∧ d ≤ 70 then 1 else 0

/-- The value of a digit, for which a small letter has too large a one. -/
def nibble (d : Nat) : Nat := if d > 57 then d - 55 else d - 48

def octet2bin (c1 c2 : Nat) : Nat := nibble c1 * 16 + nibble c2

def octet2binCheck (octet : Str) : Int :=
  if byte octet 1 = some 0 then -1
  else if byte octet 2 = some 0 then -2
  else if isxdigit (byte octet 1) = 0 then -3
  else if isxdigit (byte octet 2) = 0 then -4
  else octet2bin ((byte octet 1).getD 0) ((byte octet 2).getD 0)

/-- What the decoders leave in globals: whether an escape is open, and the first half of a pair. -/
structure Decoder where
  gTableNbr : Option Nat
  surrogate : Nat

def gTable1 (ch : Nat) : Option Nat :=
  if ch ≤ 26 then
    [64, 163, 36, 165, 232, 233, 249, 236, 242, 199, 10, 216, 248, 13, 197, 229, 0x394, 95, 0x3A6,
      0x393, 0x39B, 0x3A9, 0x3A0, 0x3A8, 0x3A3, 0x398, 0x39E][ch]?
  else
    match ch with
    | 28 => some 198
    | 29 => some 230
    | 30 => some 223
    | 31 => some 201
    | 36 => some 164
    | 64 => some 161
    | 91 => some 196
    | 92 => some 214
    | 93 => some 209
    | 94 => some 220
    | 95 => some 167
    | 96 => some 191
    | 123 => some 228
    | 124 => some 246
    | 125 => some 241
    | 126 => some 252
    | 127 => some 224
    | _ => none

def gTable2 (ch : Nat) : Option Nat :=
  match ch with
  | 10 => some 10
  | 20 => some 94
  | 40 => some 123
  | 41 => some 125
  | 47 => some 92
  | 60 => some 91
  | 61 => some 126
  | 62 => some 93
  | 64 => some 124
  | 101 => some 0x20AC
  | _ => none

def gsm2byte (ch : Nat) (gTableNbr : Option Nat) : Nat × Option Nat :=
  if gTableNbr = some 2 then ((gTable2 ch).getD 63, some 1)
  else if ch = 27 then (ch, some 2)
  else ((gTable1 ch).getD ch, gTableNbr)

def box : Str := [char 0xe2, char 0x96, char 0xa1]

/-- A text with a character behind it, and `surrogate`. -/
def word2utf8 (i : Nat) (txt : Str) (surrogate : Nat) : Str × Nat :=
  if surrogate > 0 then
    if 0xDC00 ≤ i ∧ i ≤ 0xDFFF then
      let ii := 0x10000 + bitand i 0x3FF + bitleft (bitand surrogate 0x3FF) 10
      (txt ++ [char (bitor 0xF0 (bitright (bitand ii 0x1C0000) 18)),
        char (bitor 0x80 (bitright (bitand ii 0x3F000) 12)),
        char (bitor 0x80 (bitright (bitand ii 0xFC0) 6)), char (bitor 0x80 (bitand ii 0x3F))], 0)
    else (txt ++ box, 0)
  else if 0xD800 ≤ i ∧ i ≤ 0xDBFF then (txt, i)
  else if 0xDC00 ≤ i ∧ i ≤ 0xDFFF then (txt ++ box, surrogate)
  else if i < 0x80 then (txt ++ [char i], surrogate)
  else if i < 0x800 then
    (txt ++ [char (bitor 0xC0 (bitright (bitand i 0x7C0) 6)), char (bitor 0x80 (bitand i 0x3F))],
      surrogate)
  else if i = 0x2029 then (txt ++ [char 10], surrogate)
  else
    (txt ++ [char (bitor 0xE0 (bitright (bitand i 0xF000) 12)),
      char (bitor 0x80 (bitright (bitand i 0xFC0) 6)), char (bitor 0x80 (bitand i 0x3F))],
      surrogate)

def concatText (ref ord max : Str) : Option Str := do
  let ref ← tonumber16 ref
  let ord ← tonumber16 ord
  let max ← tonumber16 max
  some (['M', 's', 'g', '#', ' '] ++ tostring ref ++ [','] ++ tostring ord ++ ['/'] ++
    tostring max)

/-- `concatinfo`: what it makes of `m_concat`. -/
def concatinfo (x : Str) (mConcat : Option Str) : Option (Option Str) :=
  if 9 < x.length then
    if subTo x 1 4 = ['0', '0', '0', '3'] then
      if subTo x 7 10 ≠ ['0', '1', '0', '1'] then
        (concatText (subTo x 5 6) (subTo x 9 10) (subTo x 7 8)).map some
      else some mConcat
    else if subTo x 1 4 = ['0', '8', '0', '4'] then
      if subTo x 9 12 ≠ ['0', '1', '0', '1'] then
        (concatText (subTo x 5 8) (subTo x 11 12) (subTo x 9 10)).map some
      else some mConcat
    else
      match tonumber16 (subTo x 3 4) with
      | none => none
      | some iel => concatinfo (sub x (5 + iel * 2)) mConcat
  else some mConcat
termination_by x.length
decreasing_by
  rw [sub, List.length_drop]
  omega

/-- What is set by the decoders: the text, and the place of a part in a long message. -/
structure Decoded where
  mText : Str
  mConcat : Option Str
  decoder : Decoder

/-- The loop over the octets: whether it comes to its end, and the text. -/
def octetLoop (mAlphabet : Int) (pdu : Str) (skipOctets : Nat) :
    Nat → (octetcounter lastI : Nat) → Str → Decoder → Bool × Str × Decoder
  | 0, _, _, mText, d => (true, mText, d)
  | n + 1, octetcounter, lastI, mText, d =>
    let i := octet2binCheck (sub pdu (octetcounter * 2 + 3 + skipOctets * 2))
    if i < 0 then (false, mText, d)
    else if mAlphabet = 2 then
      if (2 + octetcounter) % 2 = 0 then
        octetLoop mAlphabet pdu skipOctets n (octetcounter + 1) i.toNat mText d
      else
        let r := word2utf8 (bitor (bitleft lastI 8) i.toNat) mText d.surrogate
        octetLoop mAlphabet pdu skipOctets n (octetcounter + 1) lastI r.1
          { d with surrogate := r.2 }
    else
      let r := word2utf8 (if i < 32 ∨ i > 127 then 0x25A1 else i.toNat) mText d.surrogate
      octetLoop mAlphabet pdu skipOctets n (octetcounter + 1) lastI r.1
        { d with surrogate := r.2 }

def pdu2binary (mAlphabet : Int) (pdu : Str) (withUdh : Nat) (mConcat : Option Str) (d : Decoder) :
    Option (Int × Decoded) :=
  let octets := octet2binCheck pdu
  let text (skipOctets : Nat) (mConcat : Option Str) : Int × Decoded :=
    let r := octetLoop mAlphabet pdu skipOctets (octets - skipOctets).toNat 0 0 [] d
    (if r.1 then octets - skipOctets else -1, ⟨r.2.1, mConcat, r.2.2⟩)
  if octets < 0 then some (-1, ⟨[], mConcat, d⟩)
  else if withUdh > 0 then do
    let pdu2 := sub pdu 3
    let udhl ← tonumber16 (subTo pdu2 1 2)
    let mConcat ← concatinfo (subTo pdu2 3 ((udhl + 1) * 2)) mConcat
    let udhsize := octet2binCheck pdu2
    if udhsize < 0 then some (-1, ⟨[], mConcat, d⟩)
    else some (text (udhsize.toNat + 1) mConcat)
  else some (text 0 mConcat)

/-- The octets up to the one of a bit: how many have been read, and the last of them. -/
def fetch (pdu : Str) (octets byteposition octetcounter binary : Nat) : Option (Nat × Nat) :=
  if byteposition ≥ octetcounter ∧ octetcounter < octets then
    let i := octet2binCheck (sub pdu (octetcounter * 2 + 3))
    if i < 0 then none else fetch pdu octets byteposition (octetcounter + 1) i.toNat
  else some (octetcounter, binary)
termination_by octets - octetcounter

def bitsLoop (pdu : Str) (octets : Nat) :
    Nat → (bitposition c octetcounter binary : Nat) → Option (Nat × Nat × Nat)
  | 0, _, c, octetcounter, binary => some (c, octetcounter, binary)
  | n + 1, bitposition, c, octetcounter, binary => do
    let (octetcounter, binary) ← fetch pdu octets (bitposition / 8) octetcounter binary
    let c := if bitand binary (2 ^ (bitposition % 8)) > 0 then bitor c 128 else c
    bitsLoop pdu octets n (bitposition + 1) (bitand (c / 2) 127) octetcounter binary

/-- A character behind the bits: the text, and what is left in the globals. -/
def addChar (skipped : Bool) (ch : Nat) (mText : Str) (d : Decoder) : Str × Decoder :=
  let c := gsm2byte ch d.gTableNbr
  if !skipped && c.1 ≠ 27 then
    let r := word2utf8 c.1 mText d.surrogate
    (r.1, ⟨c.2, r.2⟩)
  else (mText, { d with gTableNbr := c.2 })

/-- The loop over the characters: whether it comes to its end, and the text. -/
def charLoop (pdu : Str) (octets : Nat) (skipCharacters : Int) :
    Nat → (charcounter octetcounter binary : Nat) → Str → Decoder → Bool × Str × Decoder
  | 0, _, _, _, mText, d => (true, mText, d)
  | n + 1, charcounter, octetcounter, binary, mText, d =>
    match bitsLoop pdu octets 7 (charcounter * 7) 0 octetcounter binary with
    | none => (false, mText, d)
    | some (c, octetcounter, binary) =>
      let r := addChar (charcounter < skipCharacters) c mText d
      charLoop pdu octets skipCharacters n (charcounter + 1) octetcounter binary r.1 r.2

def pdu2text (pdu : Str) (withUdh : Nat) (mConcat : Option Str) (d : Decoder) :
    Option (Int × Decoded) :=
  let septets := octet2binCheck pdu
  let text (skipCharacters : Int) (mConcat : Option Str) : Int × Decoded :=
    let r := charLoop pdu ((septets.toNat * 7 + 7) / 8) skipCharacters septets.toNat 0 0 0 [] d
    (if r.1 then 1 else -2, ⟨r.2.1, mConcat, r.2.2⟩)
  if septets < 0 then some (-1, ⟨[], mConcat, d⟩)
  else if withUdh > 0 then do
    let pdu2 := sub pdu 3
    let udhl ← tonumber16 (subTo pdu2 1 2)
    let mConcat ← concatinfo (subTo pdu2 3 ((udhl + 1) * 2)) mConcat
    some (text (((octet2binCheck pdu2 + 1) * 8 + 6) / 7) mConcat)
  else some (text 0 mConcat)

end ModemSupport.Rooter.SmsRead
