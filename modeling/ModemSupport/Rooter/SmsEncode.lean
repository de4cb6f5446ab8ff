import ModemSupport.Rooter.SmsDecode

/-! `utf8togsm.lua`, `pack7bit.lua` and the use that `sys2sms.lua` makes of them: a text as user
data. -/

namespace ModemSupport.Rooter.SmsRead

open Lib.Text SmsFile

/-- The characters that have another code, or one behind an escape. -/
def g7tTable : List (Nat × Str) :=
  [(64, ['0', '0']), (163, ['0', '1']), (36, ['0', '2']), (165, ['0', '3']), (232, ['0', '4']),
    (233, ['0', '5']), (249, ['0', '6']), (236, ['0', '7']), (242, ['0', '8']), (199, ['0', '9']),
    (216, ['0', 'B']), (248, ['0', 'C']), (197, ['0', 'E']), (229, ['0', 'F']),
    (0x394, ['1', '0']), (95, ['1', '1']), (0x3A6, ['1', '2']), (0x393, ['1', '3']),
    (0x39B, ['1', '4']), (0x3A9, ['1', '5']), (0x3A0, ['1', '6']), (0x3A8, ['1', '7']),
    (0x3A3, ['1', '8']), (0x398, ['1', '9']), (0x39E, ['1', 'A']), (198, ['1', 'C']),
    (230, ['1', 'D']), (223, ['1', 'E']), (201, ['1', 'F']), (164, ['2', '4']), (161, ['4', '0']),
    (196, ['5', 'B']), (214, ['5', 'C']), (209, ['5', 'D']), (220, ['5', 'E']), (167, ['5', 'F']),
    (191, ['6', '0']), (228, ['7', 'B']), (246, ['7', 'C']), (241, ['7', 'D']), (252, ['7', 'E']),
    (224, ['7', 'F']), (94, ['1', 'B', '1', '4']), (123, ['1', 'B', '2', '8']),
    (125, ['1', 'B', '2', '9']), (92, ['1', 'B', '2', 'F']), (91, ['1', 'B', '3', 'C']),
    (126, ['1', 'B', '3', 'D']), (93, ['1', 'B', '3', 'E']), (124, ['1', 'B', '4', '0']),
    (0x20AC, ['1', 'B', '6', '5'])]

def g7t (ch : Nat) : Option Str := g7tTable.lookup ch

/-- What the loop of `chktxt` makes of a text. -/
structure Codes where
  unicode : Str
  g7hex : Str
  g7isok : Bool

def Codes.word (s : Codes) (ch : Nat) : Codes where
  unicode := s.unicode ++ formatX 4 ch
  g7hex := s.g7hex ++ (g7t ch).getD []
  g7isok := s.g7isok && (g7t ch).isSome

/-- A character of one byte: a back quote is not taken for one of the 7-bit alphabet. -/
def Codes.byte (s : Codes) (ch : Nat) : Codes :=
  if ch = 0x60 then { s with unicode := s.unicode ++ ['0', '0', '6', '0'], g7isok := false }
  else if ch ≤ 0x7F then
    { s with
      unicode := s.unicode ++ formatX 4 ch
      g7hex := s.g7hex ++ (g7t ch).getD (formatX 2 ch) }
  else
    { s with unicode := s.unicode ++ ['0', '0', '3', 'F'], g7hex := s.g7hex ++ ['3', 'F'] }

def Codes.pair (s : Codes) (ch : Nat) : Codes :=
  { s with
    unicode := s.unicode ++ formatX 4 (bitor 0xD800 (bitright (bitand ch 0xFFC00) 10)) ++
      formatX 4 (bitor 0xDC00 (bitand ch 0x3FF))
    g7isok := false }

/-- The loop over the bytes of a text, where a missing byte is an error. -/
def chkLoop : Str → Codes → Option Codes
  | [], s => some s
  | c :: rest, s =>
    if c.toNat ≥ 0xF0 then
      match rest with
      | b1 :: b2 :: b3 :: rest =>
        let ch := bitleft (bitand c.toNat 7) 18
        let ch := bitor (bitleft (bitand b1.toNat 0x3F) 12) ch
        let ch := bitor (bitleft (bitand b2.toNat 0x3F) 6) ch
        chkLoop rest (s.pair (bitor (bitand b3.toNat 0x3F) ch - 0x10000))
      | _ => none
    else if c.toNat ≥ 0xE0 then
      match rest with
      | b1 :: b2 :: rest =>
        let ch := bitleft (bitand c.toNat 0xF) 12
        let ch := bitor (bitleft (bitand b1.toNat 0x3F) 6) ch
        chkLoop rest (s.word (bitor (bitand b2.toNat 0x3F) ch))
      | _ => none
    else if c.toNat ≥ 0xC0 then
      match rest with
      | b1 :: rest =>
        let ch := bitleft (bitand c.toNat 0x3F) 6
        chkLoop rest (s.word (bitor (bitand b1.toNat 0x3F) ch))
      | _ => none
    else chkLoop rest (s.byte c.toNat)

structure Checked where
  msg : Option Str
  dcs : Str
  txt : Str

def tooLong (count : Nat) (kind max : Str) : Str :=
  "Processed text length = ".toList ++ dec count ++ kind ++ " characters.\n".toList ++
    "Currently ROOter supports ".toList ++ max ++ " maximum per message.".toList

/-- `chktxt`; an empty text has no first byte. -/
def chktxt (txt : Str) : Option Checked :=
  if txt = [] then none
  else
    (chkLoop txt ⟨[], [], true⟩).map fun s =>
      if s.g7isok ∧ s.g7hex.length ≤ 320 then ⟨none, ['0', '0'], s.g7hex⟩
      else if s.g7isok then
        ⟨some (tooLong (s.g7hex.length / 2) " 7-bit".toList "160".toList), [], txt⟩
      else if s.unicode.length ≤ 280 then ⟨none, ['0', '8'], s.unicode⟩
      else ⟨some (tooLong (s.unicode.length / 4) " 16-bit Unicode".toList "70".toList), [], txt⟩

def orLast (udtab : List Nat) (bits : Nat) : List Nat :=
  udtab.dropLast ++ [bitor bits (udtab.getLastD 0)]

/-- A septet in phase `ii`. -/
def packStep (ii ch : Nat) (udtab : List Nat) : List Nat :=
  if ii = 1 then udtab ++ [ch]
  else if ii = 2 then orLast udtab (bitleft (bitand ch 1) 7) ++ [bitright (bitand ch 126) 1]
  else if ii = 3 then orLast udtab (bitleft (bitand ch 3) 6) ++ [bitright (bitand ch 124) 2]
  else if ii = 4 then orLast udtab (bitleft (bitand ch 7) 5) ++ [bitright (bitand ch 120) 3]
  else if ii = 5 then orLast udtab (bitleft (bitand ch 15) 4) ++ [bitright (bitand ch 112) 4]
  else if ii = 6 then orLast udtab (bitleft (bitand ch 31) 3) ++ [bitright (bitand ch 96) 5]
  else if ii = 7 then orLast udtab (bitleft (bitand ch 63) 2) ++ [bitright (bitand ch 64) 6]
  else orLast udtab (bitleft ch 1)

/-- The loop over the septets; without any, a nil is stored and the table stays empty. -/
def packLoop : Str → Nat → List Nat → Option (List Nat)
  | [], _, udtab => some udtab
  | [c], ii, udtab => (tonumber16 [c]).map fun ch => packStep ii ch udtab
  | c1 :: c2 :: txt, ii, udtab => do
    let ch ← tonumber16 [c1, c2]
    packLoop txt (if ii = 8 then 1 else ii + 1) (packStep ii ch udtab)

/-- `pack`: the octets up to `maxb` are written as such, and there must be as many. -/
def pack (udl txt : Str) : Option Str := do
  let n ← tonumber16 udl
  let maxb := (7 * n + 7) / 8
  let udtab ← packLoop txt 1 []
  if udtab.length < maxb then none
  else some ((udtab.take maxb).flatMap (formatX 2) ++ (udtab.drop maxb).flatMap dec)

structure UserData where
  dcs : Str
  udl : Str
  ud : Str

def userData (r : Checked) : Option UserData :=
  let udl := formatX 2 (r.txt.length / 2)
  if r.msg = none ∧ r.dcs = ['0', '0'] then (pack udl r.txt).map fun ud => ⟨r.dcs, udl, ud⟩
  else some ⟨r.dcs, udl, r.txt⟩

/-- The user data without a header, read as `parseDeliver` does by its alphabet. -/
def readUserData (u : UserData) (mConcat : Option Str) (d : Decoder) : Option (Int × Decoded) :=
  if u.dcs = ['0', '8'] then pdu2binary 2 (u.udl ++ u.ud) 0 mConcat d
  else pdu2text (u.udl ++ u.ud) 0 mConcat d

end ModemSupport.Rooter.SmsRead
