import Mathlib.Data.List.Basic
import ModemSupport.Lib.Memory
import ModemSupport.Lib.Bits

/-! The 7-bit packing of SMS texts (`pdu.c`): `EncodePDUMessage` merges septets into bytes, and
`DecodePDUMessage_GSM_7bit` splits bytes into septets. -/

namespace ModemSupport.Sendat.Septets

open Lib.Memory (int32)
open Lib.Packing

/-- The memory from an argument on. -/
abbrev Buffer := Nat → UInt8

def gsm7bitsEscape : UInt8 := 0x1b

/-- The bytes that are written one behind the other, and the offsets that are read. -/
structure Merged where
  bytes : List UInt8
  reads : List Nat

def Merged.append (a b : Merged) : Merged := ⟨a.bytes ++ b.bytes, a.reads ++ b.reads⟩

def septet (smsText : Buffer) (i : Nat) : Nat := (smsText i).toNat &&& 0x7F

def merge (smsText : Buffer) (i carryOnBits : Nat) : UInt8 :=
  UInt8.ofNat (septet smsText i >>> (carryOnBits - 1) |||
    septet smsText (i + 1) <<< (8 - carryOnBits))

def encodeLoop (smsText : Buffer) (smsTextLength i carryOnBits : Nat) : Merged :=
  if i + 1 < smsTextLength then
    let byte : Merged := ⟨[merge smsText i carryOnBits], [i, i + 1]⟩
    if carryOnBits + 1 = 8 then byte.append (encodeLoop smsText smsTextLength (i + 1 + 1) 1)
    else byte.append (encodeLoop smsText smsTextLength (i + 1) (carryOnBits + 1))
  else if i ≤ smsTextLength then
    ⟨[UInt8.ofNat (septet smsText i >>> (carryOnBits - 1))], [i]⟩
  else ⟨[], []⟩
termination_by smsTextLength - i

/-- `EncodePDUMessage`; `none` is -1, else the number of the bytes is returned. -/
def encodePDUMessage (smsText : Buffer) (smsTextLength : Nat) (bufferSize : Int) : Option Merged :=
  if (int32 (smsTextLength * 7 + 7)).tdiv 8 > bufferSize then none
  else some (encodeLoop smsText smsTextLength 0 1)

/-- The septets that are written one behind the other, and the offsets that are read. -/
structure Split where
  text : List UInt8
  reads : List Nat

def Split.append (a b : Split) : Split := ⟨a.text ++ b.text, a.reads ++ b.reads⟩

def split (buffer : Buffer) (i carryOnBits : Nat) : UInt8 :=
  UInt8.ofNat (0x7F &&& ((buffer i).toNat <<< carryOnBits |||
    (buffer (i - 1)).toNat >>> (8 - carryOnBits)))

/-- The loop over the buffer, with the last remainder behind it, which is not reached by the
`break`s. -/
def decodeLoop (buffer : Buffer) (bufferLength smsTextLength i carryOnBits : Nat)
    (outputTextLength : Nat) : Split :=
  if i < bufferLength then
    let one : Split := ⟨[split buffer i carryOnBits], [i, i - 1]⟩
    if outputTextLength + 1 = smsTextLength then one
    else if carryOnBits + 1 = 8 then
      let two : Split := one.append ⟨[UInt8.ofNat ((buffer i).toNat &&& 0x7F)], [i]⟩
      if outputTextLength + 2 = smsTextLength then two
      else two.append
        (decodeLoop buffer bufferLength smsTextLength (i + 1) 1 (outputTextLength + 2))
    else one.append (decodeLoop buffer bufferLength smsTextLength (i + 1) (carryOnBits + 1)
      (outputTextLength + 1))
  else if outputTextLength < smsTextLength then
    ⟨[UInt8.ofNat ((buffer (i - 1)).toNat >>> (8 - carryOnBits))], [i - 1]⟩
  else ⟨[], []⟩
termination_by bufferLength - i

/-- `DecodePDUMessage_GSM_7bit`, which returns the number of the septets. -/
def decodePDUMessage (buffer : Buffer) (bufferLength smsTextLength : Nat) : Split :=
  let first : Split :=
    if 0 < bufferLength then ⟨[UInt8.ofNat (0x7F &&& (buffer 0).toNat)], [0]⟩ else ⟨[], []⟩
  if smsTextLength > 1 then
    first.append (decodeLoop buffer bufferLength smsTextLength 1 1 first.text.length)
  else first

variable {smsText buffer : Buffer} {n i j k l m : Nat} {bufferSize : Int} {s : List UInt8}

theorem septet_lt : septet smsText i < 2 ^ 7 :=
  Nat.lt_of_le_of_lt Nat.and_le_right (by decide)

def byte (smsText : Buffer) (j : Nat) : UInt8 := merge smsText (j + j / 7) (j % 7 + 1)

def lastByte (smsText : Buffer) (n : Nat) : UInt8 :=
  UInt8.ofNat (septet smsText (7 * n / 8 + 7 * n / 8 / 7) >>> (7 * n / 8 % 7))

theorem seven_mul_div (h : n % 8 ≠ 0) : 7 * n / 8 = 7 * (n / 8) + n % 8 - 1 := by
  have hn : 7 * n = 8 * (7 * (n / 8) + n % 8 - 1) + (8 - n % 8) := by omega
  omega

theorem last_index (n : Nat) : n % 8 = 0 ∧ 7 * n / 8 + 7 * n / 8 / 7 = n ∨
    n % 8 ≠ 0 ∧ 7 * n / 8 + 7 * n / 8 / 7 + 1 = n := by
  by_cases hmod : n % 8 = 0
  · exact .inl ⟨hmod, by omega⟩
  · rw [seven_mul_div hmod]
    exact .inr ⟨hmod, by omega⟩

theorem encodeLoop_next (h : j < 7 * n / 8) :
    encodeLoop smsText n (j + j / 7) (j % 7 + 1) =
      Merged.append ⟨[byte smsText j], [j + j / 7, j + j / 7 + 1]⟩
        (encodeLoop smsText n (j + 1 + (j + 1) / 7) ((j + 1) % 7 + 1)) := by
  have hmore : j + j / 7 + 1 < n := by omega
  rw [encodeLoop, if_pos hmore]
  dsimp only
  split
  next hcarry =>
    have hi : j + j / 7 + 1 + 1 = j + 1 + (j + 1) / 7 := by omega
    have hc : 1 = (j + 1) % 7 + 1 := by omega
    rw [hi, ← hc]
    rfl
  next hcarry =>
    have hi : j + j / 7 + 1 = j + 1 + (j + 1) / 7 := by omega
    have hc : j % 7 + 1 + 1 = (j + 1) % 7 + 1 := by omega
    rw [hc, ← hi]
    rfl

theorem encodeLoop_end (h : j = 7 * n / 8) :
    encodeLoop smsText n (j + j / 7) (j % 7 + 1) = ⟨[lastByte smsText n], [j + j / 7]⟩ := by
  have hend : ¬j + j / 7 + 1 < n := by omega
  rw [encodeLoop, if_neg hend, if_pos (by omega), Nat.add_sub_cancel, h]
  rfl

theorem encodeLoop_bytes (h : j + k = 7 * n / 8) :
    (encodeLoop smsText n (j + j / 7) (j % 7 + 1)).bytes =
      (List.range' j k).map (byte smsText) ++ [lastByte smsText n] := by
  induction k generalizing j with
  | zero =>
    rw [encodeLoop_end (by omega)]
    rfl
  | succ k ih =>
    rw [encodeLoop_next (by omega), Merged.append, ih (by omega), List.range'_succ]
    rfl

theorem encodeLoop_reads (smsText : Buffer) (h : j + k = 7 * n / 8) :
    (∀ i ∈ (encodeLoop smsText n (j + j / 7) (j % 7 + 1)).reads, i < n ∨ i = n ∧ n % 8 = 0) ∧
      7 * n / 8 + 7 * n / 8 / 7 ∈ (encodeLoop smsText n (j + j / 7) (j % 7 + 1)).reads := by
  induction k generalizing j with
  | zero =>
    rw [encodeLoop_end (by omega)]
    refine ⟨?_, by rw [Nat.add_zero] at h; simp [h]⟩
    intro i hi
    obtain rfl := List.mem_singleton.mp hi
    have hlast := last_index n
    rw [← h, Nat.add_zero] at hlast
    omega
  | succ k ih =>
    obtain ⟨hreads, hlast⟩ := ih (j := j + 1) (by omega)
    rw [encodeLoop_next (by omega), Merged.append]
    refine ⟨?_, List.mem_append_right _ hlast⟩
    intro i hi
    rcases List.mem_append.mp hi with hi | hi
    · simp only [List.mem_cons, List.not_mem_nil, or_false] at hi
      omega
    · exact hreads i hi

theorem encode_bytes : (encodeLoop smsText n 0 1).bytes =
    (List.range (7 * n / 8)).map (byte smsText) ++ [lastByte smsText n] := by
  rw [List.range_eq_range']
  exact encodeLoop_bytes (j := 0) (Nat.zero_add _)

theorem encode_length (smsText : Buffer) (n : Nat) :
    (encodeLoop smsText n 0 1).bytes.length = 7 * n / 8 + 1 := by
  rw [encode_bytes, List.length_append, List.length_map, List.length_range, List.length_singleton]

theorem length_eq_of_mod (h : n % 8 ≠ 0) : 7 * n / 8 + 1 = (7 * n + 7) / 8 := by
  have hdiv := seven_mul_div h
  omega

def Accepts (n : Nat) (bufferSize : Int) : Prop := ¬(int32 (n * 7 + 7)).tdiv 8 > bufferSize

instance (n : Nat) (bufferSize : Int) : Decidable (Accepts n bufferSize) :=
  inferInstanceAs (Decidable ¬(int32 (n * 7 + 7)).tdiv 8 > bufferSize)

/-- Only the septets of the text are read, and the bytes are as many as they need, which the buffer
has. -/
def Exact (n : Nat) (bufferSize : Int) (e : Merged) : Prop :=
  (∀ i ∈ e.reads, i < n) ∧ e.bytes.length = (7 * n + 7) / 8 ∧ (e.bytes.length : Int) ≤ bufferSize

/-- A text that is encoded is encoded exactly just when it does not consist of whole groups of eight
septets and the buffer is large enough, which the check ensures unless an `int` overflows. -/
theorem encodePDUMessage_exact_iff (smsText : Buffer) (n : Nat) (bufferSize : Int)
    (haccepts : Accepts n bufferSize) :
    (∃ e, encodePDUMessage smsText n bufferSize = some e ∧ Exact n bufferSize e) ↔
      n % 8 ≠ 0 ∧ ((7 * n + 7) / 8 : Nat) ≤ bufferSize := by
  have hencode : encodePDUMessage smsText n bufferSize = some (encodeLoop smsText n 0 1) :=
    if_neg haccepts
  obtain ⟨hreads, hlast⟩ := encodeLoop_reads smsText (j := 0)
    (Nat.zero_add (7 * n / 8))
  have hlength := encode_length smsText n
  rw [hencode]
  constructor
  · rintro ⟨e, he, hread, hbytes, hsize⟩
    obtain rfl := Option.some.inj he
    have hin := hread _ hlast
    rw [hlength] at hbytes hsize
    omega
  · rintro ⟨hmod, hsize⟩
    rw [length_eq_of_mod hmod] at hlength
    refine ⟨_, rfl, fun i hi => ?_, hlength, ?_⟩
    · have hor := hreads i hi
      omega
    · rwa [hlength]

theorem encodePDUMessage_exact_hello :
    ∃ e, encodePDUMessage (fun i => [0x68, 0x65, 0x6C, 0x6C, 0x6F].getD i 0) 5 5 = some e ∧
      Exact 5 5 e :=
  (encodePDUMessage_exact_iff _ 5 5 (by decide)).mpr (by decide)

/-- A text of eight septets is followed by a byte of what stands behind it. -/
theorem encodePDUMessage_not_exact :
    Accepts 8 7 ∧ ¬∃ e, encodePDUMessage (fun _ => 0x41) 8 7 = some e ∧ Exact 8 7 e := by
  refine ⟨by decide, ?_⟩
  rintro ⟨e, he, -, hbytes, -⟩
  have hencode : encodePDUMessage (fun _ => 0x41) 8 7 = some (encodeLoop (fun _ => 0x41) 8 0 1) :=
    if_neg (by decide)
  obtain rfl := Option.some.inj (hencode.symm.trans he)
  rw [encode_length] at hbytes
  exact absurd hbytes (by decide)

end ModemSupport.Sendat.Septets
