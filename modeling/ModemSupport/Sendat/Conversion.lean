import ModemSupport.Sendat.PduDecodeSafe
import ModemSupport.Sendat.PduEncode

/-! `AsciiToG7bit` and `G7bitToAscii` (`pdu.c`): the characters that have a code come back. -/

namespace ModemSupport.Sendat.Conversion

open Lib.Memory (Mem put)
open PduDecode PduEncode Septets List

/-- The 7-bit characters of the default alphabet of GSM 03.38. -/
def Basic (c : UInt8) : Bool :=
  c == 0x0a || c == 0x0d || (0x20 ≤ c && c ≤ 0x5a) || c == 0x5f || (0x61 ≤ c && c ≤ 0x7a)

/-- Those of its extension table: the form feed, `^`, `{`, `}`, `\`, `[`, `~`, `]` and `|`. -/
def Extended (c : UInt8) : Bool :=
  c ∈ [0x0c, 0x5e, 0x7b, 0x7d, 0x5c, 0x5b, 0x7e, 0x5d, 0x7c]

def HasCode (c : UInt8) : Bool := Basic c || Extended c

def code (c : UInt8) : List UInt8 :=
  let val := latin1ToGsm7bits.getD c.toNat 0
  if val < 0 then [gsm7bitsEscape, UInt8.ofNat (-val).toNat] else [UInt8.ofNat val.toNat]

def codes (c : UInt8) : List UInt8 → Bool
  | [v] => v < 128 && v != gsm7bitsEscape && gsm7bitsToLatin1.getD v.toNat 0 == c
  | [e, v] => e == gsm7bitsEscape && v < 128 && gsm7bitsExtendToLatin1.getD v.toNat 0 == c
  | _ => false

variable {c : UInt8} {s : List UInt8} {text : Mem} {i n : Nat} {behind : UInt8}

theorem lt_of_hasCode (h : HasCode c) : c < 128 := by
  simp only [HasCode, Basic, Extended, Bool.or_eq_true, Bool.and_eq_true, beq_iff_eq,
    decide_eq_true_eq, mem_cons, not_mem_nil, or_false, UInt8.le_iff_toNat_le,
    UInt8.lt_iff_toNat_lt, ← UInt8.toNat_inj] at h ⊢
  simp at h ⊢
  omega

theorem codes_code (h : HasCode c) : codes c (code c) := by
  have hall : ∀ x : Fin 128, HasCode (UInt8.ofNat x) →
      codes (UInt8.ofNat x) (code (UInt8.ofNat x)) := by
    decide
  have hc := hall ⟨c.toNat, UInt8.lt_iff_toNat_lt.mp (lt_of_hasCode h)⟩
  simp only [UInt8.ofNat_toNat] at hc
  exact hc h

theorem and_ne (h : c < 128) : c &&& 0xE0 ≠ 0xC0 ∧ c &&& 0xF0 ≠ 0xE0 := by
  have hall : ∀ x : Fin 128, UInt8.ofNat x &&& 0xE0 ≠ 0xC0 ∧ UInt8.ofNat x &&& 0xF0 ≠ 0xE0 := by
    decide
  have hc := hall ⟨c.toNat, UInt8.lt_iff_toNat_lt.mp h⟩
  simp only [UInt8.ofNat_toNat] at hc
  exact hc

theorem asciiToG7bit_eq (hs : ∀ c ∈ s, HasCode c) : asciiToG7bit s = s.flatMap code := by
  induction s with
  | nil => rw [asciiToG7bit, flatMap_nil]
  | cons c s ih =>
    rw [forall_mem_cons] at hs
    obtain ⟨htwo, hthree⟩ := and_ne (lt_of_hasCode hs.1)
    rw [asciiToG7bit, flatMap_cons, code, if_neg htwo, if_neg hthree, ih hs.2]
    split <;> rfl

def Stands (text : Mem) (i : Nat) (s : List UInt8) : Prop :=
  ∀ j (hj : j < s.length), text (i + j) = s[j]

/-- What the translation of the septets of `s` leaves. -/
structure Restored (text : Mem) (i : Nat) (s : List UInt8) (r : Rewritten) : Prop where
  length : r.length = i + s.length
  front : ∀ j < i, r.text j = text j
  stands : Stands r.text i s

theorem Restored.cons {r : Rewritten} {text' : Mem} (h : Restored text' (i + 1) s r)
    (hc : text' i = c) (hfront : ∀ j < i, text' j = text j) : Restored text i (c :: s) r := by
  refine ⟨?_, fun j hj => ?_, fun j hj => ?_⟩
  · rw [h.length, length_cons]
    omega
  · rw [h.front j (by omega), hfront j hj]
  · cases j with
    | zero => rw [Nat.add_zero, h.front i (Nat.lt_succ_self i), hc, getElem_cons_zero]
    | succ j =>
      rw [length_cons] at hj
      rw [getElem_cons_succ, ← h.stands j (by omega), Nat.add_assoc, Nat.add_comm 1 j]

theorem g7bitToAscii_restored (hs : ∀ c ∈ s, HasCode c)
    (h : Ahead text i n (s.flatMap code) behind) :
    Restored text i s (g7bitToAscii text i n) := by
  induction s generalizing text i n with
  | nil =>
    have hlength := h.length
    rw [g7bitToAscii_nil h]
    exact ⟨hlength.symm, fun _ _ => rfl, nofun⟩
  | cons c s ih =>
    rw [forall_mem_cons] at hs
    have hcode := codes_code hs.1
    rw [flatMap_cons] at h
    -- the two forms of a code
    match hform : code c, hcode with
    | [v], hcode =>
      simp only [codes, Bool.and_eq_true, bne_iff_ne, beq_iff_eq] at hcode
      rw [hform, singleton_append] at h
      rw [g7bitToAscii_plain h hcode.1.2, hcode.2]
      have htail : Ahead (Function.update text i c) (i + 1) n (s.flatMap code) behind := h.tail
      have hrest := ih hs.2 htail
      exact Restored.cons ⟨hrest.length, hrest.front, hrest.stands⟩ (Function.update_self ..)
        fun j hj => Function.update_of_ne (Nat.ne_of_lt hj) ..
    | [e, v], hcode =>
      simp only [codes, Bool.and_eq_true, beq_iff_eq] at hcode
      obtain ⟨⟨rfl, -⟩, htable⟩ := hcode
      rw [hform, cons_append, singleton_append] at h
      obtain ⟨hv, -⟩ := h.septets 1 (by simp)
      rw [getElem_cons_succ, getElem_cons_zero] at hv
      rw [g7bitToAscii_escape h, hv, htable]
      have hrest := ih hs.2 (h.moved c)
      refine Restored.cons ⟨hrest.length, hrest.front, hrest.stands⟩ ?_ fun j hj => ?_
      · rw [moveDown, if_neg (by omega), Function.update_self]
      · rw [moveDown, if_neg (by omega), Function.update_of_ne (Nat.ne_of_lt hj)]

theorem septets_lt_of_hasCode (hs : ∀ c ∈ s, HasCode c) :
    ∀ v ∈ s.flatMap code, v.toNat < 128 := by
  intro v hv
  obtain ⟨c, hc, hv⟩ := mem_flatMap.mp hv
  have hcode := codes_code (hs c hc)
  match hform : code c, hcode with
  | [w], hcode =>
    simp only [codes, Bool.and_eq_true, decide_eq_true_eq, UInt8.lt_iff_toNat_lt] at hcode
    rw [hform, mem_singleton] at hv
    exact hv ▸ hcode.1.1
  | [e, w], hcode =>
    simp only [codes, Bool.and_eq_true, decide_eq_true_eq, beq_iff_eq,
      UInt8.lt_iff_toNat_lt] at hcode
    obtain ⟨⟨rfl, hw⟩, -⟩ := hcode
    rw [hform, mem_cons, mem_singleton] at hv
    rcases hv with rfl | rfl
    · decide
    · exact hw

/-- The characters of a text that have a code come back, whatever stands behind the septets. -/
theorem g7bitToAscii_asciiToG7bit (s : List UInt8) (hs : ∀ c ∈ s, HasCode c) (buffer : Mem) :
    let septets := asciiToG7bit s
    let r := g7bitToAscii (put buffer 0 (septets.map some)) 0 septets.length
    r.length = s.length ∧ ∀ j (hj : j < s.length), r.text j = s[j] := by
  have h := g7bitToAscii_restored hs (ahead_put buffer (septets_lt_of_hasCode hs))
  rw [← asciiToG7bit_eq hs] at h
  refine ⟨h.length.trans (Nat.zero_add _), fun j hj => ?_⟩
  have hj' := h.stands j hj
  rwa [Nat.zero_add] at hj'

/-- An escape stands behind the septets of `[A]`. -/
theorem g7bitToAscii_brackets :
    let septets := asciiToG7bit [0x5b, 0x41, 0x5d]
    let r := g7bitToAscii (put (fun _ => gsm7bitsEscape) 0 (septets.map some)) 0 septets.length
    r.length = 3 ∧ ∀ j (hj : j < 3), r.text j = [0x5b, 0x41, 0x5d][j] :=
  g7bitToAscii_asciiToG7bit _
    (List.all_eq_true.mp (by decide : [0x5b, 0x41, 0x5d].all HasCode = true)) _

end ModemSupport.Sendat.Conversion
