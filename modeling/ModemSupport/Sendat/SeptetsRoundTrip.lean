import Mathlib.Data.List.GetD
import ModemSupport.Sendat.Septets

/-! `DecodePDUMessage_GSM_7bit` gives back what `EncodePDUMessage` was given, for every number of
septets. -/

namespace ModemSupport.Sendat.Septets

open Lib.Memory (int32 int32_le)
open Lib.Packing List

variable {smsText buffer : Buffer} {n i j k l m : Nat} {bufferSize : Int} {s : List UInt8}

theorem testBit_ofNat {x : Nat} (hk : k < 8) : (UInt8.ofNat x).toNat.testBit k = x.testBit k := by
  rw [UInt8.toNat_ofNat', Nat.testBit_mod_two_pow]
  simp [hk]

theorem testBit_byte (hk : k < 8) :
    (byte smsText j).toNat.testBit k = streamBit 7 (septet smsText) (8 * j + k) := by
  have hr : j % 7 ≤ 7 := by omega
  have hpos : 7 * (j + j / 7) + j % 7 + k = 8 * j + k := by omega
  have hshift : 8 - (j % 7 + 1) = 7 - j % 7 := by omega
  rw [byte, merge, testBit_ofNat hk, Nat.add_sub_cancel, hshift,
    testBit_neighbours septet_lt hr (by omega), hpos]

theorem testBit_lastByte (hk : k < 8) (hn : 8 * (7 * n / 8) + k < 7 * n) :
    (lastByte smsText n).toNat.testBit k =
      streamBit 7 (septet smsText) (8 * (7 * n / 8) + k) := by
  have hlast := last_index n
  have hpos : 8 * (7 * n / 8) + k =
      7 * (7 * n / 8 + 7 * n / 8 / 7) + (7 * n / 8 % 7 + k) := by omega
  rw [lastByte, testBit_ofNat hk, Nat.testBit_shiftRight, hpos, streamBit_add (by omega)]

theorem sameBits_encode (smsText : Buffer) (n : Nat) :
    SameBits 8 (fun i => ((encodeLoop smsText n 0 1).bytes.getD i 0).toNat) 7 (septet smsText)
      (7 * n) := by
  refine sameBits_of_forall (by decide) fun j k hk hlt => ?_
  rw [encode_bytes]
  by_cases hj : j < 7 * n / 8
  · rw [getD_append _ _ _ _ (by simpa using hj)]
    rw [← testBit_byte hk]
    simp [hj]
  · obtain rfl : j = 7 * n / 8 := by omega
    rw [getD_append_right _ _ _ _ (by simp)]
    rw [← testBit_lastByte hk hlt]
    simp

def extend (buffer : Buffer) (l i : Nat) : Nat := if i < l then (buffer i).toNat else 0

def unpack (a : Nat → Nat) (m : Nat) : UInt8 :=
  UInt8.ofNat (0x7F &&& (a (m - m / 8) <<< (m % 8) ||| a (m - m / 8 - 1) >>> (8 - m % 8)))

def capacity (l : Nat) : Nat := (8 * l + 6) / 7

theorem extend_lt : extend buffer l i < 2 ^ 8 := by
  unfold extend
  split
  · exact (buffer i).toNat_lt
  · decide

theorem split_eq (hi : m - m / 8 < l) : split buffer (m - m / 8) (m % 8) =
    unpack (extend buffer l) m := by
  rw [split, unpack, extend, extend, if_pos hi, if_pos (by omega)]

theorem whole_eq (hm : m % 8 = 0) (hi : m - m / 8 < l) :
    UInt8.ofNat ((buffer (m - m / 8)).toNat &&& 0x7F) = unpack (extend buffer l) m := by
  have hzero : extend buffer l (m - m / 8 - 1) >>> 8 = 0 :=
    Nat.shiftRight_eq_zero _ _ extend_lt
  rw [unpack, hm, hzero, Nat.shiftLeft_zero, Nat.or_zero, extend, if_pos hi, Nat.and_comm]

theorem remainder_eq (hm : m % 8 ≠ 0) (hi : m - m / 8 = l) :
    UInt8.ofNat ((buffer (m - m / 8 - 1)).toNat >>> (8 - m % 8)) =
      unpack (extend buffer l) m := by
  have hlt : (buffer (m - m / 8 - 1)).toNat >>> (8 - m % 8) < 2 ^ 7 := by
    have hbyte := (buffer (m - m / 8 - 1)).toNat_lt
    have hpow : 2 ^ 1 ≤ 2 ^ (8 - m % 8) := Nat.pow_le_pow_right Nat.two_pos (by omega)
    rw [Nat.shiftRight_eq_div_pow, Nat.div_lt_iff_lt_mul (by omega)]
    omega
  rw [unpack, extend, extend, if_neg (by omega), if_pos (by omega), Nat.zero_shiftLeft,
    Nat.zero_or, Nat.and_comm]
  exact congrArg _ (Nat.and_two_pow_sub_one_of_lt_two_pow hlt).symm

theorem lt_capacity_iff :
    m < capacity l ↔ m - m / 8 < l ∨ m % 8 ≠ 0 ∧ m - m / 8 = l := by
  rw [capacity]
  omega

/-- `count` septets from the `m`-th on, read in the buffer. -/
structure Decoded (buffer : Buffer) (l m count : Nat) (r : Split) : Prop where
  text : r.text = (List.range' m count).map (unpack (extend buffer l))
  reads : ∀ i ∈ r.reads, i < l

theorem Decoded.append {count count' : Nat} {r r' : Split} (h : Decoded buffer l m count r)
    (h' : Decoded buffer l (m + count) count' r') :
    Decoded buffer l m (count + count') (r.append r') := by
  refine ⟨?_, forall_mem_append.mpr ⟨h.reads, h'.reads⟩⟩
  rw [Split.append, h.text, h'.text, ← map_append, List.range'_append_1]

theorem decoded_split (buffer : Buffer) (hi : m - m / 8 < l) :
    Decoded buffer l m 1 ⟨[split buffer (m - m / 8) (m % 8)], [m - m / 8, m - m / 8 - 1]⟩ := by
  rw [split_eq hi]
  refine ⟨rfl, ?_⟩
  simp only [forall_mem_cons]
  exact ⟨hi, by omega, by simp⟩

theorem decoded_whole (buffer : Buffer) (hm : m % 8 + 1 = 8) (hi : m - m / 8 < l) :
    Decoded buffer l (m + 1) 1
      ⟨[UInt8.ofNat ((buffer (m - m / 8)).toNat &&& 0x7F)], [m - m / 8]⟩ := by
  have hnext : m + 1 - (m + 1) / 8 = m - m / 8 := by omega
  have hwhole : UInt8.ofNat ((buffer (m - m / 8)).toNat &&& 0x7F) =
      unpack (extend buffer l) (m + 1) := by
    rw [← hnext]
    exact whole_eq (by omega) (by omega)
  rw [hwhole]
  exact ⟨rfl, forall_mem_singleton.mpr hi⟩

theorem decoded_remainder (buffer : Buffer) (hm : m % 8 ≠ 0) (hi : m - m / 8 = l) (hl : 0 < l) :
    Decoded buffer l m 1
      ⟨[UInt8.ofNat ((buffer (m - m / 8 - 1)).toNat >>> (8 - m % 8))], [m - m / 8 - 1]⟩ := by
  rw [remainder_eq hm hi]
  exact ⟨rfl, forall_mem_singleton.mpr (by omega)⟩

theorem decodeLoop_decoded (buffer : Buffer) (hm : m % 8 ≠ 0) (hmn : m < n) (hi : m - m / 8 ≤ l)
    (hl : 0 < l) : Decoded buffer l m (min n (capacity l) - m)
      (decodeLoop buffer l n (m - m / 8) (m % 8) m) := by
  have hthere : m < capacity l := lt_capacity_iff.mpr (by omega)
  induction hk : l - (m - m / 8) generalizing m with
  | zero =>
    have hend : m - m / 8 = l := by omega
    have hnot : ¬m + 1 < capacity l := fun h => by
      have hnext := lt_capacity_iff.mp h
      omega
    have hcount : min n (capacity l) - m = 1 := by omega
    rw [decodeLoop, if_neg (by omega), if_pos hmn, hcount]
    exact decoded_remainder buffer hm hend hl
  | succ k ih =>
    have hlt : m - m / 8 < l := by omega
    have hone := decoded_split buffer hlt
    rw [decodeLoop, if_pos hlt]
    dsimp only
    split
    next hlast =>
      have hcount : min n (capacity l) - m = 1 := by omega
      rw [hcount]
      exact hone
    next hlast =>
      split
      next hcarry =>
        have hwhole : m + 1 < capacity l := lt_capacity_iff.mpr (by omega)
        have htwo := hone.append (decoded_whole buffer hcarry hlt)
        split
        next hlast2 =>
          have hcount : min n (capacity l) - m = 1 + 1 := by omega
          rw [hcount]
          exact htwo
        next hlast2 =>
          have hthere' : m + 2 < capacity l := lt_capacity_iff.mpr (by omega)
          have hcount : min n (capacity l) - m = 1 + 1 + (min n (capacity l) - (m + 2)) := by omega
          have hstate : decodeLoop buffer l n (m - m / 8 + 1) 1 (m + 2) =
              decodeLoop buffer l n (m + 2 - (m + 2) / 8) ((m + 2) % 8) (m + 2) := by
            congr 1 <;> omega
          rw [hcount, hstate]
          exact htwo.append (ih (by omega) (by omega) (by omega) hthere' (by omega))
      next hcarry =>
        have hthere' : m + 1 < capacity l := lt_capacity_iff.mpr (by omega)
        have hcount : min n (capacity l) - m = 1 + (min n (capacity l) - (m + 1)) := by omega
        have hstate : decodeLoop buffer l n (m - m / 8 + 1) (m % 8 + 1) (m + 1) =
            decodeLoop buffer l n (m + 1 - (m + 1) / 8) ((m + 1) % 8) (m + 1) := by
          congr 1 <;> omega
        rw [hcount, hstate]
        exact hone.append (ih (by omega) (by omega) (by omega) hthere' (by omega))

theorem decode_eq (buffer : Buffer) (hl : 0 < l) : (decodePDUMessage buffer l n).text =
      (List.range (max 1 (min n (capacity l)))).map (unpack (extend buffer l)) ∧
    ∀ i ∈ (decodePDUMessage buffer l n).reads, i < l := by
  have hfirst : UInt8.ofNat (0x7F &&& (buffer 0).toNat) = unpack (extend buffer l) 0 := by
    rw [Nat.and_comm]
    exact whole_eq (m := 0) rfl hl
  unfold decodePDUMessage
  rw [if_pos hl, hfirst]
  dsimp only
  have hzero : ∀ i ∈ [0], i < l := by simpa using hl
  split
  next hn =>
    have hcount : max 1 (min n (capacity l)) = min n (capacity l) - 1 + 1 := by
      rw [capacity]
      omega
    obtain ⟨htext, hreads⟩ := decodeLoop_decoded buffer (m := 1) (n := n) (l := l)
      (by decide) hn hl hl
    refine ⟨?_, forall_mem_append.mpr ⟨hzero, hreads⟩⟩
    rw [hcount, List.range_eq_range', List.range'_succ, map_cons, ← htext]
    rfl
  next hn =>
    have hcount : max 1 (min n (capacity l)) = 1 := by omega
    rw [hcount]
    exact ⟨rfl, hzero⟩

theorem unpack_lt {a : Nat → Nat} : (unpack a m).toNat < 2 ^ 7 := by
  rw [unpack, UInt8.toNat_ofNat']
  exact Nat.lt_of_le_of_lt ((Nat.mod_le _ _).trans Nat.and_le_left) (by decide)

theorem sameBits_unpack {a : Nat → Nat} (ha : ∀ i, a i < 2 ^ 8) :
    SameBits 7 (fun m => (unpack a m).toNat) 8 a (7 * n) := by
  refine sameBits_of_forall (by decide) fun m k hk _ => ?_
  rw [unpack, testBit_ofNat (by omega), Nat.testBit_and]
  have hmask : Nat.testBit 0x7F k = true := by
    have hpow : (0x7F : Nat) = 2 ^ 7 - 1 := rfl
    rw [hpow, Nat.testBit_two_pow_sub_one]
    simpa using hk
  rw [hmask, Bool.true_and]
  by_cases hm : m = 0
  · subst hm
    have hzero : a 0 >>> 8 = 0 := Nat.shiftRight_eq_zero _ _ (ha 0)
    have hpos : 7 * 0 + k = 8 * 0 + k := rfl
    rw [hpos, streamBit_add (by omega)]
    simp [hzero]
  · have hi : m - m / 8 = m - m / 8 - 1 + 1 := by omega
    have hpos : 8 * (m - m / 8 - 1) + (8 - m % 8) + k = 7 * m + k := by omega
    have hshift : m % 8 = 8 - (8 - m % 8) := by omega
    rw [Nat.or_comm, ← hpos, ← testBit_neighbours (ha _) (by omega) (by omega), ← hi, ← hshift]

theorem accepts_of_le (h : ((7 * n + 7) / 8 : Nat) ≤ bufferSize) : Accepts n bufferSize := by
  have hwrap : int32 (n * 7 + 7) ≤ n * 7 + 7 := int32_le (by omega)
  have hdiv := Int.tdiv_le_tdiv (by decide : (0 : Int) < 8) hwrap
  rw [Int.tdiv_eq_ediv_of_nonneg (by omega : (0 : Int) ≤ n * 7 + 7)] at hdiv
  rw [Accepts]
  omega

/-- What has been encoded is decoded again, whatever stands behind the text. -/
theorem decode_encode (s : List UInt8) (smsText : Buffer) (bufferSize : Int) (hpos : s ≠ [])
    (hseptets : ∀ x ∈ s, x < 0x80) (htext : ∀ i < s.length, smsText i = s.getD i 0)
    (hsize : ((7 * s.length + 7) / 8 : Nat) ≤ bufferSize) :
    ∃ e, encodePDUMessage smsText s.length bufferSize = some e ∧
      (decodePDUMessage (fun i => e.bytes.getD i 0) e.bytes.length s.length).text = s := by
  refine ⟨_, if_neg (accepts_of_le hsize), ?_⟩
  have hlength := encode_length smsText s.length
  have hencode := sameBits_encode smsText s.length
  generalize (encodeLoop smsText s.length 0 1).bytes = bytes at hlength hencode ⊢
  have hn : 0 < s.length := length_pos_iff.mpr hpos
  have hextend : extend (fun i => bytes.getD i 0) bytes.length =
      fun i => (bytes.getD i 0).toNat := by
    funext i
    unfold extend
    split
    next => rfl
    next hi =>
      rw [getD_eq_default _ _ (by omega)]
      rfl
  have hcount : max 1 (min s.length (capacity bytes.length)) = s.length := by
    rw [hlength, capacity]
    omega
  obtain ⟨hdecoded, -⟩ := decode_eq (fun i => bytes.getD i 0) (n := s.length)
    (l := bytes.length) (by omega)
  rw [hdecoded, hcount, hextend]
  have hbits := (sameBits_unpack fun i => (bytes.getD i 0).toNat_lt).trans hencode
  apply ext_getElem
  · rw [length_map, length_range]
  · intro i hi hi'
    have hseptet : septet smsText i = s[i].toNat := by
      have hlt : s[i].toNat < 2 ^ 7 := UInt8.lt_iff_toNat_lt.mp (hseptets _ (getElem_mem hi'))
      rw [septet, htext i hi', getD_eq_getElem _ _ hi']
      exact Nat.and_two_pow_sub_one_of_lt_two_pow hlt
    have hsame := hbits.eq (j := i) (Nat.mul_le_mul_left 7 hi') unpack_lt septet_lt
    rw [getElem_map, getElem_range]
    exact UInt8.toNat_inj.mp (hsame.trans hseptet)

def hello : List UInt8 := [0x68, 0x65, 0x6C, 0x6C, 0x6F, 0x68, 0x65, 0x6C, 0x6C, 0x6F]

theorem decode_encode_hello :
    ∃ e, encodePDUMessage (fun i => hello.getD i 0) hello.length 9 = some e ∧
      (decodePDUMessage (fun i => e.bytes.getD i 0) e.bytes.length hello.length).text = hello :=
  decode_encode hello _ 9 (by decide) (by simp [hello]) (fun _ _ => rfl) (by decide)

end ModemSupport.Sendat.Septets
