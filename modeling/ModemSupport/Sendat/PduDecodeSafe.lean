import ModemSupport.Sendat.PduDecode

/-! Which PDUs are decoded safely: what `pdu_decode` reads, what it writes and what it looks up. -/

namespace ModemSupport.Sendat.PduDecode

open List

open Lib.Memory (Mem put put_of_not_mem)
open Septets (Buffer capacity decodePDUMessage decodeLoop decode_eq extend gsm7bitsEscape unpack
  unpack_lt)

/-- Only the PDU and the text are read, only the text is written, and the tables have the
indexes. -/
structure Log.Within (bufferLength : Int) (smsTextSize : Nat) (log : Log) : Prop where
  reads : ∀ i ∈ log.reads, (i : Int) < bufferLength
  textReads : ∀ i ∈ log.textReads, i < smsTextSize
  textWrites : ∀ i ∈ log.textWrites, i < smsTextSize
  indexes : ∀ c ∈ log.indexes, c.toNat < 128

structure Safe (bufferLength : Int) (senderPhoneNumberSize smsTextSize : Nat) (r : Run) : Prop where
  log : r.log.Within bufferLength smsTextSize
  number : r.outputs.senderPhoneNumber.length ≤ senderPhoneNumberSize
  ret : r.ret < 0 ∨ r.ret ≤ smsTextSize

/-- The sender fits into its buffer, so that what is behind it is looked at. -/
structure Addressed (buffer : Buffer) (bufferLength : Int) (senderPhoneNumberSize : Nat) :
    Prop where
  pos : 0 < bufferLength
  deliver : (deliverStart buffer + 1 : Nat) ≤ bufferLength
  sender : senderLength buffer + 1 ≤ senderPhoneNumberSize

structure HasText (buffer : Buffer) (bufferLength : Int) (senderPhoneNumberSize smsTextSize : Nat) :
    Prop extends Addressed buffer bufferLength senderPhoneNumberSize where
  start : (smsStart buffer + 1 : Nat) ≤ bufferLength
  length : (buffer (smsStart buffer)).toNat ≤ smsTextSize

def alphabet (buffer : Buffer) : Nat := (buffer (pidStart buffer + 1)).toNat / 4 % 4

def textBytes (buffer : Buffer) (bufferLength : Int) : Nat :=
  (bufferLength - (smsStart buffer + 1 : Nat)).toNat

def septets (buffer : Buffer) (bufferLength : Int) (n : Nat) : List UInt8 :=
  (List.range n).map
    (unpack (extend (fun i => buffer (smsStart buffer + 1 + i)) (textBytes buffer bufferLength)))

def endsInEscape : List UInt8 → Bool
  | [] => false
  | [c] => c = gsm7bitsEscape
  | c :: d :: s => if c = gsm7bitsEscape then endsInEscape s else endsInEscape (d :: s)

/-- The parts of a PDU that are looked at are there, and an escape has a byte behind it that is one
of the caller's and that is in the table. -/
structure Sound (buffer : Buffer) (bufferLength : Int) (senderPhoneNumberSize smsTextSize : Nat)
    (text : Mem) : Prop where
  sender : 0 < bufferLength → (deliverStart buffer + 1 : Nat) ≤ bufferLength →
    (deliverStart buffer + 2 : Nat) ≤ bufferLength
  stamp : Addressed buffer bufferLength senderPhoneNumberSize →
    (pidStart buffer + 8 : Nat) ≤ bufferLength
  header : Addressed buffer bufferLength senderPhoneNumberSize →
    (smsStart buffer + 1 : Nat) ≤ bufferLength → HasHeader buffer →
    (smsStart buffer + 2 + (buffer (smsStart buffer + 1)).toNat : Nat) ≤ bufferLength
  sevenBit : HasText buffer bufferLength senderPhoneNumberSize smsTextSize → alphabet buffer = 0 →
    2 ≤ (buffer (smsStart buffer)).toNat → (smsStart buffer + 2 : Nat) ≤ bufferLength
  escape : HasText buffer bufferLength senderPhoneNumberSize smsTextSize → alphabet buffer = 0 →
    1 ≤ (buffer (smsStart buffer)).toNat →
    (buffer (smsStart buffer)).toNat ≤ capacity (textBytes buffer bufferLength) →
    gsm7bitsEscape ∈ septets buffer bufferLength (buffer (smsStart buffer)).toNat →
    (buffer (smsStart buffer)).toNat < smsTextSize ∧
      (endsInEscape (septets buffer bufferLength (buffer (smsStart buffer)).toNat) →
        (text (buffer (smsStart buffer)).toNat).toNat < 128)
  ucs2 : HasText buffer bufferLength senderPhoneNumberSize smsTextSize → alphabet buffer = 2 →
    (smsStart buffer + 1 + (buffer (smsStart buffer)).toNat : Nat) ≤ bufferLength

variable {buffer : Buffer} {bufferLength : Int} {senderPhoneNumberSize smsTextSize : Nat}
  {text : Mem} {i n start size : Nat} {s : List UInt8} {log log' : Log}

theorem within_append : (log.append log').Within bufferLength smsTextSize ↔
    log.Within bufferLength smsTextSize ∧ log'.Within bufferLength smsTextSize := by
  constructor
  · rintro ⟨hr, htr, htw, hi⟩
    obtain ⟨hr, hr'⟩ := forall_mem_append.mp hr
    obtain ⟨htr, htr'⟩ := forall_mem_append.mp htr
    obtain ⟨htw, htw'⟩ := forall_mem_append.mp htw
    obtain ⟨hi, hi'⟩ := forall_mem_append.mp hi
    exact ⟨⟨hr, htr, htw, hi⟩, ⟨hr', htr', htw', hi'⟩⟩
  · rintro ⟨h, h'⟩
    exact ⟨forall_mem_append.mpr ⟨h.reads, h'.reads⟩,
      forall_mem_append.mpr ⟨h.textReads, h'.textReads⟩,
      forall_mem_append.mpr ⟨h.textWrites, h'.textWrites⟩,
      forall_mem_append.mpr ⟨h.indexes, h'.indexes⟩⟩

theorem within_empty : Log.Within bufferLength smsTextSize {} :=
  ⟨forall_mem_nil _, forall_mem_nil _, forall_mem_nil _, forall_mem_nil _⟩

theorem within_reads {reads : List Nat} :
    Log.Within bufferLength smsTextSize { reads := reads } ↔
      ∀ i ∈ reads, (i : Int) < bufferLength :=
  ⟨fun h => h.reads, fun h => ⟨h, nofun, nofun, nofun⟩⟩

/-- The septets that are still to be translated, and the byte behind them. -/
structure Ahead (text : Mem) (i n : Nat) (s : List UInt8) (behind : UInt8) : Prop where
  length : i + s.length = n
  septets : ∀ j (hj : j < s.length), text (i + j) = s[j] ∧ s[j].toNat < 128
  behind : text n = behind

variable {behind byte c d : UInt8}

theorem Ahead.tail (h : Ahead text i n (c :: s) behind) :
    Ahead (Function.update text i byte) (i + 1) n s behind := by
  have hlength := h.length
  rw [length_cons] at hlength
  refine ⟨by omega, fun j hj => ?_, ?_⟩
  · have hseptet := h.septets (j + 1) (by simpa using hj)
    rw [Function.update_of_ne (by omega), Nat.add_assoc, Nat.add_comm 1 j]
    exact hseptet
  · rw [Function.update_of_ne (by omega)]
    exact h.behind

theorem Ahead.moved (byte : UInt8) (h : Ahead text i n (c :: d :: s) behind) :
    Ahead (moveDown (Function.update text i byte) (i + 1) (n - i - 1)) (i + 1) (n - 1) s
      behind := by
  have hlength := h.length
  simp only [length_cons] at hlength
  refine ⟨by omega, fun j hj => ?_, ?_⟩
  · have hseptet := h.septets (j + 2) (by simpa using hj)
    rw [moveDown, if_pos (by omega), Function.update_of_ne (by omega), Nat.add_assoc,
      Nat.add_assoc, Nat.add_left_comm 1 j 1]
    exact hseptet
  · rw [moveDown, if_pos (by omega), Function.update_of_ne (by omega)]
    have hn : n - 1 + 1 = n := by omega
    rw [hn]
    exact h.behind

theorem g7bitToAscii_nil (h : Ahead text i n [] behind) :
    g7bitToAscii text i n = ⟨text, n, [], [], []⟩ := by
  have hlength := h.length
  rw [length_nil] at hlength
  rw [g7bitToAscii, if_neg (by omega)]

theorem Ahead.head (h : Ahead text i n (c :: s) behind) :
    i < n ∧ text i = c ∧ text i < 128 := by
  have hlength := h.length
  rw [length_cons] at hlength
  obtain ⟨htext, hseptet⟩ := h.septets 0 (Nat.zero_lt_succ _)
  rw [Nat.add_zero, getElem_cons_zero] at htext
  rw [getElem_cons_zero] at hseptet
  exact ⟨by omega, htext, htext ▸ UInt8.lt_iff_toNat_lt.mpr hseptet⟩

theorem g7bitToAscii_plain (h : Ahead text i n (c :: s) behind) (hc : c ≠ gsm7bitsEscape) :
    g7bitToAscii text i n =
      let rest := g7bitToAscii
        (Function.update text i (gsm7bitsToLatin1.getD c.toNat 0)) (i + 1) n
      { rest with
        reads := i :: rest.reads, writes := i :: rest.writes, indexes := c :: rest.indexes } := by
  obtain ⟨hlt, htext, hseptet⟩ := h.head
  rw [g7bitToAscii, if_pos hlt, if_pos hseptet, htext, if_neg hc]

theorem g7bitToAscii_escape (h : Ahead text i n (gsm7bitsEscape :: s) behind) :
    g7bitToAscii text i n =
      let byte := gsm7bitsExtendToLatin1.getD (text (i + 1)).toNat 0
      let rest := g7bitToAscii (moveDown (Function.update text i byte) (i + 1) (n - i - 1)) (i + 1)
        (n - 1)
      { rest with
        reads := i :: (i + 1) :: (List.range' (i + 2) (n - i - 1) ++ rest.reads)
        writes := i :: (List.range' (i + 1) (n - i - 1) ++ rest.writes)
        indexes := text (i + 1) :: rest.indexes } := by
  obtain ⟨hlt, htext, hseptet⟩ := h.head
  rw [g7bitToAscii, if_pos hlt, if_pos hseptet, if_pos htext]

theorem mem_of_endsInEscape (h : endsInEscape s) : gsm7bitsEscape ∈ s := by
  induction s using endsInEscape.induct with
  | case1 => simp [endsInEscape] at h
  | case2 c => simpa [endsInEscape, eq_comm] using h
  | case3 d s ih => exact mem_cons_self
  | case4 c d s hc ih =>
    rw [endsInEscape, if_neg hc] at h
    exact mem_cons_of_mem _ (ih h)

/-- What the translation of a text leaves, reads and looks up: an escape needs the byte behind the
text, as a character when it is the last of them. -/
structure Translated (s : List UInt8) (behind : UInt8) (n size : Nat) (r : Rewritten) : Prop where
  length_le : r.length ≤ n
  writes : ∀ j ∈ r.writes, j < n
  reads : (∀ j ∈ r.reads, j < size) ↔ (gsm7bitsEscape ∈ s → n < size)
  indexes : (∀ c ∈ r.indexes, c.toNat < 128) ↔ (endsInEscape s → behind.toNat < 128)

theorem translated_plain {r : Rewritten} (hi : i < n) (hn : n ≤ size) (hc : c ≠ gsm7bitsEscape)
    (hseptet : c.toNat < 128) (hends : endsInEscape (c :: s) = endsInEscape s)
    (h : Translated s behind n size r) :
    Translated (c :: s) behind n size { r with
      reads := i :: r.reads, writes := i :: r.writes, indexes := c :: r.indexes } := by
  refine ⟨h.length_le, forall_mem_cons.mpr ⟨hi, h.writes⟩, ?_, ?_⟩
  · rw [forall_mem_cons, and_iff_right (by omega), h.reads, mem_cons,
      or_iff_right hc.symm]
  · rw [forall_mem_cons, and_iff_right hseptet, h.indexes, hends]

theorem translated_escape {r : Rewritten} (hi : i + 1 < n) (hd : d.toNat < 128)
    (h : Translated s behind (n - 1) size r) :
    Translated (gsm7bitsEscape :: d :: s) behind n size { r with
      reads := i :: (i + 1) :: (List.range' (i + 2) (n - i - 1) ++ r.reads)
      writes := i :: (List.range' (i + 1) (n - i - 1) ++ r.writes)
      indexes := d :: r.indexes } := by
  refine ⟨h.length_le.trans (Nat.sub_le _ _), ?_, ?_, ?_⟩
  · rw [forall_mem_cons, forall_mem_append]
    refine ⟨by omega, fun j hj => ?_, fun j hj => ?_⟩
    · have hmem := mem_range'_1.mp hj
      omega
    · have hlt := h.writes j hj
      omega
  · rw [forall_mem_cons, forall_mem_cons, forall_mem_append]
    constructor
    · -- the last byte that is moved stands behind the text
      rintro ⟨-, -, hmoved, -⟩ _
      exact hmoved n (mem_range'_1.mpr (by omega))
    · intro hroom
      have hlt := hroom mem_cons_self
      refine ⟨by omega, by omega, fun j hj => ?_, h.reads.mpr fun _ => by omega⟩
      have hmem := mem_range'_1.mp hj
      omega
  · rw [forall_mem_cons, and_iff_right hd, h.indexes, endsInEscape, if_pos rfl]

theorem g7bitToAscii_translated (h : Ahead text i n s behind) (hn : n ≤ size) :
    Translated s behind n size (g7bitToAscii text i n) := by
  induction s using endsInEscape.induct generalizing text i n with
  | case1 =>
    rw [g7bitToAscii_nil h]
    exact ⟨Nat.le_refl _, nofun, by simp, by simp [endsInEscape]⟩
  | case2 c =>
    by_cases hc : c = gsm7bitsEscape
    · subst hc
      have hlength := h.length
      rw [length_singleton] at hlength
      have hmoved : n - i - 1 = 0 := by omega
      -- nothing is left behind the escape
      rw [g7bitToAscii_escape h, hmoved, hlength, h.behind]
      dsimp only
      rw [g7bitToAscii, if_neg (by omega)]
      refine ⟨Nat.sub_le _ _, ?_, ?_, ?_⟩
      · simp
        omega
      · simp
        omega
      · simp [endsInEscape]
    · rw [g7bitToAscii_plain h hc]
      dsimp only
      rw [g7bitToAscii_nil h.tail]
      have hseptet := (h.septets 0 (by simp)).2
      exact translated_plain (s := []) (r := ⟨_, n, [], [], []⟩) h.head.1 hn hc hseptet
        (by simp [endsInEscape, hc]) ⟨Nat.le_refl _, nofun, by simp, by simp [endsInEscape]⟩
  | case3 d s ih =>
    have hlength := h.length
    simp only [length_cons] at hlength
    have hrest := ih (h.moved (gsm7bitsExtendToLatin1.getD (text (i + 1)).toNat 0))
      (by omega)
    obtain ⟨hd, hd_lt⟩ := h.septets 1 (by simp)
    rw [getElem_cons_succ, getElem_cons_zero] at hd hd_lt
    rw [g7bitToAscii_escape h, hd]
    rw [hd] at hrest
    exact translated_escape (by omega) hd_lt hrest
  | case4 c d s hc ih =>
    rw [g7bitToAscii_plain h hc]
    have hseptet := (h.septets 0 (by simp)).2
    exact translated_plain h.head.1 hn hc hseptet (by rw [endsInEscape, if_neg hc])
      (ih h.tail hn)

theorem ahead_put (text : Mem) (hs : ∀ x ∈ s, x.toNat < 128) :
    Ahead (put text 0 (s.map some)) 0 s.length s (text s.length) := by
  refine ⟨Nat.zero_add _, fun j hj => ⟨?_, hs _ (getElem_mem hj)⟩, ?_⟩
  · simp [put, hj]
  · exact put_of_not_mem (.inr (Nat.zero_add _).le)

theorem septets_lt (buffer : Buffer) (bufferLength : Int) (n : Nat) :
    ∀ x ∈ septets buffer bufferLength n, x.toNat < 128 := by
  intro x hx
  obtain ⟨m, -, rfl⟩ := List.mem_map.mp hx
  exact unpack_lt

theorem length_septets : (septets buffer bufferLength n).length = n := by
  rw [septets, length_map, length_range]

theorem decode_some (h : (smsStart buffer + 2 : Nat) ≤ bufferLength) :
    (decodePDUMessage (fun i => buffer (smsStart buffer + 1 + i))
        (bufferLength - (smsStart buffer + 1 : Nat)).toNat n).text =
      septets buffer bufferLength (max 1 (min n (capacity (textBytes buffer bufferLength)))) ∧
    ∀ i ∈ (decodePDUMessage (fun i => buffer (smsStart buffer + 1 + i))
        (bufferLength - (smsStart buffer + 1 : Nat)).toNat n).reads,
      ((smsStart buffer + 1 + i : Nat) : Int) < bufferLength := by
  have hpos : 0 < textBytes buffer bufferLength := by
    rw [textBytes]
    omega
  obtain ⟨htext, hreads⟩ := decode_eq (fun i => buffer (smsStart buffer + 1 + i))
    (n := n) hpos
  refine ⟨htext, fun i hi => ?_⟩
  have hlt := hreads i hi
  rw [textBytes] at hlt
  omega

theorem decode_none (h : bufferLength = (smsStart buffer + 1 : Nat)) :
    decodePDUMessage (fun i => buffer (smsStart buffer + 1 + i))
        (bufferLength - (smsStart buffer + 1 : Nat)).toNat n =
      if n > 1 then ⟨[UInt8.ofNat ((buffer (smsStart buffer + 1)).toNat >>> 7)], [0]⟩
      else ⟨[], []⟩ := by
  have hzero : (bufferLength - (smsStart buffer + 1 : Nat)).toNat = 0 := by omega
  rw [hzero, decodePDUMessage, if_neg (Nat.lt_irrefl 0)]
  dsimp only
  split
  next hn =>
    rw [length_nil, decodeLoop, if_neg (by decide), if_pos (by omega)]
    rfl
  next hn => rfl

theorem sevenBit_within_iff (hn : n ≤ smsTextSize) (hsize : 0 < smsTextSize)
    (hstart : (smsStart buffer + 1 : Nat) ≤ bufferLength) :
    (sevenBit buffer bufferLength (smsStart buffer) n text).log.Within bufferLength smsTextSize ↔
      (2 ≤ n → (smsStart buffer + 2 : Nat) ≤ bufferLength) ∧
      (1 ≤ n → n ≤ capacity (textBytes buffer bufferLength) →
        gsm7bitsEscape ∈ septets buffer bufferLength n →
        n < smsTextSize ∧
          (endsInEscape (septets buffer bufferLength n) → (text n).toNat < 128)) := by
  rw [sevenBit]
  dsimp only
  by_cases hbytes : (smsStart buffer + 2 : Nat) ≤ bufferLength
  · obtain ⟨htext, hreads⟩ := decode_some (n := n) hbytes
    generalize decodePDUMessage _ _ n = split at htext hreads
    have hlength : split.text.length =
        max 1 (min n (capacity (textBytes buffer bufferLength))) := by
      rw [htext, length_septets]
    have hlog : Log.Within bufferLength smsTextSize
        { reads := split.reads.map (smsStart buffer + 1 + ·)
          textWrites := List.range split.text.length } := by
      refine ⟨List.forall_mem_map.mpr hreads, forall_mem_nil _, fun i hi => ?_,
        forall_mem_nil _⟩
      have hlt := mem_range.mp hi
      omega
    by_cases hall : split.text.length = n
    · have hseptets : split.text = septets buffer bufferLength n := by
        rw [htext, ← hlength, hall]
      have hahead := ahead_put text (septets_lt buffer bufferLength n)
      rw [length_septets] at hahead
      have htranslated := g7bitToAscii_translated hahead hn
      rw [if_neg (not_not.mpr hall), within_append, and_iff_right hlog, hseptets]
      generalize g7bitToAscii _ 0 n = ascii at htranslated
      have hone : 1 ≤ n := by omega
      have hsome : 1 ≤ capacity (textBytes buffer bufferLength) := by
        rw [capacity, textBytes]
        omega
      have hcapacity : n ≤ capacity (textBytes buffer bufferLength) := by omega
      constructor
      · intro h
        exact ⟨fun _ => hbytes, fun _ _ hescape => ⟨htranslated.reads.mp h.textReads hescape,
          htranslated.indexes.mp h.indexes⟩⟩
      · rintro ⟨-, hescape⟩
        exact ⟨forall_mem_nil _,
          htranslated.reads.mpr fun hmem => (hescape hone hcapacity hmem).1,
          fun i hi => (htranslated.writes i hi).trans_le hn,
          htranslated.indexes.mpr fun hends =>
            (hescape hone hcapacity (mem_of_endsInEscape hends)).2 hends⟩
    · rw [if_pos hall]
      refine iff_of_true hlog ⟨fun _ => hbytes, fun hone hcapacity => ?_⟩
      omega
  · have hend : bufferLength = (smsStart buffer + 1 : Nat) := by omega
    have hcapacity : capacity (textBytes buffer bufferLength) = 0 := by
      have hzero : textBytes buffer bufferLength = 0 := by
        rw [textBytes]
        omega
      rw [hzero]
      rfl
    rw [decode_none hend, hcapacity]
    by_cases hn' : n > 1
    · rw [if_pos hn', if_pos (by simp; omega)]
      refine iff_of_false (fun h => ?_) (fun h => hbytes (h.1 hn'))
      have hread := h.reads (smsStart buffer + 1) (mem_singleton_self _)
      omega
    · rw [if_neg hn']
      refine iff_of_true ?_ ⟨fun hmore => absurd hmore (by omega), fun hone hnone => by omega⟩
      by_cases hzero : n = 0
      · subst hzero
        rw [if_neg (by simp), g7bitToAscii, if_neg (by omega)]
        exact within_empty
      · rw [if_pos (by simp; omega)]
        exact within_empty

theorem ucs2_within_iff (hn : n ≤ smsTextSize) (hstart : (start + 1 : Nat) ≤ bufferLength) :
    (ucs2 buffer start n text).log.Within bufferLength smsTextSize ↔
      (start + 1 + n : Nat) ≤ bufferLength := by
  constructor
  · intro h
    by_cases hzero : n = 0
    · omega
    · have hlast := h.reads (start + n) (mem_range'_1.mpr (by omega))
      omega
  · intro h
    refine ⟨fun i hi => ?_, nofun, fun i hi => ?_, nofun⟩
    · have hmem := mem_range'_1.mp hi
      omega
    · have hlt := mem_range.mp hi
      omega

/-- `Sound` for what is behind the length of the text. -/
def SoundText (buffer : Buffer) (bufferLength : Int) (smsTextSize n : Nat) (text : Mem) : Prop :=
  (alphabet buffer = 0 → (2 ≤ n → (smsStart buffer + 2 : Nat) ≤ bufferLength) ∧
    (1 ≤ n → n ≤ capacity (textBytes buffer bufferLength) →
      gsm7bitsEscape ∈ septets buffer bufferLength n →
      n < smsTextSize ∧
        (endsInEscape (septets buffer bufferLength n) → (text n).toNat < 128))) ∧
  (alphabet buffer = 2 → (smsStart buffer + 1 + n : Nat) ≤ bufferLength)

theorem decodeText_within_iff (hn : n ≤ smsTextSize) (hsize : 0 < smsTextSize)
    (hstart : (smsStart buffer + 1 : Nat) ≤ bufferLength) :
    (decodeText buffer bufferLength (smsStart buffer) (buffer (pidStart buffer + 1)) n
        text).log.Within bufferLength smsTextSize ↔
      SoundText buffer bufferLength smsTextSize n text := by
  rw [decodeText, SoundText, alphabet]
  split
  next hseven =>
    rw [sevenBit_within_iff hn hsize hstart, hseven]
    simp
  next hucs2 =>
    rw [ucs2_within_iff hn hstart, hucs2]
    simp
  next hseven hucs2 =>
    refine iff_of_true within_empty ⟨fun h => absurd h hseven,
      fun h => absurd h hucs2⟩

theorem g7bitToAscii_length_le (text : Mem) (i n : Nat) : (g7bitToAscii text i n).length ≤ n := by
  induction text, i, n using g7bitToAscii.induct with
  | case1 text i n hlt hseptet hescape m byte ih =>
    rw [g7bitToAscii, if_pos hlt, if_pos hseptet, if_pos hescape]
    exact ih.trans (Nat.sub_le _ _)
  | case2 text i n hlt hseptet hescape byte ih =>
    rw [g7bitToAscii, if_pos hlt, if_pos hseptet, if_neg hescape]
    exact ih
  | case3 text i n hlt hseptet ih =>
    rw [g7bitToAscii, if_pos hlt, if_neg hseptet]
    exact ih
  | case4 text i n hlt =>
    rw [g7bitToAscii, if_neg hlt]

theorem decodeText_length_le {tpDcs : UInt8} {m : Nat}
    (h : (decodeText buffer bufferLength start tpDcs n text).length = some m) : m ≤ n := by
  rw [decodeText] at h
  split at h
  next =>
    rw [sevenBit] at h
    dsimp only at h
    split at h
    · exact absurd h (by simp)
    · obtain rfl := Option.some.inj h
      exact g7bitToAscii_length_le _ _ _
  next => exact (Option.some.inj h).symm.le
  next => exact (Option.some.inj h).symm.le

theorem stringEnd_lt (h : 0 < smsTextSize) : stringEnd n smsTextSize < smsTextSize := by
  rw [stringEnd]
  split <;> omega

theorem readText_safe_iff {outputs : Outputs} (hsize : 0 < smsTextSize)
    (hstart : (smsStart buffer + 1 : Nat) ≤ bufferLength)
    (hlog : log.Within bufferLength smsTextSize)
    (hnumber : outputs.senderPhoneNumber.length ≤ senderPhoneNumberSize) :
    Safe bufferLength senderPhoneNumberSize smsTextSize
        (readText buffer bufferLength smsTextSize outputs log) ↔
      ((buffer (smsStart buffer)).toNat ≤ smsTextSize →
        SoundText buffer bufferLength smsTextSize (buffer (smsStart buffer)).toNat
          outputs.smsText) := by
  have hbefore : pidStart buffer + 1 < smsStart buffer := by
    rw [smsStart]
    omega
  have hlength : (log.append { reads := [smsStart buffer] }).Within bufferLength smsTextSize :=
    within_append.mpr ⟨hlog, within_reads.mpr (forall_mem_singleton.mpr (by omega))⟩
  rw [readText]
  dsimp only
  by_cases hlong : smsTextSize < (buffer (smsStart buffer)).toNat
  · rw [if_pos hlong]
    exact iff_of_true ⟨hlength, hnumber, .inl (by simp)⟩ fun hshort => absurd hshort (by omega)
  have hshort : (buffer (smsStart buffer)).toNat ≤ smsTextSize := by omega
  have hdcs : Log.Within bufferLength smsTextSize
      ((log.append { reads := [smsStart buffer] }).append { reads := [pidStart buffer + 1] }) :=
    within_append.mpr ⟨hlength, within_reads.mpr (forall_mem_singleton.mpr (by omega))⟩
  rw [if_neg hlong, ← decodeText_within_iff hshort hsize hstart]
  have hle : ∀ m, (decodeText buffer bufferLength (smsStart buffer) (buffer (pidStart buffer + 1))
      (buffer (smsStart buffer)).toNat outputs.smsText).length = some m →
      m ≤ (buffer (smsStart buffer)).toNat := fun m hm => decodeText_length_le hm
  generalize decodeText _ _ _ _ _ outputs.smsText = decoded at hle
  cases hdecoded : decoded.length with
  | none =>
    constructor
    · intro h _
      exact (within_append.mp h.log).2
    · intro h
      exact ⟨within_append.mpr ⟨hdcs, h hshort⟩, hnumber, .inl (by simp)⟩
  | some m =>
    have hm := hle m hdecoded
    constructor
    · intro h _
      exact (within_append.mp (within_append.mp h.log).1).2
    · intro h
      have hlast : Log.Within bufferLength smsTextSize
          { textWrites := [stringEnd m smsTextSize] } :=
        ⟨nofun, nofun, forall_mem_singleton.mpr (stringEnd_lt hsize), nofun⟩
      exact ⟨within_append.mpr ⟨within_append.mpr ⟨hdcs, h hshort⟩, hlast⟩, hnumber,
        .inr (by dsimp only; omega)⟩

theorem readHeader_within_iff {outputs : Outputs}
    (hstart : (smsStart buffer + 1 : Nat) ≤ bufferLength) :
    Log.Within bufferLength smsTextSize { reads := (readHeader buffer outputs).2 } ↔
      (HasHeader buffer →
        (smsStart buffer + 2 + (buffer (smsStart buffer + 1)).toNat : Nat) ≤ bufferLength) := by
  rw [within_reads, readHeader]
  dsimp only
  by_cases hheader : HasHeader buffer
  · rw [if_pos hheader]
    simp only [forall_mem_cons]
    constructor
    · rintro ⟨-, -, -, hlast, -⟩ _
      omega
    · intro h
      have hlast := h hheader
      exact ⟨by omega, by omega, by omega, by omega, nofun⟩
  · rw [if_neg hheader]
    exact iff_of_true nofun fun h => absurd h hheader

theorem readHeader_outputs {outputs : Outputs} :
    (readHeader buffer outputs).1.senderPhoneNumber = outputs.senderPhoneNumber ∧
      (readHeader buffer outputs).1.smsText = outputs.smsText := by
  rw [readHeader]
  dsimp only
  split <;> exact ⟨rfl, rfl⟩

theorem senderNumber_bounds (buffer : Buffer) (typeOfAddress : UInt8) (n : Nat) :
    (∀ i ∈ (senderNumber buffer typeOfAddress n).2, i < (n + 1) / 2) ∧
      (senderNumber buffer typeOfAddress n).1.length ≤ n + 1 := by
  rw [senderNumber]
  dsimp only
  by_cases halpha : typeOfAddress = typeOfAddressAlphanumeric
  · rw [if_pos halpha]
    by_cases hzero : n = 0
    · subst hzero
      exact ⟨nofun, Nat.zero_le _⟩
    · obtain ⟨htext, hreads⟩ := decode_eq buffer (l := (n + 1) / 2) (n := n) (by omega)
      refine ⟨hreads, ?_⟩
      dsimp only
      rw [htext, length_map, length_range]
      omega
  · rw [if_neg halpha, decodePhoneNumber]
    refine ⟨List.forall_mem_map.mpr fun i hi => ?_, by simp⟩
    have hlt := mem_range.mp hi
    omega

theorem within_of_readText {outputs : Outputs}
    (h : (readText buffer bufferLength smsTextSize outputs log).log.Within bufferLength
      smsTextSize) : log.Within bufferLength smsTextSize := by
  rw [readText] at h
  dsimp only at h
  split at h
  · exact (within_append.mp h).1
  · split at h
    · exact (within_append.mp (within_append.mp (within_append.mp h).1).1).1
    · exact (within_append.mp (within_append.mp (within_append.mp (within_append.mp h).1).1).1).1

theorem stamp_within_iff (smsTextSize : Nat) (hpos : 0 < bufferLength) {reads : List Nat}
    (hreads : ∀ i ∈ reads, i < (senderLength buffer + 1) / 2) :
    Log.Within bufferLength smsTextSize
        ((Log.append { reads := [0] }
          { reads := [deliverStart buffer, deliverStart buffer + 1] }).append
          { reads := (deliverStart buffer + 2) :: (reads.map (deliverStart buffer + 3 + ·) ++
            List.range' (pidStart buffer + 2) 6) }) ↔
      (pidStart buffer + 8 : Nat) ≤ bufferLength := by
  rw [within_append, within_append, within_reads, within_reads, within_reads]
  constructor
  · rintro ⟨-, h⟩
    have hlast := h (pidStart buffer + 7)
      (mem_cons_of_mem _ (mem_append_right _ (mem_range'_1.mpr (by omega))))
    omega
  · intro h
    have hpid : pidStart buffer = deliverStart buffer + 3 + (senderLength buffer + 1) / 2 := rfl
    simp only [forall_mem_cons, forall_mem_append, List.forall_mem_map]
    refine ⟨⟨⟨by omega, nofun⟩, by omega, by omega, nofun⟩, by omega, fun i hi => ?_,
      fun i hi => ?_⟩
    · have hlt := hreads i hi
      omega
    · have hmem := mem_range'_1.mp hi
      omega

theorem sound_of_not_addressed (h : ¬Addressed buffer bufferLength senderPhoneNumberSize)
    (hsender : 0 < bufferLength → (deliverStart buffer + 1 : Nat) ≤ bufferLength →
      (deliverStart buffer + 2 : Nat) ≤ bufferLength) :
    Sound buffer bufferLength senderPhoneNumberSize smsTextSize text :=
  ⟨hsender, fun ha => absurd ha h, fun ha => absurd ha h, fun ha => absurd ha.toAddressed h,
    fun ha => absurd ha.toAddressed h, fun ha => absurd ha.toAddressed h⟩

theorem sound_iff (h : Addressed buffer bufferLength senderPhoneNumberSize) :
    Sound buffer bufferLength senderPhoneNumberSize smsTextSize text ↔
      (pidStart buffer + 8 : Nat) ≤ bufferLength ∧
        ((smsStart buffer + 1 : Nat) ≤ bufferLength →
          (HasHeader buffer →
            (smsStart buffer + 2 + (buffer (smsStart buffer + 1)).toNat : Nat) ≤ bufferLength) ∧
          ((buffer (smsStart buffer)).toNat ≤ smsTextSize →
            SoundText buffer bufferLength smsTextSize (buffer (smsStart buffer)).toNat text)) := by
  constructor
  · intro hs
    refine ⟨hs.stamp h, fun hstart => ⟨hs.header h hstart, fun hlength => ?_⟩⟩
    have htext : HasText buffer bufferLength senderPhoneNumberSize smsTextSize :=
      ⟨h, hstart, hlength⟩
    exact ⟨fun hseven => ⟨hs.sevenBit htext hseven, hs.escape htext hseven⟩, hs.ucs2 htext⟩
  · rintro ⟨hstamp, hrest⟩
    have hpid : pidStart buffer = deliverStart buffer + 3 + (senderLength buffer + 1) / 2 := rfl
    exact ⟨fun _ _ => by omega, fun _ => hstamp, fun _ hstart => (hrest hstart).1,
      fun ht hseven => (((hrest ht.start).2 ht.length).1 hseven).1,
      fun ht hseven => (((hrest ht.start).2 ht.length).1 hseven).2,
      fun ht => ((hrest ht.start).2 ht.length).2⟩

/-- All calls: a PDU is decoded safely just when it is sound. -/
theorem pduDecode_safe_iff (buffer : Buffer) (bufferLength : Int)
    (senderPhoneNumberSize smsTextSize : Nat) (text : Mem) (hsize : 0 < smsTextSize) :
    Safe bufferLength senderPhoneNumberSize smsTextSize
        (pduDecode buffer bufferLength senderPhoneNumberSize smsTextSize text) ↔
      Sound buffer bufferLength senderPhoneNumberSize smsTextSize text := by
  rw [pduDecode]
  dsimp only
  by_cases hempty : bufferLength ≤ 0
  · rw [if_pos hempty]
    refine iff_of_true ⟨within_empty, Nat.zero_le _, .inl (by simp)⟩ ?_
    exact sound_of_not_addressed (fun h => absurd h.pos (by omega)) fun hpos => by omega
  have hpos : 0 < bufferLength := by omega
  have hzero : Log.Within bufferLength smsTextSize { reads := [0] } :=
    within_reads.mpr (forall_mem_singleton.mpr (by omega))
  rw [if_neg hempty]
  by_cases hdeliver : (deliverStart buffer : Int) + 1 > bufferLength
  · rw [if_pos hdeliver]
    refine iff_of_true ⟨hzero, Nat.zero_le _, .inl (by simp)⟩ ?_
    exact sound_of_not_addressed (fun h => absurd h.deliver (by omega)) fun _ hle => by omega
  rw [if_neg hdeliver]
  by_cases hsender : senderLength buffer + 1 > senderPhoneNumberSize
  · rw [if_pos hsender]
    have hnot : ¬Addressed buffer bufferLength senderPhoneNumberSize :=
      fun h => absurd h.sender (by omega)
    constructor
    · intro h
      have hread := (within_append.mp h.log).2.reads (deliverStart buffer + 1) (by simp)
      exact sound_of_not_addressed hnot fun _ _ => by omega
    · intro h
      have hle := h.sender hpos (by omega)
      refine ⟨within_append.mpr ⟨hzero, within_reads.mpr ?_⟩, Nat.zero_le _, .inl (by simp)⟩
      simp only [forall_mem_cons]
      exact ⟨by omega, by omega, nofun⟩
  have haddressed : Addressed buffer bufferLength senderPhoneNumberSize :=
    ⟨hpos, by omega, by omega⟩
  obtain ⟨hreads, hnumber⟩ := senderNumber_bounds
    (fun i => buffer (deliverStart buffer + 3 + i)) (buffer (deliverStart buffer + 2))
    (senderLength buffer)
  have hnumber' := hnumber.trans haddressed.sender
  have hstamp := stamp_within_iff smsTextSize hpos hreads
  rw [if_neg hsender, sound_iff haddressed]
  by_cases hstart : (smsStart buffer : Int) + 1 > bufferLength
  · rw [if_pos hstart]
    constructor
    · intro h
      exact ⟨hstamp.mp h.log, fun hle => by omega⟩
    · intro h
      exact ⟨hstamp.mpr h.1, hnumber', .inl (by simp)⟩
  have hstart : (smsStart buffer + 1 : Nat) ≤ bufferLength := by omega
  have hpid : smsStart buffer = pidStart buffer + 2 + 7 := rfl
  have hbefore := hstamp.mpr (by omega)
  rw [if_neg (by omega), and_iff_right (by omega), forall_prop_of_true hstart]
  by_cases hheader : HasHeader buffer →
      (smsStart buffer + 2 + (buffer (smsStart buffer + 1)).toNat : Nat) ≤ bufferLength
  · rw [and_iff_right hheader]
    refine (readText_safe_iff hsize hstart
      (within_append.mpr ⟨hbefore, (readHeader_within_iff hstart).mpr hheader⟩) ?_).trans ?_
    · rw [readHeader_outputs.1]
      exact hnumber'
    · rw [readHeader_outputs.2]
  · refine iff_of_false (fun h => ?_) fun h => hheader h.1
    have hlog := within_of_readText h.log
    exact hheader ((readHeader_within_iff hstart).mp (within_append.mp hlog).2)

def oneCharacter : List UInt8 :=
  [0x00, 0x04, 0x02, 0x91, 0x21, 0x00, 0x08, 0x02, 0x80, 0x62, 0x91, 0x73, 0x14, 0x08,
    0x02, 0x00, 0x41]

theorem pduDecode_safe_oneCharacter :
    Safe 17 40 161 (pduDecode (fun i => oneCharacter.getD i 0) 17 40 161 fun _ => 0) := by
  refine (pduDecode_safe_iff _ 17 40 161 _ (by decide)).mpr ?_
  exact ⟨fun _ _ => by decide, fun _ => by decide, fun _ _ h => absurd h (by decide),
    fun _ h => absurd h (by decide), fun _ h => absurd h (by decide), fun _ _ => by decide⟩

/-- A PDU of a service center and a type only: the length of the sender is read behind it. -/
theorem pduDecode_not_safe :
    ¬Safe 2 40 161 (pduDecode (fun _ => 0) 2 40 161 fun _ => 0) := by
  intro h
  have hread := h.log.reads 2 (by decide)
  exact absurd hread (by decide)

end ModemSupport.Sendat.PduDecode
