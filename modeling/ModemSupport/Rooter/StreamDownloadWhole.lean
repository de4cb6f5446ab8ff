import ModemSupport.Rooter.StreamDownload

/-! Which packets of the stream download are sent and received as they are. -/

namespace ModemSupport.Rooter.StreamDownload

open Lib.Memory Lib.Stuffing List Option

variable {flag escape : Bool} {cmd b : UInt8} {parameter data packet p q bs rest : List UInt8}
  {buffer : Mem} {i j k n idx index len : Nat} {reads : List Read} {blocks : List (List UInt8)}

def SentWhole (flag : Bool) (cmd : UInt8) (parameter data : List UInt8) : Prop :=
  ∃ sent, transmit flag cmd parameter data = some sent ∧
    hdlc.unescape false (hdlc.strip sent) =
      cmd :: parameter ++ data ++ crcBytes (cmd :: parameter ++ data)

def HasRoom (flag : Bool) (cmd : UInt8) (parameter data : List UInt8) : Prop :=
  (if flag then 2 else 1) + (parameter.length + data.length + 3) +
      hdlc.specials (cmd :: parameter ++ data ++ crcBytes (cmd :: parameter ++ data)) ≤ bufferSize

theorem length_frame : (frame flag packet).length =
    (if flag then 2 else 1) + packet.length + hdlc.specials packet := by
  rw [frame, length_append, length_append, Code.length_flatMap_escape,
    length_singleton]
  cases flag
  · show 0 + _ + _ = 1 + _ + _
    omega
  · show 1 + _ + _ = 2 + _ + _
    omega

theorem unescape_frame (hne : packet ≠ []) :
    hdlc.unescape false (hdlc.strip (frame flag packet)) = packet := by
  have hbody : packet.flatMap hdlc.escape ≠ [] := by
    intro h
    have hlen := congrArg List.length h
    rw [Code.length_flatMap_escape, length_nil] at hlen
    exact hne (length_eq_zero_iff.mp (by omega))
  rw [frame, Code.strip_of_notMem ?_ ?_ hbody Code.flag_notMem_flatMap, Code.unescape_flatMap]
  · intro a ha
    cases flag with
    | false => cases ha
    | true => exact mem_singleton.mp ha
  · exact fun a ha => mem_singleton.mp ha

theorem sentWhole_iff : SentWhole flag cmd parameter data ↔ HasRoom flag cmd parameter data := by
  have hlen : (cmd :: parameter ++ data).length = parameter.length + data.length + 1 := by
    rw [length_append, length_cons]
    omega
  have hcrc : (cmd :: parameter ++ data ++ crcBytes (cmd :: parameter ++ data)).length =
      parameter.length + data.length + 3 := by
    rw [length_append, hlen]
    rfl
  have hframe : (frame flag (cmd :: parameter ++ data ++
      crcBytes (cmd :: parameter ++ data))).length = (if flag then 2 else 1) +
        (parameter.length + data.length + 3) +
          hdlc.specials (cmd :: parameter ++ data ++ crcBytes (cmd :: parameter ++ data)) := by
    rw [length_frame, hcrc]
  rw [SentWhole, HasRoom, ← hframe]
  constructor
  · rintro ⟨sent, hsent, -⟩
    rw [transmit, composePacket] at hsent
    cases hstore : store (cmd :: parameter ++ data ++ [0]) with
    | none => rw [hstore] at hsent; cases hsent
    | some _ =>
      rw [hstore] at hsent
      simp only [map_some, bind_eq_bind, bind_some] at hsent
      cases hcrc : computeReplyCrc (cmd :: parameter ++ data) with
      | none => rw [hcrc] at hsent; cases hsent
      | some packet =>
        rw [hcrc, bind_some, sendPacket, store] at hsent
        rw [computeReplyCrc, store] at hcrc
        split at hcrc
        case isFalse => cases hcrc
        case isTrue =>
          obtain rfl := some.inj hcrc
          by_contra hlarge
          rw [if_neg hlarge] at hsent
          cases hsent
  · intro hroom
    have hfirst : (cmd :: parameter ++ data ++ [0]).length ≤ bufferSize := by
      rw [length_append, hlen, length_singleton]
      rw [hframe] at hroom
      split at hroom
      · omega
      · omega
    have hsecond : (cmd :: parameter ++ data ++ crcBytes (cmd :: parameter ++ data)).length ≤
        bufferSize := by
      rw [hcrc]
      rw [hframe] at hroom
      split at hroom
      · omega
      · omega
    refine ⟨frame flag (cmd :: parameter ++ data ++ crcBytes (cmd :: parameter ++ data)), ?_,
      unescape_frame (cons_ne_nil _ _)⟩
    rw [transmit, composePacket, store, if_pos hfirst]
    simp only [map_some, bind_eq_bind, bind_some]
    rw [computeReplyCrc, store, if_pos hsecond, bind_some, sendPacket, store, if_pos hroom]

theorem slice_succ {m : Mem} : slice m i (k + 1) = m i :: slice m (i + 1) k := by
  rw [Nat.add_comm k 1, slice_append]
  rfl

theorem skipFlags_eq_none (h : skipFlags buffer k i = none) :
    ∀ j, i ≤ j → j < i + k → buffer j = 0x7E := by
  induction k generalizing i with
  | zero => exact fun j hj hj' => absurd hj (by omega)
  | succ k ih =>
    rw [skipFlags] at h
    split at h
    case isTrue hflag =>
      intro j hj hj'
      by_cases heq : j = i
      · rw [heq]
        exact hflag
      · exact ih h j (by omega) (by omega)
    case isFalse => cases h

theorem skipFlags_eq_some (h : skipFlags buffer k i = some j) :
    i ≤ j ∧ j < i + k ∧ buffer j ≠ 0x7E ∧ ∀ n, i ≤ n → n < j → buffer n = 0x7E := by
  induction k generalizing i with
  | zero => cases h
  | succ k ih =>
    rw [skipFlags] at h
    split at h
    case isTrue hflag =>
      obtain ⟨hge, hlt, hne, hall⟩ := ih h
      refine ⟨by omega, by omega, hne, fun n hn hn' => ?_⟩
      by_cases heq : n = i
      · rw [heq]
        exact hflag
      · exact hall n (by omega) hn'
    case isFalse hflag =>
      obtain rfl := some.inj h
      exact ⟨le_rfl, by omega, hflag, fun n hn hn' => absurd hn (not_le.mpr hn')⟩

theorem removeLoop_spec (buffer : Mem) (k : Nat) (escape : Bool) (h : index ≤ i) :
    (removeLoop buffer k i index escape).2 =
        index + (hdlc.unescape escape (slice buffer i k)).length ∧
      slice (removeLoop buffer k i index escape).1 index
        (hdlc.unescape escape (slice buffer i k)).length =
          hdlc.unescape escape (slice buffer i k) ∧
      ∀ j < index, (removeLoop buffer k i index escape).1 j = buffer j := by
  induction k generalizing buffer i index escape with
  | zero => exact ⟨rfl, rfl, fun j _ => rfl⟩
  | succ k ih =>
    rw [removeLoop, slice_succ, Code.unescape]
    by_cases hesc : buffer i = 0x7D
    · rw [if_pos hesc, if_pos (show buffer i = hdlc.esc from hesc)]
      exact ih buffer true (by omega)
    · have hbyte : (if escape then Function.update buffer i (buffer i ^^^ 0x20) else buffer) i =
          if escape = true then hdlc.mask (buffer i) else buffer i := by
        cases escape with
        | false => rfl
        | true =>
          rw [if_pos rfl, if_pos rfl, Function.update_self, UInt8.xor_comm]
          rfl
      have hother : ∀ j, j ≠ i → (if escape then Function.update buffer i (buffer i ^^^ 0x20)
          else buffer) j = buffer j := by
        intro j hj
        cases escape with
        | false => rfl
        | true => exact Function.update_of_ne hj _ _
      rw [if_neg hesc, if_neg (show ¬ buffer i = hdlc.esc from hesc), ← hbyte]
      generalize (if escape then Function.update buffer i (buffer i ^^^ 0x20) else buffer) = buffer'
        at hbyte hother ⊢
      have hslice : slice (Function.update buffer' index (buffer' i)) (i + 1) k =
          slice buffer (i + 1) k := slice_congr fun j hj _ => by
        rw [Function.update_of_ne (by omega), hother j (by omega)]
      obtain ⟨hlen, hout, hbefore⟩ := ih (Function.update buffer' index (buffer' i)) false
        (show index + 1 ≤ i + 1 by omega)
      rw [hslice] at hlen hout
      refine ⟨?_, ?_, fun j hj => ?_⟩
      · rw [hlen, length_cons]
        omega
      · rw [length_cons, slice_succ, hout, hbefore index (Nat.lt_succ_self index),
          Function.update_self]
      · rw [hbefore j (by omega), Function.update_of_ne (by omega), hother j (by omega)]

theorem slice_split {m : Mem} (h : 0 < n) :
    slice m i n = slice m i (n - 1) ++ [m (i + (n - 1))] := by
  obtain ⟨n, rfl⟩ := Nat.exists_eq_succ_of_ne_zero h.ne'
  rw [Nat.succ_eq_add_one, slice_append, Nat.add_sub_cancel]
  rfl

theorem mem_slice {m : Mem} : b ∈ slice m i n ↔ ∃ j, i ≤ j ∧ j < i + n ∧ m j = b := by
  rw [slice, List.mem_map]
  constructor
  · rintro ⟨j, hj, rfl⟩
    rw [mem_range] at hj
    exact ⟨i + j, by omega, by omega, rfl⟩
  · rintro ⟨j, hj, hj', rfl⟩
    exact ⟨j - i, mem_range.mpr (by omega), by rw [show i + (j - i) = j by omega]⟩

theorem removeEscape_flags (hlen : 0 < len) (hall : ∀ j < len, buffer j = 0x7E) :
    ((∀ j < bufferSize, buffer j = 0x7E) → removeEscapeHdlcFlag buffer len = none) ∧
      ((∃ j < bufferSize, buffer j ≠ 0x7E) → removeEscapeHdlcFlag buffer len =
        some (if buffer len = 0x7E then Function.update buffer 0 0 else buffer, 0)) := by
  rw [removeEscapeHdlcFlag, if_neg hlen.ne']
  cases hskip : skipFlags buffer bufferSize 0 with
  | none =>
    refine ⟨fun _ => rfl, ?_⟩
    rintro ⟨j, hj, hne⟩
    exact absurd (skipFlags_eq_none hskip j (Nat.zero_le j) (by omega)) hne
  | some i =>
    obtain ⟨-, hlt, hne, hbefore⟩ := skipFlags_eq_some hskip
    refine ⟨fun h => absurd (h i (by omega)) hne, fun _ => ?_⟩
    have hge : len ≤ i := by
      by_contra hlt'
      exact hne (hall i (by omega))
    rw [bind_some]
    by_cases heq : i = len
    · rw [if_pos heq, if_neg (heq ▸ hne)]
    · have hzero : len - i = 0 := by omega
      rw [if_neg heq, hzero, if_pos (hbefore len (Nat.zero_le len) (by omega))]
      rfl

theorem removeEscape_packet (hlen : len ≤ bufferSize) (hsome : ∃ j < len, buffer j ≠ 0x7E)
    (hlast : buffer (len - 1) = 0x7E) :
    ∃ i < len, buffer i ≠ 0x7E ∧ (∀ j < i, buffer j = 0x7E) ∧
      hdlc.unescape false (slice buffer i (len - i)) ≠ [] ∧
      ((hdlc.unescape false (slice buffer i (len - i))).length < bufferSize → ∃ m,
        removeEscapeHdlcFlag buffer len =
            some (m, (hdlc.unescape false (slice buffer i (len - i))).length) ∧
          slice m 0 (hdlc.unescape false (slice buffer i (len - i))).length =
            hdlc.unescape false (slice buffer i (len - i))) ∧
      (¬ (hdlc.unescape false (slice buffer i (len - i))).length < bufferSize →
        removeEscapeHdlcFlag buffer len = none) := by
  obtain ⟨j, hj, hne⟩ := hsome
  cases hskip : skipFlags buffer bufferSize 0 with
  | none => exact absurd (skipFlags_eq_none hskip j (Nat.zero_le j) (by omega)) hne
  | some i =>
    obtain ⟨-, hlt, hne', hbefore⟩ := skipFlags_eq_some hskip
    have hi : i < len := by
      by_contra hge
      exact hne (hbefore j (Nat.zero_le j) (by omega))
    obtain ⟨hindex, hout, -⟩ := removeLoop_spec buffer (len - i) false (Nat.zero_le i)
    rw [Nat.zero_add] at hindex
    refine ⟨i, hi, hne', fun j hj => hbefore j (Nat.zero_le j) hj, ?_, fun hroom => ?_,
      fun hroom => ?_⟩
    · rw [slice_split (by omega), show i + (len - i - 1) = len - 1 by omega, hlast]
      exact Code.unescape_ne_nil (by decide)
    · rw [removeEscapeHdlcFlag, if_neg (by omega), hskip, bind_some, if_neg (by omega)]
      simp only
      rw [hindex, if_pos hroom]
      refine ⟨_, rfl, (slice_congr fun j _ hj' => ?_).trans hout⟩
      rw [Nat.zero_add] at hj'
      exact Function.update_of_ne hj'.ne _ _
    · rw [removeEscapeHdlcFlag, if_neg (by omega), hskip, bind_some, if_neg (by omega)]
      simp only
      rw [hindex, if_neg hroom]

theorem length_unescape_lt_iff (hlen : len ≤ bufferSize) (hi : i < len) (hne : buffer i ≠ 0x7E)
    (hbefore : ∀ j < i, buffer j = 0x7E) :
    (hdlc.unescape false (slice buffer i (len - i))).length < bufferSize ↔
      ¬ (len = bufferSize ∧ buffer 0 ≠ 0x7E ∧ ∀ j < bufferSize, buffer j ≠ 0x7D) := by
  have hle : (hdlc.unescape false (slice buffer i (len - i))).length ≤ len - i :=
    Code.length_unescape_le.trans_eq length_slice
  have heq : (hdlc.unescape false (slice buffer i (len - i))).length = len - i ↔
      hdlc.esc ∉ slice buffer i (len - i) := by
    rw [← Code.length_unescape_eq_iff (e := false), length_slice]
  rw [lt_iff_not_ge]
  refine not_congr ⟨fun hge => ?_, ?_⟩
  · obtain rfl : i = 0 := by omega
    refine ⟨by omega, hne, fun j hj hesc => ?_⟩
    exact heq.mp (by omega) (mem_slice.mpr ⟨j, Nat.zero_le j, by omega, hesc⟩)
  · rintro ⟨rfl, hzero, hno⟩
    obtain rfl : i = 0 := by
      by_contra hpos
      exact hzero (hbefore 0 (Nat.pos_of_ne_zero hpos))
    rw [heq.mpr fun hmem => ?_]
    · exact le_rfl
    · obtain ⟨j, -, hj, hesc⟩ := mem_slice.mp hmem
      exact hno j (by omega) hesc

/-- The buffer and the number of bytes behind a read; an error takes the last byte back. -/
def held (buffer : Mem) (idx : Nat) : Read → Mem × Nat
  | .error => (buffer, idx - 1)
  | .bytes bs => (put buffer idx (bs.map some), idx + bs.length)

/-- A read has room, or is an error behind two bytes at least. -/
def Admits (idx : Nat) : Read → Prop
  | .error => 2 ≤ idx
  | .bytes bs => idx + bs.length ≤ bufferSize

/-- What is held ends with a flag: the buffer has something else than flags, and a packet that fills
it begins with a flag or has an escape. -/
def Ended (buffer : Mem) (idx : Nat) : Prop :=
  (∃ j < bufferSize, buffer j ≠ 0x7E) ∧
    ¬ (idx = bufferSize ∧ buffer 0 ≠ 0x7E ∧ ∀ j < bufferSize, buffer j ≠ 0x7D)

instance decidableFlags : Decidable (∀ j < idx, buffer j = 0x7E) := Nat.decidableBallLT idx _

/-- Every read up to the packet or a timeout is admitted, and what is held is well ended.  Flags
alone are no packet; the first of them is cleared when another one happens to stand behind them. -/
def Fits : List Read → (buffer : Mem) → (idx : Nat) → Prop
  | [], _, _ => True
  | .bytes [] :: _, _, _ => True
  | read :: reads, buffer, idx =>
    Admits idx read ∧
      let h := held buffer idx read
      if h.1 (h.2 - 1) = 0x7E then
        Ended h.1 h.2 ∧
          if ∀ j < h.2, h.1 j = 0x7E then
            Fits reads (if h.1 h.2 = 0x7E then Function.update h.1 0 0 else h.1) h.2
          else True
      else Fits reads h.1 h.2

theorem readAt_of_admits (buffer : Mem) {read : Read} (h : Admits idx read) :
    readAt buffer idx read = some (held buffer idx read) ∧
      (held buffer idx read).2 ≤ max idx bufferSize := by
  cases read with
  | error =>
    have hpos : idx ≠ 0 := by
      have : 2 ≤ idx := h
      omega
    refine ⟨by rw [readAt, if_neg hpos]; rfl, ?_⟩
    show idx - 1 ≤ _
    omega
  | bytes bs =>
    have hroom : idx + bs.length ≤ bufferSize := h
    exact ⟨by rw [readAt, if_pos hroom]; rfl, hroom.trans (le_max_right _ _)⟩

theorem admits_of_readAt {read : Read} (hread : read ≠ .bytes []) {r : Mem × Nat}
    (h : readAt buffer idx read = some r) (hpos : r.2 ≠ 0) :
    Admits idx read ∧ r = held buffer idx read := by
  cases read with
  | error =>
    rw [readAt] at h
    split at h
    case isTrue => cases h
    case isFalse hidx =>
      obtain rfl := some.inj h
      have : idx - 1 ≠ 0 := hpos
      exact ⟨show 2 ≤ idx by omega, rfl⟩
  | bytes bs =>
    rw [readAt] at h
    split at h
    case isTrue hroom =>
      obtain rfl := some.inj h
      exact ⟨hroom, rfl⟩
    case isFalse => cases h

theorem held_pos (buffer : Mem) {read : Read} (hread : read ≠ .bytes []) (h : Admits idx read) :
    0 < (held buffer idx read).2 := by
  cases read with
  | error =>
    have : 2 ≤ idx := h
    show 0 < idx - 1
    omega
  | bytes bs =>
    have hlen : bs.length ≠ 0 := fun hz => hread (congrArg _ (length_eq_zero_iff.mp hz))
    show 0 < idx + bs.length
    omega

theorem receivePacket_cons {read : Read} (hread : read ≠ .bytes []) :
    receivePacket (read :: reads) buffer idx = (readAt buffer idx read).bind fun r =>
      if r.2 = 0 then none
      else if r.1 (r.2 - 1) = 0x7E then
        (removeEscapeHdlcFlag r.1 r.2).bind fun p =>
          if p.2 = 0 then receivePacket reads p.1 r.2 else some (p.1, .packet p.2)
      else receivePacket reads r.1 r.2 := by
  rw [receivePacket]
  exact fun h => hread h

theorem fits_cons {read : Read} (hread : read ≠ .bytes []) :
    Fits (read :: reads) buffer idx ↔ Admits idx read ∧
      if (held buffer idx read).1 ((held buffer idx read).2 - 1) = 0x7E then
        Ended (held buffer idx read).1 (held buffer idx read).2 ∧
          if ∀ j < (held buffer idx read).2, (held buffer idx read).1 j = 0x7E then
            Fits reads (if (held buffer idx read).1 (held buffer idx read).2 = 0x7E then
              Function.update (held buffer idx read).1 0 0 else (held buffer idx read).1)
              (held buffer idx read).2
          else True
      else Fits reads (held buffer idx read).1 (held buffer idx read).2 := by
  rw [Fits]
  exact fun h => hread h

theorem isSome_receivePacket_iff (hidx : idx ≤ bufferSize) :
    (receivePacket reads buffer idx).isSome ↔ Fits reads buffer idx := by
  induction reads generalizing buffer idx with
  | nil => exact iff_of_true rfl trivial
  | cons read reads ih =>
    by_cases hread : read = .bytes []
    · subst hread
      exact iff_of_true rfl trivial
    rw [receivePacket_cons hread, fits_cons hread]
    by_cases hadmits : Admits idx read
    · obtain ⟨hsome, hle⟩ := readAt_of_admits buffer hadmits
      have hpos := held_pos buffer hread hadmits
      rw [max_eq_right hidx] at hle
      rw [and_iff_right hadmits, hsome, bind_some]
      generalize held buffer idx read = h at hle hpos
      obtain ⟨buffer', idx'⟩ := h
      simp only at hle hpos ⊢
      rw [if_neg hpos.ne']
      by_cases hflag : buffer' (idx' - 1) = 0x7E
      · rw [if_pos hflag, if_pos hflag]
        by_cases hall : ∀ j < idx', buffer' j = 0x7E
        · rw [if_pos hall]
          obtain ⟨hnone, hsome'⟩ := removeEscape_flags hpos hall
          by_cases hother : ∃ j < bufferSize, buffer' j ≠ 0x7E
          · have hended : Ended buffer' idx' :=
              ⟨hother, fun hfull => hfull.2.1 (hall 0 hpos)⟩
            rw [and_iff_right hended, hsome' hother, bind_some, if_pos rfl]
            exact ih hle
          · have hflags : ∀ j < bufferSize, buffer' j = 0x7E := by
              intro j hj
              by_contra hne
              exact hother ⟨j, hj, hne⟩
            rw [hnone hflags]
            exact iff_of_false Bool.false_ne_true fun h => hother h.1.1
        · rw [if_neg hall, and_true]
          simp only [not_forall] at hall
          obtain ⟨j, hj, hne⟩ := hall
          obtain ⟨i, hi, hne', hbefore, hout, hroom, hfull⟩ :=
            removeEscape_packet hle ⟨j, hj, hne⟩ hflag
          have hlt := length_unescape_lt_iff hle hi hne' hbefore
          have hended : Ended buffer' idx' ↔
              (hdlc.unescape false (slice buffer' i (idx' - i))).length < bufferSize := by
            rw [hlt]
            exact and_iff_right ⟨j, by omega, hne⟩
          rw [hended]
          by_cases hsize : (hdlc.unescape false (slice buffer' i (idx' - i))).length < bufferSize
          · obtain ⟨m, hm, -⟩ := hroom hsize
            rw [hm, bind_some, if_neg fun hz => hout (length_eq_zero_iff.mp hz)]
            exact iff_of_true rfl hsize
          · rw [hfull hsize]
            exact iff_of_false Bool.false_ne_true hsize
      · rw [if_neg hflag, if_neg hflag]
        exact ih hle
    · refine iff_of_false (fun hsome => ?_) fun h => hadmits h.1
      cases hr : readAt buffer idx read with
      | none =>
        rw [hr] at hsome
        cases hsome
      | some r =>
        rw [hr, bind_some] at hsome
        by_cases hzero : r.2 = 0
        · rw [if_pos hzero] at hsome
          cases hsome
        · exact hadmits (admits_of_readAt hread hr hzero).1

/-- The reads of a packet's framing, in any pieces, give a packet that begins with it. -/
def ReceivedWhole (p : List UInt8) (blocks : List (List UInt8)) (buffer : Mem) : Prop :=
  ∃ m n, receivePacket (blocks.map .bytes) buffer 0 = some (m, .packet n) ∧ slice m 0 p.length = p

def finish (buffer : Mem) (len : Nat) : Option (Mem × Outcome) :=
  (removeEscapeHdlcFlag buffer len).bind fun r =>
    if r.2 = 0 then some (r.1, .waiting) else some (r.1, .packet r.2)

theorem slice_put (m : Mem) (idx : Nat) (bs : List UInt8) :
    slice (put m idx (bs.map some)) 0 (idx + bs.length) = slice m 0 idx ++ bs := by
  rw [slice_append, Nat.zero_add, slice_put_self, slice_put_of_apart (.inl (by omega))]

theorem apply_of_slice {m : Mem} {front : List UInt8} (h : slice m i n = front ++ [b]) :
    m (i + (n - 1)) = b := by
  have hlen := congrArg List.length h
  rw [length_slice, length_append, length_singleton] at hlen
  rw [slice_split (by omega)] at h
  exact singleton_inj.mp (append_inj_right' h rfl)

theorem receivePacket_of_large (hne : bs ≠ []) (h : bufferSize < idx + bs.length) :
    receivePacket (.bytes bs :: reads) buffer idx = none := by
  rw [receivePacket_cons fun heq => hne (Read.bytes.inj heq), readAt, if_neg (not_le.mpr h)]
  rfl

theorem receivePacket_inner {front : List UInt8} (hb : b ≠ 0x7E)
    (h : idx + (front ++ [b]).length ≤ bufferSize) :
    receivePacket (.bytes (front ++ [b]) :: reads) buffer idx =
      receivePacket reads (put buffer idx ((front ++ [b]).map some))
        (idx + (front ++ [b]).length) := by
  have hne : Read.bytes (front ++ [b]) ≠ .bytes [] := by simp
  have hlen : (front ++ [b]).length = front.length + 1 := length_append
  have hlast : put buffer idx ((front ++ [b]).map some) (idx + (front ++ [b]).length - 1) = b := by
    have hslice : slice (put buffer idx ((front ++ [b]).map some)) idx (front ++ [b]).length =
        front ++ [b] := slice_put_self
    rw [Nat.add_sub_assoc (by omega)]
    exact apply_of_slice hslice
  rw [receivePacket_cons hne, readAt, if_pos h, bind_some]
  simp only
  rw [if_neg (by omega), if_neg (by rw [hlast]; exact hb)]

theorem receivePacket_last (buffer : Mem) (idx : Nat) (front : List UInt8)
    (h : idx + (front ++ [0x7E]).length ≤ bufferSize) :
    receivePacket [.bytes (front ++ [0x7E])] buffer idx =
      finish (put buffer idx ((front ++ [0x7E]).map some)) (idx + (front ++ [0x7E]).length) := by
  have hne : Read.bytes (front ++ [0x7E]) ≠ .bytes [] := by simp
  have hlen : (front ++ [(0x7E : UInt8)]).length = front.length + 1 := length_append
  have hlast : put buffer idx ((front ++ [0x7E]).map some)
      (idx + (front ++ [0x7E]).length - 1) = 0x7E := by
    have hslice : slice (put buffer idx ((front ++ [0x7E]).map some)) idx
        (front ++ [0x7E]).length = front ++ [0x7E] := slice_put_self
    rw [Nat.add_sub_assoc (by omega)]
    exact apply_of_slice hslice
  rw [receivePacket_cons hne, readAt, if_pos h, bind_some]
  simp only
  rw [if_neg (by omega), if_pos hlast]
  rfl

theorem receivePacket_blocks (buffer : Mem) (idx : Nat) (hne : ∀ b ∈ blocks, b ≠ [])
    (hrest : (0x7E : UInt8) ∉ rest)
    (h : blocks.flatten = rest ++ [0x7E]) :
    (idx + rest.length + 1 ≤ bufferSize → ∃ m, slice m 0 (idx + rest.length + 1) =
        slice buffer 0 idx ++ rest ++ [0x7E] ∧ receivePacket (blocks.map .bytes) buffer idx =
          finish m (idx + rest.length + 1)) ∧
      (bufferSize < idx + rest.length + 1 →
        receivePacket (blocks.map .bytes) buffer idx = none) := by
  induction blocks generalizing rest buffer idx with
  | nil =>
    have hlen := congrArg List.length h
    rw [flatten_nil, length_append, length_singleton, length_nil] at hlen
    omega
  | cons block blocks ih =>
    have hblock := hne block mem_cons_self
    rw [flatten_cons] at h
    by_cases hlast : blocks = []
    · subst hlast
      rw [flatten_nil, append_nil] at h
      subst h
      have hlen : (rest ++ [(0x7E : UInt8)]).length = rest.length + 1 := length_append
      rw [Nat.add_assoc, ← hlen]
      constructor
      · intro hroom
        refine ⟨put buffer idx ((rest ++ [0x7E]).map some), ?_, ?_⟩
        · rw [slice_put, append_assoc]
        · exact receivePacket_last _ _ _ hroom
      · exact fun hlarge => receivePacket_of_large hblock hlarge
    · -- the block is in front of the last flag
      obtain ⟨front, b, rfl⟩ := eq_nil_or_concat block |>.resolve_left hblock
      rw [concat_eq_append] at h hblock ⊢
      have hflatten : blocks.flatten ≠ [] := by
        intro hnil
        obtain ⟨first, hfirst⟩ := exists_mem_of_ne_nil blocks hlast
        exact hne first (mem_cons_of_mem _ hfirst) (flatten_eq_nil_iff.mp hnil _ hfirst)
      obtain ⟨back, c, hback⟩ := eq_nil_or_concat blocks.flatten |>.resolve_left hflatten
      rw [concat_eq_append] at hback
      rw [hback, ← append_assoc] at h
      obtain ⟨hrest', hc⟩ := append_inj' h rfl
      obtain rfl := singleton_inj.mp hc
      subst hrest'
      have hb : b ≠ 0x7E := by
        rintro rfl
        exact hrest (by simp)
      have hlen : (front ++ [b] ++ back).length = (front ++ [b]).length + back.length :=
        length_append
      obtain ⟨hroom', hlarge'⟩ := ih (put buffer idx ((front ++ [b]).map some))
        (idx + (front ++ [b]).length) (fun x hx => hne x (mem_cons_of_mem _ hx))
        (fun hmem => hrest (mem_append_right _ hmem)) hback
      rw [map_cons, hlen, show idx + ((front ++ [b]).length + back.length) + 1 =
        idx + (front ++ [b]).length + back.length + 1 by omega]
      constructor
      · intro hroom
        obtain ⟨m, hm, hres⟩ := hroom' hroom
        refine ⟨m, ?_, ?_⟩
        · rw [hm, slice_put]
          simp
        · rw [receivePacket_inner hb (by omega), hres]
      · intro hlarge
        by_cases hfirst : idx + (front ++ [b]).length ≤ bufferSize
        · rw [receivePacket_inner hb hfirst, hlarge' hlarge]
        · exact receivePacket_of_large hblock (by omega)

theorem apply_eq_of_slice {m : Mem} {l : List UInt8} (h : slice m 0 n = l) (hj : l[j]? = some b) :
    m j = b := by
  rw [← h, slice, List.getElem?_map] at hj
  obtain ⟨i, hi, rfl⟩ := map_eq_some_iff.mp hj
  obtain ⟨hlt, rfl⟩ := List.getElem?_eq_some_iff.mp hi
  rw [getElem_range, Nat.zero_add]

theorem finish_eq {m : Mem} (h : removeEscapeHdlcFlag buffer len = some (m, n)) (hn : n ≠ 0) :
    finish buffer len = some (m, .packet n) := by
  rw [finish, h, bind_some, if_neg hn]

theorem finish_flag (hne : q ≠ []) (hlen : len = (frame true q).length) (hroom : len ≤ bufferSize)
    (h : slice buffer 0 len = frame true q) :
    ∃ m, finish buffer len = some (m, .packet (q.length + 1)) ∧
      slice m 0 (q.length + 1) = q ++ [0x7E] := by
  have hlen' : len = 2 + q.length + hdlc.specials q := by rw [hlen, length_frame, if_pos rfl]
  have hbody : (q.flatMap hdlc.escape).length = q.length + hdlc.specials q :=
    Code.length_flatMap_escape
  have hq := length_pos_iff.mpr hne
  have hframe : frame true q = [0x7E] ++ (q.flatMap hdlc.escape ++ [0x7E]) := append_assoc ..
  rw [hframe] at h
  have hzero : buffer 0 = 0x7E := apply_eq_of_slice h rfl
  have hone : buffer 1 ≠ 0x7E := by
    have hlt : 0 < (q.flatMap hdlc.escape).length := by omega
    have hget : ([0x7E] ++ (q.flatMap hdlc.escape ++ [0x7E]))[1]? =
        some (q.flatMap hdlc.escape)[0] := by
      rw [List.getElem?_append_right (by decide), length_singleton, Nat.sub_self,
        List.getElem?_append_left hlt, List.getElem?_eq_getElem hlt]
    rw [apply_eq_of_slice h hget]
    intro heq
    have hmem := getElem_mem hlt
    rw [heq] at hmem
    exact Code.flag_notMem_flatMap (c := hdlc) hmem
  have hlast : buffer (len - 1) = 0x7E := by
    have hlast' : buffer (0 + (len - 1)) = 0x7E := apply_of_slice (by
      rw [h, ← append_assoc])
    rwa [Nat.zero_add] at hlast'
  obtain ⟨i, -, hi, hbefore, -, hpacket, -⟩ :=
    removeEscape_packet hroom ⟨1, by omega, hone⟩ hlast
  obtain rfl : i = 1 := by
    have hne0 : i ≠ 0 := fun h0 => hi (h0 ▸ hzero)
    by_contra hne1
    exact hone (hbefore 1 (by omega))
  have hrest : slice buffer 1 (len - 1) = q.flatMap hdlc.escape ++ [0x7E] := by
    rw [show len = 1 + (len - 1) by omega, slice_append] at h
    exact append_inj_right h rfl
  rw [hrest, Code.unescape_flatMap_append,
    show hdlc.unescape false [0x7E] = [0x7E] from rfl] at hpacket
  have hout : (q ++ [(0x7E : UInt8)]).length = q.length + 1 := length_append
  rw [hout] at hpacket
  obtain ⟨m, hm, hslice⟩ := hpacket (by omega)
  exact ⟨m, finish_eq hm (Nat.succ_ne_zero _), hslice⟩

theorem finish_zero (hlen : len = (frame true q).length) (hroom : len ≤ bufferSize)
    (h : slice buffer 0 len = 0 :: q.flatMap hdlc.escape ++ [0x7E]) :
    (q.length + 2 < bufferSize → ∃ m, finish buffer len = some (m, .packet (q.length + 2)) ∧
      slice m 0 (q.length + 2) = 0 :: q ++ [0x7E]) ∧
      (¬ q.length + 2 < bufferSize → finish buffer len = none) := by
  have hlen' : len = 2 + q.length + hdlc.specials q := by rw [hlen, length_frame, if_pos rfl]
  have hzero : buffer 0 = 0 := apply_eq_of_slice h rfl
  have hne : buffer 0 ≠ 0x7E := by
    rw [hzero]
    decide
  have hlast : buffer (len - 1) = 0x7E := by
    have hlast' : buffer (0 + (len - 1)) = 0x7E := apply_of_slice h
    rwa [Nat.zero_add] at hlast'
  obtain ⟨i, -, hi, hbefore, -, hpacket, hfull⟩ :=
    removeEscape_packet hroom ⟨0, by omega, hne⟩ hlast
  obtain rfl : i = 0 := by
    by_contra hpos
    exact hne (hbefore 0 (Nat.pos_of_ne_zero hpos))
  have hout : hdlc.unescape false (0 :: q.flatMap hdlc.escape ++ [0x7E]) = 0 :: q ++ [0x7E] := by
    rw [cons_append, Code.unescape, if_neg (by decide), if_neg Bool.false_ne_true,
      Code.unescape_flatMap_append]
    rfl
  have houtlen : ((0 : UInt8) :: q ++ [0x7E]).length = q.length + 2 := by
    rw [length_append, length_cons]
    rfl
  rw [Nat.sub_zero, h, hout, houtlen] at hpacket hfull
  constructor
  · intro hlt
    obtain ⟨m, hm, hslice⟩ := hpacket hlt
    exact ⟨m, finish_eq hm (Nat.succ_ne_zero _), hslice⟩
  · intro hge
    rw [finish, hfull hge]
    rfl

theorem prefix_cons_zero_iff : p <+: 0 :: (p ++ q) ↔ ∀ b ∈ p, b = 0 := by
  constructor
  · intro h
    induction p with
    | nil => exact fun b hb => absurd hb not_mem_nil
    | cons a p ih =>
      rw [cons_append, cons_prefix_cons] at h
      obtain ⟨rfl, h⟩ := h
      exact forall_mem_cons.mpr ⟨rfl, ih h⟩
  · intro h
    obtain ⟨n, rfl⟩ : ∃ n, p = replicate n 0 := ⟨p.length, eq_replicate_iff.mpr ⟨rfl, h⟩⟩
    exact ⟨0 :: q, by
      rw [← cons_append, ← replicate_succ, replicate_succ', append_assoc]; rfl⟩

/-- A packet of answers is received when its framing has room, unless its first flag comes alone and
the buffer has another one behind it: then a zero is put in front of the packet. -/
def Arrives (p : List UInt8) (blocks : List (List UInt8)) (buffer : Mem) : Prop :=
  (frame true (p ++ crcBytes p)).length ≤ bufferSize ∧
    (blocks.head? = some [0x7E] → buffer 1 = 0x7E →
      (∀ b ∈ p, b = 0) ∧ (∃ j, 1 ≤ j ∧ j < bufferSize ∧ buffer j ≠ 0x7E) ∧
        p.length + 4 < bufferSize)

theorem receivedWhole_iff_slice {m : Mem} {l : List UInt8} (hn : p.length ≤ n)
    (h : receivePacket (blocks.map .bytes) buffer 0 = some (m, .packet n))
    (hslice : slice m 0 n = l) : ReceivedWhole p blocks buffer ↔ p <+: l := by
  have htake : slice m 0 p.length = l.take p.length := by
    obtain ⟨k, rfl⟩ := Nat.exists_eq_add_of_le hn
    rw [← hslice, slice_append, take_left' length_slice]
  rw [prefix_iff_eq_take, ← htake, eq_comm]
  constructor
  · rintro ⟨m', n', h', hslice'⟩
    obtain ⟨rfl, -⟩ := Prod.mk.inj (some.inj (h.symm.trans h'))
    exact hslice'
  · exact fun hslice' => ⟨m, n, h, hslice'⟩

theorem not_receivedWhole_of_none (h : receivePacket (blocks.map .bytes) buffer 0 = none) :
    ¬ ReceivedWhole p blocks buffer := by
  rintro ⟨m, n, h', -⟩
  rw [h] at h'
  cases h'

theorem receivedWhole_of_frame {m : Mem} (hlen : len = (frame true (p ++ crcBytes p)).length)
    (hroom : len ≤ bufferSize) (hm : slice m 0 len = frame true (p ++ crcBytes p))
    (h : receivePacket (blocks.map .bytes) buffer 0 = finish m len) :
    ReceivedWhole p blocks buffer := by
  have hne : p ++ crcBytes p ≠ [] := by simp [crcBytes]
  obtain ⟨m', hm', hslice⟩ := finish_flag hne hlen hroom hm
  have hle : p.length ≤ (p ++ crcBytes p).length + 1 := by
    rw [length_append]
    omega
  rw [receivedWhole_iff_slice hle (h.trans hm') hslice, append_assoc]
  exact prefix_append _ _

theorem receivePacket_flag : receivePacket (.bytes [0x7E] :: reads) buffer 0 =
    (removeEscapeHdlcFlag (put buffer 0 ([0x7E].map some)) 1).bind fun r =>
      if r.2 = 0 then receivePacket reads r.1 1 else some (r.1, .packet r.2) := by
  rw [receivePacket_cons (by simp), readAt, if_pos (by decide), bind_some]
  rfl

theorem receivedWhole_flag_iff (hne : ∀ b ∈ blocks, b ≠ [])
    (h : blocks.flatten = (p ++ crcBytes p).flatMap hdlc.escape ++ [0x7E]) :
    ReceivedWhole p ([0x7E] :: blocks) buffer ↔ Arrives p ([0x7E] :: blocks) buffer := by
  have hlen : (frame true (p ++ crcBytes p)).length =
      1 + ((p ++ crcBytes p).flatMap hdlc.escape).length + 1 := by
    rw [frame, length_append, length_append]
    rfl
  have hflag : put buffer 0 ([(0x7E : UInt8)].map some) 0 = 0x7E := rfl
  have hrest : ∀ j, 1 ≤ j → put buffer 0 ([(0x7E : UInt8)].map some) j = buffer j := fun j hj =>
    put_of_not_mem (.inr hj)
  have hall : ∀ j < 1, put buffer 0 ([(0x7E : UInt8)].map some) j = 0x7E := by
    intro j hj
    obtain rfl : j = 0 := by omega
    exact hflag
  have hbody : (0x7E : UInt8) ∉ (p ++ crcBytes p).flatMap hdlc.escape :=
    Code.flag_notMem_flatMap (c := hdlc)
  obtain ⟨hnone, hsome⟩ := removeEscape_flags Nat.one_pos hall
  have hmap : ([0x7E] :: blocks).map Read.bytes = .bytes [0x7E] :: blocks.map .bytes := rfl
  rw [Arrives, hlen]
  by_cases hstale : buffer 1 = 0x7E
  · simp only [List.head?_cons, hstale, forall_const]
    by_cases hother : ∃ j, 1 ≤ j ∧ j < bufferSize ∧ buffer j ≠ 0x7E
    · obtain ⟨j, hj, hj', hjne⟩ := hother
      have hres := hsome ⟨j, hj', by rwa [hrest j hj]⟩
      rw [if_pos ((hrest 1 le_rfl).trans hstale)] at hres
      obtain ⟨hroom, hlarge⟩ := receivePacket_blocks
        (Function.update (put buffer 0 ([0x7E].map some)) 0 0) 1 hne hbody h
      by_cases hsize : 1 + ((p ++ crcBytes p).flatMap hdlc.escape).length + 1 ≤ bufferSize
      · obtain ⟨m, hm, hreceive⟩ := hroom hsize
        have hzero : slice m 0 (1 + ((p ++ crcBytes p).flatMap hdlc.escape).length + 1) =
            0 :: (p ++ crcBytes p).flatMap hdlc.escape ++ [0x7E] := by
          rw [hm]
          rfl
        obtain ⟨hfits, hfull⟩ := finish_zero hlen.symm hsize hzero
        have hq : (p ++ crcBytes p).length + 2 = p.length + 4 := by
          rw [length_append]
          rfl
        rw [hq] at hfits hfull
        have heq : receivePacket (([0x7E] :: blocks).map .bytes) buffer 0 =
            finish m (1 + ((p ++ crcBytes p).flatMap hdlc.escape).length + 1) := by
          rw [hmap, receivePacket_flag, hres, bind_some, if_pos rfl, hreceive]
        by_cases hfour : p.length + 4 < bufferSize
        · obtain ⟨m', hm', hslice⟩ := hfits hfour
          rw [receivedWhole_iff_slice (by omega) (heq.trans hm') hslice, cons_append,
            append_assoc, prefix_cons_zero_iff]
          exact ⟨fun hp => ⟨hsize, hp, ⟨j, hj, hj', hjne⟩, hfour⟩, fun hp => hp.2.1⟩
        · exact iff_of_false (not_receivedWhole_of_none (heq.trans (hfull hfour)))
            fun hp => hfour hp.2.2.2
      · refine iff_of_false (not_receivedWhole_of_none ?_) fun hp => hsize hp.1
        rw [hmap, receivePacket_flag, hres, bind_some, if_pos rfl,
          hlarge (not_le.mp hsize)]
    · refine iff_of_false (not_receivedWhole_of_none ?_) fun hp => hother hp.2.2.1
      have hflags : ∀ j < bufferSize, put buffer 0 ([(0x7E : UInt8)].map some) j = 0x7E := by
        intro j hj
        by_cases hzero : j = 0
        · rw [hzero]
          exact hflag
        · rw [hrest j (Nat.pos_of_ne_zero hzero)]
          by_contra hjne
          exact hother ⟨j, Nat.pos_of_ne_zero hzero, hj, hjne⟩
      rw [hmap, receivePacket_flag, hnone hflags]
      rfl
  · have hstale' : put buffer 0 ([(0x7E : UInt8)].map some) 1 ≠ 0x7E := by
      rwa [hrest 1 le_rfl]
    have hres := hsome ⟨1, by decide, hstale'⟩
    rw [if_neg hstale'] at hres
    obtain ⟨hroom, hlarge⟩ := receivePacket_blocks
      (put buffer 0 ([0x7E].map some)) 1 hne hbody h
    rw [and_iff_left fun _ heq => absurd heq hstale]
    by_cases hsize : 1 + ((p ++ crcBytes p).flatMap hdlc.escape).length + 1 ≤ bufferSize
    · obtain ⟨m, hm, hreceive⟩ := hroom hsize
      refine iff_of_true (receivedWhole_of_frame hlen.symm hsize (hm.trans rfl) ?_) hsize
      rw [hmap, receivePacket_flag, hres, bind_some, if_pos rfl, hreceive]
    · refine iff_of_false (not_receivedWhole_of_none ?_) hsize
      rw [hmap, receivePacket_flag, hres, bind_some, if_pos rfl, hlarge (not_le.mp hsize)]

theorem receivedWhole_iff (hne : ∀ b ∈ blocks, b ≠ [])
    (h : blocks.flatten = frame true (p ++ crcBytes p)) :
    ReceivedWhole p blocks buffer ↔ Arrives p blocks buffer := by
  have hframe : frame true (p ++ crcBytes p) =
      0x7E :: ((p ++ crcBytes p).flatMap hdlc.escape ++ [0x7E]) := rfl
  rw [hframe] at h
  cases blocks with
  | nil => cases h
  | cons block blocks =>
    by_cases hflag : block = [0x7E]
    · subst hflag
      exact receivedWhole_flag_iff (fun b hb => hne b (mem_cons_of_mem _ hb))
        (List.cons.inj h).2
    · have hblock := hne block mem_cons_self
      have harrives : Arrives p (block :: blocks) buffer ↔
          (frame true (p ++ crcBytes p)).length ≤ bufferSize :=
        and_iff_left fun hhead => absurd (some.inj hhead) hflag
      have hlen : (frame true (p ++ crcBytes p)).length =
          1 + ((p ++ crcBytes p).flatMap hdlc.escape).length + 1 := by
        rw [hframe, length_cons, length_append]
        show _ + 1 + 1 = _
        omega
      obtain ⟨front, b, rfl⟩ := eq_nil_or_concat block |>.resolve_left hblock
      rw [concat_eq_append] at h hblock hflag harrives ⊢
      rw [flatten_cons] at h
      rw [harrives]
      by_cases hlast : blocks = []
      · -- the whole framing at once
        subst hlast
        rw [flatten_nil, append_nil, ← cons_append] at h
        obtain ⟨rfl, hb⟩ := append_inj' h rfl
        obtain rfl := singleton_inj.mp hb
        by_cases hsize : (frame true (p ++ crcBytes p)).length ≤ bufferSize
        · have hwhole : 0x7E :: (p ++ crcBytes p).flatMap hdlc.escape ++ [0x7E] =
              frame true (p ++ crcBytes p) := rfl
          have hreceive := receivePacket_last buffer 0
            (0x7E :: (p ++ crcBytes p).flatMap hdlc.escape)
            (by rw [hwhole, Nat.zero_add]; exact hsize)
          rw [hwhole, Nat.zero_add] at hreceive
          have hslice := slice_put buffer 0 (frame true (p ++ crcBytes p))
          rw [Nat.zero_add] at hslice
          exact iff_of_true (receivedWhole_of_frame rfl hsize hslice hreceive) hsize
        · refine iff_of_false (not_receivedWhole_of_none ?_) hsize
          refine receivePacket_of_large hblock ?_
          rw [Nat.zero_add]
          exact not_le.mp hsize
      · -- a piece that ends inside of the packet
        have hflatten : blocks.flatten ≠ [] := by
          intro hnil
          obtain ⟨first, hfirst⟩ := exists_mem_of_ne_nil blocks hlast
          exact hne first (mem_cons_of_mem _ hfirst)
            (flatten_eq_nil_iff.mp hnil _ hfirst)
        obtain ⟨back, c, hback⟩ := eq_nil_or_concat blocks.flatten |>.resolve_left hflatten
        rw [concat_eq_append] at hback
        rw [hback, ← append_assoc, ← cons_append] at h
        obtain ⟨hrest, hc⟩ := append_inj' h rfl
        obtain rfl := singleton_inj.mp hc
        have hbody : (0x7E : UInt8) ∉ (p ++ crcBytes p).flatMap hdlc.escape :=
          Code.flag_notMem_flatMap (c := hdlc)
        obtain ⟨inner, rfl⟩ : ∃ inner, front = 0x7E :: inner := by
          cases front with
          | nil =>
            rw [nil_append, singleton_append] at hrest
            exact absurd (congrArg (fun x => [x]) (List.cons.inj hrest).1) hflag
          | cons a inner => exact ⟨inner, by rw [(List.cons.inj hrest).1]⟩
        have hinner : inner ++ [b] ++ back = (p ++ crcBytes p).flatMap hdlc.escape :=
          (List.cons.inj hrest).2
        rw [← hinner] at hbody
        have hb : b ≠ 0x7E := by
          rintro rfl
          exact hbody (by simp)
        have hsum : ((0x7E :: inner) ++ [b]).length + back.length + 1 =
            (frame true (p ++ crcBytes p)).length := by
          rw [hlen, ← hinner]
          simp only [length_append, length_cons, length_nil]
          omega
        obtain ⟨hroom, hlarge⟩ := receivePacket_blocks
          (put buffer 0 ((0x7E :: inner ++ [b]).map some)) (0x7E :: inner ++ [b]).length
          (fun x hx => hne x (mem_cons_of_mem _ hx))
          (fun hmem => hbody (mem_append_right _ hmem)) hback
        rw [hsum] at hroom hlarge
        have hslice := slice_put buffer 0 (0x7E :: inner ++ [b])
        rw [Nat.zero_add] at hslice
        by_cases hsize : (frame true (p ++ crcBytes p)).length ≤ bufferSize
        · obtain ⟨m, hm, hreceive⟩ := hroom hsize
          have hm' : slice m 0 (frame true (p ++ crcBytes p)).length =
              frame true (p ++ crcBytes p) := by
            rw [hm, hslice, hframe, ← hinner]
            simp [slice]
          refine iff_of_true (receivedWhole_of_frame rfl hsize hm' ?_) hsize
          rw [map_cons, receivePacket_inner hb (by omega), Nat.zero_add, hreceive]
        · refine iff_of_false (not_receivedWhole_of_none ?_) hsize
          by_cases hfirst : 0 + (0x7E :: inner ++ [b]).length ≤ bufferSize
          · rw [map_cons, receivePacket_inner hb hfirst, Nat.zero_add,
              hlarge (not_le.mp hsize)]
          · exact receivePacket_of_large hblock (not_le.mp hfirst)

/-- Which commands are sent whole, which reads are taken in bounds, and which packets are received
from the reads of their framing. -/
theorem framing_iff (flag : Bool) (cmd : UInt8) (parameter data : List UInt8) (reads : List Read)
    (buffer : Mem) (p : List UInt8) (blocks : List (List UInt8)) (hne : ∀ b ∈ blocks, b ≠ [])
    (hblocks : blocks.flatten = frame true (p ++ crcBytes p)) :
    (SentWhole flag cmd parameter data ↔ HasRoom flag cmd parameter data) ∧
      ((receivePacket reads buffer 0).isSome ↔ Fits reads buffer 0) ∧
        (ReceivedWhole p blocks buffer ↔ Arrives p blocks buffer) :=
  ⟨sentWhole_iff, isSome_receivePacket_iff (Nat.zero_le _), receivedWhole_iff hne hblocks⟩

/-- An answer in two pieces. -/
theorem framing_iff_pieces :
    ReceivedWhole [] [[0x7E, 0x00], [0x00, 0x7E]] (fun _ => 0x7E) ↔
      Arrives [] [[0x7E, 0x00], [0x00, 0x7E]] (fun _ => 0x7E) :=
  (framing_iff true 0x07 [] [] [] (fun _ => 0x7E) [] [[0x7E, 0x00], [0x00, 0x7E]] (by simp)
    (by decide)).2.2

/-- A block of flags is too long when it is escaped, and an error comes in front of all bytes. -/
theorem not_framed : ¬ SentWhole true 0x07 [0, 0, 0, 0] (replicate 1024 0x7E) ∧
    receivePacket [.error] (fun _ => 0) 0 = none := by
  refine ⟨fun h => ?_, rfl⟩
  have hroom := sentWhole_iff.mp h
  have hcount : hdlc.specials (replicate 1024 0x7E) = 1024 := by
    rw [Code.specials, countP_replicate, if_pos (by decide)]
  rw [HasRoom, Code.specials, countP_append, countP_append, ← Code.specials,
    ← Code.specials, hcount, length_replicate, if_pos rfl] at hroom
  have hsize : bufferSize = 1280 := rfl
  have hparameter : [(0 : UInt8), 0, 0, 0].length = 4 := rfl
  omega

end ModemSupport.Rooter.StreamDownload
