import ModemSupport.Lib.Loop
import ModemSupport.Lib.Tlv

/-! `GetTLV` of the connection manager (`QMIThread.c`): when the search for a TLV stays within the
frame that `QmiWwanThread` has read, and which TLV it finds. -/

namespace ModemSupport.Cm.GetTlv

open Lib.Loop Lib.Memory Lib.Tlv List

/-- What is read of the frame, and what is returned: an offset, or `NULL`. -/
inductive Access where
  | read (i : Nat)
  | ret (r : Option Nat)

def lengthOffset : Nat := 11

def tlvOffset : Nat := 13

def messageLength (m : Mem) : Nat := ofLE (slice m lengthOffset 2)

structure Search where
  tlvFind : Nat
  length : UInt16
  pTLVHdr : Nat

variable (m : Mem) (tlvType : Int)

def Search.next (s : Search) : Search where
  tlvFind := s.tlvFind + 1
  length := s.length - (UInt16.ofNat (size m s.pTLVHdr) + 3)
  pTLVHdr := s.pTLVHdr + size m s.pTLVHdr + 3

/-- A round of the search; an index is given as a type above `0x1000`. -/
def Search.round (s : Search) : List Access × Option Search :=
  if 3 ≤ s.length then
    let tlvLength : List Access := [.read (s.pTLVHdr + 1), .read (s.pTLVHdr + 2)]
    if tlvType > 0x1000 then
      if (s.tlvFind : Int) + 1 + 0x1000 = tlvType then ([.ret (some s.pTLVHdr)], none)
      else (tlvLength, some (s.next m))
    else if ((m s.pTLVHdr).toNat : Int) = tlvType then
      ([.read s.pTLVHdr, .ret (some s.pTLVHdr)], none)
    else (.read s.pTLVHdr :: tlvLength, some (s.next m))
  else ([.ret none], none)

def Search.init : Search where
  tlvFind := 0
  length := UInt16.ofNat (messageLength m)
  pTLVHdr := tlvOffset

def GetTLV (as : List Access) : Prop :=
  ∃ bs, Ends (Search.round m tlvType) (Search.init m) bs ∧
    as = [.read lengthOffset, .read (lengthOffset + 1)] ++ bs

structure Frame where
  mem : Mem
  nreads : Nat
  pos : 0 < nreads
  le : nreads ≤ 512
  accepted : nreads = ofLE (slice mem 1 2) + 1

/-- The TLV that is looked for, by its place in the message and its type. -/
def Wanted (k : Nat) (t : UInt8) : Prop :=
  if tlvType > 0x1000 then (k : Int) + 1 + 0x1000 = tlvType else (t.toNat : Int) = tlvType

instance (k : Nat) (t : UInt8) : Decidable (Wanted tlvType k t) :=
  inferInstanceAs (Decidable (if tlvType > 0x1000 then (k : Int) + 1 + 0x1000 = tlvType
    else (t.toNat : Int) = tlvType))

def returned (as : List Access) : List (Option Nat) :=
  as.filterMap fun
    | .ret r => some r
    | .read _ => none

structure Fills (xs : List Item) : Prop where
  length : (encode xs).length = messageLength m
  bytes : slice m tlvOffset (encode xs).length = encode xs

/-- The offset of the first TLV that is wanted among those from the `k`-th at `p` on. -/
def target (k p : Nat) (xs : List Item) : Option Nat :=
  ((xs.zipIdx k).find? fun x => Wanted tlvType x.2 x.1.1).map fun x =>
    p + (encode (xs.take (x.2 - k))).length

/-- The search ends, stays within the frame, returns `NULL` or a TLV within the frame, and returns
the first one that is wanted if TLVs fill the message. -/
def Frame.Correct (f : Frame) : Prop :=
  ∃ as, GetTLV f.mem tlvType as ∧ (∀ i, .read i ∈ as → i < f.nreads) ∧
    (∀ p, .ret (some p) ∈ as → p + headerSize + size f.mem p ≤ f.nreads) ∧
    ∀ xs, Fills f.mem xs → returned as = [target tlvType 0 tlvOffset xs]

/-- The bytes of the message from `p` on, counted in 16 bits. -/
def left (p : Nat) : UInt16 := UInt16.ofNat (messageLength m) - UInt16.ofNat (p - tlvOffset)

/-- The lengths of `k` TLVs that are not wanted lead to `p`. -/
inductive Passes : Nat → Nat → Prop
  | start : Passes 0 tlvOffset
  | next {k p : Nat} : Passes k p → 3 ≤ left m p → ¬Wanted tlvType k (m p) →
      Passes (k + 1) (p + size m p + 3)

/-- The header of the frame is there, and so are the header of each TLV that is passed over and the
whole of the one that is wanted. -/
structure Frame.Sound (f : Frame) : Prop where
  header : tlvOffset ≤ f.nreads
  passed : ∀ k p, Passes f.mem tlvType k p → 3 ≤ left f.mem p → ¬Wanted tlvType k (f.mem p) →
    p + headerSize ≤ f.nreads
  found : ∀ k p, Passes f.mem tlvType k p → 3 ≤ left f.mem p → Wanted tlvType k (f.mem p) →
    p + headerSize + size f.mem p ≤ f.nreads

variable {m} {tlvType} {s t : Search} {as : List Access} {xs : List Item} {k p : Nat} {f : Frame}

theorem round_end (h : ¬3 ≤ s.length) : s.round m tlvType = ([.ret none], none) := if_neg h

theorem round_found (h : 3 ≤ s.length) (hw : Wanted tlvType s.tlvFind (m s.pTLVHdr)) :
    s.round m tlvType =
      ((if tlvType > 0x1000 then [] else [.read s.pTLVHdr]) ++ [.ret (some s.pTLVHdr)], none) := by
  unfold Search.round
  unfold Wanted at hw
  rw [if_pos h]
  dsimp only
  split at hw
  next hindex => rw [if_pos hindex, if_pos hw, if_pos hindex]; rfl
  next hindex => rw [if_neg hindex, if_pos hw, if_neg hindex]; rfl

theorem round_next (h : 3 ≤ s.length) (hw : ¬Wanted tlvType s.tlvFind (m s.pTLVHdr)) :
    s.round m tlvType =
      ((if tlvType > 0x1000 then [] else [.read s.pTLVHdr]) ++
        [.read (s.pTLVHdr + 1), .read (s.pTLVHdr + 2)], some (s.next m)) := by
  unfold Search.round
  unfold Wanted at hw
  rw [if_pos h]
  dsimp only
  split at hw
  next hindex => rw [if_pos hindex, if_neg hw, if_pos hindex]; rfl
  next hindex => rw [if_neg hindex, if_neg hw, if_neg hindex]; rfl

theorem round_eq_some_iff : (s.round m tlvType).2 = some t ↔
    3 ≤ s.length ∧ ¬Wanted tlvType s.tlvFind (m s.pTLVHdr) ∧ t = s.next m := by
  by_cases h : 3 ≤ s.length
  case neg =>
    rw [round_end h]
    exact iff_of_false (by simp) fun h' => h h'.1
  by_cases hw : Wanted tlvType s.tlvFind (m s.pTLVHdr)
  · rw [round_found h hw]
    exact iff_of_false (by simp) fun h' => h'.2.1 hw
  · rw [round_next h hw]
    exact ⟨fun ht => ⟨h, hw, (Option.some.inj ht).symm⟩, fun h' => congrArg some h'.2.2.symm⟩

theorem tlvOffset_le (h : Passes m tlvType k p) : tlvOffset ≤ p := by
  induction h with
  | start => exact Nat.le_refl _
  | next _ _ _ ih => omega

theorem left_next (h : tlvOffset ≤ p) :
    left m p - (UInt16.ofNat (size m p) + 3) = left m (p + size m p + 3) := by
  have hadd : p + size m p + 3 - tlvOffset = p - tlvOffset + (size m p + 3) := by omega
  have hthree : UInt16.ofNat 3 = 3 := rfl
  rw [left, left, hadd, UInt16.ofNat_add, UInt16.ofNat_add, hthree]
  grind

theorem comes_iff_passes : Comes (Search.round m tlvType) (Search.init m) s ↔
    s.length = left m s.pTLVHdr ∧ Passes m tlvType s.tlvFind s.pTLVHdr := by
  constructor
  · intro h
    induction h with
    | start =>
      refine ⟨?_, .start⟩
      show UInt16.ofNat (messageLength m) = UInt16.ofNat (messageLength m) - UInt16.ofNat 0
      simp
    | next _ hnext ih =>
      obtain ⟨hlength, hpasses⟩ := ih
      obtain ⟨hmore, hw, rfl⟩ := round_eq_some_iff.mp hnext
      refine ⟨?_, .next hpasses (hlength ▸ hmore) hw⟩
      rw [Search.next, hlength]
      exact left_next (tlvOffset_le hpasses)
  · rintro ⟨hlength, hpasses⟩
    obtain ⟨k, len, p⟩ := s
    dsimp only at hlength hpasses
    subst hlength
    induction hpasses with
    | start =>
      have hinit : (⟨0, left m tlvOffset, tlvOffset⟩ : Search) = Search.init m := by
        simp [left, Search.init]
      rw [hinit]
      exact .start
    | @next k p hpasses hmore hw ih =>
      refine .next ih ?_
      rw [round_eq_some_iff]
      refine ⟨hmore, hw, ?_⟩
      rw [Search.next, left_next (tlvOffset_le hpasses)]

def Frame.Within (f : Frame) : Access → Prop
  | .read i => i < f.nreads
  | .ret none => True
  | .ret (some p) => p + headerSize + size f.mem p ≤ f.nreads

theorem round_within_iff : (∀ a ∈ (s.round f.mem tlvType).1, f.Within a) ↔
    (3 ≤ s.length →
      (¬Wanted tlvType s.tlvFind (f.mem s.pTLVHdr) → s.pTLVHdr + headerSize ≤ f.nreads) ∧
      (Wanted tlvType s.tlvFind (f.mem s.pTLVHdr) →
        s.pTLVHdr + headerSize + size f.mem s.pTLVHdr ≤ f.nreads)) := by
  by_cases h : 3 ≤ s.length
  case neg =>
    rw [round_end h]
    exact iff_of_true (by simp [Frame.Within]) fun h' => absurd h' h
  have htype : ∀ {n}, s.pTLVHdr + headerSize + n ≤ f.nreads →
      ∀ a ∈ (if tlvType > 0x1000 then [] else [Access.read s.pTLVHdr]), f.Within a := by
    intro n hle a ha
    rw [headerSize] at hle
    split at ha
    · cases ha
    · obtain rfl := mem_singleton.mp ha
      show s.pTLVHdr < f.nreads
      omega
  by_cases hw : Wanted tlvType s.tlvFind (f.mem s.pTLVHdr)
  · rw [round_found h hw, forall_mem_append]
    constructor
    · intro hall _
      exact ⟨fun h' => absurd hw h', fun _ => hall.2 _ mem_cons_self⟩
    · intro hall
      have hle := (hall h).2 hw
      exact ⟨htype hle, by simpa [Frame.Within] using hle⟩
  · rw [round_next h hw, forall_mem_append]
    constructor
    · intro hall _
      refine ⟨fun _ => ?_, fun h' => absurd h' hw⟩
      have hlast : s.pTLVHdr + 2 < f.nreads := hall.2 (.read (s.pTLVHdr + 2)) (by simp)
      rw [headerSize]
      omega
    · intro hall
      have hle := (hall h).1 hw
      refine ⟨htype (n := 0) hle, ?_⟩
      rw [headerSize] at hle
      simp only [forall_mem_cons, Frame.Within]
      exact ⟨by omega, by omega, by simp⟩

theorem target_cons_of_wanted {x : Item} (h : Wanted tlvType k x.1) :
    target tlvType k p (x :: xs) = some p := by
  simp [target, zipIdx_cons, h, encode]

theorem target_cons_of_not_wanted {x : Item} (h : ¬Wanted tlvType k x.1) :
    target tlvType k p (x :: xs) = target tlvType (k + 1) (p + x.2.length + 3) xs := by
  rw [target, target, zipIdx_cons, List.find?_cons_of_neg (by simpa using h)]
  cases hfind : (xs.zipIdx (k + 1)).find? fun x => Wanted tlvType x.2 x.1.1 with
  | none => rfl
  | some y =>
    have hle : k + 1 ≤ y.2 := (mem_zipIdx (List.mem_of_find?_eq_some hfind)).1
    have htake : (x :: xs).take (y.2 - k) = x :: xs.take (y.2 - (k + 1)) := by
      rw [← take_succ_cons]
      congr 1
      omega
    rw [Option.map_some, Option.map_some, htake, length_encode_cons, headerSize]
    congr 1
    omega

theorem ofNat_sub {a b : Nat} :
    UInt16.ofNat (3 + a + b) - (UInt16.ofNat a + 3) = UInt16.ofNat b := by
  have hthree : UInt16.ofNat 3 = 3 := rfl
  rw [UInt16.ofNat_add, UInt16.ofNat_add, hthree]
  grind

theorem exists_ends_of_holds (tlvType : Int) (hholds : Holds m s.pTLVHdr xs)
    (hlength : s.length = UInt16.ofNat (encode xs).length) (hfit : (encode xs).length < 2 ^ 16) :
    ∃ as, Ends (Search.round m tlvType) s as ∧
      returned as = [target tlvType s.tlvFind s.pTLVHdr xs] := by
  induction xs generalizing s with
  | nil =>
    have hround : s.round m tlvType = ([.ret none], none) :=
      round_end (by rw [hlength]; decide)
    refine ⟨_, .stop (by rw [hround]), ?_⟩
    rw [hround]
    rfl
  | cons x xs ih =>
    obtain ⟨htype, hsize, -, hrest⟩ := hholds
    rw [length_encode_cons, headerSize] at hlength hfit
    have hmore : 3 ≤ s.length := by
      rw [hlength, UInt16.le_iff_toNat_le, UInt16.toNat_ofNat_of_lt' hfit]
      show 3 ≤ _
      omega
    by_cases hw : Wanted tlvType s.tlvFind x.1
    · have hround := round_found hmore (htype ▸ hw)
      refine ⟨_, .stop (by rw [hround]), ?_⟩
      rw [target_cons_of_wanted hw, hround]
      dsimp only
      split <;> rfl
    · have hround := round_next hmore (htype ▸ hw)
      have hp : s.pTLVHdr + headerSize + x.2.length = (s.next m).pTLVHdr := by
        show s.pTLVHdr + 3 + x.2.length = s.pTLVHdr + size m s.pTLVHdr + 3
        omega
      have hleft : (s.next m).length = UInt16.ofNat (encode xs).length := by
        rw [Search.next, hlength, hsize]
        exact ofNat_sub
      obtain ⟨bs, hends, hret⟩ := ih (s := s.next m) (hp ▸ hrest) hleft (by omega)
      refine ⟨_, .next (by rw [hround]) hends, ?_⟩
      have htarget : target tlvType s.tlvFind s.pTLVHdr (x :: xs) =
          target tlvType (s.next m).tlvFind (s.next m).pTLVHdr xs := by
        rw [target_cons_of_not_wanted hw, Search.next, hsize]
      rw [htarget, ← hret, hround, returned, filterMap_append]
      dsimp only
      split <;> rfl

theorem messageLength_lt : messageLength m < 2 ^ 16 := size_lt (p := lengthOffset - 1)

theorem Fills.length_lt (h : Fills m xs) : (encode xs).length < 2 ^ 16 :=
  h.length ▸ messageLength_lt

theorem Fills.holds (h : Fills m xs) : Holds m tlvOffset xs := by
  refine holds_of_slice (fun x hx => ?_) h.bytes
  have hle := length_le_of_mem hx
  have hlt := h.length_lt
  omega

theorem exists_fills (h : (encode xs).length < 2 ^ 16) : ∃ m, Fills m xs := by
  let m := put (fun _ => 0) lengthOffset
    ((toLE 2 (encode xs).length ++ encode xs).map some)
  have hslice : slice m lengthOffset (toLE 2 (encode xs).length ++ encode xs).length =
      toLE 2 (encode xs).length ++ encode xs := slice_put_self
  obtain ⟨hlength, hbytes⟩ := slice_append_inj hslice
  rw [length_toLE] at hlength hbytes
  refine ⟨m, ⟨?_, hbytes⟩⟩
  rw [messageLength, hlength, ofLE_toLE h]

theorem exists_getTLV (tlvType : Int) (h : Fills m xs) :
    ∃ as, GetTLV m tlvType as ∧ returned as = [target tlvType 0 tlvOffset xs] := by
  obtain ⟨as, hends, hret⟩ := exists_ends_of_holds tlvType (s := Search.init m) h.holds
    (by rw [Search.init, h.length]) h.length_lt
  exact ⟨_, ⟨as, hends, rfl⟩, hret⟩

theorem GetTLV.unique {bs : List Access} (h : GetTLV m tlvType as) (h' : GetTLV m tlvType bs) :
    as = bs := by
  obtain ⟨as, hends, rfl⟩ := h
  obtain ⟨bs, hends', rfl⟩ := h'
  rw [hends.unique hends']

/-- The search is correct for a frame just when the headers to which the lengths lead, up to that of
the TLV that is wanted, lie within the frame, and so does this TLV. -/
theorem Frame.correct_iff : f.Correct tlvType ↔ f.Sound tlvType := by
  constructor
  · rintro ⟨as, ⟨bs, hends, rfl⟩, hread, hret, -⟩
    have hall : ∀ a ∈ bs, f.Within a := by
      rintro (i | _ | p) ha
      · exact hread i (mem_append_right _ ha)
      · trivial
      · exact hret p (mem_append_right _ ha)
    rw [hends.forall_iff] at hall
    refine ⟨?_, fun k p hpasses hmore hw => ?_, fun k p hpasses hmore hw => ?_⟩
    · have hlast : lengthOffset + 1 < f.nreads := hread _ (by simp)
      exact hlast
    · have hround := hall ⟨k, left f.mem p, p⟩ (comes_iff_passes.mpr ⟨rfl, hpasses⟩)
      exact (round_within_iff.mp hround hmore).1 hw
    · have hround := hall ⟨k, left f.mem p, p⟩ (comes_iff_passes.mpr ⟨rfl, hpasses⟩)
      exact (round_within_iff.mp hround hmore).2 hw
  · intro h
    have hround : ∀ s, Comes (Search.round f.mem tlvType) (Search.init f.mem) s →
        ∀ a ∈ (s.round f.mem tlvType).1, f.Within a := by
      intro s hs
      obtain ⟨hlength, hpasses⟩ := comes_iff_passes.mp hs
      rw [round_within_iff, hlength]
      intro hmore
      exact ⟨h.passed _ _ hpasses hmore, h.found _ _ hpasses hmore⟩
    -- each TLV that is passed over brings the search nearer to the end of the frame
    obtain ⟨bs, hends⟩ : ∃ bs, Ends (Search.round f.mem tlvType) (Search.init f.mem) bs := by
      apply exists_ends fun s => f.nreads - s.pTLVHdr
      intro s hs t ht
      obtain ⟨hmore, hw, rfl⟩ := round_eq_some_iff.mp ht
      have hle := (round_within_iff.mp (hround s hs) hmore).1 hw
      rw [headerSize] at hle
      show f.nreads - (s.pTLVHdr + size f.mem s.pTLVHdr + 3) < f.nreads - s.pTLVHdr
      omega
    have hall := hends.forall_iff.mpr hround
    have hheader := h.header
    refine ⟨_, ⟨bs, hends, rfl⟩, fun i hi => ?_, fun p hp => ?_, fun xs hxs => ?_⟩
    · rcases mem_append.mp hi with hi | hi
      · simp only [mem_cons, Access.read.injEq, not_mem_nil, or_false] at hi
        rw [tlvOffset] at hheader
        rw [lengthOffset] at hi
        omega
      · exact hall _ hi
    · rcases mem_append.mp hp with hp | hp
      · simp at hp
      · exact hall _ hp
    · obtain ⟨as, has, hret⟩ := exists_getTLV tlvType hxs
      rw [GetTLV.unique ⟨bs, hends, rfl⟩ has, hret]

end ModemSupport.Cm.GetTlv
