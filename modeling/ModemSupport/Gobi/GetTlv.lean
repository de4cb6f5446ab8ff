import ModemSupport.Lib.Loop
import ModemSupport.Lib.Tlv

/-! `GetTLV` of the USB driver (`QMI.c`), the search for a TLV in a QMI message: when it ends, stays
within the message, and finds the first TLV of a type. -/

namespace ModemSupport.Gobi.GetTlv

open Lib.Loop Lib.Memory Lib.Tlv Relation List

def enomem : Int := 12
def enomsg : Int := 42

/-- What is read of the message, written to the buffer at an offset, and returned. -/
inductive Access where
  | read (i : Nat)
  | write (i : Nat) (b : UInt8)
  | ret (r : Int)

structure Call where
  message : Mem
  messageLen : UInt16
  type : UInt8
  bufferLen : UInt16

variable (c : Call)

def Call.tlvSize (pos : UInt16) : UInt16 := UInt16.ofNat (ofLE (slice c.message (pos.toNat + 1) 2))

/-- The loop that copies a value, from `cpyCount` on. -/
def Call.copy (pos tlvSize : Nat) : List Access :=
  (List.range tlvSize).flatMap fun cpyCount =>
    [.read (pos + 3 + cpyCount), .write cpyCount (c.message (pos + 3 + cpyCount))]

/-- A round of the search, with the position for the next one, which is an `u16`. -/
def Call.round (pos : UInt16) : List Access × Option UInt16 :=
  if pos.toNat + 3 < c.messageLen.toNat then
    let header : List Access := [.read (pos.toNat + 1), .read (pos.toNat + 2), .read pos.toNat]
    if c.message pos.toNat = c.type then
      if c.bufferLen < c.tlvSize pos then (header ++ [.ret (-enomem)], none)
      else
        (header ++ c.copy pos.toNat (c.tlvSize pos).toNat ++ [.ret (c.tlvSize pos).toNat], none)
    else (header, some (pos + (c.tlvSize pos + 3)))
  else ([.ret (-enomsg)], none)

/-- `GetTLV` ends, and `as` is what it does; `pQMIMessage` and `pOutDataBuf` may be `NULL`. -/
def GetTLV (pQMIMessage : Option Mem) (messageLen : UInt16) (type : UInt8) (pOutDataBuf : Bool)
    (bufferLen : UInt16) (as : List Access) : Prop :=
  match pQMIMessage, pOutDataBuf with
  | some message, true => Ends (Call.round ⟨message, messageLen, type, bufferLen⟩) 4 as
  | _, _ => as = [.ret (-enomem)]

def returned (as : List Access) : List Int :=
  as.filterMap fun
    | .ret r => some r
    | _ => none

def written (as : List Access) : List (UInt8 × Nat) :=
  as.filterMap fun
    | .write i b => some (b, i)
    | _ => none

/-- The message behind its header of four bytes is a sequence of TLVs. -/
structure Call.Fills (xs : List Item) : Prop where
  length : 4 + (encode xs).length = c.messageLen.toNat
  bytes : slice c.message 4 (encode xs).length = encode xs

/-- The first value of the type is returned with its length if the buffer can take it. -/
def Call.Answers (xs : List Item) (as : List Access) : Prop :=
  match first c.type xs with
  | none => ∃ r < 0, returned as = [r]
  | some v =>
    if v.length ≤ c.bufferLen.toNat then returned as = [(v.length : Int)] ∧ written as = v.zipIdx
    else ∃ r < 0, returned as = [r]

/-- The search ends, stays within the message and the buffer, and answers for the TLVs that fill the
message. -/
def Call.Correct : Prop :=
  ∃ as, GetTLV (some c.message) c.messageLen c.type true c.bufferLen as ∧
    (∀ i, .read i ∈ as → i < c.messageLen.toNat) ∧
    (∀ i b, .write i b ∈ as → i < c.bufferLen.toNat) ∧
    ∀ xs, c.Fills xs → c.Answers xs as

def Call.Next (p q : UInt16) : Prop :=
  p.toNat + 3 < c.messageLen.toNat ∧ c.message p.toNat ≠ c.type ∧ q = p + (c.tlvSize p + 3)

/-- The lengths never lead back to a position, a TLV of the type to which they lead ends within the
message unless the buffer is too small for it, and the only TLV of the type is not an empty one at
the end. -/
structure Call.Sound : Prop where
  apart : ∀ p, ReflTransGen c.Next 4 p → ¬TransGen c.Next p p
  inside : ∀ p, ReflTransGen c.Next 4 p → p.toNat + 3 < c.messageLen.toNat →
    c.message p.toNat = c.type → c.tlvSize p ≤ c.bufferLen →
    p.toNat + 3 + (c.tlvSize p).toNat ≤ c.messageLen.toNat
  tail : ∀ xs, c.Fills (xs ++ [(c.type, [])]) → ∃ x ∈ xs, x.1 = c.type

variable {c} {p q : UInt16} {as : List Access} {xs : List Item} {n : Nat} {v : List UInt8}

@[simp] theorem toNat_tlvSize : (c.tlvSize p).toNat = size c.message p.toNat :=
  Nat.mod_eq_of_lt size_lt

theorem round_end (h : ¬p.toNat + 3 < c.messageLen.toNat) :
    c.round p = ([.ret (-enomsg)], none) := if_neg h

theorem round_small (h : p.toNat + 3 < c.messageLen.toNat) (ht : c.message p.toNat = c.type)
    (hsize : c.bufferLen < c.tlvSize p) : c.round p =
      ([.read (p.toNat + 1), .read (p.toNat + 2), .read p.toNat, .ret (-enomem)], none) := by
  unfold Call.round
  rw [if_pos h]
  dsimp only
  rw [if_pos ht, if_pos hsize]
  rfl

theorem round_found (h : p.toNat + 3 < c.messageLen.toNat) (ht : c.message p.toNat = c.type)
    (hsize : c.tlvSize p ≤ c.bufferLen) : c.round p =
      ([.read (p.toNat + 1), .read (p.toNat + 2), .read p.toNat] ++
        c.copy p.toNat (size c.message p.toNat) ++ [.ret (size c.message p.toNat)], none) := by
  unfold Call.round
  rw [if_pos h]
  dsimp only
  rw [if_pos ht, if_neg (UInt16.not_lt.mpr hsize), toNat_tlvSize]

theorem round_next (h : c.Next p q) :
    c.round p = ([.read (p.toNat + 1), .read (p.toNat + 2), .read p.toNat], some q) := by
  unfold Call.round
  rw [if_pos h.1]
  dsimp only
  rw [if_neg h.2.1, h.2.2]

theorem round_eq_some_iff : (c.round p).2 = some q ↔ c.Next p q := by
  refine ⟨fun h => ?_, fun h => by rw [round_next h]⟩
  unfold Call.round at h
  split at h
  case isFalse => cases h
  case isTrue hin =>
    dsimp only at h
    split at h
    case isTrue => split at h <;> cases h
    case isFalse hne => exact ⟨hin, hne, (Option.some.inj h).symm⟩

theorem comes_iff_next : Comes c.round p q ↔ ReflTransGen c.Next p q := by
  simp only [comes_iff, round_eq_some_iff]

theorem returns_iff_next : (∃ t, (c.round p).2 = some t ∧ Comes c.round t p) ↔
    TransGen c.Next p p := by
  rw [comes_next_iff]
  simp only [round_eq_some_iff]

def Call.Within (c : Call) : Access → Prop
  | .read i => i < c.messageLen.toNat
  | .write i _ => i < c.bufferLen.toNat
  | .ret _ => True

theorem copy_within_iff {k : Nat} (hk : k ≤ c.bufferLen.toNat) :
    (∀ a ∈ c.copy n k, c.Within a) ↔ n + 3 + k ≤ c.messageLen.toNat ∨ k = 0 := by
  simp only [Call.copy, mem_flatMap, mem_range, forall_exists_index, and_imp]
  constructor
  · intro h
    by_cases hzero : k = 0
    · exact .inr hzero
    · have hlast : n + 3 + (k - 1) < c.messageLen.toNat :=
        h _ (k - 1) (by omega) mem_cons_self
      exact .inl (by omega)
  · intro h a i hi ha
    simp only [mem_cons, not_mem_nil, or_false] at ha
    rcases ha with rfl | rfl
    · show n + 3 + i < c.messageLen.toNat
      omega
    · show i < c.bufferLen.toNat
      omega

theorem round_within_iff : (∀ a ∈ (c.round p).1, c.Within a) ↔
    (p.toNat + 3 < c.messageLen.toNat → c.message p.toNat = c.type → c.tlvSize p ≤ c.bufferLen →
      p.toNat + 3 + (c.tlvSize p).toNat ≤ c.messageLen.toNat) := by
  by_cases hin : p.toNat + 3 < c.messageLen.toNat
  case neg =>
    rw [round_end hin]
    exact ⟨fun _ h => absurd h hin, fun _ => by simp [Call.Within]⟩
  have hheader : ∀ a ∈ ([.read (p.toNat + 1), .read (p.toNat + 2), .read p.toNat] : List Access),
      c.Within a := by
    simp only [forall_mem_cons, Call.Within]
    exact ⟨by omega, by omega, by omega, by simp⟩
  by_cases ht : c.message p.toNat = c.type
  case neg =>
    rw [round_next ⟨hin, ht, rfl⟩]
    exact ⟨fun _ _ h => absurd h ht, fun _ => hheader⟩
  by_cases hsize : c.tlvSize p ≤ c.bufferLen
  case neg =>
    rw [round_small hin ht (UInt16.not_le.mp hsize)]
    refine ⟨fun _ _ _ h => absurd h hsize, fun _ => ?_⟩
    exact forall_mem_append.mpr ⟨hheader, by simp [Call.Within]⟩
  have hle := UInt16.le_iff_toNat_le.mp hsize
  rw [toNat_tlvSize] at hle ⊢
  rw [round_found hin ht hsize, forall_mem_append, forall_mem_append,
    copy_within_iff hle]
  constructor
  · rintro ⟨⟨-, h⟩, -⟩ _ _ _
    omega
  · intro h
    exact ⟨⟨hheader, .inl (h hin ht hsize)⟩, by simp [Call.Within]⟩

/-- What is returned and written for the TLVs from a position to the end of the message. -/
def Call.result (c : Call) : List Item → Int × List (UInt8 × Nat)
  | [] => (-enomsg, [])
  | x :: xs =>
    if x.1 = c.type then
      if x.2 = [] ∧ xs = [] then (-enomsg, [])
      else if x.2.length ≤ c.bufferLen.toNat then (x.2.length, x.2.zipIdx)
      else (-enomem, [])
    else c.result xs

theorem returned_append {bs : List Access} : returned (as ++ bs) = returned as ++ returned bs :=
  filterMap_append

theorem written_append {bs : List Access} : written (as ++ bs) = written as ++ written bs :=
  filterMap_append

theorem returned_copy {k : Nat} : returned (c.copy n k) = [] := by
  rw [returned, filterMap_eq_nil_iff]
  intro a ha
  obtain ⟨i, -, ha⟩ := mem_flatMap.mp ha
  simp only [mem_cons, not_mem_nil, or_false] at ha
  rcases ha with rfl | rfl <;> rfl

theorem written_copy {k : Nat} : written (c.copy n k) = (slice c.message (n + 3) k).zipIdx := by
  have hbytes : written (c.copy n k) =
      (List.range k).map fun i => (c.message (n + 3 + i), i) := by
    rw [written, Call.copy, filterMap_flatMap, map_eq_flatMap]
    rfl
  rw [hbytes, slice]
  apply ext_getElem
  · simp
  · intro i h h'
    simp

theorem ends_result (h : Ends c.round p as) (hholds : Holds c.message p.toNat xs)
    (hlen : p.toNat + (encode xs).length = c.messageLen.toNat) :
    returned as = [(c.result xs).1] ∧ written as = (c.result xs).2 := by
  induction xs generalizing p as with
  | nil =>
    have hend : ¬p.toNat + 3 < c.messageLen.toNat := by
      rw [encode, length_nil] at hlen
      omega
    rw [h.eq_of_stop (by rw [round_end hend]), round_end hend]
    exact ⟨rfl, rfl⟩
  | cons x xs ih =>
    obtain ⟨htype, hsize, hvalue, hrest⟩ := hholds
    rw [length_encode_cons, headerSize] at hlen
    rw [headerSize] at hvalue hrest
    have hlast : (encode xs).length = 0 ↔ xs = [] := by
      cases xs <;> simp [encode]
    have htlv := toNat_tlvSize (c := c) (p := p)
    by_cases hin : p.toNat + 3 < c.messageLen.toNat
    case neg =>
      have hempty : x.2 = [] ∧ xs = [] :=
        ⟨length_eq_zero_iff.mp (by omega), hlast.mp (by omega)⟩
      rw [h.eq_of_stop (by rw [round_end hin]), round_end hin]
      have hnone : c.result (x :: xs) = (-enomsg, []) := by
        rw [Call.result, if_pos hempty, hempty.2, Call.result, ite_self]
      rw [hnone]
      exact ⟨rfl, rfl⟩
    have hmore : ¬(x.2 = [] ∧ xs = []) := by
      rintro ⟨hv, hxs⟩
      rw [hv, hxs, encode] at hlen
      simp only [length_nil] at hlen
      omega
    by_cases ht : x.1 = c.type
    case neg =>
      have hnext : c.Next p (p + (c.tlvSize p + 3)) := ⟨hin, by rwa [htype], rfl⟩
      have hq : (p + (c.tlvSize p + 3)).toNat = p.toNat + 3 + x.2.length := by
        have hlt := c.messageLen.toNat_lt
        have hthree : (3 : UInt16).toNat = 3 := rfl
        rw [UInt16.toNat_add, UInt16.toNat_add, htlv, hsize, hthree]
        omega
      obtain ⟨bs, rfl, hends⟩ := h.eq_of_next (round_eq_some_iff.mpr hnext)
      have hresult := ih hends (by rwa [hq]) (by omega)
      rw [round_next hnext, returned_append, written_append, hresult.1, hresult.2, Call.result,
        if_neg ht]
      exact ⟨rfl, rfl⟩
    rw [Call.result, if_pos ht, if_neg hmore]
    by_cases hfit : x.2.length ≤ c.bufferLen.toNat
    · have hle : c.tlvSize p ≤ c.bufferLen := by
        rw [UInt16.le_iff_toNat_le, htlv, hsize]
        exact hfit
      have hround := round_found hin (htype.trans ht) hle
      rw [h.eq_of_stop (by rw [hround]), hround, if_pos hfit, hsize, returned_append,
        returned_append, written_append, written_append, returned_copy, written_copy, hvalue]
      exact ⟨rfl, append_nil _⟩
    · have hlt : c.bufferLen < c.tlvSize p := by
        rw [UInt16.lt_iff_toNat_lt, htlv, hsize]
        exact Nat.not_le.mp hfit
      have hround := round_small hin (htype.trans ht) hlt
      rw [h.eq_of_stop (by rw [hround]), hround, if_neg hfit]
      exact ⟨rfl, rfl⟩

theorem Call.Fills.holds (h : c.Fills xs) : Holds c.message 4 xs := by
  refine holds_of_slice (fun x hx => ?_) h.bytes
  have hle := length_le_of_mem hx
  have hlen := h.length
  have hlt := c.messageLen.toNat_lt
  omega

theorem result_of_first_none (h : first c.type xs = none) : c.result xs = (-enomsg, []) := by
  rw [first_eq_none_iff] at h
  induction xs with
  | nil => rfl
  | cons x xs ih =>
    rw [forall_mem_cons] at h
    rw [Call.result, if_neg h.1, ih h.2]

theorem result_append {ys : List Item} (h : ∀ x ∈ xs, x.1 ≠ c.type) :
    c.result (xs ++ ys) = c.result ys := by
  induction xs with
  | nil => rfl
  | cons x xs ih =>
    rw [forall_mem_cons] at h
    rw [cons_append, Call.result, if_neg h.1, ih h.2]

/-- For TLVs that fill the message, the search answers unless the only TLV of the type is an empty
one at the end. -/
theorem answers_iff (h : Ends c.round 4 as) (hfills : c.Fills xs) :
    c.Answers xs as ↔ ∀ ys, xs = ys ++ [(c.type, [])] → ∃ y ∈ ys, y.1 = c.type := by
  obtain ⟨hret, hwrite⟩ := ends_result h hfills.holds hfills.length
  cases hfirst : first c.type xs with
  | none =>
    rw [Call.Answers, hfirst, hret, result_of_first_none hfirst]
    refine iff_of_true ⟨_, by decide, rfl⟩ fun ys hys => ?_
    have hne := first_eq_none_iff.mp hfirst (c.type, []) (by simp [hys])
    exact absurd rfl hne
  | some v =>
    obtain ⟨pre, post, rfl, hne⟩ := first_eq_some_iff.mp hfirst
    rw [Call.Answers, hfirst, hret, hwrite, result_append hne, Call.result, if_pos rfl]
    dsimp only
    by_cases htail : v = [] ∧ post = []
    · obtain ⟨rfl, rfl⟩ := htail
      refine iff_of_false ?_ fun hall => ?_
      · simp [enomsg]
      · obtain ⟨y, hy, ht⟩ := hall pre rfl
        exact hne y hy ht
    · rw [if_neg htail]
      refine iff_of_true ?_ fun ys hys => ?_
      · by_cases hfit : v.length ≤ c.bufferLen.toNat
        · rw [if_pos hfit, if_pos hfit]
          exact ⟨rfl, rfl⟩
        · rw [if_neg hfit, if_neg hfit]
          exact ⟨_, by decide, rfl⟩
      · rcases eq_nil_or_concat post with rfl | ⟨post, y, rfl⟩
        · obtain ⟨-, hlast⟩ := append_inj' hys rfl
          exact absurd ⟨(Prod.mk.inj (List.cons.inj hlast).1).2, rfl⟩ htail
        · refine ⟨(c.type, v), ?_, rfl⟩
          rw [concat_eq_append, ← cons_append, ← append_assoc] at hys
          obtain ⟨hys, -⟩ := append_inj' hys rfl
          rw [← hys]
          simp

/-- The search is correct just when the lengths in the message never lead back to a position, the
TLV that it copies ends within the message, and it does not look for an empty TLV at the end. -/
theorem getTLV_correct_iff (c : Call) : c.Correct ↔ c.Sound := by
  have hwithin : ∀ {as}, Ends c.round 4 as →
      (((∀ i, .read i ∈ as → i < c.messageLen.toNat) ∧
        ∀ i b, .write i b ∈ as → i < c.bufferLen.toNat) ↔ ∀ a ∈ as, c.Within a) := by
    intro as _
    constructor
    · rintro ⟨hread, hwrite⟩ (i | ⟨i, b⟩ | r) ha
      · exact hread i ha
      · exact hwrite i b ha
      · trivial
    · intro h
      exact ⟨fun i hi => h _ hi, fun i b hi => h _ hi⟩
  constructor
  · rintro ⟨as, hends, hread, hwrite, hanswers⟩
    have hall := (hends.forall_iff).mp ((hwithin hends).mp ⟨hread, hwrite⟩)
    refine ⟨fun p hp => ?_, fun p hp => ?_, fun xs hxs => ?_⟩
    · obtain ⟨bs, hbs⟩ := hends.of_comes (comes_iff_next.mpr hp)
      rw [← returns_iff_next]
      exact hbs.not_cycle
    · exact round_within_iff.mp (hall p (comes_iff_next.mpr hp))
    · exact (answers_iff hends hxs).mp (hanswers _ hxs) xs rfl
  · intro h
    obtain ⟨as, hends⟩ := exists_ends_of_acyclic
      ((Finset.range (2 ^ 16)).image UInt16.ofNat) (f := c.round) (s := 4)
      (fun t _ => Finset.mem_image.mpr ⟨t.toNat, Finset.mem_range.mpr t.toNat_lt, by simp⟩)
      (fun t ht => by
        rw [returns_iff_next]
        exact h.apart t (comes_iff_next.mp ht))
    have hall : ∀ a ∈ as, c.Within a := (hends.forall_iff).mpr fun t ht =>
      round_within_iff.mpr (h.inside t (comes_iff_next.mp ht))
    obtain ⟨hread, hwrite⟩ := (hwithin hends).mpr hall
    refine ⟨as, hends, hread, hwrite, fun xs hxs => ?_⟩
    rw [answers_iff hends hxs]
    rintro ys rfl
    exact h.tail ys hxs

/-- A TLV whose length takes the position once around keeps the search at it. -/
theorem getTLV_not_correct :
    ¬Call.Correct ⟨fun i => [0, 0, 4, 0, 0x10, 0xFD, 0xFF, 0].getD i 0, 8, 2, 4⟩ := by
  rintro ⟨as, h, -⟩
  apply Ends.not_cycle h
  exact ⟨4, by decide, .start⟩

end ModemSupport.Gobi.GetTlv
