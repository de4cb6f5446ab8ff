import ModemSupport.Cm.GetTlv

/-! `requestRegistrationState2` of the connection manager (`QMIThread.c`): the loop over the TLVs of
a GET_SYS_INFO response.  The country, the network and the data class, which it only logs, are left
out, but for the bytes that are read for them. -/

namespace ModemSupport.Cm.SysInfo

open Lib.Loop Lib.Memory Lib.Tlv List
open GetTlv (messageLength lengthOffset tlvOffset Frame Fills)

structure State where
  pPSAttachedState : UInt8
  isLte : Bool
  sIsCdma : Bool
  sHdrPersonality : UInt8

def State.init : State := ⟨0, false, false, 0⟩

def State.cdma (s : State) : State := { s with sIsCdma := !s.isLte }

def State.lte (s : State) : State := { s with isLte := true, sIsCdma := false }

/-- A `SERVICE_STATUS_INFO`, with what is done for `SrvStatus == 0x02`: the offsets behind the
header that are read, and the state.  The value of the TLV is given by its bytes behind the
header. -/
def srvStatus (v : Nat → UInt8) (f : State → State) (s : State) : List Nat × State :=
  ([0], if v 0 = 0x02 then f s else s)

def srvDomain (v : Nat → UInt8) (f : State → State) (s : State) : List Nat × State :=
  if v 0 = 0x01 then
    ([0, 1], if v 1 &&& 0x02 ≠ 0 then f { s with pPSAttachedState := 1 }
      else { s with pPSAttachedState := 0 })
  else ([0], s)

def strncpy (v : Nat → UInt8) (i : Nat) : List Nat :=
  if v i = 0 then [i] else if v (i + 1) = 0 then [i, i + 1] else [i, i + 1, i + 2]

def networkId (v : Nat → UInt8) (networkIdValid : Nat) : List Nat :=
  networkIdValid ::
    if v networkIdValid = 0x01 then strncpy v (networkIdValid + 1) ++ strncpy v (networkIdValid + 4)
    else []

def systemInfo (v : Nat → UInt8) (networkIdValid : Nat) (f : State → State) (s : State) :
    List Nat × State :=
  ((srvDomain v f s).1 ++ networkId v networkIdValid, (srvDomain v f s).2)

def hdrSystemInfo (v : Nat → UInt8) (s : State) : List Nat × State :=
  let domain := srvDomain v State.cdma s
  if domain.2.pPSAttachedState ≠ 0 then
    if v 10 = 0x01 then
      (domain.1 ++ [10, 11], if v 11 = 0x03 then { domain.2 with sHdrPersonality := 0x02 }
        else domain.2)
    else (domain.1 ++ [10], domain.2)
  else domain

def switch (t : UInt8) (v : Nat → UInt8) (s : State) : List Nat × State :=
  match t with
  | 0x10 => srvStatus v State.cdma s -- CDMA
  | 0x11 => srvStatus v State.cdma s -- HDR
  | 0x12 => srvStatus v id s -- GSM
  | 0x13 => srvStatus v id s -- WCDMA
  | 0x14 => srvStatus v State.lte s -- LTE
  | 0x24 => srvStatus v id s -- TDSCDMA
  | 0x15 => systemInfo v 35 State.cdma s
  | 0x16 => hdrSystemInfo v s
  | 0x17 => systemInfo v 19 id s -- GSM
  | 0x18 => systemInfo v 19 id s -- WCDMA
  | 0x19 => systemInfo v 19 State.lte s -- LTE
  | 0x25 => systemInfo v 19 id s -- TDSCDMA
  | _ => ([], s)

/-- The TLV that the loop comes to, what it reads of the frame, and the state at its end. -/
inductive Access where
  | tlv (p : Nat)
  | read (i : Nat)
  | done (s : State)

structure Walk where
  remainingLen : Int
  p : Nat
  state : State

variable (m : Mem)

/-- The bytes behind the header of the TLV at an address. -/
def value (p : Nat) : Nat → UInt8 := fun i => m (p + headerSize + i)

def Walk.round (w : Walk) : List Access × Option Walk :=
  if w.remainingLen > 0 then
    let tlv := switch (m w.p) (value m w.p) w.state
    (.tlv w.p :: .read w.p :: tlv.1.map (fun i => .read (w.p + headerSize + i)) ++
        [.read (w.p + 1), .read (w.p + 2)],
      some ⟨w.remainingLen - (size m w.p + 3), w.p + size m w.p + 3, tlv.2⟩)
  else ([.done w.state], none)

def TlvLoop (as : List Access) : Prop :=
  ∃ bs, Ends (Walk.round m) ⟨messageLength m, tlvOffset, State.init⟩ bs ∧
    as = [.read lengthOffset, .read (lengthOffset + 1)] ++ bs

/-- What a call returns and leaves. -/
structure Outcome where
  ret : Int
  pPSAttachedState : UInt8
  sIsCdma : Bool
  sHdrPersonality : UInt8

/-- `requestRegistrationState2` with the result of `QmiThreadSendQMI`, and with `s_is_cdma` and
`s_hdr_personality` from before. -/
def RequestRegistrationState2 (sIsCdma : Bool) (sHdrPersonality : UInt8) (err : Int)
    (pResponse : Option Mem) (o : Outcome) : Prop :=
  match pResponse with
  | none => o = ⟨err, 0, sIsCdma, sHdrPersonality⟩
  | some m =>
    let qmuxResult := ofLE (slice m (tlvOffset + headerSize) 2)
    let qmuxError := ofLE (slice m (tlvOffset + headerSize + 2) 2)
    if err < 0 then o = ⟨err, 0, sIsCdma, sHdrPersonality⟩
    else if qmuxResult ≠ 0 ∨ qmuxError ≠ 0 then o = ⟨qmuxError, 0, sIsCdma, sHdrPersonality⟩
    else ∃ as s, TlvLoop m as ∧ .done s ∈ as ∧
      o = ⟨0, s.pPSAttachedState, s.sIsCdma, s.sHdrPersonality⟩

def visited (as : List Access) : List Nat :=
  as.filterMap fun
    | .tlv p => some p
    | .read _ | .done _ => none

def offsets : Nat → List Item → List Nat
  | _, [] => []
  | p, x :: xs => p :: offsets (p + x.2.length + 3) xs

def LoopCorrect (f : Frame) : Prop :=
  ∃ as, TlvLoop f.mem as ∧ (∀ i, .read i ∈ as → i < f.nreads) ∧
    ∀ xs, Fills f.mem xs → visited as = offsets tlvOffset xs

/-- The fields of a TLV that are read, which depends on whether the TLVs before it announced the
packet-switched domain. -/
def fields (t : UInt8) (v : Nat → UInt8) (attached : UInt8) : List Nat :=
  (switch t v { State.init with pPSAttachedState := attached }).1

def isSystemInfo : UInt8 → Bool
  | 0x15 | 0x16 | 0x17 | 0x18 | 0x19 | 0x25 => true
  | _ => false

def attachedAfter (t : UInt8) (v : Nat → UInt8) (attached : UInt8) : UInt8 :=
  if isSystemInfo t ∧ v 0 = 0x01 then (if v 1 &&& 0x02 ≠ 0 then 1 else 0) else attached

inductive Leads : UInt8 → Nat → Prop
  | start : Leads 0 tlvOffset
  | next {a : UInt8} {p : Nat} : Leads a p → p < tlvOffset + messageLength m →
      Leads (attachedAfter (m p) (value m p) a) (p + size m p + 3)

/-- The headers and the fields of the TLVs to which the lengths lead are in the frame. -/
structure LoopSound (f : Frame) : Prop where
  header : tlvOffset ≤ f.nreads
  tlv : ∀ a p, Leads f.mem a p → p < tlvOffset + messageLength f.mem →
    p + headerSize ≤ f.nreads ∧
      ∀ i ∈ fields (f.mem p) (value f.mem p) a, p + headerSize + i < f.nreads

variable {m} {t : UInt8} {v : Nat → UInt8} {s : State} {w u : Walk} {as : List Access}
  {xs : List Item} {p : Nat} {f : Frame}

theorem srvDomain_attached {g : State → State}
    (hg : ∀ s, (g s).pPSAttachedState = s.pPSAttachedState) :
    (srvDomain v g s).2.pPSAttachedState =
      if v 0 = 0x01 then (if v 1 &&& 0x02 ≠ 0 then 1 else 0) else s.pPSAttachedState := by
  unfold srvDomain
  split
  · dsimp only
    split
    · rw [hg]
    · rfl
  · rfl

theorem hdrSystemInfo_attached : (hdrSystemInfo v s).2.pPSAttachedState =
    (srvDomain v State.cdma s).2.pPSAttachedState := by
  unfold hdrSystemInfo
  dsimp only
  repeat' split
  all_goals rfl

theorem srvDomain_fst {g : State → State} :
    (srvDomain v g s).1 = if v 0 = 0x01 then [0, 1] else [0] := by
  unfold srvDomain
  split <;> rfl

theorem hdrSystemInfo_fst : (hdrSystemInfo v s).1 =
    (if v 0 = 0x01 then [0, 1] else [0]) ++
      if (srvDomain v State.cdma s).2.pPSAttachedState ≠ 0 then
        if v 10 = 0x01 then [10, 11] else [10]
      else [] := by
  unfold hdrSystemInfo
  dsimp only
  split
  · split <;> rw [srvDomain_fst]
  · rw [srvDomain_fst, append_nil]

theorem srvStatus_attached {g : State → State}
    (hg : ∀ s, (g s).pPSAttachedState = s.pPSAttachedState) :
    (srvStatus v g s).2.pPSAttachedState = s.pPSAttachedState := by
  unfold srvStatus
  dsimp only
  split
  · exact hg s
  · rfl

theorem isSystemInfo_iff : isSystemInfo t = true ↔
    t = 0x15 ∨ t = 0x16 ∨ t = 0x17 ∨ t = 0x18 ∨ t = 0x19 ∨ t = 0x25 := by
  unfold isSystemInfo
  split <;> simp_all

theorem attachedAfter_of_info {a : UInt8} (h : isSystemInfo t = true) :
    attachedAfter t v a = if v 0 = 0x01 then (if v 1 &&& 0x02 ≠ 0 then 1 else 0) else a := by
  simp only [attachedAfter, h, true_and]

theorem switch_attached :
    (switch t v s).2.pPSAttachedState = attachedAfter t v s.pPSAttachedState := by
  unfold switch
  split
  case h_7 | h_9 | h_10 | h_11 | h_12 =>
    rw [attachedAfter_of_info (by decide)]
    exact srvDomain_attached fun _ => rfl
  case h_8 =>
    rw [attachedAfter_of_info (by decide), hdrSystemInfo_attached]
    exact srvDomain_attached fun _ => rfl
  case h_13 =>
    have hother : ¬isSystemInfo t = true := by
      rw [isSystemInfo_iff]
      tauto
    simp [attachedAfter, hother]
  all_goals exact srvStatus_attached fun _ => rfl

theorem switch_fst : (switch t v s).1 = fields t v s.pPSAttachedState := by
  unfold fields switch
  split
  case h_8 =>
    rw [hdrSystemInfo_fst, hdrSystemInfo_fst, srvDomain_attached (g := State.cdma) fun _ => rfl,
      srvDomain_attached (g := State.cdma) fun _ => rfl]
  case h_7 | h_9 | h_10 | h_11 | h_12 =>
    unfold systemInfo
    rw [srvDomain_fst, srvDomain_fst]
  all_goals rfl

theorem round_end (h : ¬w.remainingLen > 0) : w.round m = ([.done w.state], none) := if_neg h

theorem round_next (h : w.remainingLen > 0) : w.round m =
    (.tlv w.p :: .read w.p ::
      (fields (m w.p) (value m w.p) w.state.pPSAttachedState).map
        (fun i => .read (w.p + headerSize + i)) ++ [.read (w.p + 1), .read (w.p + 2)],
      some ⟨w.remainingLen - (size m w.p + 3), w.p + size m w.p + 3,
        (switch (m w.p) (value m w.p) w.state).2⟩) := by
  rw [Walk.round, if_pos h]
  dsimp only
  rw [switch_fst]

theorem round_eq_some_iff : (w.round m).2 = some u ↔ w.remainingLen > 0 ∧
    u = ⟨w.remainingLen - (size m w.p + 3), w.p + size m w.p + 3,
      (switch (m w.p) (value m w.p) w.state).2⟩ := by
  by_cases h : w.remainingLen > 0
  · rw [round_next h]
    exact ⟨fun hu => ⟨h, (Option.some.inj hu).symm⟩, fun hu => congrArg some hu.2.symm⟩
  · rw [round_end h]
    exact iff_of_false (by simp) fun h' => h h'.1

theorem exists_ends_round : ∃ as, Ends (Walk.round m) w as := by
  apply exists_ends fun w => w.remainingLen.toNat
  intro t _ u hu
  obtain ⟨hmore, rfl⟩ := round_eq_some_iff.mp hu
  show (t.remainingLen - (size m t.p + 3)).toNat < t.remainingLen.toNat
  omega

theorem leads_of_comes (h : Comes (Walk.round m) ⟨messageLength m, tlvOffset, State.init⟩ w) :
    w.remainingLen = tlvOffset + messageLength m - w.p ∧
      Leads m w.state.pPSAttachedState w.p := by
  induction h with
  | start => exact ⟨by dsimp only; omega, .start⟩
  | next _ hnext ih =>
    obtain ⟨hlen, hleads⟩ := ih
    obtain ⟨hmore, rfl⟩ := round_eq_some_iff.mp hnext
    refine ⟨?_, ?_⟩
    · dsimp only
      omega
    · dsimp only
      rw [switch_attached]
      exact .next hleads (by omega)

theorem comes_of_leads {a : UInt8} (h : Leads m a p) :
    ∃ w, Comes (Walk.round m) ⟨messageLength m, tlvOffset, State.init⟩ w ∧
      w.p = p ∧ w.state.pPSAttachedState = a := by
  induction h with
  | start => exact ⟨_, .start, rfl, rfl⟩
  | next _ hmore ih =>
    obtain ⟨w, hcomes, rfl, rfl⟩ := ih
    have hlen := (leads_of_comes hcomes).1
    refine ⟨_, .next hcomes (round_eq_some_iff.mpr ⟨by omega, rfl⟩), rfl, ?_⟩
    exact switch_attached

def Within (f : Frame) : Access → Prop
  | .read i => i < f.nreads
  | .tlv _ | .done _ => True

theorem round_within_iff : (∀ a ∈ (w.round f.mem).1, Within f a) ↔
    (w.remainingLen > 0 → w.p + headerSize ≤ f.nreads ∧
      ∀ i ∈ fields (f.mem w.p) (value f.mem w.p) w.state.pPSAttachedState,
        w.p + headerSize + i < f.nreads) := by
  by_cases h : w.remainingLen > 0
  case neg =>
    rw [round_end h]
    exact iff_of_true (by simp [Within]) fun h' => absurd h' h
  rw [round_next h]
  simp only [cons_append, forall_mem_cons, forall_mem_append, List.forall_mem_map,
    not_mem_nil, false_implies, implies_true, and_true, Within, h, forall_const, headerSize]
  constructor
  · rintro ⟨-, -, hfields, hlength⟩
    exact ⟨by omega, hfields⟩
  · rintro ⟨hle, hfields⟩
    exact ⟨trivial, by omega, hfields, by omega⟩

theorem visited_round (h : w.remainingLen > 0) : visited (w.round m).1 = [w.p] := by
  have hfields : ∀ l : List Nat,
      visited (l.map fun i => Access.read (w.p + headerSize + i)) = [] := by
    intro l
    rw [visited, filterMap_map, filterMap_eq_nil_iff]
    intro i _
    rfl
  rw [round_next h]
  rw [visited, filterMap_append]
  show w.p :: (visited (List.map _ _) ++ []) = [w.p]
  rw [hfields]
  rfl

theorem visited_of_ends (h : Ends (Walk.round m) w as) (hholds : Holds m w.p xs)
    (hlen : w.remainingLen = (encode xs).length) : visited as = offsets w.p xs := by
  induction xs generalizing w as with
  | nil =>
    have hround := round_end (m := m) (w := w) (by rw [hlen]; simp [encode])
    rw [h.eq_of_stop (by rw [hround]), hround]
    rfl
  | cons x xs ih =>
    obtain ⟨-, hsize, -, hrest⟩ := hholds
    rw [length_encode_cons, headerSize] at hlen
    have hmore : w.remainingLen > 0 := by omega
    have hround := round_next (m := m) hmore
    obtain ⟨bs, rfl, hends⟩ := h.eq_of_next (by rw [hround])
    have hp : w.p + headerSize + x.2.length = w.p + size m w.p + 3 := by
      rw [hsize, headerSize]
      omega
    have hvisited := ih hends (hp ▸ hrest) (by dsimp only; omega)
    rw [visited, filterMap_append, ← visited, ← visited, visited_round hmore, hvisited,
      offsets, hsize]
    rfl

theorem loopCorrect_iff : LoopCorrect f ↔ LoopSound f := by
  constructor
  · rintro ⟨as, ⟨bs, hends, rfl⟩, hread, -⟩
    have hall : ∀ a ∈ bs, Within f a := by
      rintro (p | i | s) ha
      · trivial
      · exact hread i (mem_append_right _ ha)
      · trivial
    rw [hends.forall_iff] at hall
    refine ⟨?_, fun a p hleads hmore => ?_⟩
    · have hlast : lengthOffset + 1 < f.nreads := hread _ (by simp)
      exact hlast
    · obtain ⟨w, hcomes, rfl, rfl⟩ := comes_of_leads hleads
      have hlen := (leads_of_comes hcomes).1
      exact round_within_iff.mp (hall w hcomes) (by omega)
  · intro h
    obtain ⟨bs, hends⟩ := exists_ends_round (m := f.mem)
      (w := ⟨messageLength f.mem, tlvOffset, State.init⟩)
    have hall : ∀ a ∈ bs, Within f a := by
      rw [hends.forall_iff]
      intro w hcomes
      obtain ⟨hlen, hleads⟩ := leads_of_comes hcomes
      rw [round_within_iff]
      intro hmore
      exact h.tlv _ _ hleads (by omega)
    have hheader := h.header
    refine ⟨_, ⟨bs, hends, rfl⟩, fun i hi => ?_, fun xs hxs => ?_⟩
    · rcases mem_append.mp hi with hi | hi
      · simp only [mem_cons, Access.read.injEq, not_mem_nil, or_false] at hi
        rw [tlvOffset] at hheader
        rw [lengthOffset] at hi
        omega
      · exact hall _ hi
    · rw [visited, filterMap_append, ← visited, ← visited,
        visited_of_ends hends hxs.holds (by rw [hxs.length])]
      rfl

/-- The search for a TLV and the loop over the TLVs stay within the frame just when the TLVs do that
they come to. -/
theorem tlvs_correct_iff (f : Frame) (tlvType : Int) :
    f.Correct tlvType ∧ LoopCorrect f ↔ f.Sound tlvType ∧ LoopSound f :=
  and_congr GetTlv.Frame.correct_iff loopCorrect_iff

def shortFrame : Frame where
  mem i := [1, 12, 0, 0x80, 3, 1, 2, 1, 0, 0x4D, 0, 7, 0].getD i 0
  nreads := 13
  pos := by decide
  le := by decide
  accepted := by decide

/-- The message of a frame may be longer than the frame. -/
theorem shortFrame_not_correct : ¬(shortFrame.Correct 1 ∧ LoopCorrect shortFrame) := by
  rintro ⟨h, -⟩
  have hsound := GetTlv.Frame.correct_iff.mp h
  exact absurd (hsound.passed 0 tlvOffset .start (by decide) (by decide)) (by decide)

end ModemSupport.Cm.SysInfo
