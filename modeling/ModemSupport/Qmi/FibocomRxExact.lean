import ModemSupport.Qmi.FibocomRx

/-! When `qmap_qmi_wwan_rx_fixup` gives the devices exactly the packets in front of the first frame
that is not valid, and what the headers in the received buffer are written over. -/

namespace ModemSupport.Qmi.Fibocom

open Lib.Memory List

variable (q : SQmiWwanQmap)

/-- The packets of the valid frames, in order, up to the first frame that is not valid: one that a
check rejects, or whose padding is longer than all of it. -/
def validPrefix (m : Mem) : (fuel data len : Nat) → List RxFrame
  | 0, _, _ => []
  | fuel + 1, data, len =>
    if len ≤ qmapHdrSize then []
    else
      match frame q m data len with
      | .error => []
      | .skip pktLen =>
        validPrefix m fuel (data + (pktLen + qmapHdrSize)) (len - (pktLen + qmapHdrSize))
      | .packet dev net protocol pktLen pad =>
        if pktLen < pad then []
        else
          ⟨dev, q.ethHdr net protocol ++ slice m (data + qmapHdrSize) (pktLen - pad)⟩ ::
            validPrefix m fuel (data + (pktLen + qmapHdrSize)) (len - (pktLen + qmapHdrSize))

/-- A header is written over no byte of a packet that is queued, nor of what is still used. -/
def Push.Apart (p : Push) : Prop :=
  p.data + ethHlen ≤ p.rest ∧
    ∀ dev data len, .clone dev data len ∈ p.skbChain → data + len ≤ p.data

/-- The devices get the packets of the valid frames, each as it was received, `skb_chain` is empty,
and no header is written over a packet. -/
def Exact (alloc : Nat → Bool) (mem : Mem) (headroom len : Nat) (skbChain : List QmapSkb) : Prop :=
  ∃ result, rxFixup q alloc mem headroom len skbChain = some result ∧
    result.delivered = validPrefix q mem len headroom len ∧ result.skbChain = [] ∧
      ∀ p ∈ result.pushes, p.Apart

/-- The frames from one on: one that is rejected comes in front of all packets, and so does one with
a negative length, for which there is no memory; there is memory for the packets. -/
def Fits (alloc : Nat → Bool) (m : Mem) : (fuel data len : Nat) → (queued : Bool) → Prop
  | 0, _, _, _ => True
  | fuel + 1, data, len, queued =>
    if len ≤ qmapHdrSize then True
    else
      match frame q m data len with
      | .error => queued = false
      | .skip pktLen =>
        Fits alloc m fuel (data + (pktLen + qmapHdrSize)) (len - (pktLen + qmapHdrSize)) queued
      | .packet _ _ _ pktLen pad =>
        if pktLen < pad then queued = false ∧ alloc data = false
        else
          alloc data = true ∧
            Fits alloc m fuel (data + (pktLen + qmapHdrSize)) (len - (pktLen + qmapHdrSize)) true

variable {q} {m : Mem} {s t : State} {alloc : Nat → Bool} {fuel data len pktLen pad : Nat}
  {dev : Fin 4} {net : NetDevice} {protocol : UInt16}

theorem frame_congr {m' : Mem} (h : ∀ i, data ≤ i → m i = m' i) :
    frame q m data len = frame q m' data len := by
  unfold frame
  rw [h data (Nat.le_refl _), h (data + 1) (by omega), h (data + 2) (by omega),
    h (data + 3) (by omega), h (data + qmapHdrSize) (by omega)]

/-- The buffer from the start of the data on is as it was received, and a packet in it ends in front
of the data, and of the next header when there is headroom. -/
structure Inv (m : Mem) (s : State) : Prop where
  mem : ∀ i, s.data ≤ i → s.mem i = m i
  ends : ∀ dev data len, .clone dev data len ∈ s.skbChain →
    data + len ≤ s.data ∧ (ethHlen ≤ s.headroom → data + len + ethHlen ≤ s.data + qmapHdrSize)
  headroom : ethHlen ≤ s.headroom → ethHlen ≤ s.data + qmapHdrSize
  pushes : ∀ p ∈ s.pushes, p.Apart

theorem Inv.frame (h : Inv m s) : frame q s.mem s.data len = frame q m s.data len :=
  frame_congr h.mem

theorem Inv.pull (h : Inv m s) (n : Nat) : Inv m (s.pull n) where
  mem i hi := h.mem i (Nat.le_trans (Nat.le_add_right _ _) hi)
  ends dev data len hmem := by
    obtain ⟨hend, hroom⟩ := h.ends dev data len hmem
    refine ⟨Nat.le_trans hend (Nat.le_add_right _ _), fun hge => ?_⟩
    have hroom := hroom hge
    show data + len + ethHlen ≤ s.data + n + qmapHdrSize
    omega
  headroom hge := by
    have hroom := h.headroom hge
    show ethHlen ≤ s.data + n + qmapHdrSize
    omega
  pushes := h.pushes

theorem length_ethHdr : (q.ethHdr net protocol).length = ethHlen := by
  simp [SQmiWwanQmap.ethHdr, cpuToBe16, ethHlen]

theorem Inv.packet (h : Inv m s) (q : SQmiWwanQmap) (dev : Fin 4) (net : NetDevice)
    (protocol : UInt16) (hpad : pad ≤ pktLen) :
    ∃ t, s.packet q true dev net protocol pktLen pad = .next t ∧
      Inv m (t.pull (pktLen + qmapHdrSize)) ∧ t.data = s.data ∧ t.len = s.len ∧
      t.skbChain ≠ [] ∧ t.skbChain.map (QmapSkb.resolve t.mem) =
        s.skbChain.map (QmapSkb.resolve s.mem) ++
          [⟨dev, q.ethHdr net protocol ++ slice m (s.data + qmapHdrSize) (pktLen - pad)⟩] := by
  have hdata : slice s.mem (s.data + qmapHdrSize) (pktLen - pad) =
      slice m (s.data + qmapHdrSize) (pktLen - pad) :=
    slice_congr fun i hi _ => h.mem i (by omega)
  have hhdr : (q.ethHdr net protocol).length = ethHlen := length_ethHdr
  unfold State.packet
  dsimp only
  rw [if_neg (by decide)]
  by_cases hroom : s.headroom ≥ ethHlen
  · have hstart := h.headroom hroom
    rw [if_pos hroom, if_neg (by omega), if_neg (by omega)]
    have hstart' : s.data + qmapHdrSize - ethHlen + ethHlen = s.data + qmapHdrSize := by omega
    have hends {dev data len} (hmem : .clone dev data len ∈ s.skbChain) :
        data + len ≤ s.data + qmapHdrSize - ethHlen := by
      have := (h.ends dev data len hmem).2 hroom
      omega
    have hself {a : Nat} : slice (put s.mem a ((q.ethHdr net protocol).map some)) a ethHlen =
        q.ethHdr net protocol := by
      rw [← hhdr]
      exact slice_put_self
    refine ⟨_, rfl, ⟨fun i hi => ?_, fun dev' data len hmem => ?_, fun hge => ?_, fun p hp => ?_⟩,
      rfl, rfl, by simp, ?_⟩
    · have hi : s.data + (pktLen + qmapHdrSize) ≤ i := hi
      exact (put_of_not_mem (by omega)).trans (h.mem i (by omega))
    · show data + len ≤ s.data + (pktLen + qmapHdrSize) ∧
        (ethHlen ≤ pad → data + len + ethHlen ≤ s.data + (pktLen + qmapHdrSize) + qmapHdrSize)
      rcases mem_append.mp hmem with hold | hnew
      · have := (h.ends dev' data len hold).1
        simp only [ethHlen, qmapHdrSize]
        omega
      · cases mem_singleton.mp hnew
        omega
    · show ethHlen ≤ s.data + (pktLen + qmapHdrSize) + qmapHdrSize
      omega
    · rcases mem_append.mp hp with hold | hnew
      · exact h.pushes p hold
      · cases mem_singleton.mp hnew
        exact ⟨Nat.le_of_eq hstart', fun _ _ _ hmem => hends hmem⟩
    · have hkept : s.skbChain.map (QmapSkb.resolve (put s.mem (s.data + qmapHdrSize - ethHlen)
          ((q.ethHdr net protocol).map some))) = s.skbChain.map (QmapSkb.resolve s.mem) := by
        apply map_congr_left
        intro p hp
        cases p with
        | copy dev bytes => rfl
        | clone dev data len =>
          exact congrArg (RxFrame.mk dev) (slice_put_of_apart (.inl (hends hp)))
      simp only [map_append, map_cons, map_nil, hkept, QmapSkb.resolve]
      rw [slice_append, hstart', hself, slice_put_of_apart (.inr (by rw [hhdr]; omega)), hdata]
  · rw [if_neg hroom, if_neg (by omega)]
    refine ⟨_, rfl, ⟨fun i hi => ?_, fun dev' data len hmem => ?_, fun hge => ?_, h.pushes⟩,
      rfl, rfl, by simp, ?_⟩
    · have hi : s.data + (pktLen + qmapHdrSize) ≤ i := hi
      exact h.mem i (by omega)
    · show data + len ≤ s.data + (pktLen + qmapHdrSize) ∧
        (ethHlen ≤ pktLen → data + len + ethHlen ≤ s.data + (pktLen + qmapHdrSize) + qmapHdrSize)
      rcases mem_append.mp hmem with hold | hnew
      · have := (h.ends dev' data len hold).1
        omega
      · cases mem_singleton.mp hnew
    · show ethHlen ≤ s.data + (pktLen + qmapHdrSize) + qmapHdrSize
      have hge : ethHlen ≤ pktLen := hge
      omega
    · simp only [map_append, map_cons, map_nil, hdata, QmapSkb.resolve]

theorem round_error (h : frame q s.mem s.data s.len = .error) : s.round q alloc = .leave := by
  rw [State.round, h]

theorem round_skip (h : frame q s.mem s.data s.len = .skip pktLen) :
    s.round q alloc = .next (s.pull (pktLen + qmapHdrSize)) := by
  rw [State.round, h]

theorem round_packet (h : frame q s.mem s.data s.len = .packet dev net protocol pktLen pad)
    (ht : s.packet q (alloc s.data) dev net protocol pktLen pad = .next t) :
    s.round q alloc = .next (t.pull (pktLen + qmapHdrSize)) := by
  simp only [State.round, h, ht]

theorem packet_next {ok : Bool} (h : s.packet q ok dev net protocol pktLen pad = .next t) :
    ok = true ∧ t.data = s.data ∧ t.len = s.len ∧ (∃ p, t.skbChain = s.skbChain ++ [p]) ∧
      ∀ i, s.data + qmapHdrSize ≤ i → t.mem i = s.mem i := by
  unfold State.packet at h
  dsimp only at h
  split at h
  · cases h
  next hok =>
    have hok : ok = true := by simpa using hok
    split at h
    · split at h
      · cases h
      next hstart =>
        cases h
        refine ⟨hok, rfl, rfl, ⟨_, rfl⟩, fun i hi => put_of_not_mem ?_⟩
        rw [length_ethHdr]
        omega
    · split at h <;> cases h
      exact ⟨hok, rfl, rfl, ⟨_, rfl⟩, fun _ _ => rfl⟩

theorem packet_leave {ok : Bool} (h : s.packet q ok dev net protocol pktLen pad = .leave) :
    ok = false := by
  unfold State.packet at h
  dsimp only at h
  split at h
  next hok => exact hok
  · split at h
    · split at h <;> cases h
    · split at h <;> cases h

theorem round_next (h : s.round q alloc = .next t) :
    (∃ pktLen, frame q s.mem s.data s.len = .skip pktLen ∧ t = s.pull (pktLen + qmapHdrSize)) ∨
    (∃ dev net protocol pktLen pad t',
      frame q s.mem s.data s.len = .packet dev net protocol pktLen pad ∧
      s.packet q (alloc s.data) dev net protocol pktLen pad = .next t' ∧
      t = t'.pull (pktLen + qmapHdrSize)) := by
  unfold State.round at h
  split at h
  · cases h
  next pktLen hframe =>
    cases h
    exact .inl ⟨pktLen, hframe, rfl⟩
  next dev net protocol pktLen pad hframe =>
    split at h
    next t' ht =>
      cases h
      exact .inr ⟨dev, net, protocol, pktLen, pad, t', hframe, ht, rfl⟩
    · cases h
    · cases h

theorem round_leave (h : s.round q alloc = .leave) :
    frame q s.mem s.data s.len = .error ∨ ∃ dev net protocol pktLen pad,
      frame q s.mem s.data s.len = .packet dev net protocol pktLen pad ∧ alloc s.data = false := by
  unfold State.round at h
  split at h
  next hframe => exact .inl hframe
  · cases h
  next dev net protocol pktLen pad hframe =>
    split at h
    · cases h
    next ht => exact .inr ⟨dev, net, protocol, pktLen, pad, hframe, packet_leave ht⟩
    · cases h

theorem next_of_done (hover : ¬s.len ≤ qmapHdrSize) (h : loop q alloc (fuel + 1) s = .done t) :
    ∃ u, s.round q alloc = .next u ∧ loop q alloc fuel u = .done t := by
  rw [loop, if_neg hover] at h
  cases hround : s.round q alloc with
  | leave =>
    rw [hround] at h
    cases h
  | crash =>
    rw [hround] at h
    cases h
  | next u =>
    rw [hround] at h
    exact ⟨u, rfl, h⟩

theorem loop_of_fits (h : Inv m s)
    (hfits : Fits q alloc m fuel s.data s.len (decide (s.skbChain ≠ []))) :
    (∃ t, loop q alloc fuel s = .done t ∧ (∀ p ∈ t.pushes, p.Apart) ∧
      t.skbChain.map (QmapSkb.resolve t.mem) =
        s.skbChain.map (QmapSkb.resolve s.mem) ++ validPrefix q m fuel s.data s.len) ∨
    (∃ t, loop q alloc fuel s = .leave t ∧ (∀ p ∈ t.pushes, p.Apart) ∧ t.skbChain = [] ∧
      s.skbChain = [] ∧ validPrefix q m fuel s.data s.len = []) := by
  induction fuel generalizing s with
  | zero => exact .inl ⟨s, rfl, h.pushes, by simp [validPrefix]⟩
  | succ fuel ih =>
    rw [Fits] at hfits
    rw [loop, validPrefix]
    by_cases hover : s.len ≤ qmapHdrSize
    · rw [if_pos hover, if_pos hover]
      exact .inl ⟨s, rfl, h.pushes, by simp⟩
    rw [if_neg hover] at hfits ⊢
    rw [if_neg hover]
    have hframe : frame q s.mem s.data s.len = frame q m s.data s.len := h.frame
    cases hm : frame q m s.data s.len with
    | error =>
      rw [hm] at hfits hframe
      rw [round_error hframe]
      have hnil : s.skbChain = [] := by simpa using hfits
      exact .inr ⟨s, rfl, h.pushes, hnil, hnil, rfl⟩
    | skip pktLen =>
      rw [hm] at hfits hframe
      rw [round_skip hframe]
      exact ih (h.pull _) hfits
    | packet dev net protocol pktLen pad =>
      rw [hm] at hfits hframe
      dsimp only at hfits ⊢
      by_cases hpad : pktLen < pad
      · rw [if_pos hpad] at hfits
        obtain ⟨hqueued, halloc⟩ := hfits
        have hnil : s.skbChain = [] := by simpa using hqueued
        have hround : s.round q alloc = .leave := by
          simp only [State.round, hframe, State.packet, halloc, if_pos]
        rw [hround, if_pos hpad]
        exact .inr ⟨s, rfl, h.pushes, hnil, hnil, rfl⟩
      · rw [if_neg hpad] at hfits
        obtain ⟨halloc, hfits⟩ := hfits
        obtain ⟨t, ht, hinv, hdata, hlen, hne, hmap⟩ := h.packet q dev net protocol
          (Nat.not_lt.mp hpad)
        rw [← halloc] at ht
        rw [round_packet hframe ht, if_neg hpad]
        have hfits' : Fits q alloc m fuel (t.pull (pktLen + qmapHdrSize)).data
            (t.pull (pktLen + qmapHdrSize)).len
            (decide ((t.pull (pktLen + qmapHdrSize)).skbChain ≠ [])) := by
          have hqueued : decide ((t.pull (pktLen + qmapHdrSize)).skbChain ≠ []) = true :=
            decide_eq_true hne
          rw [hqueued]
          simpa only [State.pull, hdata, hlen] using hfits
        rcases ih hinv hfits' with ⟨t', hloop, hpushes, hresolve⟩ | ⟨t', -, -, -, hnil, -⟩
        · refine .inl ⟨t', hloop, hpushes, hresolve.trans ?_⟩
          simp only [State.pull, hdata, hlen, hmap, append_assoc, singleton_append]
        · exact absurd hnil hne

theorem fits_of_done (queued : Bool) (hmem : ∀ i, s.data ≤ i → s.mem i = m i)
    (h : loop q alloc fuel s = .done t) :
    s.skbChain.length + (validPrefix q m fuel s.data s.len).length ≤ t.skbChain.length ∧
      (t.skbChain.length = s.skbChain.length + (validPrefix q m fuel s.data s.len).length →
        Fits q alloc m fuel s.data s.len queued) := by
  induction fuel generalizing s queued with
  | zero =>
    cases h
    exact ⟨Nat.le_refl _, fun _ => trivial⟩
  | succ fuel ih =>
    rw [Fits, validPrefix]
    by_cases hover : s.len ≤ qmapHdrSize
    · rw [loop, if_pos hover] at h
      rw [if_pos hover]
      cases h
      exact ⟨Nat.le_refl _, fun _ => by rw [if_pos hover]; trivial⟩
    rw [if_neg hover, if_neg hover]
    have hframe : frame q s.mem s.data s.len = frame q m s.data s.len := frame_congr hmem
    obtain ⟨u, hround, hnext⟩ := next_of_done hover h
    rcases round_next hround with ⟨pktLen, hm, rfl⟩ |
      ⟨dev, net, protocol, pktLen, pad, u, hm, hu, rfl⟩
    · rw [hframe] at hm
      rw [hm]
      have hmem' : ∀ i, (s.pull (pktLen + qmapHdrSize)).data ≤ i → s.mem i = m i :=
        fun i hi => hmem i (Nat.le_trans (Nat.le_add_right _ _) hi)
      exact ih queued hmem' hnext
    · rw [hframe] at hm
      rw [hm]
      obtain ⟨halloc, hdata, hlen, ⟨p, hchain⟩, hkept⟩ := packet_next hu
      have hmem' : ∀ i, (u.pull (pktLen + qmapHdrSize)).data ≤ i →
          (u.pull (pktLen + qmapHdrSize)).mem i = m i := by
        intro i hi
        have hi : u.data + (pktLen + qmapHdrSize) ≤ i := hi
        exact (hkept i (by omega)).trans (hmem i (by omega))
      obtain ⟨hle, hfits⟩ := ih true hmem' hnext
      simp only [State.pull, hdata, hlen, hchain, length_append, length_singleton]
        at hle hfits
      dsimp only
      by_cases hpad : pktLen < pad
      · rw [if_pos hpad, if_pos hpad, length_nil]
        exact ⟨by omega, fun heq => by omega⟩
      · rw [if_neg hpad, if_neg hpad, length_cons]
        exact ⟨by omega, fun heq => ⟨halloc, hfits (by omega)⟩⟩

theorem length_le_of_leave (h : loop q alloc fuel s = .leave t) :
    s.skbChain.length ≤ t.skbChain.length := by
  induction fuel generalizing s with
  | zero => cases h
  | succ fuel ih =>
    rw [loop] at h
    split at h
    · cases h
    · cases hround : s.round q alloc with
      | crash =>
        rw [hround] at h
        cases h
      | leave =>
        rw [hround] at h
        cases h
        exact Nat.le_refl _
      | next u =>
        rw [hround] at h
        have hle := ih h
        rcases round_next hround with ⟨pktLen, -, rfl⟩ | ⟨_, _, _, pktLen, _, u, -, hu, rfl⟩
        · exact hle
        · obtain ⟨-, -, -, ⟨p, hchain⟩, -⟩ := packet_next hu
          simp only [State.pull, hchain, length_append] at hle
          omega

theorem fits_of_leave (hmem : ∀ i, s.data ≤ i → s.mem i = m i) (h : loop q alloc fuel s = .leave t)
    (hnil : t.skbChain = []) (hvalid : validPrefix q m fuel s.data s.len = []) :
    Fits q alloc m fuel s.data s.len false := by
  induction fuel generalizing s with
  | zero => cases h
  | succ fuel ih =>
    rw [loop] at h
    rw [validPrefix] at hvalid
    rw [Fits]
    by_cases hover : s.len ≤ qmapHdrSize
    · rw [if_pos hover] at h
      cases h
    rw [if_neg hover] at h hvalid ⊢
    have hframe : frame q s.mem s.data s.len = frame q m s.data s.len := frame_congr hmem
    cases hround : s.round q alloc with
    | crash =>
      rw [hround] at h
      cases h
    | leave =>
      rcases round_leave hround with hm | ⟨dev, net, protocol, pktLen, pad, hm, halloc⟩
      · rw [← hframe, hm]
      · rw [← hframe, hm] at hvalid ⊢
        dsimp only at hvalid ⊢
        by_cases hpad : pktLen < pad
        · rw [if_pos hpad]
          exact ⟨rfl, halloc⟩
        · rw [if_neg hpad] at hvalid
          cases hvalid
    | next u =>
      rw [hround] at h
      rcases round_next hround with ⟨pktLen, hm, rfl⟩ | ⟨_, _, _, pktLen, _, u, -, hu, rfl⟩
      · rw [← hframe, hm] at hvalid ⊢
        have hmem' : ∀ i, (s.pull (pktLen + qmapHdrSize)).data ≤ i → s.mem i = m i :=
          fun i hi => hmem i (Nat.le_trans (Nat.le_add_right _ _) hi)
        exact ih hmem' h hvalid
      · obtain ⟨-, -, -, ⟨p, hchain⟩, -⟩ := packet_next hu
        have hle := length_le_of_leave h
        simp only [State.pull, hchain, hnil, length_append, length_nil] at hle
        simp at hle

/-- The devices get exactly the packets of the valid frames just when nothing has been left in
`skb_chain` and the condition holds. -/
theorem rx_fixup_exact (q : SQmiWwanQmap) (alloc : Nat → Bool) (mem : Mem) (headroom len : Nat)
    (skbChain : List QmapSkb) :
    Exact q alloc mem headroom len skbChain ↔
      skbChain = [] ∧ Fits q alloc mem len headroom len false := by
  constructor
  · rintro ⟨result, hresult, hdelivered, hempty, -⟩
    unfold rxFixup at hresult
    split at hresult
    next t hloop =>
      cases hresult
      obtain ⟨hle, hfits⟩ := fits_of_done false (fun _ _ => rfl) hloop
      have hlength := congrArg List.length hdelivered
      simp only [length_map] at hlength hle hfits
      have hnil : skbChain = [] := length_eq_zero_iff.mp (by omega)
      exact ⟨hnil, hfits (by omega)⟩
    next t hloop =>
      cases hresult
      have hle := length_le_of_leave hloop
      have hempty : t.skbChain = [] := hempty
      rw [hempty] at hle
      exact ⟨length_eq_zero_iff.mp (Nat.le_zero.mp hle),
        fits_of_leave (fun _ _ => rfl) hloop hempty hdelivered.symm⟩
    · cases hresult
  · rintro ⟨rfl, hfits⟩
    have hinv : Inv mem ⟨mem, headroom, len, headroom, [], []⟩ :=
      ⟨fun _ _ => rfl, nofun, fun h => Nat.le_trans h (Nat.le_add_right _ _), nofun⟩
    unfold Exact rxFixup
    rcases loop_of_fits hinv hfits with
      ⟨t, hloop, hpushes, hresolve⟩ | ⟨t, hloop, hpushes, hnil, -, hvalid⟩
    · rw [hloop]
      exact ⟨_, rfl, hresolve, rfl, hpushes⟩
    · rw [hloop]
      exact ⟨_, rfl, hvalid.symm, hnil, hpushes⟩

def twoDevices : SQmiWwanQmap where
  mpQmapNetDev i :=
    if i.val < 2 then some ⟨1500, true, .replicate 6 0, false, .replicate 6 0⟩ else none
  qmapMode := 3
  bridgeMode := false
  bridgeMac := .replicate 6 0
  useRmnetUsb := 0
  qmapMode_pos := by decide
  qmapMode_le := by decide

/-- A packet of 20 bytes for the first device, and one for a device that there is not. -/
def twoFrames : List UInt8 :=
  [0, 0x81, 0, 20, 0x45, 0, 0, 20, 0, 0, 0, 0, 64, 59, 0, 0, 10, 0, 0, 1, 10, 0, 0, 2,
    0, 0x90, 0, 20, 0x45, 0, 0, 20, 0, 0, 0, 0, 64, 59, 0, 0, 10, 0, 0, 1, 10, 0, 0, 2]

/-- The packet in front of a frame that is rejected stays in `skb_chain`. -/
theorem rx_fixup_not_exact :
    ¬∀ q mem headroom len, Exact q (fun _ => true) mem headroom len [] := by
  intro h
  obtain ⟨result, hresult, -, hempty, -⟩ :=
    h twoDevices (fun i => twoFrames.getD (i - 64) 0) 64 twoFrames.length
  have hqueued : (rxFixup twoDevices (fun _ => true) (fun i => twoFrames.getD (i - 64) 0) 64
      twoFrames.length []).map (fun r => r.skbChain.length) = some 1 := by
    decide
  rw [hresult, Option.map_some, hempty] at hqueued
  cases hqueued

end ModemSupport.Qmi.Fibocom
