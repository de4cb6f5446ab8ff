import ModemSupport.Mhi.Mbim

/-! When `rmnet_mbim_rx_handler` ends, stays within the block and its table of devices, and hands on
every packet that it allocates. -/

namespace ModemSupport.Mhi.Mbim

open Lib.Loop List Option
open Qmi (Skb NetDevice protocolOf)

variable (c : MhiNetdev)

/-- An access within the block, the first `qmap_mode` entries and those that are not `NULL`. -/
def Within (skbIn : Skb) : Access → Prop
  | .read start size => start + size ≤ skbIn.len
  | .index index => index < c.qmapMode
  | .device index => c.entry index ≠ none
  | .alloc | .queue _ => True

def InBounds (alloc : Nat → Nat → Bool) (skbIn : Skb) : Prop :=
  ∃ as, RxHandler c alloc skbIn as ∧ (∀ a ∈ as, Within c skbIn a) ∧
    (queued as).length = as.count .alloc

/-- The part of the table that is read is in the block, and a datagram of a length that is accepted
is an IP packet for a device that is there. -/
def DatagramsFit (skbIn : Skb) (index : UInt32) : (nframes : Nat) → (dpe16 : Nat) → Prop
  | 0, _ => True
  | nframes + 1, dpe16 =>
    dpe16 + dpe16Size ≤ skbIn.len ∧ (le16 skbIn dpe16 ≠ 0 → le16 skbIn (dpe16 + 2) ≠ 0 →
      le16 skbIn dpe16 + le16 skbIn (dpe16 + 2) ≤ skbIn.len → le16 skbIn (dpe16 + 2) ≤ c.rxMax →
        c.entry index ≠ none ∧ protocolOf (skbIn.get (le16 skbIn dpe16)) ≠ none ∧
          DatagramsFit skbIn index nframes (dpe16 + dpe16Size))

/-- An NDP of a session that is supported is not one of session 0 of several devices, and its
datagrams fit. -/
def NdpFits (skbIn : Skb) (ndpoffset : Nat) : Prop :=
  0x10 ≤ le16 skbIn (ndpoffset + 4) →
  ndp16Size + nframes skbIn ndpoffset * dpe16Size ≤ skbIn.len →
  ∀ session index, tci skbIn ndpoffset = some session → c.index session = some index →
    (c.qmapMode ≠ 1 → session ≠ c.mbimMuxId) ∧
      DatagramsFit c skbIn index (nframes skbIn ndpoffset) (ndpoffset + ndp16Size)

/-- The NDPs that are in the chain of an accepted block fit, and the chain does not come back. -/
def BlockFits (skbIn : Skb) : Prop :=
  ∀ first, (nth c skbIn).2 = some first →
    ∀ ndpoffset, Comes (ndp c (fun _ _ => true) skbIn) first ndpoffset →
      (ndpoffset ≠ 0 → ndpoffset + ndp16Size ≤ skbIn.len → NdpFits c skbIn ndpoffset) ∧
        ¬∃ next, (ndp c (fun _ _ => true) skbIn ndpoffset).2 = some next ∧
          Comes (ndp c (fun _ _ => true) skbIn) next ndpoffset

variable {c} {alloc : Nat → Bool} {allocs : Nat → Nat → Bool} {skbIn : Skb} {index session : UInt32}
  {n dpe16 ndpoffset next first : Nat} {as : List Access}

def isQueue : Access → Bool
  | .queue _ => true
  | .read _ _ | .index _ | .device _ | .alloc => false

theorem length_queued : (queued as).length = as.countP isQueue := by
  induction as with
  | nil => rfl
  | cons a as ih => cases a <;> simp [queued, isQueue, ih, countP_cons]

section Rounds

variable {offset skbLen : Nat} {protocol : UInt16} (hoffset : le16 skbIn dpe16 = offset)
  (hskbLen : le16 skbIn (dpe16 + 2) = skbLen)

include hoffset hskbLen

theorem datagrams_end (h : offset = 0 ∨ skbLen = 0) :
    datagrams c alloc skbIn index (n + 1) dpe16 = ([.read dpe16 dpe16Size], true) := by
  simp only [datagrams, hoffset, hskbLen, h, ↓reduceIte]

theorem datagrams_long (h : ¬(offset = 0 ∨ skbLen = 0))
    (hlong : offset + skbLen > skbIn.len ∨ skbLen > c.rxMax) :
    datagrams c alloc skbIn index (n + 1) dpe16 = ([.read dpe16 dpe16Size], false) := by
  simp only [datagrams, hoffset, hskbLen, h, hlong, ↓reduceIte]

theorem datagrams_noMemory (h : ¬(offset = 0 ∨ skbLen = 0))
    (hlong : ¬(offset + skbLen > skbIn.len ∨ skbLen > c.rxMax)) (halloc : alloc dpe16 = false) :
    datagrams c alloc skbIn index (n + 1) dpe16 =
      ([.read dpe16 dpe16Size, .device index], false) := by
  simp only [datagrams, hoffset, hskbLen, h, hlong, halloc, ↓reduceIte]

theorem datagrams_unknown (h : ¬(offset = 0 ∨ skbLen = 0))
    (hlong : ¬(offset + skbLen > skbIn.len ∨ skbLen > c.rxMax)) (halloc : alloc dpe16 = true)
    (hprotocol : protocolOf (skbIn.get offset) = none) :
    datagrams c alloc skbIn index (n + 1) dpe16 =
      ([.read dpe16 dpe16Size, .device index, .alloc, .read offset 1], false) := by
  simp only [datagrams, hoffset, hskbLen, h, hlong, halloc, hprotocol, Bool.true_eq_false,
    ↓reduceIte]

theorem datagrams_next (h : ¬(offset = 0 ∨ skbLen = 0))
    (hlong : ¬(offset + skbLen > skbIn.len ∨ skbLen > c.rxMax)) (halloc : alloc dpe16 = true)
    (hprotocol : protocolOf (skbIn.get offset) = some protocol) :
    datagrams c alloc skbIn index (n + 1) dpe16 =
      ([.read dpe16 dpe16Size, .device index, .alloc, .read offset skbLen,
          .queue ⟨index, protocol, (skbIn.data.drop offset).take skbLen⟩] ++
          (datagrams c alloc skbIn index n (dpe16 + dpe16Size)).1,
        (datagrams c alloc skbIn index n (dpe16 + dpe16Size)).2) := by
  simp only [datagrams, hoffset, hskbLen, h, hlong, halloc, hprotocol, Bool.true_eq_false,
    ↓reduceIte]

end Rounds

theorem datagrams_within (alloc : Nat → Bool) (h : DatagramsFit c skbIn index n dpe16) :
    (∀ a ∈ (datagrams c alloc skbIn index n dpe16).1, Within c skbIn a) ∧
      (datagrams c alloc skbIn index n dpe16).1.countP isQueue =
        (datagrams c alloc skbIn index n dpe16).1.count .alloc := by
  induction n generalizing dpe16 with
  | zero => simp [datagrams]
  | succ n ih =>
    obtain ⟨hentry, hrest⟩ := h
    have hread : Within c skbIn (.read dpe16 dpe16Size) := hentry
    generalize hoffset : le16 skbIn dpe16 = offset at hrest
    generalize hskbLen : le16 skbIn (dpe16 + 2) = skbLen at hrest
    by_cases hzero : offset = 0 ∨ skbLen = 0
    · rw [datagrams_end hoffset hskbLen hzero]
      exact ⟨by simpa using hread, rfl⟩
    by_cases hlong : offset + skbLen > skbIn.len ∨ skbLen > c.rxMax
    · rw [datagrams_long hoffset hskbLen hzero hlong]
      exact ⟨by simpa using hread, rfl⟩
    have hfits := hrest (by omega) (by omega) (by omega) (by omega)
    obtain ⟨hdevice, hprotocol, hfits⟩ := hfits
    have huse : Within c skbIn (.device index) := hdevice
    cases halloc : alloc dpe16 with
    | false =>
      rw [datagrams_noMemory hoffset hskbLen hzero hlong halloc]
      exact ⟨by simpa using ⟨hread, huse⟩, rfl⟩
    | true =>
      obtain ⟨protocol, hprotocol⟩ := ne_none_iff_exists'.mp hprotocol
      have hdata : Within c skbIn (.read offset skbLen) := by
        show offset + skbLen ≤ skbIn.len
        omega
      obtain ⟨hwithin, hcount⟩ := ih hfits
      rw [datagrams_next hoffset hskbLen hzero hlong halloc hprotocol]
      refine ⟨?_, ?_⟩
      · simp only [forall_mem_append, forall_mem_cons]
        exact ⟨⟨hread, huse, trivial, hdata, trivial, by simp⟩, hwithin⟩
      · rw [countP_append, count_append, hcount]
        rfl

theorem datagrams_count_le : (datagrams c alloc skbIn index n dpe16).1.countP isQueue ≤
    (datagrams c alloc skbIn index n dpe16).1.count .alloc := by
  induction n generalizing dpe16 with
  | zero => simp [datagrams]
  | succ n ih =>
    generalize hoffset : le16 skbIn dpe16 = offset
    generalize hskbLen : le16 skbIn (dpe16 + 2) = skbLen
    by_cases hzero : offset = 0 ∨ skbLen = 0
    · rw [datagrams_end hoffset hskbLen hzero]
      exact Nat.le_refl _
    by_cases hlong : offset + skbLen > skbIn.len ∨ skbLen > c.rxMax
    · rw [datagrams_long hoffset hskbLen hzero hlong]
      exact Nat.le_refl _
    cases halloc : alloc dpe16 with
    | false =>
      rw [datagrams_noMemory hoffset hskbLen hzero hlong halloc]
      exact Nat.le_refl _
    | true =>
      cases hprotocol : protocolOf (skbIn.get offset) with
      | none =>
        rw [datagrams_unknown hoffset hskbLen hzero hlong halloc hprotocol]
        exact Nat.zero_le _
      | some protocol =>
        rw [datagrams_next hoffset hskbLen hzero hlong halloc hprotocol, countP_append,
          count_append]
        exact Nat.add_le_add (Nat.le_refl _) ih

theorem datagrams_fit (h : ∀ a ∈ (datagrams c (fun _ => true) skbIn index n dpe16).1,
      Within c skbIn a)
    (hcount : (datagrams c (fun _ => true) skbIn index n dpe16).1.countP isQueue =
      (datagrams c (fun _ => true) skbIn index n dpe16).1.count .alloc) :
    DatagramsFit c skbIn index n dpe16 := by
  induction n generalizing dpe16 with
  | zero => trivial
  | succ n ih =>
    rw [DatagramsFit]
    generalize hoffset : le16 skbIn dpe16 = offset
    generalize hskbLen : le16 skbIn (dpe16 + 2) = skbLen
    by_cases hzero : offset = 0 ∨ skbLen = 0
    · rw [datagrams_end hoffset hskbLen hzero] at h
      exact ⟨h _ mem_cons_self, fun h1 h2 => absurd hzero (by omega)⟩
    by_cases hlong : offset + skbLen > skbIn.len ∨ skbLen > c.rxMax
    · rw [datagrams_long hoffset hskbLen hzero hlong] at h
      exact ⟨h _ mem_cons_self, fun _ _ h1 h2 => absurd hlong (by omega)⟩
    cases hprotocol : protocolOf (skbIn.get offset) with
    | none =>
      rw [datagrams_unknown hoffset hskbLen hzero hlong rfl hprotocol] at hcount
      cases hcount
    | some protocol =>
      rw [datagrams_next hoffset hskbLen hzero hlong rfl hprotocol] at h hcount
      rw [countP_append, count_append] at hcount
      have hrest := ih (fun a ha => h a (mem_append_right _ ha)) (Nat.add_left_cancel hcount)
      have hfirst := fun a ha => h a (mem_append_left _ ha)
      simp only [forall_mem_cons] at hfirst
      exact ⟨hfirst.1, fun _ _ _ _ => ⟨hfirst.2.1, by simp, hrest⟩⟩

theorem index_lt_iff (h : c.index session = some index) :
    index < c.qmapMode ↔ (c.qmapMode ≠ 1 → session ≠ c.mbimMuxId) := by
  have hpos := c.qmapMode_pos
  have hle := c.qmapMode_le
  rw [MhiNetdev.index] at h
  by_cases hmode : c.qmapMode = 1
  · rw [if_pos hmode] at h
    split at h <;> cases h
    simp [hmode]
  rw [if_neg hmode] at h
  split at h <;> cases h
  next hsession =>
    have hzero : session = c.mbimMuxId ↔ session.toNat = c.mbimMuxId.toNat := by
      rw [UInt32.toNat_inj]
    have hk : (session - c.mbimMuxId).toNat ≤ c.qmapMode.toNat := by
      simpa [UInt32.lt_iff_toNat_lt] using hsession
    simp only [hmode, ne_eq, not_false_eq_true, hzero, forall_const, UInt32.lt_iff_toNat_lt]
    rw [UInt32.toNat_sub] at hk ⊢
    rw [UInt32.toNat_sub, UInt32.toNat_one]
    have hsession := session.toNat_lt
    have hmux := c.mbimMuxId.toNat_lt
    omega

structure Supported (c : MhiNetdev) (skbIn : Skb) (ndpoffset : Nat) (session index : UInt32) :
    Prop where
  more : ndpoffset ≠ 0
  header : ndpoffset + ndp16Size ≤ skbIn.len
  wLength : 0x10 ≤ le16 skbIn (ndpoffset + 4)
  frames : ndp16Size + nframes skbIn ndpoffset * dpe16Size ≤ skbIn.len
  hasSession : tci skbIn ndpoffset = some session
  hasIndex : c.index session = some index

theorem ndp_of_supported (h : Supported c skbIn ndpoffset session index) :
    ndp c allocs skbIn ndpoffset = (.read ndpoffset ndp16Size :: .index index ::
        (datagrams c (allocs ndpoffset) skbIn index (nframes skbIn ndpoffset)
          (ndpoffset + ndp16Size)).1,
      if (datagrams c (allocs ndpoffset) skbIn index (nframes skbIn ndpoffset)
          (ndpoffset + ndp16Size)).2 then some (le16 skbIn (ndpoffset + 6)) else none) := by
  have hindex : (tci skbIn ndpoffset).bind c.index = some index := by
    rw [h.hasSession]
    exact h.hasIndex
  unfold ndp
  rw [if_neg h.more, if_neg (Nat.not_lt.mpr h.header), if_neg (Nat.not_lt.mpr h.wLength),
    if_neg (Nat.not_lt.mpr h.frames), hindex]

theorem ndp_of_not_supported (allocs : Nat → Nat → Bool)
    (h : ¬∃ session index, Supported c skbIn ndpoffset session index) :
    (ndp c allocs skbIn ndpoffset).2 = none ∧
      ∀ a ∈ (ndp c allocs skbIn ndpoffset).1,
        a = .read ndpoffset ndp16Size ∧ ndpoffset + ndp16Size ≤ skbIn.len := by
  unfold ndp
  by_cases hmore : ndpoffset = 0
  · simp [hmore]
  rw [if_neg hmore]
  by_cases hheader : skbIn.len < ndpoffset + ndp16Size
  · simp [hheader]
  rw [if_neg hheader]
  have hheader := Nat.not_lt.mp hheader
  by_cases hlength : le16 skbIn (ndpoffset + 4) < 0x10
  · simp [hlength, hheader]
  by_cases hframes : skbIn.len < ndp16Size + nframes skbIn ndpoffset * dpe16Size
  · simp [hlength, hframes, hheader]
  rw [if_neg hlength, if_neg hframes]
  cases hbind : (tci skbIn ndpoffset).bind c.index with
  | none => simp [hheader]
  | some index =>
    obtain ⟨session, hsession, hindex⟩ := bind_eq_some_iff.mp hbind
    exact absurd ⟨session, index, hmore, hheader, Nat.not_lt.mp hlength, Nat.not_lt.mp hframes,
      hsession, hindex⟩ h

theorem ndpFits_iff :
    (ndpoffset ≠ 0 → ndpoffset + ndp16Size ≤ skbIn.len → NdpFits c skbIn ndpoffset) ↔
    ∀ session index, Supported c skbIn ndpoffset session index → index < c.qmapMode ∧
      DatagramsFit c skbIn index (nframes skbIn ndpoffset) (ndpoffset + ndp16Size) := by
  constructor
  · intro h session index hsupported
    obtain ⟨hsession, hfit⟩ := h hsupported.more hsupported.header hsupported.wLength
      hsupported.frames session index hsupported.hasSession hsupported.hasIndex
    exact ⟨(index_lt_iff hsupported.hasIndex).mpr hsession, hfit⟩
  · intro h hmore hheader hlength hframes session index hsession hindex
    obtain ⟨hlt, hfit⟩ := h session index ⟨hmore, hheader, hlength, hframes, hsession, hindex⟩
    exact ⟨(index_lt_iff hindex).mp hlt, hfit⟩

def RoundFits (c : MhiNetdev) (skbIn : Skb) (as : List Access) : Prop :=
  (∀ a ∈ as, Within c skbIn a) ∧ as.countP isQueue = as.count .alloc

theorem ndp_roundFits
    (h : ndpoffset ≠ 0 → ndpoffset + ndp16Size ≤ skbIn.len → NdpFits c skbIn ndpoffset) :
    RoundFits c skbIn (ndp c allocs skbIn ndpoffset).1 := by
  rw [ndpFits_iff] at h
  by_cases hsupported : ∃ session index, Supported c skbIn ndpoffset session index
  · obtain ⟨session, index, hsupported⟩ := hsupported
    obtain ⟨hlt, hfit⟩ := h session index hsupported
    rw [ndp_of_supported hsupported]
    obtain ⟨hwithin, hcount⟩ := datagrams_within (allocs ndpoffset) hfit
    refine ⟨?_, ?_⟩
    · simp only [forall_mem_cons]
      exact ⟨hsupported.header, hlt, hwithin⟩
    · simpa [countP_cons, isQueue] using hcount
  · obtain ⟨-, hall⟩ := ndp_of_not_supported allocs hsupported
    generalize (ndp c allocs skbIn ndpoffset).1 = as at hall
    refine ⟨fun a ha => ?_, ?_⟩
    · obtain ⟨rfl, hheader⟩ := hall a ha
      exact hheader
    · rw [countP_eq_zero.mpr, count_eq_zero.mpr]
      · exact fun hmem => absurd (hall _ hmem).1 (by simp)
      · intro a ha
        rw [(hall a ha).1]
        exact Bool.false_ne_true

theorem ndpFits_of_round (h : RoundFits c skbIn (ndp c (fun _ _ => true) skbIn ndpoffset).1) :
    ndpoffset ≠ 0 → ndpoffset + ndp16Size ≤ skbIn.len → NdpFits c skbIn ndpoffset := by
  rw [ndpFits_iff]
  intro session index hsupported
  rw [ndp_of_supported hsupported, RoundFits] at h
  simp only [forall_mem_cons] at h
  obtain ⟨⟨-, hlt, hwithin⟩, hcount⟩ := h
  exact ⟨hlt, datagrams_fit hwithin (by simpa [countP_cons, isQueue] using hcount)⟩

theorem datagrams_goes_on (h : (datagrams c alloc skbIn index n dpe16).2 = true) :
    (datagrams c (fun _ => true) skbIn index n dpe16).2 = true := by
  induction n generalizing dpe16 with
  | zero => rfl
  | succ n ih =>
    generalize hoffset : le16 skbIn dpe16 = offset
    generalize hskbLen : le16 skbIn (dpe16 + 2) = skbLen
    by_cases hzero : offset = 0 ∨ skbLen = 0
    · rw [datagrams_end hoffset hskbLen hzero]
    by_cases hlong : offset + skbLen > skbIn.len ∨ skbLen > c.rxMax
    · rw [datagrams_long hoffset hskbLen hzero hlong] at h
      cases h
    cases halloc : alloc dpe16 with
    | false =>
      rw [datagrams_noMemory hoffset hskbLen hzero hlong halloc] at h
      cases h
    | true =>
      cases hprotocol : protocolOf (skbIn.get offset) with
      | none =>
        rw [datagrams_unknown hoffset hskbLen hzero hlong halloc hprotocol] at h
        cases h
      | some protocol =>
        rw [datagrams_next hoffset hskbLen hzero hlong halloc hprotocol] at h
        rw [datagrams_next hoffset hskbLen hzero hlong rfl hprotocol]
        exact ih h

theorem ndp_next (h : (ndp c allocs skbIn ndpoffset).2 = some next) :
    (ndp c (fun _ _ => true) skbIn ndpoffset).2 = some next ∧ next < 65536 := by
  by_cases hsupported : ∃ session index, Supported c skbIn ndpoffset session index
  · obtain ⟨session, index, hsupported⟩ := hsupported
    rw [ndp_of_supported hsupported] at h ⊢
    simp only [ite_none_right_eq_some, some.injEq] at h ⊢
    obtain ⟨hgo, rfl⟩ := h
    refine ⟨⟨datagrams_goes_on hgo, rfl⟩, ?_⟩
    have hlo := (skbIn.get (ndpoffset + 6)).toNat_lt
    have hhi := (skbIn.get (ndpoffset + 6 + 1)).toNat_lt
    rw [le16]
    omega
  · cases (ndp_of_not_supported _ hsupported).1.symm.trans h

theorem comes_of_allocs (h : Comes (ndp c allocs skbIn) first ndpoffset) :
    Comes (ndp c (fun _ _ => true) skbIn) first ndpoffset := by
  induction h with
  | start => exact .start
  | next _ hnext ih => exact .next ih (ndp_next hnext).1

theorem comes_lt (hfirst : first < 65536) (h : Comes (ndp c allocs skbIn) first ndpoffset) :
    ndpoffset < 65536 := by
  cases h with
  | start => exact hfirst
  | next _ hnext => exact (ndp_next hnext).2

theorem rxHandler_some (h : (nth c skbIn).2 = some first) :
    RxHandler c allocs skbIn as ↔
      ∃ bs, Ends (ndp c allocs skbIn) first bs ∧ as = (nth c skbIn).1 ++ bs := by
  rw [RxHandler, h]

theorem rxHandler_none (h : (nth c skbIn).2 = none) :
    RxHandler c allocs skbIn as ↔ as = (nth c skbIn).1 := by
  rw [RxHandler, h]

theorem nth_roundFits : RoundFits c skbIn (nth c skbIn).1 := by
  unfold nth
  by_cases hlen : skbIn.len < nth16Size + ndp16Size
  · rw [if_pos hlen]
    exact ⟨by simp, rfl⟩
  have hheader : RoundFits c skbIn [.read 0 nth16Size] := by
    refine ⟨fun a ha => ?_, rfl⟩
    cases mem_singleton.mp ha
    show 0 + nth16Size ≤ skbIn.len
    omega
  rw [if_neg hlen]
  dsimp only
  split
  · exact hheader
  · split <;> exact hheader

theorem host16_lt (bigEndian : Bool) (skb : Skb) (i : Nat) : host16 bigEndian skb i < 65536 := by
  have hlo := (skb.get i).toNat_lt
  have hhi := (skb.get (i + 1)).toNat_lt
  unfold host16 le16
  split <;> omega

theorem nth_lt (h : (nth c skbIn).2 = some first) : first < 65536 := by
  unfold nth at h
  split at h
  · cases h
  dsimp only at h
  split at h
  · cases h
  split at h
  · cases h
  · cases h
    exact host16_lt ..

theorem ndp_count_le : (ndp c allocs skbIn ndpoffset).1.countP isQueue ≤
    (ndp c allocs skbIn ndpoffset).1.count .alloc := by
  by_cases hsupported : ∃ session index, Supported c skbIn ndpoffset session index
  · obtain ⟨session, index, hsupported⟩ := hsupported
    rw [ndp_of_supported hsupported]
    simpa [countP_cons, isQueue] using datagrams_count_le
  · obtain ⟨-, hall⟩ := ndp_of_not_supported allocs hsupported
    rw [countP_eq_zero.mpr]
    · exact Nat.zero_le _
    · intro a ha
      rw [(hall a ha).1]
      exact Bool.false_ne_true

theorem inBounds_some (h : (nth c skbIn).2 = some first) :
    InBounds c allocs skbIn ↔ ∃ bs, Ends (ndp c allocs skbIn) first bs ∧
      ∀ off, Comes (ndp c allocs skbIn) first off →
        RoundFits c skbIn (ndp c allocs skbIn off).1 := by
  have hnth : RoundFits c skbIn (nth c skbIn).1 := nth_roundFits
  have hends {bs} (hbs : Ends (ndp c allocs skbIn) first bs) :
      ((∀ a ∈ (nth c skbIn).1 ++ bs, Within c skbIn a) ∧
        (queued ((nth c skbIn).1 ++ bs)).length = ((nth c skbIn).1 ++ bs).count .alloc) ↔
      ∀ off, Comes (ndp c allocs skbIn) first off →
        RoundFits c skbIn (ndp c allocs skbIn off).1 := by
    rw [length_queued, countP_append, count_append, hnth.2, Nat.add_left_cancel_iff,
      forall_mem_append, hbs.forall_iff]
    have hcount : bs.countP isQueue = bs.count .alloc ↔
        ∀ off, Comes (ndp c allocs skbIn) first off →
          (ndp c allocs skbIn off).1.countP isQueue = (ndp c allocs skbIn off).1.count .alloc :=
      hbs.countP_eq_iff fun _ _ => ndp_count_le
    rw [hcount]
    exact ⟨fun hall off hoff => ⟨hall.1.2 off hoff, hall.2 off hoff⟩,
      fun hall => ⟨⟨hnth.1, fun off hoff => (hall off hoff).1⟩, fun off hoff => (hall off hoff).2⟩⟩
  constructor
  · rintro ⟨as, has, hall⟩
    obtain ⟨bs, hbs, rfl⟩ := (rxHandler_some h).mp has
    exact ⟨bs, hbs, (hends hbs).mp hall⟩
  · rintro ⟨bs, hbs, hall⟩
    exact ⟨_, (rxHandler_some h).mpr ⟨bs, hbs, rfl⟩, (hends hbs).mpr hall⟩

/-- Whatever memory there is, the handler ends within bounds and loses no packet just when the NDPs
of the block fit and do not come back. -/
theorem rx_handler_in_bounds (c : MhiNetdev) (skbIn : Skb) :
    (∀ alloc, InBounds c alloc skbIn) ↔ BlockFits c skbIn := by
  cases hnth : (nth c skbIn).2 with
  | none =>
    refine ⟨fun _ first hfirst => (by cases hnth.symm.trans hfirst), fun _ alloc => ?_⟩
    have hfits : RoundFits c skbIn (nth c skbIn).1 := nth_roundFits
    exact ⟨_, (rxHandler_none hnth).mpr rfl, hfits.1, length_queued.trans hfits.2⟩
  | some first =>
    have hblock : BlockFits c skbIn ↔
        ∀ ndpoffset, Comes (ndp c (fun _ _ => true) skbIn) first ndpoffset →
          (ndpoffset ≠ 0 → ndpoffset + ndp16Size ≤ skbIn.len → NdpFits c skbIn ndpoffset) ∧
            ¬∃ next, (ndp c (fun _ _ => true) skbIn ndpoffset).2 = some next ∧
              Comes (ndp c (fun _ _ => true) skbIn) next ndpoffset := by
      rw [BlockFits, hnth]
      simp only [some.injEq, forall_eq']
    rw [hblock]
    constructor
    · intro h ndpoffset hcomes
      obtain ⟨bs, hends, hall⟩ := (inBounds_some hnth).mp (h fun _ _ => true)
      obtain ⟨_, hrest⟩ := hends.of_comes hcomes
      exact ⟨ndpFits_of_round (hall ndpoffset hcomes), hrest.not_cycle⟩
    · intro h alloc
      refine (inBounds_some hnth).mpr ?_
      have hends := exists_ends_of_acyclic (f := ndp c alloc skbIn) (s := first)
        (Finset.range 65536) (fun off hoff => Finset.mem_range.mpr (comes_lt (nth_lt hnth) hoff))
        (fun off hoff ⟨next, hnext, hback⟩ => (h off (comes_of_allocs hoff)).2
          ⟨next, (ndp_next hnext).1, comes_of_allocs hback⟩)
      obtain ⟨bs, hbs⟩ := hends
      exact ⟨bs, hbs, fun off hoff => ndp_roundFits (h off (comes_of_allocs hoff)).1⟩

def device : NetDevice where
  mtu := 1500
  ether := false
  devAddr := .replicate 6 0
  bridgeMode := false
  bridgeMac := .replicate 6 0

def oneDevice : MhiNetdev where
  mpQmapNetDev i := if i.val = 0 then some device else none
  qmapMode := 1
  mbimMuxId := 0
  rxMax := 32768
  bigEndian := false
  qmapMode_pos := by decide
  qmapMode_le := by decide

def ownNext : Skb where
  data := [0x4E, 0x43, 0x4D, 0x48, 12, 0, 0, 0, 28, 0, 12, 0,
    0x49, 0x50, 0x53, 0, 16, 0, 12, 0, 0, 0, 0, 0, 0, 0, 0, 0]
  tail := []

/-- The loop over the NDPs goes on for ever. -/
theorem rx_handler_not_in_bounds : ¬∀ c alloc skbIn, InBounds c alloc skbIn := by
  intro h
  obtain ⟨as, has, -⟩ := h oneDevice (fun _ _ => true) ownNext
  have hnth : (nth oneDevice ownNext).2 = some 12 := by decide
  obtain ⟨bs, hends, -⟩ := (rxHandler_some hnth).mp has
  exact hends.not_cycle ⟨12, by decide, .start⟩

end ModemSupport.Mhi.Mbim
