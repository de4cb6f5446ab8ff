import ModemSupport.Cm.SysInfo

/-! When the outcome of `requestRegistrationState2` does not depend on the order in which the device
reports the TLVs of a GET_SYS_INFO response. -/

namespace ModemSupport.Cm.SysInfo

open Lib.Loop Lib.Memory Lib.Tlv List
open GetTlv (messageLength tlvOffset Fills exists_fills)

/-- The TLV of a request that has succeeded, which comes first. -/
def success : Item := (0x02, [0, 0, 0, 0])

/-- As much of a value as has the fields that are read. -/
def need : UInt8 → Nat
  | 0x10 | 0x11 | 0x12 | 0x13 | 0x14 | 0x24 => 1
  | 0x15 => 42
  | 0x16 => 12
  | 0x17 | 0x18 | 0x19 | 0x25 => 26
  | _ => 0

structure WellFormed (xs : List Item) : Prop where
  nodup : ((success :: xs).map Prod.fst).Nodup
  room : ∀ x ∈ xs, need x.1 ≤ x.2.length
  fit : (encode (success :: xs)).length < 2 ^ 16

def byte (x : Item) (i : Nat) : UInt8 := x.2.getD i 0

def Announces (x : Item) : Prop := isSystemInfo x.1 ∧ byte x 0 = 0x01

def Attached (x : Item) : Prop := Announces x ∧ byte x 1 &&& 0x02 ≠ 0

def Ehrpd (x : Item) : Prop := x.1 = 0x16 ∧ byte x 10 = 0x01 ∧ byte x 11 = 0x03

instance (x : Item) : Decidable (Ehrpd x) :=
  inferInstanceAs (Decidable (x.1 = 0x16 ∧ byte x 10 = 0x01 ∧ byte x 11 = 0x03))

/-- Every order of the TLVs gives the same outcome, in which `*pPSAttachedState` is 1 just when
there is system information with the packet-switched domain. -/
def OrderFree (xs : List Item) : Prop :=
  ∀ ys m m', xs.Perm ys → Fills m (success :: xs) → Fills m' (success :: ys) →
    ∃ o, (∀ cdma hdr o', RequestRegistrationState2 cdma hdr 0 (some m) o' ↔ o' = o) ∧
      (∀ cdma hdr o', RequestRegistrationState2 cdma hdr 0 (some m') o' ↔ o' = o) ∧
      (o.pPSAttachedState = 1 ↔ ∃ x ∈ xs, Attached x)

/-- All radio technologies with a valid service domain agree about the packet-switched domain, and
there is none with it when the HDR technology is eHRPD without a valid service domain. -/
structure Agree (xs : List Item) : Prop where
  domain : ∀ x ∈ xs, ∀ y ∈ xs, Announces x → Announces y → Attached x → Attached y
  personality : ∀ x ∈ xs, Ehrpd x → ¬Announces x → ∀ y ∈ xs, ¬Attached y

def step (s : State) (x : Item) : State := (switch x.1 (byte x) s).2

def after (xs : List Item) : State := xs.foldl step State.init

def State.outcome (s : State) : Outcome := ⟨0, s.pPSAttachedState, s.sIsCdma, s.sHdrPersonality⟩

/-- What is done besides for the packet-switched domain, or for a service. -/
def act : UInt8 → State → State
  | 0x10 | 0x11 | 0x15 | 0x16 => State.cdma
  | 0x14 | 0x19 => State.lte
  | _ => id

def Serves (t : UInt8) (v : Nat → UInt8) : Prop :=
  if isSystemInfo t then v 0 = 0x01 ∧ v 1 &&& 0x02 ≠ 0 else v 0 = 0x02

instance (t : UInt8) (v : Nat → UInt8) : Decidable (Serves t v) :=
  inferInstanceAs (Decidable (if isSystemInfo t then v 0 = 0x01 ∧ v 1 &&& 0x02 ≠ 0 else v 0 = 0x02))

def personality (t : UInt8) (v : Nat → UInt8) (s : State) : State :=
  if t = 0x16 ∧ v 10 = 0x01 ∧ v 11 = 0x03 ∧ s.pPSAttachedState ≠ 0 then
    { s with sHdrPersonality := 0x02 }
  else s

variable {m : Mem} {t : UInt8} {v u : Nat → UInt8} {s : State} {w : Walk} {x y : Item}
  {xs ys : List Item} {as : List Access} {o : Outcome}

theorem srvDomain_snd {g : State → State} :
    (srvDomain v g s).2 =
      (let attached :=
        if v 0 = 0x01 then (if v 1 &&& 0x02 ≠ 0 then 1 else 0) else s.pPSAttachedState
      let base := { s with pPSAttachedState := attached }
      if v 0 = 0x01 ∧ v 1 &&& 0x02 ≠ 0 then g base else base) := by
  unfold srvDomain
  by_cases hvalid : v 0 = 0x01
  · by_cases hps : v 1 &&& 0x02 ≠ 0
    · simp [hvalid, hps]
    · simp [hvalid, hps]
  · simp [hvalid]

theorem hdrSystemInfo_snd :
    (hdrSystemInfo v s).2 = personality 0x16 v (srvDomain v State.cdma s).2 := by
  unfold hdrSystemInfo personality
  dsimp only
  by_cases hps : (srvDomain v State.cdma s).2.pPSAttachedState ≠ 0
  · by_cases hvalid : v 10 = 0x01
    · simp [hps, hvalid]
    · simp [hps, hvalid]
  · simp [hps]

theorem attachedAfter_of_not_info {a : UInt8} (h : ¬isSystemInfo t = true) :
    attachedAfter t v a = a := by
  simp [attachedAfter, h]

theorem switch_snd : (switch t v s).2 =
    (let base := { s with pPSAttachedState := attachedAfter t v s.pPSAttachedState }
    personality t v (if Serves t v then act t base else base)) := by
  unfold switch
  split
  case h_7 | h_9 | h_10 | h_11 | h_12 =>
    rw [attachedAfter_of_info (by decide)]
    exact srvDomain_snd
  case h_8 =>
    rw [attachedAfter_of_info (by decide), hdrSystemInfo_snd, srvDomain_snd]
    rfl
  case h_13 =>
    have hother : ¬isSystemInfo t = true := by
      rw [isSystemInfo_iff]
      tauto
    have hact : act t = id := by
      unfold act
      split <;> first | contradiction | rfl
    have hhdr : t ≠ 0x16 := by tauto
    simp [attachedAfter_of_not_info hother, hact, personality, hhdr]
  all_goals rfl

def Cdma (x : Item) : Prop :=
  (x.1 = 0x10 ∨ x.1 = 0x11 ∨ x.1 = 0x15 ∨ x.1 = 0x16) ∧ Serves x.1 (byte x)

def Lte (x : Item) : Prop := (x.1 = 0x14 ∨ x.1 = 0x19) ∧ Serves x.1 (byte x)

theorem act_cases (t : UInt8) :
    ((t = 0x10 ∨ t = 0x11 ∨ t = 0x15 ∨ t = 0x16) ∧ act t = State.cdma) ∨
    ((t = 0x14 ∨ t = 0x19) ∧ act t = State.lte) ∨
    (¬(t = 0x10 ∨ t = 0x11 ∨ t = 0x15 ∨ t = 0x16) ∧ ¬(t = 0x14 ∨ t = 0x19) ∧ act t = id) := by
  unfold act
  split <;> simp_all

theorem personality_eq : personality t v s =
    { s with sHdrPersonality := (personality t v s).sHdrPersonality } := by
  unfold personality
  split <;> rfl

theorem step_attached :
    (step s x).pPSAttachedState = attachedAfter x.1 (byte x) s.pPSAttachedState := switch_attached

theorem step_isLte : (step s x).isLte = true ↔ s.isLte = true ∨ Lte x := by
  rw [step, switch_snd, personality_eq]
  dsimp only
  by_cases hserves : Serves x.1 (byte x)
  · rw [if_pos hserves]
    rcases act_cases x.1 with ⟨ht, hact⟩ | ⟨ht, hact⟩ | ⟨-, ht, hact⟩
    · have hlte : ¬(x.1 = 0x14 ∨ x.1 = 0x19) := by
        rintro (h | h) <;> rw [h] at ht <;> revert ht <;> decide
      simp [hact, State.cdma, Lte, hlte]
    · simp [hact, State.lte, Lte, ht, hserves]
    · simp [hact, Lte, ht]
  · rw [if_neg hserves]
    simp [Lte, hserves]

theorem step_sIsCdma : (step s x).sIsCdma = true ↔
    ¬Lte x ∧ (Cdma x ∧ s.isLte = false ∨ ¬Cdma x ∧ s.sIsCdma = true) := by
  rw [step, switch_snd, personality_eq]
  dsimp only
  by_cases hserves : Serves x.1 (byte x)
  · rw [if_pos hserves]
    rcases act_cases x.1 with ⟨ht, hact⟩ | ⟨ht, hact⟩ | ⟨hcdma, hlte, hact⟩
    · have hlte : ¬(x.1 = 0x14 ∨ x.1 = 0x19) := by
        rintro (h | h) <;> rw [h] at ht <;> revert ht <;> decide
      simp [hact, State.cdma, Lte, Cdma, hlte, ht, hserves]
    · simp [hact, State.lte, Lte, ht, hserves]
    · simp [hact, Lte, Cdma, hcdma, hlte]
  · rw [if_neg hserves]
    simp [Lte, Cdma, hserves]

theorem step_sHdrPersonality : (step s x).sHdrPersonality =
    if Ehrpd x ∧ (step s x).pPSAttachedState ≠ 0 then 2 else s.sHdrPersonality := by
  have hact : ∀ s', (act x.1 s').pPSAttachedState = s'.pPSAttachedState ∧
      (act x.1 s').sHdrPersonality = s'.sHdrPersonality := by
    intro s'
    rcases act_cases x.1 with ⟨-, h⟩ | ⟨-, h⟩ | ⟨-, -, h⟩ <;> rw [h] <;> exact ⟨rfl, rfl⟩
  rw [step_attached, step, switch_snd]
  dsimp only
  generalize hbase : ({ s with
    pPSAttachedState := attachedAfter x.1 (byte x) s.pPSAttachedState } : State) = base
  have hattached : attachedAfter x.1 (byte x) s.pPSAttachedState = base.pPSAttachedState := by
    rw [← hbase]
  have hhdr : s.sHdrPersonality = base.sHdrPersonality := by
    rw [← hbase]
  rw [hattached, hhdr]
  unfold personality Ehrpd
  split
  · simp only [hact, and_assoc]
    split <;> simp [hact]
  · simp only [and_assoc]
    split <;> rfl

theorem after_concat : after (xs ++ [x]) = step (after xs) x := by
  rw [after, foldl_append]
  rfl

theorem after_isLte : (after xs).isLte = true ↔ ∃ x ∈ xs, Lte x := by
  induction xs using reverseRecOn with
  | nil => simp [after, State.init]
  | append_singleton xs x ih =>
    rw [after_concat, step_isLte, ih]
    simp [or_and_right, exists_or]

theorem after_sIsCdma :
    (after xs).sIsCdma = true ↔ (∃ x ∈ xs, Cdma x) ∧ ¬∃ x ∈ xs, Lte x := by
  induction xs using reverseRecOn with
  | nil => simp [after, State.init]
  | append_singleton xs x ih =>
    have hlte : (after xs).isLte = false ↔ ¬∃ x ∈ xs, Lte x := by
      rw [← after_isLte, Bool.not_eq_true]
    rw [after_concat, step_sIsCdma, ih, hlte]
    simp only [mem_append, mem_singleton, or_and_right, exists_or, exists_eq_left]
    by_cases hcdma : Cdma x
    · simp [hcdma, and_comm]
    · simp [hcdma, and_comm, and_left_comm]

theorem step_attached_of_announces (h : Announces x) :
    (step s x).pPSAttachedState = if byte x 1 &&& 0x02 ≠ 0 then 1 else 0 := by
  rw [step_attached]
  exact if_pos h

theorem step_attached_of_not_announces (h : ¬Announces x) :
    (step s x).pPSAttachedState = s.pPSAttachedState := by
  rw [step_attached]
  exact if_neg h

theorem Agree.of_concat (h : Agree (xs ++ [x])) : Agree xs where
  domain y hy z hz := h.domain y (by simp [hy]) z (by simp [hz])
  personality y hy he hn z hz := h.personality y (by simp [hy]) he hn z (by simp [hz])

theorem Agree.perm (h : Agree xs) (hperm : xs.Perm ys) : Agree ys where
  domain x hx y hy := h.domain x (hperm.mem_iff.mpr hx) y (hperm.mem_iff.mpr hy)
  personality x hx he hn y hy := h.personality x (hperm.mem_iff.mpr hx) he hn y
    (hperm.mem_iff.mpr hy)

theorem after_attached (h : Agree xs) : ((after xs).pPSAttachedState ≠ 0 ↔ ∃ x ∈ xs, Attached x) ∧
    ((after xs).pPSAttachedState ≠ 0 → (after xs).pPSAttachedState = 1) := by
  induction xs using reverseRecOn with
  | nil => simp [after, State.init]
  | append_singleton xs x ih =>
    obtain ⟨ihiff, ihone⟩ := ih h.of_concat
    rw [after_concat]
    by_cases hx : Announces x
    · rw [step_attached_of_announces hx]
      by_cases hps : byte x 1 &&& 0x02 ≠ 0
      · rw [if_pos hps]
        exact ⟨iff_of_true (by decide) ⟨x, by simp, hx, hps⟩, fun _ => rfl⟩
      · rw [if_neg hps]
        refine ⟨iff_of_false (by decide) ?_, fun h => absurd rfl h⟩
        rintro ⟨y, hy, hattached⟩
        exact hps (h.domain y hy x (by simp) hattached.1 hx hattached).2
    · have hnot : ¬Attached x := fun h => hx h.1
      rw [step_attached_of_not_announces hx]
      refine ⟨?_, ihone⟩
      rw [ihiff]
      simp [or_and_right, exists_or, hnot]

theorem after_sHdrPersonality (h : Agree xs) :
    ((∃ x ∈ xs, Ehrpd x ∧ Attached x) → (after xs).sHdrPersonality = 2) ∧
    ((¬∃ x ∈ xs, Ehrpd x ∧ Attached x) → (after xs).sHdrPersonality = 0) := by
  induction xs using reverseRecOn with
  | nil => simp [after, State.init]
  | append_singleton xs x ih =>
    have hattached := (after_attached h).1
    rw [after_concat] at hattached ⊢
    rw [step_sHdrPersonality]
    split
    next hx =>
      obtain ⟨he, hne⟩ := hx
      obtain ⟨y, hy, hps⟩ := hattached.mp hne
      refine ⟨fun _ => rfl, fun hnone => absurd ⟨x, by simp, he, ?_⟩ hnone⟩
      by_cases hannounces : Announces x
      · exact h.domain y hy x (by simp) hps.1 hannounces hps
      · exact absurd hps (h.personality x (by simp) he hannounces y hy)
    next hx =>
      have hsame : (∃ y ∈ xs ++ [x], Ehrpd y ∧ Attached y) ↔ ∃ y ∈ xs, Ehrpd y ∧ Attached y := by
        simp only [mem_append, mem_singleton, or_and_right, exists_or, exists_eq_left]
        refine or_iff_left fun ⟨he, hps⟩ => hx ⟨he, hattached.mpr ⟨x, by simp, hps⟩⟩
      rw [hsame]
      exact ih h.of_concat

theorem outcome_perm (h : Agree xs) (hperm : xs.Perm ys) :
    (after xs).outcome = (after ys).outcome := by
  have hmem : ∀ P : Item → Prop, (∃ x ∈ xs, P x) ↔ ∃ x ∈ ys, P x := by
    intro P
    simp only [hperm.mem_iff]
  have hattached : (after xs).pPSAttachedState = (after ys).pPSAttachedState := by
    obtain ⟨hiff, hone⟩ := after_attached h
    obtain ⟨hiff', hone'⟩ := after_attached (h.perm hperm)
    rw [hmem, ← hiff'] at hiff
    by_cases hzero : (after xs).pPSAttachedState = 0
    · rw [hzero]
      by_contra hne
      exact hiff.mpr (Ne.symm hne) hzero
    · rw [hone hzero, hone' (hiff.mp hzero)]
  have hcdma : (after xs).sIsCdma = (after ys).sIsCdma := by
    rw [Bool.eq_iff_iff, after_sIsCdma, after_sIsCdma, hmem, hmem]
  have hhdr : (after xs).sHdrPersonality = (after ys).sHdrPersonality := by
    obtain ⟨htwo, hzero⟩ := after_sHdrPersonality h
    obtain ⟨htwo', hzero'⟩ := after_sHdrPersonality (h.perm hperm)
    by_cases he : ∃ x ∈ xs, Ehrpd x ∧ Attached x
    · rw [htwo he, htwo' ((hmem _).mp he)]
    · rw [hzero he, hzero' (mt (hmem _).mpr he)]
  rw [State.outcome, State.outcome, hattached, hcdma, hhdr]

theorem switch_congr (h : ∀ i < need t, v i = u i) : (switch t v s).2 = (switch t u s).2 := by
  have hdomain : ∀ g : State → State, v 0 = u 0 → v 1 = u 1 →
      (srvDomain v g s).2 = (srvDomain u g s).2 := by
    intro g h0 h1
    rw [srvDomain, srvDomain, h0, h1]
  unfold switch
  split
  case h_7 | h_9 | h_10 | h_11 | h_12 => exact hdomain _ (h 0 (by decide)) (h 1 (by decide))
  case h_8 =>
    rw [hdrSystemInfo_snd, hdrSystemInfo_snd, hdomain _ (h 0 (by decide)) (h 1 (by decide)),
      personality, personality, h 10 (by decide), h 11 (by decide)]
  case h_13 => rfl
  all_goals simp only [srvStatus, h 0 (by decide)]

theorem done_of_ends (h : Ends (Walk.round m) w as) (hholds : Holds m w.p xs)
    (hroom : ∀ x ∈ xs, need x.1 ≤ x.2.length) (hlen : w.remainingLen = (encode xs).length) :
    .done s ∈ as ↔ s = xs.foldl step w.state := by
  induction xs generalizing w as with
  | nil =>
    have hround := round_end (m := m) (w := w) (by rw [hlen]; simp [encode])
    rw [h.eq_of_stop (by rw [hround]), hround]
    simp
  | cons x xs ih =>
    obtain ⟨htype, hsize, hvalue, hrest⟩ := hholds
    rw [forall_mem_cons] at hroom
    rw [length_encode_cons, headerSize] at hlen
    have hmore : w.remainingLen > 0 := by omega
    have hround := round_next (m := m) hmore
    obtain ⟨bs, rfl, hends⟩ := h.eq_of_next (by rw [hround])
    have hp : w.p + headerSize + x.2.length = w.p + size m w.p + 3 := by
      rw [hsize, headerSize]
      omega
    have hstep : (switch (m w.p) (value m w.p) w.state).2 = step w.state x := by
      rw [htype]
      exact switch_congr fun i hi => getElem_of_slice hvalue (by omega)
    have hdone := ih hends (hp ▸ hrest) hroom.2 (by dsimp only; omega)
    dsimp only at hdone
    rw [mem_append, hround, hdone, hstep, foldl_cons]
    refine or_iff_right ?_
    simp

theorem call_iff {cdma : Bool} {hdr : UInt8} (hfills : Fills m (success :: xs))
    (hroom : ∀ x ∈ xs, need x.1 ≤ x.2.length) :
    RequestRegistrationState2 cdma hdr 0 (some m) o ↔ o = (after xs).outcome := by
  obtain ⟨-, -, hvalue, -⟩ := hfills.holds
  have hzero : ∀ i < 4, m (tlvOffset + headerSize + i) = 0 := by
    intro i hi
    have hbytes : ∀ i < 4, success.2.getD i 0 = 0 := by decide
    rw [getElem_of_slice hvalue hi, hbytes i hi]
  have hword : ∀ a, m a = 0 → m (a + 1) = 0 → ofLE (slice m a 2) = 0 := by
    intro a h0 h1
    show (m a).toNat + 256 * ((m (a + 1)).toNat + 256 * 0) = 0
    rw [h0, h1]
    rfl
  have hresult : ofLE (slice m (tlvOffset + headerSize) 2) = 0 :=
    hword _ (hzero 0 (by decide)) (hzero 1 (by decide))
  have herror : ofLE (slice m (tlvOffset + headerSize + 2) 2) = 0 :=
    hword _ (hzero 2 (by decide)) (hzero 3 (by decide))
  have hsteps : (success :: xs).foldl step State.init = after xs := rfl
  obtain ⟨bs, hends⟩ := exists_ends_round (m := m) (w := ⟨messageLength m, tlvOffset, State.init⟩)
  have hdone : ∀ s, .done s ∈ bs ↔ s = after xs := by
    intro s
    rw [← hsteps]
    refine done_of_ends hends hfills.holds ?_ (by rw [hfills.length])
    exact forall_mem_cons.mpr ⟨Nat.zero_le _, hroom⟩
  unfold RequestRegistrationState2
  simp only [hresult, herror, ne_eq, not_true, or_self, ↓reduceIte, lt_self_iff_false]
  constructor
  · rintro ⟨as, s, ⟨bs', hends', rfl⟩, hmem, rfl⟩
    obtain rfl := hends.unique hends'
    have hmem : .done s ∈ bs := by simpa using hmem
    rw [(hdone s).mp hmem]
    rfl
  · rintro rfl
    exact ⟨_, after xs, ⟨bs, hends, rfl⟩, mem_append_right _ ((hdone _).mpr rfl), rfl⟩

theorem foldl_sHdrPersonality (h : ∀ x ∈ xs, ¬Ehrpd x) :
    (xs.foldl step s).sHdrPersonality = s.sHdrPersonality := by
  induction xs generalizing s with
  | nil => rfl
  | cons x xs ih =>
    rw [forall_mem_cons] at h
    rw [foldl_cons, ih h.2, step_sHdrPersonality, if_neg fun hx => h.1 hx.1]

theorem OrderFree.outcome (h : OrderFree xs) (hwf : WellFormed xs) (hperm : xs.Perm ys) :
    (after ys).outcome = (after xs).outcome ∧
      ((after ys).pPSAttachedState = 1 ↔ ∃ x ∈ xs, Attached x) := by
  have hcons : (success :: xs).Perm (success :: ys) := hperm.cons _
  obtain ⟨m, hm⟩ := exists_fills hwf.fit
  obtain ⟨m', hm'⟩ := exists_fills (length_encode_perm hcons ▸ hwf.fit)
  obtain ⟨o, ho, ho', hattached⟩ := h ys m m' hperm hm hm'
  have hxs := (ho false 0 _).mp ((call_iff hm hwf.room).mpr rfl)
  have hys := (ho' false 0 _).mp
    ((call_iff hm' fun x hx => hwf.room x (hperm.mem_iff.mpr hx)).mpr rfl)
  refine ⟨hys.trans hxs.symm, ?_⟩
  rw [← hattached, ← hys]
  rfl

/-- The order makes no difference just when the technologies agree about the packet-switched domain
and the personality does not depend on them. -/
theorem orderFree_iff (hwf : WellFormed xs) : OrderFree xs ↔ Agree xs := by
  constructor
  · intro h
    -- a TLV can be the last one of the response
    have hlast : ∀ x ∈ xs, xs.Perm (xs.erase x ++ [x]) := fun x hx =>
      (perm_cons_erase hx).trans (perm_append_singleton x _).symm
    refine ⟨fun x hx y hy _ hay hpx => ?_, fun x hx he hax y hy hpy => ?_⟩
    · obtain ⟨-, hattached⟩ := h.outcome hwf (hlast y hy)
      have hone := hattached.mpr ⟨x, hx, hpx⟩
      rw [after_concat, step_attached_of_announces hay] at hone
      refine ⟨hay, fun hps => ?_⟩
      rw [if_neg (by simpa using hps)] at hone
      cases hone
    · obtain ⟨hout, hattached⟩ := h.outcome hwf (hlast x hx)
      obtain ⟨hout', -⟩ := h.outcome hwf (perm_cons_erase hx)
      have hone := hattached.mpr ⟨y, hy, hpy⟩
      have htwo : (after (xs.erase x ++ [x])).sHdrPersonality = 2 := by
        rw [after_concat] at hone ⊢
        rw [step_sHdrPersonality, if_pos ⟨he, by rw [hone]; decide⟩]
      have hothers : ∀ z ∈ xs.erase x, ¬Ehrpd z := by
        intro z hz hez
        have hnodup := (hwf.nodup.of_cons).perm ((perm_cons_erase hx).map Prod.fst)
        rw [map_cons, nodup_cons] at hnodup
        refine hnodup.1 (List.mem_map.mpr ⟨z, hz, ?_⟩)
        rw [hez.1, he.1]
      have hzero : (after (x :: xs.erase x)).sHdrPersonality = 0 := by
        rw [after, foldl_cons, foldl_sHdrPersonality hothers, step_sHdrPersonality,
          step_attached_of_not_announces hax]
        exact if_neg fun h => h.2 rfl
      have hsame := congrArg Outcome.sHdrPersonality (hout.trans hout'.symm)
      have hcontra : (2 : UInt8) = 0 := htwo.symm.trans (hsame.trans hzero)
      cases hcontra
  · intro h ys m m' hperm hm hm'
    refine ⟨(after xs).outcome, fun _ _ _ => call_iff hm hwf.room, fun _ _ _ => ?_, ?_⟩
    · rw [outcome_perm h hperm]
      exact call_iff hm' fun x hx => hwf.room x (hperm.mem_iff.mpr hx)
    · obtain ⟨hiff, hone⟩ := after_attached h
      rw [← hiff]
      show (after xs).pPSAttachedState = 1 ↔ _
      exact ⟨fun h => by rw [h]; decide, hone⟩

def lteOnly : List Item := [(0x14, [2, 2, 1]), (0x19, [1, 3] ++ replicate 27 0)]

theorem lteOnly_orderFree : OrderFree lteOnly := by
  refine (orderFree_iff ⟨by decide, by decide, by decide⟩).mpr ⟨?_, ?_⟩
  · intro x hx y hy hax hay hpx
    simp only [lteOnly, mem_cons, not_mem_nil, or_false] at hx hy
    rcases hx with rfl | rfl <;> rcases hy with rfl | rfl
    · exact hpx
    · exact absurd hax.1 (by decide)
    · exact absurd hay.1 (by decide)
    · exact hpx
  · intro x hx he
    simp only [lteOnly, mem_cons, not_mem_nil, or_false] at hx
    rcases hx with rfl | rfl <;> exact absurd he.1 (by decide)

def gsmAndLte : List Item :=
  [(0x17, [1, 2] ++ replicate 28 0), (0x19, [1, 1] ++ replicate 27 0)]

theorem gsmAndLte_not_orderFree : WellFormed gsmAndLte ∧ ¬OrderFree gsmAndLte := by
  have hwf : WellFormed gsmAndLte := ⟨by decide, by decide, by decide⟩
  refine ⟨hwf, fun h => ?_⟩
  obtain ⟨-, hattached⟩ := h.outcome hwf (.refl _)
  have hone := hattached.mpr ⟨_, mem_cons_self, ⟨by decide, by decide⟩, by decide⟩
  exact absurd hone (by decide)

end ModemSupport.Cm.SysInfo
