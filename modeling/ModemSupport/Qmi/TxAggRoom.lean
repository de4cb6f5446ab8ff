import ModemSupport.Qmi.QmapRoundTrip
import ModemSupport.Qmi.TxAggStream

/-! Aggregation while user space sets the limits and the mtu: `qma_setting_store` and
`rmnet_vnd_change_mtu`, and when the frames that `rmnet_vnd_start_xmit` builds fit into
`agg_skb`. -/

namespace ModemSupport.Qmi.TxAgg

open ModemSupport.Lib List Option

structure QmapSetting where
  size : UInt32
  ulDataAggregationMaxDatagrams : UInt32
  ulDataAggregationMaxSize : UInt32

/-- `qma_setting_store`, which is given `size` bytes; `none` is `-EOPNOTSUPP`. -/
def qmaSettingStore (ctx : Config) (settings : QmapSetting) (size : UInt32) : Option Config :=
  if settings.size ≠ size then none
  else if ctx.ulDataAggregationMaxDatagrams = 1 ∧ settings.ulDataAggregationMaxDatagrams > 1 then
    some { ctx with
      ulDataAggregationMaxDatagrams := settings.ulDataAggregationMaxDatagrams
      ulDataAggregationMaxSize := settings.ulDataAggregationMaxSize }
  else some ctx

/-- `rmnet_vnd_change_mtu`; `none` is `-EINVAL`. -/
def rmnetVndChangeMtu (newMtu : Int32) : Option Nat :=
  if newMtu < 0 then none else some newMtu.toInt.toNat

/-- The device, with `tx_ctx`, its mtu and what it sends. -/
structure System where
  ctx : Config
  mtu : Nat
  dev : State

/-- A call of `rmnet_vnd_start_xmit` behind the Ethernet header: `v5` is set for `qmap_version`
9. -/
structure Xmit where
  skb : Skb
  v5 : Bool
  muxId : UInt8
  protocol : UInt16
  xmitMore : Bool
  rounds : Nat → Round

def Xmit.frame (x : Xmit) : TxSkb :=
  ⟨if x.v5 then addQhdrV5 x.skb x.muxId else addQhdr x.skb x.muxId, x.protocol⟩

inductive Event where
  | settingStore (settings : QmapSetting) (size : UInt32)
  | changeMtu (newMtu : Int32)
  | startXmit (x : Xmit)
  | timerCb
  | work (now : Timespec)

/-- The stack gives packets of at most `mtu` bytes; there is no step for `skb_over_panic`. -/
def System.step (s : System) : Event → Option System
  | .settingStore settings size =>
    some { s with ctx := (qmaSettingStore s.ctx settings size).getD s.ctx }
  | .changeMtu newMtu => some { s with mtu := (rmnetVndChangeMtu newMtu).getD s.mtu }
  | .startXmit x =>
    if x.skb.len ≤ s.mtu then
      (rmnetUsbTxAgg s.ctx 2 s.dev x.frame x.xmitMore x.rounds).map ({ s with dev := · })
    else none
  | .timerCb => (rmnetUsbTxAggTimerCb s.dev).map ({ s with dev := · })
  | .work now => (rmnetUsbTxAggWork s.dev now).map ({ s with dev := · })

def boot (allocMax : Nat) (h : allocMax < 2 ^ 31) (aggTime : Timespec) : System :=
  ⟨⟨1, 1500, allocMax, h⟩, 1500, init aggTime⟩

/-- The packet is sent within the tailroom of `agg_skb`, and a frame that is too large for an
aggregate by itself, behind what is in `agg_skb`. -/
def Sends (s : System) (x : Xmit) : Prop :=
  ∃ t, s.step (.startXmit x) = some t ∧
    (s.ctx.ulDataAggregationMaxSize.toNat < x.frame.skb.len →
      t.dev.sent = s.dev.sent ++ (s.dev.priv.aggSkb.map Skb.data).toList ++ [x.frame.skb.data])

/-- A pass without `agg_skb` has a frame that fits into a new one, or does not start one: it is late
or urgent, or there is no memory. -/
def Alone (c : Config) (aggTime : Timespec) (skb : TxSkb) (xmitMore : Bool) (r : Round) : Prop :=
  skb.skb.len ≤ c.ulDataAggregationMaxSize.toNat ∨
    readyToSend (timespec64Sub r.now aggTime) r.aggBypassTime false skb xmitMore = true ∨
    allocSkb c r = none

/-- What is asked of the pass without `agg_skb`; with one it is the pass behind the pass that sends
it, and a frame that is put into it must not be so long that the sum of the lengths wraps. -/
def Room (c : Config) (p : QmapPriv) (skb : TxSkb) (xmitMore : Bool) (rounds : Nat → Round) :
    Prop :=
  c.ulDataAggregationMaxDatagrams = 1 ∨
    match p.aggSkb with
    | none => Alone c p.aggTime skb xmitMore (rounds 0)
    | some agg =>
      if (agg.len + skb.skb.len) % 2 ^ 32 < c.ulDataAggregationMaxSize.toNat then
        agg.len + skb.skb.len < 2 ^ 32
      else Alone c (rounds 0).now skb xmitMore (rounds 1)

variable {c : Config} {p : QmapPriv} {s t : State} {skb : TxSkb} {xmitMore : Bool} {r : Round}
  {rounds : Nat → Round} {pass : Pass} {agg : Skb} {fuel : Nat}

/-- `agg_skb` has the size that is set, and is there only when several datagrams may be in it. -/
def AggSized (c : Config) (p : QmapPriv) : Prop :=
  ∀ agg, p.aggSkb = some agg → c.ulDataAggregationMaxDatagrams ≠ 1 ∧
    agg.len + agg.tailroom = c.ulDataAggregationMaxSize.toNat ∧
    c.ulDataAggregationMaxSize.toNat ≤ c.allocMax

theorem AggSized.none (h : p.aggSkb = .none) : AggSized c p := by
  intro agg hagg
  cases h.symm.trans hagg

theorem allocSkb_some (h : allocSkb c r = some agg) :
    agg.len = 0 ∧ agg.tailroom = c.ulDataAggregationMaxSize.toNat ∧
      c.ulDataAggregationMaxSize.toNat ≤ c.allocMax := by
  unfold allocSkb at h
  split at h <;> cases h
  next hmax => exact ⟨rfl, length_replicate, hmax.2⟩

theorem startAgg_iff :
    Alone c p.aggTime skb xmitMore r ↔ ∃ pass, startAgg c p skb xmitMore r = some pass ∧
      pass.skb = none ∧
      (c.ulDataAggregationMaxSize.toNat < skb.skb.len → pass.xmit = some skb.skb.data) := by
  unfold startAgg Alone
  dsimp only
  by_cases hready : readyToSend (timespec64Sub r.now p.aggTime) r.aggBypassTime false skb xmitMore
      = true
  · rw [if_pos hready]
    exact ⟨fun _ => ⟨_, rfl, rfl, fun _ => rfl⟩, fun _ => .inr (.inl hready)⟩
  rw [if_neg hready]
  cases halloc : allocSkb c r with
  | none => exact ⟨fun _ => ⟨_, rfl, rfl, fun _ => rfl⟩, fun _ => .inr (.inr rfl)⟩
  | some agg =>
    obtain ⟨-, hroom, -⟩ := allocSkb_some halloc
    dsimp only
    constructor
    · rintro (hlen | hready' | hnone)
      · have hfits : skb.skb.data.length ≤ agg.tailroom := by
          rw [hroom]
          exact hlen
        obtain ⟨agg', happend⟩ := append_of_room hfits
        rw [happend]
        exact ⟨_, rfl, rfl, fun hlarge => absurd hlarge (Nat.not_lt.mpr hlen)⟩
      · exact absurd hready' hready
      · cases hnone
    · rintro ⟨pass, hpass, -, -⟩
      left
      by_contra hlarge
      have happend : agg.append skb.skb.data = .none := by
        apply if_pos
        rw [hroom]
        exact Nat.not_le.mp hlarge
      rw [happend] at hpass
      cases hpass

theorem startAgg_sized (hM : c.ulDataAggregationMaxDatagrams ≠ 1) (hagg : p.aggSkb = none)
    (h : startAgg c p skb xmitMore r = some pass) : AggSized c pass.priv := by
  unfold startAgg at h
  dsimp only at h
  split at h
  · cases h
    exact .none hagg
  · split at h
    next agg halloc =>
      obtain ⟨agg', happend, rfl⟩ := map_eq_some_iff.mp h
      obtain ⟨hlen, hroom, hmax⟩ := allocSkb_some halloc
      obtain ⟨-, hsize⟩ := append_data happend
      rintro _ ⟨⟩
      exact ⟨hM, by omega, hmax⟩
    · cases h
      exact .none hagg

theorem addToAgg_sized (h : AggSized c p) (hagg : p.aggSkb = some agg)
    (hpass : addToAgg c p agg skb xmitMore r = some pass) : AggSized c pass.priv := by
  obtain ⟨hM, hsize, hmax⟩ := h agg hagg
  unfold addToAgg at hpass
  dsimp only at hpass
  split at hpass
  · obtain ⟨agg', happend, rfl⟩ := map_eq_some_iff.mp hpass
    obtain ⟨-, hsize'⟩ := append_data happend
    split
    · exact .none rfl
    · rintro _ ⟨⟩
      exact ⟨hM, hsize'.trans hsize, hmax⟩
  · cases hpass
    exact .none rfl

theorem newPacket_sized (hM : c.ulDataAggregationMaxDatagrams ≠ 1) (h : AggSized c s.priv)
    (ht : newPacket c xmitMore fuel rounds s skb = some t) : AggSized c t.priv := by
  induction fuel generalizing s rounds skb with
  | zero => cases ht
  | succ fuel ih =>
    rw [newPacket] at ht
    obtain ⟨pass, hpass, hrest⟩ := bind_eq_some_iff.mp ht
    have hsized : AggSized c pass.priv := by
      split at hpass
      next agg hagg => exact addToAgg_sized h hagg hpass
      next hagg => exact startAgg_sized hM hagg hpass
    dsimp only at hrest
    split at hrest
    · exact ih hsized hrest
    · cases hrest
      exact hsized

/-- The loop ends, and sends a frame that is too large by itself behind `before`. -/
def Ends (c : Config) (s : State) (skb : TxSkb) (before : List (List UInt8)) (t : State) : Prop :=
  c.ulDataAggregationMaxSize.toNat < skb.skb.len → t.sent = s.sent ++ before ++ [skb.skb.data]

theorem newPacket_none_iff (hagg : s.priv.aggSkb = none) :
    Alone c s.priv.aggTime skb xmitMore (rounds 0) ↔
      ∃ t, newPacket c xmitMore (fuel + 1) rounds s skb = some t ∧ Ends c s skb [] t := by
  have hlast (pass : Pass) (hpass : startAgg c s.priv skb xmitMore (rounds 0) = some pass) :
      pass.skb = none := by
    unfold startAgg at hpass
    dsimp only at hpass
    split at hpass
    · cases hpass
      rfl
    · split at hpass
      · obtain ⟨_, -, rfl⟩ := map_eq_some_iff.mp hpass
        rfl
      · cases hpass
        rfl
  rw [startAgg_iff, newPacket, hagg]
  constructor
  · rintro ⟨pass, hpass, hnone, hxmit⟩
    simp only [hpass, bind_some, hnone]
    refine ⟨_, rfl, fun hlarge => ?_⟩
    simp [hxmit hlarge]
  · rintro ⟨t, ht, hends⟩
    obtain ⟨pass, hpass, hrest⟩ := bind_eq_some_iff.mp ht
    have hnone := hlast pass hpass
    rw [hnone] at hrest
    cases hrest
    refine ⟨pass, hpass, hnone, fun hlarge => ?_⟩
    have hsent := hends hlarge
    simp only [append_nil, append_cancel_left_eq] at hsent
    cases hxmit : pass.xmit with
    | none => simp [hxmit] at hsent
    | some bytes => simpa [hxmit] using hsent

theorem newPacket_some_iff (h : AggSized c s.priv) (hagg : s.priv.aggSkb = some agg) :
    (if (agg.len + skb.skb.len) % 2 ^ 32 < c.ulDataAggregationMaxSize.toNat then
        agg.len + skb.skb.len < 2 ^ 32
      else Alone c (rounds 0).now skb xmitMore (rounds 1)) ↔
      ∃ t, newPacket c xmitMore 2 rounds s skb = some t ∧ Ends c s skb [agg.data] t := by
  obtain ⟨-, hsize, hmax⟩ := h agg hagg
  have hlt := c.allocMax_lt
  rw [newPacket, hagg]
  dsimp only
  unfold addToAgg
  dsimp only
  by_cases hroom : (agg.len + skb.skb.len) % 2 ^ 32 < c.ulDataAggregationMaxSize.toNat
  · rw [if_pos hroom, if_pos hroom]
    constructor
    · intro hwrap
      rw [Nat.mod_eq_of_lt hwrap] at hroom
      have hfits : skb.skb.data.length ≤ agg.tailroom := by
        change skb.skb.len ≤ _
        omega
      obtain ⟨agg', happend⟩ := append_of_room hfits
      rw [happend, map_some, bind_some]
      generalize readyToSend _ _ _ _ _ = ready
      cases ready <;> exact ⟨_, rfl, fun hlarge => absurd hlarge (by omega)⟩
    · rintro ⟨t, ht, -⟩
      obtain ⟨pass, hpass, -⟩ := bind_eq_some_iff.mp ht
      obtain ⟨agg', happend, -⟩ := map_eq_some_iff.mp hpass
      have hfits : skb.skb.len ≤ agg.tailroom := by
        unfold Skb.append at happend
        split at happend
        · cases happend
        next hfits => exact Nat.not_lt.mp hfits
      omega
  · rw [if_neg hroom, if_neg hroom, bind_some]
    let sent : State := { s with
      priv := { s.priv with aggSkb := none, aggCount := 0, aggTime := (rounds 0).now }
      sent := s.sent ++ [agg.data] }
    have hnone : sent.priv.aggSkb = none := rfl
    let later : Nat → Round := fun i => rounds (i + 1)
    have hiff : Alone c sent.priv.aggTime skb xmitMore (later 0) ↔
        ∃ t, newPacket c xmitMore (0 + 1) later sent skb = some t ∧ Ends c sent skb [] t :=
      newPacket_none_iff hnone
    have hends (t : State) : Ends c sent skb [] t ↔ Ends c s skb [agg.data] t := by
      rw [Ends, Ends, append_nil]
    simp only [hends] at hiff
    exact hiff

theorem rmnetUsbTxAgg_iff (h : AggSized c s.priv) :
    Room c s.priv skb xmitMore rounds ↔
      ∃ t, rmnetUsbTxAgg c 2 s skb xmitMore rounds = some t ∧
        Ends c s skb (s.priv.aggSkb.map Skb.data).toList t := by
  unfold rmnetUsbTxAgg Room
  dsimp only
  by_cases hM : c.ulDataAggregationMaxDatagrams = 1
  · have hagg : s.priv.aggSkb = none := by
      cases hagg : s.priv.aggSkb with
      | none => rfl
      | some agg => exact absurd hM (h agg hagg).1
    rw [if_pos hM, hagg]
    exact ⟨fun _ => ⟨_, rfl, fun _ => by simp⟩, fun _ => .inl hM⟩
  rw [if_neg hM]
  simp only [hM, false_or]
  let submitted : State := { s with submitted := s.submitted ++ [skb.skb.data] }
  have hstart {before : List (List UInt8)} :
      (∃ t, (newPacket c xmitMore 2 rounds submitted skb).map startTimer = some t ∧
        Ends c s skb before t) ↔
      ∃ t, newPacket c xmitMore 2 rounds submitted skb = some t ∧
        Ends c submitted skb before t := by
    simp only [map_eq_some_iff]
    constructor
    · rintro ⟨_, ⟨t, ht, rfl⟩, hends⟩
      exact ⟨t, ht, fun hlarge => (startTimer_spec t).1.symm.trans (hends hlarge)⟩
    · rintro ⟨t, ht, hends⟩
      exact ⟨_, ⟨t, ht, rfl⟩, fun hlarge => (startTimer_spec t).1.trans (hends hlarge)⟩
  rw [hstart]
  cases hagg : s.priv.aggSkb with
  | none => exact newPacket_none_iff (s := submitted) hagg
  | some agg => exact newPacket_some_iff (s := submitted) h hagg

theorem rmnetUsbTxAgg_sized {c : Config} (h : AggSized c s.priv)
    (ht : rmnetUsbTxAgg c fuel s skb xmitMore rounds = some t) : AggSized c t.priv := by
  unfold rmnetUsbTxAgg at ht
  dsimp only at ht
  split at ht
  · cases ht
    exact h
  next hM =>
    obtain ⟨u, hu, rfl⟩ := map_eq_some_iff.mp ht
    have hsized : AggSized c u.priv :=
      newPacket_sized (s := { s with submitted := s.submitted ++ [skb.skb.data] }) hM h hu
    intro agg hagg
    exact hsized agg ((startTimer_spec u).2.2.1.symm.trans hagg)

theorem AggSized.settingStore {settings : QmapSetting} {size : UInt32} (h : AggSized c p) :
    AggSized ((qmaSettingStore c settings size).getD c) p := by
  unfold qmaSettingStore
  split
  · exact h
  · split
    next hset =>
      apply AggSized.none
      cases hagg : p.aggSkb with
      | none => rfl
      | some agg => exact absurd hset.1 (h agg hagg).1
    · exact h

theorem step_sized {s t : System} {e : Event} (h : AggSized s.ctx s.dev.priv)
    (ht : s.step e = some t) : AggSized t.ctx t.dev.priv := by
  cases e with
  | settingStore settings size =>
    cases ht
    exact h.settingStore
  | changeMtu newMtu =>
    cases ht
    exact h
  | startXmit x =>
    simp only [System.step, ite_none_right_eq_some, map_eq_some_iff] at ht
    obtain ⟨-, dev, hdev, rfl⟩ := ht
    exact rmnetUsbTxAgg_sized h hdev
  | timerCb =>
    obtain ⟨dev, hdev, rfl⟩ := map_eq_some_iff.mp ht
    unfold rmnetUsbTxAggTimerCb at hdev
    split at hdev <;> cases hdev
    exact h
  | work now =>
    obtain ⟨dev, hdev, rfl⟩ := map_eq_some_iff.mp ht
    unfold rmnetUsbTxAggWork at hdev
    split at hdev
    · split at hdev <;> cases hdev
      · exact .none rfl
      · exact h
    · cases hdev

/-- Whatever has been set, sent and received before, the copies of a call fit and a frame that is
too large is sent by itself just when there is room for the frame. -/
theorem sends_iff_room {allocMax : Nat} (hmax : allocMax < 2 ^ 31) (aggTime : Timespec) {s : System}
    (hs : Transition.Reachable System.step (boot allocMax hmax aggTime) s) {x : Xmit}
    (hmtu : x.skb.len ≤ s.mtu) :
    Sends s x ↔ Room s.ctx s.dev.priv x.frame x.xmitMore x.rounds := by
  have hsized : AggSized s.ctx s.dev.priv :=
    hs.invariant (P := fun s => AggSized s.ctx s.dev.priv) (.none rfl) fun _ _ _ h _ ht =>
      step_sized h ht
  rw [rmnetUsbTxAgg_iff hsized]
  unfold Sends System.step
  simp only [if_pos hmtu, map_eq_some_iff]
  constructor
  · rintro ⟨_, ⟨dev, hdev, rfl⟩, hsent⟩
    exact ⟨dev, hdev, hsent⟩
  · rintro ⟨dev, hdev, hsent⟩
    exact ⟨_, ⟨dev, hdev, rfl⟩, hsent⟩

def longest : Xmit where
  skb := ⟨0x45 :: replicate 1499 0, []⟩
  v5 := false
  muxId := 0x81
  protocol := ethPIp
  xmitMore := true
  rounds _ := ⟨⟨0, 500⟩, 1000000, 10000000, true⟩

def afterSetting (maxSize : UInt32) : System :=
  ⟨⟨11, maxSize, 4096, by decide⟩, 1500, init ⟨0, 0⟩⟩

theorem reachable_afterSetting (maxSize : UInt32) :
    Transition.Reachable System.step (boot 4096 (by decide) ⟨0, 0⟩) (afterSetting maxSize) :=
  Transition.reachable_single (l := .settingStore ⟨32, 11, maxSize⟩ 32) rfl

theorem longest_le (maxSize : UInt32) : longest.skb.len ≤ (afterSetting maxSize).mtu := by
  show longest.skb.len ≤ 1500
  decide +kernel

/-- The frame of 1504 bytes starts an aggregate of 4096. -/
theorem longest_sends : Sends (afterSetting 4096) longest :=
  (sends_iff_room (by decide) ⟨0, 0⟩ (reachable_afterSetting 4096) (longest_le _)).mpr
    (.inr (.inl (by decide +kernel)))

/-- The frame is put into an aggregate of 1500 bytes. -/
theorem not_sends : ¬∀ (allocMax : Nat) (hmax : allocMax < 2 ^ 31) (aggTime : Timespec)
    (s : System), Transition.Reachable System.step (boot allocMax hmax aggTime) s →
      ∀ x : Xmit, x.skb.len ≤ s.mtu → Sends s x := by
  intro h
  obtain ⟨t, ht, -⟩ :=
    h 4096 (by decide) ⟨0, 0⟩ _ (reachable_afterSetting 1500) longest (longest_le _)
  have hpanic : rmnetUsbTxAgg (afterSetting 1500).ctx 2 (afterSetting 1500).dev
      longest.frame longest.xmitMore longest.rounds = none := by
    decide +kernel
  rw [System.step, if_pos (longest_le _), hpanic] at ht
  cases ht

end ModemSupport.Qmi.TxAgg
