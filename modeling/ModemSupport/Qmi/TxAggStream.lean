import ModemSupport.Qmi.TxAgg

/-! The frames that pass through aggregation.  Every buffer sent is a group of whole frames that
were submitted one after the other, and `agg_skb` holds the frames behind the last group. -/

namespace ModemSupport.Qmi.TxAgg

open ModemSupport.Lib List Option

/-- The frames in `agg_skb` are `pending`. -/
structure Gathers (c : Config) (p : QmapPriv) (pending : List (List UInt8)) : Prop where
  aggCount : p.aggCount = pending.length
  empty : p.aggSkb = none → pending = []
  agg : ∀ agg, p.aggSkb = some agg → agg.data = pending.flatten ∧
    agg.len + agg.tailroom = c.ulDataAggregationMaxSize.toNat ∧
    pending.length < c.ulDataAggregationMaxDatagrams.toNat ∧
    c.ulDataAggregationMaxSize.toNat ≤ c.allocMax

def Fits (c : Config) (g : List (List UInt8)) : Prop :=
  g.length ≤ c.ulDataAggregationMaxDatagrams.toNat ∧
    g.flatten.length ≤ c.ulDataAggregationMaxSize.toNat

/-- All frames submitted but `rest` are in the buffers sent, one group for each, or in `agg_skb`. -/
def Stream (c : Config) (s : State) (rest : List (List UInt8)) : Prop :=
  ∃ (groups : List (List (List UInt8))) (pending : List (List UInt8)),
    s.submitted = groups.flatten ++ pending ++ rest ∧ s.sent = groups.map List.flatten ∧
    (∀ g ∈ groups, Fits c g) ∧ Gathers c s.priv pending

section

variable {c : Config} {p : QmapPriv} {s t : State} {pending : List (List UInt8)} {skb : TxSkb}

theorem append_data {buf buf' : Skb} {bytes : List UInt8} (h : buf.append bytes = some buf') :
    buf'.data = buf.data ++ bytes ∧ buf'.len + buf'.tailroom = buf.len + buf.tailroom := by
  unfold Skb.append at h
  split at h
  next => cases h
  next hroom =>
    cases h
    refine ⟨rfl, ?_⟩
    simp only [Skb.len, Skb.tailroom, length_append, length_drop] at hroom ⊢
    omega

theorem append_of_room {buf : Skb} {bytes : List UInt8} (h : bytes.length ≤ buf.tailroom) :
    ∃ buf', buf.append bytes = some buf' :=
  ⟨_, if_neg (Nat.not_lt.mpr h)⟩

theorem Gathers.none (h : p.aggSkb = none) (hcount : p.aggCount = 0) : Gathers c p [] where
  aggCount := hcount
  empty _ := rfl
  agg _ hagg := by
    rw [h] at hagg
    cases hagg

/-- What a pass does with a frame behind `pending`: it is gathered, or sent with them, or waits for
the next pass when there is an `agg_skb` to send. -/
inductive Passes (c : Config) (p : QmapPriv) (pending : List (List UInt8)) (skb : TxSkb) :
    Pass → Prop
  | gathered {priv : QmapPriv} (h : Gathers c priv (pending ++ [skb.skb.data])) :
      Passes c p pending skb ⟨priv, none, none⟩
  | sent {priv : QmapPriv} (hfits : Fits c (pending ++ [skb.skb.data]))
      (h : Gathers c priv []) :
      Passes c p pending skb ⟨priv, some (pending ++ [skb.skb.data]).flatten, none⟩
  | flushed {priv : QmapPriv} (hagg : p.aggSkb ≠ none) (hpriv : priv.aggSkb = none)
      (hfits : Fits c pending) (h : Gathers c priv []) :
      Passes c p pending skb ⟨priv, some pending.flatten, some skb⟩

def SameTimer (p p' : QmapPriv) : Prop := p'.aggHrtimer = p.aggHrtimer ∧ p'.aggWq = p.aggWq

theorem addToAgg_passes (h : Gathers c p pending) {agg : Skb} (hagg : p.aggSkb = some agg)
    (hlen : skb.skb.len ≤ c.ulDataAggregationMaxSize.toNat) (xmitMore : Bool) (r : Round) :
    ∃ pass, addToAgg c p agg skb xmitMore r = some pass ∧ Passes c p pending skb pass ∧
      SameTimer p pass.priv := by
  obtain ⟨hdata, hsize, hcount, halloc⟩ := h.agg agg hagg
  have hmax := c.allocMax_lt
  have hwrap : (agg.len + skb.skb.len) % 2 ^ 32 = agg.len + skb.skb.len :=
    Nat.mod_eq_of_lt (by omega)
  have hfits : Fits c pending := by
    refine ⟨hcount.le, ?_⟩
    rw [← hdata]
    change agg.len ≤ _
    omega
  unfold addToAgg
  dsimp only
  rw [hwrap]
  split
  next hroom =>
    have htail : skb.skb.data.length ≤ agg.tailroom := by
      change skb.skb.len ≤ _
      omega
    obtain ⟨agg', happend⟩ := append_of_room htail
    obtain ⟨hdata', hsize'⟩ := append_data happend
    have hflatten : agg'.data = (pending ++ [skb.skb.data]).flatten := by
      rw [hdata', hdata]
      simp
    have hlen' : agg'.len = agg.len + skb.skb.len := by
      rw [Skb.len, hdata', length_append]
      rfl
    have hfits' : Fits c (pending ++ [skb.skb.data]) := by
      refine ⟨by rw [length_append]; exact hcount, ?_⟩
      rw [← hflatten]
      change agg'.len ≤ _
      omega
    rw [happend, map_some]
    refine ⟨_, rfl, ?_⟩
    split
    next =>
      rw [hflatten]
      exact ⟨.sent hfits' (.none rfl rfl), rfl, rfl⟩
    next hready =>
      have hne : p.aggCount + 1 ≠ c.ulDataAggregationMaxDatagrams.toNat := fun heq => by
        rw [decide_eq_true heq, readyToSend_full] at hready
        exact hready rfl
      rw [h.aggCount] at hne
      refine ⟨.gathered ⟨by simp [h.aggCount], fun he => (by cases he), ?_⟩, rfl, rfl⟩
      rintro _ ⟨⟩
      refine ⟨hflatten, hsize'.trans hsize, ?_, halloc⟩
      rw [length_append, length_singleton]
      omega
  next =>
    refine ⟨_, rfl, ?_, rfl, rfl⟩
    rw [hdata]
    exact .flushed (by rw [hagg]; simp) rfl hfits (.none rfl rfl)

theorem startAgg_passes (hM : 1 < c.ulDataAggregationMaxDatagrams) (hagg : p.aggSkb = none)
    (hcount : p.aggCount = 0) (hlen : skb.skb.len ≤ c.ulDataAggregationMaxSize.toNat)
    (xmitMore : Bool) (r : Round) :
    ∃ pass, startAgg c p skb xmitMore r = some pass ∧ Passes c p [] skb pass ∧ pass.skb = none ∧
      SameTimer p pass.priv := by
  have hM' : 1 < c.ulDataAggregationMaxDatagrams.toNat := UInt32.lt_iff_toNat_lt.mp hM
  have hfits : Fits c ([] ++ [skb.skb.data]) := by
    refine ⟨hM'.le, ?_⟩
    rw [nil_append, flatten_singleton]
    exact hlen
  have hflatten : skb.skb.data = ([] ++ [skb.skb.data]).flatten := by simp
  -- the frame goes out by itself
  have hsent : Passes c p [] skb ⟨{ p with aggTime := r.now }, some skb.skb.data, none⟩ := by
    have hpass := Passes.sent (p := p) hfits
      (.none (p := { p with aggTime := r.now }) hagg hcount)
    rwa [← hflatten] at hpass
  unfold startAgg
  dsimp only
  split
  next => exact ⟨_, rfl, hsent, rfl, rfl, rfl⟩
  next =>
    split
    next agg halloc =>
      unfold allocSkb at halloc
      split at halloc
      next hmax =>
        cases halloc
        have htail : skb.skb.data.length ≤
            (⟨[], replicate c.ulDataAggregationMaxSize.toNat 0⟩ : Skb).tailroom := by
          rw [Skb.tailroom, length_replicate]
          exact hlen
        obtain ⟨agg, happend⟩ := append_of_room htail
        obtain ⟨hdata, hsize⟩ := append_data happend
        rw [happend]
        refine ⟨_, rfl, .gathered ⟨by simp [hcount], fun he => (by cases he), ?_⟩, rfl, rfl, rfl⟩
        rintro _ ⟨⟩
        refine ⟨by simpa using hdata, ?_, by simpa using hM', hmax.2⟩
        simpa [Skb.len, Skb.tailroom] using hsize
      next => cases halloc
    next => exact ⟨_, rfl, hsent, rfl, rfl, rfl⟩

theorem Stream.pass {pass : Pass} {groups : List (List (List UInt8))}
    (hsubmitted : s.submitted = groups.flatten ++ pending ++ [skb.skb.data])
    (hsent : s.sent = groups.map List.flatten) (hgroups : ∀ g ∈ groups, Fits c g)
    (hpass : Passes c s.priv pending skb pass) :
    (pass.skb = none ∧
        Stream c { s with priv := pass.priv, sent := s.sent ++ pass.xmit.toList } []) ∨
      (pass.skb = some skb ∧ s.priv.aggSkb ≠ none ∧ pass.priv.aggSkb = none ∧
        Stream c { s with priv := pass.priv, sent := s.sent ++ pass.xmit.toList }
          [skb.skb.data]) := by
  have hsnoc : ∀ {g}, Fits c g → ∀ g' ∈ groups ++ [g], Fits c g' := by
    intro g hg g' hg'
    rcases mem_append.mp hg' with h | h
    · exact hgroups g' h
    · rwa [eq_of_mem_singleton h]
  cases hpass with
  | gathered h =>
    refine .inl ⟨rfl, groups, _, ?_, by simpa using hsent, hgroups, h⟩
    simpa using hsubmitted
  | sent hfits h =>
    refine .inl ⟨rfl, groups ++ [pending ++ [skb.skb.data]], [], ?_, ?_, hsnoc hfits, h⟩
    · simpa using hsubmitted
    · simp [hsent]
  | flushed hagg hpriv hfits h =>
    refine .inr ⟨rfl, hagg, hpriv, groups ++ [pending], [], ?_, ?_, hsnoc hfits, h⟩
    · simpa using hsubmitted
    · simp [hsent]

theorem newPacket_none (hM : 1 < c.ulDataAggregationMaxDatagrams) (hagg : s.priv.aggSkb = none)
    (h : Stream c s [skb.skb.data]) (hlen : skb.skb.len ≤ c.ulDataAggregationMaxSize.toNat)
    (xmitMore : Bool) (rounds : Nat → Round) :
    ∃ t, (∀ fuel, newPacket c xmitMore (fuel + 1) rounds s skb = some t) ∧ Stream c t [] ∧
      SameTimer s.priv t.priv := by
  obtain ⟨groups, pending, hsubmitted, hsent, hgroups, hgathers⟩ := h
  obtain rfl := hgathers.empty hagg
  obtain ⟨pass, hpass, hpasses, hskb, htimer⟩ :=
    startAgg_passes hM hagg hgathers.aggCount hlen xmitMore (rounds 0)
  rcases Stream.pass hsubmitted hsent hgroups hpasses with ⟨_, hstream⟩ | ⟨hsome, _⟩
  · refine ⟨_, fun fuel => ?_, hstream, htimer⟩
    simp only [newPacket, hagg, hpass, bind_some, hskb]
  · rw [hskb] at hsome
    cases hsome

theorem newPacket_stream (hM : 1 < c.ulDataAggregationMaxDatagrams)
    (h : Stream c s [skb.skb.data]) (hlen : skb.skb.len ≤ c.ulDataAggregationMaxSize.toNat)
    (xmitMore : Bool) (rounds : Nat → Round) :
    ∃ t, (∀ fuel, newPacket c xmitMore (fuel + 2) rounds s skb = some t) ∧ Stream c t [] ∧
      SameTimer s.priv t.priv := by
  cases hagg : s.priv.aggSkb with
  | none =>
    obtain ⟨t, ht, hrest⟩ := newPacket_none hM hagg h hlen xmitMore rounds
    exact ⟨t, fun fuel => ht (fuel + 1), hrest⟩
  | some agg =>
    obtain ⟨groups, pending, hsubmitted, hsent, hgroups, hgathers⟩ := h
    obtain ⟨pass, hpass, hpasses, htimer⟩ :=
      addToAgg_passes hgathers hagg hlen xmitMore (rounds 0)
    rcases Stream.pass hsubmitted hsent hgroups hpasses with
      ⟨hskb, hstream⟩ | ⟨hskb, _, hnone, hstream⟩
    · refine ⟨_, fun fuel => ?_, hstream, htimer⟩
      simp only [newPacket, hagg, hpass, bind_some, hskb]
    · obtain ⟨t, ht, hrest, htimer'⟩ :=
        newPacket_none hM hnone hstream hlen xmitMore fun i => rounds (i + 1)
      refine ⟨t, fun fuel => ?_, hrest, htimer'.1.trans htimer.1, htimer'.2.trans htimer.2⟩
      rw [newPacket]
      simp only [hagg, hpass, bind_some, hskb]
      exact ht fuel

def Armed (p : QmapPriv) : Prop := p.aggSkb ≠ none → p.aggHrtimer = true ∨ p.aggWq = true

theorem startTimer_spec (s : State) :
    (startTimer s).sent = s.sent ∧ (startTimer s).submitted = s.submitted ∧
      (startTimer s).priv.aggSkb = s.priv.aggSkb ∧ (startTimer s).priv.aggCount = s.priv.aggCount ∧
      Armed (startTimer s).priv := by
  unfold startTimer
  split
  next => exact ⟨rfl, rfl, rfl, rfl, fun _ => .inl rfl⟩
  next h =>
    refine ⟨rfl, rfl, rfl, rfl, fun hagg => .inl ?_⟩
    by_contra hoff
    exact h ⟨isSome_iff_ne_none.mpr hagg, Bool.eq_false_of_not_eq_true hoff⟩

theorem Gathers.congr {p' : QmapPriv} (h : Gathers c p pending) (hagg : p'.aggSkb = p.aggSkb)
    (hcount : p'.aggCount = p.aggCount) : Gathers c p' pending where
  aggCount := hcount.trans h.aggCount
  empty he := h.empty (hagg ▸ he)
  agg a ha := h.agg a (hagg ▸ ha)

theorem Stream.congr (h : Stream c s []) (hsent : t.sent = s.sent)
    (hsubmitted : t.submitted = s.submitted) (hagg : t.priv.aggSkb = s.priv.aggSkb)
    (hcount : t.priv.aggCount = s.priv.aggCount) : Stream c t [] := by
  obtain ⟨groups, pending, hsub, hbufs, hgroups, hgathers⟩ := h
  exact ⟨groups, pending, hsubmitted.trans hsub, hsent.trans hbufs, hgroups,
    hgathers.congr hagg hcount⟩

theorem rmnetUsbTxAgg_stream (hM : 1 < c.ulDataAggregationMaxDatagrams) (h : Stream c s [])
    (hlen : skb.skb.len ≤ c.ulDataAggregationMaxSize.toNat) (xmitMore : Bool)
    (rounds : Nat → Round) :
    ∃ t, (∀ fuel, rmnetUsbTxAgg c (fuel + 2) s skb xmitMore rounds = some t) ∧ Stream c t [] ∧
      Armed t.priv := by
  have hone : c.ulDataAggregationMaxDatagrams ≠ 1 := fun heq => by
    rw [heq] at hM
    exact absurd hM (by decide)
  have hstart : Stream c { s with submitted := s.submitted ++ [skb.skb.data] } [skb.skb.data] := by
    obtain ⟨groups, pending, hsubmitted, hsent, hgroups, hgathers⟩ := h
    exact ⟨groups, pending, by simp [hsubmitted], hsent, hgroups, hgathers⟩
  obtain ⟨t, ht, hstream, _⟩ := newPacket_stream hM hstart hlen xmitMore rounds
  obtain ⟨hsent, hsubmitted, hagg, hcount, harmed⟩ := startTimer_spec t
  refine ⟨startTimer t, fun fuel => ?_, hstream.congr hsent hsubmitted hagg hcount, harmed⟩
  rw [rmnetUsbTxAgg, if_neg hone, ht fuel]
  rfl

def FrameFits (c : Config) (_ : State) : Label → Prop
  | .txAgg skb _ _ => skb.skb.len ≤ c.ulDataAggregationMaxSize.toNat
  | _ => True

theorem step_stream {l : Label} (hM : 1 < c.ulDataAggregationMaxDatagrams)
    (h : Stream c s [] ∧ Armed s.priv) (hl : FrameFits c s l) (hstep : step c s l = some t) :
    Stream c t [] ∧ Armed t.priv := by
  obtain ⟨hstream, harmed⟩ := h
  cases l with
  | txAgg skb xmitMore rounds =>
    obtain ⟨t', ht', hresult⟩ := rmnetUsbTxAgg_stream hM hstream hl xmitMore rounds
    obtain rfl := some.inj ((ht' 0).symm.trans hstep)
    exact hresult
  | timerCb =>
    change rmnetUsbTxAggTimerCb s = some t at hstep
    unfold rmnetUsbTxAggTimerCb at hstep
    split at hstep
    next =>
      cases hstep
      exact ⟨hstream.congr rfl rfl rfl rfl, fun _ => .inr rfl⟩
    next => cases hstep
  | work now =>
    change rmnetUsbTxAggWork s now = some t at hstep
    unfold rmnetUsbTxAggWork at hstep
    split at hstep
    next =>
      split at hstep
      next skb hagg =>
        cases hstep
        refine ⟨?_, fun hne => absurd rfl hne⟩
        obtain ⟨groups, pending, hsubmitted, hsent, hgroups, hgathers⟩ := hstream
        obtain ⟨hdata, hsize, hcount, _⟩ := hgathers.agg skb hagg
        refine ⟨groups ++ [pending], [], by simpa using hsubmitted, by simp [hsent, hdata], ?_,
          .none rfl rfl⟩
        intro g hg
        rcases mem_append.mp hg with hg | hg
        · exact hgroups g hg
        · obtain rfl := eq_of_mem_singleton hg
          refine ⟨hcount.le, ?_⟩
          rw [← hdata]
          change skb.len ≤ _
          omega
      next hagg =>
        cases hstep
        exact ⟨hstream.congr rfl rfl rfl rfl, fun hne => absurd hagg hne⟩
    next => cases hstep

end

def State.aggData (s : State) : List UInt8 := (s.priv.aggSkb.map Skb.data).getD []

/-- The buffers sent and `agg_skb` are the frames submitted, in order; each buffer is a run of whole
frames within the two limits; the count is that of the frames in `agg_skb`; these will be sent; and
the next call returns, whatever its passes find. -/
structure Lossless (c : Config) (s : State) : Prop where
  stream : s.sent.flatten ++ s.aggData = s.submitted.flatten
  whole : ∃ (groups : List (List (List UInt8))) (pending : List (List UInt8)),
    s.submitted = groups.flatten ++ pending ∧ s.sent = groups.map List.flatten ∧
      s.aggData = pending.flatten ∧ s.priv.aggCount = pending.length ∧ ∀ g ∈ groups,
        g.length ≤ c.ulDataAggregationMaxDatagrams.toNat ∧
          g.flatten.length ≤ c.ulDataAggregationMaxSize.toNat
  aggCount : s.priv.aggSkb = none → s.priv.aggCount = 0
  armed : s.priv.aggSkb ≠ none → s.priv.aggHrtimer = true ∨ s.priv.aggWq = true
  returns : ∀ skb xmitMore rounds, skb.skb.len ≤ c.ulDataAggregationMaxSize.toNat →
    ∃ t, ∀ fuel, rmnetUsbTxAgg c (fuel + 2) s skb xmitMore rounds = some t

theorem Gathers.aggData {c : Config} {s : State} {pending : List (List UInt8)}
    (h : Gathers c s.priv pending) : s.aggData = pending.flatten := by
  unfold State.aggData
  cases hagg : s.priv.aggSkb with
  | none => rw [h.empty hagg]; rfl
  | some agg => exact (h.agg agg hagg).1

theorem txAgg_lossless (c : Config) (aggTime : Timespec)
    (hM : 1 < c.ulDataAggregationMaxDatagrams) {s : State}
    (h : Transition.Reaches (step c) (FrameFits c) (init aggTime) s) : Lossless c s := by
  have hinit : Stream c (init aggTime) [] :=
    ⟨[], [], rfl, rfl, fun _ hg => absurd hg not_mem_nil, .none rfl rfl⟩
  obtain ⟨hstream, harmed⟩ := h.invariant ⟨hinit, fun hne => absurd rfl hne⟩
    fun _ _ _ hs hl hstep => step_stream hM hs hl hstep
  obtain ⟨groups, pending, hsubmitted, hsent, hgroups, hgathers⟩ := id hstream
  rw [append_nil] at hsubmitted
  exact
    { stream := by
        rw [hgathers.aggData, hsent, hsubmitted, flatten_append, flatten_flatten]
      whole := ⟨groups, pending, hsubmitted, hsent, hgathers.aggData, hgathers.aggCount, hgroups⟩
      aggCount := fun hagg => by rw [hgathers.aggCount, hgathers.empty hagg]; rfl
      armed := harmed
      returns := fun skb xmitMore rounds hlen => by
        obtain ⟨t, ht, _⟩ := rmnetUsbTxAgg_stream hM hstream hlen xmitMore rounds
        exact ⟨t, ht⟩ }

instance (c : Config) (s : State) : (l : Label) → Decidable (FrameFits c s l)
  | .txAgg skb _ _ => inferInstanceAs (Decidable (skb.skb.len ≤ _))
  | .timerCb => inferInstanceAs (Decidable True)
  | .work _ => inferInstanceAs (Decidable True)

/-- A frame that finds no room, and one that the timer sends. -/
theorem txAgg_lossless_flushed :
    let c : Config := ⟨2, 12, 4096, by decide⟩
    let frame : UInt8 → TxSkb := fun b => ⟨⟨[0, 0x81, 0, 4, 0x45, b, 0, 0], []⟩, ethPIp⟩
    ∃ s, Transition.Reaches (step c) (FrameFits c) (init ⟨0, 0⟩) s ∧
      (s.sent = [(frame 1).skb.data, (frame 2).skb.data] ∧ s.priv.aggSkb = none) ∧
        Lossless c s := by
  intro c frame
  obtain ⟨s, hs, hrun⟩ : ∃ s, Transition.Reaches (step c) (FrameFits c) (init ⟨0, 0⟩) s ∧
      (s.sent = [(frame 1).skb.data, (frame 2).skb.data] ∧ s.priv.aggSkb = none) :=
    Transition.exists_of_run
      [.txAgg (frame 1) true fun _ => ⟨⟨0, 500⟩, 1000000, 10000000, true⟩,
        .txAgg (frame 2) false fun _ => ⟨⟨0, 900⟩, 1000000, 10000000, true⟩,
        .timerCb, .work ⟨0, 2000900⟩]
      (by decide)
  exact ⟨s, hs, hrun, txAgg_lossless c ⟨0, 0⟩ (by decide) hs⟩

end ModemSupport.Qmi.TxAgg
