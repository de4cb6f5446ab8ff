import ModemSupport.Mhi.ChanStart

/-! A start of the channels of an MHI device that fails takes back all that it has done: the
buffers, the votes and the channels are what they were. -/

namespace ModemSupport.Mhi.Start

open List

open Lib (Heap)

/-- The votes and the packets that are pending, what `xfer_cb` has got, and whether something was
freed that was not live, are what they were. -/
structure SameBooks (k k' : Ctrl) : Prop where
  wake : k'.wake = k.wake
  runtime : k'.runtime = k.runtime
  pendingPkts : k'.pendingPkts = k.pendingPkts
  callbacks : k'.callbacks = k.callbacks
  wild : k'.heap.wild = k.heap.wild

/-- Nothing that was allocated since is live either. -/
structure Restored (k k' : Ctrl) : Prop extends SameBooks k k' where
  live : k'.heap.live = k.heap.live

def Idle (ch : Chan) : Prop :=
  ch.treRing.rp = ch.treRing.wp ∧ ch.bufRing.rp = ch.bufRing.wp

/-- The channel is disabled, and has no element outstanding that was not before. -/
structure TakenBack (ch ch' : Chan) : Prop where
  disabled : ch'.chState = .disabled
  idle : Idle ch → Idle ch'

theorem SameBooks.refl (k : Ctrl) : SameBooks k k := ⟨rfl, rfl, rfl, rfl, rfl⟩

theorem SameBooks.trans {k₁ k₂ k₃ : Ctrl} (h : SameBooks k₁ k₂) (h' : SameBooks k₂ k₃) :
    SameBooks k₁ k₃ where
  wake := h'.wake.trans h.wake
  runtime := h'.runtime.trans h.runtime
  pendingPkts := h'.pendingPkts.trans h.pendingPkts
  callbacks := h'.callbacks.trans h.callbacks
  wild := h'.wild.trans h.wild

theorem Restored.refl (k : Ctrl) : Restored k k := ⟨.refl k, rfl⟩

def Chan.bufs (ch : Chan) (rd m : Nat) : List Nat :=
  (List.range' rd m).map fun i => (ch.infos i).cbBuf

/-- The elements from `rd` up to `wr` are outstanding in both rings, none of them of RSC. -/
structure Filled (cfg : ChanCfg) (ch : Chan) (rd wr : Nat) : Prop where
  tre : ch.treRing.At cfg.elements rd wr
  buf : ch.bufRing.At cfg.elements rd wr
  le : rd ≤ wr
  lt : wr < cfg.elements
  unused : ∀ i, (ch.infos i).used = false

theorem Filled.setChState {cfg : ChanCfg} {ch : Chan} {rd wr : Nat} (h : Filled cfg ch rd wr)
    (c : ChState) : Filled cfg { ch with chState := c } rd wr :=
  ⟨h.tre, h.buf, h.le, h.lt, h.unused⟩

variable {cfg : ChanCfg} {env : PrepareEnv} {k k₀ : Ctrl} {ch ch₀ : Chan}
  {rd wr m i nrEl : Nat} {live : List Nat}

theorem Filled.empty_iff (h : Filled cfg ch rd wr) : ch.treRing.rp = ch.treRing.wp ↔ rd = wr :=
  h.tre.rp_eq_wp_iff h.le (Nat.lt_of_lt_of_le h.lt (Nat.le_add_left _ _))

theorem Filled.idle (h : Filled cfg ch rd wr) (heq : rd = wr) : Idle ch :=
  ⟨h.empty_iff.mpr heq,
    (h.buf.rp_eq_wp_iff h.le (Nat.lt_of_lt_of_le h.lt (Nat.le_add_left _ _))).mpr heq⟩

theorem resetRound_preAlloc (hpre : cfg.preAlloc = true) (h : Filled cfg ch rd wr)
    (hlt : rd < wr) :
    (resetRound cfg k ch).1 = { k with heap := k.heap.free (ch.infos rd).cbBuf } ∧
      Filled cfg (resetRound cfg k ch).2 (rd + 1) wr ∧
      (resetRound cfg k ch).2.infos = ch.infos ∧
      (resetRound cfg k ch).2.chState = ch.chState ∧
      (resetRound cfg k ch).2.bufRing.base = ch.bufRing.base := by
  have hdir := (cfg.preAlloc_ok hpre).2.1
  have hindex : ch.bufRing.index ch.bufRing.rp = rd := by
    rw [h.buf.index_rp, Nat.mod_eq_of_lt (Nat.lt_trans hlt h.lt)]
  have hround : resetRound cfg k ch = ({ k with heap := k.heap.free (ch.infos rd).cbBuf },
      { ch with treRing := ch.treRing.delRingElement, bufRing := ch.bufRing.delRingElement }) := by
    unfold resetRound
    simp [hdir, hpre, hindex]
  rw [hround]
  exact ⟨rfl, ⟨h.tre.del, h.buf.del, hlt, h.lt, h.unused⟩, rfl, rfl, rfl⟩

theorem mhiResetDataChan_empty (hempty : ch.treRing.rp = ch.treRing.wp) (fuel : Nat) :
    mhiResetDataChan cfg fuel k ch = some (k, ch) := by
  cases fuel with
  | zero => rw [mhiResetDataChan, if_pos hempty]
  | succ fuel => rw [mhiResetDataChan, if_pos hempty]

theorem mhiResetDataChan_preAlloc (hpre : cfg.preAlloc = true) (h : Filled cfg ch rd (rd + m))
    {fuel : Nat} (hfuel : m ≤ fuel) (hlive : k.heap.live = live ++ ch.bufs rd m) :
    ∃ x, mhiResetDataChan cfg fuel k ch = some x ∧ SameBooks k x.1 ∧ x.1.heap.live = live ∧
      x.2.chState = ch.chState ∧ x.2.bufRing.base = ch.bufRing.base ∧ Idle x.2 := by
  induction m generalizing rd k ch fuel with
  | zero =>
    refine ⟨(k, ch), mhiResetDataChan_empty (h.idle rfl).1 fuel, .refl k, ?_, rfl, rfl,
      h.idle rfl⟩
    rw [hlive, Chan.bufs, List.range'_zero, map_nil, append_nil]
  | succ m ih =>
    obtain ⟨fuel, rfl⟩ : ∃ f, fuel = f + 1 := ⟨fuel - 1, by omega⟩
    have hnot : ¬ch.treRing.rp = ch.treRing.wp := fun heq => by
      have heq' : rd = rd + (m + 1) := h.empty_iff.mp heq
      omega
    obtain ⟨hk, hfilled, hinfos, hstate, hbase⟩ :=
      resetRound_preAlloc (k := k) hpre h (by omega)
    have hbufs : ch.bufs rd (m + 1) =
        (ch.infos rd).cbBuf :: (resetRound cfg k ch).2.bufs (rd + 1) m := by
      rw [Chan.bufs, List.range'_succ, map_cons, Chan.bufs, hinfos]
    rw [hbufs] at hlive
    obtain ⟨hfree, hwild⟩ := Heap.free_live live _ hlive
    rw [show rd + (m + 1) = rd + 1 + m by omega] at hfilled
    have hlive' : (resetRound cfg k ch).1.heap.live =
        live ++ (resetRound cfg k ch).2.bufs (rd + 1) m := by
      rw [hk]
      exact hfree
    obtain ⟨x, hx, hbooks, hxlive, hxstate, hxbase, hidle⟩ :=
      ih hfilled (Nat.le_of_succ_le_succ hfuel) hlive'
    refine ⟨x, ?_, ?_, hxlive, hxstate.trans hstate, hxbase.trans hbase, hidle⟩
    · rw [mhiResetDataChan, if_neg hnot]
      exact hx
    · have hround : SameBooks k (resetRound cfg k ch).1 := by
        rw [hk]
        exact ⟨rfl, rfl, rfl, rfl, hwild⟩
      exact hround.trans hbooks

theorem mhiResetRscChan_unused (hunused : ∀ i, (ch.infos i).used = false) :
    (mhiResetRscChan cfg k ch).1 = k := by
  have hnone : ((List.range cfg.elements).filter fun i => (ch.infos i).used) = [] := by
    rw [filter_eq_nil_iff]
    intro i _
    rw [hunused i]
    exact Bool.false_ne_true
  unfold mhiResetRscChan
  rw [hnone]
  show { k with callbacks := k.callbacks ++ [] } = k
  rw [append_nil]

theorem mhiResetChan_filled (h : Filled cfg ch 0 m) (hown : m = 0 ∨ cfg.preAlloc = true)
    (hlive : k.heap.live = live ++ ch.bufs 0 m) :
    ∃ x, mhiResetChan cfg k ch = some x ∧ SameBooks k x.1 ∧ x.1.heap.live = live ∧
      x.2.chState = ch.chState ∧ x.2.bufRing.base = ch.bufRing.base ∧ Idle x.2 := by
  unfold mhiResetChan
  rcases hown with rfl | hpre
  · have hidle := h.idle rfl
    have hlive' : k.heap.live = live := by
      rw [hlive, Chan.bufs, List.range'_zero, map_nil, append_nil]
    by_cases hrsc : cfg.rscDma = true
    · rw [if_pos hrsc]
      refine ⟨_, rfl, ?_, ?_, rfl, rfl, hidle⟩
      · rw [mhiResetRscChan_unused h.unused]
        exact .refl k
      · rw [mhiResetRscChan_unused h.unused]
        exact hlive'
    · rw [if_neg hrsc]
      exact ⟨_, mhiResetDataChan_empty hidle.1 _, .refl k, hlive', rfl, rfl, hidle⟩
  · have hrsc := (cfg.preAlloc_ok hpre).2.2
    rw [if_neg (by rw [hrsc]; exact Bool.false_ne_true)]
    rw [← Nat.zero_add m] at h
    exact mhiResetDataChan_preAlloc hpre h
      (Nat.le_of_lt (Nat.zero_add m ▸ h.lt)) hlive

theorem Filled.index_wp (h : Filled cfg ch 0 m) : ch.bufRing.index ch.bufRing.wp = m := by
  rw [h.buf.index_wp, Nat.mod_eq_of_lt h.lt]

theorem Filled.setCbBuf (h : Filled cfg ch 0 m) (buf : Nat) :
    Filled cfg (ch.setCbBuf buf) 0 m where
  tre := h.tre
  buf := h.buf
  le := h.le
  lt := h.lt
  unused i := by
    unfold Chan.setCbBuf
    rw [h.index_wp]
    by_cases hi : i = m
    · subst hi
      simp [h.unused]
    · simp [hi, h.unused]

theorem Filled.bufs_setCbBuf (h : Filled cfg ch 0 m) (buf : Nat) :
    (ch.setCbBuf buf).bufs 0 m = ch.bufs 0 m := by
  apply map_congr_left
  intro i hi
  have hlt : i < m := by
    have := (mem_range'_1.mp hi).2
    omega
  unfold Chan.setCbBuf
  rw [h.index_wp]
  simp [Nat.ne_of_lt hlt]

theorem Filled.addElements (h : Filled cfg ch 0 m) (hroom : m + 1 < cfg.elements) :
    Filled cfg ch.addElements 0 (m + 1) :=
  ⟨h.tre.add, h.buf.add, Nat.zero_le _, hroom, h.unused⟩

theorem Filled.bufs_addElements (h : Filled cfg ch 0 m) (buf : Nat) :
    (ch.setCbBuf buf).addElements.bufs 0 (m + 1) = ch.bufs 0 m ++ [buf] := by
  have hlast : ((ch.setCbBuf buf).infos m).cbBuf = buf := by
    unfold Chan.setCbBuf
    rw [h.index_wp]
    simp
  rw [← h.bufs_setCbBuf buf]
  unfold Chan.bufs
  rw [List.range'_concat, map_append, map_singleton]
  show _ ++ [((ch.setCbBuf buf).infos (0 + 1 * m)).cbBuf] = _
  rw [Nat.one_mul, Nat.zero_add, hlast]
  rfl

theorem fill_filled (env : PrepareEnv) (nrEl i : Nat) (h : Filled cfg ch 0 m)
    (hroom : m + nrEl < cfg.elements) (hlive : k.heap.live = live ++ ch.bufs 0 m) :
    ∃ m', Filled cfg (fill env nrEl i k ch).2.2 0 m' ∧
      (fill env nrEl i k ch).2.1.heap.live = live ++ (fill env nrEl i k ch).2.2.bufs 0 m' ∧
      SameBooks k (fill env nrEl i k ch).2.1 ∧
      (fill env nrEl i k ch).2.2.chState = ch.chState ∧
      (fill env nrEl i k ch).2.2.bufRing.base = ch.bufRing.base := by
  induction nrEl generalizing m i k ch with
  | zero => exact ⟨m, h, hlive, .refl k, rfl, rfl⟩
  | succ nrEl ih =>
    have hset := h.setCbBuf k.heap.next
    rw [fill]
    split
    · exact ⟨m, h, hlive, .refl k, rfl, rfl⟩
    · dsimp only
      cases hmap : env.mapSingle i with
      | some e =>
        have halloc : k.heap.alloc.live = (live ++ ch.bufs 0 m) ++ k.heap.next :: [] := by
          rw [Heap.alloc_live, hlive]
        obtain ⟨hfree, hwild⟩ := Heap.free_live _ [] halloc
        refine ⟨m, hset, ?_, ⟨rfl, rfl, rfl, rfl, hwild⟩, rfl, rfl⟩
        rw [h.bufs_setCbBuf]
        exact hfree.trans (append_nil _)
      | none =>
        have hlive' : k.heap.alloc.live =
            live ++ (ch.setCbBuf k.heap.next).addElements.bufs 0 (m + 1) := by
          rw [Heap.alloc_live, hlive, h.bufs_addElements, append_assoc]
        obtain ⟨m', hfilled, hlive'', hbooks, hstate, hbase⟩ :=
          ih (i + 1) (k := { k with heap := k.heap.alloc }) (hset.addElements (by omega))
            (by omega) hlive'
        have halloc : SameBooks k { k with heap := k.heap.alloc } := ⟨rfl, rfl, rfl, rfl, rfl⟩
        exact ⟨m', hfilled, hlive'', halloc.trans hbooks, hstate, hbase⟩

/-- The channel has `m` elements outstanding, all of them the driver's own, and what has been
allocated since `k₀` are its ring and the buffers of its elements. -/
structure Prepared (cfg : ChanCfg) (k₀ : Ctrl) (ch₀ : Chan) (k : Ctrl) (ch : Chan) (m : Nat) : Prop
    extends SameBooks k₀ k where
  own : m = 0 ∨ cfg.preAlloc = true
  offload : cfg.offloadCh = true → k.heap.live = k₀.heap.live ∧ (Idle ch₀ → Idle ch)
  filled : cfg.offloadCh = false → Filled cfg ch 0 m
  live : cfg.offloadCh = false → k.heap.live = k₀.heap.live ++ ch.bufRing.base :: ch.bufs 0 m

@[simp] theorem Ctrl.put_get (k : Ctrl) : k.get.put = k := by
  cases k
  simp [Ctrl.get, Ctrl.put]

theorem Prepared.setChState (h : Prepared cfg k₀ ch₀ k ch m) (c : ChState) :
    Prepared cfg k₀ ch₀ k { ch with chState := c } m :=
  ⟨h.toSameBooks, h.own, h.offload, fun hrings => (h.filled hrings).setChState c, h.live⟩

theorem mhiDeinitChanCtxt_restores (hbooks : SameBooks k₀ k)
    (hlive : k.heap.live = k₀.heap.live ++ [ch.bufRing.base]) :
    Restored k₀ (mhiDeinitChanCtxt k ch).1 := by
  obtain ⟨hfree, hwild⟩ := Heap.free_live _ [] hlive
  rw [append_nil] at hfree
  exact ⟨⟨hbooks.wake, hbooks.runtime, hbooks.pendingPkts, hbooks.callbacks,
    hwild.trans hbooks.wild⟩, hfree⟩

theorem unprepareChannel_restores (h : Prepared cfg k₀ ch₀ k ch m)
    (henabled : ch.chState = .enabled) (pmState : PmState) :
    ∃ x, unprepareChannel cfg pmState k ch = some x ∧ Restored k₀ x.1 ∧ TakenBack ch₀ x.2 := by
  unfold unprepareChannel
  rw [if_neg (not_not.mpr henabled)]
  simp only [Ctrl.put_get, ite_self]
  by_cases hoffload : cfg.offloadCh = true
  · obtain ⟨hlive, hidle⟩ := h.offload hoffload
    rw [if_pos hoffload]
    exact ⟨_, rfl, ⟨h.toSameBooks, hlive⟩, ⟨rfl, hidle⟩⟩
  · have hrings := Bool.eq_false_iff.mpr hoffload
    have hfilled := h.filled hrings
    have hlive := h.live hrings
    rw [append_cons] at hlive
    obtain ⟨x, hx, hbooks, hxlive, hxstate, hxbase, hidle⟩ :=
      mhiResetChan_filled (hfilled.setChState .disabled) h.own hlive
    rw [if_neg hoffload, hx]
    refine ⟨_, rfl, mhiDeinitChanCtxt_restores (h.toSameBooks.trans hbooks) ?_,
      ⟨hxstate, fun _ => hidle⟩⟩
    rw [hxlive, hxbase]

theorem errorPmState_restores (h : Prepared cfg k₀ ch₀ k ch 0) (hdisabled : ch.chState = .disabled)
    (ret : Errno) :
    Restored k₀ (errorPmState cfg ret k ch).2.1 ∧
      TakenBack ch₀ (errorPmState cfg ret k ch).2.2 := by
  unfold errorPmState
  dsimp only
  split
  next hoffload =>
    obtain ⟨hlive, hidle⟩ := h.offload hoffload
    exact ⟨⟨h.toSameBooks, hlive⟩, ⟨hdisabled, hidle⟩⟩
  next hoffload =>
    have hrings := Bool.eq_false_iff.mpr hoffload
    exact ⟨mhiDeinitChanCtxt_restores h.toSameBooks (h.live hrings),
      ⟨hdisabled, fun _ => (h.filled hrings).idle rfl⟩⟩

theorem Prepared.of_restored {k' : Ctrl} (h : Prepared cfg k₀ ch₀ k ch m) (hk : Restored k k') :
    Prepared cfg k₀ ch₀ k' ch m where
  toSameBooks := h.toSameBooks.trans hk.toSameBooks
  own := h.own
  offload hoffload := ⟨hk.live.trans (h.offload hoffload).1, (h.offload hoffload).2⟩
  filled := h.filled
  live hrings := hk.live.trans (h.live hrings)

def Started (cfg : ChanCfg) (k₀ : Ctrl) (ch₀ : Chan) (k : Ctrl) (ch : Chan) : Prop :=
  ch.chState = .enabled ∧ ∃ m, Prepared cfg k₀ ch₀ k ch m

/-- The outcome of a start: the channel is started, or all is what it was. -/
def Outcome (cfg : ChanCfg) (k₀ : Ctrl) (ch₀ : Chan) (x : Option Errno × Ctrl × Chan) : Prop :=
  match x.1 with
  | none => Started cfg k₀ ch₀ x.2.1 x.2.2
  | some _ => Restored k₀ x.2.1 ∧ TakenBack ch₀ x.2.2

theorem SameBooks.putWake {k k₁ : Ctrl}
    (h : SameBooks { k.get with runtime := k.get.runtime - 1 } k₁) :
    SameBooks k { k₁ with wake := k₁.wake - 1 } where
  wake := by
    show k₁.wake - 1 = k.wake
    rw [h.wake]
    exact Int.add_sub_cancel k.wake 1
  runtime := h.runtime.trans (Int.add_sub_cancel k.runtime 1)
  pendingPkts := h.pendingPkts
  callbacks := h.callbacks
  wild := h.wild

theorem fill_prepared (h : Prepared cfg k₀ ch₀ k ch 0) (hpre : cfg.preAlloc = true)
    (env : PrepareEnv) {x : Option Errno × Ctrl × Chan}
    (hx : x = fill env ch.treRing.getNrAvailRingElements.toNat 0
      { k.get with runtime := k.get.runtime - 1 } { ch with chState := .enabled }) :
    ∃ m, Prepared cfg k₀ ch₀ { x.2.1 with wake := x.2.1.wake - 1 } x.2.2 m ∧
      x.2.2.chState = .enabled := by
  have hrings := (cfg.preAlloc_ok hpre).1
  have hfilled := h.filled hrings
  have hlive := h.live hrings
  rw [append_cons] at hlive
  have hpos := hfilled.lt
  have hnr := hfilled.tre.getNrAvailRingElements_eq (Nat.le_refl 0) (by omega)
  obtain ⟨m, hm, hmlive, hbooks, hstate, hbase⟩ :=
    fill_filled env ch.treRing.getNrAvailRingElements.toNat 0
      (k := { k.get with runtime := k.get.runtime - 1 }) (hfilled.setChState .enabled) (by omega)
      hlive
  rw [← hx] at hm hmlive hbooks hstate hbase
  refine ⟨m, ⟨h.toSameBooks.trans hbooks.putWake, .inr hpre, ?_, fun _ => hm, fun _ => ?_⟩, hstate⟩
  · intro hoffload
    rw [hrings] at hoffload
    exact absurd hoffload Bool.false_ne_true
  · rw [append_cons, hbase]
    exact hmlive

theorem startChannel_outcome (h : Prepared cfg k₀ ch₀ k ch 0) (hdisabled : ch.chState = .disabled)
    (env : PrepareEnv) : ∃ x, startChannel cfg env k ch = some x ∧ Outcome cfg k₀ ch₀ x := by
  have herror := errorPmState_restores h hdisabled
  unfold startChannel
  dsimp only
  rw [Ctrl.put_get]
  split
  · exact ⟨_, rfl, herror .eio⟩
  split
  · exact ⟨_, rfl, herror .enomem⟩
  split
  · exact ⟨_, rfl, herror .eio⟩
  have hput : { k.get with runtime := k.get.runtime - 1, wake := k.get.wake - 1 } = k :=
    k.put_get
  split
  · refine ⟨_, rfl, rfl, 0, ?_⟩
    dsimp only
    rw [hput]
    exact h.setChState .enabled
  next hpre =>
    obtain ⟨m, hprepared, henabled⟩ := fill_prepared h (Bool.not_eq_false _ ▸ hpre) env rfl
    split
    · exact ⟨_, rfl, henabled, m, hprepared⟩
    next e _ =>
      obtain ⟨y, hy, hrestored⟩ := unprepareChannel_restores hprepared henabled env.unprepare
      rw [hy]
      exact ⟨_, rfl, hrestored⟩

theorem mhiInitChanCtxt_prepared (hrings : cfg.offloadCh = false) :
    Prepared cfg k ch₀ (mhiInitChanCtxt cfg k ch).1 (mhiInitChanCtxt cfg k ch).2 0 := by
  have hpos : 0 < cfg.elements := by
    rcases Nat.eq_zero_or_pos cfg.elements with hzero | hpos
    · rw [cfg.offloadCh_iff.mpr hzero] at hrings
      exact absurd hrings Bool.noConfusion
    · exact hpos
  refine ⟨⟨rfl, rfl, rfl, rfl, rfl⟩, .inl rfl, ?_, fun _ => ⟨?_, ?_, Nat.le_refl 0, hpos, ?_⟩,
    fun _ => rfl⟩
  · intro hoffload
    rw [hrings] at hoffload
    exact absurd hoffload Bool.false_ne_true
  · exact ⟨Nat.succ_pos _, hpos, Nat.mul_comm _ _, by simp [mhiInitChanCtxt],
      by simp [mhiInitChanCtxt]⟩
  · exact ⟨Nat.succ_pos _, hpos, Nat.mul_comm _ _, by simp [mhiInitChanCtxt],
      by simp [mhiInitChanCtxt]⟩
  · intro i
    rfl

theorem prepareChannel_outcome (cfg : ChanCfg) (h : ch.chState = .disabled)
    (env : PrepareEnv) (k : Ctrl) :
    ∃ x, prepareChannel cfg env k ch = some x ∧ Outcome cfg k ch x := by
  unfold prepareChannel
  rw [if_neg (not_not.mpr h)]
  split
  · exact ⟨_, rfl, .refl k, h, id⟩
  split
  next hoffload =>
    have hprepared : Prepared cfg k ch k ch 0 :=
      ⟨.refl k, .inl rfl, fun _ => ⟨rfl, id⟩,
        fun hrings => absurd hrings (Bool.eq_false_iff.not.mpr (not_not.mpr hoffload)),
        fun hrings => absurd hrings (Bool.eq_false_iff.not.mpr (not_not.mpr hoffload))⟩
    exact startChannel_outcome hprepared h env
  next hoffload =>
    split
    · exact ⟨_, rfl, .refl k, h, id⟩
    · exact startChannel_outcome (mhiInitChanCtxt_prepared (Bool.eq_false_iff.mpr hoffload))
        h env

section

variable {ι : Type} [DecidableEq ι] {s : State ι} {dev : Device ι} {i j : ι}

def Device.Has (dev : Device ι) (i : ι) : Prop := dev.ulChan = some i ∨ dev.dlChan = some i

/-- The votes, the heap and the channels of the device are what they were before the call, and the
other channels are untouched. -/
structure LeavesNoTrace (dev : Device ι) (s t : State ι) : Prop where
  ctrl : Restored s.ctrl t.ctrl
  chans : ∀ i, dev.Has i → TakenBack (s.chans i) (t.chans i)
  others : ∀ i, ¬dev.Has i → t.chans i = s.chans i

theorem State.set_self (s : State ι) (i : ι) (x : Ctrl × Chan) : (s.set i x).chans i = x.2 :=
  Function.update_self ..

theorem State.set_of_ne (hne : j ≠ i) (x : Ctrl × Chan) : (s.set i x).chans j = s.chans j :=
  Function.update_of_ne hne ..

theorem leavesNoTrace_first (hdisabled : ∀ j, dev.Has j → (s.chans j).chState = .disabled)
    (hi : dev.Has i) {x : Ctrl × Chan} (hk : Restored s.ctrl x.1)
    (hch : TakenBack (s.chans i) x.2) : LeavesNoTrace dev s (s.set i x) where
  ctrl := hk
  chans j hj := by
    by_cases hji : j = i
    · subst hji
      rw [State.set_self]
      exact hch
    · rw [State.set_of_ne hji]
      exact ⟨hdisabled j hj, id⟩
  others j hj := State.set_of_ne (fun hji : j = i => hj (hji ▸ hi)) x

theorem leavesNoTrace_second (hul : dev.ulChan = some i) (hdl : dev.dlChan = some j)
    (hne : j ≠ i) {x y z : Ctrl × Chan} (hk : Restored s.ctrl z.1)
    (hulch : TakenBack (s.chans i) z.2) (hdlch : TakenBack (s.chans j) y.2) :
    LeavesNoTrace dev s (((s.set i x).set j y).set i z) where
  ctrl := hk
  chans l hl := by
    rcases hl with hl | hl
    · obtain rfl := Option.some.inj (hul.symm.trans hl)
      rw [State.set_self]
      exact hulch
    · obtain rfl := Option.some.inj (hdl.symm.trans hl)
      rw [State.set_of_ne hne, State.set_self]
      exact hdlch
  others l hl := by
    have hli : l ≠ i := fun heq => hl (.inl (heq ▸ hul))
    have hlj : l ≠ j := fun heq => hl (.inr (heq ▸ hdl))
    rw [State.set_of_ne hli, State.set_of_ne hlj, State.set_of_ne hli]

theorem startDl_second {cfg : ι → ChanCfg} (hul : dev.ulChan = some i)
    (hne : dev.dlChan ≠ some i) (hdisabled : ∀ j, dev.Has j → (s.chans j).chState = .disabled)
    {x : Ctrl × Chan} (hx : Started (cfg i) s.ctrl (s.chans i) x.1 x.2) (envDl : PrepareEnv)
    (pmState : PmState) :
    ∃ y, startDl cfg dev envDl pmState (s.set i x) = some y ∧
      (y.1 ≠ none → LeavesNoTrace dev s y.2) := by
  unfold startDl
  cases hdl : dev.dlChan with
  | none => exact ⟨_, rfl, fun hsome => absurd rfl hsome⟩
  | some j =>
    have hji : j ≠ i := fun heq => hne (heq ▸ hdl)
    have hsame := State.set_of_ne hji x (s := s)
    dsimp only
    rw [hsame, hul]
    obtain ⟨⟨ret, y⟩, hy, hout⟩ :=
      prepareChannel_outcome (cfg j) (hdisabled j (.inr hdl)) envDl (s.set i x).ctrl
    rw [hy]
    cases ret with
    | none => exact ⟨_, rfl, fun hsome => absurd rfl hsome⟩
    | some e =>
      obtain ⟨henabled, m, hprepared⟩ := hx
      obtain ⟨z, hz, hk, hch⟩ :=
        unprepareChannel_restores (hprepared.of_restored hout.1) henabled pmState
      have hchans : ((s.set i x).set j y).chans i = x.2 := by
        rw [State.set_of_ne hji.symm, State.set_self]
      refine ⟨(some e, ((s.set i x).set j y).set i z), ?_,
        fun _ => leavesNoTrace_second hul hdl hji hk hch hout.2⟩
      show (unprepareChannel _ pmState y.1 (((s.set i x).set j y).chans i)).map _ = _
      rw [hchans, hz]
      rfl

/-- `mhi_prepare_for_transfer` returns, and when it returns an error it leaves no trace of the
call. -/
theorem failed_start_leaves_no_trace (cfg : ι → ChanCfg) (dev : Device ι)
    (envUl envDl : PrepareEnv) (pmState : PmState) (s : State ι)
    (hdisabled : ∀ i, dev.Has i → (s.chans i).chState = .disabled) :
    ∃ x, mhiPrepareForTransfer cfg dev envUl envDl pmState s = some x ∧
      (x.1 ≠ none → LeavesNoTrace dev s x.2) := by
  unfold mhiPrepareForTransfer
  cases hul : dev.ulChan with
  | none =>
    unfold startDl
    cases hdl : dev.dlChan with
    | none => exact ⟨_, rfl, fun hsome => absurd rfl hsome⟩
    | some dl =>
      have hhas : dev.Has dl := .inr hdl
      obtain ⟨⟨ret, x⟩, hx, hout⟩ :=
        prepareChannel_outcome (cfg dl) (hdisabled dl hhas) envDl s.ctrl
      dsimp only
      rw [hx, hul]
      cases ret with
      | none => exact ⟨_, rfl, fun hsome => absurd rfl hsome⟩
      | some e => exact ⟨_, rfl, fun _ => leavesNoTrace_first hdisabled hhas hout.1 hout.2⟩
  | some ul =>
    have hhas : dev.Has ul := .inl hul
    obtain ⟨⟨ret, x⟩, hx, hout⟩ :=
      prepareChannel_outcome (cfg ul) (hdisabled ul hhas) envUl s.ctrl
    dsimp only
    rw [hx]
    cases ret with
    | some e => exact ⟨_, rfl, fun _ => leavesNoTrace_first hdisabled hhas hout.1 hout.2⟩
    | none =>
      show ∃ x', (if dev.dlChan = some ul then _ else _) = some x' ∧ _
      split
      · exact ⟨_, rfl, fun hsome => absurd rfl hsome⟩
      next hne => exact startDl_second hul hne hdisabled hout envDl pmState

end

def diagCfg : Bool → ChanCfg
  | false => ⟨1, false, false, false, .toDevice, 4, 0x1000, 0x8000, by decide, by decide⟩
  | true => ⟨1, false, true, false, .fromDevice, 8, 0x2000, 0x9000, by decide, by decide⟩

def diagDevice : Device Bool := ⟨some false, some true⟩

def diagState : State Bool where
  ctrl := ⟨0, 0, 0, .empty, []⟩
  chans _ := ⟨.disabled, ⟨0, 0, 0, 0, 0, 0⟩, ⟨0, 0, 0, 0, 0, 0⟩, fun _ => ⟨0, false⟩⟩

def threeBuffers : PrepareEnv where
  ee := 0
  ctxt := true
  pmState := .m0
  cmdFull := false
  wait := ⟨1, evCcSuccess⟩
  kmalloc i := i < 3
  mapSingle _ := none
  unprepare := .m0

/-- The fourth buffer cannot be allocated: the start fails, and leaves no trace. -/
theorem fourth_buffer_leaves_no_trace :
    (mhiPrepareForTransfer diagCfg diagDevice threeBuffers threeBuffers .m0 diagState).map Prod.fst
        = some (some .enomem) ∧
      ∃ x, mhiPrepareForTransfer diagCfg diagDevice threeBuffers threeBuffers .m0 diagState =
          some x ∧
        (x.1 ≠ none → LeavesNoTrace diagDevice diagState x.2) :=
  ⟨by decide, failed_start_leaves_no_trace diagCfg diagDevice threeBuffers threeBuffers .m0
    diagState fun _ _ => rfl⟩

end ModemSupport.Mhi.Start
