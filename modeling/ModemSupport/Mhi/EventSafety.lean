import ModemSupport.Mhi.Event
import ModemSupport.Mhi.ChanRings

/-! Which events are handled safely: those that name a channel and an element that is outstanding,
or the command ring's elements.  The functions check neither. -/

namespace ModemSupport.Mhi.Event

open ModemSupport.Lib List Option

/-- The rings of a channel stand at the counters `rd` and `wr`, and its buffer ring is read at
`rdBuf`, which differs from `rd` for an RSC channel only. -/
structure RingsAt (cfg : ChanCfg) (ch : EvChan) (rd rdBuf wr : Nat) : Prop where
  tre : ch.treRing.At cfg.elements rd wr
  buf : ch.bufRing.At cfg.elements rdBuf wr
  base : ch.treRing.base = cfg.treBase
  iommuBase : ch.treRing.iommuBase = cfg.iommuBase
  elSize : ch.treRing.elSize = sizeofMhiTre
  rd_le : rd ≤ wr
  wr_lt : wr < rd + cfg.elements
  inStep : ch.rsc = false → rdBuf = rd

section

variable {cfg : ChanCfg} {ch : EvChan} {rd rdBuf wr : Nat}

theorem RingsAt.enqueue (h : RingsAt cfg ch rd rdBuf wr) (buf : Nat) :
    ∃ wr', wr ≤ wr' ∧ RingsAt cfg (enqueue ch buf) rd rdBuf wr' := by
  unfold Event.enqueue
  split
  · exact ⟨wr, le_refl _, h⟩
  next hfull =>
    have hlt := h.wr_lt
    rw [h.tre.isRingFull_iff h.rd_le h.wr_lt] at hfull
    exact ⟨wr + 1, Nat.le_succ wr,
      { h with
        tre := h.tre.add
        buf := h.buf.add
        rd_le := Nat.le_succ_of_le h.rd_le
        wr_lt := by omega }⟩

theorem enqueue_rsc (ch : EvChan) (buf : Nat) : (enqueue ch buf).rsc = ch.rsc := by
  unfold enqueue
  split <;> rfl

theorem RingsAt.requeue (h : RingsAt cfg ch rd rdBuf wr) (bufs : List Nat) :
    ∃ wr', wr ≤ wr' ∧ RingsAt cfg (bufs.foldl Event.enqueue ch) rd rdBuf wr' := by
  induction bufs generalizing ch wr with
  | nil => exact ⟨wr, le_refl _, h⟩
  | cons buf bufs ih =>
    obtain ⟨wr₁, hle, h₁⟩ := h.enqueue buf
    obtain ⟨wr₂, hle', h₂⟩ := ih h₁
    exact ⟨wr₂, hle.trans hle', h₂⟩

theorem requeue_rsc (ch : EvChan) (bufs : List Nat) : (bufs.foldl enqueue ch).rsc = ch.rsc := by
  induction bufs generalizing ch with
  | nil => rfl
  | cons buf bufs ih => exact (ih _).trans (enqueue_rsc ch buf)

theorem RingsAt.outstanding_iff (h : RingsAt cfg ch rd rdBuf wr) {info : Nat} :
    Outstanding ch info ↔ ∃ x, rd ≤ x ∧ x < wr ∧ info = x % cfg.elements := by
  unfold Outstanding
  rw [h.tre.outstanding_eq h.rd_le h.wr_lt]
  simp only [h.tre.iterate_next, h.tre.index_mod]
  constructor
  · rintro ⟨k, hk, rfl⟩
    exact ⟨rd + k, by omega, by omega, rfl⟩
  · rintro ⟨x, hx, hlt, rfl⟩
    exact ⟨x - rd, by omega, by rw [Nat.add_sub_cancel' hx]⟩

theorem RingsAt.len (h : RingsAt cfg ch rd rdBuf wr) :
    ch.treRing.len = cfg.elements * sizeofMhiTre := by
  rw [h.tre.len, h.elSize]

theorem RingsAt.devRp_of_names (h : RingsAt cfg ch rd rdBuf wr) {addr : Nat}
    (hnames : ch.treRing.Names addr) : ∃ x, rd < x ∧ x ≤ wr ∧
      ch.treRing.next (ch.treRing.toVirtual addr) =
        cfg.treBase + x % cfg.elements * sizeofMhiTre := by
  obtain ⟨x, hx, hlt, hvirt⟩ := h.tre.toVirtual_of_names h.rd_le h.wr_lt
    (by rw [h.base, h.len]; exact cfg.treBase_le)
    (by rw [h.iommuBase, h.len]; exact cfg.iommuBase_le) hnames
  refine ⟨x + 1, by omega, hlt, ?_⟩
  rw [hvirt, h.tre.next_mod, h.base, h.elSize]

variable {c : Config} {event : Tre} {found : EvChan}

theorem xferLoop_safe (devRp : Nat) (status : Option Errno) (hnames : Names found event) (m : Nat)
    (requeued : List (List Nat)) (hrsc : ch.rsc = false) (h : RingsAt cfg ch rd rd wr)
    (hle : rd + m ≤ wr)
    (hdev : devRp = cfg.treBase + (rd + m) % cfg.elements * sizeofMhiTre) :
    ∃ acts left, (∀ fuel, m < fuel →
        xferLoop event found devRp status fuel requeued ch = some (acts, left)) ∧
      (∀ a ∈ acts, a.Safe c) ∧ left.rsc = false ∧ ∃ rd' wr', RingsAt cfg left rd' rd' wr' := by
  induction m generalizing ch rd wr requeued with
  | zero =>
    refine ⟨[], ch, fun fuel hfuel => ?_, by simp, hrsc, rd, wr, h⟩
    obtain ⟨fuel, rfl⟩ := Nat.exists_eq_succ_of_ne_zero hfuel.ne'
    rw [xferLoop, if_pos]
    rw [h.tre.rp, hdev, h.base, h.elSize, Nat.add_zero]
  | succ m ih =>
    have hlt := h.wr_lt
    have hne : ch.treRing.rp ≠ devRp := by
      rw [hdev, ← h.base, ← h.elSize, h.tre.rp, ne_eq, h.tre.ptr_inj, eq_comm,
        Lib.Ring.mod_eq_iff (by omega) (by omega)]
      omega
    have hleft : RingsAt cfg
        { ch with treRing := ch.treRing.delRingElement, bufRing := ch.bufRing.delRingElement }
        (rd + 1) (rd + 1) wr :=
      { h with
        tre := h.tre.del
        buf := h.buf.del
        rd_le := by omega
        wr_lt := by omega
        inStep := fun _ => rfl }
    obtain ⟨wr', hwr, hqueued⟩ := hleft.requeue (requeued.headD [])
    obtain ⟨acts, left, hrun, hsafe, hend⟩ := ih requeued.tail
      (by rw [requeue_rsc]; exact hrsc) hqueued (by omega)
      (by rw [hdev, show rd + 1 + m = rd + (m + 1) by omega])
    refine ⟨.xferCb event found ch (ch.bufRing.index ch.bufRing.rp) ⟨status, event.evLen.toNat,
      (ch.infos (ch.bufRing.index ch.bufRing.rp)).cbBuf⟩ :: acts, left, fun fuel hfuel => ?_, ?_,
      hend⟩
    · obtain ⟨fuel, rfl⟩ := Nat.exists_eq_succ_of_ne_zero (Nat.ne_zero_of_lt hfuel)
      rw [xferLoop, if_neg hne]
      dsimp only
      rw [hrun fuel (by omega)]
      rfl
    · intro a ha
      rcases mem_cons.mp ha with rfl | ha
      · refine ⟨hnames, h.outstanding_iff.mpr ⟨rd, le_refl _, by omega, ?_⟩⟩
        exact h.buf.index_rp
      · exact hsafe a ha

end

/-- A channel in use, or one that is never enabled. -/
def ChanInv : Option (Bool × ChanCfg) → EvChan → Prop
  | some (rsc, cfg), ch => ch.rsc = rsc ∧ ∃ rd rdBuf wr, RingsAt cfg ch rd rdBuf wr
  | none, ch => ch.chState ≠ .enabled ∧ ch.treRing = noRing ∧ ch.bufRing = noRing

section

variable {c : Config} {setup : Option (Bool × ChanCfg)} {ch : EvChan} {event : Tre}

def Handled (c : Config) (setup : Option (Bool × ChanCfg)) (event : Tre) (found : EvChan)
    (acts : List Act) (left : EvChan) : Prop :=
  (∀ a ∈ acts, a.Safe c) ∧ (Act.handled event found left).Safe c ∧ ChanInv setup left

theorem Handled.unchanged (h : ChanInv setup ch) : Handled c setup event ch [] ch :=
  ⟨by simp, .inr ⟨rfl, rfl⟩, h⟩

theorem parseXferEvent_safe (h : ChanInv setup ch) (htype : event.evType = pktTypeTx)
    (hok : TransferOk ch event) (requeued : List (List Nat)) :
    ∃ fuel acts left, (∀ f, fuel < f → parseXferEvent f ch event requeued = some (acts, left)) ∧
      Handled c setup event ch acts left := by
  unfold parseXferEvent
  by_cases hst : ch.chState = .enabled
  swap
  · exact ⟨0, [], ch, fun f _ => if_pos hst, .unchanged h⟩
  by_cases hcode : event.evCode ∈ xferCodes
  swap
  · exact ⟨0, [], ch, fun f _ => by rw [if_neg (not_not.mpr hst), if_neg hcode], .unchanged h⟩
  simp only [if_neg (not_not.mpr hst), if_pos hcode]
  unfold TransferOk at hok
  rw [if_pos htype] at hok
  obtain ⟨hrsc, hwhere⟩ := hok hst hcode
  match setup, h with
  | none, h => exact absurd hst h.1
  | some (_, cfg), ⟨heq, rd, rdBuf, wr, hrings⟩ =>
    obtain rfl := hrings.inStep hrsc
    rcases hwhere with hnames | hlast
    · have htre : ch.treRing.Names event.ptr.toNat := by rwa [Names, if_pos htype] at hnames
      obtain ⟨x, hx, hxle, hdev⟩ := hrings.devRp_of_names htre
      obtain ⟨acts, left, hrun, hsafe, hrsc', rd', wr', hleft⟩ :=
        xferLoop_safe (c := c) (ch.treRing.next (ch.treRing.toVirtual event.ptr.toNat))
          (if event.evCode = evCcOverflow then some .eoverflow else none) hnames
          (x - rdBuf) requeued hrsc hrings (by omega) (by rw [hdev, Nat.add_sub_cancel' hx.le])
      refine ⟨x - rdBuf, acts, left, hrun, hsafe, .inl hnames, ?_, rd', rd', wr', hleft⟩
      rw [hrsc', ← heq, hrsc]
    · refine ⟨0, [], ch, fun f hf => ?_, .unchanged ⟨heq, rdBuf, rdBuf, wr, hrings⟩⟩
      obtain ⟨f, rfl⟩ := Nat.exists_eq_succ_of_ne_zero hf.ne'
      rw [xferLoop, if_pos hlast.symm]

theorem parseRscEvent_safe (h : ChanInv setup ch) (htype : event.evType = pktTypeRscTx)
    (hok : TransferOk ch event) (requeued : List (List Nat)) :
    Handled c setup event ch (parseRscEvent ch event requeued).1
      (parseRscEvent ch event requeued).2 := by
  unfold TransferOk at hok
  rw [if_neg (by rw [htype]; decide), if_pos htype] at hok
  obtain ⟨helem, hwhere⟩ := hok
  unfold parseRscEvent
  dsimp only
  rw [if_neg (not_not.mpr helem)]
  by_cases hst : ch.chState = .enabled
  swap
  · rw [if_pos hst]
    exact ⟨by simpa [Act.Safe] using helem, .inr ⟨rfl, rfl⟩, h⟩
  rw [if_neg (not_not.mpr hst)]
  obtain ⟨hrsc, hnames⟩ := hwhere hst
  match setup, h with
  | none, h => exact absurd hst h.1
  | some (_, cfg), ⟨heq, rd, rdBuf, wr, hrings⟩ =>
    have hinfo : ∃ info, Outstanding ch info ∧ cookie event = info * ch.bufRing.elSize := by
      rwa [Names, if_neg (by rw [htype]; decide)] at hnames
    obtain ⟨info, hout, hcookie⟩ := hinfo
    have hindex : ch.bufRing.index (ch.bufRing.base + cookie event) = info := by
      rw [MhiRing.index, Nat.add_sub_cancel_left, hcookie,
        Nat.mul_div_cancel _ hrings.buf.elSize_pos]
    obtain ⟨x, hx, hlt, _⟩ := hrings.outstanding_iff.mp hout
    obtain ⟨wr', hwr, hqueued⟩ := hrings.requeue (requeued.headD [])
    refine ⟨?_, .inl hnames, ?_, rd + 1, rdBuf, wr', ?_⟩
    · intro a ha
      simp only [mem_cons, not_mem_nil, or_false] at ha
      rcases ha with rfl | rfl
      · exact helem
      · rw [hindex]
        exact ⟨hnames, hout⟩
    · rw [← heq]
      exact requeue_rsc ch _
    · exact
        { hqueued with
          tre := hqueued.tre.del
          rd_le := by omega
          wr_lt := by
            have := hqueued.wr_lt
            omega
          inStep := by
            intro hno
            dsimp only at hno
            rw [requeue_rsc, hrsc] at hno
            cases hno }

end

structure Inv (c : Config) (s : State) : Prop where
  chans : ∀ i, ChanInv (c.chans i) (s.chans i)
  cmds : ∀ j, (s.cmds j).cmdType = cmdTypeTsync ∨ (s.cmds j).cmdChid.toNat < c.maxChan

section

variable {c : Config} {s t : State} {event : Tre} {ring : EventRing}

theorem ChanInv.update (h : Inv c s) {chan : Nat} {ch : EvChan} (hch : ChanInv (c.chans chan) ch)
    (i : Nat) : ChanInv (c.chans i) (Function.update s.chans chan ch i) := by
  by_cases hi : i = chan
  · subst hi
    rwa [Function.update_self]
  · rw [Function.update_of_ne hi]
    exact h.chans i

theorem ChanInv.setCcs {setup : Option (Bool × ChanCfg)} {ch : EvChan} (h : ChanInv setup ch)
    (ccs : UInt32) (completion : Nat) :
    ChanInv setup { ch with ccs := ccs, completion := completion } := by
  match setup, h with
  | none, h => exact h
  | some (_, cfg), ⟨heq, rd, rdBuf, wr, hrings⟩ => exact ⟨heq, rd, rdBuf, wr, { hrings with }⟩

def Done (c : Config) (x : List Act × State) : Prop := (∀ a ∈ x.1, a.Safe c) ∧ Inv c x.2

theorem processCmdCompletion_safe (h : Inv c s)
    (hok : IsElement s.cmdRing (s.cmdRing.toVirtual event.ptr.toNat)) :
    Done c (processCmdCompletion c s event) := by
  unfold processCmdCompletion
  dsimp only
  rw [if_neg (not_not.mpr hok)]
  split
  · exact ⟨by simpa [Act.Safe] using hok, h.chans, h.cmds⟩
  next htype =>
    have hchan := (h.cmds _).resolve_left htype
    rw [if_neg (Nat.not_le.mpr hchan)]
    refine ⟨?_, fun i => ChanInv.update h ((h.chans _).setCcs _ _) i, h.cmds⟩
    intro a ha
    simp only [mem_cons, not_mem_nil, or_false] at ha
    rcases ha with rfl | rfl
    · exact hok
    · exact hchan

theorem cmd_fields (chan : Fin 256) :
    let word (type : UInt32) : Tre :=
      ⟨0, 0, (UInt32.ofNat chan.val <<< (24 : UInt32)) ||| (type <<< (16 : UInt32))⟩
    (word cmdTypeStart).cmdChid.toNat = chan.val ∧ (word cmdTypeReset).cmdChid.toNat = chan.val ∧
      (word cmdTypeTsync).cmdType = cmdTypeTsync := by
  revert chan
  decide +kernel

theorem Inv.sendCmd (h : Inv c s) {type : UInt32} {chan : Nat}
    (hword : let cmd : Tre :=
        ⟨0, 0, (UInt32.ofNat chan <<< (24 : UInt32)) ||| (type <<< (16 : UInt32))⟩
      cmd.cmdType = cmdTypeTsync ∨ cmd.cmdChid.toNat < c.maxChan) :
    Inv c (sendCmd s type chan) := by
  unfold Event.sendCmd
  split
  · exact h
  · refine ⟨h.chans, fun j => ?_⟩
    dsimp only
    by_cases hj : j = s.cmdRing.index s.cmdRing.wp
    · rw [hj, Function.update_self]
      exact hword
    · rw [Function.update_of_ne hj]
      exact h.cmds j

theorem parseTransfer_safe {setup : Option (Bool × ChanCfg)} {ch : EvChan} (h : ChanInv setup ch)
    {d : Delivery} (hok : TransferOk ch d.event) :
    ∃ fuel acts left, (∀ f, fuel < f → parseTransfer f ch d = some (acts, left)) ∧
      Handled c setup d.event ch acts left := by
  unfold parseTransfer
  by_cases htx : d.event.evType = pktTypeTx
  · simp only [if_pos htx]
    exact parseXferEvent_safe h htx hok d.requeued
  by_cases hrsc : d.event.evType = pktTypeRscTx
  · simp only [if_neg htx, if_pos hrsc]
    exact ⟨0, _, _, fun _ _ => rfl, parseRscEvent_safe h hrsc hok d.requeued⟩
  · simp only [if_neg htx, if_neg hrsc]
    exact ⟨0, _, _, fun _ _ => rfl, .unchanged h⟩

theorem transferEvent_safe (h : Inv c s) {d : Delivery} (hchan : d.event.evChid.toNat < c.maxChan)
    (hok : TransferOk (s.chans d.event.evChid.toNat) d.event) :
    ∃ fuel x, (∀ f, fuel < f → transferEvent c f s d = some x) ∧ Done c x := by
  obtain ⟨fuel, acts, left, hrun, hacts, hleft, hinv⟩ := parseTransfer_safe (c := c) (h.chans _) hok
  refine ⟨fuel, (.index d.event.evChid.toNat ::
      (acts ++ [.handled d.event (s.chans d.event.evChid.toNat) left]),
      { s with chans := Function.update s.chans d.event.evChid.toNat left }), fun f hf => ?_, ?_⟩
  · rw [transferEvent, if_neg (Nat.not_le.mpr hchan), hrun f hf]
    rfl
  · refine ⟨?_, fun i => ChanInv.update h hinv i, h.cmds⟩
    intro a ha
    simp only [mem_cons, mem_append, not_mem_nil, or_false] at ha
    rcases ha with rfl | ha | rfl
    · exact hchan
    · exact hacts a ha
    · exact hleft

theorem processEvent_safe (h : Inv c s) {d : Delivery} (hok : EventOk c ring s d.event) :
    ∃ fuel x, (∀ f, fuel < f → processEvent c ring f s d = some x) ∧ Done c x := by
  cases ring with
  | data => exact transferEvent_safe h hok.1 hok.2
  | ctrl =>
    unfold EventOk at hok
    dsimp only at hok
    unfold processEvent
    dsimp only
    by_cases hcmd : d.event.evType = pktTypeCmdCompletion
    · rw [if_pos hcmd] at hok
      simp only [if_pos hcmd]
      exact ⟨0, _, fun _ _ => rfl, processCmdCompletion_safe h hok⟩
    by_cases hxfer : d.event.evType = pktTypeTx ∨ d.event.evType = pktTypeRscTx
    · rw [if_neg hcmd, if_pos hxfer] at hok
      simp only [if_neg hcmd, if_pos hxfer]
      exact transferEvent_safe h hok.1 hok.2
    · simp only [if_neg hcmd, if_neg hxfer]
      exact ⟨0, _, fun _ _ => rfl, by simp, h⟩

theorem xferLoop_mono {found ch : EvChan} {devRp : Nat} {status : Option Errno} {f f' : Nat}
    {requeued : List (List Nat)} {x : List Act × EvChan} (hle : f ≤ f')
    (h : xferLoop event found devRp status f requeued ch = some x) :
    xferLoop event found devRp status f' requeued ch = some x := by
  induction f generalizing f' requeued ch x with
  | zero => cases h
  | succ f ih =>
    obtain ⟨f', rfl⟩ := Nat.exists_eq_succ_of_ne_zero (show f' ≠ 0 by omega)
    rw [xferLoop] at h ⊢
    split
    next hend => rwa [if_pos hend] at h
    next hne =>
      rw [if_neg hne] at h
      obtain ⟨y, hy, rfl⟩ := map_eq_some_iff.mp h
      exact map_eq_some_iff.mpr ⟨y, ih (by omega) hy, rfl⟩

theorem parseTransfer_mono {f f' : Nat} {ch : EvChan} {d : Delivery} {x : List Act × EvChan}
    (hle : f ≤ f') (h : parseTransfer f ch d = some x) : parseTransfer f' ch d = some x := by
  unfold parseTransfer at h ⊢
  by_cases htx : d.event.evType = pktTypeTx
  · rw [if_pos htx] at h ⊢
    unfold parseXferEvent at h ⊢
    by_cases hst : ch.chState = .enabled
    · by_cases hcode : d.event.evCode ∈ xferCodes
      · simp only [if_neg (not_not.mpr hst), if_pos hcode] at h ⊢
        exact xferLoop_mono hle h
      · rwa [if_neg (not_not.mpr hst), if_neg hcode] at h ⊢
    · rwa [if_pos hst] at h ⊢
  · rwa [if_neg htx] at h ⊢

theorem transferEvent_mono {f f' : Nat} {d : Delivery} {x : List Act × State} (hle : f ≤ f')
    (h : transferEvent c f s d = some x) : transferEvent c f' s d = some x := by
  unfold transferEvent at h ⊢
  dsimp only at h ⊢
  by_cases hchan : c.maxChan ≤ d.event.evChid.toNat
  · rwa [if_pos hchan] at h ⊢
  · rw [if_neg hchan] at h ⊢
    obtain ⟨y, hy, rfl⟩ := map_eq_some_iff.mp h
    exact map_eq_some_iff.mpr ⟨y, parseTransfer_mono hle hy, rfl⟩

theorem processEvent_mono {f f' : Nat} {d : Delivery} {x : List Act × State} (hle : f ≤ f')
    (h : processEvent c ring f s d = some x) : processEvent c ring f' s d = some x := by
  cases ring with
  | data => exact transferEvent_mono hle h
  | ctrl =>
    unfold processEvent at h ⊢
    dsimp only at h ⊢
    by_cases hcmd : d.event.evType = pktTypeCmdCompletion
    · rwa [if_pos hcmd] at h ⊢
    by_cases hxfer : d.event.evType = pktTypeTx ∨ d.event.evType = pktTypeRscTx
    · rw [if_neg hcmd, if_pos hxfer] at h ⊢
      exact transferEvent_mono hle h
    · rwa [if_neg hcmd, if_neg hxfer] at h ⊢

/-- What a call on an event ring does is safe: it ends, and all that it looks up and completes
is. -/
def Safe (c : Config) (ring : EventRing) (quota : Nat) (ds : List Delivery) (s : State) : Prop :=
  ∃ fuel acts t, processEventRing c ring fuel quota ds s = some (acts, t) ∧ ∀ a ∈ acts, a.Safe c

theorem processEventRing_safe (h : Inv c s) (quota : Nat) (ds : List Delivery) (enough : Nat)
    (hok : ∀ f, enough < f → EventsOk c ring f quota ds s) :
    ∃ fuel x, (∀ f, fuel < f → processEventRing c ring f quota ds s = some x) ∧ Done c x := by
  induction ds generalizing quota s enough with
  | nil => exact ⟨0, ([], s), fun _ _ => rfl, by simp, h⟩
  | cons d ds ih =>
    by_cases hquota : ring = .data ∧ quota = 0
    · exact ⟨0, ([], s), fun _ _ => by rw [processEventRing, if_pos hquota], by simp, h⟩
    have hok' : ∀ f, enough < f → EventOk c ring s d.event ∧ ∀ x ∈ processEvent c ring f s d,
        EventsOk c ring f (quota - ring.cost d) ds x.2 := fun f hf => by
      have hf' := hok f hf
      rwa [EventsOk, if_neg hquota] at hf'
    obtain ⟨fuel, x, hrun, hsafe, hinv⟩ := processEvent_safe h (hok' _ (Nat.lt_succ_self _)).1
    obtain ⟨fuel', y, hrun', hsafe', hinv'⟩ := ih hinv (quota - ring.cost d) (max enough fuel)
      fun f hf => (hok' f (by omega)).2 x (hrun f (by omega))
    refine ⟨max fuel fuel', (x.1 ++ y.1, y.2), fun f hf => ?_, fun a ha => ?_, hinv'⟩
    · rw [processEventRing, if_neg hquota, hrun f (by omega)]
      simp only [bind_eq_bind, bind_some, hrun' f (by omega)]
      rfl
    · rcases mem_append.mp ha with ha | ha
      · exact hsafe a ha
      · exact hsafe' a ha

def RunOk (c : Config) (s : State) : Label → Prop
  | .events ring fuel quota ds => EventsOk c ring fuel quota ds s
  | _ => True

instance (c : Config) (s : State) (l : Label) : Decidable (RunOk c s l) :=
  match l with
  | .events ring fuel quota ds => decidableEventsOk c ring fuel quota ds s
  | .enqueue .. | .startChan _ | .resetChan _ | .tsyncCfg _ | .chState .. => isTrue trivial

theorem init_inv (c : Config) : Inv c (init c) where
  chans i := by
    simp only [init]
    cases hsetup : c.chans i with
    | none => exact ⟨by simp, rfl, rfl⟩
    | some x =>
      have hchan := (chanInit_inv x.2).rings
      exact ⟨rfl, 0, 0, 0, hchan.tre, hchan.buf, rfl, rfl, rfl, le_refl _, hchan.accepted_lt,
        fun _ => rfl⟩
  cmds j := by
    have hzero : (default : Tre).cmdChid.toNat = 0 := by decide
    right
    change (default : Tre).cmdChid.toNat < c.maxChan
    rw [hzero]
    exact c.maxChan_pos

theorem Inv.processEventRing (h : Inv c s) {fuel quota : Nat} {ds : List Delivery}
    (hok : EventsOk c ring fuel quota ds s) {x : List Act × State}
    (hrun : processEventRing c ring fuel quota ds s = some x) : Inv c x.2 := by
  induction ds generalizing quota s x with
  | nil =>
    obtain rfl := some.inj hrun
    exact h
  | cons d ds ih =>
    rw [Event.processEventRing] at hrun
    split at hrun
    next =>
      obtain rfl := some.inj hrun
      exact h
    next hquota =>
      rw [EventsOk, if_neg hquota] at hok
      obtain ⟨y, hy, hrest⟩ := bind_eq_some_iff.mp hrun
      obtain ⟨z, hz, hret⟩ := bind_eq_some_iff.mp hrest
      obtain rfl := some.inj hret
      obtain ⟨enough, y', hy', _, hinv⟩ := processEvent_safe h hok.1
      have heq := hy' (max fuel (enough + 1)) (by omega)
      rw [processEvent_mono (le_max_left fuel (enough + 1)) hy] at heq
      obtain rfl := some.inj heq
      have hleft := ih hinv (hok.2 y hy) hz
      exact hleft

theorem Inv.step (h : Inv c s) {l : Label} (hok : RunOk c s l) (hstep : step c s l = some t) :
    Inv c t := by
  cases l with
  | events ring fuel quota ds =>
    cases ring with
    | data =>
      obtain ⟨x, hrun, rfl⟩ := map_eq_some_iff.mp hstep
      exact h.processEventRing hok hrun
    | ctrl =>
      obtain ⟨x, hrun, rfl⟩ := map_eq_some_iff.mp hstep
      exact h.processEventRing hok hrun
  | enqueue chan buf =>
    obtain ⟨hsome, ⟨⟩⟩ := ite_none_right_eq_some.mp hstep
    refine ⟨fun i => ChanInv.update h ?_ i, h.cmds⟩
    have hchan := h.chans chan
    match hsetup : c.chans chan, hchan with
    | none, _ => simp [hsetup] at hsome
    | some (_, cfg), ⟨heq, rd, rdBuf, wr, hrings⟩ =>
      obtain ⟨wr', _, hrings'⟩ := hrings.enqueue buf
      exact ⟨(enqueue_rsc _ _).trans heq, rd, rdBuf, wr', hrings'⟩
  | startChan chan =>
    obtain ⟨hlt, ⟨⟩⟩ := ite_none_right_eq_some.mp hstep
    have hfields := (cmd_fields ⟨chan, hlt.trans_le c.maxChan_le⟩).1
    exact h.sendCmd (.inr (by rw [hfields]; exact hlt))
  | resetChan chan =>
    obtain ⟨hlt, ⟨⟩⟩ := ite_none_right_eq_some.mp hstep
    have hfields := (cmd_fields ⟨chan, hlt.trans_le c.maxChan_le⟩).2.1
    exact h.sendCmd (.inr (by rw [hfields]; exact hlt))
  | tsyncCfg er =>
    obtain ⟨hlt, ⟨⟩⟩ := ite_none_right_eq_some.mp hstep
    exact h.sendCmd (.inl (cmd_fields ⟨er, hlt⟩).2.2)
  | chState chan st =>
    obtain ⟨hsome, ⟨⟩⟩ := ite_none_right_eq_some.mp hstep
    refine ⟨fun i => ChanInv.update h ?_ i, h.cmds⟩
    have hchan := h.chans chan
    match hsetup : c.chans chan, hchan with
    | none, _ => simp [hsetup] at hsome
    | some (_, cfg), ⟨heq, rd, rdBuf, wr, hrings⟩ =>
      exact ⟨heq, rd, rdBuf, wr, { hrings with }⟩

def Fits (s : State) (event : Tre) : Prop :=
  (event.evType = pktTypeTx → (s.chans event.evChid.toNat).rsc = false) ∧
    (event.evType = pktTypeRscTx → (s.chans event.evChid.toNat).rsc = true)

instance (s : State) (event : Tre) : Decidable (Fits s event) :=
  inferInstanceAs (Decidable ((_ → _) ∧ (_ → _)))

theorem transferOk_of_safe {ch : EvChan} {fuel : Nat} {d : Delivery} {x : List Act × EvChan}
    (hfits : (d.event.evType = pktTypeTx → ch.rsc = false) ∧
      (d.event.evType = pktTypeRscTx → ch.rsc = true))
    (hrun : parseTransfer fuel ch d = some x) (hsafe : ∀ a ∈ x.1, a.Safe c) :
    TransferOk ch d.event := by
  unfold parseTransfer at hrun
  unfold TransferOk
  by_cases htx : d.event.evType = pktTypeTx
  · rw [if_pos htx] at hrun ⊢
    intro hst hcode
    refine ⟨hfits.1 htx, ?_⟩
    by_contra hbad
    obtain ⟨hnames, hlast⟩ := not_or.mp hbad
    unfold parseXferEvent at hrun
    simp only [if_neg (not_not.mpr hst), if_pos hcode] at hrun
    cases fuel with
    | zero => cases hrun
    | succ fuel =>
      rw [xferLoop, if_neg (Ne.symm hlast)] at hrun
      obtain ⟨y, _, rfl⟩ := map_eq_some_iff.mp hrun
      exact hnames (hsafe _ mem_cons_self).1
  rw [if_neg htx] at hrun ⊢
  by_cases hrsc : d.event.evType = pktTypeRscTx
  · rw [if_pos hrsc] at hrun ⊢
    obtain rfl := some.inj hrun
    unfold parseRscEvent at hsafe
    dsimp only at hsafe
    by_cases helem : IsElement ch.bufRing (ch.bufRing.base + cookie d.event)
    · refine ⟨helem, fun hst => ⟨hfits.2 hrsc, ?_⟩⟩
      rw [if_neg (not_not.mpr helem), if_neg (not_not.mpr hst)] at hsafe
      exact (hsafe _ (mem_cons_of_mem _ mem_cons_self)).1
    · rw [if_pos helem] at hsafe
      exact absurd (hsafe _ mem_cons_self) helem
  · rw [if_neg hrsc]
    trivial

theorem transferEvent_ok_of_safe {fuel : Nat} {d : Delivery} {x : List Act × State}
    (hfits : Fits s d.event) (hrun : transferEvent c fuel s d = some x)
    (hsafe : ∀ a ∈ x.1, a.Safe c) :
    d.event.evChid.toNat < c.maxChan ∧ TransferOk (s.chans d.event.evChid.toNat) d.event := by
  unfold transferEvent at hrun
  dsimp only at hrun
  by_cases hchan : c.maxChan ≤ d.event.evChid.toNat
  · rw [if_pos hchan] at hrun
    obtain rfl := some.inj hrun
    have hindex := hsafe (.index d.event.evChid.toNat) (by simp)
    exact absurd hindex (Nat.not_lt.mpr hchan)
  · rw [if_neg hchan] at hrun
    obtain ⟨y, hy, rfl⟩ := map_eq_some_iff.mp hrun
    exact ⟨Nat.not_le.mp hchan, transferOk_of_safe hfits hy fun a ha => hsafe a (by simp [ha])⟩

theorem eventOk_of_safe {d : Delivery} (hfits : Fits s d.event) (h : Safe c ring 1 [d] s) :
    EventOk c ring s d.event := by
  obtain ⟨fuel, acts, t, hrun, hsafe⟩ := h
  rw [Event.processEventRing, if_neg (by simp)] at hrun
  obtain ⟨x, hx, hrest⟩ := bind_eq_some_iff.mp hrun
  obtain ⟨y, hy, hret⟩ := bind_eq_some_iff.mp hrest
  obtain ⟨rfl, rfl⟩ := Prod.mk.inj (some.inj hret)
  have hacts : ∀ a ∈ x.1, a.Safe c := fun a ha => hsafe a (mem_append_left _ ha)
  cases ring with
  | data => exact transferEvent_ok_of_safe hfits hx hacts
  | ctrl =>
    unfold processEvent at hx
    unfold EventOk
    dsimp only at hx ⊢
    by_cases hcmd : d.event.evType = pktTypeCmdCompletion
    · rw [if_pos hcmd] at hx ⊢
      obtain rfl := some.inj hx
      refine hacts (.readCmd s.cmdRing _) ?_
      unfold processCmdCompletion
      dsimp only
      split
      · simp
      · split
        · simp
        · split <;> simp
    rw [if_neg hcmd] at hx ⊢
    by_cases hxfer : d.event.evType = pktTypeTx ∨ d.event.evType = pktTypeRscTx
    · rw [if_pos hxfer] at hx ⊢
      exact transferEvent_ok_of_safe hfits hx hacts
    · rw [if_neg hxfer]
      trivial

/-- In a run whose events were sound, any events that are sound are handled safely, and one that
fits its channel is handled safely only if it is. -/
theorem events_safe (c : Config) {s : State}
    (h : Transition.Reaches (Event.step c) (RunOk c) (init c) s) (ring : EventRing) :
    (∀ quota ds, (∀ fuel, EventsOk c ring fuel quota ds s) → Safe c ring quota ds s) ∧
      ∀ d : Delivery, Fits s d.event → (Safe c ring 1 [d] s ↔ EventOk c ring s d.event) := by
  have hinv : Inv c s := h.invariant (init_inv c) fun _ _ _ hs hl hstep => hs.step hl hstep
  have hsafe : ∀ quota ds, (∀ fuel, EventsOk c ring fuel quota ds s) → Safe c ring quota ds s := by
    intro quota ds hok
    obtain ⟨fuel, x, hrun, hacts, _⟩ := processEventRing_safe hinv quota ds 0 fun f _ => hok f
    exact ⟨fuel + 1, x.1, x.2, hrun _ (Nat.lt_succ_self _), hacts⟩
  refine ⟨hsafe, fun d hfits => ⟨eventOk_of_safe hfits, fun hok => hsafe 1 [d] fun fuel => ?_⟩⟩
  rw [EventsOk, if_neg (by simp)]
  exact ⟨hok, fun _ _ => trivial⟩

/-- A controller with channel 100 alone in use. -/
def oneChan : Config where
  maxChan := 128
  chans i :=
    if i = 100 then
      some (false, ⟨4, .toDevice, false, 0, true, 0x8000, 0x1000, 0x2000, by decide, by decide,
        by decide, by decide⟩)
    else none
  cmdBase := 0x3000
  cmdIommuBase := 0x9000
  maxChan_pos := by decide
  maxChan_le := by decide

def eotEvent (ptr : UInt64) : Delivery := ⟨⟨ptr, 0x02000000, 0x64220000⟩, []⟩

/-- One of two buffers is completed. -/
theorem events_safe_eot :
    ∃ s, Transition.Reaches (Event.step oneChan) (RunOk oneChan) (init oneChan) s ∧
      ((s.chans 100).treRing.outstanding = 1 ∧ EventOk oneChan .data s (eotEvent 0x8010).event) ∧
      (∀ quota ds, (∀ fuel, EventsOk oneChan .data fuel quota ds s) →
        Safe oneChan .data quota ds s) ∧
      ∀ d : Delivery, Fits s d.event →
        (Safe oneChan .data 1 [d] s ↔ EventOk oneChan .data s d.event) := by
  obtain ⟨s, hs, hrun⟩ : ∃ s,
      Transition.Reaches (Event.step oneChan) (RunOk oneChan) (init oneChan) s ∧
      ((s.chans 100).treRing.outstanding = 1 ∧ EventOk oneChan .data s (eotEvent 0x8010).event) :=
    Transition.exists_of_run
      [.startChan 100, .events .ctrl 1 0 [⟨⟨0x9000, 0x01000000, 0x00210000⟩, []⟩],
        .chState 100 .enabled, .enqueue 100 7, .enqueue 100 8,
        .events .data 4 8 [eotEvent 0x8000]]
      (by decide +kernel)
  exact ⟨s, hs, hrun, events_safe oneChan hs .data⟩

/-- A channel that does not exist, an element that is not outstanding, and a command that is not in
its ring. -/
theorem not_events_safe :
    ∃ s, Transition.Reachable (Event.step oneChan) (init oneChan) s ∧
      ¬Safe oneChan .data 1 [⟨⟨0, 0x02000000, 0xc8220000⟩, []⟩] s ∧
      ¬Safe oneChan .data 1 [eotEvent 0x8020] s ∧
      ¬Safe oneChan .ctrl 1 [⟨⟨0xa000, 0x01000000, 0x00210000⟩, []⟩] s := by
  obtain ⟨s, hs, ⟨hchan, hchan'⟩, ⟨hptr, hptr'⟩, hcmd, hcmd'⟩ : ∃ s,
      Transition.Reachable (Event.step oneChan) (init oneChan) s ∧
      ((Fits s ⟨0, 0x02000000, 0xc8220000⟩ ∧ ¬EventOk oneChan .data s ⟨0, 0x02000000, 0xc8220000⟩) ∧
        (Fits s (eotEvent 0x8020).event ∧ ¬EventOk oneChan .data s (eotEvent 0x8020).event) ∧
        Fits s ⟨0xa000, 0x01000000, 0x00210000⟩ ∧
          ¬EventOk oneChan .ctrl s ⟨0xa000, 0x01000000, 0x00210000⟩) :=
    Transition.exists_of_run [.chState 100 .enabled, .enqueue 100 7] (by decide +kernel)
  exact ⟨s, hs, mt (eventOk_of_safe hchan) hchan', mt (eventOk_of_safe hptr) hptr',
    mt (eventOk_of_safe hcmd) hcmd'⟩

end

end ModemSupport.Mhi.Event
