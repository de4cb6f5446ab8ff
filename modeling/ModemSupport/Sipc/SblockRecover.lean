import ModemSupport.Sipc.SblockConservation

/-! Recovery of a channel (`sblock_recover`).  The pools are rewritten from slot 0 on, but their
windows start at the slot of the counters, so that a rebuilt pool also serves entries that the
rewrite did not reach. -/

namespace ModemSupport.Sipc.Sblock

open Function ModemSupport.Lib List Option

def doneBlks (record : Nat → BlkState) (n : Nat) : List Nat :=
  (List.range n).filter fun i => record i = .done

def Half.doneAddrs (h : Half) (record : Nat → BlkState) : List UInt32 :=
  (doneBlks record h.count.toNat).map fun i => h.addr + UInt32.ofNat i * h.size

variable {record : Nat → BlkState} {addr blksz : UInt32} {pool : Queue} {n : Nat}

theorem doneBlks_succ :
    doneBlks record (n + 1) =
      doneBlks record n ++ if record n = .done then [n] else [] := by
  rw [doneBlks, doneBlks, range_succ, filter_append]
  by_cases h : record n = .done <;> simp [h]

theorem foldl_recoverBlk :
    (List.range n).foldl (recoverBlk record addr blksz) (pool, 0) =
      ({ pool with
          blks := fun j =>
            match (doneBlks record n)[j]? with
            | some i => ⟨UInt32.ofNat i * blksz + addr, blksz⟩
            | none => pool.blks j
          wrptr := Ring.ahead pool.wrptr (doneBlks record n).length },
        (doneBlks record n).length) := by
  induction n with
  | zero => simp [doneBlks]
  | succ n ih =>
    rw [range_succ, foldl_append, ih, doneBlks_succ]
    by_cases h : record n = .done
    · rw [if_pos h, foldl_cons, foldl_nil, recoverBlk, if_pos h]
      simp only [Prod.mk.injEq, Queue.mk.injEq, length_append, length_singleton]
      refine ⟨⟨funext fun j => ?_, trivial, ?_⟩, trivial⟩
      · by_cases hj : j = (doneBlks record n).length
        · simp [hj]
        · rw [update_of_ne hj]
          rcases Nat.lt_or_gt_of_ne hj with hlt | hgt
          · rw [List.getElem?_append_left hlt]
          · rw [List.getElem?_eq_none hgt.le, List.getElem?_eq_none (by simp; omega)]
      · rw [Ring.ahead, Ring.ahead, UInt32.ofNat_add, UInt32.add_assoc]
        rfl
    · simp [recoverBlk, h]

theorem recoverPool_eq (count : UInt32) :
    recoverPool record addr count blksz pool =
      { pool with
        blks := fun j =>
          match (doneBlks record count.toNat)[j]? with
          | some i => ⟨UInt32.ofNat i * blksz + addr, blksz⟩
          | none => pool.blks j
        wrptr := Ring.ahead pool.wrptr (doneBlks record count.toNat).length } := by
  rw [recoverPool, foldl_recoverBlk]

theorem doneBlks_length_le : (doneBlks record n).length ≤ n := by
  simpa [doneBlks] using length_filter_le (fun i => decide (record i = .done)) (List.range n)

def Half.rebuiltSlots (h : Half) (record : Nat → BlkState) (base : UInt32) : List Nat :=
  Ring.slots h.ringpos base (h.doneAddrs record).length

/-- What the rewrite of the pool of `h` from the counter `base` on needs: the slots of its window
differ, and those past the rewritten ones still hold, from before, the done blocks that are written
outside the window. -/
def Half.Rebuildable (h : Half) (record : Nat → BlkState) (base : UInt32) : Prop :=
  let w := h.rebuiltSlots record base
  w.Nodup ∧
    ((w.filter fun i => (h.doneAddrs record).length ≤ i).map fun i => (h.pool.blks i).addr).Perm
      (((List.range (h.doneAddrs record).length).filter fun i => i ∉ w).filterMap
        fun i => (h.doneAddrs record)[i]?)

instance (h : Half) (record : Nat → BlkState) (base : UInt32) :
    Decidable (h.Rebuildable record base) :=
  inferInstanceAs (Decidable (_ ∧ _))

def Half.rebuilt (h : Half) (record : Nat → BlkState) (base : UInt32) : Half :=
  { h with
    pool := recoverPool record h.addr h.count h.size ⟨h.pool.blks, base, base⟩ }

theorem Half.poolWindow_rebuilt (h : Half) (record : Nat → BlkState) (base : UInt32) :
    (h.rebuilt record base).poolWindow.map (·.addr) =
      (h.rebuiltSlots record base).map fun i =>
        (h.doneAddrs record)[i]?.getD (h.pool.blks i).addr := by
  have hk : (doneBlks record h.count.toNat).length < 2 ^ 32 :=
    doneBlks_length_le.trans_lt h.count.toNat_lt
  rw [Half.poolWindow, Ring.window, Half.rebuilt, recoverPool_eq, List.map_map]
  simp only [Ring.fill_ahead _ hk, Half.rebuiltSlots, Half.doneAddrs, length_map]
  refine map_congr_left fun i _ => ?_
  simp only [Function.comp_apply, List.getElem?_map]
  cases (doneBlks record h.count.toNat)[i]? with
  | none => rfl
  | some j => exact UInt32.add_comm _ _

/-- The window of the rebuilt pool lists the done blocks, each once, exactly when the pool is
rebuildable. -/
theorem Half.poolWindow_rebuilt_perm_iff {h : Half} {record : Nat → BlkState} {base : UInt32}
    (hnodup : (h.doneAddrs record).Nodup) :
    ((h.rebuilt record base).poolWindow.map (·.addr)).Perm (h.doneAddrs record) ↔
      h.Rebuildable record base := by
  rw [Half.poolWindow_rebuilt, Ring.overwrite_perm_iff hnodup]
  rfl

def sblockGets (m : Mgr) (tx : Half) : Nat → List UInt64
  | 0 => []
  | j + 1 =>
    match sblockGet m tx with
    | (m', tx', .ok blk) => blk.addr :: sblockGets m' tx' j
    | (_, _, .error _) => []

theorem sblockGets_map {m : Mgr} {h : Half} {toStored : UInt64 → UInt32}
    (hstored : m.toStored = toStored) (hready : m.state = .ready) (j : Nat) :
    (sblockGets m h j).map toStored = (h.poolWindow.map (·.addr)).take j := by
  induction j generalizing m h with
  | zero => rfl
  | succ j ih =>
    by_cases hne : h.pool.rdptr = h.pool.wrptr
    · have hempty : h.poolWindow = [] := by rw [Half.poolWindow, hne, Ring.window_self]
      rw [sblockGets, sblockGet, if_neg (fun hok => hok.1 hne), hempty]
      rfl
    · rw [sblockGets, sblockGet, if_pos ⟨hne, hready⟩, Half.poolWindow_popPool hne]
      have hblk : toStored (m.toVirt (h.pool.blks (h.ringpos h.pool.rdptr)).addr) =
          (h.pool.blks (h.ringpos h.pool.rdptr)).addr := by rw [← hstored, Mgr.toStored_toVirt]
      simp only [map_cons, hblk, take_succ_cons]
      refine congrArg _ (ih ?_ hready)
      rw [← hstored]
      exact Mgr.toStored_congr rfl rfl

/-- The manager and the halves are as wide as they were created. -/
structure Geometry (c : Config) (m : Mgr) (tx rx : Half) : Prop where
  tx_addr : tx.addr = (hostInitHalf c .host).addr
  tx_count : tx.count = (hostInitHalf c .host).count
  tx_size : tx.size = (hostInitHalf c .host).size
  rx_addr : rx.addr = (hostInitHalf c .client).addr
  rx_count : rx.count = (hostInitHalf c .client).count
  rx_size : rx.size = (hostInitHalf c .client).size
  txblksz : m.txblksz = tx.size
  rxblksz : m.rxblksz = rx.size

/-- The channel as its host sees it: any counters, entries and records. -/
structure HostChannel (c : Config) where
  mgr : Mgr
  tx : Half
  rx : Half
  geometry : Geometry c mgr tx rx

theorem doneAddrs_sublist (h : Half) (record : Nat → BlkState) :
    Sublist (h.doneAddrs record) h.blocks :=
  filter_sublist.map _

/-- The pool of `h` lists the blocks whose record is done, each once, and no pending one; and the
calls of `sblock_get` of a party whose channel is ready again hand out done blocks, none twice. -/
structure ExactPool (h : Half) (record : Nat → BlkState) : Prop where
  done : (h.poolWindow.map (·.addr)).Perm (h.doneAddrs record)
  pending : ∀ i < h.count.toNat, record i = .pending →
    h.addr + UInt32.ofNat i * h.size ∉ h.poolWindow.map (·.addr)
  gets : ∀ m : Mgr, m.state = .ready → ∀ j,
    ((sblockGets m h j).map m.toStored).Nodup ∧
      ∀ a ∈ (sblockGets m h j).map m.toStored, a ∈ h.doneAddrs record

theorem exactPool_iff {h : Half} {record : Nat → BlkState} (hnodup : h.blocks.Nodup) :
    ExactPool h record ↔ (h.poolWindow.map (·.addr)).Perm (h.doneAddrs record) := by
  have hdone := hnodup.sublist (doneAddrs_sublist h record)
  refine ⟨fun hexact => hexact.done, fun hperm => ⟨hperm, fun i hi hpend hmem => ?_, ?_⟩⟩
  · obtain ⟨j, hj, he⟩ := List.mem_map.mp (hperm.mem_iff.mp hmem)
    simp only [doneBlks, mem_filter, mem_range, decide_eq_true_eq] at hj
    have heq := inj_on_of_nodup_map hnodup (mem_range.mpr hj.1) (mem_range.mpr hi) he
    rw [heq, hpend] at hj
    cases hj.2
  · intro m hready j
    rw [sblockGets_map rfl hready]
    have hsub := take_sublist j (h.poolWindow.map (·.addr))
    exact ⟨(hperm.nodup_iff.mpr hdone).sublist hsub, fun a ha => hperm.mem_iff.mp (hsub.subset ha)⟩

/-- What recovery is for: both rings are empty and both pools are exact. -/
structure Recovered {c : Config} (ch : HostChannel c) : Prop where
  txRing : (sblockRecover ch.mgr ch.tx ch.rx).2.1.ringWindow = []
  rxRing : (sblockRecover ch.mgr ch.tx ch.rx).2.2.ringWindow = []
  txPool : ExactPool (sblockRecover ch.mgr ch.tx ch.rx).2.1 ch.mgr.txrecord
  rxPool : ExactPool (sblockRecover ch.mgr ch.tx ch.rx).2.2 ch.mgr.rxrecord

theorem Moves.geometry {carry : Prop} {v v' : View} (hmove : Moves carry v v') :
    v'.half.addr = v.half.addr ∧ v'.half.count = v.half.count ∧ v'.half.size = v.half.size := by
  cases hmove <;> exact ⟨rfl, rfl, rfl⟩

theorem sblockGetPoll_blksz (m : Mgr) (tx : Half) :
    (sblockGetPoll m tx).1.txblksz = m.txblksz ∧ (sblockGetPoll m tx).1.rxblksz = m.rxblksz := by
  rw [sblockGetPoll]
  split <;> exact ⟨rfl, rfl⟩

theorem sblockGet_blksz (m : Mgr) (tx : Half) :
    (sblockGet m tx).1.txblksz = m.txblksz ∧ (sblockGet m tx).1.rxblksz = m.rxblksz := by
  rw [sblockGet]
  split <;> exact ⟨rfl, rfl⟩

theorem sblockSendEx_blksz (m : Mgr) (tx : Half) (blk : Block) (yell : Bool) :
    (sblockSendEx m tx blk yell).1.txblksz = m.txblksz ∧
      (sblockSendEx m tx blk yell).1.rxblksz = m.rxblksz := by
  rw [sblockSendEx]
  split <;> exact ⟨rfl, rfl⟩

theorem sblockReceivePoll_blksz (m : Mgr) (rx : Half) :
    (sblockReceivePoll m rx).1.txblksz = m.txblksz ∧
      (sblockReceivePoll m rx).1.rxblksz = m.rxblksz := by
  rw [sblockReceivePoll]
  split <;> exact ⟨rfl, rfl⟩

theorem sblockReceive_blksz (m : Mgr) (rx : Half) :
    (sblockReceive m rx).1.txblksz = m.txblksz ∧ (sblockReceive m rx).1.rxblksz = m.rxblksz := by
  rw [sblockReceive]
  split <;> exact ⟨rfl, rfl⟩

theorem sblockRelease_blksz (m : Mgr) (rx : Half) (blk : Block) :
    (sblockRelease m rx blk).1.txblksz = m.txblksz ∧
      (sblockRelease m rx blk).1.rxblksz = m.rxblksz := by
  rw [sblockRelease]
  split <;> exact ⟨rfl, rfl⟩

theorem step_blksz {s s' : Sys} {op : Op} (hstep : step s op = some s') (q : Party) :
    (s'.mgr q).txblksz = (s.mgr q).txblksz ∧ (s'.mgr q).rxblksz = (s.mgr q).rxblksz := by
  have hset : ∀ (p : Party) (m : Mgr),
      m.txblksz = (s.mgr p).txblksz ∧ m.rxblksz = (s.mgr p).rxblksz →
      (update s.mgr p m q).txblksz = (s.mgr q).txblksz ∧
        (update s.mgr p m q).rxblksz = (s.mgr q).rxblksz := by
    intro p m hm
    by_cases hq : q = p
    · subst hq
      rwa [update_self]
    · rw [update_of_ne hq]
      exact ⟨rfl, rfl⟩
  cases op with
  | getPoll p =>
    obtain rfl := some.inj hstep
    exact hset p _ (sblockGetPoll_blksz _ _)
  | get p =>
    obtain rfl := some.inj hstep
    exact hset p _ (sblockGet_blksz _ _)
  | put p blk =>
    rw [step] at hstep
    split at hstep
    next =>
      obtain rfl := some.inj hstep
      exact hset p _ ⟨rfl, rfl⟩
    next => cases hstep
  | send p blk yell =>
    rw [step] at hstep
    split at hstep
    next =>
      obtain rfl := some.inj hstep
      exact hset p _ (sblockSendEx_blksz _ _ _ _)
    next => cases hstep
  | receivePoll p =>
    obtain rfl := some.inj hstep
    exact hset p _ (sblockReceivePoll_blksz _ _)
  | receive p =>
    obtain rfl := some.inj hstep
    exact hset p _ (sblockReceive_blksz _ _)
  | release p blk =>
    rw [step] at hstep
    split at hstep
    next =>
      obtain rfl := some.inj hstep
      exact hset p _ (sblockRelease_blksz _ _ _)
    next => cases hstep

theorem Reachable.geometry {c : Config} {s : Sys} (hrun : Reachable c s) :
    Geometry c (s.mgr .host) (s.half .host) (s.half .client) := by
  refine hrun.invariant
    (P := fun s => Geometry c (s.mgr .host) (s.half .host) (s.half .client)) ?_ ?_
  · exact ⟨rfl, rfl, rfl, rfl, rfl, rfl, rfl, rfl⟩
  · intro s op s' hgeo _ hstep
    obtain ⟨htxa, htxc, htxs⟩ : (s'.half .host).addr = _ ∧ _ := (step_moves hstep .host).geometry
    obtain ⟨hrxa, hrxc, hrxs⟩ : (s'.half .client).addr = _ ∧ _ :=
      (step_moves hstep .client).geometry
    obtain ⟨htxb, hrxb⟩ := step_blksz hstep .host
    exact ⟨htxa.trans hgeo.tx_addr, htxc.trans hgeo.tx_count, htxs.trans hgeo.tx_size,
      hrxa.trans hgeo.rx_addr, hrxc.trans hgeo.rx_count, hrxs.trans hgeo.rx_size,
      htxb.trans (hgeo.txblksz.trans htxs.symm), hrxb.trans (hgeo.rxblksz.trans hrxs.symm)⟩

def Reachable.hostChannel {c : Config} {s : Sys} (hrun : Reachable c s) : HostChannel c where
  mgr := s.mgr .host
  tx := s.half .host
  rx := s.half .client
  geometry := hrun.geometry

theorem blocks_nodup_of_geometry {c : Config} {d : Party} {h : Half}
    (haddr : h.addr = (hostInitHalf c d).addr) (hcount : h.count = (hostInitHalf c d).count)
    (hsize : h.size = (hostInitHalf c d).size) : h.blocks.Nodup := by
  have hnodup := blocks_nodup c d
  rw [Half.blocks] at hnodup ⊢
  rwa [haddr, hcount, hsize]

theorem exactPool_recoverTx_iff {c : Config} (ch : HostChannel c) :
    ExactPool (recoverTx ch.mgr ch.tx) ch.mgr.txrecord ↔
      ch.tx.Rebuildable ch.mgr.txrecord ch.tx.pool.wrptr := by
  obtain ⟨m, tx, rx, hgeo⟩ := ch
  have hnodup := blocks_nodup_of_geometry hgeo.tx_addr hgeo.tx_count hgeo.tx_size
  have hhalf : recoverTx m tx =
      { tx.rebuilt m.txrecord tx.pool.wrptr with
        ring := { tx.ring with wrptr := tx.ring.rdptr } } := by
    rw [recoverTx, Half.rebuilt, hgeo.txblksz]
  rw [exactPool_iff (by exact hnodup), hhalf,
    ← Half.poolWindow_rebuilt_perm_iff (hnodup.sublist (doneAddrs_sublist tx m.txrecord))]
  rfl

theorem exactPool_recoverRx_iff {c : Config} (ch : HostChannel c) :
    ExactPool (recoverRx ch.mgr ch.rx) ch.mgr.rxrecord ↔
      ch.rx.Rebuildable ch.mgr.rxrecord ch.rx.pool.rdptr := by
  obtain ⟨m, tx, rx, hgeo⟩ := ch
  have hnodup := blocks_nodup_of_geometry hgeo.rx_addr hgeo.rx_count hgeo.rx_size
  have hhalf : recoverRx m rx =
      { rx.rebuilt m.rxrecord rx.pool.rdptr with
        ring := { rx.ring with rdptr := rx.ring.wrptr } } := by
    rw [recoverRx, Half.rebuilt, hgeo.rxblksz]
  rw [exactPool_iff (by exact hnodup), hhalf,
    ← Half.poolWindow_rebuilt_perm_iff (hnodup.sublist (doneAddrs_sublist rx m.rxrecord))]
  rfl

/-- Recovery of a host's channel, in any state, leaves its rings empty and its pools with every
done block once and no pending one exactly when the tx pool can be rebuilt from its write counter
and the rx pool from its read counter. -/
theorem recovered_iff {c : Config} (ch : HostChannel c) :
    Recovered ch ↔
      ch.tx.Rebuildable ch.mgr.txrecord ch.tx.pool.wrptr ∧
        ch.rx.Rebuildable ch.mgr.rxrecord ch.rx.pool.rdptr := by
  constructor
  · intro hrec
    exact ⟨(exactPool_recoverTx_iff ch).mp hrec.txPool, (exactPool_recoverRx_iff ch).mp hrec.rxPool⟩
  · rintro ⟨htx, hrx⟩
    exact ⟨Ring.window_self, Ring.window_self, (exactPool_recoverTx_iff ch).mpr htx,
      (exactPool_recoverRx_iff ch).mpr hrx⟩

def twoBlocks : Config where
  txblocknum := 2
  txblocksize := 64
  rxblocknum := 2
  rxblocksize := 64
  dstSmemAddr := 0x87800000
  hostVirt := 0xffff000010000000
  clientVirt := 0xffff000020000000
  txblocksize_pos := by decide
  rxblocksize_pos := by decide
  fits := by decide

def roundAndGet : List Op :=
  [.get .host, .send .host ⟨0xffff000010000060, 64⟩ true, .receive .client,
    .release .client ⟨0xffff000020000060, 64⟩, .get .host]

/-- Recovery while a block is pending: the rebuilt tx pool serves the pending block again, since
its window starts at slot 1 and only slot 0 was rewritten. -/
theorem not_recovered_twoBlocks :
    ¬∀ s, ∀ hrun : Reachable twoBlocks s, Recovered hrun.hostChannel := by
  intro hall
  have hrec := hall _ (Transition.reachable_of_run roundAndGet rfl)
  exact absurd ((exactPool_recoverTx_iff _).mp hrec.txPool) (by decide)

end ModemSupport.Sipc.Sblock
