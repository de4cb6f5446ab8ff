import ModemSupport.Sipc.SblockConservation

/-! The wrap of the counters when the number of blocks is no power of two.  One block goes round
the channel until the write counter of the pool wraps; up to there the block comes back to the slot
it left, and then `x % count` jumps and a release overwrites the slot of a live entry. -/

namespace ModemSupport.Sipc.Sblock

open Function ModemSupport.Lib List

variable {s : Sys} {d : Party}

def Ready (s : Sys) : Prop := ∀ p, (s.mgr p).state = .ready

theorem Ready.setTx {p : Party} {m : Mgr} {h : Half} {hand : List UInt64} (hready : Ready s)
    (hm : m.state = .ready) : Ready (s.setTx p m h hand) := by
  intro q
  rcases p.eq_or_eq_peer q with rfl | rfl
  · simpa [Sys.setTx] using hm
  · simpa [Sys.setTx] using hready p.peer

theorem Ready.setRx {p : Party} {m : Mgr} {h : Half} {hand : List UInt64} (hready : Ready s)
    (hm : m.state = .ready) : Ready (s.setRx p m h hand) := by
  intro q
  rcases p.eq_or_eq_peer q with rfl | rfl
  · simpa [Sys.setRx] using hm
  · simpa [Sys.setRx] using hready p.peer

section

variable {h : Half} {got rcvd : List UInt32} {a : UInt32}

theorem exists_get (hready : Ready s) (hview : s.view d = ⟨h, got, rcvd⟩)
    (hne : h.pool.rdptr ≠ h.pool.wrptr) :
    ∃ s', Transition.Reachable step s s' ∧ Ready s' ∧
      s'.view d = ⟨h.popPool, (h.pool.blks (h.ringpos h.pool.rdptr)).addr :: got, rcvd⟩ := by
  obtain rfl : s.half d = h := congrArg View.half hview
  obtain rfl : (s.view d).got = got := congrArg View.got hview
  obtain rfl : (s.view d).rcvd = rcvd := congrArg View.rcvd hview
  refine ⟨_, Transition.reachable_single (l := .get d) rfl, ?_, ?_⟩ <;>
    rw [sblockGet, if_pos ⟨hne, hready d⟩]
  · exact hready.setTx (hready d)
  · rw [Sys.view_setTx_self (by exact Mgr.toStored_congr rfl rfl), taken, map_cons,
      Mgr.toStored_toVirt]
    rfl

theorem exists_send (hready : Ready s) (hview : s.view d = ⟨h, a :: got, rcvd⟩)
    (length : UInt32) :
    ∃ s', Transition.Reachable step s s' ∧ Ready s' ∧
      s'.view d = ⟨h.pushRing ⟨a, length⟩, got, rcvd⟩ := by
  obtain rfl : s.half d = h := congrArg View.half hview
  obtain rfl : (s.view d).rcvd = rcvd := congrArg View.rcvd hview
  obtain ⟨x, xs, hx, rfl, rfl⟩ := map_eq_cons_iff.mp (congrArg View.got hview)
  have hmem : x ∈ s.got d := by simp [hx]
  refine ⟨_, Transition.reachable_single (l := .send d ⟨x, length⟩ true) (if_pos hmem), ?_, ?_⟩ <;>
    rw [sblockSendEx, if_pos (hready d)]
  · exact hready.setTx (hready d)
  · rw [Sys.view_setTx_self (by exact Mgr.toStored_congr rfl rfl), returned, hx,
      erase_cons_head]
    rfl

theorem exists_receive (hready : Ready s) (hview : s.view d = ⟨h, got, rcvd⟩)
    (hne : h.ring.rdptr ≠ h.ring.wrptr) :
    ∃ s', Transition.Reachable step s s' ∧ Ready s' ∧
      s'.view d = ⟨h.popRing, got, (h.ring.blks (h.ringpos h.ring.rdptr)).addr :: rcvd⟩ := by
  obtain ⟨p, rfl⟩ : ∃ p : Party, d = p.peer := ⟨d.peer, d.peer_peer.symm⟩
  obtain rfl : s.half p.peer = h := congrArg View.half hview
  obtain rfl : (s.view p.peer).got = got := congrArg View.got hview
  obtain rfl : (s.view p.peer).rcvd = rcvd := congrArg View.rcvd hview
  refine ⟨_, Transition.reachable_single (l := .receive p) rfl, ?_, ?_⟩ <;>
    rw [sblockReceive, if_pos ⟨hne.symm, hready p⟩]
  · exact hready.setRx (hready p)
  · rw [Sys.view_setRx_peer (by exact Mgr.toStored_congr rfl rfl), taken, map_cons,
      Mgr.toStored_toVirt, Sys.view_peer_rcvd]
    rfl

theorem exists_release (hready : Ready s) (hview : s.view d = ⟨h, got, a :: rcvd⟩) :
    ∃ s', Transition.Reachable step s s' ∧ Ready s' ∧
      s'.view d = ⟨h.pushPool ⟨a, h.size⟩, got, rcvd⟩ := by
  obtain ⟨p, rfl⟩ : ∃ p : Party, d = p.peer := ⟨d.peer, d.peer_peer.symm⟩
  obtain rfl : s.half p.peer = h := congrArg View.half hview
  obtain rfl : (s.view p.peer).got = got := congrArg View.got hview
  have hrcvd := congrArg View.rcvd hview
  rw [Sys.view_peer_rcvd] at hrcvd
  obtain ⟨x, xs, hx, rfl, rfl⟩ := map_eq_cons_iff.mp hrcvd
  have hmem : x ∈ s.rcvd p := by simp [hx]
  refine ⟨_, Transition.reachable_single (l := .release p ⟨x, 0⟩) (if_pos hmem), ?_, ?_⟩ <;>
    rw [sblockRelease, if_pos (hready p)]
  · exact hready.setRx (hready p)
  · rw [Sys.view_setRx_peer (by exact Mgr.toStored_congr rfl rfl), returned, hx,
      erase_cons_head]
    rfl

end

def Half.roundTrip (h : Half) : Half :=
  let e : SblockBlks := ⟨(h.pool.blks (h.ringpos h.pool.rdptr)).addr, h.size⟩
  ((h.popPool.pushRing e).popRing).pushPool e

theorem exists_roundTrip {h : Half} (hready : Ready s) (hview : s.view d = ⟨h, [], []⟩)
    (hpool : h.pool.rdptr ≠ h.pool.wrptr) (hring : h.ring.rdptr = h.ring.wrptr) :
    ∃ s', Transition.Reachable step s s' ∧ Ready s' ∧ s'.view d = ⟨h.roundTrip, [], []⟩ := by
  obtain ⟨s₁, hrun₁, hready₁, hview₁⟩ := exists_get hready hview hpool
  obtain ⟨s₂, hrun₂, hready₂, hview₂⟩ := exists_send hready₁ hview₁ h.size
  have hne : h.ring.rdptr ≠ h.ring.wrptr + 1 := by
    rw [hring]
    grind
  obtain ⟨s₃, hrun₃, hready₃, hview₃⟩ := exists_receive hready₂ hview₂ hne
  obtain ⟨s₄, hrun₄, hready₄, hview₄⟩ := exists_release hready₃ hview₃
  refine ⟨s₄, ((hrun₁.trans hrun₂).trans hrun₃).trans hrun₄, hready₄, ?_⟩
  rw [hview₄, Half.roundTrip]
  -- the ring was empty, so the block received is the block sent
  have hsent : ∀ e, (h.popPool.pushRing e).ring.blks
      ((h.popPool.pushRing e).ringpos (h.popPool.pushRing e).ring.rdptr) = e := by
    intro e
    show update h.ring.blks (h.ringpos h.ring.wrptr) e (h.ringpos h.ring.rdptr) = e
    rw [hring, update_self]
  rw [hsent]
  rfl

/-- After `k` round trips: the window of the pool has moved by `k` counters, and every block is
still in the slot where it was put first. -/
structure Rounds (h₀ : Half) (k : Nat) (h : Half) : Prop where
  count : h.count = h₀.count
  rdptr : h.pool.rdptr.toNat = k
  wrptr : h.pool.wrptr = h.pool.rdptr + h₀.count
  ring : h.ring.rdptr = h.ring.wrptr
  blks : ∀ i < h₀.count.toNat, (h.pool.blks i).addr = h₀.addr + UInt32.ofNat i * h₀.size

variable {h₀ h : Half} {k : Nat}

theorem Rounds.rdptr_ne (hrounds : Rounds h₀ k h) (hn : 0 < h₀.count.toNat) :
    h.pool.rdptr ≠ h.pool.wrptr := by
  have hcount : h₀.count ≠ 0 := fun he => by simp [he] at hn
  rw [hrounds.wrptr]
  grind

theorem Rounds.ringpos_rdptr (hrounds : Rounds h₀ k h) :
    h.ringpos h.pool.rdptr = k % h₀.count.toNat := by
  rw [Half.ringpos_eq, hrounds.count, Ring.modSlot, hrounds.rdptr]

theorem Rounds.ringpos_wrptr (hrounds : Rounds h₀ k h) :
    h.ringpos h.pool.wrptr = (k + h₀.count.toNat) % 2 ^ 32 % h₀.count.toNat := by
  rw [Half.ringpos_eq, hrounds.count, Ring.modSlot, hrounds.wrptr, UInt32.toNat_add,
    hrounds.rdptr]

theorem Rounds.roundTrip (hrounds : Rounds h₀ k h) (hk : k + h₀.count.toNat < 2 ^ 32)
    (hn : 0 < h₀.count.toNat) : Rounds h₀ (k + 1) h.roundTrip where
  count := hrounds.count
  rdptr := by
    rw [← hrounds.rdptr]
    exact Ring.toNat_add_one (by rw [hrounds.rdptr]; omega)
  wrptr := by
    show h.pool.wrptr + 1 = h.pool.rdptr + 1 + h₀.count
    rw [hrounds.wrptr]
    grind
  ring := by
    show h.ring.rdptr + 1 = h.ring.wrptr + 1
    rw [hrounds.ring]
  blks := by
    intro i hi
    have hslot : h.ringpos h.pool.wrptr = h.ringpos h.pool.rdptr := by
      rw [hrounds.ringpos_wrptr, hrounds.ringpos_rdptr, Nat.mod_eq_of_lt hk, Nat.add_mod_right]
    show (update h.pool.blks (h.ringpos h.pool.wrptr)
      ⟨(h.pool.blks (h.ringpos h.pool.rdptr)).addr, h.size⟩ i).addr = _
    rw [hslot]
    by_cases he : i = h.ringpos h.pool.rdptr
    · rw [he, update_self, ← he, hrounds.blks i hi]
    · rw [update_of_ne he, hrounds.blks i hi]

theorem rounds_init (c : Config) (d : Party) :
    Rounds (hostInitHalf c d) 0 (hostInitHalf c d) := by
  cases d <;> exact ⟨rfl, rfl, (UInt32.zero_add _).symm, rfl, fun i hi => by
    simp only [hostInitHalf, newHalf, fullPool] at hi ⊢
    rw [if_pos hi]⟩

/-- Every number of round trips up to the wrap of the write counter is a run of the channel. -/
theorem exists_rounds (c : Config) (d : Party) (hn : 0 < (hostInitHalf c d).count.toNat) (k : Nat)
    (hk : k + (hostInitHalf c d).count.toNat ≤ 2 ^ 32) :
    ∃ s h, Reachable c s ∧ Ready s ∧ s.view d = ⟨h, [], []⟩ ∧ Rounds (hostInitHalf c d) k h := by
  induction k with
  | zero =>
    refine ⟨Sys.init c, hostInitHalf c d, .start, ?_, rfl, rounds_init c d⟩
    intro p
    cases p <;> rfl
  | succ k ih =>
    obtain ⟨s, h, hrun, hready, hview, hrounds⟩ := ih (by omega)
    obtain ⟨s', hrun', hready', hview'⟩ :=
      exists_roundTrip hready hview (hrounds.rdptr_ne hn) hrounds.ring
    exact ⟨s', h.roundTrip, hrun.trans hrun', hready', hview', hrounds.roundTrip (by omega) hn⟩

/-- At the wrap the release overwrites the entry of the first block, which no place holds any
more. -/
theorem Rounds.lost (hrounds : Rounds h₀ (2 ^ 32 - h₀.count.toNat) h)
    (hn : 0 < h₀.count.toNat) (hdvd : ¬h₀.count.toNat ∣ 2 ^ 32) (hnodup : h₀.blocks.Nodup) :
    ¬Conserved h₀ ⟨h.roundTrip, [], []⟩ := by
  intro hcons
  have hlt := h₀.count.toNat_lt
  have hfirst : ∀ i < h₀.count.toNat, i ≠ 0 →
      h₀.addr + UInt32.ofNat i * h₀.size ≠ h₀.addr + UInt32.ofNat 0 * h₀.size := by
    intro i hi hne he
    exact hne (inj_on_of_nodup_map hnodup (mem_range.mpr hi) (mem_range.mpr hn) he)
  have hwr : h.ringpos h.pool.wrptr = 0 := by
    rw [hrounds.ringpos_wrptr, Nat.sub_add_cancel hlt.le, Nat.mod_self, Nat.zero_mod]
  have hrd : h.ringpos h.pool.rdptr ≠ 0 := by
    rw [hrounds.ringpos_rdptr]
    intro he
    refine hdvd ((Nat.dvd_sub_iff_left hlt.le (Nat.dvd_refl _)).mp (Nat.dvd_of_mod_eq_zero he))
  have hrdlt : h.ringpos h.pool.rdptr < h₀.count.toNat := by
    rw [hrounds.ringpos_rdptr]
    exact Nat.mod_lt _ hn
  have hmem : h₀.addr + UInt32.ofNat 0 * h₀.size ∈ h₀.blocks :=
    List.mem_map_of_mem (mem_range.mpr hn)
  rw [← hcons.blocks.mem_iff] at hmem
  have hring : h.roundTrip.ringWindow = [] := by
    have he : h.roundTrip.ring.rdptr = h.roundTrip.ring.wrptr := by
      show h.ring.rdptr + 1 = h.ring.wrptr + 1
      rw [hrounds.ring]
    rw [Half.ringWindow, he, Ring.window_self]
  simp only [Flow.all, View.flow, hring, map_nil, append_nil] at hmem
  obtain ⟨e, he, haddr⟩ := List.mem_map.mp hmem
  obtain ⟨i, hi, rfl⟩ := List.mem_map.mp he
  obtain ⟨j, hj, rfl⟩ := Ring.mem_slots.mp hi
  have hslot : ∀ c, h.roundTrip.ringpos c < h₀.count.toNat := fun c => by
    rw [Half.ringpos_eq]
    exact (Nat.mod_lt _ (by rw [Half.roundTrip]; exact hrounds.count ▸ hn)).trans_eq
      (congrArg UInt32.toNat hrounds.count)
  have hlast := hslot (Ring.ahead h.roundTrip.pool.rdptr j)
  generalize h.roundTrip.ringpos (Ring.ahead h.roundTrip.pool.rdptr j) = i at haddr hlast
  have hblks : h.roundTrip.pool.blks =
      update h.pool.blks 0 ⟨(h.pool.blks (h.ringpos h.pool.rdptr)).addr, h.size⟩ := by
    rw [← hwr]
    rfl
  rw [hblks] at haddr
  by_cases hi0 : i = 0
  · rw [hi0, update_self, hrounds.blks _ hrdlt] at haddr
    exact hfirst _ hrdlt hrd haddr
  · rw [update_of_ne hi0, hrounds.blks _ hlast] at haddr
    exact hfirst _ hlast hi0 haddr

/-- A number of blocks that is neither zero nor a power of two loses a block in some run. -/
theorem exists_lost (c : Config) (d : Party) (hcount : (hostInitHalf c d).count ≠ 0)
    (hpow : ¬isPowerOf2 (hostInitHalf c d).count) :
    ∃ s, Reachable c s ∧ ¬Conserved (hostInitHalf c d) (s.view d) := by
  have hn : 0 < (hostInitHalf c d).count.toNat :=
    Nat.pos_of_ne_zero fun he => hcount (UInt32.toNat_inj.mp he)
  have hlt := (hostInitHalf c d).count.toNat_lt
  obtain ⟨s, h, hrun, hready, hview, hrounds⟩ :=
    exists_rounds c d hn (2 ^ 32 - (hostInitHalf c d).count.toNat) (by omega)
  obtain ⟨s', hrun', -, hview'⟩ :=
    exists_roundTrip hready hview (hrounds.rdptr_ne hn) hrounds.ring
  refine ⟨s', hrun.trans hrun', ?_⟩
  rw [hview']
  exact hrounds.lost hn (fun hdvd => hpow (isPowerOf2_iff_dvd.mpr hdvd)) (blocks_nodup c d)

/-- The blocks of a direction are conserved in every run exactly when their number is zero or a
power of two; for any other number they are conserved in the runs that carry no write counter past
`2^32 - 1`. -/
theorem conserved_iff (c : Config) (d : Party) :
    ((∀ s, Reachable c s → Conserved (hostInitHalf c d) (s.view d)) ↔
      (hostInitHalf c d).count = 0 ∨ isPowerOf2 (hostInitHalf c d).count = true) ∧
    ∀ s, Transition.Reaches step (fun s op => ¬Carries s op) (Sys.init c) s →
      Conserved (hostInitHalf c d) (s.view d) := by
  refine ⟨⟨fun hall => ?_, fun hcount s hrun => ?_⟩, fun s hrun => ?_⟩
  · by_contra hcount
    rw [not_or] at hcount
    obtain ⟨s, hrun, hlost⟩ := exists_lost c d hcount.1 hcount.2
    exact hlost (hall s hrun)
  · exact (Reaches.inv hrun (hcount.imp id .inl)).conserved (blocks_nodup c d)
  · exact (Reaches.inv hrun (.inr (.inr fun _ _ h => h))).conserved (blocks_nodup c d)

def threeBlocks : Config where
  txblocknum := 3
  txblocksize := 1600
  rxblocknum := 3
  rxblocksize := 1600
  dstSmemAddr := 0x87800000
  hostVirt := 0xffff000010000000
  clientVirt := 0xffff000020000000
  txblocksize_pos := by decide
  rxblocksize_pos := by decide
  fits := by decide

/-- A channel of three blocks loses one. -/
theorem not_conserved_threeBlocks :
    ¬∀ s, Reachable threeBlocks s →
      Conserved (hostInitHalf threeBlocks .host) (s.view .host) := by
  intro hall
  obtain ⟨s, hrun, hlost⟩ := exists_lost threeBlocks .host (by decide) (by decide)
  exact hlost (hall s hrun)

end ModemSupport.Sipc.Sblock
