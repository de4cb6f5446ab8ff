import ModemSupport.Sipc.Sblock
import Mathlib.Tactic.Ring

/-! Conservation of the blocks of one direction of a channel.  A direction is a circulation of
blocks through four places; each critical section moves one block of it, as long as no slot that
holds a live entry is overwritten, and the slots of a coherent window never are. -/

namespace ModemSupport.Sipc.Sblock

open Function ModemSupport.Lib List Option

/-- The four places of the blocks of a direction: the free ones, those of the sender, the sent
ones, and those of the receiver. -/
structure Flow (α : Type) where
  pool : List α
  got : List α
  ring : List α
  rcvd : List α

namespace Flow

variable {α : Type} {f g : Flow α}

def all (f : Flow α) : List α := f.pool ++ f.got ++ f.ring ++ f.rcvd

/-- What a call does to the blocks: the pool serves from its front, takes back at its front what
the sender returns and at its end what the receiver releases; the ring is first in, first out. -/
inductive Step : Flow α → Flow α → Prop
  | stay (f : Flow α) : Step f f
  | get (a : α) (pool got ring rcvd : List α) :
    Step ⟨a :: pool, got, ring, rcvd⟩ ⟨pool, a :: got, ring, rcvd⟩
  | put {a : α} {got got' : List α} (h : got.Perm (a :: got')) (pool ring rcvd : List α) :
    Step ⟨pool, got, ring, rcvd⟩ ⟨a :: pool, got', ring, rcvd⟩
  | send {a : α} {got got' : List α} (h : got.Perm (a :: got')) (pool ring rcvd : List α) :
    Step ⟨pool, got, ring, rcvd⟩ ⟨pool, got', ring ++ [a], rcvd⟩
  | receive (a : α) (pool got ring rcvd : List α) :
    Step ⟨pool, got, a :: ring, rcvd⟩ ⟨pool, got, ring, a :: rcvd⟩
  | release {a : α} {rcvd rcvd' : List α} (h : rcvd.Perm (a :: rcvd')) (pool got ring : List α) :
    Step ⟨pool, got, ring, rcvd⟩ ⟨pool ++ [a], got, ring, rcvd'⟩

theorem all_perm_iff [DecidableEq α] {l : List α} :
    f.all.Perm l ↔
      ∀ a, f.pool.count a + f.got.count a + f.ring.count a + f.rcvd.count a = l.count a := by
  rw [perm_iff_count]
  simp only [all, count_append]

theorem Step.all_perm (h : Step f g) : g.all.Perm f.all := by
  classical
  rw [all_perm_iff]
  intro b
  cases h with
  | stay =>
    simp only [all, count_append]
  | get a pool got ring rcvd =>
    simp only [all, count_append, count_cons]
    omega
  | put h pool ring rcvd =>
    simp only [all, count_append, count_cons, h.count_eq]
    omega
  | send h pool ring rcvd =>
    simp only [all, count_append, count_cons, h.count_eq, count_nil]
    omega
  | receive a pool got ring rcvd =>
    simp only [all, count_append, count_cons]
    omega
  | release h pool got ring =>
    simp only [all, count_append, count_cons, h.count_eq, count_nil]
    omega

end Flow

/-- The free entries, as `sblock_get` reads them. -/
def Half.poolWindow (h : Half) : List SblockBlks :=
  Ring.window h.ringpos h.pool.blks h.pool.rdptr h.pool.wrptr

/-- The sent entries, as `sblock_receive` reads them. -/
def Half.ringWindow (h : Half) : List SblockBlks :=
  Ring.window h.ringpos h.ring.blks h.ring.rdptr h.ring.wrptr

def Half.poolSlots (h : Half) : List Nat :=
  Ring.slots h.ringpos h.pool.rdptr (Ring.fill h.pool.rdptr h.pool.wrptr)

def Half.ringSlots (h : Half) : List Nat :=
  Ring.slots h.ringpos h.ring.rdptr (Ring.fill h.ring.rdptr h.ring.wrptr)

/-- One direction: its shared memory, and the stored addresses of the blocks in the hands of its
sender and of its receiver. -/
structure View where
  half : Half
  got : List UInt32
  rcvd : List UInt32

def Sys.view (s : Sys) (d : Party) : View where
  half := s.half d
  got := (s.got d).map (s.mgr d).toStored
  rcvd := (s.rcvd d.peer).map (s.mgr d.peer).toStored

def View.flow (v : View) : Flow UInt32 where
  pool := v.half.poolWindow.map (·.addr)
  got := v.got
  ring := v.half.ringWindow.map (·.addr)
  rcvd := v.rcvd

def Half.blocks (h : Half) : List UInt32 :=
  (List.range h.count.toNat).map fun i => h.addr + UInt32.ofNat i * h.size

/-- Every block of the half `h` is in one of the four places, once; neither window holds more than
`tx_count` entries; and no call that may come next overwrites the slot of a live entry. -/
structure Conserved (h : Half) (v : View) : Prop where
  blocks : v.flow.all.Perm h.blocks
  nodup : v.flow.all.Nodup
  pool_le : v.half.poolWindow.length ≤ h.count.toNat
  ring_le : v.half.ringWindow.length ≤ h.count.toNat
  put_fresh : v.got ≠ [] → v.half.ringpos (v.half.pool.rdptr - 1) ∉ v.half.poolSlots
  send_fresh : v.got ≠ [] → v.half.ringpos v.half.ring.wrptr ∉ v.half.ringSlots
  release_fresh : v.rcvd ≠ [] → v.half.ringpos v.half.pool.wrptr ∉ v.half.poolSlots

def Carries (s : Sys) : Op → Prop
  | .send p _ _ => (s.half p).ring.wrptr.toNat + 1 = 2 ^ 32
  | .release p _ => (s.half p.peer).pool.wrptr.toNat + 1 = 2 ^ 32
  | _ => False

namespace Half

variable (h : Half) (e : SblockBlks)

def popPool : Half := { h with pool := { h.pool with rdptr := h.pool.rdptr + 1 } }

def unshiftPool : Half :=
  { h with
    pool :=
      { h.pool with
        blks := update h.pool.blks (h.ringpos (h.pool.rdptr - 1)) e
        rdptr := h.pool.rdptr - 1 } }

def pushPool : Half :=
  { h with
    pool :=
      { h.pool with
        blks := update h.pool.blks (h.ringpos h.pool.wrptr) e
        wrptr := h.pool.wrptr + 1 } }

def popRing : Half := { h with ring := { h.ring with rdptr := h.ring.rdptr + 1 } }

def pushRing : Half :=
  { h with
    ring :=
      { h.ring with
        blks := update h.ring.blks (h.ringpos h.ring.wrptr) e
        wrptr := h.ring.wrptr + 1 } }

variable {h} {e}

theorem poolWindow_popPool (hne : h.pool.rdptr ≠ h.pool.wrptr) :
    h.poolWindow = h.pool.blks (h.ringpos h.pool.rdptr) :: h.popPool.poolWindow :=
  Ring.window_pop hne

theorem poolWindow_unshiftPool (hroom : Ring.fill h.pool.rdptr h.pool.wrptr + 1 < 2 ^ 32)
    (hfresh : h.ringpos (h.pool.rdptr - 1) ∉ h.poolSlots) :
    (h.unshiftPool e).poolWindow = e :: h.poolWindow :=
  Ring.window_unshift hroom hfresh

theorem poolWindow_pushPool (hroom : Ring.fill h.pool.rdptr h.pool.wrptr + 1 < 2 ^ 32)
    (hfresh : h.ringpos h.pool.wrptr ∉ h.poolSlots) :
    (h.pushPool e).poolWindow = h.poolWindow ++ [e] :=
  Ring.window_push hroom hfresh

theorem ringWindow_popRing (hne : h.ring.rdptr ≠ h.ring.wrptr) :
    h.ringWindow = h.ring.blks (h.ringpos h.ring.rdptr) :: h.popRing.ringWindow :=
  Ring.window_pop hne

theorem ringWindow_pushRing (hroom : Ring.fill h.ring.rdptr h.ring.wrptr + 1 < 2 ^ 32)
    (hfresh : h.ringpos h.ring.wrptr ∉ h.ringSlots) :
    (h.pushRing e).ringWindow = h.ringWindow ++ [e] :=
  Ring.window_push hroom hfresh

end Half

/-- What one critical section does to a direction; `carry` says that it carries a write
counter past `2^32 - 1`. -/
inductive Moves (carry : Prop) : View → View → Prop
  | stay (v : View) : Moves carry v v
  | get (v : View) (hne : v.half.pool.rdptr ≠ v.half.pool.wrptr) :
    Moves carry v
      { v with
        half := v.half.popPool
        got := (v.half.pool.blks (v.half.ringpos v.half.pool.rdptr)).addr :: v.got }
  | put (v : View) (e : SblockBlks) (got' : List UInt32) (hgot : v.got.Perm (e.addr :: got')) :
    Moves carry v { v with half := v.half.unshiftPool e, got := got' }
  | send (v : View) (e : SblockBlks) (got' : List UInt32) (hgot : v.got.Perm (e.addr :: got'))
      (hc : v.half.ring.wrptr.toNat + 1 = 2 ^ 32 → carry) :
    Moves carry v { v with half := v.half.pushRing e, got := got' }
  | receive (v : View) (hne : v.half.ring.rdptr ≠ v.half.ring.wrptr) :
    Moves carry v
      { v with
        half := v.half.popRing
        rcvd := (v.half.ring.blks (v.half.ringpos v.half.ring.rdptr)).addr :: v.rcvd }
  | release (v : View) (e : SblockBlks) (rcvd' : List UInt32)
      (hrcvd : v.rcvd.Perm (e.addr :: rcvd'))
      (hc : v.half.pool.wrptr.toNat + 1 = 2 ^ 32 → carry) :
    Moves carry v { v with half := v.half.pushPool e, rcvd := rcvd' }

section

variable {s s' : Sys} {p d : Party} {m : Mgr} {h : Half} {hand : List UInt64}

theorem Sys.view_peer_rcvd : (s.view p.peer).rcvd = (s.rcvd p).map (s.mgr p).toStored := by
  simp [Sys.view]

theorem Sys.view_setTx_self (hm : m.toStored = (s.mgr p).toStored) :
    (s.setTx p m h hand).view p =
      { s.view p with half := h, got := hand.map (s.mgr p).toStored } := by
  simp [Sys.view, Sys.setTx, hm]

theorem Sys.view_setTx_peer (hm : m.toStored = (s.mgr p).toStored) :
    (s.setTx p m h hand).view p.peer = s.view p.peer := by
  simp [Sys.view, Sys.setTx, hm]

theorem Sys.view_setRx_peer (hm : m.toStored = (s.mgr p).toStored) :
    (s.setRx p m h hand).view p.peer =
      { s.view p.peer with half := h, rcvd := hand.map (s.mgr p).toStored } := by
  simp [Sys.view, Sys.setRx, hm]

theorem Sys.view_setRx_self (hm : m.toStored = (s.mgr p).toStored) :
    (s.setRx p m h hand).view p = s.view p := by
  simp [Sys.view, Sys.setRx, hm]

theorem Moves.setTx {carry : Prop} (hm : m.toStored = (s.mgr p).toStored)
    (hself : Moves carry (s.view p)
      { s.view p with half := h, got := hand.map (s.mgr p).toStored }) (d : Party) :
    Moves carry (s.view d) ((s.setTx p m h hand).view d) := by
  rcases p.eq_or_eq_peer d with rfl | rfl
  · rw [Sys.view_setTx_self hm]
    exact hself
  · rw [Sys.view_setTx_peer hm]
    exact .stay _

theorem Moves.setRx {carry : Prop} (hm : m.toStored = (s.mgr p).toStored)
    (hpeer : Moves carry (s.view p.peer)
      { s.view p.peer with half := h, rcvd := hand.map (s.mgr p).toStored }) (d : Party) :
    Moves carry (s.view d) ((s.setRx p m h hand).view d) := by
  rcases p.eq_or_eq_peer d with rfl | rfl
  · rw [Sys.view_setRx_self hm]
    exact .stay _
  · rw [Sys.view_setRx_peer hm]
    exact hpeer

theorem ne_nil_of_perm_cons {α : Type} {a : α} {l l' : List α} (h : l.Perm (a :: l')) : l ≠ [] := by
  rintro rfl
  exact absurd h.length_eq (by simp)

theorem map_perm_cons_erase {a : UInt64} {l : List UInt64} (f : UInt64 → UInt32) (h : a ∈ l) :
    (l.map f).Perm (f a :: (l.erase a).map f) :=
  (perm_cons_erase h).map f

theorem step_moves {op : Op} (hstep : step s op = some s') (d : Party) :
    Moves (Carries s op) (s.view d) (s'.view d) := by
  cases op with
  | getPoll p =>
    obtain rfl := some.inj hstep
    refine .setTx ?_ ?_ d
    · rw [sblockGetPoll]
      split <;> exact Mgr.toStored_congr rfl rfl
    · exact .stay (s.view p)
  | get p =>
    obtain rfl := some.inj hstep
    by_cases hok : (s.half p).pool.rdptr ≠ (s.half p).pool.wrptr ∧ (s.mgr p).state = .ready
    · rw [sblockGet, if_pos hok]
      refine .setTx ?_ ?_ d
      · exact Mgr.toStored_congr rfl rfl
      · rw [taken, map_cons, Mgr.toStored_toVirt]
        exact .get (s.view p) hok.1
    · rw [sblockGet, if_neg hok]
      refine .setTx ?_ ?_ d
      · exact Mgr.toStored_congr rfl rfl
      · exact .stay (s.view p)
  | put p blk =>
    rw [step] at hstep
    split at hstep
    next hmem =>
      obtain rfl := some.inj hstep
      refine .setTx ?_ ?_ d
      · exact Mgr.toStored_congr rfl rfl
      · exact .put (s.view p) ⟨(s.mgr p).toStored blk.addr, (s.half p).size⟩ _
          (map_perm_cons_erase _ hmem)
    next => cases hstep
  | send p blk yell =>
    rw [step] at hstep
    split at hstep
    next hmem =>
      obtain rfl := some.inj hstep
      by_cases hok : (s.mgr p).state = .ready
      · rw [sblockSendEx, if_pos hok]
        refine .setTx ?_ ?_ d
        · exact Mgr.toStored_congr rfl rfl
        · exact .send (s.view p) ⟨(s.mgr p).toStored blk.addr, blk.length⟩ _
            (map_perm_cons_erase _ hmem) id
      · rw [sblockSendEx, if_neg hok]
        exact .setTx rfl (.stay (s.view p)) d
    next => cases hstep
  | receivePoll p =>
    obtain rfl := some.inj hstep
    refine .setRx ?_ ?_ d
    · rw [sblockReceivePoll]
      split <;> exact Mgr.toStored_congr rfl rfl
    · rw [← Sys.view_peer_rcvd]
      exact .stay (s.view p.peer)
  | receive p =>
    obtain rfl := some.inj hstep
    by_cases hok : (s.half p.peer).ring.wrptr ≠ (s.half p.peer).ring.rdptr ∧
        (s.mgr p).state = .ready
    · rw [sblockReceive, if_pos hok]
      refine .setRx ?_ ?_ d
      · exact Mgr.toStored_congr rfl rfl
      · rw [taken, map_cons, Mgr.toStored_toVirt, ← Sys.view_peer_rcvd]
        exact .receive (s.view p.peer) hok.1.symm
    · rw [sblockReceive, if_neg hok]
      refine .setRx ?_ ?_ d
      · exact Mgr.toStored_congr rfl rfl
      · rw [taken, ← Sys.view_peer_rcvd]
        exact .stay (s.view p.peer)
  | release p blk =>
    rw [step] at hstep
    split at hstep
    next hmem =>
      obtain rfl := some.inj hstep
      have hperm := map_perm_cons_erase (s.mgr p).toStored hmem
      by_cases hok : (s.mgr p).state = .ready
      · rw [sblockRelease, if_pos hok]
        refine .setRx ?_ ?_ d
        · exact Mgr.toStored_congr rfl rfl
        · rw [← Sys.view_peer_rcvd] at hperm
          exact .release (s.view p.peer)
            ⟨(s.mgr p).toStored blk.addr, (s.half p.peer).size⟩ _ hperm id
      · rw [sblockRelease, if_neg hok]
        refine .setRx rfl ?_ d
        rw [returned, ← Sys.view_peer_rcvd]
        exact .stay (s.view p.peer)
    next => cases hstep

end

/-- No counter of the direction has wrapped: the windows start below their ends, and the blocks
taken from the pool are those in the sender's hands and those sent. -/
structure Unwrapped (v : View) : Prop where
  pool_le : v.half.pool.rdptr.toNat ≤ v.half.pool.wrptr.toNat
  ring_le : v.half.ring.rdptr.toNat ≤ v.half.ring.wrptr.toNat
  taken : v.half.pool.rdptr.toNat = v.got.length + v.half.ring.wrptr.toNat

/-- The invariant of a direction laid out as `h₀`. -/
structure Inv (h₀ : Half) (v : View) : Prop where
  count : v.half.count = h₀.count
  blocks : v.flow.all.Perm h₀.blocks
  coherent : h₀.count.toNat ∣ 2 ^ 32 ∨ Unwrapped v

namespace Inv

variable {h₀ : Half} {v v' : View} {carry : Prop}

theorem length_eq (hinv : Inv h₀ v) :
    Ring.fill v.half.pool.rdptr v.half.pool.wrptr + v.got.length +
      Ring.fill v.half.ring.rdptr v.half.ring.wrptr + v.rcvd.length = h₀.count.toNat := by
  simpa [View.flow, Flow.all, Half.poolWindow, Half.ringWindow, Half.blocks, ← Nat.add_assoc]
    using hinv.blocks.length_eq

theorem ringpos_eq (hinv : Inv h₀ v) : v.half.ringpos = Ring.modSlot h₀.count.toNat := by
  rw [Half.ringpos_eq, hinv.count]

theorem put_fresh (hinv : Inv h₀ v) (hgot : v.got ≠ []) :
    v.half.ringpos (v.half.pool.rdptr - 1) ∉ v.half.poolSlots := by
  have hlen := hinv.length_eq
  have hpos := length_pos_iff.mpr hgot
  rw [Half.poolSlots, hinv.ringpos_eq]
  refine Ring.Coherent.fresh_unshift (hinv.coherent.imp id fun hun => ?_) (by omega)
  have hrd := hun.taken
  rw [Ring.toNat_sub_one (by omega), Ring.fill_of_le hun.pool_le]
  have := v.half.pool.wrptr.toNat_lt
  have := hun.pool_le
  omega

theorem send_fresh (hinv : Inv h₀ v) (hgot : v.got ≠ []) :
    v.half.ringpos v.half.ring.wrptr ∉ v.half.ringSlots := by
  have hlen := hinv.length_eq
  have hpos := length_pos_iff.mpr hgot
  rw [Half.ringSlots, hinv.ringpos_eq]
  refine Ring.Coherent.fresh_wrptr (hinv.coherent.imp id fun hun => ?_) (by omega)
  rw [Ring.fill_of_le hun.ring_le]
  have := v.half.ring.wrptr.toNat_lt
  have := hun.ring_le
  omega

theorem release_fresh (hinv : Inv h₀ v) (hrcvd : v.rcvd ≠ []) :
    v.half.ringpos v.half.pool.wrptr ∉ v.half.poolSlots := by
  have hlen := hinv.length_eq
  have hpos := length_pos_iff.mpr hrcvd
  rw [Half.poolSlots, hinv.ringpos_eq]
  refine Ring.Coherent.fresh_wrptr (hinv.coherent.imp id fun hun => ?_) (by omega)
  rw [Ring.fill_of_le hun.pool_le]
  have := v.half.pool.wrptr.toNat_lt
  have := hun.pool_le
  omega

theorem flow_step (hinv : Inv h₀ v) (hmove : Moves carry v v') :
    Flow.Step v.flow v'.flow := by
  have hlen := hinv.length_eq
  have hn := h₀.count.toNat_lt
  cases hmove with
  | stay => exact .stay _
  | get hne =>
    rw [View.flow, Half.poolWindow_popPool hne]
    exact .get _ _ _ _ _
  | put e got' hgot =>
    have hne := ne_nil_of_perm_cons hgot
    have hpos := length_pos_iff.mpr hne
    rw [View.flow, View.flow, Half.poolWindow_unshiftPool (by omega) (hinv.put_fresh hne)]
    exact .put hgot _ _ _
  | send e got' hgot =>
    have hne := ne_nil_of_perm_cons hgot
    have hpos := length_pos_iff.mpr hne
    rw [View.flow, View.flow, Half.ringWindow_pushRing (by omega) (hinv.send_fresh hne),
      map_append]
    exact .send hgot _ _ _
  | receive hne =>
    rw [View.flow, Half.ringWindow_popRing hne]
    exact .receive _ _ _ _ _
  | release e rcvd' hrcvd =>
    have hne := ne_nil_of_perm_cons hrcvd
    have hpos := length_pos_iff.mpr hne
    rw [View.flow, View.flow, Half.poolWindow_pushPool (by omega) (hinv.release_fresh hne),
      map_append]
    exact .release hrcvd _ _ _

/-- The invariant is kept by every move that carries no write counter, and by every move when the
number of blocks divides `2^32` or there are none. -/
theorem move (hinv : Inv h₀ v) (hmove : Moves carry v v')
    (hok : h₀.count.toNat ∣ 2 ^ 32 ∨ h₀.count.toNat = 0 ∨ ¬carry) : Inv h₀ v' := by
  refine ⟨?_, (hinv.flow_step hmove).all_perm.trans hinv.blocks, ?_⟩
  · cases hmove <;> exact hinv.count
  rcases hinv.coherent with hdvd | hun
  · exact .inl hdvd
  by_cases hdvd : h₀.count.toNat ∣ 2 ^ 32
  · exact .inl hdvd
  have hlen := hinv.length_eq
  obtain ⟨hpool, hring, htaken⟩ := hun
  have hpoolwr := v.half.pool.wrptr.toNat_lt
  have hringwr := v.half.ring.wrptr.toNat_lt
  refine .inr ?_
  cases hmove with
  | stay => exact ⟨hpool, hring, htaken⟩
  | get hne =>
    have hne' : v.half.pool.rdptr.toNat ≠ v.half.pool.wrptr.toNat :=
      fun he => hne (UInt32.toNat_inj.mp he)
    have hrd := Ring.toNat_add_one (n := v.half.pool.rdptr) (by omega)
    refine ⟨?_, hring, ?_⟩ <;> simp only [Half.popPool, length_cons, hrd] <;> omega
  | put e got' hgot =>
    have hgotlen := hgot.length_eq
    rw [length_cons] at hgotlen
    have hrd := Ring.toNat_sub_one (n := v.half.pool.rdptr) (by omega)
    refine ⟨?_, hring, ?_⟩ <;> simp only [Half.unshiftPool, hrd] <;> omega
  | send e got' hgot hc =>
    have hgotlen := hgot.length_eq
    rw [length_cons] at hgotlen
    have hnc : ¬carry := by
      rcases hok with h | h | h
      · exact absurd h hdvd
      · omega
      · exact h
    have hlt : v.half.ring.wrptr.toNat + 1 ≠ 2 ^ 32 := fun h => hnc (hc h)
    have hwr := Ring.toNat_add_one (n := v.half.ring.wrptr) (by omega)
    refine ⟨hpool, ?_, ?_⟩ <;> simp only [Half.pushRing, hwr] <;> omega
  | receive hne =>
    have hne' : v.half.ring.rdptr.toNat ≠ v.half.ring.wrptr.toNat :=
      fun he => hne (UInt32.toNat_inj.mp he)
    have hrd := Ring.toNat_add_one (n := v.half.ring.rdptr) (by omega)
    refine ⟨hpool, ?_, htaken⟩
    simp only [Half.popRing, hrd]
    omega
  | release e rcvd' hrcvd hc =>
    have hrcvdlen := hrcvd.length_eq
    rw [length_cons] at hrcvdlen
    have hnc : ¬carry := by
      rcases hok with h | h | h
      · exact absurd h hdvd
      · omega
      · exact h
    have hlt : v.half.pool.wrptr.toNat + 1 ≠ 2 ^ 32 := fun h => hnc (hc h)
    have hwr := Ring.toNat_add_one (n := v.half.pool.wrptr) (by omega)
    refine ⟨?_, hring, htaken⟩
    simp only [Half.pushPool, hwr]
    omega

theorem conserved (hinv : Inv h₀ v) (hnodup : h₀.blocks.Nodup) : Conserved h₀ v := by
  have hlen := hinv.length_eq
  refine ⟨hinv.blocks, hinv.blocks.nodup_iff.mpr hnodup, ?_, ?_, hinv.put_fresh, hinv.send_fresh,
    hinv.release_fresh⟩
  · rw [Half.poolWindow, Ring.window_length]
    omega
  · rw [Half.ringWindow, Ring.window_length]
    omega

end Inv

theorem hostInitHalf_fits (c : Config) (d : Party) :
    0 < (hostInitHalf c d).size.toNat ∧
      (hostInitHalf c d).count.toNat * (hostInitHalf c d).size.toNat +
        16 * (hostInitHalf c d).count.toNat < 2 ^ 32 := by
  have htx := UInt32.lt_iff_toNat_lt.mp c.txblocksize_pos
  have hrx := UInt32.lt_iff_toNat_lt.mp c.rxblocksize_pos
  have hfits := c.fits
  cases d with
  | host => exact ⟨htx, by simp only [hostInitHalf, newHalf]; omega⟩
  | client => exact ⟨hrx, by simp only [hostInitHalf, newHalf]; omega⟩

theorem blocks_nodup (c : Config) (d : Party) : (hostInitHalf c d).blocks.Nodup := by
  obtain ⟨hpos, hfits⟩ := hostInitHalf_fits c d
  refine Nodup.map_on (fun i hi j hj he => ?_) nodup_range
  rw [mem_range] at hi hj
  have hlt : ∀ k < (hostInitHalf c d).count.toNat,
      (UInt32.ofNat k * (hostInitHalf c d).size).toNat = k * (hostInitHalf c d).size.toNat := by
    intro k hk
    have hle := Nat.mul_le_mul_right (hostInitHalf c d).size.toNat hk.le
    rw [UInt32.toNat_mul, UInt32.toNat_ofNat', Nat.mod_eq_of_lt (show k < 2 ^ 32 by omega),
      Nat.mod_eq_of_lt (by omega)]
  have hmul := congrArg UInt32.toNat ((UInt32.add_right_inj _).mp he)
  rw [hlt i hi, hlt j hj] at hmul
  exact Nat.eq_of_mul_eq_mul_right hpos hmul

theorem fullPool_window (h : Half) (hpool : h.pool = fullPool h.addr h.count h.size) :
    h.poolWindow.map (·.addr) = h.blocks := by
  rw [Half.poolWindow, hpool, h.ringpos_eq, Half.blocks, Ring.window, Ring.slots, fullPool,
    Ring.fill_of_le (by simp), List.map_map, List.map_map]
  refine map_congr_left fun i hi => ?_
  have hlt : i < h.count.toNat := by simpa using hi
  have hn := h.count.toNat_lt
  have hslot : Ring.modSlot h.count.toNat (Ring.ahead 0 i) = i := by
    rw [Ring.modSlot, Ring.ahead_toNat, UInt32.toNat_zero, Nat.zero_add,
      Nat.mod_eq_of_lt (show i < 2 ^ 32 by omega), Nat.mod_eq_of_lt hlt]
  simp [hslot, hlt]

theorem init_inv (c : Config) (d : Party) :
    Inv (hostInitHalf c d) ((Sys.init c).view d) where
  count := rfl
  blocks := by
    have hwindow : (hostInitHalf c d).poolWindow.map (·.addr) = (hostInitHalf c d).blocks :=
      fullPool_window _ (by cases d <;> rfl)
    have hring : (hostInitHalf c d).ringWindow = [] := by
      cases d <;> exact Ring.window_self
    simp [View.flow, Flow.all, Sys.view, Sys.init, hwindow, hring]
  coherent := .inr (by cases d <;> constructor <;> simp [Sys.view, Sys.init, hostInitHalf, newHalf,
    fullPool, emptyRing])

/-- Conservation over whole runs: when the number of blocks is zero or a power of two the blocks
are conserved whatever the interleaving, and otherwise as long as no write counter wraps. -/
theorem Reaches.inv {c : Config} {d : Party} {ok : Sys → Op → Prop} {s : Sys}
    (hrun : Transition.Reaches step ok (Sys.init c) s)
    (hok : (hostInitHalf c d).count = 0 ∨ isPowerOf2 (hostInitHalf c d).count ∨
      ∀ s op, ok s op → ¬Carries s op) : Inv (hostInitHalf c d) (s.view d) := by
  refine hrun.invariant (P := fun s => Inv (hostInitHalf c d) (s.view d)) (init_inv c d) ?_
  intro s op s' hinv hop hstep
  refine hinv.move (step_moves hstep d) ?_
  rcases hok with h | h | h
  · exact .inr (.inl (by simp [h]))
  · exact .inl (isPowerOf2_iff_dvd.mp h)
  · exact .inr (.inr (h s op hop))

end ModemSupport.Sipc.Sblock
