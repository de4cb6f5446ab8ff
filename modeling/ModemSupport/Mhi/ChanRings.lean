import ModemSupport.Mhi.Chan
import ModemSupport.Lib.Transition

/-! The two rings of a channel move together, and the buffers that it accepts leave it once each
and in order. -/

namespace ModemSupport.Mhi

open ModemSupport.Lib List Option

section

variable {cfg : ChanCfg} {fn : QueueFn} {loop : Loop} {rest : List QueueOp} {ops : List RoundOp}

theorem suffix_of_cons {α : Type} {a : α} {l m : List α} (h : a :: l <:+ m) : l <:+ m :=
  (suffix_cons a l).trans h

theorem QueueFn.after_genTre (h : .genTre :: rest <:+ fn.body) :
    .isRingFull ∉ rest ∧ .genTre ∉ rest ∧ .addElements ∈ rest := by
  cases fn <;> simp [QueueFn.body, suffix_cons_iff] at h <;> simp [h]

theorem QueueFn.after_addElements (h : .addElements :: rest <:+ fn.body) :
    .isRingFull ∉ rest ∧ .genTre ∉ rest ∧ .addElements ∉ rest := by
  cases fn <;> simp [QueueFn.body, suffix_cons_iff] at h <;> simp [h]

theorem QueueFn.after_isRingFull (h : .isRingFull :: rest <:+ fn.body) : .genTre ∈ rest := by
  cases fn <;> simp [QueueFn.body, suffix_cons_iff] at h <;> simp [h]

theorem Loop.after_del (h : .del :: ops <:+ loop.body cfg) :
    .del ∉ ops ∧ (.xferCb ∈ ops ∨ .resetCb ∈ ops) ∧ (loop = .reset → .xferCb ∉ ops) := by
  cases loop <;> cases hpre : cfg.preAlloc <;>
    simp [Loop.body, hpre, suffix_cons_iff] at h <;> simp [h]

theorem Loop.after_xferCb (h : .xferCb :: ops <:+ loop.body cfg) :
    .del ∉ ops ∧ .xferCb ∉ ops ∧ .resetCb ∉ ops := by
  cases loop <;> cases hpre : cfg.preAlloc <;>
    simp [Loop.body, hpre, suffix_cons_iff] at h <;> simp [h]

theorem Loop.at_recycle {op : RoundOp} (h : op :: ops <:+ loop.body cfg)
    (hop : op = .recycle ∨ op = .recycled) :
    .del ∉ op :: ops ∧ .xferCb ∉ op :: ops ∧ .resetCb ∉ op :: ops := by
  rcases hop with rfl | rfl <;> cases loop <;> cases hpre : cfg.preAlloc <;>
    simp [Loop.body, hpre, suffix_cons_iff] at h <;> simp [h]

theorem Loop.after_resetCb (h : .resetCb :: ops <:+ loop.body cfg) : ops = [] := by
  cases loop <;> cases hpre : cfg.preAlloc <;>
    simp [Loop.body, hpre, suffix_cons_iff] at h <;> simp [h]

end

/-- What a client is told of an element, and how long it is. -/
def BufInfo.view (info : BufInfo) : Nat × Nat := (info.cbBuf, info.len)

def Chan.slots (ch : Chan) : Nat → Nat × Nat := BufInfo.view ∘ ch.infos

/-- The number of buffers taken off the rings that their client does not have yet. -/
def Round.inHand (r : Round) : Nat :=
  if .del ∉ r.rest ∧ (.xferCb ∈ r.rest ∨ .resetCb ∈ r.rest) then 1 else 0

def Chan.inHand (ch : Chan) : Nat := ch.round.elim 0 Round.inHand

structure RingsAt (cfg : ChanCfg) (ch : Chan) : Prop where
  tre : ch.treRing.At cfg.elements ch.hist.taken ch.hist.accepted.length
  buf : ch.bufRing.At cfg.elements ch.hist.taken ch.hist.accepted.length
  base : ch.treRing.base = cfg.treBase
  iommuBase : ch.treRing.iommuBase = cfg.iommuBase
  elSize : ch.treRing.elSize = sizeofMhiTre
  taken_le : ch.hist.taken ≤ ch.hist.accepted.length
  accepted_lt : ch.hist.accepted.length < ch.hist.taken + cfg.elements
  holds : Ring.Holds cfg.elements ch.slots ch.hist.accepted (ch.hist.taken - 1)

/-- A queue call that has `rest` left to do has room for its element once it has looked at the ring,
and its element is in place once it has written it. -/
structure CallOk (n : Nat) (hist : ChanHist) (slots : Nat → Nat × Nat) (fn : QueueFn)
    (entry : Nat × Nat) (rest : List QueueOp) : Prop where
  fits : rest <:+ fn.body ∨ rest = [.mapError]
  room : .isRingFull ∉ rest → .addElements ∈ rest → hist.accepted.length + 1 < hist.taken + n
  filled : .genTre ∉ rest → .addElements ∈ rest → slots (hist.accepted.length % n) = entry

/-- A round takes the oldest element, and only one that its event or the write pointer covers. -/
structure RoundOk (cfg : ChanCfg) (hist : ChanHist) (r : Round) : Prop where
  fits : r.rest <:+ r.loop.body cfg
  ahead : .del ∈ r.rest → hist.taken < hist.accepted.length ∧ r.bufInfo = hist.taken % cfg.elements
  behind : .del ∉ r.rest → r.rest ≠ [] →
    0 < hist.taken ∧ r.bufInfo = (hist.taken - 1) % cfg.elements
  target : ∀ devRp status xferLen, r.loop = .parse devRp status xferLen →
    ∃ x, hist.taken ≤ x ∧ x ≤ hist.accepted.length ∧
      devRp = cfg.treBase + x % cfg.elements * sizeofMhiTre ∧ (.del ∈ r.rest → hist.taken < x)
  result : .xferCb ∈ r.rest → .del ∉ r.rest →
    hist.accepted[hist.taken - 1]?.map Prod.fst = some r.result.bufAddr

structure Inv (cfg : ChanCfg) (ch : Chan) : Prop where
  rings : RingsAt cfg ch
  call : ∀ c, ch.call = some c →
    CallOk cfg.elements ch.hist ch.slots c.fn (c.req.buf, c.req.len) c.rest
  round : ∀ r, ch.round = some r → RoundOk cfg ch.hist r
  completed : ch.hist.completed.map Done.buf =
    (ch.hist.accepted.take (ch.hist.taken - ch.inHand)).map Prod.fst

section

variable {n : Nat} {hist : ChanHist} {slots : Nat → Nat × Nat} {fn : QueueFn} {entry : Nat × Nat}
  {op : QueueOp} {rest : List QueueOp}

theorem CallOk.done : CallOk n hist slots fn entry [] where
  fits := .inl (nil_suffix)
  room _ h := by cases h
  filled _ h := by cases h

theorem CallOk.start (h : fn = .prepare → hist.accepted.length + 1 < hist.taken + n) :
    CallOk n hist slots fn entry fn.body where
  fits := .inl suffix_rfl
  room := by cases fn <;> simp_all [QueueFn.body]
  filled := by cases fn <;> simp [QueueFn.body]

theorem CallOk.suffix (h : CallOk n hist slots fn entry (op :: rest)) (hop : op ≠ .mapError) :
    op :: rest <:+ fn.body := by
  rcases h.fits with hfits | hfits
  · exact hfits
  · cases hfits
    exact absurd rfl hop

theorem CallOk.fits_pop (h : CallOk n hist slots fn entry (op :: rest)) :
    rest <:+ fn.body ∨ rest = [.mapError] := by
  rcases h.fits with hfits | hfits
  · exact .inl (suffix_of_cons hfits)
  · cases hfits
    exact .inl nil_suffix

theorem CallOk.pop (h : CallOk n hist slots fn entry (op :: rest)) (hfull : op ≠ .isRingFull)
    (hgen : op ≠ .genTre) : CallOk n hist slots fn entry rest where
  fits := h.fits_pop
  room hseen hadd := h.room (by simp [hfull.symm, hseen]) (mem_cons_of_mem _ hadd)
  filled hgone hadd := h.filled (by simp [hgen.symm, hgone]) (mem_cons_of_mem _ hadd)

end

section

variable {cfg : ChanCfg} {k : Ctrl} {ch : Chan} {c : Call} {r : Round}

theorem Inv.setCall (h : Inv cfg ch)
    (hc : CallOk cfg.elements ch.hist ch.slots c.fn (c.req.buf, c.req.len) c.rest) :
    Inv cfg { ch with call := some c } where
  rings := { h.rings with }
  call _ hcall := by
    obtain rfl := some.inj hcall
    exact hc
  round := h.round
  completed := h.completed

theorem Inv.dropCall (h : Inv cfg ch) : Inv cfg { ch with call := none } where
  rings := { h.rings with }
  call _ hcall := by cases hcall
  round := h.round
  completed := h.completed

theorem Inv.doorbell (h : Inv cfg ch) (ctxtWp dbReg : Nat) (dbCfg : DbCfg) :
    Inv cfg { ch with ctxtWp := ctxtWp, dbReg := dbReg, dbCfg := dbCfg } where
  rings := { h.rings with }
  call := h.call
  round := h.round
  completed := h.completed

theorem ringChanDb_eq (cfg : ChanCfg) (ch : Chan) : ∃ ctxtWp dbReg dbCfg,
    ringChanDb cfg ch = { ch with ctxtWp := ctxtWp, dbReg := dbReg, dbCfg := dbCfg } := by
  unfold ringChanDb processDb
  dsimp only
  split
  · split
    · exact ⟨_, _, _, rfl⟩
    · exact ⟨_, _, _, rfl⟩
  · exact ⟨_, _, _, rfl⟩

theorem RingsAt.isRingFull_iff (h : RingsAt cfg ch) :
    ch.treRing.isRingFull = true ↔
      ch.hist.accepted.length + 1 = ch.hist.taken + cfg.elements :=
  h.tre.isRingFull_iff h.taken_le h.accepted_lt

theorem RingsAt.write (h : RingsAt cfg ch)
    (hroom : ch.hist.accepted.length + 1 < ch.hist.taken + cfg.elements) (info : BufInfo) :
    RingsAt cfg { ch with
      infos := Function.update ch.infos (ch.hist.accepted.length % cfg.elements) info } :=
  { h with
    holds := by
      have hpush := h.holds.push (x := info.view) (by omega)
      have hkept := hpush.take ch.hist.accepted.length
      rw [take_left' rfl] at hkept
      rwa [Chan.slots, Function.comp_update] }

theorem CallOk.fail (mapError : Prop) [Decidable mapError] {hist : ChanHist}
    {slots : Nat → Nat × Nat} {fn : QueueFn} {entry : Nat × Nat} {n : Nat} :
    CallOk n hist slots fn entry (if mapError then [.mapError] else []) := by
  split
  · exact ⟨.inr rfl, by simp, by simp⟩
  · exact .done

theorem Call.bufInfo_view (c : Call) (old : BufInfo) (wp : Nat) :
    (c.bufInfo old wp).view = (c.req.buf, c.req.len) := by
  unfold Call.bufInfo
  split <;> rfl

theorem Inv.genTre (h : Inv cfg ch)
    (hc : CallOk cfg.elements ch.hist ch.slots c.fn (c.req.buf, c.req.len) (.genTre :: c.rest))
    (mapped : Option Nat) : Inv cfg (genTre cfg ch c mapped) := by
  have hafter := QueueFn.after_genTre (hc.suffix (by simp))
  have hroom := hc.room (by simp [hafter.1]) (by simp [hafter.2.2])
  unfold Mhi.genTre
  rw [h.rings.buf.index_wp]
  dsimp only
  split
  next =>
    exact
    { rings := { h.rings.write hroom _ with }
      call := by
        intro c' hcall
        obtain rfl := some.inj hcall
        exact .fail _
      round := h.round
      completed := h.completed }
  next pAddr _ =>
    exact
    { rings := { h.rings.write hroom _ with }
      call := by
        intro c' hcall
        obtain rfl := some.inj hcall
        refine ⟨hc.fits_pop, fun _ _ => hroom, fun _ _ => ?_⟩
        rw [Chan.slots, Function.comp_update, Function.update_self]
        exact c.bufInfo_view _ _
      round := h.round
      completed := h.completed }

theorem RoundOk.accept {hist : ChanHist} (h : RoundOk cfg hist r)
    (hle : hist.taken ≤ hist.accepted.length) (entry : Nat × Nat) :
    RoundOk cfg { hist with accepted := hist.accepted ++ [entry] } r where
  fits := h.fits
  ahead hdel := by
    obtain ⟨hlt, hinfo⟩ := h.ahead hdel
    simp only [length_append]
    exact ⟨by omega, hinfo⟩
  behind := h.behind
  target devRp status xferLen hloop := by
    obtain ⟨x, hx, hxle, hdev, hdel⟩ := h.target devRp status xferLen hloop
    simp only [length_append]
    exact ⟨x, hx, by omega, hdev, hdel⟩
  result hcb hdel := by
    have htaken := (h.behind hdel (ne_nil_of_mem hcb)).1
    dsimp only
    rw [List.getElem?_append_left (by omega)]
    exact h.result hcb hdel

theorem Inv.addElements (h : Inv cfg ch)
    (hc : CallOk cfg.elements ch.hist ch.slots c.fn (c.req.buf, c.req.len)
      (.addElements :: c.rest)) : Inv cfg (addElements ch c) := by
  obtain ⟨hfull, hgen, hadd⟩ := QueueFn.after_addElements (hc.suffix (by simp))
  have hroom := hc.room (by simp [hfull]) (by simp)
  have hfilled := hc.filled (by simp [hgen]) (by simp)
  have hlen : (ch.hist.accepted ++ [(c.req.buf, c.req.len)]).length =
      ch.hist.accepted.length + 1 := by simp
  have hle := h.rings.taken_le
  exact
  { rings :=
    { h.rings with
      tre := by
        have := h.rings.tre.add
        rwa [← hlen] at this
      buf := by
        have := h.rings.buf.add
        rwa [← hlen] at this
      taken_le := by
        change ch.hist.taken ≤ (ch.hist.accepted ++ [(c.req.buf, c.req.len)]).length
        omega
      accepted_lt := by
        change (ch.hist.accepted ++ [(c.req.buf, c.req.len)]).length <
          ch.hist.taken + cfg.elements
        omega
      holds := by
        have hpush := h.rings.holds.push (x := (c.req.buf, c.req.len)) (by omega)
        rwa [← hfilled, Function.update_eq_self, hfilled] at hpush }
    call := by
      intro c' hcall
      obtain rfl := some.inj hcall
      exact ⟨hc.fits_pop, fun _ hmem => absurd hmem hadd, fun _ hmem => absurd hmem hadd⟩
    round := fun r hr => (h.round r hr).accept hle _
    completed := by
      change ch.hist.completed.map Done.buf =
        (((ch.hist.accepted ++ _).take (ch.hist.taken - ch.inHand)).map Prod.fst)
      rw [take_append_of_le_length (by omega)]
      exact h.completed }

theorem Inv.queueOp (h : Inv cfg ch) {op : QueueOp}
    (hc : CallOk cfg.elements ch.hist ch.slots c.fn (c.req.buf, c.req.len) (op :: c.rest))
    (mapped : Option Nat) : Inv cfg (queueOp cfg k ch c mapped op).2 := by
  cases op with
  | isRingFull =>
    refine h.setCall ?_
    by_cases hfull : ch.treRing.isRingFull = true
    · rw [if_pos hfull]
      exact .done
    · rw [if_neg hfull]
      have hlt := h.rings.accepted_lt
      rw [h.rings.isRingFull_iff] at hfull
      have hgen := QueueFn.after_isRingFull (hc.suffix (by simp))
      exact ⟨hc.fits_pop, fun _ _ => by omega, fun hgone => absurd hgen hgone⟩
  | inErrorState =>
    refine h.setCall ?_
    split
    · exact .done
    · exact hc.pop (by simp) (by simp)
  | genTre => exact h.genTre hc mapped
  | addElements => exact h.addElements hc
  | incPending =>
    simp only [Mhi.queueOp]
    split
    · exact h.setCall (hc.pop (by simp) (by simp))
    · exact h.setCall (hc.pop (by simp) (by simp))
  | ringDb =>
    simp only [Mhi.queueOp]
    split
    · obtain ⟨ctxtWp, dbReg, dbCfg, heq⟩ := ringChanDb_eq cfg ch
      rw [heq]
      exact (h.doorbell ctxtWp dbReg dbCfg).setCall (hc.pop (by simp) (by simp))
    · exact h.setCall (hc.pop (by simp) (by simp))
  | _ => exact h.setCall (hc.pop (by simp) (by simp))

theorem Inv.queueStep (h : Inv cfg ch) {mapped : Option Nat} {x : Ctrl × Chan}
    (hstep : queueStep cfg k ch mapped = some x) : Inv cfg x.2 := by
  unfold Mhi.queueStep at hstep
  cases hcall : ch.call with
  | none => simp [hcall] at hstep
  | some c =>
    cases hrest : c.rest with
    | nil => simp [hcall, hrest] at hstep
    | cons op rest =>
      obtain rfl : Mhi.queueOp cfg k ch { c with rest := rest } mapped op = x := by
        simpa [hcall, hrest] using hstep
      have hc := h.call c hcall
      rw [hrest] at hc
      exact h.queueOp hc mapped

theorem Inv.setRound (h : Inv cfg ch) (hr : RoundOk cfg ch.hist r)
    (hhand : r.inHand = ch.inHand) : Inv cfg { ch with round := some r } where
  rings := { h.rings with }
  call := h.call
  round _ hround := by
    obtain rfl := some.inj hround
    exact hr
  completed := by
    change _ = (ch.hist.accepted.take (ch.hist.taken - r.inHand)).map Prod.fst
    rw [hhand]
    exact h.completed

theorem RoundOk.pop {hist : ChanHist} {op : RoundOp} {rest : List RoundOp}
    (h : RoundOk cfg hist { r with rest := op :: rest }) (hop : op ≠ .del) (last : Bool) :
    RoundOk cfg hist { r with rest := rest, last := last } where
  fits := suffix_of_cons h.fits
  ahead hdel := h.ahead (mem_cons_of_mem _ hdel)
  behind hdel _ := h.behind (by simp [hop.symm, hdel]) (by simp)
  target devRp status xferLen hloop := by
    obtain ⟨x, hx, hxle, hdev, hlt⟩ := h.target devRp status xferLen hloop
    exact ⟨x, hx, hxle, hdev, fun hdel => hlt (mem_cons_of_mem _ hdel)⟩
  result hcb hdel := h.result (mem_cons_of_mem _ hcb) (by simp [hop.symm, hdel])

theorem Inv.entry (h : Inv cfg ch) (hr : RoundOk cfg ch.hist r) (hdel : .del ∉ r.rest)
    (hrest : r.rest ≠ []) :
    ch.hist.accepted[ch.hist.taken - 1]? = some (ch.slots r.bufInfo) := by
  obtain ⟨hpos, hinfo⟩ := hr.behind hdel hrest
  have hle := h.rings.taken_le
  rw [hinfo, h.rings.holds _ (le_refl _) (by omega), List.getElem?_eq_getElem]

theorem Inv.delElements (h : Inv cfg ch)
    (hround : ch.round = some { r with rest := .del :: r.rest }) : Inv cfg (delElements ch r) := by
  have hr := h.round _ hround
  obtain ⟨hlt, hinfo⟩ := hr.ahead (by simp)
  obtain ⟨hdel, hcb, hreset⟩ := Loop.after_del hr.fits
  have hhand : ch.inHand = 0 := by simp [Chan.inHand, hround, Round.inHand]
  have hslot : ch.hist.accepted[ch.hist.taken]? = some (ch.slots r.bufInfo) := by
    rw [show r.bufInfo = ch.hist.taken % cfg.elements from hinfo,
      h.rings.holds _ (Nat.sub_le _ _) hlt, List.getElem?_eq_getElem]
  have hround' : ∀ r', (Mhi.delElements ch r).round = some r' →
      RoundOk cfg (Mhi.delElements ch r).hist r' := by
    rintro _ ⟨⟩
    exact
    { fits := suffix_of_cons hr.fits
      ahead := fun hmem => absurd hmem hdel
      behind := fun _ _ => ⟨Nat.succ_pos _, hinfo⟩
      target := by
        intro devRp status xferLen hloop
        obtain ⟨x, _, hxle, hdev, hlt'⟩ := hr.target devRp status xferLen hloop
        exact ⟨x, hlt' (by simp), hxle, hdev, fun hmem => absurd hmem hdel⟩
      result := by
        intro hmem _
        dsimp only [Mhi.delElements]
        rw [Nat.add_sub_cancel, hslot]
        cases hloop : r.loop with
        | parse devRp status xferLen => rfl
        | reset => exact absurd hmem (hreset hloop) }
  exact
  { rings :=
    { h.rings with
      tre := h.rings.tre.del
      buf := h.rings.buf.del
      taken_le := hlt
      accepted_lt := by
        have hle := h.rings.accepted_lt
        change ch.hist.accepted.length < ch.hist.taken + 1 + cfg.elements
        omega
      holds := h.rings.holds.advance (Nat.sub_le _ _) }
    call := by
      intro c hcall
      have hc := h.call c hcall
      refine ⟨hc.fits, fun hseen hadd => ?_, hc.filled⟩
      have hroom := hc.room hseen hadd
      change ch.hist.accepted.length + 1 < ch.hist.taken + 1 + cfg.elements
      omega
    round := hround'
    completed := by
      have hone : (Mhi.delElements ch r).inHand = 1 := by
        simp [Chan.inHand, Mhi.delElements, Round.inHand, hdel, hcb]
      rw [hone]
      change _ = (ch.hist.accepted.take (ch.hist.taken + 1 - 1)).map Prod.fst
      rw [Nat.add_sub_cancel]
      have hdone := h.completed
      rwa [hhand] at hdone }

theorem Inv.complete (h : Inv cfg ch) {op : RoundOp}
    (hround : ch.round = some { r with rest := op :: r.rest }) (hop : op ≠ .del)
    (hdel : .del ∉ r.rest) (hcb : op = .xferCb ∨ op = .resetCb)
    (hafter : .xferCb ∉ r.rest ∧ .resetCb ∉ r.rest) {d : Done}
    (hd : ch.hist.accepted[ch.hist.taken - 1]?.map Prod.fst = some d.buf) :
    Inv cfg { ch.complete d with round := some r } := by
  have hr := h.round _ hround
  have hpos := (hr.behind (by simp [hop.symm, hdel]) (by simp)).1
  obtain ⟨entry, hentry, hbuf⟩ := map_eq_some_iff.mp hd
  have hhand : ch.inHand = 1 := by
    rcases hcb with rfl | rfl <;> simp [Chan.inHand, hround, Round.inHand, hdel]
  exact
  { rings := { h.rings with }
    call := fun c hcall =>
      have hc := h.call c hcall
      ⟨hc.fits, hc.room, hc.filled⟩
    round := by
      intro r' hr'
      obtain rfl := some.inj hr'
      have hpop := hr.pop hop r.last
      exact ⟨hpop.fits, hpop.ahead, hpop.behind, hpop.target, hpop.result⟩
    completed := by
      have hnone : r.inHand = 0 := by simp [Round.inHand, hafter.1, hafter.2]
      have hdone := h.completed
      rw [hhand] at hdone
      change (ch.hist.completed ++ [d]).map Done.buf =
        (ch.hist.accepted.take (ch.hist.taken - r.inHand)).map Prod.fst
      rw [hnone, show ch.hist.taken - 0 = ch.hist.taken - 1 + 1 by omega, take_add_one, hentry,
        map_append, map_append, hdone]
      simp [hbuf] }

theorem Inv.dropRound (h : Inv cfg ch) (hhand : ch.inHand = 0) :
    Inv cfg { ch with round := none } where
  rings := { h.rings with }
  call := h.call
  round _ hround := by cases hround
  completed := by
    have hdone := h.completed
    rwa [hhand] at hdone

theorem Inv.popRound (h : Inv cfg ch) {op : RoundOp}
    (hround : ch.round = some { r with rest := op :: r.rest })
    (hop : op ≠ .del ∧ op ≠ .xferCb ∧ op ≠ .resetCb) (last : Bool) :
    Inv cfg { ch with round := some { r with last := last } } := by
  refine h.setRound ((h.round _ hround).pop hop.1 last) ?_
  simp [Chan.inHand, hround, Round.inHand, hop.1.symm, hop.2.1.symm, hop.2.2.symm]

theorem Inv.setFreed (h : Inv cfg ch) (freed : List Nat) :
    Inv cfg { ch with hist := { ch.hist with freed := freed } } where
  rings := { h.rings with }
  call c hcall :=
    have hc := h.call c hcall
    ⟨hc.fits, hc.room, hc.filled⟩
  round r hround :=
    have hr := h.round r hround
    ⟨hr.fits, hr.ahead, hr.behind, hr.target, hr.result⟩
  completed := h.completed

theorem Inv.roundOp (h : Inv cfg ch) {op : RoundOp} {x : Ctrl × Chan}
    (hround : ch.round = some { r with rest := op :: r.rest })
    (hstep : roundOp cfg k ch r op = some x) : Inv cfg x.2 := by
  have hr := h.round _ hround
  cases op with
  | del =>
    obtain rfl := some.inj hstep
    exact h.delElements hround
  | xferCb =>
    obtain rfl := some.inj hstep
    obtain ⟨hdel, hafter⟩ := Loop.after_xferCb hr.fits
    exact h.complete hround (by simp) hdel (.inl rfl) hafter (hr.result (by simp) (by simp [hdel]))
  | resetCb =>
    obtain rfl := some.inj hstep
    have hnil := Loop.after_resetCb hr.fits
    have hentry := h.entry hr (by simp [hnil]) (by simp)
    refine h.complete hround (by simp) (by simp [hnil]) (.inr rfl) (by simp [hnil]) ?_
    rw [hentry]
    unfold Chan.resetDone
    split <;> rfl
  | decPending =>
    obtain rfl := some.inj hstep
    split
    · exact h.popRound hround (by simp) _
    · exact h.popRound hround (by simp) _
  | runtimePut =>
    obtain rfl := some.inj hstep
    exact h.popRound hround (by simp) r.last
  | wakePut =>
    obtain rfl := some.inj hstep
    exact h.popRound hround (by simp) r.last
  | recycle =>
    simp only [Mhi.roundOp] at hstep
    split at hstep
    next => cases hstep
    next =>
      obtain rfl := some.inj hstep
      exact (h.popRound hround (by simp) r.last).setCall (.start (by simp [Call.start]))
  | recycled =>
    simp only [Mhi.roundOp] at hstep
    split at hstep
    next => cases hstep
    next =>
      split at hstep
      · obtain rfl := some.inj hstep
        exact ((h.popRound hround (by simp) r.last).setFreed _).dropCall
      · cases hstep

theorem Inv.goesOn (h : Inv cfg ch) (hround : ch.round = some r)
    (hgo : r.loop.goesOn ch = true) : ch.hist.taken < ch.hist.accepted.length ∧
      ∀ devRp status xferLen, r.loop = .parse devRp status xferLen →
        ∃ x, ch.hist.taken < x ∧ x ≤ ch.hist.accepted.length ∧
          devRp = cfg.treBase + x % cfg.elements * sizeofMhiTre := by
  have hle := h.rings.taken_le
  have hlt := h.rings.accepted_lt
  cases hloop : r.loop with
  | reset =>
    rw [hloop, Loop.goesOn, decide_eq_true_iff, ne_eq, h.rings.tre.rp_eq_wp_iff hle hlt] at hgo
    exact ⟨by omega, by simp⟩
  | parse devRp status xferLen =>
    obtain ⟨x, hx, hxle, hdev, _⟩ := (h.round r hround).target _ _ _ hloop
    have hne : ch.hist.taken ≠ x := by
      rintro rfl
      rw [hloop, Loop.goesOn, decide_eq_true_iff] at hgo
      apply hgo
      rw [h.rings.tre.rp, hdev, h.rings.base, h.rings.elSize]
    refine ⟨by omega, ?_⟩
    rintro _ _ _ ⟨⟩
    exact ⟨x, by omega, hxle, hdev⟩

theorem Inv.roundStep (h : Inv cfg ch) {x : Ctrl × Chan} (hstep : roundStep cfg k ch = some x) :
    Inv cfg x.2 := by
  unfold Mhi.roundStep at hstep
  cases hround : ch.round with
  | none => simp [hround] at hstep
  | some r =>
    have hr := h.round r hround
    cases hrest : r.rest with
    | nil =>
      have hhand : ch.inHand = 0 := by simp [Chan.inHand, hround, Round.inHand, hrest]
      simp only [hround, bind_eq_bind, bind_some, hrest, some.injEq] at hstep
      obtain rfl := hstep
      split
      next hgo =>
        obtain ⟨hlt, htarget⟩ := h.goesOn hround hgo
        have hdel : .del ∈ r.loop.body cfg := by cases r.loop <;> simp [Loop.body]
        refine h.setRound ⟨suffix_rfl, fun _ => ⟨hlt, h.rings.buf.index_rp⟩,
          fun hgone => absurd hdel hgone, ?_, fun _ hgone => absurd hdel hgone⟩ ?_
        · intro devRp status xferLen hloop
          obtain ⟨x, hx, hxle, hdev⟩ := htarget devRp status xferLen hloop
          exact ⟨x, by omega, hxle, hdev, fun _ => hx⟩
        · rw [hhand]
          simp [Round.inHand, hdel]
      next => exact h.dropRound hhand
    | cons op rest =>
      have hop : Mhi.roundOp cfg k ch { r with rest := rest } op = some x := by
        simpa [hround, hrest] using hstep
      exact h.roundOp (r := { r with rest := rest }) (by rw [hround, ← hrest]) hop

def EventOk (ch : Chan) (event : Tre) : Prop :=
  event.evCode ∈ xferCodes → ch.treRing.Names event.ptr.toNat

instance (ch : Chan) (event : Tre) : Decidable (EventOk ch event) :=
  inferInstanceAs (Decidable (_ → _))

theorem Inv.startRound (h : Inv cfg ch) (hround : ch.round = none) {loop : Loop}
    (htarget : ∀ devRp status xferLen, loop = .parse devRp status xferLen →
      ∃ x, ch.hist.taken ≤ x ∧ x ≤ ch.hist.accepted.length ∧
        devRp = cfg.treBase + x % cfg.elements * sizeofMhiTre) :
    Inv cfg { ch with round := some (.start loop) } := by
  refine h.setRound ⟨nil_suffix, by simp [Round.start], by simp [Round.start], ?_,
    by simp [Round.start]⟩ ?_
  · intro devRp status xferLen hloop
    obtain ⟨x, hx, hxle, hdev⟩ := htarget devRp status xferLen hloop
    exact ⟨x, hx, hxle, hdev, by simp [Round.start]⟩
  · simp [Round.start, Round.inHand, Chan.inHand, hround]

theorem RingsAt.len (h : RingsAt cfg ch) : ch.treRing.len = cfg.elements * sizeofMhiTre := by
  rw [h.tre.len, h.elSize]

theorem Inv.parseXferEvent (h : Inv cfg ch) (hround : ch.round = none) {event : Tre}
    (hok : EventOk ch event) : Inv cfg (parseXferEvent cfg k ch event) := by
  unfold Mhi.parseXferEvent
  dsimp only
  split
  · exact h
  split
  next hcode =>
    refine h.startRound hround ?_
    rintro _ _ _ ⟨⟩
    obtain ⟨x, hx, hlt, hvirt⟩ := h.rings.tre.toVirtual_of_names h.rings.taken_le
      h.rings.accepted_lt (by rw [h.rings.base, h.rings.len]; exact cfg.treBase_le)
      (by rw [h.rings.iommuBase, h.rings.len]; exact cfg.iommuBase_le) (hok hcode)
    refine ⟨x + 1, by omega, hlt, ?_⟩
    rw [hvirt, h.rings.tre.next_mod, h.rings.base, h.rings.elSize]
  split
  · have hdb := h.doorbell ch.ctxtWp ch.dbReg { ch.dbCfg with dbMode := true }
    split
    · obtain ⟨ctxtWp, dbReg, dbCfg, heq⟩ :=
        ringChanDb_eq cfg { ch with dbCfg := { ch.dbCfg with dbMode := true } }
      rw [heq]
      exact hdb.doorbell ctxtWp dbReg dbCfg
    · exact hdb
  · exact h

theorem Inv.chanStep (h : Inv cfg ch) {l : ChanLabel} {x : Ctrl × Chan}
    (hok : ∀ event, l = .event event → EventOk ch event)
    (hstep : chanStep cfg k ch l = some x) : Inv cfg x.2 := by
  cases l with
  | call fn req =>
    obtain ⟨⟨_, hfn⟩, ⟨⟩⟩ := ite_none_right_eq_some.mp hstep
    exact h.setCall (.start fun heq => absurd heq hfn)
  | prepare buf len =>
    obtain ⟨⟨_, _, havail⟩, ⟨⟩⟩ := ite_none_right_eq_some.mp hstep
    have hnr := h.rings.tre.getNrAvailRingElements_eq h.rings.taken_le h.rings.accepted_lt
    have hle := h.rings.taken_le
    exact h.setCall (.start fun _ => by omega)
  | queue mapped => exact h.queueStep hstep
  | ret =>
    simp only [Mhi.chanStep] at hstep
    split at hstep
    next =>
      obtain ⟨_, ⟨⟩⟩ := ite_none_right_eq_some.mp hstep
      exact h.dropCall
    next => cases hstep
  | event event =>
    obtain ⟨hround, ⟨⟩⟩ := ite_none_right_eq_some.mp hstep
    exact h.parseXferEvent hround (hok event rfl)
  | reset =>
    obtain ⟨hround, ⟨⟩⟩ := ite_none_right_eq_some.mp hstep
    exact h.startRound hround (by simp)
  | round => exact h.roundStep hstep
  | chState st =>
    obtain ⟨_, ⟨⟩⟩ := ite_none_right_eq_some.mp hstep
    exact ⟨{ h.rings with }, h.call, h.round, h.completed⟩

theorem chanInit_inv (cfg : ChanCfg) : Inv cfg (chanInit cfg) :=
  have hpos : 0 < cfg.elements := Nat.lt_of_lt_of_le Nat.two_pos cfg.two_le
  { rings :=
      { tre := ⟨Nat.succ_pos _, hpos, Nat.mul_comm .., by simp [chanInit], by simp [chanInit]⟩
        buf := ⟨Nat.succ_pos _, hpos, Nat.mul_comm .., by simp [chanInit], by simp [chanInit]⟩
        base := rfl
        iommuBase := rfl
        elSize := rfl
        taken_le := le_refl _
        accepted_lt := by
          simp only [chanInit, length_nil]
          omega
        holds := by
          intro j _ hj
          simp [chanInit] at hj }
    call _ hcall := by cases hcall
    round _ hround := by cases hround
    completed := rfl }

end

section

variable {ι : Type} [DecidableEq ι]

def EventsOk (s : Sys ι) : Label ι → Prop
  | .chan i l => ∀ event, l = .event event → EventOk (s.chans i) event
  | .pm _ => True

instance (s : Sys ι) (l : Label ι) : Decidable (EventsOk s l) :=
  match l with
  | .chan i (.event event) =>
    decidable_of_iff (EventOk (s.chans i) event)
      ⟨fun h _ heq => by cases heq; exact h, fun h => h _ rfl⟩
  | .chan _ (.call ..) | .chan _ (.prepare ..) | .chan _ (.queue _) | .chan _ .ret
  | .chan _ .reset | .chan _ .round | .chan _ (.chState _) => isTrue (by intro _ h; cases h)
  | .pm _ => isTrue trivial

theorem Inv.step {cfg : ι → ChanCfg} {s t : Sys ι} (h : ∀ i, Inv (cfg i) (s.chans i))
    {l : Label ι} (hok : EventsOk s l) (hstep : step cfg s l = some t) (i : ι) :
    Inv (cfg i) (t.chans i) := by
  cases l with
  | pm st =>
    obtain rfl := some.inj hstep
    exact h i
  | chan j l =>
    obtain ⟨x, hx, rfl⟩ := map_eq_some_iff.mp hstep
    by_cases hij : i = j
    · subst hij
      dsimp only
      rw [Function.update_self]
      exact (h i).chanStep hok hx
    · dsimp only
      rw [Function.update_of_ne hij]
      exact h i

end

/-- The buffer that a round has taken off the rings and not passed on. -/
def Chan.taking (ch : Chan) : List Nat :=
  match ch.round with
  | some r => if r.inHand = 1 then [(ch.infos r.bufInfo).cbBuf] else []
  | none => []

def Chan.queued (n : Nat) (ch : Chan) : List Nat :=
  Ring.span n (fun i => (ch.infos i).cbBuf) (ch.bufRing.index ch.bufRing.rp) ch.bufRing.outstanding

/-- The rings stand at the same elements, and one element less than they have is outstanding or
available.  The buffers accepted are those completed, the one on its way, and those outstanding, in
this order.  The element that is read to recycle a buffer describes the buffer completed last. -/
structure InOrder (cfg : ChanCfg) (ch : Chan) : Prop where
  rp : ch.treRing.index ch.treRing.rp = ch.bufRing.index ch.bufRing.rp
  wp : ch.treRing.index ch.treRing.wp = ch.bufRing.index ch.bufRing.wp
  outstanding : ch.treRing.outstanding = ch.bufRing.outstanding
  available : ch.treRing.outstanding + ch.treRing.getNrAvailRingElements = cfg.elements - 1
  full : ch.treRing.isRingFull = true ↔ ch.treRing.getNrAvailRingElements = 0
  completed : ch.hist.completed.map Done.buf ++ ch.taking ++ ch.queued cfg.elements =
    ch.hist.accepted.map Prod.fst
  recycle : ∀ r, ch.round = some r → .recycle ∈ r.rest.head? ∨ .recycled ∈ r.rest.head? →
    ch.hist.accepted[ch.hist.completed.length - 1]? = some (ch.infos r.bufInfo).view ∧
      ch.hist.completed.getLast?.map Done.buf = some (ch.infos r.bufInfo).cbBuf

section

variable {cfg : ChanCfg} {ch : Chan}

theorem RingsAt.queued_eq (h : RingsAt cfg ch) :
    ch.queued cfg.elements = (ch.hist.accepted.drop ch.hist.taken).map Prod.fst := by
  have hspan := h.holds.span_eq (Nat.sub_le ch.hist.taken 1)
  unfold Chan.queued
  rw [h.buf.index_rp, h.buf.outstanding_eq h.taken_le h.accepted_lt,
    Ring.span_mod (Nat.mod_mod _ _), ← hspan]
  simp [Ring.span, Chan.slots, BufInfo.view, Function.comp_def]

theorem Inv.taking_eq (h : Inv cfg ch) :
    (ch.hist.accepted.take (ch.hist.taken - ch.inHand)).map Prod.fst ++ ch.taking =
      (ch.hist.accepted.take ch.hist.taken).map Prod.fst := by
  cases hround : ch.round with
  | none => simp [Chan.taking, Chan.inHand, hround]
  | some r =>
    have hr := h.round r hround
    by_cases hhand : .del ∉ r.rest ∧ (.xferCb ∈ r.rest ∨ .resetCb ∈ r.rest)
    · have hrest : r.rest ≠ [] := by
        rintro hnil
        simp [hnil] at hhand
      have hone : r.inHand = 1 := if_pos hhand
      have hpos := (hr.behind hhand.1 hrest).1
      have hentry := h.entry hr hhand.1 hrest
      simp only [Chan.taking, Chan.inHand, hround, elim_some, hone, if_true]
      conv_rhs => rw [show ch.hist.taken = ch.hist.taken - 1 + 1 by omega, take_add_one,
        hentry, map_append]
      rfl
    · have hzero : r.inHand = 0 := if_neg hhand
      simp [Chan.taking, Chan.inHand, hround, hzero]

theorem Inv.inOrder (h : Inv cfg ch) : InOrder cfg ch where
  rp := by rw [h.rings.tre.index_rp, h.rings.buf.index_rp]
  wp := by rw [h.rings.tre.index_wp, h.rings.buf.index_wp]
  outstanding := by
    have hle := h.rings.taken_le
    have hlt := h.rings.accepted_lt
    rw [h.rings.tre.outstanding_eq hle hlt, h.rings.buf.outstanding_eq hle hlt]
  available := by
    have hnr := h.rings.tre.getNrAvailRingElements_eq h.rings.taken_le h.rings.accepted_lt
    rw [h.rings.tre.outstanding_eq h.rings.taken_le h.rings.accepted_lt]
    omega
  full := by
    have hnr := h.rings.tre.getNrAvailRingElements_eq h.rings.taken_le h.rings.accepted_lt
    have hle := h.rings.taken_le
    rw [h.rings.isRingFull_iff]
    omega
  completed := by
    rw [h.completed, h.taking_eq, h.rings.queued_eq, ← map_append, take_append_drop]
  recycle := by
    intro r hround hop
    have hr := h.round r hround
    obtain ⟨op, ops, hrest, hop'⟩ : ∃ op ops, r.rest = op :: ops ∧
        (op = .recycle ∨ op = .recycled) := by
      cases hrest : r.rest with
      | nil => simp [hrest] at hop
      | cons op ops => exact ⟨op, ops, rfl, by simpa [hrest, eq_comm] using hop⟩
    have hfits := hr.fits
    rw [hrest] at hfits
    obtain ⟨hdel, hcb, hreset⟩ := Loop.at_recycle hfits hop'
    rw [← hrest] at hdel hcb hreset
    have hnil : r.rest ≠ [] := by simp [hrest]
    have hentry := h.entry hr hdel hnil
    have hpos := (hr.behind hdel hnil).1
    have hle := h.rings.taken_le
    have hdone := h.completed
    rw [show ch.inHand = 0 by simp [Chan.inHand, hround, Round.inHand, hcb, hreset],
      Nat.sub_zero] at hdone
    have hlen : ch.hist.completed.length = ch.hist.taken := by
      have hlen := congrArg List.length hdone
      simpa [hle] using hlen
    rw [hlen]
    refine ⟨hentry, ?_⟩
    rw [← getLast?_map, hdone, getLast?_eq_getElem?]
    rw [length_map, length_take, Nat.min_eq_left hle, List.getElem?_map,
      List.getElem?_take_of_lt (by omega), hentry]
    rfl

end

section

variable {ι : Type} [DecidableEq ι]

theorem reaches_inv (cfg : ι → ChanCfg) {s : Sys ι}
    (h : Transition.Reaches (step cfg) EventsOk (init cfg) s) (i : ι) :
    Inv (cfg i) (s.chans i) :=
  h.invariant (P := fun s => ∀ i, Inv (cfg i) (s.chans i)) (fun i => chanInit_inv (cfg i))
    (fun _ _ _ hs hl hstep => Inv.step hs hl hstep) i

theorem chan_inOrder (cfg : ι → ChanCfg) {s : Sys ι}
    (h : Transition.Reaches (step cfg) EventsOk (init cfg) s) (i : ι) :
    InOrder (cfg i) (s.chans i) :=
  (reaches_inv cfg h i).inOrder

/-- The buffer of a full ring is completed and recycled. -/
theorem chan_inOrder_recycled :
    let cfg : Unit → ChanCfg := fun _ =>
      ⟨2, .fromDevice, true, 0, true, 0x8000, 0x1000, 0x2000, by decide, by decide, by decide,
        by decide⟩
    ∃ s, Transition.Reaches (step cfg) EventsOk (init cfg) s ∧
      ((s.chans ()).hist.completed = [.xferCb ⟨none, 20, 100⟩] ∧
        (s.chans ()).hist.accepted = [(100, 64), (100, 64)]) ∧
      InOrder (cfg ()) (s.chans ()) := by
  intro cfg
  obtain ⟨s, hs, hrun⟩ : ∃ s, Transition.Reaches (step cfg) EventsOk (init cfg) s ∧
      ((s.chans ()).hist.completed = [.xferCb ⟨none, 20, 100⟩] ∧
        (s.chans ()).hist.accepted = [(100, 64), (100, 64)]) :=
    Transition.exists_of_run
      ([.chan () (.prepare 100 64), .chan () (.queue (some 7)), .chan () (.queue none),
        .chan () .ret, .pm .m0, .chan () (.chState .enabled),
        .chan () (.event ⟨0x8000, 0x02000014, 0⟩)] ++
        replicate 7 (.chan () .round) ++ replicate 11 (.chan () (.queue (some 8))) ++
        replicate 2 (.chan () .round))
      (by decide)
  exact ⟨s, hs, hrun, chan_inOrder cfg hs ()⟩

end

end ModemSupport.Mhi
