import ModemSupport.Mhi.ChanRings
import ModemSupport.Lib.Count

/-! The count of pending packets and the wake and runtime votes of the controller are those of the
uplink elements that are outstanding, up to what the calls in progress have still to do. -/

namespace ModemSupport.Mhi

open ModemSupport.Lib List Option

def indicator (p : Prop) [Decidable p] : Int := if p then 1 else 0

def ChanHist.uplink (cfg : ChanCfg) (hist : ChanHist) : Int :=
  if cfg.dir = .toDevice then hist.accepted.length - hist.taken else 0

def Call.pendingDue (cfg : ChanCfg) (c : Call) : Int :=
  if cfg.dir = .toDevice then
    indicator (.incPending ∈ c.rest) - indicator (.addElements ∈ c.rest)
  else 0

def Call.wakeDue (cfg : ChanCfg) (c : Call) : Int :=
  if cfg.dir = .toDevice then
    indicator (.wakeGet ∈ c.rest) - indicator (.addElements ∈ c.rest) -
      indicator (.mapError ∈ c.rest)
  else
    -indicator (.wakeGet ∉ c.rest ∧ (.wakePut ∈ c.rest ∨ .mapError ∈ c.rest) ∧ c.assertWake = true)

def Call.runtimeDue (c : Call) : Int :=
  indicator (.incPending ∉ c.rest ∧ .runtimeGet ∈ c.rest ∧ c.first = true) -
    indicator (.suspendGet ∉ c.rest ∧ .suspendPut ∈ c.rest ∧ c.suspended = true)

def Round.pendingDue (cfg : ChanCfg) (r : Round) : Int :=
  if cfg.dir = .toDevice then indicator (.del ∈ r.rest) - indicator (.decPending ∈ r.rest) else 0

def Round.wakeDue (cfg : ChanCfg) (r : Round) : Int :=
  if cfg.dir = .toDevice then indicator (.del ∈ r.rest) - indicator (.wakePut ∈ r.rest) else 0

def Round.runtimeDue (r : Round) : Int :=
  -indicator (.decPending ∉ r.rest ∧ .runtimePut ∈ r.rest ∧ r.last = true)

def Chan.pendingShare (cfg : ChanCfg) (ch : Chan) : Int :=
  ch.hist.uplink cfg - ch.call.elim 0 (Call.pendingDue cfg) - ch.round.elim 0 (Round.pendingDue cfg)

def Chan.wakeShare (cfg : ChanCfg) (ch : Chan) : Int :=
  ch.hist.uplink cfg - ch.call.elim 0 (Call.wakeDue cfg) - ch.round.elim 0 (Round.wakeDue cfg)

def Chan.runtimeShare (ch : Chan) : Int :=
  -ch.call.elim 0 Call.runtimeDue - ch.round.elim 0 Round.runtimeDue

/-- The runtime vote that is held while packets are pending. -/
def Ctrl.active (k : Ctrl) : Int := indicator (0 < k.pendingPkts)

/-- What a step on a channel adds to the counts of the controller is what it adds to the shares. -/
structure Balanced (cfg : ChanCfg) (k : Ctrl) (ch : Chan) (x : Ctrl × Chan) : Prop where
  pending : x.1.pendingPkts - x.2.pendingShare cfg = k.pendingPkts - ch.pendingShare cfg
  wake : x.1.wake - x.2.wakeShare cfg = k.wake - ch.wakeShare cfg
  runtime : x.1.runtime - x.1.active - x.2.runtimeShare = k.runtime - k.active - ch.runtimeShare

/-- An uplink call holds its wake vote once it has taken it, and only a downlink channel is filled
in advance. -/
structure VoteOk (cfg : ChanCfg) (c : Call) : Prop where
  asserted : cfg.dir = .toDevice → .wakeGet ∉ c.rest → c.rest ≠ [] → c.assertWake = true
  prepare : c.fn = .prepare → cfg.dir = .fromDevice

section

variable {cfg : ChanCfg} {k k' : Ctrl} {ch : Chan} {c c' : Call} {r r' : Round}

theorem Balanced.of_call {ch' : Chan} (hcall : ch.call = some c) (hcall' : ch'.call = some c')
    (hround : ch'.round = ch.round)
    (hpending : k'.pendingPkts + c'.pendingDue cfg + ch.hist.uplink cfg =
      k.pendingPkts + c.pendingDue cfg + ch'.hist.uplink cfg)
    (hwake : k'.wake + c'.wakeDue cfg + ch.hist.uplink cfg =
      k.wake + c.wakeDue cfg + ch'.hist.uplink cfg)
    (hruntime : k'.runtime - k'.active + c'.runtimeDue = k.runtime - k.active + c.runtimeDue) :
    Balanced cfg k ch (k', ch') where
  pending := by
    simp only [Chan.pendingShare, hcall, hcall', hround, elim_some]
    omega
  wake := by
    simp only [Chan.wakeShare, hcall, hcall', hround, elim_some]
    omega
  runtime := by
    simp only [Chan.runtimeShare, hcall, hcall', hround, elim_some]
    omega

theorem QueueFn.body_nodup (fn : QueueFn) : fn.body.Nodup := by
  cases fn <;> decide

theorem CallOk.head_not_mem {n : Nat} {hist : ChanHist} {slots : Nat → Nat × Nat} {fn : QueueFn}
    {entry : Nat × Nat} {op : QueueOp} {rest : List QueueOp}
    (h : CallOk n hist slots fn entry (op :: rest)) : op ∉ rest := by
  rcases h.fits with hfits | hfits
  · exact (nodup_cons.mp (fn.body_nodup.sublist hfits.sublist)).1
  · cases hfits
    simp

theorem CallOk.after_mapError {n : Nat} {hist : ChanHist} {slots : Nat → Nat × Nat} {fn : QueueFn}
    {entry : Nat × Nat} {rest : List QueueOp}
    (h : CallOk n hist slots fn entry (.mapError :: rest)) : rest = [] := by
  rcases h.fits with hfits | hfits
  · cases fn <;> simp [QueueFn.body, suffix_cons_iff] at hfits
  · exact (List.cons.inj hfits).2

/-- The votes of a call that has failed: none but that of `mhi_queue_skb` is left, which is then
to be undone. -/
structure Undone (cfg : ChanCfg) (c c' : Call) : Prop where
  pending : c.pendingDue cfg = c'.pendingDue cfg
  wake : c.wakeDue cfg = c'.wakeDue cfg
  runtime : c.runtimeDue = c'.runtimeDue

theorem Undone.balanced {ch' : Chan} (h : Undone cfg c c') (hcall : ch.call = some c)
    (hcall' : ch'.call = some c') (hround : ch'.round = ch.round) (hhist : ch'.hist = ch.hist) :
    Balanced cfg k ch (k, ch') :=
  .of_call hcall hcall' hround (by rw [h.pending, hhist]) (by rw [h.wake, hhist])
    (by rw [h.runtime])

theorem undone_of_pop {op : QueueOp} (ret : Option Errno) (hop : op ∉ c.rest)
    (hkind : op = .isRingFull ∨ op = .inErrorState ∨ op = .genTre ∨ op = .ringDb) :
    Undone cfg { c with rest := op :: c.rest } { c with ret := ret } := by
  rcases hkind with rfl | rfl | rfl | rfl <;>
    exact ⟨by simp [Call.pendingDue], by simp [Call.wakeDue], by simp [Call.runtimeDue]⟩

theorem undone_of_early {op : QueueOp} (hfits : op :: c.rest <:+ c.fn.body) (ret : Errno)
    (hkind : op = .isRingFull ∨ op = .inErrorState ∨ op = .genTre ∧ c.fn = .buf) :
    Undone cfg { c with rest := op :: c.rest } (c.fail ret []) := by
  have horder : .incPending ∈ c.rest ∧ .addElements ∈ c.rest ∧ .wakeGet ∈ c.rest ∧
      .suspendGet ∈ c.rest ∧ .mapError ∉ c.rest := by
    rcases hkind with rfl | rfl | ⟨rfl, hfn⟩ <;> cases hfn : c.fn <;>
      simp [QueueFn.body, suffix_cons_iff, hfn] at hfits <;> simp_all
  have hop : op ≠ .mapError := by
    rcases hkind with rfl | rfl | ⟨rfl, _⟩ <;> simp
  refine ⟨?_, ?_, ?_⟩
  · simp [Call.pendingDue, Call.fail, indicator, horder]
  · simp [Call.wakeDue, Call.fail, indicator, horder, hop.symm]
  · simp [Call.runtimeDue, Call.fail, indicator, horder]

theorem undone_of_skb (hfits : .genTre :: c.rest <:+ c.fn.body) (hfn : c.fn = .skb)
    (ret : Errno) :
    Undone cfg { c with rest := .genTre :: c.rest } (c.fail ret [.mapError]) := by
  have hrest : c.rest = [.incPending, .runtimeGet, .addElements, .ringDb, .wakePut] := by
    simpa [QueueFn.body, suffix_cons_iff, hfn] using hfits
  refine ⟨?_, ?_, ?_⟩
  · simp [Call.pendingDue, Call.fail, indicator, hrest]
  · simp [Call.wakeDue, Call.fail, indicator, hrest]
  · simp [Call.runtimeDue, Call.fail, indicator, hrest]

theorem undone_of_prepare (hfits : .genTre :: c.rest <:+ c.fn.body) (hfn : c.fn = .prepare)
    (hvote : VoteOk cfg { c with rest := .genTre :: c.rest }) (ret : Errno) :
    Undone cfg { c with rest := .genTre :: c.rest } (c.fail ret []) := by
  have hrest : c.rest = [.addElements] := by
    simpa [QueueFn.body, suffix_cons_iff, hfn] using hfits
  have hdir := hvote.prepare hfn
  refine ⟨?_, ?_, ?_⟩
  · simp [Call.pendingDue, hdir]
  · simp [Call.wakeDue, Call.fail, indicator, hrest, hdir]
  · simp [Call.runtimeDue, Call.fail, indicator, hrest]

theorem genTre_balanced (hinv : Inv cfg ch)
    (hcall : ch.call = some { c with rest := .genTre :: c.rest })
    (hvote : VoteOk cfg { c with rest := .genTre :: c.rest }) (mapped : Option Nat) :
    Balanced cfg k ch (k, genTre cfg ch c mapped) := by
  have hc := hinv.call _ hcall
  have hfits := hc.suffix (by simp)
  unfold genTre
  dsimp only
  split
  next hnone =>
    cases hfn : c.fn with
    | skb => exact (undone_of_skb hfits hfn .enomem).balanced hcall (by simp) rfl rfl
    | dma => simp [hfn] at hnone
    | buf =>
      exact (undone_of_early hfits .enomem (.inr (.inr ⟨rfl, hfn⟩))).balanced hcall (by simp) rfl
        rfl
    | prepare => exact (undone_of_prepare hfits hfn hvote .enomem).balanced hcall (by simp) rfl rfl
  next => exact (undone_of_pop c.ret hc.head_not_mem (by simp)).balanced hcall rfl rfl rfl

theorem QueueFn.after_suspendGet {fn : QueueFn} {rest : List QueueOp}
    (h : .suspendGet :: rest <:+ fn.body) : .suspendPut ∈ rest := by
  cases fn <;> simp [QueueFn.body, suffix_cons_iff] at h <;> simp [h]

theorem QueueFn.after_suspendPut {fn : QueueFn} {rest : List QueueOp}
    (h : .suspendPut :: rest <:+ fn.body) : .suspendGet ∉ rest := by
  cases fn <;> simp [QueueFn.body, suffix_cons_iff] at h <;> simp [h]

theorem QueueFn.after_wakeGet {fn : QueueFn} {rest : List QueueOp}
    (h : .wakeGet :: rest <:+ fn.body) : .wakePut ∈ rest := by
  cases fn <;> simp [QueueFn.body, suffix_cons_iff] at h <;> simp [h]

theorem QueueFn.after_wakePut {fn : QueueFn} {rest : List QueueOp}
    (h : .wakePut :: rest <:+ fn.body) : rest = [] := by
  cases fn <;> simp [QueueFn.body, suffix_cons_iff] at h <;> simp [h]

theorem QueueFn.after_incPending {fn : QueueFn} {rest : List QueueOp}
    (h : .incPending :: rest <:+ fn.body) : .runtimeGet ∈ rest := by
  cases fn <;> simp [QueueFn.body, suffix_cons_iff] at h <;> simp [h]

theorem QueueFn.after_runtimeGet {fn : QueueFn} {rest : List QueueOp}
    (h : .runtimeGet :: rest <:+ fn.body) : .incPending ∉ rest := by
  cases fn <;> simp [QueueFn.body, suffix_cons_iff] at h <;> simp [h]

theorem queueOp_balanced {op : QueueOp} (hinv : Inv cfg ch)
    (hcall : ch.call = some { c with rest := op :: c.rest })
    (hvote : VoteOk cfg { c with rest := op :: c.rest }) (mapped : Option Nat) :
    Balanced cfg k ch (queueOp cfg k ch c mapped op) := by
  have hc := hinv.call _ hcall
  have hop : op ∉ c.rest := hc.head_not_mem
  cases op with
  | isRingFull =>
    simp only [queueOp]
    split
    · exact (undone_of_early (hc.suffix (by simp)) .enomem (.inl rfl)).balanced hcall rfl rfl rfl
    · exact (undone_of_pop c.ret hop (by simp)).balanced hcall rfl rfl rfl
  | inErrorState =>
    simp only [queueOp]
    split
    · exact (undone_of_early (hc.suffix (by simp)) .eio (.inr (.inl rfl))).balanced hcall rfl rfl
        rfl
    · exact (undone_of_pop c.ret hop (by simp)).balanced hcall rfl rfl rfl
  | suspendGet =>
    have hput := QueueFn.after_suspendGet (hc.suffix (by simp))
    refine .of_call hcall rfl rfl (by simp [Call.pendingDue]) (by simp [Call.wakeDue]) ?_
    cases k.pmState.inSuspendState <;>
      simp [Call.runtimeDue, indicator, Ctrl.active, hop, hput]
    omega
  | suspendPut =>
    have hget := QueueFn.after_suspendPut (hc.suffix (by simp))
    refine .of_call hcall rfl rfl (by simp [Call.pendingDue]) (by simp [Call.wakeDue]) ?_
    cases hsuspended : c.suspended <;>
      simp [Call.runtimeDue, indicator, Ctrl.active, hop, hget, hsuspended]
    omega
  | wakeGet =>
    have hput := QueueFn.after_wakeGet (hc.suffix (by simp))
    refine .of_call hcall rfl rfl (by simp [Call.pendingDue]) ?_
      (by simp [Call.runtimeDue, Ctrl.active])
    cases hdir : cfg.dir with
    | toDevice =>
      simp [Call.wakeDue, indicator, hop, hdir]
      omega
    | fromDevice =>
      by_cases hm0 : k.pmState = .m0 <;> simp [Call.wakeDue, indicator, hop, hput, hdir, hm0]
  | genTre => exact genTre_balanced hinv hcall hvote mapped
  | incPending =>
    have hget := QueueFn.after_incPending (hc.suffix (by simp))
    simp only [queueOp]
    split
    next hdir =>
      refine .of_call hcall rfl rfl ?_ (by simp [Call.wakeDue]) ?_
      · simp [Call.pendingDue, indicator, hop, hdir]
        omega
      · simp [Call.runtimeDue, indicator, Ctrl.active, hop, hget]
        omega
    next hdir =>
      refine .of_call hcall rfl rfl (by simp [Call.pendingDue, hdir]) (by simp [Call.wakeDue]) ?_
      simp [Call.runtimeDue, indicator, Ctrl.active, hop]
  | runtimeGet =>
    have hinc := QueueFn.after_runtimeGet (hc.suffix (by simp))
    refine .of_call hcall rfl rfl (by simp [Call.pendingDue]) (by simp [Call.wakeDue]) ?_
    cases hfirst : c.first <;> simp [Call.runtimeDue, indicator, Ctrl.active, hop, hinc, hfirst]
    omega
  | addElements =>
    refine .of_call hcall rfl rfl ?_ ?_ (by simp [Call.runtimeDue])
    · simp [Call.pendingDue, indicator, hop, ChanHist.uplink, addElements]
      split <;> omega
    · simp [Call.wakeDue, indicator, hop, ChanHist.uplink, addElements]
      split <;> omega
  | ringDb =>
    simp only [queueOp]
    split
    · obtain ⟨ctxtWp, dbReg, dbCfg, heq⟩ := ringChanDb_eq cfg ch
      rw [heq]
      exact (undone_of_pop c.ret hop (by simp)).balanced hcall rfl rfl rfl
    · exact (undone_of_pop c.ret hop (by simp)).balanced hcall rfl rfl rfl
  | wakePut =>
    have hnil := QueueFn.after_wakePut (hc.suffix (by simp))
    refine .of_call hcall rfl rfl (by simp [Call.pendingDue]) ?_
      (by simp [Call.runtimeDue, Ctrl.active])
    cases hdir : cfg.dir <;> cases hassert : c.assertWake <;>
      simp [Call.wakeDue, indicator, hnil, hdir, hassert]
    omega
  | mapError =>
    have hnil := hc.after_mapError
    refine .of_call hcall rfl rfl (by simp [Call.pendingDue]) ?_
      (by simp [Call.runtimeDue, Ctrl.active])
    cases hdir : cfg.dir with
    | toDevice =>
      have hheld := hvote.asserted hdir (by simp [hnil]) (by simp)
      simp [Call.wakeDue, indicator, hnil, hdir, show c.assertWake = true from hheld]
      omega
    | fromDevice =>
      cases hassert : c.assertWake <;> simp [Call.wakeDue, indicator, hnil, hdir, hassert]
      omega

theorem Balanced.of_round {ch' : Chan} (hround : ch.round = some r) (hround' : ch'.round = some r')
    (hcall : ch'.call = ch.call)
    (hpending : k'.pendingPkts + r'.pendingDue cfg + ch.hist.uplink cfg =
      k.pendingPkts + r.pendingDue cfg + ch'.hist.uplink cfg)
    (hwake : k'.wake + r'.wakeDue cfg + ch.hist.uplink cfg =
      k.wake + r.wakeDue cfg + ch'.hist.uplink cfg)
    (hruntime : k'.runtime - k'.active + r'.runtimeDue = k.runtime - k.active + r.runtimeDue) :
    Balanced cfg k ch (k', ch') where
  pending := by
    simp only [Chan.pendingShare, hround, hround', hcall, elim_some]
    omega
  wake := by
    simp only [Chan.wakeShare, hround, hround', hcall, elim_some]
    omega
  runtime := by
    simp only [Chan.runtimeShare, hround, hround', hcall, elim_some]
    omega

theorem Balanced.refl {ch' : Chan} (hcall : ch'.call = ch.call) (hround : ch'.round = ch.round)
    (hhist : ch'.hist.uplink cfg = ch.hist.uplink cfg) : Balanced cfg k ch (k, ch') where
  pending := by simp only [Chan.pendingShare, hcall, hround, hhist]
  wake := by simp only [Chan.wakeShare, hcall, hround, hhist]
  runtime := by simp only [Chan.runtimeShare, hcall, hround]

theorem Balanced.trans {x : Ctrl × Chan} {y : Ctrl × Chan} (h : Balanced cfg k ch x)
    (h' : Balanced cfg x.1 x.2 y) : Balanced cfg k ch y where
  pending := h'.pending.trans h.pending
  wake := h'.wake.trans h.wake
  runtime := h'.runtime.trans h.runtime

theorem Balanced.call (hdue : c.pendingDue cfg = 0 ∧ c.wakeDue cfg = 0 ∧ c.runtimeDue = 0)
    (hcall : ch.call = none) : Balanced cfg k ch (k, { ch with call := some c }) where
  pending := by simp [Chan.pendingShare, hcall, hdue]
  wake := by simp [Chan.wakeShare, hcall, hdue]
  runtime := by simp [Chan.runtimeShare, hcall, hdue]

theorem Balanced.ret (hrest : c.rest = []) (hcall : ch.call = some c) :
    Balanced cfg k ch (k, { ch with call := none }) where
  pending := by simp [Chan.pendingShare, hcall, Call.pendingDue, indicator, hrest]
  wake := by simp [Chan.wakeShare, hcall, Call.wakeDue, indicator, hrest]
  runtime := by simp [Chan.runtimeShare, hcall, Call.runtimeDue, indicator, hrest]

theorem start_due (fn : QueueFn) (req : Req) (recycle : Bool)
    (h : fn = .prepare → cfg.dir = .fromDevice) :
    (Call.start fn req recycle).pendingDue cfg = 0 ∧
      (Call.start fn req recycle).wakeDue cfg = 0 ∧ (Call.start fn req recycle).runtimeDue = 0 := by
  cases fn with
  | prepare =>
    simp [Call.pendingDue, Call.wakeDue, Call.runtimeDue, Call.start, indicator, QueueFn.body,
      h rfl]
  | _ =>
    simp [Call.pendingDue, Call.wakeDue, Call.runtimeDue, Call.start, indicator, QueueFn.body]

theorem Loop.body_nodup (cfg : ChanCfg) (loop : Loop) : (loop.body cfg).Nodup := by
  cases loop <;> cases hpre : cfg.preAlloc <;> simp [Loop.body, hpre]

theorem Loop.after_decPending {loop : Loop} {ops : List RoundOp}
    (h : .decPending :: ops <:+ loop.body cfg) : .runtimePut ∈ ops := by
  cases loop <;> cases hpre : cfg.preAlloc <;>
    simp [Loop.body, hpre, suffix_cons_iff] at h <;> simp [h]

theorem Loop.after_runtimePut {loop : Loop} {ops : List RoundOp}
    (h : .runtimePut :: ops <:+ loop.body cfg) : .decPending ∉ ops := by
  cases loop <;> cases hpre : cfg.preAlloc <;>
    simp [Loop.body, hpre, suffix_cons_iff] at h <;> simp [h]

theorem roundOp_balanced {op : RoundOp} {x : Ctrl × Chan} (hinv : Inv cfg ch)
    (hround : ch.round = some { r with rest := op :: r.rest })
    (hstep : roundOp cfg k ch r op = some x) : Balanced cfg k ch x := by
  have hr := hinv.round _ hround
  have hop : op ∉ r.rest :=
    (nodup_cons.mp ((Loop.body_nodup cfg r.loop).sublist hr.fits.sublist)).1
  cases op with
  | del =>
    obtain rfl := some.inj hstep
    refine .of_round hround rfl rfl ?_ ?_ (by simp [Round.runtimeDue])
    · simp [Round.pendingDue, indicator, hop, ChanHist.uplink, delElements]
      split <;> omega
    · simp [Round.wakeDue, indicator, hop, ChanHist.uplink, delElements]
      split <;> omega
  | decPending =>
    obtain rfl := some.inj hstep
    have hput := Loop.after_decPending hr.fits
    split
    next hdir =>
      refine .of_round hround rfl rfl ?_ (by simp [Round.wakeDue]) ?_
      · simp [Round.pendingDue, indicator, hop, hdir]
        omega
      · simp [Round.runtimeDue, indicator, Ctrl.active, hop, hput]
        omega
    next hdir =>
      refine .of_round hround rfl rfl (by simp [Round.pendingDue, hdir])
        (by simp [Round.wakeDue]) ?_
      simp [Round.runtimeDue, indicator, hop]
  | runtimePut =>
    obtain rfl := some.inj hstep
    have hdec := Loop.after_runtimePut hr.fits
    refine .of_round hround rfl rfl (by simp [Round.pendingDue]) (by simp [Round.wakeDue]) ?_
    cases hlast : r.last <;> simp [Round.runtimeDue, indicator, Ctrl.active, hop, hdec, hlast]
    omega
  | wakePut =>
    obtain rfl := some.inj hstep
    refine .of_round hround rfl rfl (by simp [Round.pendingDue]) ?_
      (by simp [Round.runtimeDue, Ctrl.active])
    cases hdir : cfg.dir <;> simp [Round.wakeDue, indicator, hop, hdir]
    omega
  | xferCb =>
    obtain rfl := some.inj hstep
    exact .of_round hround rfl rfl (by simp [Round.pendingDue]; rfl) (by simp [Round.wakeDue]; rfl)
      (by simp [Round.runtimeDue])
  | resetCb =>
    obtain rfl := some.inj hstep
    exact .of_round hround rfl rfl (by simp [Round.pendingDue]; rfl) (by simp [Round.wakeDue]; rfl)
      (by simp [Round.runtimeDue])
  | recycle =>
    simp only [roundOp] at hstep
    split at hstep
    next => cases hstep
    next hcall =>
      obtain rfl := some.inj hstep
      have hpop : Balanced cfg k ch (k, { ch with round := some r }) :=
        .of_round hround rfl rfl (by simp [Round.pendingDue]) (by simp [Round.wakeDue])
          (by simp [Round.runtimeDue])
      exact hpop.trans (.call (start_due _ _ _ (by simp)) hcall)
  | recycled =>
    simp only [roundOp] at hstep
    split at hstep
    next => cases hstep
    next c hcall =>
      split at hstep
      next hdone =>
        obtain rfl := some.inj hstep
        have hpop : Balanced cfg k ch (k, { ch with round := some r }) :=
          .of_round hround rfl rfl (by simp [Round.pendingDue]) (by simp [Round.wakeDue])
            (by simp [Round.runtimeDue])
        exact (hpop.trans (.ret hdone.2 hcall)).trans (.refl rfl rfl rfl)
      next => cases hstep

theorem VoteOk.done (h : VoteOk cfg c) (hrest : c'.rest = []) (hfn : c'.fn = c.fn) :
    VoteOk cfg c' where
  asserted _ _ hne := absurd hrest hne
  prepare heq := h.prepare (hfn.symm.trans heq)

theorem VoteOk.pop {op : QueueOp} (h : VoteOk cfg { c with rest := op :: c.rest })
    (hop : op ≠ .wakeGet) (hfn : c'.fn = c.fn) (hrest : c'.rest = c.rest)
    (hassert : c'.assertWake = c.assertWake) : VoteOk cfg c' where
  asserted hdir hgone _ := by
    rw [hassert]
    rw [hrest] at hgone
    exact h.asserted hdir (by simp [hop.symm, hgone]) (by simp)
  prepare heq := h.prepare (hfn.symm.trans heq)

theorem genTre_voteOk {mapped : Option Nat}
    (hfits : .genTre :: c.rest <:+ c.fn.body)
    (h : VoteOk cfg { c with rest := .genTre :: c.rest })
    (hcall : (genTre cfg ch c mapped).call = some c') : VoteOk cfg c' := by
  unfold genTre at hcall
  dsimp only at hcall
  split at hcall
  · obtain rfl := some.inj hcall
    by_cases hfn : c.fn = .skb
    · have hrest : c.rest = [.incPending, .runtimeGet, .addElements, .ringDb, .wakePut] := by
        simpa [QueueFn.body, suffix_cons_iff, hfn] using hfits
      exact ⟨fun hdir _ _ => h.asserted hdir (by simp [hrest]) (by simp), h.prepare⟩
    · exact h.done (by simp [Call.fail, hfn]) rfl
  · obtain rfl := some.inj hcall
    exact h.pop (by simp) rfl rfl rfl

theorem queueOp_voteOk {op : QueueOp} {mapped : Option Nat}
    (hc : CallOk cfg.elements ch.hist ch.slots c.fn (c.req.buf, c.req.len) (op :: c.rest))
    (h : VoteOk cfg { c with rest := op :: c.rest })
    (hcall : (queueOp cfg k ch c mapped op).2.call = some c') : VoteOk cfg c' := by
  cases op with
  | isRingFull =>
    obtain rfl := some.inj hcall
    split
    · exact h.done rfl rfl
    · exact h.pop (by simp) rfl rfl rfl
  | inErrorState =>
    obtain rfl := some.inj hcall
    split
    · exact h.done rfl rfl
    · exact h.pop (by simp) rfl rfl rfl
  | wakeGet =>
    obtain rfl := some.inj hcall
    exact ⟨fun hdir _ _ => by simp [hdir], h.prepare⟩
  | genTre => exact genTre_voteOk (hc.suffix (by simp)) h hcall
  | incPending =>
    simp only [queueOp] at hcall
    split at hcall <;>
      (obtain rfl := some.inj hcall; exact h.pop (by simp) rfl rfl rfl)
  | _ =>
    obtain rfl := some.inj hcall
    exact h.pop (by simp) rfl rfl rfl

/-- A channel whose calls are in order. -/
structure VoteInv (cfg : ChanCfg) (ch : Chan) : Prop where
  inv : Inv cfg ch
  votes : ∀ c, ch.call = some c → VoteOk cfg c

theorem queueStep_balanced (h : VoteInv cfg ch) {mapped : Option Nat} {x : Ctrl × Chan}
    (hstep : queueStep cfg k ch mapped = some x) :
    Balanced cfg k ch x ∧ ∀ c, x.2.call = some c → VoteOk cfg c := by
  unfold queueStep at hstep
  cases hcall : ch.call with
  | none => simp [hcall] at hstep
  | some c =>
    cases hrest : c.rest with
    | nil => simp [hcall, hrest] at hstep
    | cons op rest =>
      obtain rfl : queueOp cfg k ch { c with rest := rest } mapped op = x := by
        simpa [hcall, hrest] using hstep
      have hcall' : ch.call = some { c with rest := op :: rest } := by rw [hcall, ← hrest]
      have hvote := h.votes _ hcall'
      have hc := h.inv.call _ hcall'
      exact ⟨queueOp_balanced (c := { c with rest := rest }) h.inv hcall' hvote mapped,
        fun _ hcall'' => queueOp_voteOk (c := { c with rest := rest }) hc hvote hcall''⟩

theorem Balanced.round_of_due (hround : ch.round.elim 0 (Round.pendingDue cfg) = 0 ∧
      ch.round.elim 0 (Round.wakeDue cfg) = 0 ∧ ch.round.elim 0 Round.runtimeDue = 0)
    {round : Option Round} (hround' : round.elim 0 (Round.pendingDue cfg) = 0 ∧
      round.elim 0 (Round.wakeDue cfg) = 0 ∧ round.elim 0 Round.runtimeDue = 0) :
    Balanced cfg k ch (k, { ch with round := round }) where
  pending := by simp [Chan.pendingShare, hround, hround']
  wake := by simp [Chan.wakeShare, hround, hround']
  runtime := by simp [Chan.runtimeShare, hround, hround']

theorem due_nil (cfg : ChanCfg) (h : r.rest = []) :
    r.pendingDue cfg = 0 ∧ r.wakeDue cfg = 0 ∧ r.runtimeDue = 0 := by
  simp [Round.pendingDue, Round.wakeDue, Round.runtimeDue, indicator, h]

theorem due_body (h : r.rest = r.loop.body cfg) :
    r.pendingDue cfg = 0 ∧ r.wakeDue cfg = 0 ∧ r.runtimeDue = 0 := by
  cases hloop : r.loop <;>
    simp [Round.pendingDue, Round.wakeDue, Round.runtimeDue, indicator, h, hloop, Loop.body]

theorem roundStep_balanced (h : Inv cfg ch) {x : Ctrl × Chan}
    (hstep : roundStep cfg k ch = some x) :
    Balanced cfg k ch x := by
  unfold roundStep at hstep
  cases hround : ch.round with
  | none => simp [hround] at hstep
  | some r =>
    cases hrest : r.rest with
    | nil =>
      simp only [hround, bind_eq_bind, bind_some, hrest, some.injEq] at hstep
      obtain rfl := hstep
      refine .round_of_due ?_ ?_
      · rw [hround]
        exact due_nil cfg hrest
      · split
        · exact due_body rfl
        · exact ⟨rfl, rfl, rfl⟩
    | cons op rest =>
      have hop : roundOp cfg k ch { r with rest := rest } op = some x := by
        simpa [hround, hrest] using hstep
      exact roundOp_balanced (r := { r with rest := rest }) h (by rw [hround, ← hrest]) hop

theorem parseXferEvent_call (cfg : ChanCfg) (k : Ctrl) (ch : Chan) (event : Tre) :
    (parseXferEvent cfg k ch event).call = ch.call ∧
      (parseXferEvent cfg k ch event).hist = ch.hist ∧
      ((parseXferEvent cfg k ch event).round = ch.round ∨
        ∃ loop, (parseXferEvent cfg k ch event).round = some (.start loop)) := by
  unfold parseXferEvent
  dsimp only
  split
  · exact ⟨rfl, rfl, .inl rfl⟩
  split
  · exact ⟨rfl, rfl, .inr ⟨_, rfl⟩⟩
  split
  · split
    · obtain ⟨ctxtWp, dbReg, dbCfg, heq⟩ :=
        ringChanDb_eq cfg { ch with dbCfg := { ch.dbCfg with dbMode := true } }
      rw [heq]
      exact ⟨rfl, rfl, .inl rfl⟩
    · exact ⟨rfl, rfl, .inl rfl⟩
  · exact ⟨rfl, rfl, .inl rfl⟩

theorem Balanced.start {ch' : Chan} (hround : ch.round = none) (hcall : ch'.call = ch.call)
    (hhist : ch'.hist = ch.hist)
    (hround' : ch'.round = ch.round ∨ ∃ loop, ch'.round = some (.start loop)) :
    Balanced cfg k ch (k, ch') := by
  rcases hround' with heq | ⟨loop, heq⟩
  · exact .refl hcall heq (by rw [hhist])
  · have hdue := due_nil cfg (r := .start loop) rfl
    have hstart : Balanced cfg k ch (k, { ch with round := some (.start loop) }) :=
      .round_of_due (by simp [hround]) hdue
    exact hstart.trans (.refl hcall heq (by rw [hhist]))

theorem VoteOk.start {fn : QueueFn} {req : Req} {recycle : Bool}
    (h : fn = .prepare → cfg.dir = .fromDevice) : VoteOk cfg (.start fn req recycle) where
  asserted hdir hgone _ := by
    cases fn with
    | prepare => simp [h rfl] at hdir
    | _ => exact absurd (by simp [Call.start, QueueFn.body]) hgone
  prepare := h

theorem roundStep_call {x : Ctrl × Chan} (hstep : roundStep cfg k ch = some x)
    (hc : x.2.call = some c) : ch.call = some c ∨ ∃ req, c = .start .buf req true := by
  unfold roundStep at hstep
  cases hround : ch.round with
  | none => simp [hround] at hstep
  | some r =>
    cases hrest : r.rest with
    | nil =>
      simp only [hround, bind_eq_bind, bind_some, hrest, some.injEq] at hstep
      obtain rfl := hstep
      exact .inl hc
    | cons op rest =>
      have hop : roundOp cfg k ch { r with rest := rest } op = some x := by
        simpa [hround, hrest] using hstep
      cases op with
      | recycle =>
        simp only [roundOp] at hop
        split at hop
        next => cases hop
        next =>
          obtain rfl := some.inj hop
          exact .inr ⟨_, (some.inj hc).symm⟩
      | recycled =>
        simp only [roundOp] at hop
        split at hop
        next => cases hop
        next =>
          obtain ⟨_, ⟨⟩⟩ := ite_none_right_eq_some.mp hop
          cases hc
      | decPending =>
        obtain rfl := some.inj hop
        split at hc
        · exact .inl hc
        · exact .inl hc
      | _ =>
        obtain rfl := some.inj hop
        exact .inl hc

theorem chanStep_balanced (h : VoteInv cfg ch) {l : ChanLabel} {x : Ctrl × Chan}
    (hstep : chanStep cfg k ch l = some x) :
    Balanced cfg k ch x ∧ ∀ c, x.2.call = some c → VoteOk cfg c := by
  cases l with
  | call fn req =>
    obtain ⟨⟨hcall, hfn⟩, ⟨⟩⟩ := ite_none_right_eq_some.mp hstep
    refine ⟨.call (start_due fn req false fun heq => absurd heq hfn) hcall, ?_⟩
    rintro _ ⟨⟩
    exact .start fun heq => absurd heq hfn
  | prepare buf len =>
    obtain ⟨⟨hcall, hpre, _⟩, ⟨⟩⟩ := ite_none_right_eq_some.mp hstep
    have hdir := cfg.fromDevice_of_preAlloc hpre
    refine ⟨.call (start_due _ _ _ fun _ => hdir) hcall, ?_⟩
    rintro _ ⟨⟩
    exact .start fun _ => hdir
  | queue mapped => exact queueStep_balanced h hstep
  | ret =>
    simp only [chanStep] at hstep
    split at hstep
    next c hcall =>
      obtain ⟨hdone, ⟨⟩⟩ := ite_none_right_eq_some.mp hstep
      refine ⟨.ret hdone.2 hcall, ?_⟩
      rintro _ ⟨⟩
    next => cases hstep
  | event event =>
    obtain ⟨hround, ⟨⟩⟩ := ite_none_right_eq_some.mp hstep
    obtain ⟨hcall, hhist, hround'⟩ := parseXferEvent_call cfg k ch event
    refine ⟨.start hround hcall hhist hround', fun c hc => h.votes c ?_⟩
    rw [← hcall, hc]
  | reset =>
    obtain ⟨hround, ⟨⟩⟩ := ite_none_right_eq_some.mp hstep
    exact ⟨.start hround rfl rfl (.inr ⟨.reset, rfl⟩), h.votes⟩
  | round =>
    refine ⟨roundStep_balanced h.inv hstep, fun c hc => ?_⟩
    rcases roundStep_call hstep hc with hsame | ⟨req, rfl⟩
    · exact h.votes c hsame
    · exact .start (by simp)
  | chState st =>
    obtain ⟨_, ⟨⟩⟩ := ite_none_right_eq_some.mp hstep
    exact ⟨.refl rfl rfl rfl, h.votes⟩

end

section

variable {ι : Type} [DecidableEq ι] [Fintype ι]

open Finset

/-- The controller's counts are the shares of its channels. -/
structure SysInv (cfg : ι → ChanCfg) (s : Sys ι) : Prop where
  chans : ∀ i, VoteInv (cfg i) (s.chans i)
  pending : s.ctrl.pendingPkts = ∑ i, (s.chans i).pendingShare (cfg i)
  wake : s.ctrl.wake = ∑ i, (s.chans i).wakeShare (cfg i)
  runtime : s.ctrl.runtime = s.ctrl.active + ∑ i, (s.chans i).runtimeShare

variable {cfg : ι → ChanCfg} {s t : Sys ι}

omit [DecidableEq ι] in
theorem init_sysInv (cfg : ι → ChanCfg) : SysInv cfg (init cfg) where
  chans i := ⟨chanInit_inv (cfg i), by simp [init, chanInit]⟩
  pending := by simp [init, chanInit, Chan.pendingShare, ChanHist.uplink]
  wake := by simp [init, chanInit, Chan.wakeShare, ChanHist.uplink]
  runtime := by simp [init, chanInit, Chan.runtimeShare, Ctrl.active, indicator]

theorem SysInv.step (h : SysInv cfg s) {l : Label ι} (hok : EventsOk s l)
    (hstep : step cfg s l = some t) : SysInv cfg t := by
  have hinv := Inv.step (fun i => (h.chans i).inv) hok hstep
  cases l with
  | pm st =>
    obtain rfl := some.inj hstep
    exact { h with }
  | chan i l =>
    obtain ⟨x, hx, rfl⟩ := map_eq_some_iff.mp hstep
    obtain ⟨hbal, hvotes⟩ := chanStep_balanced (h.chans i) hx
    exact
    { chans := by
        intro j
        refine ⟨hinv j, ?_⟩
        by_cases hij : j = i
        · subst hij
          simpa using hvotes
        · simpa [Function.update_of_ne hij] using (h.chans j).votes
      pending := by
        have hsum := sum_update (fun j ch => ch.pendingShare (cfg j)) s.chans i x.2
        have := h.pending
        have := hbal.pending
        dsimp only at hsum ⊢
        omega
      wake := by
        have hsum := sum_update (fun j ch => ch.wakeShare (cfg j)) s.chans i x.2
        have := h.wake
        have := hbal.wake
        dsimp only at hsum ⊢
        omega
      runtime := by
        have hsum := sum_update (fun _ ch => ch.runtimeShare) s.chans i x.2
        have := h.runtime
        have := hbal.runtime
        dsimp only at hsum ⊢
        omega }

def Sys.uplinkOutstanding (cfg : ι → ChanCfg) (s : Sys ι) : Int :=
  ∑ i, if (cfg i).dir = .toDevice then ((s.chans i).treRing.outstanding : Int) else 0

def Sys.Idle (s : Sys ι) : Prop := ∀ i, (s.chans i).call = none ∧ (s.chans i).round = none

instance (s : Sys ι) : Decidable s.Idle :=
  inferInstanceAs (Decidable (∀ i, (s.chans i).call = none ∧ (s.chans i).round = none))

structure VotesMatched (cfg : ι → ChanCfg) (s : Sys ι) : Prop where
  pendingPkts : s.ctrl.pendingPkts = s.uplinkOutstanding cfg
  wake : s.ctrl.wake = s.uplinkOutstanding cfg
  runtime : s.ctrl.runtime = if 0 < s.ctrl.pendingPkts then 1 else 0

theorem RingsAt.uplink_eq {cfg : ChanCfg} {ch : Chan} (h : RingsAt cfg ch) :
    ch.hist.uplink cfg =
      if cfg.dir = .toDevice then (ch.treRing.outstanding : Int) else 0 := by
  have hle := h.taken_le
  rw [ChanHist.uplink, h.tre.outstanding_eq hle h.accepted_lt, Nat.cast_sub hle]

theorem votes_matched (cfg : ι → ChanCfg) {s : Sys ι}
    (h : Transition.Reaches (Mhi.step cfg) EventsOk (init cfg) s) (hidle : s.Idle) :
    VotesMatched cfg s := by
  have hinv : SysInv cfg s :=
    h.invariant (init_sysInv cfg) fun _ _ _ hs hl hstep => hs.step hl hstep
  have hup : ∀ i, (s.chans i).hist.uplink (cfg i) =
      if (cfg i).dir = .toDevice then ((s.chans i).treRing.outstanding : Int) else 0 :=
    fun i => (hinv.chans i).inv.rings.uplink_eq
  have hshare : ∀ i, (s.chans i).runtimeShare = 0 := fun i => by
    simp [Chan.runtimeShare, (hidle i).1, (hidle i).2]
  refine ⟨hinv.pending.trans ?_, hinv.wake.trans ?_, ?_⟩
  · simp only [Chan.pendingShare, (hidle _).1, (hidle _).2, elim_none, Int.sub_zero, hup]
    rfl
  · simp only [Chan.wakeShare, (hidle _).1, (hidle _).2, elim_none, Int.sub_zero, hup]
    rfl
  · rw [hinv.runtime, sum_congr rfl fun i _ => hshare i, sum_const_zero, Int.add_zero]
    rfl

/-- Of two packets on two channels one is completed. -/
theorem votes_matched_pending :
    let cfg : Bool → ChanCfg := fun i =>
      ⟨4, .toDevice, false, 0, i, 0x8000, 0x1000, 0x2000, by decide, by decide, by decide,
        by decide⟩
    ∃ s, Transition.Reaches (step cfg) EventsOk (init cfg) s ∧
      (s.Idle ∧ s.ctrl.pendingPkts = 1 ∧ (s.chans true).hist.completed.map Done.buf = [7]) ∧
      VotesMatched cfg s := by
  intro cfg
  let packet (i : Bool) (buf : Nat) : List (Label Bool) :=
    [.chan i (.call (if i then .buf else .skb) ⟨buf, buf, 60, mhiEot⟩)] ++
      replicate 11 (.chan i (.queue (some buf))) ++ [.chan i .ret]
  obtain ⟨s, hs, hrun⟩ : ∃ s, Transition.Reaches (step cfg) EventsOk (init cfg) s ∧
      (s.Idle ∧ s.ctrl.pendingPkts = 1 ∧ (s.chans true).hist.completed.map Done.buf = [7]) :=
    Transition.exists_of_run
      ([.pm .m0, .chan true (.chState .enabled)] ++ packet true 7 ++ packet false 8 ++
        [.chan true (.event ⟨0x8000, 0x02000000, 0⟩)] ++ replicate 7 (.chan true .round))
      (by decide)
  exact ⟨s, hs, hrun, votes_matched cfg hs hrun.1⟩

end

end ModemSupport.Mhi
