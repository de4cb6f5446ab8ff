import ModemSupport.Mhi.ChanRings
import ModemSupport.Mhi.Doorbell

/-! No element of a started channel in burst mode stays unseen: `db_mode` is set, the device works
on the channel, or an event or a transition is on its way that sets it. -/

namespace ModemSupport.Mhi.Doorbell

open ModemSupport.Lib List Option

section

variable {cfg : ChanCfg} {k : Ctrl} {ch : Chan} {fn : QueueFn} {rest : List QueueOp}

theorem after_check {op : QueueOp} (h : op :: rest <:+ fn.body)
    (hop : op = .isRingFull ∨ op = .inErrorState ∨ op = .genTre) : .addElements ∈ rest := by
  rcases hop with rfl | rfl | rfl <;> cases fn <;>
    simp [QueueFn.body, suffix_cons_iff] at h <;> simp [h]

theorem after_addElements (h : .addElements :: rest <:+ fn.body) :
    fn = .prepare ∨ .addElements ∉ rest ∧ .ringDb ∈ rest := by
  cases fn <;> simp [QueueFn.body, suffix_cons_iff] at h <;> simp [h]

/-- An element is published whose doorbell is still to come. -/
def RingDue (ch : Chan) : Prop :=
  ∃ call, ch.call = some call ∧ .addElements ∉ call.rest ∧ .ringDb ∈ call.rest

theorem not_ringDue_of_none (h : ch.call = none) : ¬RingDue ch := by
  rintro ⟨call, hcall, _⟩
  rw [h] at hcall
  cases hcall

theorem ringDue_iff {call : Call} (h : ch.call = some call) :
    RingDue ch ↔ .addElements ∉ call.rest ∧ .ringDb ∈ call.rest := by
  constructor
  · rintro ⟨call', hcall, hdue⟩
    obtain rfl := some.inj (h.symm.trans hcall)
    exact hdue
  · exact fun hdue => ⟨call, h, hdue⟩

/-- A step of a queue call, of a completion or of their clients: it changes nothing that the device
sees, or publishes an element, or rings the doorbell. -/
inductive Move (cfg : ChanCfg) (k : Ctrl) (ch : Chan) (writes : Bool) (ch' : Chan) : Prop
  | same (accepted : ch'.hist.accepted = ch.hist.accepted) (ctxtWp : ch'.ctxtWp = ch.ctxtWp)
      (dbCfg : ch'.dbCfg = ch.dbCfg) (due : RingDue ch' ↔ RingDue ch) (written : writes = false)
  | publish (entry : Nat × Nat) (accepted : ch'.hist.accepted = ch.hist.accepted ++ [entry])
      (ctxtWp : ch'.ctxtWp = ch.ctxtWp) (dbCfg : ch'.dbCfg = ch.dbCfg)
      (due : RingDue ch' ∨ ∃ call, ch.call = some call ∧ call.fn = .prepare)
      (written : writes = false)
  | ring (accepted : ch'.hist.accepted = ch.hist.accepted)
      (ctxtWp : ch'.ctxtWp = if k.pmState.dbAccessValid then (ringChanDb cfg ch).ctxtWp
        else ch.ctxtWp)
      (dbCfg : ch'.dbCfg = if k.pmState.dbAccessValid then (ringChanDb cfg ch).dbCfg else ch.dbCfg)
      (due : RingDue ch)
      (written : writes = (k.pmState.dbAccessValid && ch.dbCfg.dbMode))

structure Kept (k : Ctrl) (ch : Chan) (x : Ctrl × Chan) : Prop where
  pmState : x.1.pmState = k.pmState
  chState : x.2.chState = ch.chState
  taken : x.2.hist.taken = ch.hist.taken
  round : x.2.round = ch.round

theorem ringChanDb_kept (cfg : ChanCfg) (ch : Chan) :
    (ringChanDb cfg ch).hist = ch.hist ∧ (ringChanDb cfg ch).round = ch.round ∧
      (ringChanDb cfg ch).chState = ch.chState ∧ (ringChanDb cfg ch).call = ch.call ∧
      (ringChanDb cfg ch).treRing = ch.treRing := by
  obtain ⟨ctxtWp, dbReg, dbCfg, heq⟩ := ringChanDb_eq cfg ch
  rw [heq]
  exact ⟨rfl, rfl, rfl, rfl, rfl⟩

theorem genTre_kept (cfg : ChanCfg) (ch : Chan) (c : Call) (mapped : Option Nat) :
    Kept k ch (k, genTre cfg ch c mapped) ∧ (genTre cfg ch c mapped).hist = ch.hist ∧
      (genTre cfg ch c mapped).ctxtWp = ch.ctxtWp ∧ (genTre cfg ch c mapped).dbCfg = ch.dbCfg := by
  unfold genTre
  dsimp only
  split
  · exact ⟨⟨rfl, rfl, rfl, rfl⟩, rfl, rfl, rfl⟩
  · exact ⟨⟨rfl, rfl, rfl, rfl⟩, rfl, rfl, rfl⟩

theorem queueOp_kept (cfg : ChanCfg) (k : Ctrl) (ch : Chan) (c : Call) (mapped : Option Nat)
    (op : QueueOp) : Kept k ch (queueOp cfg k ch c mapped op) := by
  cases op with
  | genTre => exact (genTre_kept cfg ch c mapped).1
  | incPending =>
    simp only [queueOp]
    split
    · exact ⟨rfl, rfl, rfl, rfl⟩
    · exact ⟨rfl, rfl, rfl, rfl⟩
  | ringDb =>
    simp only [queueOp]
    obtain ⟨hhist, hround, hstate, _⟩ := ringChanDb_kept cfg ch
    cases k.pmState.dbAccessValid with
    | true => exact ⟨rfl, hstate, congrArg ChanHist.taken hhist, hround⟩
    | false => exact ⟨rfl, rfl, rfl, rfl⟩
  | _ => exact ⟨rfl, rfl, rfl, rfl⟩

theorem queueOp_fn (cfg : ChanCfg) (k : Ctrl) (ch : Chan) (c : Call) (mapped : Option Nat)
    (op : QueueOp) : ∃ c', (queueOp cfg k ch c mapped op).2.call = some c' ∧ c'.fn = c.fn := by
  cases op with
  | isRingFull =>
    refine ⟨_, rfl, ?_⟩
    split <;> rfl
  | inErrorState =>
    refine ⟨_, rfl, ?_⟩
    split <;> rfl
  | genTre =>
    simp only [queueOp, genTre]
    split
    · exact ⟨_, rfl, rfl⟩
    · exact ⟨_, rfl, rfl⟩
  | incPending =>
    simp only [queueOp]
    split
    · exact ⟨_, rfl, rfl⟩
    · exact ⟨_, rfl, rfl⟩
  | _ => exact ⟨_, rfl, rfl⟩

section

variable {c : Call} {op : QueueOp}

theorem Move.check {n : Nat} {hist : ChanHist} {slots : Nat → Nat × Nat} {entry : Nat × Nat}
    (hc : CallOk n hist slots c.fn entry (op :: c.rest))
    (hop : op = .isRingFull ∨ op = .inErrorState ∨ op = .genTre)
    (hcall : ch.call = some { c with rest := op :: c.rest }) {ch' : Chan} {c' : Call}
    (hcall' : ch'.call = some c')
    (hrest : c'.rest = c.rest ∨ c'.rest = [] ∨ c'.rest = [.mapError])
    (hhist : ch'.hist = ch.hist) (hwp : ch'.ctxtWp = ch.ctxtWp) (hdb : ch'.dbCfg = ch.dbCfg) :
    Move cfg k ch false ch' := by
  have hadd := after_check (hc.suffix (by rcases hop with rfl | rfl | rfl <;> simp)) hop
  refine .same (by rw [hhist]) hwp hdb ?_ rfl
  rw [ringDue_iff hcall', ringDue_iff hcall]
  refine iff_of_false ?_ fun hdue => hdue.1 (mem_cons_of_mem _ hadd)
  rintro ⟨hgone, hring⟩
  rcases hrest with heq | heq | heq
  · rw [heq] at hgone
    exact hgone hadd
  · rw [heq] at hring
    cases hring
  · simp [heq] at hring

theorem Move.pop (hop : op ≠ .addElements ∧ op ≠ .ringDb)
    (hcall : ch.call = some { c with rest := op :: c.rest }) {ch' : Chan} {c' : Call}
    (hcall' : ch'.call = some c') (hrest : c'.rest = c.rest)
    (hhist : ch'.hist = ch.hist) (hwp : ch'.ctxtWp = ch.ctxtWp) (hdb : ch'.dbCfg = ch.dbCfg) :
    Move cfg k ch false ch' := by
  refine .same (by rw [hhist]) hwp hdb ?_ rfl
  rw [ringDue_iff hcall', ringDue_iff hcall, hrest]
  simp [hop.1.symm, hop.2.symm]

theorem queueOp_move (hinv : Mhi.Inv cfg ch)
    (hcall : ch.call = some { c with rest := op :: c.rest }) (mapped : Option Nat) :
    Move cfg k ch (op = .ringDb && k.pmState.dbAccessValid && ch.dbCfg.dbMode)
      (queueOp cfg k ch c mapped op).2 := by
  have hc := hinv.call _ hcall
  cases op with
  | isRingFull =>
    refine .check hc (by simp) hcall rfl ?_ rfl rfl rfl
    split
    · exact .inr (.inl rfl)
    · exact .inl rfl
  | inErrorState =>
    refine .check hc (by simp) hcall rfl ?_ rfl rfl rfl
    split
    · exact .inr (.inl rfl)
    · exact .inl rfl
  | genTre =>
    obtain ⟨_, hhist, hwp, hdb⟩ := genTre_kept (k := k) cfg ch c mapped
    obtain ⟨c', hcall', hrest⟩ : ∃ c', (genTre cfg ch c mapped).call = some c' ∧
        (c'.rest = c.rest ∨ c'.rest = [] ∨ c'.rest = [.mapError]) := by
      unfold genTre
      dsimp only
      split
      · refine ⟨_, rfl, ?_⟩
        simp only [Call.fail]
        split
        · exact .inr (.inr rfl)
        · exact .inr (.inl rfl)
      · exact ⟨_, rfl, .inl rfl⟩
    exact .check hc (by simp) hcall hcall' hrest hhist hwp hdb
  | addElements =>
    refine .publish (c.req.buf, c.req.len) rfl rfl rfl ?_ rfl
    rcases after_addElements (hc.suffix (by simp)) with hfn | hdue
    · exact .inr ⟨_, hcall, hfn⟩
    · exact .inl ⟨c, rfl, hdue⟩
  | ringDb =>
    have hbefore : RingDue ch := by
      rw [ringDue_iff hcall]
      have hadd : QueueOp.addElements ∉ c.rest := by
        have hfits := hc.suffix (by simp)
        cases hfn : c.fn <;> rw [hfn] at hfits <;>
          simp [QueueFn.body, suffix_cons_iff] at hfits <;> simp [hfits]
      simp [hadd]
    obtain ⟨hhist, _⟩ := ringChanDb_kept cfg ch
    simp only [queueOp]
    cases hvalid : k.pmState.dbAccessValid with
    | true =>
      exact .ring (congrArg ChanHist.accepted hhist) (by rw [hvalid]; rfl) (by rw [hvalid]; rfl)
        hbefore (by simp [hvalid])
    | false =>
      exact .ring rfl (by rw [hvalid]; rfl) (by rw [hvalid]; rfl) hbefore (by simp [hvalid])
  | incPending =>
    simp only [queueOp]
    split
    · exact .pop (by simp) hcall rfl rfl rfl rfl rfl
    · exact .pop (by simp) hcall rfl rfl rfl rfl rfl
  | suspendGet => exact .pop (by simp) hcall rfl rfl rfl rfl rfl
  | suspendPut => exact .pop (by simp) hcall rfl rfl rfl rfl rfl
  | wakeGet => exact .pop (by simp) hcall rfl rfl rfl rfl rfl
  | runtimeGet => exact .pop (by simp) hcall rfl rfl rfl rfl rfl
  | wakePut => exact .pop (by simp) hcall rfl rfl rfl rfl rfl
  | mapError => exact .pop (by simp) hcall rfl rfl rfl rfl rfl

end

theorem not_ringDue_start {fn : QueueFn} {req : Req} {recycle : Bool}
    (h : ch.call = some (.start fn req recycle)) : ¬RingDue ch := by
  rw [ringDue_iff h]
  cases fn <;> simp [Call.start, QueueFn.body]

theorem not_ringDue_of_done {call : Call} (h : ch.call = some call) (hrest : call.rest = []) :
    ¬RingDue ch := by
  rw [ringDue_iff h, hrest]
  simp

/-- The loop that fills the ring belongs to the start of the channel. -/
def PrepareOk (ch : Chan) (starting : Bool) : Prop :=
  ∀ call, ch.call = some call → call.fn = .prepare → starting = true

structure Moves (cfg : ChanCfg) (k : Ctrl) (ch : Chan) (writes starting : Bool)
    (x : Ctrl × Chan) : Prop where
  move : Move cfg k ch writes x.2
  pmState : x.1.pmState = k.pmState
  chState : x.2.chState = ch.chState
  prepare : PrepareOk ch starting → PrepareOk x.2 starting

variable {starting : Bool} {x : Ctrl × Chan}

theorem Moves.of_call (hhist : x.2.hist.accepted = ch.hist.accepted) (hwp : x.2.ctxtWp = ch.ctxtWp)
    (hdb : x.2.dbCfg = ch.dbCfg) (hcall : x.2.call = ch.call) (hpm : x.1.pmState = k.pmState)
    (hstate : x.2.chState = ch.chState) : Moves cfg k ch false starting x where
  move := .same hhist hwp hdb (by rw [RingDue, RingDue, hcall]) rfl
  pmState := hpm
  chState := hstate
  prepare h := by
    unfold PrepareOk
    rwa [hcall]

theorem Moves.start {fn : QueueFn} {req : Req} {recycle : Bool} (hcall : ch.call = none)
    (hfn : fn = .prepare → starting = true) {round : Option Round} :
    Moves cfg k ch false starting
      (k, { ch with call := some (.start fn req recycle), round := round }) where
  move := .same rfl rfl rfl (iff_of_false (not_ringDue_start rfl) (not_ringDue_of_none hcall)) rfl
  pmState := rfl
  chState := rfl
  prepare _ := by
    rintro _ ⟨⟩
    exact hfn

theorem Moves.done {call : Call} (hcall : ch.call = some call) (hrest : call.rest = [])
    {round : Option Round} {freed : List Nat} :
    Moves cfg k ch false starting (k, { ch with
      call := none, round := round, hist := { ch.hist with freed := freed } }) where
  move := .same rfl rfl rfl
    (iff_of_false (not_ringDue_of_none rfl) (not_ringDue_of_done hcall hrest)) rfl
  pmState := rfl
  chState := rfl
  prepare _ := by
    rintro _ ⟨⟩

theorem roundOp_moves {r : Round} {op : RoundOp} (hstep : roundOp cfg k ch r op = some x) :
    Moves cfg k ch false starting x := by
  cases op with
  | recycle =>
    simp only [roundOp] at hstep
    split at hstep
    next => cases hstep
    next hcall =>
      obtain rfl := some.inj hstep
      exact .start hcall (by simp)
  | recycled =>
    simp only [roundOp] at hstep
    split at hstep
    next => cases hstep
    next c hcall =>
      obtain ⟨hdone, heq⟩ := ite_none_right_eq_some.mp hstep
      obtain rfl := some.inj heq
      exact .done hcall hdone.2
  | decPending =>
    obtain rfl := some.inj hstep
    split
    · exact .of_call rfl rfl rfl rfl rfl rfl
    · exact .of_call rfl rfl rfl rfl rfl rfl
  | _ =>
    obtain rfl := some.inj hstep
    exact .of_call rfl rfl rfl rfl rfl rfl

theorem roundStep_moves (hstep : roundStep cfg k ch = some x) :
    Moves cfg k ch false starting x := by
  unfold roundStep at hstep
  cases hround : ch.round with
  | none => simp [hround] at hstep
  | some r =>
    cases hrest : r.rest with
    | nil =>
      simp only [hround, bind_eq_bind, bind_some, hrest, some.injEq] at hstep
      obtain rfl := hstep
      exact .of_call rfl rfl rfl rfl rfl rfl
    | cons op rest =>
      have hop : roundOp cfg k ch { r with rest := rest } op = some x := by
        simpa [hround, hrest] using hstep
      exact roundOp_moves hop

theorem queueStep_moves (hinv : Mhi.Inv cfg ch) {mapped : Option Nat}
    (hstep : queueStep cfg k ch mapped = some x) :
    Moves cfg k ch ((ch.call.any fun c => c.rest.head? = some .ringDb) &&
      k.pmState.dbAccessValid && ch.dbCfg.dbMode) starting x := by
  unfold queueStep at hstep
  cases hcall : ch.call with
  | none => simp [hcall] at hstep
  | some call =>
    cases hrest : call.rest with
    | nil => simp [hcall, hrest] at hstep
    | cons op rest =>
      obtain rfl : queueOp cfg k ch { call with rest := rest } mapped op = x := by
        simpa [hcall, hrest] using hstep
      have hmove := queueOp_move (k := k) (c := { call with rest := rest }) hinv
        (by rw [hcall, ← hrest]) mapped
      have hkept := queueOp_kept cfg k ch { call with rest := rest } mapped op
      obtain ⟨call', hcall', hfn⟩ := queueOp_fn cfg k ch { call with rest := rest } mapped op
      exact
      { move := by simpa [hrest] using hmove
        pmState := hkept.pmState
        chState := hkept.chState
        prepare := by
          intro h call'' hcall'' hprepare
          obtain rfl := some.inj (hcall'.symm.trans hcall'')
          exact h call hcall (hfn.symm.trans hprepare) }

theorem parseXferEvent_of_xfer (cfg : ChanCfg) (k : Ctrl) (ch : Chan) {event : Tre}
    (hcode : event.evCode ∈ xferCodes) :
    ∃ round, parseXferEvent cfg k ch event = { ch with round := round } := by
  unfold parseXferEvent
  dsimp only
  split
  · exact ⟨ch.round, rfl⟩
  · exact ⟨_, rfl⟩

end

section

variable {c : Config} {s t : State} {l : ChanLabel} {x : Ctrl × Chan}

theorem chanStep_moves (hinv : Mhi.Inv c.chan s.chan) (hl : Allowed c s l)
    (hstep : chanStep c.chan s.ctrl s.chan l = some x) :
    Moves c.chan s.ctrl s.chan (queueWrites s l) s.starting x := by
  cases l with
  | call fn req =>
    obtain ⟨⟨hnone, hfn⟩, ⟨⟩⟩ := ite_none_right_eq_some.mp hstep
    exact .start hnone fun hprepare => absurd hprepare hfn
  | prepare buf len =>
    obtain ⟨⟨hnone, _⟩, ⟨⟩⟩ := ite_none_right_eq_some.mp hstep
    exact .start hnone fun _ => hl
  | queue mapped => exact queueStep_moves hinv hstep
  | ret =>
    simp only [chanStep] at hstep
    split at hstep
    next call hcall =>
      obtain ⟨hdone, ⟨⟩⟩ := ite_none_right_eq_some.mp hstep
      exact .done hcall hdone.2
    next => cases hstep
  | event event =>
    obtain ⟨_, ⟨⟩⟩ := ite_none_right_eq_some.mp hstep
    obtain ⟨round, heq⟩ := parseXferEvent_of_xfer c.chan s.ctrl s.chan hl.1
    rw [heq]
    exact .of_call rfl rfl rfl rfl rfl rfl
  | round => exact roundStep_moves hstep
  | reset => cases hl
  | chState st => cases hl

end

/-- No more elements are taken off the ring than the device has consumed. -/
structure RoundIn (cfg : ChanCfg) (ch : Chan) (consumed : Nat) : Prop where
  taken_le : ch.hist.taken ≤ consumed
  target : ∀ r, ch.round = some r → ∃ devRp status xferLen x,
    r.loop = .parse devRp status xferLen ∧ ch.hist.taken ≤ x ∧ x ≤ consumed ∧
      devRp = cfg.treBase + x % cfg.elements * sizeofMhiTre

section

variable {cfg : ChanCfg} {k : Ctrl} {ch : Chan} {consumed : Nat} {x : Ctrl × Chan}

theorem RoundIn.roundOp (h : RoundIn cfg ch consumed) (hinv : Mhi.Inv cfg ch)
    (hle : consumed ≤ ch.hist.accepted.length) {r : Round} {op : RoundOp}
    (hround : ch.round = some { r with rest := op :: r.rest })
    (hstep : roundOp cfg k ch r op = some x) : RoundIn cfg x.2 consumed := by
  obtain ⟨devRp, status, xferLen, y, hloop, hy, hyle, hdev⟩ := h.target _ hround
  have hsame : ∀ {ch' : Chan} {r' : Round}, ch'.hist.taken = ch.hist.taken →
      ch'.round = some r' → r'.loop = r.loop → RoundIn cfg ch' consumed := by
    intro ch' r' htaken hround' hloop'
    refine ⟨htaken ▸ h.taken_le, fun r'' hr => ?_⟩
    obtain rfl := some.inj (hround'.symm.trans hr)
    exact ⟨devRp, status, xferLen, y, hloop'.trans hloop, htaken ▸ hy, hyle, hdev⟩
  cases op with
  | del =>
    obtain rfl := some.inj hstep
    obtain ⟨z, hz, hzle, hdev', hlt⟩ := (hinv.round _ hround).target devRp status xferLen hloop
    have heq : y = z := by
      have hacc := hinv.rings.accepted_lt
      have hmul : y % cfg.elements * sizeofMhiTre = z % cfg.elements * sizeofMhiTre :=
        Nat.add_left_cancel (hdev.symm.trans hdev')
      exact Lib.Ring.mod_inj (n := cfg.elements) hy hz (by omega) (by omega)
        (Nat.eq_of_mul_eq_mul_right (by decide) hmul)
    have hnext : ch.hist.taken < y := heq ▸ hlt (by simp)
    refine ⟨by change ch.hist.taken + 1 ≤ consumed; omega, fun r' hr => ?_⟩
    obtain rfl := some.inj hr
    exact ⟨devRp, status, xferLen, y, hloop, hnext, hyle, hdev⟩
  | decPending =>
    obtain rfl := some.inj hstep
    split
    · exact hsame rfl rfl rfl
    · exact hsame rfl rfl rfl
  | recycle =>
    simp only [Mhi.roundOp] at hstep
    split at hstep
    next => cases hstep
    next =>
      obtain rfl := some.inj hstep
      exact hsame rfl rfl rfl
  | recycled =>
    simp only [Mhi.roundOp] at hstep
    split at hstep
    next => cases hstep
    next =>
      obtain ⟨_, heq⟩ := ite_none_right_eq_some.mp hstep
      obtain rfl := some.inj heq
      exact hsame rfl rfl rfl
  | _ =>
    obtain rfl := some.inj hstep
    exact hsame rfl rfl rfl

theorem RoundIn.roundStep (h : RoundIn cfg ch consumed) (hinv : Mhi.Inv cfg ch)
    (hle : consumed ≤ ch.hist.accepted.length) (hstep : roundStep cfg k ch = some x) :
    RoundIn cfg x.2 consumed := by
  unfold Mhi.roundStep at hstep
  cases hround : ch.round with
  | none => simp [hround] at hstep
  | some r =>
    cases hrest : r.rest with
    | nil =>
      simp only [hround, bind_eq_bind, bind_some, hrest, some.injEq] at hstep
      obtain rfl := hstep
      refine ⟨h.taken_le, fun r' hr => ?_⟩
      dsimp only at hr
      split at hr
      · obtain rfl := some.inj hr
        exact h.target r hround
      · cases hr
    | cons op rest =>
      have hop : Mhi.roundOp cfg k ch { r with rest := rest } op = some x := by
        simpa [hround, hrest] using hstep
      exact h.roundOp hinv hle (r := { r with rest := rest }) (by rw [hround, ← hrest]) hop

theorem RoundIn.congr (h : RoundIn cfg ch consumed) {ch' : Chan}
    (htaken : ch'.hist.taken = ch.hist.taken) (hround : ch'.round = ch.round) :
    RoundIn cfg ch' consumed := by
  refine ⟨htaken ▸ h.taken_le, fun r hr => ?_⟩
  rw [hround] at hr
  rw [htaken]
  exact h.target r hr

theorem toVirtual_position {c : Config} {ch : Chan} (h : Mhi.RingsAt c.chan ch) (x : Nat) :
    ch.treRing.toVirtual (position c x) =
      c.chan.treBase + x % c.chan.elements * sizeofMhiTre := by
  have hbase := c.chan.treBase_le
  have hlt : x % c.chan.elements * sizeofMhiTre < c.chan.elements * sizeofMhiTre :=
    Nat.mul_lt_mul_of_pos_right (Nat.mod_lt _ h.tre.n_pos) (by decide)
  unfold MhiRing.toVirtual position
  rw [h.base, h.iommuBase]
  omega

theorem names_position {c : Config} {ch : Chan} (h : Mhi.RingsAt c.chan ch) {x : Nat}
    (hx : ch.hist.taken ≤ x) (hlt : x < ch.hist.accepted.length) :
    ch.treRing.Names (position c x) := by
  have hiommu := c.chan.iommuBase_le
  have hel : x % c.chan.elements * sizeofMhiTre < c.chan.elements * sizeofMhiTre :=
    Nat.mul_lt_mul_of_pos_right (Nat.mod_lt _ h.tre.n_pos) (by decide)
  refine ⟨x - ch.hist.taken, ?_, ?_⟩
  · rw [h.tre.outstanding_eq h.taken_le h.accepted_lt]
    omega
  · rw [h.tre.iterate_next, Nat.add_sub_cancel' hx, h.elSize]
    unfold MhiRing.toPhysical position
    rw [h.iommuBase]
    omega

end

section

variable {c : Config} {s t : State} {l : ChanLabel} {x : Ctrl × Chan}

theorem chanStep_inv (hinv : Mhi.Inv c.chan s.chan)
    (hle : s.device.consumed ≤ s.chan.hist.accepted.length) (hl : Allowed c s l)
    (hstep : chanStep c.chan s.ctrl s.chan l = some x) : Mhi.Inv c.chan x.2 := by
  refine hinv.chanStep ?_ hstep
  rintro event rfl _
  obtain ⟨_, y, hy, hyle, hptr⟩ := hl
  rw [hptr]
  exact names_position hinv.rings hyle (by omega)

theorem chanStep_roundIn (h : RoundIn c.chan s.chan s.device.consumed)
    (hinv : Mhi.Inv c.chan s.chan) (hle : s.device.consumed ≤ s.chan.hist.accepted.length)
    (hl : Allowed c s l) (hstep : chanStep c.chan s.ctrl s.chan l = some x) :
    RoundIn c.chan x.2 s.device.consumed := by
  cases l with
  | call fn req =>
    obtain ⟨_, ⟨⟩⟩ := ite_none_right_eq_some.mp hstep
    exact h.congr rfl rfl
  | prepare buf len =>
    obtain ⟨_, ⟨⟩⟩ := ite_none_right_eq_some.mp hstep
    exact h.congr rfl rfl
  | queue mapped =>
    simp only [chanStep, queueStep] at hstep
    cases hcall : s.chan.call with
    | none => simp [hcall] at hstep
    | some call =>
      cases hrest : call.rest with
      | nil => simp [hcall, hrest] at hstep
      | cons op rest =>
        obtain rfl : queueOp c.chan s.ctrl s.chan { call with rest := rest } mapped op = x := by
          simpa [hcall, hrest] using hstep
        have hkept := queueOp_kept c.chan s.ctrl s.chan { call with rest := rest } mapped op
        exact h.congr hkept.taken hkept.round
  | ret =>
    simp only [chanStep] at hstep
    split at hstep
    next =>
      obtain ⟨_, ⟨⟩⟩ := ite_none_right_eq_some.mp hstep
      exact h.congr rfl rfl
    next => cases hstep
  | event event =>
    obtain ⟨_, ⟨⟩⟩ := ite_none_right_eq_some.mp hstep
    obtain ⟨hcode, y, hy, hyle, hptr⟩ := hl
    unfold parseXferEvent
    dsimp only
    split
    · exact h
    · refine ⟨h.taken_le, ?_⟩
      rintro _ ⟨⟩
      refine ⟨_, _, _, y + 1, rfl, Nat.le_succ_of_le hyle, hy, ?_⟩
      have hnext := hinv.rings.tre.next_mod y
      rw [hinv.rings.base, hinv.rings.elSize] at hnext
      rw [hptr, toVirtual_position hinv.rings, hnext]
  | round => exact h.roundStep hinv hle hstep
  | reset => cases hl
  | chState st => cases hl

end

/-- Where the device is while the power state is `pm`.  It is asked for `M3` in `M3_ENTER` and `M3`
only, and the power state waits there for the event of its move. -/
def Phase (pm : PmState) (d : Device) (events : List DevState) : Prop :=
  match pm with
  | .m0 | .m2 => d.request ≠ .m3 ∧ d.state ≠ .m3 ∧ .m3 ∉ events
  | .m3Enter =>
    d.request = .m3 ∧ (d.state ≠ .m3 ∧ .m3 ∉ events ∨
      d.state = .m3 ∧ ∃ before, .m3 ∉ before ∧ events = before ++ [.m3])
  | .m3 => d.request = .m3 ∧ d.state = .m3 ∧ events = []
  | .m3Exit =>
    d.request = .m0 ∧ (d.state = .m3 ∧ events = [] ∨
      d.state ≠ .m3 ∧ ∃ rest, .m3 ∉ rest ∧ events = .m0 :: rest)
  | _ => False

section

variable {pm : PmState} {d : Device} {events : List DevState}

theorem Phase.leaves (h : Phase pm d events) (hstate : d.state = .m3) {st : DevState}
    (hmove : d.moves st = true) : pm = .m3Exit ∧ st = .m0 := by
  cases st with
  | m0 =>
    simp only [Device.moves, hstate] at hmove
    cases pm <;> simp_all [Phase]
  | m1 => simp [Device.moves, hstate] at hmove
  | m2 => simp [Device.moves, hstate] at hmove
  | m3 => simp [Device.moves, hstate] at hmove

theorem Phase.move (h : Phase pm d events) {st : DevState} (hmove : d.moves st = true)
    (resetReq : Bool) : Phase pm (d.move resetReq st) (events ++ [st]) := by
  by_cases hstate : d.state = .m3
  · obtain ⟨rfl, rfl⟩ := h.leaves hstate hmove
    obtain ⟨hreq, hwhere⟩ := h
    have hnil : events = [] := by simpa [hstate] using hwhere
    exact ⟨hreq, .inr ⟨by simp [Device.move], [], by simp, by simp [hnil]⟩⟩
  · have hst : st = .m3 → d.request = .m3 := by
      rintro rfl
      simpa [Device.moves, hstate] using hmove
    cases pm with
    | m0 =>
      obtain ⟨hreq, _, hevents⟩ := h
      have hne : st ≠ .m3 := fun heq => hreq (hst heq)
      exact ⟨hreq, hne, by simp [hevents, hne.symm]⟩
    | m2 =>
      obtain ⟨hreq, _, hevents⟩ := h
      have hne : st ≠ .m3 := fun heq => hreq (hst heq)
      exact ⟨hreq, hne, by simp [hevents, hne.symm]⟩
    | m3Enter =>
      obtain ⟨hreq, hwhere⟩ := h
      have hevents : .m3 ∉ events := by simpa [hstate] using hwhere
      refine ⟨hreq, ?_⟩
      by_cases hne : st = .m3
      · exact .inr ⟨hne, events, hevents, by rw [hne]⟩
      · exact .inl ⟨hne, by simp [hevents, Ne.symm hne]⟩
    | m3 => exact absurd h.2.1 hstate
    | m3Exit =>
      obtain ⟨hreq, hwhere⟩ := h
      have hne : st ≠ .m3 := by
        intro heq
        rw [hst heq] at hreq
        cases hreq
      obtain ⟨rest, hrest, rfl⟩ : ∃ rest, .m3 ∉ rest ∧ events = .m0 :: rest := by
        simpa [hstate] using hwhere
      exact ⟨hreq, .inr ⟨hne, rest ++ [st], by simp [hrest, hne.symm], rfl⟩⟩
    | _ => cases h

theorem Phase.pop {st : DevState} (h : Phase .m3Enter d (st :: events)) (hne : st ≠ .m3) :
    Phase .m3Enter d events := by
  obtain ⟨hreq, hwhere⟩ := h
  refine ⟨hreq, ?_⟩
  rcases hwhere with ⟨hstate, hevents⟩ | ⟨hstate, before, hbefore, heq⟩
  · exact .inl ⟨hstate, fun hmem => hevents (mem_cons_of_mem _ hmem)⟩
  · cases before with
    | nil =>
      obtain ⟨rfl, _⟩ := cons_eq_cons.mp heq
      exact absurd rfl hne
    | cons first before =>
      obtain ⟨rfl, rfl⟩ := cons_eq_cons.mp heq
      exact .inr ⟨hstate, before, fun hmem => hbefore (mem_cons_of_mem _ hmem), rfl⟩

theorem Phase.m1Transition (h : Phase pm d (.m1 :: events)) :
    Phase (trysetPmState pm .m2)
      { d with request := if trysetPmState pm .m2 = .m2 then .m2 else d.request } events := by
  cases pm with
  | m0 => simpa [Phase, trysetPmState, toStates] using h.2
  | m2 => simpa [Phase, trysetPmState, toStates] using h.2
  | m3Enter => exact h.pop (by simp)
  | m3 => simp [Phase] at h
  | m3Exit => simp [Phase] at h
  | _ => cases h

theorem Phase.m0Transition (h : Phase pm d (.m0 :: events)) :
    Phase (trysetPmState pm .m0) d events := by
  cases pm with
  | m0 => simpa [Phase, trysetPmState, toStates] using h
  | m2 => simpa [Phase, trysetPmState, toStates] using h
  | m3Enter => exact h.pop (by simp)
  | m3 => simp [Phase] at h
  | m3Exit =>
    obtain ⟨hreq, hwhere⟩ := h
    obtain ⟨hstate, hrest⟩ : d.state ≠ .m3 ∧ .m3 ∉ events := by simpa using hwhere
    simpa [Phase, trysetPmState, toStates, hreq, hstate] using hrest
  | _ => cases h

theorem Phase.m3Transition (h : Phase pm d (.m3 :: events)) :
    Phase (trysetPmState pm .m3) d events := by
  cases pm with
  | m0 => simp [Phase] at h
  | m2 => simp [Phase] at h
  | m3Enter =>
    obtain ⟨hreq, hwhere⟩ := h
    obtain ⟨hstate, before, hbefore, heq⟩ : d.state = .m3 ∧
        ∃ before, .m3 ∉ before ∧ .m3 :: events = before ++ [.m3] := by simpa using hwhere
    cases before with
    | nil => exact ⟨hreq, hstate, by simpa using heq⟩
    | cons first before =>
      obtain ⟨rfl, _⟩ := cons_eq_cons.mp heq
      simp at hbefore
  | m3 => simp [Phase] at h
  | m3Exit => simp [Phase] at h
  | _ => cases h

theorem Phase.m2 (h : Phase pm d (.m2 :: events)) : Phase pm d events := by
  cases pm with
  | m0 => simpa [Phase] using h
  | m2 => simpa [Phase] using h
  | m3Enter => exact h.pop (by simp)
  | m3 => simp [Phase] at h
  | m3Exit => simp [Phase] at h
  | _ => cases h

theorem Phase.suspend (h : Phase pm d events) :
    Phase (trysetPmState pm .m3Enter)
      { d with request := if trysetPmState pm .m3Enter = .m3Enter then .m3 else d.request }
      events := by
  cases pm with
  | m0 => exact ⟨rfl, .inl h.2⟩
  | m3Enter => exact ⟨rfl, h.2⟩
  | m2 => exact h
  | m3 => exact h
  | m3Exit => exact h
  | _ => cases h

theorem Phase.resume (h : Phase pm d events) :
    Phase (trysetPmState pm .m3Exit)
      { d with request := if trysetPmState pm .m3Exit = .m3Exit then .m0 else d.request }
      events := by
  cases pm with
  | m3 => exact ⟨rfl, .inl h.2⟩
  | m3Exit => exact ⟨rfl, h.2⟩
  | m0 => exact h
  | m2 => exact h
  | m3Enter => exact h
  | _ => cases h

end

section

variable {c : Config} {s t : State}

/-- The next doorbell is written, the device needs none, or something is on its way that sets
`db_mode`: an event, or the transition to `M0` where the device has become idle behind `M3`. -/
def DbOk (c : Config) (s : State) : Prop :=
  s.chan.dbCfg.dbMode = true ∨ s.device.active = true ∨ s.dbEvents ≠ [] ∨
    c.resetReq = true ∧ (s.m0 = true ∨ s.ctrl.pmState = .m3Exit ∧ s.device.state ≠ .m3)

structure Quiet (s : State) : Prop where
  pmState : s.ctrl.pmState = .m0
  m0 : s.m0 = false
  starting : s.starting = false
  due : ¬RingDue s.chan

structure Shown (c : Config) (s : State) : Prop where
  seen : ∃ cw, s.device.consumed ≤ cw ∧ cw ≤ s.chan.hist.accepted.length ∧
    s.chan.ctxtWp = position c cw
  db : DbOk c s
  quiet : Quiet s → s.chan.ctxtWp = position c s.chan.hist.accepted.length ∧
    (s.dbEvents = [] → s.device.active = true ∨
      s.device.consumed = s.chan.hist.accepted.length)

/-- The host's part of the channel. -/
structure ChanOk (c : Config) (ch : Chan) (consumed : Nat) (starting : Bool) : Prop where
  inv : Mhi.Inv c.chan ch
  enabled : ch.chState = .enabled
  prepare : PrepareOk ch starting
  round : RoundIn c.chan ch consumed

structure Inv (c : Config) (s : State) : Prop extends Shown c s where
  chan : ChanOk c s.chan s.device.consumed s.starting
  codes : ∀ event ∈ s.dbEvents, event.evCode ∈ dbCodes
  phase : Phase s.ctrl.pmState s.device s.ctrlEvents

theorem Shown.consumed_le (h : Shown c s) : s.device.consumed ≤ s.chan.hist.accepted.length := by
  obtain ⟨cw, hle, hcw, _⟩ := h.seen
  exact hle.trans hcw

@[simp] theorem doorbell_active (d : Device) (written : Bool) :
    (d.doorbell written).active = (d.active || written) := by
  cases written <;> simp [Device.doorbell]

@[simp] theorem doorbell_consumed (d : Device) (written : Bool) :
    (d.doorbell written).consumed = d.consumed := by
  cases written <;> rfl

@[simp] theorem doorbell_state (d : Device) (written : Bool) :
    (d.doorbell written).state = d.state := by
  cases written <;> rfl

theorem Phase.doorbell {pm : PmState} {d : Device} {events : List DevState} (h : Phase pm d events)
    (written : Bool) : Phase pm (d.doorbell written) events := by
  cases written
  · exact h
  · exact h

theorem ringChanDb_ctxtWp {ch : Chan} (h : Mhi.RingsAt c.chan ch) :
    (ringChanDb c.chan ch).ctxtWp = position c ch.hist.accepted.length := by
  have hdb : (ringChanDb c.chan ch).ctxtWp =
      ch.treRing.iommuBase + (ch.treRing.wp - ch.treRing.base) := by
    unfold ringChanDb processDb
    dsimp only
    split
    · split <;> rfl
    · rfl
  rw [hdb, h.tre.wp, Nat.add_sub_cancel_left, h.iommuBase, h.elSize, position]

/-- The doorbell is rung.  It is written in `db_mode`, and otherwise the device needs none or will
ask for one. -/
theorem Shown.ring (hdb : DbOk c s) (hle : s.device.consumed ≤ s.chan.hist.accepted.length)
    (hlen : t.chan.hist.accepted = s.chan.hist.accepted)
    (hwp : t.chan.ctxtWp = position c s.chan.hist.accepted.length)
    (hdevice : t.device = s.device.doorbell s.chan.dbCfg.dbMode)
    (hevents : t.dbEvents = s.dbEvents) (hm0 : t.m0 = s.m0)
    (hpm : t.ctrl.pmState = s.ctrl.pmState) : Shown c t where
  seen := by
    refine ⟨s.chan.hist.accepted.length, ?_, by rw [hlen], hwp⟩
    rwa [hdevice, doorbell_consumed]
  db := by
    unfold DbOk at hdb ⊢
    rw [hevents, hdevice, hm0, hpm, doorbell_active, doorbell_state, Bool.or_eq_true]
    rcases hdb with hmode | hactive | hrest
    · exact .inr (.inl (.inr hmode))
    · exact .inr (.inl (.inl hactive))
    · exact .inr (.inr hrest)
  quiet := by
    intro hq
    refine ⟨by rw [hwp, hlen], fun hnil => .inl ?_⟩
    have hpm' := hpm ▸ hq.pmState
    have hm0' := hm0 ▸ hq.m0
    rw [hdevice, doorbell_active, Bool.or_eq_true]
    rcases hdb with hmode | hactive | hsome | ⟨_, htrue | ⟨hexit, _⟩⟩
    · exact .inr hmode
    · exact .inl hactive
    · exact absurd (hevents ▸ hnil) hsome
    · simp [hm0'] at htrue
    · simp [hpm'] at hexit

theorem Shown.of_empty (hdb : DbOk c s)
    (hchan : ChanOk c s.chan s.device.consumed s.starting)
    (hseen : ∃ cw, s.device.consumed ≤ cw ∧ cw ≤ s.chan.hist.accepted.length ∧
      s.chan.ctxtWp = position c cw)
    (hempty : s.ctrl.pmState = .m0 → s.chan.treRing.wp = s.chan.treRing.rp) : Shown c s where
  seen := hseen
  db := hdb
  quiet := by
    intro hq
    obtain ⟨cw, hle, hcw, hwp⟩ := hseen
    have hrings := hchan.inv.rings
    have heq := (hrings.tre.rp_eq_wp_iff hrings.taken_le hrings.accepted_lt).mp
      (hempty hq.pmState).symm
    have htaken := hchan.round.taken_le
    refine ⟨?_, fun _ => .inr (by omega)⟩
    rw [hwp]
    congr 1
    omega

theorem Shown.keep (h : Shown c s) (hlen : t.chan.hist.accepted = s.chan.hist.accepted)
    (hwp : t.chan.ctxtWp = s.chan.ctxtWp) (hdb : DbOk c t)
    (hconsumed : t.device.consumed = s.device.consumed)
    (hquiet : Quiet t → Quiet s ∧ (t.dbEvents = [] →
      s.dbEvents = [] ∧ t.device.active = s.device.active)) : Shown c t where
  seen := by
    rw [hlen, hwp, hconsumed]
    exact h.seen
  db := hdb
  quiet := by
    intro hq
    obtain ⟨hqs, hsame⟩ := hquiet hq
    obtain ⟨hctxt, hactive⟩ := h.quiet hqs
    rw [hlen, hwp, hconsumed]
    refine ⟨hctxt, fun hnil => ?_⟩
    obtain ⟨hnil', heq⟩ := hsame hnil
    rw [heq]
    exact hactive hnil'

theorem Inv.chanStep (h : Inv c s) {l : ChanLabel} {x : Ctrl × Chan} (hl : Allowed c s l)
    (hstep : chanStep c.chan s.ctrl s.chan l = some x) :
    Inv c { s with
      ctrl := x.1, chan := x.2, device := s.device.doorbell (queueWrites s l) } := by
  have hmoves := chanStep_moves h.chan.inv hl hstep
  have hle := h.toShown.consumed_le
  have hshown : Shown c { s with
      ctrl := x.1, chan := x.2, device := s.device.doorbell (queueWrites s l) } := by
    cases hmoves.move with
    | same hlen hwp hdb hdue hwritten =>
      rw [hwritten]
      refine h.toShown.keep hlen hwp ?_ rfl fun hq => ⟨?_, fun hnil => ⟨hnil, rfl⟩⟩
      · have hold := h.db
        unfold DbOk at hold ⊢
        dsimp only
        rw [hdb, hmoves.pmState]
        exact hold
      · exact ⟨hmoves.pmState ▸ hq.pmState, hq.m0, hq.starting, mt hdue.mpr hq.due⟩
    | publish entry hlen hwp hdb hdue hwritten =>
      rw [hwritten]
      exact
      { seen := by
          obtain ⟨cw, hcons, hcw, hctxt⟩ := h.seen
          refine ⟨cw, hcons, ?_, hwp.trans hctxt⟩
          simp only [hlen, length_append]
          omega
        db := by
          have hold := h.db
          unfold DbOk at hold ⊢
          dsimp only
          rw [hdb, hmoves.pmState]
          exact hold
        quiet := by
          intro hq
          rcases hdue with hdue | ⟨call, hcall, hfn⟩
          · exact absurd hdue hq.due
          · have hstart := h.chan.prepare call hcall hfn
            have hnot : s.starting = false := hq.starting
            simp [hstart] at hnot }
    | ring hlen hwp hdb hdue hwritten =>
      cases hvalid : s.ctrl.pmState.dbAccessValid with
      | true =>
        rw [hvalid, if_pos rfl, ringChanDb_ctxtWp h.chan.inv.rings] at hwp
        refine .ring h.db hle hlen hwp ?_ rfl rfl hmoves.pmState
        rw [hwritten, hvalid, Bool.true_and]
      | false =>
        rw [hvalid] at hwp hdb
        rw [hwritten, hvalid, Bool.false_and]
        refine h.toShown.keep hlen hwp ?_ rfl fun hq => ?_
        · have hold := h.db
          unfold DbOk at hold ⊢
          dsimp only
          rw [hdb, hmoves.pmState]
          exact hold
        · have hpm : s.ctrl.pmState = .m0 := hmoves.pmState ▸ hq.pmState
          simp [PmState.dbAccessValid, hpm] at hvalid
  exact
  { toShown := hshown
    chan := by
      dsimp only
      rw [doorbell_consumed]
      exact
      { inv := chanStep_inv h.chan.inv hle hl hstep
        enabled := hmoves.chState.trans h.chan.enabled
        prepare := hmoves.prepare h.chan.prepare
        round := chanStep_roundIn h.chan.round h.chan.inv hle hl hstep }
    codes := h.codes
    phase := by
      dsimp only
      rw [hmoves.pmState]
      exact h.phase.doorbell _ }

variable {ch : Chan} {consumed : Nat} {starting : Bool}

theorem ChanOk.doorbell (h : ChanOk c ch consumed starting) (ctxtWp dbReg : Nat) (dbCfg : DbCfg) :
    ChanOk c { ch with ctxtWp := ctxtWp, dbReg := dbReg, dbCfg := dbCfg } consumed starting where
  inv := h.inv.doorbell ctxtWp dbReg dbCfg
  enabled := h.enabled
  prepare := h.prepare
  round := h.round.congr rfl rfl

theorem ChanOk.ring (h : ChanOk c ch consumed starting) :
    ChanOk c (ringChanDb c.chan ch) consumed starting := by
  obtain ⟨ctxtWp, dbReg, dbCfg, heq⟩ := ringChanDb_eq c.chan ch
  rw [heq]
  exact h.doorbell ctxtWp dbReg dbCfg

theorem Inv.ring (hdb : DbOk c s) (hle : s.device.consumed ≤ s.chan.hist.accepted.length)
    (hchan : ChanOk c s.chan s.device.consumed s.starting)
    (hcodes : ∀ event ∈ s.dbEvents, event.evCode ∈ dbCodes)
    (hphase : Phase s.ctrl.pmState s.device s.ctrlEvents) : Inv c (ringDb c s) where
  toShown := .ring hdb hle (congrArg ChanHist.accepted (ringChanDb_kept c.chan s.chan).1)
    (ringChanDb_ctxtWp hchan.inv.rings) rfl rfl rfl rfl
  chan := by
    dsimp only [ringDb]
    rw [doorbell_consumed]
    exact hchan.ring
  codes := hcodes
  phase := hphase.doorbell _

theorem Inv.m0Channel (h : Inv c s) : Inv c (m0Channel c s) := by
  have hle := h.toShown.consumed_le
  have hchan := h.chan.doorbell s.chan.ctxtWp s.chan.dbReg
    { s.chan.dbCfg with dbMode := if c.resetReq then true else s.chan.dbCfg.dbMode }
  have hdb : DbOk c { s with
      m0 := false
      chan := { s.chan with dbCfg := { s.chan.dbCfg with
        dbMode := if c.resetReq then true else s.chan.dbCfg.dbMode } } } := by
    have hold := h.db
    unfold DbOk at hold ⊢
    cases hreset : c.resetReq with
    | true => exact .inl (by simp)
    | false =>
      rw [hreset] at hold
      simpa using hold
  unfold Doorbell.m0Channel
  dsimp only
  split
  next => exact .ring hdb hle hchan h.codes h.phase
  next hempty =>
    exact
    { toShown := .of_empty hdb hchan h.seen fun _ => not_not.mp hempty
      chan := hchan
      codes := h.codes
      phase := h.phase }

theorem Inv.started (h : Inv c s) (hcall : s.chan.call = none) :
    Inv c (if s.ctrl.pmState.dbAccessValid then ringDb c { s with starting := false }
      else { s with starting := false }) := by
  have hchan : ChanOk c s.chan s.device.consumed false :=
    { h.chan with
      prepare := by
        intro call hsome
        rw [hcall] at hsome
        cases hsome }
  split
  next => exact .ring h.db h.toShown.consumed_le hchan h.codes h.phase
  next hvalid =>
    exact
    { toShown :=
        { seen := h.seen
          db := h.db
          quiet := by
            intro hq
            have hpm : s.ctrl.pmState = .m0 := hq.pmState
            simp [PmState.dbAccessValid, hpm] at hvalid }
      chan := hchan
      codes := h.codes
      phase := h.phase }

theorem parseXferEvent_of_db {event : Tre} (hcode : event.evCode ∈ dbCodes)
    (henabled : s.chan.chState = .enabled) :
    parseXferEvent c.chan s.ctrl s.chan event =
      if eventWrites s then
        ringChanDb c.chan { s.chan with dbCfg := { s.chan.dbCfg with dbMode := true } }
      else { s.chan with dbCfg := { s.chan.dbCfg with dbMode := true } } := by
  have hxfer : event.evCode ∉ xferCodes := by
    intro hmem
    simp only [xferCodes, dbCodes, mem_cons, not_mem_nil, or_false] at hmem hcode
    rcases hcode with heq | heq <;> rw [heq] at hmem <;> revert hmem <;> decide
  unfold parseXferEvent eventWrites
  simp [henabled, hxfer, hcode]

theorem Inv.dbEvent (h : Inv c s) {event : Tre} {events : List Tre}
    (hevents : s.dbEvents = event :: events) :
    Inv c { s with
      chan := parseXferEvent c.chan s.ctrl s.chan event
      device := s.device.doorbell (eventWrites s)
      dbEvents := events } := by
  have hle := h.toShown.consumed_le
  have hchan := h.chan.doorbell s.chan.ctxtWp s.chan.dbReg { s.chan.dbCfg with dbMode := true }
  have hcodes : ∀ e ∈ events, e.evCode ∈ dbCodes := fun e he =>
    h.codes e (by rw [hevents]; exact mem_cons_of_mem _ he)
  have hdb : DbOk c { s with
      chan := { s.chan with dbCfg := { s.chan.dbCfg with dbMode := true } }
      dbEvents := events } := .inl rfl
  rw [parseXferEvent_of_db (h.codes event (by simp [hevents])) h.chan.enabled]
  split
  next hwrites =>
    rw [hwrites]
    exact .ring hdb hle hchan hcodes h.phase
  next hwrites =>
    rw [Bool.eq_false_iff.mpr hwrites]
    exact
    { toShown := .of_empty hdb hchan h.seen fun hpm => by
        have hpm' : s.ctrl.pmState = .m0 := hpm
        simpa [eventWrites, h.chan.enabled, hpm', PmState.dbAccessValid] using hwrites
      chan := hchan
      codes := hcodes
      phase := h.phase }

theorem Inv.setPm (h : Inv c s) {events : List DevState} {pm : PmState} {request : DevState}
    (hphase : Phase pm { s.device with request := request } events)
    (hexit : s.ctrl.pmState = .m3Exit → pm = .m3Exit) (hm0 : pm = .m0 → s.ctrl.pmState = .m0) :
    Inv c { s with
      ctrl := { s.ctrl with pmState := pm }
      device := { s.device with request := request }
      ctrlEvents := events } where
  toShown := by
    refine h.toShown.keep rfl rfl ?_ rfl fun hq => ⟨?_, fun hnil => ⟨hnil, rfl⟩⟩
    · rcases h.db with hmode | hactive | hsome | ⟨hreset, hm0 | ⟨hpm, hstate⟩⟩
      · exact .inl hmode
      · exact .inr (.inl hactive)
      · exact .inr (.inr (.inl hsome))
      · exact .inr (.inr (.inr ⟨hreset, .inl hm0⟩))
      · exact .inr (.inr (.inr ⟨hreset, .inr ⟨hexit hpm, hstate⟩⟩))
    · exact ⟨hm0 hq.pmState, hq.m0, hq.starting, hq.due⟩
  chan := h.chan
  codes := h.codes
  phase := hphase

theorem Inv.stateChange (h : Inv c s) {st : DevState} {events : List DevState}
    (hevents : s.ctrlEvents = st :: events) (hm0 : s.m0 = false) :
    Inv c (stateChange { s with ctrlEvents := events } st) := by
  have hphase := h.phase
  rw [hevents] at hphase
  cases st with
  | m0 =>
    exact
    { toShown := by
        refine h.toShown.keep rfl rfl ?_ rfl fun hq => ?_
        · rcases h.db with hmode | hactive | hsome | ⟨hreset, htrue | ⟨hpm, hstate⟩⟩
          · exact .inl hmode
          · exact .inr (.inl hactive)
          · exact .inr (.inr (.inl hsome))
          · simp [hm0] at htrue
          · refine .inr (.inr (.inr ⟨hreset, .inl ?_⟩))
            simp [Doorbell.stateChange, m0Transition, hpm, trysetPmState, toStates]
        · have hnot := hq.m0
          have hpm := hq.pmState
          simp only [Doorbell.stateChange, m0Transition] at hnot hpm
          simp [hpm] at hnot
      chan := h.chan
      codes := h.codes
      phase := hphase.m0Transition }
  | m1 =>
    refine h.setPm hphase.m1Transition ?_ ?_
    · intro hpm
      rw [hpm]
      rfl
    · cases s.ctrl.pmState <;> simp [trysetPmState, toStates]
  | m2 => exact h.setPm hphase.m2 id id
  | m3 =>
    refine h.setPm hphase.m3Transition ?_ ?_
    · intro hpm
      rw [hpm]
      rfl
    · cases s.ctrl.pmState <;> simp [trysetPmState, toStates]

theorem Inv.pmSuspend (h : Inv c s) : Inv c (pmSuspend s) := by
  refine h.setPm h.phase.suspend ?_ ?_
  · intro hpm
    rw [hpm]
    rfl
  · cases s.ctrl.pmState <;> simp [trysetPmState, toStates]

theorem Inv.pmResume (h : Inv c s) : Inv c (pmResume s) := by
  refine h.setPm h.phase.resume ?_ ?_
  · intro hpm
    rw [hpm]
    rfl
  · cases s.ctrl.pmState <;> simp [trysetPmState, toStates]

theorem Inv.move (h : Inv c s) {st : DevState} (hmove : s.device.moves st = true) :
    Inv c { s with
      device := s.device.move c.resetReq st, ctrlEvents := s.ctrlEvents ++ [st] } where
  toShown := by
    by_cases hidles : s.device.state = .m3
    · obtain ⟨hpm, rfl⟩ := h.phase.leaves hidles hmove
      refine h.toShown.keep rfl rfl ?_ rfl fun hq => ?_
      · cases hreset : c.resetReq with
        | true => exact .inr (.inr (.inr ⟨hreset, .inr ⟨hpm, by simp [Device.move]⟩⟩))
        | false =>
          have hold := h.db
          simpa [DbOk, hreset, Device.move] using hold
      · have hpm' : s.ctrl.pmState = .m0 := hq.pmState
        rw [hpm] at hpm'
        cases hpm'
    · have hactive : (s.device.move c.resetReq st).active = s.device.active := by
        simp [Device.move, hidles]
      refine h.toShown.keep rfl rfl ?_ rfl fun hq =>
        ⟨⟨hq.pmState, hq.m0, hq.starting, hq.due⟩, fun hnil => ⟨hnil, hactive⟩⟩
      rcases h.db with hmode | hact | hsome | ⟨hreset, hm0 | ⟨hpm, hstate⟩⟩
      · exact .inl hmode
      · exact .inr (.inl (hactive.trans hact))
      · exact .inr (.inr (.inl hsome))
      · exact .inr (.inr (.inr ⟨hreset, .inl hm0⟩))
      · refine .inr (.inr (.inr ⟨hreset, .inr ⟨hpm, fun hst => ?_⟩⟩))
        obtain rfl : st = .m3 := hst
        have hreq := h.phase
        rw [hpm] at hreq
        simp [Device.moves, hreq.1] at hmove
  chan := h.chan
  codes := h.codes
  phase := h.phase.move hmove c.resetReq

theorem Inv.consume (h : Inv c s) (hactive : s.device.active = true)
    (hne : position c s.device.consumed ≠ s.chan.ctxtWp) :
    Inv c { s with device := { s.device with consumed := s.device.consumed + 1 } } where
  toShown :=
    { seen := by
        obtain ⟨cw, hle, hcw, hwp⟩ := h.seen
        refine ⟨cw, ?_, hcw, hwp⟩
        have hlt : s.device.consumed ≠ cw := by
          rintro rfl
          exact hne hwp.symm
        change s.device.consumed + 1 ≤ cw
        omega
      db := h.db
      quiet := by
        intro hq
        exact ⟨(h.quiet ⟨hq.pmState, hq.m0, hq.starting, hq.due⟩).1, fun _ => .inl hactive⟩ }
  chan :=
    { h.chan with
      round :=
        { taken_le := Nat.le_succ_of_le h.chan.round.taken_le
          target := by
            intro r hr
            obtain ⟨devRp, status, xferLen, x, hloop, hx, hxle, hdev⟩ := h.chan.round.target r hr
            exact ⟨devRp, status, xferLen, x, hloop, hx, Nat.le_succ_of_le hxle, hdev⟩ } }
  codes := h.codes
  phase := by
    have hphase := h.phase
    unfold Phase at hphase ⊢
    exact hphase

theorem Inv.post (h : Inv c s) {event : Tre} (hcode : event.evCode ∈ dbCodes)
    (active drained : Bool) : Inv c { s with
      device := { s.device with active := active, drained := drained }
      dbEvents := s.dbEvents ++ [event] } where
  toShown := by
    refine h.toShown.keep rfl rfl (.inr (.inr (.inl (by simp)))) rfl fun hq =>
      ⟨⟨hq.pmState, hq.m0, hq.starting, hq.due⟩, fun hnil => ?_⟩
    simp at hnil
  chan := h.chan
  codes := by
    intro e he
    rcases mem_append.mp he with he | he
    · exact h.codes e he
    · obtain rfl := mem_singleton.mp he
      exact hcode
  phase := by
    have hphase := h.phase
    unfold Phase at hphase ⊢
    exact hphase

theorem Inv.step (h : Inv c s) {l : Label} (hstep : step c s l = some t) : Inv c t := by
  cases l with
  | chan l =>
    obtain ⟨hl, hrest⟩ := ite_none_right_eq_some.mp hstep
    obtain ⟨x, hx, rfl⟩ := map_eq_some_iff.mp hrest
    exact h.chanStep hl hx
  | started =>
    obtain ⟨⟨_, hcall⟩, heq⟩ := ite_none_right_eq_some.mp hstep
    obtain rfl := some.inj heq
    exact h.started hcall
  | ctrlEvent =>
    simp only [Doorbell.step] at hstep
    split at hstep
    next => cases hstep
    next st events hevents =>
      obtain ⟨hm0, heq⟩ := ite_none_left_eq_some.mp hstep
      obtain rfl := some.inj heq
      exact h.stateChange hevents (Bool.eq_false_iff.mpr hm0)
  | m0Channel =>
    obtain ⟨_, heq⟩ := ite_none_right_eq_some.mp hstep
    obtain rfl := some.inj heq
    exact h.m0Channel
  | dbEvent =>
    simp only [Doorbell.step] at hstep
    split at hstep
    next => cases hstep
    next event events hevents =>
      obtain ⟨_, heq⟩ := ite_none_right_eq_some.mp hstep
      obtain rfl := some.inj heq
      exact h.dbEvent hevents
  | suspend =>
    obtain rfl := some.inj hstep
    exact h.pmSuspend
  | resume =>
    obtain rfl := some.inj hstep
    exact h.pmResume
  | consume =>
    obtain ⟨⟨hactive, hne⟩, heq⟩ := ite_none_right_eq_some.mp hstep
    obtain rfl := some.inj heq
    exact h.consume hactive hne
  | find =>
    obtain ⟨_, heq⟩ := ite_none_right_eq_some.mp hstep
    obtain rfl := some.inj heq
    exact ⟨⟨h.seen, h.db, fun hq => h.quiet ⟨hq.pmState, hq.m0, hq.starting, hq.due⟩⟩, h.chan,
      h.codes, h.phase⟩
  | idle event =>
    obtain ⟨⟨_, _, hcode⟩, heq⟩ := ite_none_right_eq_some.mp hstep
    obtain rfl := some.inj heq
    exact h.post (by simp [hcode, dbCodes]) false false
  | dbMode event =>
    obtain ⟨hcode, heq⟩ := ite_none_right_eq_some.mp hstep
    obtain rfl := some.inj heq
    exact h.post (by simp [hcode, dbCodes]) s.device.active s.device.drained
  | move st =>
    obtain ⟨hmove, heq⟩ := ite_none_right_eq_some.mp hstep
    obtain rfl := some.inj heq
    exact h.move hmove

theorem init_inv (c : Config) : Inv c (init c) where
  seen := ⟨0, le_refl _, le_refl _, by simp [init, chanInit, position]⟩
  db := .inl rfl
  quiet _ := ⟨by simp [init, chanInit, position], fun _ => .inr rfl⟩
  chan :=
    { inv :=
        have hinv := chanInit_inv c.chan
        ⟨{ hinv.rings with }, hinv.call, hinv.round, hinv.completed⟩
      enabled := rfl
      prepare := by
        rintro _ ⟨⟩
      round :=
        { taken_le := le_refl _
          target := by
            rintro _ ⟨⟩ } }
  codes := by
    intro event hmem
    cases hmem
  phase := by simp [Phase, init]

end

/-- In every state in which no call is in progress and no event waits, the device can see every
element that is queued. -/
theorem settled_seen (c : Config) {s : State}
    (h : Transition.Reachable (step c) (init c) s) (hsettled : Settled s) : Seen c s := by
  have hinv : Inv c s := h.invariant (init_inv c) fun _ _ _ hs _ hstep => hs.step hstep
  have hq : Quiet s :=
    ⟨hsettled.pmState, hsettled.m0, hsettled.starting, not_ringDue_of_none hsettled.call⟩
  obtain ⟨hwp, hactive⟩ := hinv.quiet hq
  have hrings := hinv.chan.inv.rings
  refine ⟨?_, hactive hsettled.dbEvents⟩
  rw [hwp, hrings.tre.wp, Nat.add_sub_cancel_left, hrings.elSize, position]

/-- A buffer is queued while the device sleeps. -/
theorem settled_seen_resumed :
    let c : Config := ⟨⟨4, .toDevice, false, 0, true, 0x8000, 0x1000, 0x2000, by decide, by decide,
      by decide, by decide⟩, true, rfl⟩
    ∃ s, (Settled s ∧ s.device.consumed < s.chan.hist.accepted.length) ∧ Seen c s := by
  intro c
  obtain ⟨s, hs, hsettled⟩ : ∃ s, Transition.Reachable (step c) (init c) s ∧
      (Settled s ∧ s.device.consumed < s.chan.hist.accepted.length) :=
    Transition.exists_of_run
      ([.suspend, .move .m3, .ctrlEvent, .chan (.call .buf ⟨100, 100, 64, mhiEot⟩)] ++
        replicate 11 (.chan (.queue (some 7))) ++
        [.chan .ret, .resume, .move .m0, .ctrlEvent, .m0Channel])
      (by decide)
  exact ⟨s, hsettled, settled_seen c hs hsettled.1⟩

end ModemSupport.Mhi.Doorbell
