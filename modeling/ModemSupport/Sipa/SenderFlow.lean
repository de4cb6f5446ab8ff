import ModemSupport.Sipa.Sender

/-! The flow control of the sender.  Two flags, for credit and for the endpoint, turn it on, and
both must be clear when `sipa_inform_evt_to_nics` turns it off: the early returns that test them
keep `nic_lock`. -/

namespace ModemSupport.Sipa

open ModemSupport.Lib List Option

/-- A network interface has an event LEAVE behind every event ENTER but the one in force. -/
def Nic.Alternates (nic : Nic) : Prop :=
  ∃ n, nic.evts = (replicate n [Evt.enterFlowctrl, .leaveFlowctrl]).flatten ++
    if nic.flowCtrlStatus then [.enterFlowctrl] else []

theorem Nic.Alternates.enter {nic : Nic} (h : nic.Alternates) (hoff : nic.flowCtrlStatus = false) :
    (sipaNicNotifyEvt { nic with flowCtrlStatus := true } .enterFlowctrl).Alternates := by
  obtain ⟨n, hn⟩ := h
  exact ⟨n, by simp [sipaNicNotifyEvt, hn, hoff]⟩

theorem Nic.Alternates.leave {nic : Nic} (h : nic.Alternates) (hon : nic.flowCtrlStatus = true) :
    (sipaNicNotifyEvt { nic with flowCtrlStatus := false } .leaveFlowctrl).Alternates := by
  obtain ⟨n, hn⟩ := h
  exact ⟨n + 1, by simp [sipaNicNotifyEvt, hn, hon, replicate_succ', flatten_append]⟩

/-- The lock is free, the events of every interface alternate, and an interface is stopped only
with a flag set or while `leaving`. -/
structure Flow.Ok (leaving : Prop) (f : Flow) : Prop where
  lock : f.nicLock = false
  stopped : ∀ nic ∈ f.nicList, nic.flowCtrlStatus = true →
    f.freeNotifyNet = true ∨ f.epCoverNet = true ∨ leaving
  alternates : ∀ nic ∈ f.nicList, nic.Alternates

section

variable {f g : Flow} {leaving : Prop}

theorem Flow.Ok.mono {leaving' : Prop} (h : f.Ok leaving) (hl : leaving → leaving') :
    f.Ok leaving' :=
  ⟨h.lock, fun nic hnic hon => (h.stopped nic hnic hon).imp_right (Or.imp_right hl), h.alternates⟩

theorem Flow.Ok.enter (h : sipaInformEvtToNics f .enterFlowctrl = some g)
    (hlock : f.nicLock = false) (halt : ∀ nic ∈ f.nicList, nic.Alternates)
    (hflag : f.freeNotifyNet = true ∨ f.epCoverNet = true) : g.Ok leaving := by
  unfold sipaInformEvtToNics at h
  rw [hlock] at h
  cases h
  refine ⟨rfl, fun _ _ _ => hflag.imp_right Or.inl, ?_⟩
  intro nic hnic
  obtain ⟨nic', hnic', rfl⟩ := List.mem_map.mp hnic
  split
  next => exact halt nic' hnic'
  next hoff => exact (halt nic' hnic').enter (Bool.eq_false_of_not_eq_true hoff)

/-- An event LEAVE gives the lock back exactly when both flags are clear. -/
theorem lock_of_leave (h : sipaInformEvtToNics f .leaveFlowctrl = some g)
    (hlock : f.nicLock = false) :
    g.nicLock = false ↔ f.freeNotifyNet = false ∧ f.epCoverNet = false := by
  unfold sipaInformEvtToNics at h
  rw [hlock] at h
  cases hfree : f.freeNotifyNet <;> cases hcover : f.epCoverNet <;> simp [hfree, hcover] at h <;>
    subst h <;> simp

theorem Flow.Ok.leave (h : sipaInformEvtToNics f .leaveFlowctrl = some g)
    (hlock : f.nicLock = false) (halt : ∀ nic ∈ f.nicList, nic.Alternates)
    (hclear : f.freeNotifyNet = false ∧ f.epCoverNet = false) : g.Ok leaving := by
  unfold sipaInformEvtToNics at h
  simp only [hlock, hclear.1, hclear.2, Bool.false_eq_true, if_false, some.injEq] at h
  subst h
  refine ⟨rfl, ?_, ?_⟩
  · intro nic hnic hon
    obtain ⟨nic', hnic', rfl⟩ := List.mem_map.mp hnic
    split at hon
    next => simp [sipaNicNotifyEvt] at hon
    next hoff => exact absurd hon hoff
  · intro nic hnic
    obtain ⟨nic', hnic', rfl⟩ := List.mem_map.mp hnic
    split
    next hon => exact (halt nic' hnic').leave hon
    next => exact halt nic' hnic'

theorem Flow.Ok.notifyEnter (h : f.Ok leaving) {evt : UInt32}
    (heq : Sipa.notifyEnter f evt = some g) :
    g.Ok leaving ∧ g.freeNotifyNet = f.freeNotifyNet := by
  unfold Sipa.notifyEnter at heq
  split at heq
  next =>
    refine ⟨Flow.Ok.enter heq h.lock h.alternates (.inr rfl), ?_⟩
    unfold sipaInformEvtToNics at heq
    rw [show ({ f with enterFlowCtrlCnt := f.enterFlowCtrlCnt + 1, epCoverNet := true } :
      Flow).nicLock = false from h.lock] at heq
    cases heq
    rfl
  next =>
    obtain rfl := some.inj heq
    exact ⟨h, rfl⟩

theorem Flow.Ok.notifyExit (h : f.Ok leaving) {evt : UInt32}
    (heq : Sipa.notifyExit f evt = some g) :
    (g.nicLock = false ↔ (evt &&& intExitFlowCtrlSts ≠ 0 → f.freeNotifyNet = false)) ∧
      (g.nicLock = false → g.Ok leaving) := by
  unfold Sipa.notifyExit at heq
  split at heq
  next hexit =>
    have hiff := lock_of_leave heq h.lock
    refine ⟨hiff.trans ⟨fun hclear _ => hclear.1, fun hfree => ⟨hfree hexit, rfl⟩⟩, fun hlock => ?_⟩
    exact Flow.Ok.leave heq h.lock h.alternates (hiff.mp hlock)
  next hexit =>
    obtain rfl := some.inj heq
    exact ⟨⟨fun _ he => absurd he hexit, fun _ => h.lock⟩, fun _ => h⟩

end

/-- The call in progress is to inform the interfaces that flow control is over. -/
def Pass.Leaving : Pass → Prop
  | .cover exitFlow => exitFlow = true
  | .leave => True
  | _ => False

def LeaveOk (s : State) : Label → Prop
  | .notifyCb evt => evt &&& intExitFlowCtrlSts ≠ 0 → s.flow.freeNotifyNet = false
  | .pass _ => s.pass = .leave → s.flow.freeNotifyNet = false ∧ s.flow.epCoverNet = false
  | _ => True

section

variable {c : Config} {s t : State} {l : Label}

theorem refuse_ok {f : Flow} {r : Except Errno Unit} (heq : refuse s f = some (r, t))
    (h : s.flow.Ok s.pass.Leaving) (hlock : f.nicLock = s.flow.nicLock)
    (hnics : f.nicList = s.flow.nicList)
    (hflag : f.freeNotifyNet = true ∨ f.epCoverNet = true) :
    t.flow.Ok t.pass.Leaving := by
  obtain ⟨g, hg, hpair⟩ := map_eq_some_iff.mp heq
  cases hpair
  exact Flow.Ok.enter hg (hlock.trans h.lock) (hnics ▸ h.alternates) hflag

theorem sendData_ok {skb : Skb} {dst : BitVec 5} {netid : UInt8} {intStatus : UInt32}
    {dma : Option UInt64} {r : Except Errno Unit} (h : s.flow.Ok s.pass.Leaving)
    (heq : sipaSkbSenderSendData c s skb dst netid intStatus dma = some (r, t)) :
    t.flow.Ok t.pass.Leaving := by
  unfold sipaSkbSenderSendData at heq
  by_cases hcover : s.flow.epCoverNet = true
  · rw [if_pos hcover] at heq
    cases heq
    exact h
  rw [if_neg hcover] at heq
  by_cases hdown : intStatus = 0x5FF000
  · rw [if_pos hdown] at heq
    cases heq
    exact h
  rw [if_neg hdown] at heq
  by_cases henter : intStatus &&& intEnterFlowCtrlSts ≠ 0
  · rw [if_pos henter] at heq
    exact refuse_ok heq h rfl rfl (.inr rfl)
  rw [if_neg henter] at heq
  by_cases hnotify : s.flow.freeNotifyNet = true
  · rw [if_pos hnotify] at heq
    cases heq
    exact h
  rw [if_neg hnotify] at heq
  by_cases hleft : s.queue.leftCnt = 0
  · rw [if_pos hleft] at heq
    exact refuse_ok heq h rfl rfl (.inl rfl)
  rw [if_neg hleft] at heq
  cases dma with
  | none => exact refuse_ok heq h rfl rfl (.inl rfl)
  | some a =>
    dsimp only at heq
    split at heq
    next =>
      cases heq
      exact h
    next => cases heq

theorem kept_ok (h : s.flow.Ok s.pass.Leaving) (hs : ¬s.pass.Leaving) (p : Pass)
    (intStatus : UInt32) :
    (s.flow.nicLock = false ↔ LeaveOk s (.pass intStatus)) ∧
      (s.flow.nicLock = false → s.flow.Ok p.Leaving) :=
  ⟨iff_of_true h.lock fun hp => absurd (by rw [hp]; trivial) hs,
    fun _ => h.mono fun hl => absurd hl hs⟩

theorem check_flow (m : Scan) (retryCnt : Nat) : (check s m retryCnt).flow = s.flow := by
  unfold check
  dsimp only
  split
  next => rfl
  next =>
    split
    next => rfl
    next => split <;> rfl

theorem pass_ok {intStatus : UInt32} (h : s.flow.Ok s.pass.Leaving)
    (heq : passStep c s intStatus = some t) :
    (t.flow.nicLock = false ↔ LeaveOk s (.pass intStatus)) ∧
      (t.flow.nicLock = false → t.flow.Ok t.pass.Leaving) := by
  unfold passStep at heq
  cases hp : s.pass with
  | idle => simp [hp] at heq
  | check m retryCnt =>
    rw [hp] at heq
    cases heq
    rw [check_flow]
    exact kept_ok h (by simp [hp, Pass.Leaving]) _ intStatus
  | release m iter =>
    rw [hp] at heq
    obtain ⟨skb, _, rfl⟩ := map_eq_some_iff.mp heq
    exact kept_ok h (by simp [hp, Pass.Leaving]) _ intStatus
  | ack m =>
    rw [hp] at heq
    cases heq
    exact kept_ok h (by simp [hp, Pass.Leaving]) _ intStatus
  | credit n =>
    rw [hp] at heq
    cases heq
    exact kept_ok h (by simp [hp, Pass.Leaving]) _ intStatus
  | freeEnd =>
    rw [hp] at heq
    dsimp only at heq
    split at heq
    · cases heq
      -- an interface stopped for want of credit waits for the end of the call
      have hok : Flow.Ok True { s.flow with freeNotifyNet := false } :=
        ⟨h.lock, fun _ _ _ => .inr (.inr trivial), h.alternates⟩
      exact ⟨iff_of_true h.lock (by simp [LeaveOk, hp]), fun _ => hok.mono fun _ => rfl⟩
    · cases heq
      exact kept_ok h (by simp [hp, Pass.Leaving]) _ intStatus
  | cover exitFlow =>
    rw [hp] at heq
    dsimp only at heq
    split at heq
    · cases heq
      have hok : Flow.Ok True { s.flow with epCoverNet := false } :=
        ⟨h.lock, fun _ _ _ => .inr (.inr trivial), h.alternates⟩
      exact ⟨iff_of_true h.lock (by simp [LeaveOk, hp]), fun _ => hok⟩
    · cases heq
      rw [hp] at h
      refine ⟨iff_of_true h.lock (by simp [LeaveOk, hp]), fun _ => h.mono fun hl => ?_⟩
      rw [if_pos (show exitFlow = true from hl)]
      trivial
  | leave =>
    rw [hp] at heq
    obtain ⟨g, hg, rfl⟩ := map_eq_some_iff.mp heq
    have hiff := lock_of_leave hg h.lock
    refine ⟨hiff.trans ⟨fun hclear _ => hclear, fun hclear => hclear hp⟩, fun hlock => ?_⟩
    exact Flow.Ok.leave hg h.lock h.alternates (hiff.mp hlock)

theorem step_ok (h : s.flow.Ok s.pass.Leaving) (heq : step c s l = some t) :
    (t.flow.nicLock = false ↔ LeaveOk s l) ∧
      (t.flow.nicLock = false → t.flow.Ok t.pass.Leaving) := by
  cases l with
  | sendData skb dst netid intStatus dma =>
    obtain ⟨x, hx, rfl⟩ := map_eq_some_iff.mp heq
    have hok := sendData_ok h hx
    exact ⟨iff_of_true hok.lock trivial, fun _ => hok⟩
  | notifyCb evt =>
    obtain ⟨g, hg, rfl⟩ := map_eq_some_iff.mp heq
    obtain ⟨m, hm, hrest⟩ := bind_eq_some_iff.mp hg
    have hwarn : ∀ n, Flow.Ok s.pass.Leaving { s.flow with noFreeCnt := n } :=
      fun _ => ⟨h.lock, h.stopped, h.alternates⟩
    obtain ⟨hok, hfree⟩ := (hwarn _).notifyEnter hm
    obtain ⟨hiff, hpres⟩ := hok.notifyExit hrest
    rw [hfree] at hiff
    exact ⟨hiff, hpres⟩
  | freeSentItems =>
    have hflow : t.flow = s.flow ∧ ¬s.pass.Leaving := by
      change freeSentItems s = some t at heq
      unfold freeSentItems at heq
      split at heq
      next hidle =>
        cases heq
        exact ⟨rfl, by simp [hidle, Pass.Leaving]⟩
      next => cases heq
    have hok : t.flow.Ok t.pass.Leaving := by
      rw [hflow.1]
      exact h.mono fun hl => absurd hl hflow.2
    exact ⟨iff_of_true hok.lock trivial, fun _ => hok⟩
  | pass intStatus => exact pass_ok h heq
  | fetch =>
    obtain ⟨x, _, rfl⟩ := map_eq_some_iff.mp heq
    exact ⟨iff_of_true h.lock trivial, fun _ => h⟩
  | complete k errCode =>
    change deviceComplete s k errCode = some t at heq
    unfold deviceComplete at heq
    simp only [bind_eq_bind, bind_eq_some_iff] at heq
    obtain ⟨node, _, f, _, hst⟩ := heq
    cases hst
    exact ⟨iff_of_true h.lock trivial, fun _ => h⟩

end

/-- The lock is free, and between calls an interface is stopped only with a flag set, and has had
one event LEAVE for each event ENTER when both are clear. -/
structure Informed (s : State) : Prop where
  lock : s.flow.nicLock = false
  stopped : s.pass = .idle → ∀ nic ∈ s.flow.nicList, nic.flowCtrlStatus = true →
    s.flow.freeNotifyNet = true ∨ s.flow.epCoverNet = true
  paired : s.pass = .idle → s.flow.freeNotifyNet = false → s.flow.epCoverNet = false →
    ∀ nic ∈ s.flow.nicList,
      ∃ n, nic.evts = (replicate n [Evt.enterFlowctrl, .leaveFlowctrl]).flatten

theorem Flow.Ok.informed {s : State} (h : s.flow.Ok s.pass.Leaving) : Informed s where
  lock := h.lock
  stopped hp nic hnic hon := by
    have hflag := h.stopped nic hnic hon
    rw [hp] at hflag
    simpa [Pass.Leaving] using hflag
  paired hp hfree hcover nic hnic := by
    obtain ⟨n, hn⟩ := h.alternates nic hnic
    have hoff : ¬nic.flowCtrlStatus = true := fun hon => by
      have hflag := h.stopped nic hnic hon
      simp [hp, hfree, hcover, Pass.Leaving] at hflag
    exact ⟨n, by simpa [hoff] using hn⟩

theorem init_ok (c : Config) : (init c).flow.Ok (init c).pass.Leaving where
  lock := rfl
  stopped nic hnic hon := by
    obtain rfl := eq_of_mem_replicate hnic
    cases hon
  alternates nic hnic := by
    obtain rfl := eq_of_mem_replicate hnic
    exact ⟨0, rfl⟩

/-- The interfaces are informed in every state of a run exactly when the run has no event LEAVE
with a flag set. -/
theorem informed_iff (c : Config) (ls : List Label) :
    (∀ t ∈ Transition.statesOf (step c) (init c) ls, Informed t) ↔
      ∀ x ∈ Transition.stepsOf (step c) (init c) ls, LeaveOk x.1 x.2 :=
  Transition.forall_statesOf_iff_of (P := fun s => s.flow.Ok s.pass.Leaving)
    (fun _ hs => hs.informed)
    (fun _ _ _ hs hstep ht => (step_ok hs hstep).1.mp ht.lock)
    (fun _ _ _ hs hl hstep => (step_ok hs hstep).2 ((step_ok hs hstep).1.mpr hl))
    (init_ok c) ls

/-- The credit runs out for want of a mapping, the endpoint covers, and then leaves flow control. -/
def coveredRun : List Label :=
  [.sendData ⟨0, 100, 64⟩ 6 0 0 none, .notifyCb intEnterFlowCtrlSts, .notifyCb intExitFlowCtrlSts]

/-- The call that leaves flow control keeps the lock, and the next event waits for it for ever. -/
theorem not_informed_coveredRun : ∃ s, Transition.Reachable (step .built) (init .built) s ∧
    (s.pass = .idle ∧ s.flow.nicLock = true) ∧
      step .built s (.notifyCb intEnterFlowCtrlSts) = none := by
  obtain ⟨s, hs, hpass, hlock⟩ : ∃ s, Transition.Reachable (step .built) (init .built) s ∧
      (s.pass = .idle ∧ s.flow.nicLock = true) :=
    Transition.exists_of_run coveredRun (by decide)
  refine ⟨s, hs, ⟨hpass, hlock⟩, ?_⟩
  have hmask : intEnterFlowCtrlSts &&& intEnterFlowCtrlSts ≠ 0 := by decide
  simp only [step, sipaSenderNotifyCb, notifyEnter, if_pos hmask, sipaInformEvtToNics, hlock,
    if_true, bind_none, map_none]

end ModemSupport.Sipa
