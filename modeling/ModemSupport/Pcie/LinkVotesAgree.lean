import Mathlib.Data.List.Count
import ModemSupport.Pcie.LinkVotes

/-! The two sides of the PCIe link agree on whether the endpoint needs it whenever all is quiet,
in the runs in which the client releases the link only while its state is `SPRD_PCIE_SCANNED`. -/

namespace ModemSupport.Pcie.LinkVotes

open Lib.Transition Option

variable {s t : State} {c : Client} {h h' : Host} {e e' : EpState} {msg : EpMsg}
  {msgs ms : List EpMsg} {w : Bool}

/-- The client takes the message, and does not drop it. -/
def Fits : EpMsg → EpState → Prop
  | .rcScanned, state => state = .waitFirstReady ∨ state = .waitScanned
  | .rcRemoving, state => state = .scanned
  | .epcUnlink, state => state = .waitRemoved
  | .epcLinkup, state => state = .removed

/-- The client takes all messages in flight, and is in the second state behind them. -/
def Follows : EpState → List EpMsg → EpState → Prop
  | e, [], e' => e = e'
  | e, msg :: msgs, e' => Fits msg e ∧ Follows (changeState msg e) msgs e'

theorem Follows.append {e'' : EpState} (hf : Follows e msgs e') (hf' : Follows e' ms e'') :
    Follows e (msgs ++ ms) e'' := by
  induction msgs generalizing e with
  | nil =>
    obtain rfl : e = e' := hf
    exact hf'
  | cons msg msgs ih => exact ⟨hf.1, ih hf.2⟩

structure Client.Waiting (c : Client) : Prop where
  msiLater : c.msiLater = true → c.state = .waitFirstReady ∨ c.state = .waitScanned
  wakeupLater : c.wakeupLater = true → c.state = .waitRemoved

theorem Client.Waiting.receive (hc : c.Waiting) (hfits : Fits msg c.state) :
    (c.receive msg).1.Waiting := by
  obtain ⟨state, msiLater, wakeupLater⟩ := c
  obtain ⟨hmsi, hwakeup⟩ := hc
  cases msg <;> cases state <;> simp [Fits] at hfits <;> cases msiLater <;> cases wakeupLater <;>
    simp at hmsi hwakeup <;> exact ⟨by simp [Client.receive, changeState],
      by simp [Client.receive, changeState]⟩

theorem Client.Waiting.requestResource (hc : c.Waiting) : c.requestResource.1.Waiting := by
  obtain ⟨state, msiLater, wakeupLater⟩ := c
  obtain ⟨hmsi, hwakeup⟩ := hc
  cases state with
  | waitFirstReady => exact ⟨fun _ => .inl rfl, hwakeup⟩
  | waitScanned => exact ⟨fun _ => .inr rfl, hwakeup⟩
  | scanned => exact ⟨hmsi, hwakeup⟩
  | waitRemoved => exact ⟨hmsi, fun _ => rfl⟩
  | removed => exact ⟨hmsi, hwakeup⟩

def HostMsg.vote : HostMsg → Bool
  | .requestRes => true
  | .releaseRes => false
  | .wakeup => true

def voteBehind (epPowerOn : Bool) (msgs : List HostMsg) : Bool :=
  msgs.foldl (fun _ msg => msg.vote) epPowerOn

@[simp] theorem voteBehind_nil {b : Bool} : voteBehind b [] = b := rfl

theorem voteBehind_append_one {b : Bool} {msgs : List HostMsg} {msg : HostMsg} :
    voteBehind b (msgs ++ [msg]) = msg.vote := by
  simp [voteBehind]

theorem receive_epPowerOn {msg : HostMsg} : (h.receive msg).epPowerOn = msg.vote := by
  cases msg <;> rfl

/-- The vote that the client has sent or put off. -/
def State.promised (s : State) : Bool :=
  s.client.msiLater || s.client.wakeupLater || voteBehind s.host.epPowerOn s.toHost

/-- The stages of a remove and rescan, with the state that the client has when it has seen all that
was sent. -/
inductive Host.Stage (h : Host) : EpState → Prop
  | up : h.state = .scanned → h.configured = true → h.epDevProbe = true → h.probed = false →
      h.wq.count .remove = 0 → h.running = none ∨ h.running = some .scan → h.Stage .scanned
  | queued : h.state = .waitRemoved → h.configured = true → h.epDevProbe = true →
      h.probed = false → h.wq.count .remove = 1 → h.running = none ∨ h.running = some .scan →
      h.Stage .scanned
  | removing : h.state = .waitRemoved → h.configured = true → h.epDevProbe = true →
      h.probed = false → h.wq.count .remove = 0 → h.running = some .remove → h.Stage .scanned
  | notified : h.state = .waitRemoved → h.configured = true → h.epDevProbe = true →
      h.probed = false → h.wq.count .remove = 0 → h.running = some .unconfigure →
      h.Stage .waitRemoved
  | unconfigured : h.state = .removed → h.configured = true → h.epDevProbe = false →
      h.probed = false → h.wq.count .remove = 0 → h.running = some .linkDown → h.Stage .waitRemoved
  | down : h.state = .removed → h.configured = false → h.epDevProbe = false → h.probed = false →
      h.wq.count .remove = 0 → h.running = none ∨ h.running = some .scan → h.Stage .removed
  | linked : h.state = .removed → h.configured = true → h.epDevProbe = false → h.probed = true →
      h.wq.count .remove = 0 → h.running = none ∨ h.running = some .scan → h.Stage .waitScanned

theorem Host.Stage.receive (hs : h.Stage e) (msg : HostMsg) : (h.receive msg).Stage e := by
  have hsame : ∀ b, ({ h with epPowerOn := b } : Host).Stage e := by
    intro b
    cases hs with
    | up h1 h2 h3 h4 h5 h6 => exact .up h1 h2 h3 h4 h5 h6
    | queued h1 h2 h3 h4 h5 h6 => exact .queued h1 h2 h3 h4 h5 h6
    | removing h1 h2 h3 h4 h5 h6 => exact .removing h1 h2 h3 h4 h5 h6
    | notified h1 h2 h3 h4 h5 h6 => exact .notified h1 h2 h3 h4 h5 h6
    | unconfigured h1 h2 h3 h4 h5 h6 => exact .unconfigured h1 h2 h3 h4 h5 h6
    | down h1 h2 h3 h4 h5 h6 => exact .down h1 h2 h3 h4 h5 h6
    | linked h1 h2 h3 h4 h5 h6 => exact .linked h1 h2 h3 h4 h5 h6
  cases msg <;> exact hsame _

theorem count_queueWork_scan : (h.queueWork .scan).wq.count .remove = h.wq.count .remove := by
  unfold Host.queueWork
  split
  · rfl
  · simp [List.count_append]

theorem queueWork_scan_eq : h.queueWork .scan = { h with wq := (h.queueWork .scan).wq } := by
  unfold Host.queueWork
  split <;> rfl

theorem Host.Stage.startScan (hs : h.Stage e) : h.startScan.Stage e := by
  unfold Host.startScan
  split
  · exact hs
  · have hcount := count_queueWork_scan (h := h)
    rw [queueWork_scan_eq]
    cases hs with
    | up h1 h2 h3 h4 h5 h6 => exact .up h1 h2 h3 h4 (hcount.trans h5) h6
    | queued h1 h2 h3 h4 h5 h6 => exact .queued h1 h2 h3 h4 (hcount.trans h5) h6
    | removing h1 h2 h3 h4 h5 h6 => exact .removing h1 h2 h3 h4 (hcount.trans h5) h6
    | notified h1 h2 h3 h4 h5 h6 => exact .notified h1 h2 h3 h4 (hcount.trans h5) h6
    | unconfigured h1 h2 h3 h4 h5 h6 => exact .unconfigured h1 h2 h3 h4 (hcount.trans h5) h6
    | down h1 h2 h3 h4 h5 h6 => exact .down h1 h2 h3 h4 (hcount.trans h5) h6
    | linked h1 h2 h3 h4 h5 h6 => exact .linked h1 h2 h3 h4 (hcount.trans h5) h6

theorem Host.Stage.startRemove (hs : h.Stage e) : h.startRemove.Stage e := by
  unfold Host.startRemove
  split
  next hscanned =>
    cases hs with
    | up h1 h2 h3 h4 h5 h6 =>
      have hnot : Work.remove ∉ h.wq := List.count_eq_zero.mp h5
      simp only [Host.queueWork, hnot, if_false]
      refine .queued rfl h2 h3 h4 ?_ h6
      simp [List.count_append, h5]
    | queued h1 | removing h1 | notified h1 | unconfigured h1 | down h1 | linked h1 =>
      rw [hscanned] at h1
      cases h1
  next => exact hs

theorem Host.Stage.notifyProbe (hs : h.Stage e) (hprobed : h.probed = true) :
    ∃ e', h.notifyProbe.1.Stage e' ∧ Follows e h.notifyProbe.2 e' := by
  cases hs with
  | linked h1 h2 h3 h4 h5 h6 =>
    exact ⟨.scanned, .up rfl h2 rfl rfl h5 h6, .inr rfl, rfl⟩
  | up _ _ _ h4 | queued _ _ _ h4 | removing _ _ _ h4 | notified _ _ _ h4 | unconfigured _ _ _ h4
  | down _ _ _ h4 =>
    rw [h4] at hprobed
    cases hprobed

theorem Host.Stage.take (hs : h.Stage e) (hidle : h.running = none) {work : Work}
    {wq : List Work} (hwq : h.wq = work :: wq) :
    ({ h with
      wq := wq
      running := some (match work with | .scan => .scan | .remove => .remove)
    } : Host).Stage e := by
  cases work with
  | scan =>
    have hcount : h.wq.count .remove = wq.count .remove := by simp [hwq]
    cases hs with
    | up h1 h2 h3 h4 h5 h6 => exact .up h1 h2 h3 h4 (hcount ▸ h5) (.inr rfl)
    | queued h1 h2 h3 h4 h5 h6 => exact .queued h1 h2 h3 h4 (hcount ▸ h5) (.inr rfl)
    | down h1 h2 h3 h4 h5 h6 => exact .down h1 h2 h3 h4 (hcount ▸ h5) (.inr rfl)
    | linked h1 h2 h3 h4 h5 h6 => exact .linked h1 h2 h3 h4 (hcount ▸ h5) (.inr rfl)
    | removing _ _ _ _ _ h6 | notified _ _ _ _ _ h6 | unconfigured _ _ _ _ _ h6 =>
      rw [hidle] at h6
      cases h6
  | remove =>
    have hcount : h.wq.count .remove = wq.count .remove + 1 := by simp [hwq]
    cases hs with
    | queued h1 h2 h3 h4 h5 h6 => exact .removing h1 h2 h3 h4 (by simpa [hcount] using h5) rfl
    | up _ _ _ _ h5 | down _ _ _ _ h5 | linked _ _ _ _ h5 | removing _ _ _ _ h5
    | notified _ _ _ _ h5 | unconfigured _ _ _ _ h5 =>
      rw [hcount] at h5
      cases h5

theorem Host.Stage.work (hs : h.Stage e) (hw : h.work = some (h', msgs)) :
    ∃ e', h'.Stage e' ∧ Follows e msgs e' := by
  unfold Host.work at hw
  split at hw
  next hidle =>
    split at hw
    next => cases hw
    next wq hwq =>
      obtain ⟨rfl, rfl⟩ := Prod.mk.inj (some.inj hw)
      exact ⟨e, hs.take hidle hwq, rfl⟩
    next wq hwq =>
      obtain ⟨rfl, rfl⟩ := Prod.mk.inj (some.inj hw)
      exact ⟨e, hs.take hidle hwq, rfl⟩
  next hrun =>
    split at hw
    next hconf =>
      obtain ⟨rfl, rfl⟩ := Prod.mk.inj (some.inj hw)
      refine ⟨e, ?_, rfl⟩
      cases hs with
      | up h1 h2 h3 h4 h5 h6 => exact .up h1 h2 h3 h4 h5 (.inl rfl)
      | queued h1 h2 h3 h4 h5 h6 => exact .queued h1 h2 h3 h4 h5 (.inl rfl)
      | linked h1 h2 h3 h4 h5 h6 => exact .linked h1 h2 h3 h4 h5 (.inl rfl)
      | down _ h2 =>
        rw [hconf] at h2
        cases h2
      | removing _ _ _ _ _ h6 | notified _ _ _ _ _ h6 | unconfigured _ _ _ _ _ h6 =>
        rw [hrun] at h6
        cases h6
    next hconf =>
      obtain ⟨rfl, rfl⟩ := Prod.mk.inj (some.inj hw)
      cases hs with
      | down h1 h2 h3 h4 h5 h6 =>
        exact ⟨.waitScanned, .linked h1 rfl h3 rfl h5 (.inl rfl), rfl, rfl⟩
      | up _ h2 | queued _ h2 | linked _ h2 | removing _ h2 | notified _ h2 | unconfigured _ h2 =>
        exact absurd h2 hconf
  next hrun =>
    cases hs with
    | removing h1 h2 h3 h4 h5 h6 =>
      rw [if_pos h3] at hw
      obtain ⟨rfl, rfl⟩ := Prod.mk.inj (some.inj hw)
      exact ⟨.waitRemoved, .notified h1 h2 h3 h4 h5 rfl, rfl, rfl⟩
    | up _ _ _ _ _ h6 | queued _ _ _ _ _ h6 | down _ _ _ _ _ h6 | linked _ _ _ _ _ h6
    | notified _ _ _ _ _ h6 | unconfigured _ _ _ _ _ h6 => simp [hrun] at h6
  next hrun =>
    obtain ⟨rfl, rfl⟩ := Prod.mk.inj (some.inj hw)
    cases hs with
    | notified h1 h2 h3 h4 h5 h6 => exact ⟨.waitRemoved, .unconfigured rfl h2 rfl rfl h5 rfl, rfl⟩
    | up _ _ _ _ _ h6 | queued _ _ _ _ _ h6 | down _ _ _ _ _ h6 | linked _ _ _ _ _ h6
    | removing _ _ _ _ _ h6 | unconfigured _ _ _ _ _ h6 => simp [hrun] at h6
  next hrun =>
    obtain ⟨rfl, rfl⟩ := Prod.mk.inj (some.inj hw)
    cases hs with
    | unconfigured h1 h2 h3 h4 h5 h6 =>
      exact ⟨.removed, .down h1 rfl h3 h4 h5 (.inl rfl), rfl, rfl⟩
    | up _ _ _ _ _ h6 | queued _ _ _ _ _ h6 | down _ _ _ _ _ h6 | linked _ _ _ _ _ h6
    | removing _ _ _ _ _ h6 | notified _ _ _ _ _ h6 => simp [hrun] at h6

theorem work_epPowerOn (hw : h.work = some (h', msgs)) : h'.epPowerOn = h.epPowerOn := by
  have hsame : ∀ x : Host × List EpMsg, x.1.epPowerOn = h.epPowerOn → some x = some (h', msgs) →
      h'.epPowerOn = h.epPowerOn := by
    intro x hx heq
    rw [some.inj heq] at hx
    exact hx
  unfold Host.work at hw
  split at hw
  next =>
    split at hw
    next => cases hw
    next => exact hsame _ rfl hw
    next => exact hsame _ rfl hw
  next => split at hw <;> exact hsame _ (by rfl) hw
  next => split at hw <;> exact hsame _ (by rfl) hw
  next => exact hsame _ rfl hw
  next => exact hsame _ rfl hw

theorem queueWork_epPowerOn {work : Work} : (h.queueWork work).epPowerOn = h.epPowerOn := by
  unfold Host.queueWork
  split <;> rfl

theorem startScan_epPowerOn : h.startScan.epPowerOn = h.epPowerOn := by
  unfold Host.startScan
  split
  · rfl
  · exact queueWork_epPowerOn

theorem startRemove_epPowerOn : h.startRemove.epPowerOn = h.epPowerOn := by
  unfold Host.startRemove
  split
  · exact queueWork_epPowerOn
  · rfl

structure Inv (s : State) : Prop where
  stage : ∃ e, s.host.Stage e ∧ Follows s.client.state s.toClient e
  waiting : s.client.Waiting
  promised : ∀ w, s.last = some w → s.promised = w

theorem inv_init : Inv init where
  stage := ⟨.scanned, .up rfl rfl rfl rfl rfl (.inl rfl), .inl rfl, rfl⟩
  waiting := ⟨nofun, nofun⟩
  promised := nofun

theorem Inv.fromHost (hi : Inv s)
    (hstage : ∀ e, s.host.Stage e → ∃ e', h'.Stage e' ∧ Follows e msgs e')
    (hvote : h'.epPowerOn = s.host.epPowerOn) : Inv (s.fromHost (h', msgs)) where
  stage := by
    obtain ⟨e, hs, hf⟩ := hi.stage
    obtain ⟨e', hs', hf'⟩ := hstage e hs
    exact ⟨e', hs', hf.append hf'⟩
  waiting := hi.waiting
  promised := by
    intro w hw
    rw [← hi.promised w hw]
    simp only [State.promised, State.fromHost, hvote]

theorem receive_promised {b : Bool} {toHost : List HostMsg} (c : Client) (msg : EpMsg) :
    ((c.receive msg).1.msiLater || (c.receive msg).1.wakeupLater ||
      voteBehind b (toHost ++ (c.receive msg).2)) =
        (c.msiLater || c.wakeupLater || voteBehind b toHost) := by
  obtain ⟨state, msiLater, wakeupLater⟩ := c
  cases msg with
  | rcScanned =>
    cases msiLater with
    | true => simp [Client.receive, voteBehind_append_one, HostMsg.vote]
    | false => simp [Client.receive]
  | rcRemoving => simp [Client.receive]
  | epcUnlink =>
    cases wakeupLater with
    | true => simp [Client.receive, voteBehind_append_one, HostMsg.vote]
    | false => simp [Client.receive]
  | epcLinkup => simp [Client.receive]

theorem receive_state : (c.receive msg).1.state = changeState msg c.state := by
  cases msg with
  | rcScanned | epcUnlink => simp only [Client.receive]; split <;> rfl
  | rcRemoving | epcLinkup => rfl

theorem Inv.receive (hi : Inv s) (hmsgs : s.toClient = msg :: msgs) :
    Inv (({ s with toClient := msgs } : State).fromClient (s.client.receive msg)) := by
  obtain ⟨e, hs, hf⟩ := hi.stage
  rw [hmsgs] at hf
  refine ⟨⟨e, hs, ?_⟩, hi.waiting.receive hf.1, fun w hw => ?_⟩
  · show Follows (s.client.receive msg).1.state msgs e
    rw [receive_state]
    exact hf.2
  · rw [← hi.promised w hw]
    exact receive_promised s.client msg

theorem requestResource_state : c.requestResource.1.state = c.state := by
  unfold Client.requestResource
  split <;> rfl

theorem requestResource_promised {b : Bool} {toHost : List HostMsg} (c : Client) :
    (c.requestResource.1.msiLater || c.requestResource.1.wakeupLater ||
      voteBehind b (toHost ++ c.requestResource.2)) = true := by
  obtain ⟨state, msiLater, wakeupLater⟩ := c
  cases state <;> simp [Client.requestResource, voteBehind_append_one, HostMsg.vote]

theorem Inv.clientRequest (hi : Inv s) :
    Inv { s.fromClient s.client.requestResource with last := some true } where
  stage := by
    obtain ⟨e, hs, hf⟩ := hi.stage
    refine ⟨e, hs, ?_⟩
    show Follows s.client.requestResource.1.state s.toClient e
    rw [requestResource_state]
    exact hf
  waiting := hi.waiting.requestResource
  promised := by
    rintro w ⟨rfl⟩
    exact requestResource_promised s.client

theorem Inv.clientRelease (hi : Inv s) (hscanned : s.client.state = .scanned) :
    Inv { s.fromClient s.client.releaseResource with last := some false } := by
  have hsent : s.client.releaseResource = (s.client, [.releaseRes]) := by
    unfold Client.releaseResource
    rw [hscanned]
  have hmsi : s.client.msiLater = false := by
    rw [Bool.eq_false_iff]
    intro hlater
    simpa [hscanned] using hi.waiting.msiLater hlater
  have hwakeup : s.client.wakeupLater = false := by
    rw [Bool.eq_false_iff]
    intro hlater
    simpa [hscanned] using hi.waiting.wakeupLater hlater
  rw [hsent]
  refine ⟨hi.stage, hi.waiting, ?_⟩
  rintro w ⟨rfl⟩
  simp [State.promised, State.fromClient, hmsi, hwakeup, voteBehind_append_one, HostMsg.vote]

/-- The client releases the link only while its state is `SPRD_PCIE_SCANNED`. -/
def Ok (s : State) : Label → Prop
  | .clientRelease => s.client.state = .scanned
  | _ => True

instance : ∀ s l, Decidable (Ok s l)
  | s, .clientRelease => inferInstanceAs (Decidable (s.client.state = .scanned))
  | _, .clientRequest => inferInstanceAs (Decidable True)
  | _, .toClient => inferInstanceAs (Decidable True)
  | _, .toHost => inferInstanceAs (Decidable True)
  | _, .work => inferInstanceAs (Decidable True)
  | _, .notifyProbe => inferInstanceAs (Decidable True)
  | _, .voteUp => inferInstanceAs (Decidable True)
  | _, .voteDown => inferInstanceAs (Decidable True)
  | _, .hostRequest => inferInstanceAs (Decidable True)
  | _, .hostRelease => inferInstanceAs (Decidable True)

theorem step_inv {l : Label} (hi : Inv s) (hok : Ok s l) (ht : step s l = some t) : Inv t := by
  cases l with
  | clientRequest =>
    simp only [step, ite_none_left_eq_some, some.injEq] at ht
    obtain ⟨-, rfl⟩ := ht
    exact hi.clientRequest
  | clientRelease =>
    simp only [step, ite_none_right_eq_some, some.injEq] at ht
    obtain ⟨-, rfl⟩ := ht
    exact hi.clientRelease hok
  | toClient =>
    simp only [step] at ht
    split at ht
    next => cases ht
    next msg rest hmsgs =>
      obtain rfl := some.inj ht
      exact hi.receive hmsgs
  | toHost =>
    simp only [step] at ht
    split at ht
    next => cases ht
    next msg rest hmsgs =>
      obtain rfl := some.inj ht
      obtain ⟨e, hs, hf⟩ := hi.stage
      refine ⟨⟨e, hs.receive msg, hf⟩, hi.waiting, fun w hw => ?_⟩
      rw [← hi.promised w hw]
      simp only [State.promised, receive_epPowerOn, hmsgs]
      rfl
  | work =>
    obtain ⟨⟨h', msgs⟩, hw, rfl⟩ := map_eq_some_iff.mp ht
    exact hi.fromHost (fun e hs => hs.work hw) (work_epPowerOn hw)
  | notifyProbe =>
    simp only [step, ite_none_right_eq_some, some.injEq] at ht
    obtain ⟨hprobed, rfl⟩ := ht
    exact hi.fromHost (fun e hs => hs.notifyProbe hprobed) rfl
  | voteUp =>
    obtain rfl := some.inj ht
    exact ⟨hi.stage, hi.waiting, hi.promised⟩
  | voteDown =>
    simp only [step, ite_none_right_eq_some, some.injEq] at ht
    obtain ⟨-, rfl⟩ := ht
    exact ⟨hi.stage, hi.waiting, hi.promised⟩
  | hostRequest =>
    simp only [step, ite_none_right_eq_some, some.injEq] at ht
    obtain ⟨-, rfl⟩ := ht
    obtain ⟨e, hs, hf⟩ := hi.stage
    refine ⟨⟨e, hs.startScan, hf⟩, hi.waiting, fun w hw => ?_⟩
    rw [← hi.promised w hw]
    simp only [State.promised, startScan_epPowerOn]
  | hostRelease =>
    simp only [step, ite_none_right_eq_some, some.injEq] at ht
    obtain ⟨-, rfl⟩ := ht
    obtain ⟨e, hs, hf⟩ := hi.stage
    refine ⟨⟨e, hs.startRemove, hf⟩, hi.waiting, fun w hw => ?_⟩
    rw [← hi.promised w hw]
    simp only [State.promised, startRemove_epPowerOn]

/-- Nothing is in flight, no work is queued or runs, and the power manager has no call to make. -/
structure State.Quiet (s : State) : Prop where
  toClient : s.toClient = []
  toHost : s.toHost = []
  wq : s.host.wq = []
  running : s.host.running = none
  probed : s.host.probed = false
  requested : s.requested = s.voted

instance (s : State) : Decidable s.Quiet :=
  decidable_of_iff (s.toClient = [] ∧ s.toHost = [] ∧ s.host.wq = [] ∧ s.host.running = none ∧
    s.host.probed = false ∧ s.requested = s.voted)
    ⟨fun ⟨h1, h2, h3, h4, h5, h6⟩ => ⟨h1, h2, h3, h4, h5, h6⟩,
      fun ⟨h1, h2, h3, h4, h5, h6⟩ => ⟨h1, h2, h3, h4, h5, h6⟩⟩

/-- The two sides agree when all is quiet. -/
structure Agree (s : State) : Prop where
  /-- Behind the client's first call, the host holds its vote exactly when its last call was a
  request. -/
  votes : s.Quiet → ∀ w, s.last = some w → s.host.epPowerOn = w
  /-- Nothing is put off, and both sides see the link up or both see it removed. -/
  links : s.Quiet → (s.client.msiLater = false ∧ s.client.wakeupLater = false) ∧
    (s.client.state = .scanned ∧ s.host.state = .scanned ∨
      s.client.state = .removed ∧ s.host.state = .removed)

theorem Inv.links (hi : Inv s) (hq : s.Quiet) :
    s.client.state = .scanned ∧ s.host.state = .scanned ∨
      s.client.state = .removed ∧ s.host.state = .removed := by
  obtain ⟨e, hs, hf⟩ := hi.stage
  rw [hq.toClient] at hf
  have hstate : s.client.state = e := hf
  cases hs with
  | up h1 => exact .inl ⟨hstate, h1⟩
  | down h1 => exact .inr ⟨hstate, h1⟩
  | queued _ _ _ _ h5 => simp [hq.wq] at h5
  | linked _ _ _ h4 => simp [hq.probed] at h4
  | removing _ _ _ _ _ h6 | notified _ _ _ _ _ h6 | unconfigured _ _ _ _ _ h6 =>
    simp [hq.running] at h6

theorem Inv.agree (hi : Inv s) : Agree s := by
  have hlater : s.Quiet → s.client.msiLater = false ∧ s.client.wakeupLater = false := by
    intro hq
    have hstate : ∀ state, s.client.state = state →
        state ≠ .waitFirstReady ∧ state ≠ .waitScanned ∧ state ≠ .waitRemoved := by
      rintro state rfl
      rcases hi.links hq with ⟨hc, -⟩ | ⟨hc, -⟩ <;> simp [hc]
    obtain ⟨hfirst, hscanned, hremoved⟩ := hstate _ rfl
    constructor
    · rw [Bool.eq_false_iff]
      intro hset
      exact (hi.waiting.msiLater hset).elim hfirst hscanned
    · rw [Bool.eq_false_iff]
      intro hset
      exact hremoved (hi.waiting.wakeupLater hset)
  refine ⟨fun hq w hw => ?_, fun hq => ⟨hlater hq, hi.links hq⟩⟩
  have hpromised := hi.promised w hw
  obtain ⟨hmsi, hwakeup⟩ := hlater hq
  simpa [State.promised, hmsi, hwakeup, hq.toHost] using hpromised

/-- In the runs in which the client releases the link only while its state is `SPRD_PCIE_SCANNED`,
the two sides agree. -/
theorem agree_of_scanned (h : Reaches step Ok init s) : Agree s :=
  (h.invariant (P := Inv) inv_init fun _ _ _ hs hok ht => step_inv hs hok ht).agree

/-- The client gives the link up, the host removes the device, and the next request of the client
brings it back. -/
theorem agree_rescan : ∃ s, Agree s ∧ s.Quiet ∧ s.last = some true ∧ s.host.state = .scanned := by
  have hrun : (run (guarded step Ok) init
      [.toClient, .hostRequest, .clientRequest, .toHost, .clientRelease, .toHost, .hostRelease,
        .work, .work, .toClient, .work, .work, .toClient, .clientRequest, .toHost, .hostRequest,
        .work, .work, .toClient, .notifyProbe, .toClient]).any (fun s =>
          decide (s.Quiet ∧ s.last = some true ∧ s.host.state = .scanned)) = true := by
    decide
  obtain ⟨s, hreaches, hs⟩ := exists_of_run _ hrun
  exact ⟨s, agree_of_scanned hreaches, hs⟩

/-- A release that the client makes before the rescan is through is dropped, and the vote of the
request before it stays. -/
theorem not_agree_droppedRelease : ¬∀ s, Reachable step init s → Agree s := by
  intro h
  have hrun : (run (guarded step fun _ _ => True) init
      [.toClient, .hostRequest, .clientRequest, .toHost, .clientRelease, .toHost, .hostRelease,
        .work, .work, .toClient, .work, .work, .toClient, .clientRequest, .clientRelease, .toHost,
        .hostRequest, .work, .work, .toClient, .notifyProbe, .toClient]).any (fun s =>
          decide (s.Quiet ∧ s.last = some false ∧ s.host.epPowerOn = true)) = true := by
    decide
  obtain ⟨s, hreaches, hquiet, hlast, hon⟩ := exists_of_run _ hrun
  rw [(h s hreaches).votes hquiet false hlast] at hon
  cases hon

end ModemSupport.Pcie.LinkVotes
