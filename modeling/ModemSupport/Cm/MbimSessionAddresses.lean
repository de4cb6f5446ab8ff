import ModemSupport.Cm.MbimSession

/-! When the addresses on `mbim_netcard` are those of the session: activation is followed by
`mbim_ip_config` only where the loop has asked for it itself, and an address is only ever replaced,
so that a session must end where the loop sets up the next one. -/

namespace ModemSupport.Cm.MbimSession

open Lib.Transition MbimMain

variable {s t : State} {a : Answer} {l : Label} {v : Var} {x : UInt32}

/-- A change to Activated here is overwritten, or seen in front of `mbim_ip_config`. -/
def Pc.fetches : Pc → Bool
  | .connectQuery | .setConnect | .setConnectUpdate | .activation3 | .ipConfig => true
  | _ => false

/-- A change to Deactivated here is seen in front of `mbim_set_connect`, or the loop is over. -/
def Pc.redials : Pc → Bool
  | .activation1 | .connectQuery | .connectUpdate | .activation2 | .setConnect | .exited => true
  | _ => false

/-- The pass has not come to `ActivationState`, and no query is under way. -/
def Pc.starts : Pc → Bool
  | .testQuit | .testOpen | .ready1 | .ready2 | .register1 | .register2 | .packet1
  | .packet2 => true
  | _ => false

def lets : Var → UInt32 → Bool
  | .ReadyState, x => x == MBIMSubscriberReadyStateInitialized
  | .RegisterState, x => registered x
  | .PacketServiceState, x => x == MBIMPacketServiceStateAttached
  | .ActivationState, _ => true

def State.attached (s : State) : Bool :=
  lets .ReadyState (s.vars .ReadyState) && lets .RegisterState (s.vars .RegisterState) &&
    lets .PacketServiceState (s.vars .PacketServiceState)

/-- The pass comes to `mbim_set_connect` from here when `ActivationState` is Deactivated. -/
def State.redials (s : State) : Bool := s.pc.redials || s.pc.starts && s.attached

/-- The device has been opened, and there are addresses on the card. -/
def State.online (s : State) : Bool := s.openState && s.addressed

def State.activated (s : State) : Bool := s.vars .ActivationState == MBIMActivationStateActivated

def State.deactivated (s : State) : Bool :=
  s.vars .ActivationState == MBIMActivationStateDeactivated

/-- An indication of Activated comes only while the loop is setting up the session; one of
Deactivated comes, with addresses on the card, only in a pass that sets up the next session, which
no other indication then stops; a query never says Activated, `mbim_set_connect` does not end with
Deactivated over the addresses of an earlier session, and the session lasts until its addresses are
set. -/
def Orderly (s : State) : Label → Prop
  | .indicate .ActivationState x =>
    (x = MBIMActivationStateActivated → s.activated ∨ s.pc.fetches) ∧
    (x = MBIMActivationStateDeactivated → s.online → s.deactivated ∨ s.redials)
  | .indicate v x => s.online → s.deactivated → s.pc.starts → lets v x
  | .main a =>
    (s.pc = .connectQuery →
      a.value.getD (s.vars .ActivationState) ≠ MBIMActivationStateActivated) ∧
    (s.pc = .setConnect → s.addressed →
      a.value.getD (s.vars .ActivationState) ≠ MBIMActivationStateDeactivated) ∧
    (s.pc = .ipConfig → a.ipv4 ∨ a.ipv6 → s.deactivated = false)
  | .wake _ | .sigaction => True

/-- A value that has been read last is the one the loop acts on: Activated in front of
`mbim_ip_config`, Deactivated in front of `mbim_set_connect`. -/
structure Inv (s : State) : Prop where
  active : s.activated → s.configured ∨ s.pc.fetches
  seenActive : s.lastSeen = some MBIMActivationStateActivated →
    s.configured ∨ s.pc = .activation3 ∨ s.pc = .ipConfig
  asking : s.pc = .connectQuery ∨ s.pc = .setConnect ∨ s.pc = .setConnectUpdate →
    s.lastSeen ≠ some MBIMActivationStateActivated
  fetching : s.pc = .ipConfig → s.lastSeen = some MBIMActivationStateActivated
  opened : s.openState = false →
    s.pc = .testQuit ∨ s.pc = .testOpen ∨ s.pc = .openDevice ∨ s.pc = .exited
  flushed : s.pc = .openDevice → s.addressed = false
  inactive : s.online → s.deactivated → s.redials
  seenInactive : s.online → s.lastSeen = some MBIMActivationStateDeactivated →
    s.pc = .activation2 ∨ s.pc = .setConnect ∨ s.pc = .setConnectUpdate

theorem inv_init (ipv4 ipv6 : Bool) : Inv (init ipv4 ipv6) := by
  constructor <;> simp [init, State.activated, State.online, MBIMActivationStateActivated]

def Pc.plain : Pc → Bool
  | .connectQuery | .setConnect | .setConnectUpdate | .activation2 | .activation3 | .ipConfig
  | .openDevice => false
  | _ => true

def Pc.early : Pc → Bool
  | .testQuit | .testOpen | .openDevice | .exited => true
  | _ => false

theorem Pc.fetches_iff {p : Pc} :
    p.fetches ↔ (p = .connectQuery ∨ p = .setConnect ∨ p = .setConnectUpdate) ∨
      p = .activation3 ∨ p = .ipConfig := by
  cases p <;> simp [Pc.fetches]

theorem Pc.fetches_of_plain {p : Pc} (h : p.plain) : p.fetches = false := by
  cases p <;> first | rfl | cases h

theorem Pc.early_iff {p : Pc} :
    p.early ↔ p = .testQuit ∨ p = .testOpen ∨ p = .openDevice ∨ p = .exited := by
  cases p <;> simp [Pc.early]

theorem Inv.isOpen (h : Inv s) (hpc : s.pc.early = false) : s.openState = true := by
  cases hopen : s.openState with
  | true => rfl
  | false => rcases h.opened hopen with e | e | e | e <;> rw [e] at hpc <;> cases hpc

theorem Inv.configured_of_plain (h : Inv s) (hpc : s.pc.plain) (ha : s.activated) :
    s.configured := by
  rcases h.active ha with hc | hf
  · exact hc
  · rw [Pc.fetches_of_plain hpc] at hf
    cases hf

theorem Inv.configured_of_seen (h : Inv s) (hpc : s.pc.plain)
    (hs : s.lastSeen = some MBIMActivationStateActivated) : s.configured := by
  rcases h.seenActive hs with hc | e | e
  · exact hc
  · rw [e] at hpc
    cases hpc
  · rw [e] at hpc
    cases hpc

theorem Inv.seen_of_plain (h : Inv s) (hpc : s.pc.plain) (ho : s.online) :
    s.lastSeen ≠ some MBIMActivationStateDeactivated := by
  intro hs
  rcases h.seenInactive ho hs with e | e | e <;> rw [e] at hpc <;> cases hpc

theorem Inv.not_deactivated (h : Inv s) (hr : s.redials = false) (ho : s.online) :
    s.deactivated = false := by
  cases hd : s.deactivated with
  | false => rfl
  | true =>
    have hr' := h.inactive ho hd
    rw [hr] at hr'
    cases hr'

theorem Inv.of_plain (hpc : t.pc.plain) (hactive : t.activated → t.configured)
    (hseen : t.lastSeen = some MBIMActivationStateActivated → t.configured)
    (hopened : t.pc.early = false → t.openState = true)
    (hinactive : t.online → t.deactivated → t.redials)
    (hlast : t.online → t.lastSeen ≠ some MBIMActivationStateDeactivated) : Inv t where
  active ha := .inl (hactive ha)
  seenActive hs := .inl (hseen hs)
  asking e := by rcases e with e | e | e <;> rw [e] at hpc <;> cases hpc
  fetching e := by rw [e] at hpc; cases hpc
  opened hopen := by
    cases he : t.pc.early with
    | false =>
      rw [hopened he] at hopen
      cases hopen
    | true => exact Pc.early_iff.mp he
  flushed e := by rw [e] at hpc; cases hpc
  inactive := hinactive
  seenInactive ho hs := absurd hs (hlast ho)

/-- A step that leaves `ActivationState`, the addresses and the ghosts alone. -/
structure Kept (s t : State) : Prop where
  activation : t.vars .ActivationState = s.vars .ActivationState
  lastSeen : t.lastSeen = s.lastSeen
  configured : t.configured = s.configured
  openState : t.openState = s.openState
  ipv4 : t.ipv4 = s.ipv4
  ipv6 : t.ipv6 = s.ipv6

theorem Kept.activated (k : Kept s t) : t.activated = s.activated := by
  rw [State.activated, State.activated, k.activation]

theorem Kept.deactivated (k : Kept s t) : t.deactivated = s.deactivated := by
  rw [State.deactivated, State.deactivated, k.activation]

theorem Kept.online (k : Kept s t) : t.online = s.online := by
  rw [State.online, State.online, State.addressed, State.addressed, k.openState, k.ipv4, k.ipv6]

theorem Inv.kept (h : Inv s) (k : Kept s t) (hs : s.pc.plain) (ht : t.pc.plain)
    (hopen : t.pc.early = false → s.openState = true)
    (hr : s.deactivated → s.redials → t.redials) : Inv t := by
  apply Inv.of_plain ht
  · intro ha
    rw [k.activated] at ha
    rw [k.configured]
    exact h.configured_of_plain hs ha
  · intro hseen
    rw [k.lastSeen] at hseen
    rw [k.configured]
    exact h.configured_of_seen hs hseen
  · intro he
    rw [k.openState]
    exact hopen he
  · intro ho hd
    rw [k.online] at ho
    rw [k.deactivated] at hd
    exact hr hd (h.inactive ho hd)
  · intro ho
    rw [k.online] at ho
    rw [k.lastSeen]
    exact h.seen_of_plain hs ho

theorem Inv.update (h : Inv s) (next : Pc) (hs : s.pc.plain) (he : s.pc.early = false)
    (hr : s.redials = false) (ht : next.plain) : Inv (s.update next) := by
  have hnot := h.not_deactivated hr
  apply Inv.of_plain ht
  · exact h.configured_of_plain hs
  · intro hseen
    apply h.configured_of_plain hs
    simpa [State.activated, State.update] using hseen
  · intro _
    exact h.isOpen he
  · intro ho hd
    have hd : s.deactivated := hd
    rw [hnot ho] at hd
    cases hd
  · intro ho hseen
    have hd : s.deactivated := by simpa [State.deactivated, State.update] using hseen
    rw [hnot ho] at hd
    cases hd

theorem Inv.activation1 (h : Inv s) (hpc : s.pc = .activation1) :
    Inv (s.test .ActivationState (· == MBIMActivationStateUnknown) .connectQuery .activation2) := by
  have hconf := h.configured_of_plain (by rw [hpc]; rfl)
  have hopen := h.isOpen (by rw [hpc]; rfl)
  unfold State.test
  split
  next hu =>
    have hzero : s.vars .ActivationState = MBIMActivationStateUnknown := by simpa using hu
    constructor <;>
      simp [hzero, hopen, State.activated, State.deactivated, State.redials, Pc.redials, Pc.fetches,
        MBIMActivationStateUnknown, MBIMActivationStateActivated, MBIMActivationStateDeactivated]
  next =>
    constructor <;>
      simp_all [State.activated, State.redials, Pc.redials]

theorem Inv.connectQuery (h : Inv s) (hpc : s.pc = .connectQuery)
    (hx : x ≠ MBIMActivationStateActivated) :
    Inv { s.setVar .ActivationState x with pc := .connectUpdate } := by
  have hseen := h.asking (.inl hpc)
  have hopen := h.isOpen (by rw [hpc]; rfl)
  apply Inv.of_plain rfl
  · simp [State.setVar, State.activated, hx]
  · intro hs
    exact absurd hs hseen
  · intro _
    exact hopen
  · intro _ _
    rfl
  · intro ho hs
    rcases h.seenInactive ho hs with e | e | e <;> rw [hpc] at e <;> cases e

theorem Inv.connectUpdate (h : Inv s) (hpc : s.pc = .connectUpdate) :
    Inv (s.update .activation2) := by
  have hconf := h.configured_of_plain (by rw [hpc]; rfl)
  have hopen := h.isOpen (by rw [hpc]; rfl)
  constructor <;>
    simp_all [State.update, State.activated, State.redials, Pc.redials]

theorem Inv.activation2 (h : Inv s) (hpc : s.pc = .activation2) :
    Inv (s.test .ActivationState MbimMain.active (.activation4 .day) .setConnect) := by
  have hconf : s.activated → s.configured := by
    intro ha
    rcases h.active ha with hc | hf
    · exact hc
    · rw [hpc] at hf
      cases hf
  have hopen := h.isOpen (by rw [hpc]; rfl)
  unfold State.test
  split
  next hact =>
    have hnot : s.deactivated = false := by
      rw [State.deactivated, beq_eq_false_iff_ne]
      intro hd
      rw [hd] at hact
      exact absurd hact (by decide)
    apply Inv.of_plain rfl
    · exact hconf
    · intro hs
      apply hconf
      simpa [State.activated] using hs
    · intro _
      exact hopen
    · intro _ hd
      exact absurd hd (by simpa [State.deactivated] using hnot)
    · intro _ hs
      have hd : s.deactivated := by simpa [State.deactivated] using hs
      rw [hnot] at hd
      cases hd
  next hact =>
    have hna : s.vars .ActivationState ≠ MBIMActivationStateActivated := by
      intro ha
      rw [ha] at hact
      exact hact (by decide)
    constructor <;>
      simp [hna, hopen, State.activated, State.redials, Pc.redials]

theorem Inv.setConnect (h : Inv s) (hpc : s.pc = .setConnect)
    (hx : s.addressed → x ≠ MBIMActivationStateDeactivated) :
    Inv { s.setVar .ActivationState x with pc := .setConnectUpdate } := by
  have hseen := h.asking (.inr (.inl hpc))
  have hopen := h.isOpen (by rw [hpc]; rfl)
  constructor
  · intro _
    exact .inr rfl
  · intro hs
    exact absurd hs hseen
  · intro _
    exact hseen
  · intro e
    cases e
  · intro he
    rw [State.setVar, hopen] at he
    cases he
  · intro e
    cases e
  · intro ho hd
    have hdx : x = MBIMActivationStateDeactivated := by
      simpa [State.deactivated, State.setVar] using hd
    have haddr : s.addressed := by
      simpa [State.online, State.addressed, State.setVar, hopen] using ho
    exact absurd hdx (hx haddr)
  · intro _ _
    exact .inr (.inr rfl)

theorem Inv.setConnectUpdate (h : Inv s) (hpc : s.pc = .setConnectUpdate) :
    Inv (s.update .activation3) := by
  have hopen := h.isOpen (by rw [hpc]; rfl)
  have hnot := h.not_deactivated (by rw [State.redials, hpc]; rfl)
  constructor <;>
    simp_all [State.update, State.activated, State.deactivated, State.online, State.addressed,
      Pc.fetches]

theorem Inv.activation3 (h : Inv s) (hpc : s.pc = .activation3) :
    Inv (s.test .ActivationState (· == MBIMActivationStateActivated) .ipConfig
      (.activation4 .retry)) := by
  have hopen := h.isOpen (by rw [hpc]; rfl)
  have hnot := h.not_deactivated (by rw [State.redials, hpc]; rfl)
  unfold State.test
  split
  next ha =>
    have ha : s.vars .ActivationState = MBIMActivationStateActivated := by simpa using ha
    constructor <;>
      simp [ha, hopen, State.deactivated, Pc.fetches, MBIMActivationStateActivated,
        MBIMActivationStateDeactivated]
  next ha =>
    have hna : s.vars .ActivationState ≠ MBIMActivationStateActivated := by simpa using ha
    apply Inv.of_plain rfl <;>
      simp_all [State.activated, State.deactivated, State.online, State.addressed]

theorem Inv.ipConfig (h : Inv s) (hpc : s.pc = .ipConfig)
    (ha : a.ipv4 ∨ a.ipv6 → s.deactivated = false) : Inv (mbimIpConfig s a) := by
  have hopen := h.isOpen (by rw [hpc]; rfl)
  have hseen := h.fetching hpc
  have hnot : (mbimIpConfig s a).online → s.deactivated = false := by
    intro ho
    by_cases hnew : a.ipv4 ∨ a.ipv6
    · exact ha hnew
    · apply h.not_deactivated (by rw [State.redials, hpc]; rfl)
      simpa [State.online, State.addressed, mbimIpConfig, hopen, not_or.mp hnew] using ho
  apply Inv.of_plain rfl
  · intro _
    rfl
  · intro _
    rfl
  · intro _
    exact hopen
  · intro ho hd
    exact absurd (hnot ho) (by simpa [State.deactivated, mbimIpConfig] using hd)
  · intro _
    simp [mbimIpConfig, hseen, MBIMActivationStateActivated, MBIMActivationStateDeactivated]

theorem Inv.open (h : Inv s) (hpc : s.pc = .testOpen) (ho : s.openState = false) :
    Inv { s.flush with pc := .openDevice } := by
  have hconf := h.configured_of_plain (by rw [hpc]; rfl)
  have hseen := h.configured_of_seen (by rw [hpc]; rfl)
  constructor <;>
    simp_all [State.flush, State.activated, State.online, State.addressed]

theorem Inv.opened_device (h : Inv s) (hpc : s.pc = .openDevice) :
    Inv { s with openState := true, pc := .reset .ReadyState } := by
  have hnone := h.flushed hpc
  have hoff : ({ s with openState := true, pc := .reset .ReadyState } : State).online = false :=
    hnone
  apply Inv.of_plain rfl
  · intro ha
    rcases h.active ha with hc | hf
    · exact hc
    · rw [hpc] at hf
      cases hf
  · intro hs
    rcases h.seenActive hs with hc | e | e
    · exact hc
    · rw [hpc] at e
      cases e
    · rw [hpc] at e
      cases e
  · intro _
    rfl
  · intro ho
    rw [hoff] at ho
    cases ho
  · intro ho
    rw [hoff] at ho
    cases ho

theorem kept_setVar (hv : v ≠ .ActivationState) (pc : Pc) :
    Kept s { s.setVar v x with pc } := by
  constructor <;> simp [State.setVar, hv, hv.symm]

theorem Inv.reset (h : Inv s) (hpc : s.pc = .reset v) :
    Inv { s.setVar v 0 with pc := resetNext v } := by
  have hs : s.pc.plain := by rw [hpc]; rfl
  have hopen := h.isOpen (by rw [hpc]; rfl)
  by_cases hv : v = .ActivationState
  · subst hv
    apply Inv.of_plain rfl
    · intro ha
      exact absurd ha (by simp [State.activated, State.setVar, MBIMActivationStateActivated])
    · intro hseen
      simpa [State.setVar, MBIMActivationStateActivated] using h.configured_of_seen hs hseen
    · intro _
      exact hopen
    · intro _ hd
      exact absurd hd (by simp [State.deactivated, State.setVar, MBIMActivationStateDeactivated])
    · exact h.seen_of_plain hs
  · apply h.kept (kept_setVar hv _) hs
    · cases v <;> rfl
    · intro _
      exact hopen
    · intro _ hr
      rw [State.redials, hpc] at hr
      cases hr

theorem Inv.query {pc next : Pc} (h : Inv s) (hpc : s.pc = pc) (hv : v ≠ .ActivationState)
    (hs : pc.plain) (he : pc.early = false) (hr : pc.redials = false) (hstart : pc.starts = false)
    (hn : next.plain) : Inv (s.query v a next) := by
  apply h.kept (kept_setVar hv _) (by rw [hpc]; exact hs) hn
  · intro _
    exact h.isOpen (by rw [hpc]; exact he)
  · intro _ hred
    rw [State.redials, hpc, hr, hstart] at hred
    cases hred

theorem Inv.test {pc yes no : Pc} {p : UInt32 → Bool} (h : Inv s) (hpc : s.pc = pc)
    (hv : v ≠ .ActivationState) (hs : pc.plain) (he : pc.early = false) (hr : pc.redials = false)
    (hyes : yes.plain) (hno : no.plain)
    (hpass : pc.starts → s.attached → p (s.vars v) ∧ (yes.redials ∨ yes.starts)) :
    Inv (s.test v p yes no) := by
  apply h.kept (by constructor <;> simp [State.test, hv]) (by rw [hpc]; exact hs)
  · unfold State.test
    split
    · exact hyes
    · exact hno
  · intro _
    exact h.isOpen (by rw [hpc]; exact he)
  · intro _ hred
    rw [State.redials, hpc, hr, Bool.false_or, Bool.and_eq_true] at hred
    obtain ⟨hp, hnext⟩ := hpass hred.1 hred.2
    rw [State.redials, State.test, if_pos hp, Bool.or_eq_true, Bool.and_eq_true]
    exact hnext.imp_right fun hstarts => ⟨hstarts, hred.2⟩

theorem State.attached_iff : s.attached ↔ lets .ReadyState (s.vars .ReadyState) ∧
    lets .RegisterState (s.vars .RegisterState) ∧
    lets .PacketServiceState (s.vars .PacketServiceState) := by
  rw [State.attached, Bool.and_eq_true, Bool.and_eq_true, and_assoc]

theorem Inv.main (h : Inv s) (hok : Orderly s (.main a)) (ht : mainStep s a = some t) :
    Inv t := by
  obtain ⟨hquery, hset, hconfig⟩ := hok
  cases hpc : s.pc <;> simp only [mainStep, hpc, Option.some.injEq, reduceCtorEq] at ht <;>
    subst ht
  case testQuit =>
    apply h.kept (by constructor <;> rfl) (by rw [hpc]; rfl)
    · cases s.mbimQuit <;> rfl
    · cases s.mbimQuit <;> intro he <;> cases he
    · intro _ hr
      rw [State.redials, hpc] at hr
      cases s.mbimQuit
      · exact hr
      · rfl
  case testOpen =>
    split
    next ho =>
      apply h.kept (by constructor <;> rfl) (by rw [hpc]; rfl) rfl
      · intro _
        exact ho
      · intro _ hr
        rw [State.redials, hpc] at hr
        exact hr
    next ho => exact h.open hpc (by simpa using ho)
  case openDevice => exact h.opened_device hpc
  case reset v => exact h.reset hpc
  case deviceCaps =>
    apply h.kept (by constructor <;> rfl) (by rw [hpc]; rfl) rfl
    · intro _
      exact h.isOpen (by rw [hpc]; rfl)
    · intro _ hr
      rw [State.redials, hpc] at hr
      cases hr
  case ready1 | ready2 =>
    apply h.test hpc (by decide) rfl rfl rfl rfl rfl
    intro _ ha
    exact ⟨(State.attached_iff.mp ha).1, .inr rfl⟩
  case register1 | register2 =>
    apply h.test hpc (by decide) rfl rfl rfl rfl rfl
    intro _ ha
    exact ⟨(State.attached_iff.mp ha).2.1, .inr rfl⟩
  case packet1 =>
    apply h.test hpc (by decide) rfl rfl rfl rfl rfl
    intro _ ha
    exact ⟨(State.attached_iff.mp ha).2.2, .inr rfl⟩
  case packetDetached =>
    apply h.test hpc (by decide) rfl rfl rfl rfl rfl
    intro hs
    cases hs
  case packet2 =>
    apply h.test hpc (by decide) rfl rfl rfl rfl rfl
    intro _ ha
    exact ⟨(State.attached_iff.mp ha).2.2, .inl rfl⟩
  case readyQuery | registerQuery | packetQuery | packetSet =>
    exact h.query hpc (by decide) rfl rfl rfl rfl rfl
  case readyUpdate | registerUpdate | packetQueryUpdate | packetUpdate | ipConfigUpdate =>
    exact h.update _ (by rw [hpc]; rfl) (by rw [hpc]; rfl) (by rw [State.redials, hpc]; rfl) rfl
  case activation1 => exact h.activation1 hpc
  case connectQuery => exact h.connectQuery hpc (hquery hpc)
  case connectUpdate => exact h.connectUpdate hpc
  case activation2 => exact h.activation2 hpc
  case setConnect => exact h.setConnect hpc (hset hpc)
  case setConnectUpdate => exact h.setConnectUpdate hpc
  case activation3 => exact h.activation3 hpc
  case ipConfig => exact h.ipConfig hpc (hconfig hpc)
  case activation4 w =>
    rw [show s.test .ActivationState (· == MBIMActivationStateActivated) (.wait w) (.wait w) =
      s.update (.wait w) by simp [State.test, State.update]]
    exact h.update _ (by rw [hpc]; rfl) (by rw [hpc]; rfl) (by rw [State.redials, hpc]; rfl) rfl
  case waitUpdate =>
    have hupdate : Inv (s.update (.wait .settle)) :=
      h.update _ (by rw [hpc]; rfl) (by rw [hpc]; rfl) (by rw [State.redials, hpc]; rfl) rfl
    apply hupdate.kept (by constructor <;> rfl) rfl
    · cases s.mbimQuit <;> rfl
    · intro _
      exact h.isOpen (by rw [hpc]; rfl)
    · intro _ hr
      cases hr

theorem notify_of_ne (hne : s.vars v ≠ x) : s.notify v x = s.setVar v x := by
  rw [State.notify, if_neg hne]

theorem Inv.indicate_other (h : Inv s) (hv : v ≠ .ActivationState)
    (hok : s.online → s.deactivated → s.pc.starts → lets v x) : Inv (s.setVar v x) := by
  have k : Kept s (s.setVar v x) := kept_setVar hv s.pc
  have hred : s.online → s.deactivated → s.redials → (s.setVar v x).redials := by
    intro ho hd hr
    rw [State.redials, Bool.or_eq_true, Bool.and_eq_true] at hr ⊢
    refine hr.imp_right fun hs => ⟨hs.1, ?_⟩
    have hx := hok ho hd hs.1
    have ha := State.attached_iff.mp hs.2
    rw [State.attached_iff]
    cases v <;> simp_all [State.setVar]
  constructor
  · rw [k.activated, k.configured]
    exact h.active
  · rw [k.lastSeen, k.configured]
    exact h.seenActive
  · rw [k.lastSeen]
    exact h.asking
  · rw [k.lastSeen]
    exact h.fetching
  · rw [k.openState]
    exact h.opened
  · exact h.flushed
  · rw [k.online, k.deactivated]
    intro ho hd
    exact hred ho hd (h.inactive ho hd)
  · rw [k.online, k.lastSeen]
    exact h.seenInactive

theorem redials_setVar : (s.setVar .ActivationState x).redials = s.redials := by
  simp [State.redials, State.attached, State.setVar]

theorem Inv.indicate_activation (h : Inv s)
    (ha : x = MBIMActivationStateActivated → s.pc.fetches)
    (hd : x = MBIMActivationStateDeactivated → s.online → s.redials) :
    Inv (s.setVar .ActivationState x) := by
  constructor
  · intro hact
    have hx : x = MBIMActivationStateActivated := by
      simpa [State.activated, State.setVar] using hact
    exact .inr (ha hx)
  · intro hseen
    by_cases hx : x = MBIMActivationStateActivated
    · right
      -- Elsewhere the value that has been read last is not Activated.
      rcases Pc.fetches_iff.mp (ha hx) with hask | hfetch
      · exact absurd hseen (h.asking hask)
      · exact hfetch
    · simpa [State.setVar, hx] using h.seenActive hseen
  · exact h.asking
  · exact h.fetching
  · exact h.opened
  · exact h.flushed
  · intro ho hdeact
    have hx : x = MBIMActivationStateDeactivated := by
      simpa [State.deactivated, State.setVar] using hdeact
    rw [redials_setVar]
    exact hd hx ho
  · exact h.seenInactive

theorem Inv.indicate (h : Inv s) (hok : Orderly s (.indicate v x)) : Inv (s.notify v x) := by
  by_cases hne : s.vars v = x
  · rw [State.notify, if_pos hne]
    exact h
  rw [notify_of_ne hne]
  by_cases hv : v = .ActivationState
  · subst hv
    apply h.indicate_activation
    · intro hx
      exact (hok.1 hx).resolve_left fun ha => hne (by simpa [State.activated, hx] using ha)
    · intro hx ho
      exact (hok.2 hx ho).resolve_left fun hd => hne (by simpa [State.deactivated, hx] using hd)
  · apply h.indicate_other hv
    cases v with
    | ActivationState => exact absurd rfl hv
    | ReadyState | RegisterState | PacketServiceState => exact hok

theorem Inv.wake {w : Wait} {next : Pc} (h : Inv s) (hpc : s.pc = .wait w) (hn : next.plain) :
    Inv { s with pc := next } := by
  apply h.kept (by constructor <;> rfl) (by rw [hpc]; rfl) hn
  · intro _
    exact h.isOpen (by rw [hpc]; rfl)
  · intro _ hr
    rw [State.redials, hpc] at hr
    cases hr

theorem Inv.step (h : Inv s) (hok : Orderly s l) (ht : step s l = some t) : Inv t := by
  cases l with
  | main a => exact h.main hok ht
  | wake timeout =>
    simp only [MbimSession.step] at ht
    split at ht
    next hpc =>
      cases ht
      cases timeout <;> exact h.wake hpc rfl
    next hpc =>
      cases ht
      exact h.wake hpc rfl
    next => cases ht
  | indicate v x =>
    simp only [MbimSession.step, Option.ite_none_left_eq_some, Option.some.injEq] at ht
    obtain ⟨-, rfl⟩ := ht
    rw [mbimRecvCommand_eq]
    exact h.indicate hok
  | sigaction =>
    cases ht
    exact ⟨h.active, h.seenActive, h.asking, h.fetching, h.opened, h.flushed, h.inactive,
      h.seenInactive⟩

theorem inv_of_reaches {ipv4 ipv6 : Bool} (h : Reaches step Orderly (init ipv4 ipv6) s) : Inv s :=
  h.invariant (inv_init ipv4 ipv6) fun _ _ _ hs hok ht => hs.step hok ht

def Pc.isWait : Pc → Bool
  | .wait _ => true
  | _ => false

def Enters (s t : State) : Prop := s.pc.isWait = false ∧ t.pc.isWait

/-- An active session is configured, and there are no addresses of an inactive one. -/
def Settled (s : State) : Prop :=
  (s.lastSeen = some MBIMActivationStateActivated → s.configured) ∧
    (s.lastSeen = some MBIMActivationStateDeactivated → s.addressed = false)

theorem Inv.settled (h : Inv s) (hwait : s.pc.isWait) : Settled s := by
  have hplain : s.pc.plain := by
    cases hpc : s.pc <;> rw [hpc] at hwait <;> first | rfl | cases hwait
  have hopen : s.openState = true := by
    apply h.isOpen
    cases hpc : s.pc <;> rw [hpc] at hwait <;> first | rfl | cases hwait
  constructor
  · exact h.configured_of_seen hplain
  · intro hd
    have hoff : s.online = false := by
      cases ho : s.online with
      | false => rfl
      | true => exact absurd hd (h.seen_of_plain hplain ho)
    rwa [State.online, hopen, Bool.true_and] at hoff

theorem addresses_follow_session {ipv4 ipv6 : Bool}
    (h : Reaches step Orderly (init ipv4 ipv6) s) (hok : Orderly s l) (ht : step s l = some t)
    (henter : Enters s t) : Settled t :=
  ((inv_of_reaches h).step hok ht).settled henter.2

instance : Decidable (Enters s t) := inferInstanceAs (Decidable (_ ∧ _))

instance : Decidable (Settled s) := inferInstanceAs (Decidable (_ ∧ _))

instance : ∀ s l, Decidable (Orderly s l)
  | _, .indicate .ActivationState _ => inferInstanceAs (Decidable ((_ → _) ∧ (_ → _ → _)))
  | _, .indicate .ReadyState _ => inferInstanceAs (Decidable (_ → _ → _ → _))
  | _, .indicate .RegisterState _ => inferInstanceAs (Decidable (_ → _ → _ → _))
  | _, .indicate .PacketServiceState _ => inferInstanceAs (Decidable (_ → _ → _ → _))
  | _, .main _ => inferInstanceAs (Decidable ((_ → _) ∧ (_ → _ → _) ∧ (_ → _ → _)))
  | _, .wake _ => .isTrue trivial
  | _, .sigaction => .isTrue trivial

def quiet : Label := .main ⟨none, false, false⟩

def answer (x : UInt32) : Label := .main ⟨some x, false, false⟩

def bootUp (x : UInt32) : List Label :=
  List.replicate 9 quiet ++ [answer 1] ++ List.replicate 3 quiet ++ [answer 3] ++
    List.replicate 3 quiet ++ [answer 2] ++ List.replicate 5 quiet ++ [answer x, quiet, quiet]

def connected : List Label :=
  [answer MBIMActivationStateActivated, quiet, quiet, .main ⟨none, true, false⟩, quiet]

def nextPass : List Label := [.wake false, quiet, .wake true]

/-- The session ends in a pass, which sets up the next. -/
def redial : List Label :=
  bootUp 3 ++ connected ++ [quiet] ++ nextPass ++
    [.indicate .ActivationState MBIMActivationStateDeactivated] ++ List.replicate 10 quiet ++
    connected

theorem exists_enters (ok : State → Label → Prop) [∀ s l, Decidable (ok s l)] (P : State → Prop)
    [DecidablePred P] (start : State) (ls : List Label) (l : Label)
    (h : (run (guarded step ok) start ls).any (fun s => decide (ok s l ∧ (step s l).any fun t =>
      decide (Enters s t ∧ P t))) = true) :
    ∃ s t, Reaches step ok start s ∧ ok s l ∧ step s l = some t ∧ Enters s t ∧ P t := by
  obtain ⟨s, hs, hok, hnext⟩ := exists_of_run _ h
  obtain ⟨t, ht, hlast⟩ := (Option.any_eq_true ..).mp hnext
  exact ⟨s, t, hs, hok, ht, of_decide_eq_true hlast⟩

theorem addresses_follow_redial : ∃ s t, Reaches step Orderly (init true true) s ∧
    step s quiet = some t ∧ Enters s t ∧ Settled t ∧
    t.lastSeen = some MBIMActivationStateActivated ∧ t.ipv4 = true := by
  obtain ⟨s, t, hs, hok, ht, henter, hseen⟩ := exists_enters Orderly
    (fun t => t.lastSeen = some MBIMActivationStateActivated ∧ t.ipv4 = true) (init true true)
    redial quiet (by decide)
  exact ⟨s, t, hs, ht, henter, addresses_follow_session hs hok ht henter, hseen⟩

/-- The session is there when the device is first asked, or it becomes active while the loop waits:
it has no address.  The session ends while the loop waits, and the next one is not set up: its
address stays. -/
theorem addresses_out_of_step :
    (∃ s t, Reachable step (init false false) s ∧ step s quiet = some t ∧ Enters s t ∧
      t.pc = .wait .day ∧ t.lastSeen = some MBIMActivationStateActivated ∧
      t.configured = false) ∧
    (∃ r s t, Reachable step (init false false) r ∧ r.pc = .wait .retry ∧
      r.lastSeen = some MBIMActivationStateActivating ∧ Reachable step r s ∧
      step s quiet = some t ∧ Enters s t ∧ t.pc = .wait .day ∧
      t.lastSeen = some MBIMActivationStateActivated ∧ t.configured = false) ∧
    ∃ s t, Reachable step (init false false) s ∧ step s quiet = some t ∧ Enters s t ∧
      t.pc = .wait .retry ∧ t.lastSeen = some MBIMActivationStateDeactivated ∧
      t.ipv4 = true := by
  refine ⟨?_, ?_, ?_⟩
  · obtain ⟨s, t, hs, -, ht, hlast⟩ := exists_enters (fun _ _ => True)
      (fun t => t.pc = .wait .day ∧ t.lastSeen = some MBIMActivationStateActivated ∧
        t.configured = false) (init false false) (bootUp MBIMActivationStateActivated) quiet
      (by decide)
    exact ⟨s, t, hs, ht, hlast⟩
  · have hrun : (run (guarded step fun _ _ => True) (init false false)
        (bootUp 3 ++ [answer MBIMActivationStateActivating, quiet, quiet, quiet])).any (fun r =>
        decide ((r.pc = .wait .retry ∧ r.lastSeen = some MBIMActivationStateActivating) ∧
          (run (guarded step fun _ _ => True) r
            ([.indicate .ActivationState MBIMActivationStateActivated] ++ nextPass ++
              List.replicate 10 quiet)).any fun s =>
            decide (True ∧ (step s quiet).any fun t => decide (Enters s t ∧ t.pc = .wait .day ∧
              t.lastSeen = some MBIMActivationStateActivated ∧ t.configured = false))))
        = true := by
      decide
    obtain ⟨r, hr, ⟨hpc, hseen⟩, hrest⟩ := exists_of_run _ hrun
    obtain ⟨s, t, hs, -, ht, hlast⟩ := exists_enters _ _ r _ _ hrest
    exact ⟨r, s, t, hr, hpc, hseen, hs, ht, hlast⟩
  · obtain ⟨s, t, hs, -, ht, hlast⟩ := exists_enters (fun _ _ => True)
      (fun t => t.pc = .wait .retry ∧ t.lastSeen = some MBIMActivationStateDeactivated ∧
        t.ipv4 = true) (init false false)
      (bootUp 3 ++ connected ++ [quiet,
        .indicate .ActivationState MBIMActivationStateDeactivated] ++ nextPass ++
        List.replicate 10 quiet ++ [answer MBIMActivationStateDeactivated, quiet, quiet]) quiet
      (by decide)
    exact ⟨s, t, hs, ht, hlast⟩

end ModemSupport.Cm.MbimSession
