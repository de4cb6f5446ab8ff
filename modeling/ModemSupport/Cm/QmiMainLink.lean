import ModemSupport.Cm.QmiMain

/-! The link of the interface follows the data call: what each request leaves alone, what holds
between the events, and when nothing is unread the link is up exactly when the call is. -/

namespace ModemSupport.Cm.QmiMain

open Lib.Transition

/-- When the loop is about to poll and nothing is unread, the link is up exactly when the call is,
and with IPv4 an address has come since; `check_ipv4_address` accepts no link without one. -/
structure Follows (s : State) : Prop where
  link : s.polling = true → s.signals = [] → s.events = [] →
    (s.sLink = 1 ↔ s.connectionStatus = QWDS_PKT_DATA_CONNECTED)
  address : s.polling = true → s.signals = [] → s.events = [] → s.sLink = 1 →
    s.mode.enableIpv6 = false → s.fetched = some s.ipv4Address
  checked : s.blind = false

/-- The condition on a step: with IPv4 no call is up when the program starts; `SIGUSR1` finds the
call up only with the link up, or with a further `SIGUSR1` or `RIL_UNSOL_DATA_CALL_LIST_CHANGED`
unread; the link goes up only with a handle of the IPv4 call, and the modem answers with the
address. -/
def FollowStep (s : State) : Label → Prop
  | .start a => s.mode.enableIpv6 = false →
    (requestQueryDataCall s .v4 a.query).1.IPv4ConnectionStatus ≠ QWDS_PKT_DATA_CONNECTED
  | .readSignal a => s.signals.head? = some .usr1 →
    (requestQueryDataCall s s.mode.curIpFamily a.query).1.connectionStatus =
      QWDS_PKT_DATA_CONNECTED →
    s.sLink = 1 ∨ .usr1 ∈ s.signals.tail ∨ .dataCallListChanged ∈ s.events
  | .readEvent a => s.events.head? = some .dataCallListChanged → s.mode.enableIpv6 = false →
    (queryDataCalls s a).connectionStatus = QWDS_PKT_DATA_CONNECTED → s.sLink ≠ 1 →
    s.WdsConnectionIPv4Handle ≠ 0 ∧ (a.settings.check.toOption.bind id).isSome
  | _ => True

/-- A step that talks to the modem only: the statuses, the handles and the registration may
change. -/
structure Frame (s t : State) : Prop where
  mode : t.mode = s.mode
  polling : t.polling = s.polling
  sLink : t.sLink = s.sLink
  signals : t.signals = s.signals
  events : t.events = s.events
  fetched : t.fetched = s.fetched
  ipv4Address : t.ipv4Address = s.ipv4Address
  blind : t.blind = s.blind

variable {s t u : State}

theorem Frame.refl (s : State) : Frame s s := ⟨rfl, rfl, rfl, rfl, rfl, rfl, rfl, rfl⟩

theorem Frame.trans (h : Frame s t) (h' : Frame t u) : Frame s u where
  mode := h'.mode.trans h.mode
  polling := h'.polling.trans h.polling
  sLink := h'.sLink.trans h.sLink
  signals := h'.signals.trans h.signals
  events := h'.events.trans h.events
  fetched := h'.fetched.trans h.fetched
  ipv4Address := h'.ipv4Address.trans h.ipv4Address
  blind := h'.blind.trans h.blind

theorem setStatus_frame (s : State) (f : IpFamily) (x : UInt8) : Frame s (s.setStatus f x) := by
  cases f <;> exact ⟨rfl, rfl, rfl, rfl, rfl, rfl, rfl, rfl⟩

theorem setHandle_frame (s : State) (f : IpFamily) (x : UInt32) : Frame s (s.setHandle f x) := by
  cases f <;> exact ⟨rfl, rfl, rfl, rfl, rfl, rfl, rfl, rfl⟩

@[simp] theorem status_setStatus (s : State) (f : IpFamily) (x : UInt8) :
    (s.setStatus f x).status f = x := by
  cases f <;> rfl

@[simp] theorem status_setHandle (s : State) (f g : IpFamily) (x : UInt32) :
    (s.setHandle f x).status g = s.status g := by
  cases f <;> rfl

theorem requestQueryDataCall_frame (s : State) (f : IpFamily) (a : Answer (Option PktSrvc)) :
    Frame s (requestQueryDataCall s f a).1 := by
  unfold requestQueryDataCall
  split
  · exact Frame.refl s
  · show Frame s (if _ then _ else _)
    split
    · exact (setStatus_frame s f _).trans (setHandle_frame _ f 0)
    · exact setStatus_frame s f _

theorem requestSetupDataCall_frame (s : State) (f : IpFamily) (a : Answer UInt32) :
    Frame s (requestSetupDataCall s f a).1 := by
  unfold requestSetupDataCall
  split
  · exact Frame.refl s
  · exact setHandle_frame s f _

theorem requestSetupDataCall_status (s : State) (f g : IpFamily) (a : Answer UInt32) :
    (requestSetupDataCall s f a).1.status g = s.status g := by
  unfold requestSetupDataCall
  split
  · rfl
  · exact status_setHandle s f g _

theorem requestDeactivateDefaultPDP_frame (s : State) (f : IpFamily) (a : Answer Unit) :
    Frame s (requestDeactivateDefaultPDP s f a) := by
  unfold requestDeactivateDefaultPDP
  split
  · exact Frame.refl s
  · split
    · exact Frame.refl s
    · exact setHandle_frame s f 0

theorem requestRegistrationState_frame (s : State) (a : Option UInt8) :
    Frame s (requestRegistrationState s a) := ⟨rfl, rfl, rfl, rfl, rfl, rfl, rfl, rfl⟩

theorem setupDataCall_spec (s : State) (a : Answers) :
    Frame s (setupDataCall s a) ∧ ∀ g, (setupDataCall s a).status g = s.status g := by
  have hfirst := requestSetupDataCall_frame s s.mode.curIpFamily a.setup
  have hretry := requestSetupDataCall_frame (requestSetupDataCall s s.mode.curIpFamily a.setup).1
    s.mode.curIpFamily a.retry
  have hcall : ∀ r : State × Int, Frame s r.1 → (∀ g, r.1.status g = s.status g) →
      Frame s (if r.2 = 0 ∧ s.mode.isDualIPSupported then (requestSetupDataCall r.1 .v6 a.setup6).1
        else r.1) ∧
      ∀ g, (if r.2 = 0 ∧ s.mode.isDualIPSupported then (requestSetupDataCall r.1 .v6 a.setup6).1
        else r.1).status g = s.status g := by
    intro r hframe hstatus
    split
    · exact ⟨hframe.trans (requestSetupDataCall_frame _ _ _),
        fun g => (requestSetupDataCall_status _ _ g _).trans (hstatus g)⟩
    · exact ⟨hframe, hstatus⟩
  apply hcall
  · split
    · exact hfirst.trans hretry
    · exact hfirst
  · intro g
    split
    · exact (requestSetupDataCall_status _ _ g _).trans (requestSetupDataCall_status _ _ g _)
    · exact requestSetupDataCall_status _ _ g _

theorem queryDataCalls_frame (s : State) (a : Answers) : Frame s (queryDataCalls s a) := by
  have hfirst := requestQueryDataCall_frame s s.mode.curIpFamily a.query
  unfold queryDataCalls
  show Frame s (if _ then _ else _)
  split
  · exact hfirst.trans (requestQueryDataCall_frame _ .v6 a.query6)
  · exact hfirst

theorem Frame.connectionStatus (h : Frame s t) (hstatus : ∀ g, t.status g = s.status g) :
    t.connectionStatus = s.connectionStatus := by
  unfold State.connectionStatus
  rw [h.mode, hstatus]

theorem queryDataCalls_handle (s : State) (a : Answers) (hmode : s.mode.enableIpv6 = false)
    (hup : (queryDataCalls s a).connectionStatus = QWDS_PKT_DATA_CONNECTED) :
    (queryDataCalls s a).WdsConnectionIPv4Handle = s.WdsConnectionIPv4Handle := by
  have hfamily : s.mode.curIpFamily = .v4 := by simp [Mode.curIpFamily, hmode]
  have hframe := queryDataCalls_frame s a
  have hsecond : ∀ t : State, ∀ b,
      (requestQueryDataCall t .v6 b).1.WdsConnectionIPv4Handle = t.WdsConnectionIPv4Handle ∧
      (requestQueryDataCall t .v6 b).1.IPv4ConnectionStatus = t.IPv4ConnectionStatus := by
    intro t b
    unfold requestQueryDataCall
    split
    · exact ⟨rfl, rfl⟩
    · show State.WdsConnectionIPv4Handle (if _ then _ else _) = _ ∧
        State.IPv4ConnectionStatus (if _ then _ else _) = _
      split <;> exact ⟨rfl, rfl⟩
  have hsame : (queryDataCalls s a).WdsConnectionIPv4Handle =
        (requestQueryDataCall s .v4 a.query).1.WdsConnectionIPv4Handle ∧
      (queryDataCalls s a).IPv4ConnectionStatus =
        (requestQueryDataCall s .v4 a.query).1.IPv4ConnectionStatus := by
    unfold queryDataCalls
    rw [hfamily]
    show State.WdsConnectionIPv4Handle (if _ then _ else _) = _ ∧
      State.IPv4ConnectionStatus (if _ then _ else _) = _
    split
    · exact hsecond _ _
    · exact ⟨rfl, rfl⟩
  have hstatus : (requestQueryDataCall s .v4 a.query).1.IPv4ConnectionStatus =
      QWDS_PKT_DATA_CONNECTED := by
    have hstatus : (queryDataCalls s a).status .v4 = QWDS_PKT_DATA_CONNECTED := by
      simpa only [State.connectionStatus, hframe.mode, hfamily] using hup
    rw [← hsame.2]
    exact hstatus
  rw [hsame.1]
  revert hstatus
  unfold requestQueryDataCall
  split
  · exact fun _ => rfl
  · show State.IPv4ConnectionStatus (if _ then _ else _) = _ →
      State.WdsConnectionIPv4Handle (if _ then _ else _) = _
    split
    next hdown =>
      intro hstatus
      have hdown' : queriedStatus _ = QWDS_PKT_DATA_CONNECTED := hstatus
      rw [hdown] at hdown'
      exact absurd hdown' (by decide)
    next => exact fun _ => rfl

/-- What a change of the link leaves alone. -/
structure LinkFrame (s t : State) : Prop where
  mode : t.mode = s.mode
  polling : t.polling = s.polling
  status : ∀ g, t.status g = s.status g
  signals : t.signals = s.signals
  events : t.events = s.events
  blind : t.blind = s.blind

theorem LinkFrame.connectionStatus (h : LinkFrame s t) :
    t.connectionStatus = s.connectionStatus := by
  unfold State.connectionStatus
  rw [h.mode, h.status]

theorem usbnetLinkChange_frame (s : State) (link : Int) (a : Answers) :
    LinkFrame s (usbnetLinkChange s link a) ∧ (usbnetLinkChange s link a).sLink = link := by
  have hget : ∀ g, State.status (getIPAddress
      (getIPAddress { s with sLink := link, fetched := none } s.mode.curIpFamily a.settings) .v6
        a.settings6) g = s.status g := fun g => by cases g <;> rfl
  have hfirst : ∀ g, State.status
      (getIPAddress { s with sLink := link, fetched := none } s.mode.curIpFamily a.settings) g =
        s.status g := fun g => by cases g <;> rfl
  have hdown : ∀ g, State.status { s with sLink := link, fetched := none } g = s.status g :=
    fun g => by cases g <;> rfl
  unfold usbnetLinkChange
  split
  next heq => exact ⟨⟨rfl, rfl, fun _ => rfl, rfl, rfl, rfl⟩, heq⟩
  next =>
    simp only
    split
    · split
      · exact ⟨⟨rfl, rfl, hget, rfl, rfl, rfl⟩, rfl⟩
      · exact ⟨⟨rfl, rfl, hfirst, rfl, rfl, rfl⟩, rfl⟩
    · exact ⟨⟨rfl, rfl, hdown, rfl, rfl, rfl⟩, rfl⟩

theorem requestGetIPAddress_v6 (s : State) (a : Answer (Option UInt32)) (address : UInt32) :
    (requestGetIPAddress s .v6 a address).2 = (address, none) ∨
      ∃ x, (requestGetIPAddress s .v6 a address).2 = (x, some x) := by
  simp only [requestGetIPAddress]
  by_cases hzero : s.handle .v6 = 0
  · exact .inl (by rw [if_pos hzero])
  · rw [if_neg hzero]
    cases a.check with
    | error e => exact .inl rfl
    | ok b =>
      cases b with
      | none => exact .inl rfl
      | some x => exact .inr ⟨x, rfl⟩

theorem getIPAddress_v6 (h : s.fetched = some s.ipv4Address) (a : Answer (Option UInt32)) :
    (getIPAddress s .v6 a).fetched = some (getIPAddress s .v6 a).ipv4Address := by
  show (requestGetIPAddress s .v6 a s.ipv4Address).2.2.or s.fetched =
    some (requestGetIPAddress s .v6 a s.ipv4Address).2.1
  rcases requestGetIPAddress_v6 s a s.ipv4Address with hr | ⟨x, hr⟩
  · rw [hr]
    exact h
  · rw [hr]
    rfl

theorem usbnetLinkChange_address {a : Answers} (hmode : s.mode.enableIpv6 = false)
    (hlink : s.sLink ≠ 1) (hhandle : s.WdsConnectionIPv4Handle ≠ 0)
    (hanswer : (a.settings.check.toOption.bind id).isSome) :
    (usbnetLinkChange s 1 a).fetched = some (usbnetLinkChange s 1 a).ipv4Address := by
  have hfamily : s.mode.curIpFamily = .v4 := by simp [Mode.curIpFamily, hmode]
  let t := { s with sLink := 1, fetched := none }
  obtain ⟨x, hx⟩ : ∃ x, a.settings.check = .ok (some x) := by
    obtain ⟨x, hx⟩ := Option.isSome_iff_exists.mp hanswer
    refine ⟨x, ?_⟩
    cases hcheck : a.settings.check with
    | error e => simp [hcheck, Except.toOption] at hx
    | ok b =>
      have hb : b = some x := by simpa [hcheck, Except.toOption] using hx
      rw [hb]
  have hfirst : (getIPAddress t .v4 a.settings).fetched =
      some (getIPAddress t .v4 a.settings).ipv4Address := by
    unfold getIPAddress requestGetIPAddress
    rw [if_neg (show t.handle .v4 ≠ 0 from hhandle), hx]
    rfl
  have hchange : usbnetLinkChange s 1 a =
      if s.mode.isDualIPSupported then getIPAddress (getIPAddress t .v4 a.settings) .v6 a.settings6
      else getIPAddress t .v4 a.settings := by
    unfold usbnetLinkChange
    rw [if_neg hlink, ← hfamily]
    rfl
  rw [hchange]
  split
  · exact getIPAddress_v6 hfirst a.settings6
  · exact hfirst

/-- The link is as the call is, or what is unread puts it right; a link that is up has an
address. -/
structure Inv (s : State) : Prop where
  pending : s.polling = true → (s.sLink = 1 ↔ s.connectionStatus = QWDS_PKT_DATA_CONNECTED) ∨
    .usr1 ∈ s.signals ∨ .dataCallListChanged ∈ s.events
  address : s.sLink = 1 → s.mode.enableIpv6 = false → s.fetched = some s.ipv4Address
  checked : s.blind = false

theorem Inv.follows (h : Inv s) : Follows s where
  link := fun hpolling hsignals hevents => by
    rcases h.pending hpolling with hlink | hsignal | hevent
    · exact hlink
    · simp [hsignals] at hsignal
    · simp [hevents] at hevent
  address := fun _ _ _ => h.address
  checked := h.checked

theorem inv_init (mode : Mode) (hasPassword : Bool) (PSAttachedState : UInt8) :
    Inv (init mode hasPassword PSAttachedState) where
  pending := fun hpolling => by cases hpolling
  address := fun hlink => by cases hlink
  checked := rfl

theorem Frame.address (hframe : Frame s t)
    (h : s.sLink = 1 → s.mode.enableIpv6 = false → s.fetched = some s.ipv4Address) :
    t.sLink = 1 → t.mode.enableIpv6 = false → t.fetched = some t.ipv4Address := by
  rw [hframe.sLink, hframe.mode, hframe.fetched, hframe.ipv4Address]
  exact h

theorem Inv.sendSignoToMain (h : Inv s) (signo : Signo) : Inv (sendSignoToMain s signo) where
  pending := fun hpolling => by
    rcases h.pending hpolling with hlink | hsignal | hevent
    · exact .inl hlink
    · exact .inr (.inl (List.mem_append_left _ hsignal))
    · exact .inr (.inr hevent)
  address := h.address
  checked := h.checked

theorem Inv.down (hmode : t.connectionStatus ≠ QWDS_PKT_DATA_CONNECTED) (hlink : t.sLink = 0)
    (hchecked : t.blind = false) : Inv t where
  pending := fun _ => .inl <| by
    constructor
    · intro hup
      rw [hlink] at hup
      cases hup
    · exact fun hup => absurd hup hmode
  address := fun hup => by
    rw [hlink] at hup
    cases hup
  checked := hchecked

theorem inv_usr1 {a : Answers}
    (haddress : s.sLink = 1 → s.mode.enableIpv6 = false → s.fetched = some s.ipv4Address)
    (hchecked : s.blind = false)
    (hok : (requestQueryDataCall s s.mode.curIpFamily a.query).1.connectionStatus =
      QWDS_PKT_DATA_CONNECTED →
      s.sLink = 1 ∨ .usr1 ∈ s.signals ∨ .dataCallListChanged ∈ s.events) :
    Inv (handleUsr1 s a) := by
  have hquery := requestQueryDataCall_frame s s.mode.curIpFamily a.query
  revert hok hquery
  unfold handleUsr1
  generalize (requestQueryDataCall s s.mode.curIpFamily a.query).1 = q
  intro hok hquery
  simp only
  split
  next hup =>
    constructor
    case pending =>
      intro _
      rw [hquery.signals, hquery.events, hquery.sLink]
      rcases hok hup with hlink | hsignal | hevent
      · exact .inl ⟨fun _ => hup, fun _ => hlink⟩
      · exact .inr (.inl hsignal)
      · exact .inr (.inr hevent)
    case address => exact hquery.address haddress
    case checked => exact hquery.blind.trans hchecked
  next hdown =>
    obtain ⟨hlink, hzero⟩ := usbnetLinkChange_frame q 0 a
    have hregistration := requestRegistrationState_frame (usbnetLinkChange q 0 a) a.registration
    have hstatus :
        (requestRegistrationState (usbnetLinkChange q 0 a) a.registration).connectionStatus =
        q.connectionStatus :=
      (hregistration.connectionStatus fun g => by cases g <;> rfl).trans hlink.connectionStatus
    have hblind :
        (requestRegistrationState (usbnetLinkChange q 0 a) a.registration).blind = false :=
      hregistration.blind.trans (hlink.blind.trans (hquery.blind.trans hchecked))
    split
    · obtain ⟨hsetup, hsame⟩ := setupDataCall_spec
        (requestRegistrationState (usbnetLinkChange q 0 a) a.registration) a
      apply Inv.down
      · rw [hsetup.connectionStatus hsame, hstatus]
        exact hdown
      · exact hsetup.sLink.trans (hregistration.sLink.trans hzero)
      · exact hsetup.blind.trans hblind
    · apply Inv.down
      · rw [hstatus]
        exact hdown
      · exact hregistration.sLink.trans hzero
      · exact hblind

theorem checkAddress_spec {a : Answers}
    (haddress : s.sLink = 1 → s.mode.enableIpv6 = false → s.fetched = some s.ipv4Address) :
    Frame s (checkAddress s a) ∧
      ((checkAddress s a).connectionStatus = QWDS_PKT_DATA_CONNECTED →
        s.connectionStatus = QWDS_PKT_DATA_CONNECTED) := by
  unfold checkAddress
  split
  next =>
    split
    next =>
      have hblind : (decide (s.sLink = 1) && !s.mode.enableIpv6 && s.fetched.isNone) = false := by
        by_cases hlink : s.sLink = 1
        · cases hmode : s.mode.enableIpv6 with
          | true => simp
          | false => simp [haddress hlink hmode]
        · simp [hlink]
      rw [hblind, Bool.or_false]
      exact ⟨Frame.refl s, id⟩
    next =>
      have hstop := requestDeactivateDefaultPDP_frame s s.mode.curIpFamily a.stop
      refine ⟨hstop.trans (setStatus_frame _ _ _), fun hup => ?_⟩
      have hmode : ((requestDeactivateDefaultPDP s s.mode.curIpFamily a.stop).setStatus
          s.mode.curIpFamily QWDS_PKT_DATA_DISCONNECTED).mode = s.mode :=
        (setStatus_frame _ _ _).mode.trans hstop.mode
      rw [State.connectionStatus, hmode, status_setStatus] at hup
      exact absurd hup (by decide)
  next => exact ⟨Frame.refl s, id⟩

theorem Inv.usr2 (h : Inv s) (a : Answers) : Inv (handleUsr2 s a) := by
  obtain ⟨q, hq, hquery, hold⟩ : ∃ q, (if s.connectionStatus = QWDS_PKT_DATA_CONNECTED then
      (requestQueryDataCall s s.mode.curIpFamily a.query).1 else s) = q ∧ Frame s q ∧
      (q.connectionStatus = QWDS_PKT_DATA_CONNECTED →
        s.connectionStatus = QWDS_PKT_DATA_CONNECTED) := by
    refine ⟨_, rfl, ?_⟩
    split
    next hup => exact ⟨requestQueryDataCall_frame _ _ _, fun _ => hup⟩
    next => exact ⟨Frame.refl s, id⟩
  obtain ⟨hcheck, hfound⟩ := checkAddress_spec (s := q) (a := a) (hquery.address h.address)
  have hframe := hquery.trans hcheck
  have haddress := hframe.address h.address
  have hchecked := hframe.blind.trans h.checked
  unfold handleUsr2
  simp only [hq]
  split
  next hup =>
    refine ⟨fun hpolling => ?_, haddress, hchecked⟩
    rw [hframe.signals, hframe.events, hframe.sLink]
    rw [hframe.polling] at hpolling
    rcases h.pending hpolling with hlink | hunread
    · exact .inl ⟨fun _ => hup, fun _ => hlink.mpr (hold (hfound hup))⟩
    · exact .inr hunread
  next => exact ⟨fun _ => .inr (.inl (by simp [QmiMain.sendSignoToMain])), haddress, hchecked⟩

theorem Inv.networkStateChanged (h : Inv s) (a : Answers) :
    Inv (handleNetworkStateChanged s a) := by
  have hsame : Inv (requestRegistrationState s a.registration) :=
    ⟨h.pending, h.address, h.checked⟩
  unfold handleNetworkStateChanged
  simp only
  split
  · exact hsame.sendSignoToMain .usr1
  · exact hsame

theorem inv_dataCallListChanged {a : Answers}
    (haddress : s.sLink = 1 → s.mode.enableIpv6 = false → s.fetched = some s.ipv4Address)
    (hchecked : s.blind = false)
    (hok : s.mode.enableIpv6 = false →
      (queryDataCalls s a).connectionStatus = QWDS_PKT_DATA_CONNECTED →
      s.sLink ≠ 1 → s.WdsConnectionIPv4Handle ≠ 0 ∧ (a.settings.check.toOption.bind id).isSome) :
    Inv (handleDataCallListChanged s a) := by
  have hquery := queryDataCalls_frame s a
  unfold handleDataCallListChanged
  simp only
  split
  next hup =>
    obtain ⟨hlink, hone⟩ := usbnetLinkChange_frame (queryDataCalls s a) 1 a
    have hinv : Inv (usbnetLinkChange (queryDataCalls s a) 1 a) := by
      constructor
      case pending =>
        intro _
        rw [hlink.connectionStatus]
        exact .inl ⟨fun _ => hup, fun _ => hone⟩
      case address =>
        rw [hlink.mode]
        intro _ hmode
        by_cases hold : (queryDataCalls s a).sLink = 1
        · have hkeep : usbnetLinkChange (queryDataCalls s a) 1 a = queryDataCalls s a := if_pos hold
          rw [hkeep]
          exact hquery.address haddress hold hmode
        · rw [hquery.mode] at hmode
          obtain ⟨hhandle, hanswer⟩ := hok hmode hup (by rwa [hquery.sLink] at hold)
          apply usbnetLinkChange_address (by rwa [hquery.mode]) hold ?_ hanswer
          rw [queryDataCalls_handle s a hmode hup]
          exact hhandle
      case checked => exact hlink.blind.trans (hquery.blind.trans hchecked)
    split
    · exact hinv.sendSignoToMain .usr2
    · exact hinv
  next hdown =>
    obtain ⟨hlink, hzero⟩ := usbnetLinkChange_frame (queryDataCalls s a) 0 a
    have hinv : Inv (usbnetLinkChange (queryDataCalls s a) 0 a) := by
      apply Inv.down
      · rw [hlink.connectionStatus]
        exact hdown
      · exact hzero
      · exact hlink.blind.trans (hquery.blind.trans hchecked)
    split
    · exact hinv.sendSignoToMain .usr1
    · exact hinv

theorem first_link (link : Int) (a : Answers) (hchecked : s.blind = false)
    (hup : link = 1 → s.mode.enableIpv6 = true) :
    (usbnetLinkChange s link a).blind = false ∧ ((usbnetLinkChange s link a).sLink = 1 →
      (usbnetLinkChange s link a).mode.enableIpv6 = false →
      (usbnetLinkChange s link a).fetched = some (usbnetLinkChange s link a).ipv4Address) := by
  obtain ⟨hframe, hvalue⟩ := usbnetLinkChange_frame s link a
  refine ⟨hframe.blind.trans hchecked, fun hone hmode => ?_⟩
  rw [hframe.mode, hup (hvalue.symm.trans hone)] at hmode
  cases hmode

theorem inv_start {a : Answers} (hchecked : s.blind = false)
    (hok : s.mode.enableIpv6 = false →
      (requestQueryDataCall s .v4 a.query).1.IPv4ConnectionStatus ≠ QWDS_PKT_DATA_CONNECTED) :
    Inv (start s a) := by
  have hquery := requestQueryDataCall_frame s .v4 a.query
  have hblind := hquery.blind.trans hchecked
  have hpending : .usr1 ∈ (start s a).signals := by simp [start, sendSignoToMain]
  revert hpending hok
  unfold start
  rw [← hquery.mode]
  generalize requestQueryDataCall s .v4 a.query = r at hblind ⊢
  intro hok hpending
  simp only at hpending ⊢
  split at hpending
  next hup =>
    rw [if_pos hup]
    obtain ⟨hchecked', haddress⟩ := first_link 1 a hblind fun _ => by
      cases hmode : r.1.mode.enableIpv6 with
      | true => rfl
      | false => exact absurd hup.2 (hok hmode)
    exact ⟨fun _ => .inr (.inl hpending), haddress, hchecked'⟩
  next hdown =>
    rw [if_neg hdown]
    obtain ⟨hchecked', haddress⟩ := first_link 0 a hblind
      fun hzero => by cases hzero
    exact ⟨fun _ => .inr (.inl hpending), haddress, hchecked'⟩

theorem requestQueryDataCall_unread (s : State) (signals : List Signo) (events : List Event)
    (f : IpFamily) (a : Answer (Option PktSrvc)) :
    requestQueryDataCall { s with signals := signals, events := events } f a =
      ({ (requestQueryDataCall s f a).1 with signals := signals, events := events },
        (requestQueryDataCall s f a).2) := by
  unfold requestQueryDataCall
  cases a.check with
  | error e => rfl
  | ok p =>
    simp only
    split <;> cases f <;> rfl

theorem queryDataCalls_unread (s : State) (signals : List Signo) (events : List Event)
    (a : Answers) :
    queryDataCalls { s with signals := signals, events := events } a =
      { queryDataCalls s a with signals := signals, events := events } := by
  unfold queryDataCalls
  rw [requestQueryDataCall_unread]
  simp only [requestQueryDataCall_unread]
  split <;> rfl

theorem inv_step {l : Label} (h : Inv s) (hok : FollowStep s l) (hstep : step s l = some t) :
    Inv t := by
  cases l with
  | start a =>
    simp only [step] at hstep
    split at hstep
    next => cases hstep
    next =>
      obtain rfl := Option.some.inj hstep
      exact inv_start h.checked hok
  | signal signo =>
    obtain rfl := Option.some.inj hstep
    exact h.sendSignoToMain signo
  | event e =>
    obtain rfl := Option.some.inj hstep
    refine ⟨fun hpolling => ?_, h.address, h.checked⟩
    rcases h.pending hpolling with hlink | hsignal | hevent
    · exact .inl hlink
    · exact .inr (.inl hsignal)
    · exact .inr (.inr (List.mem_append_left _ hevent))
  | timeout =>
    simp only [step] at hstep
    split at hstep
    next =>
      obtain rfl := Option.some.inj hstep
      exact h.sendSignoToMain .usr2
    next => cases hstep
  | readSignal a =>
    simp only [step] at hstep
    split at hstep
    next signo rest hsignals =>
      split at hstep
      next =>
        obtain rfl := Option.some.inj hstep
        cases signo with
        | usr1 =>
          refine inv_usr1 h.address h.checked fun hup => ?_
          have hsame := requestQueryDataCall_unread s rest s.events s.mode.curIpFamily a.query
          have hunread := hok (by simp [hsignals]) (by rwa [hsame] at hup)
          simpa [hsignals] using hunread
        | usr2 =>
          have hrest : Inv { s with signals := rest } := by
            refine ⟨fun hpolling => ?_, h.address, h.checked⟩
            rcases h.pending hpolling with hlink | hsignal | hevent
            · exact .inl hlink
            · exact .inr (.inl (by simpa [hsignals] using hsignal))
            · exact .inr (.inr hevent)
          exact hrest.usr2 a
      next => cases hstep
    next => cases hstep
  | readEvent a =>
    simp only [step] at hstep
    split at hstep
    next e rest hevents =>
      split at hstep
      next =>
        obtain rfl := Option.some.inj hstep
        cases e with
        | networkStateChanged =>
          have hrest : Inv { s with events := rest } := by
            refine ⟨fun hpolling => ?_, h.address, h.checked⟩
            rcases h.pending hpolling with hlink | hsignal | hevent
            · exact .inl hlink
            · exact .inr (.inl hsignal)
            · exact .inr (.inr (by simpa [hevents] using hevent))
          exact hrest.networkStateChanged a
        | dataCallListChanged =>
          refine inv_dataCallListChanged h.address h.checked fun hmode hup hlink => ?_
          have hsame := queryDataCalls_unread s s.signals rest a
          exact hok (by simp [hevents]) hmode (by rwa [hsame] at hup) hlink
      next => cases hstep
    next => cases hstep

/-- In every run whose steps meet `FollowStep`, the link follows the call. -/
theorem link_follows {mode : Mode} {hasPassword : Bool} {PSAttachedState : UInt8}
    (h : Reaches step FollowStep (init mode hasPassword PSAttachedState) s) : Follows s :=
  (h.invariant (inv_init mode hasPassword PSAttachedState)
    fun _ _ _ hs hok hstep => inv_step hs hok hstep).follows

instance (s : State) : (l : Label) → Decidable (FollowStep s l)
  | .start a => inferInstanceAs (Decidable (s.mode.enableIpv6 = false →
      (requestQueryDataCall s .v4 a.query).1.IPv4ConnectionStatus ≠ QWDS_PKT_DATA_CONNECTED))
  | .readSignal a => inferInstanceAs (Decidable (s.signals.head? = some .usr1 →
      (requestQueryDataCall s s.mode.curIpFamily a.query).1.connectionStatus =
        QWDS_PKT_DATA_CONNECTED →
      s.sLink = 1 ∨ .usr1 ∈ s.signals.tail ∨ .dataCallListChanged ∈ s.events))
  | .readEvent a => inferInstanceAs (Decidable (s.events.head? = some .dataCallListChanged →
      s.mode.enableIpv6 = false →
      (queryDataCalls s a).connectionStatus = QWDS_PKT_DATA_CONNECTED → s.sLink ≠ 1 →
      s.WdsConnectionIPv4Handle ≠ 0 ∧ (a.settings.check.toOption.bind id).isSome))
  | .signal _ | .event _ | .timeout => inferInstanceAs (Decidable True)

def silent : Answers :=
  ⟨.failed 110, .failed 110, none, .failed 110, .failed 110, .failed 110, .failed 110,
    .failed 110, .failed 110⟩

def up : Answer (Option PktSrvc) := .response 0 0 (some ⟨1, QWDS_PKT_DATA_CONNECTED, 0⟩)
def down : Answer (Option PktSrvc) := .response 0 0 (some ⟨1, QWDS_PKT_DATA_DISCONNECTED, 0⟩)

def callAndLoss : List Label :=
  [.start { silent with query := down },
    .readSignal { silent with query := down, registration := some 1, setup := .response 0 0 7 },
    .event .dataCallListChanged,
    .readEvent { silent with query := up, settings := .response 0 0 (some 42) },
    .timeout, .readSignal { silent with query := up, settings := .response 0 0 (some 42) },
    .event .dataCallListChanged, .readEvent { silent with query := down },
    .readSignal { silent with query := down }]

theorem link_follows_callAndLoss :
    (∃ s, Reaches step FollowStep (init .ipv4 false 0) s ∧ Follows s ∧ s.sLink = 1 ∧
        s.fetched = some 42 ∧ s.signals = []) ∧
      ∃ s, Reaches step FollowStep (init .ipv4 false 0) s ∧ Follows s ∧ s.sLink = 0 ∧
        s.WdsConnectionIPv4Handle = 0 ∧ s.signals = [] := by
  constructor
  · have hrun : (run (guarded step FollowStep) (init .ipv4 false 0) (callAndLoss.take 6)).any
        (fun s =>
        decide (s.sLink = 1 ∧ s.fetched = some 42 ∧ s.signals = [])) = true := by
      decide
    obtain ⟨s, hs, hlast⟩ := exists_of_run _ hrun
    exact ⟨s, hs, link_follows hs, hlast⟩
  · have hrun : (run (guarded step FollowStep) (init .ipv4 false 0) callAndLoss).any (fun s =>
        decide (s.sLink = 0 ∧ s.WdsConnectionIPv4Handle = 0 ∧ s.signals = [])) = true := by
      decide
    obtain ⟨s, hs, hlast⟩ := exists_of_run _ hrun
    exact ⟨s, hs, link_follows hs, hlast⟩

def upBefore6 : List Label :=
  [.start { silent with query := down }, .readSignal { silent with query := up }]

def upBefore4 : List Label :=
  [.start { silent with query := up }, .readSignal { silent with query := up }, .timeout,
    .readSignal { silent with query := up, settings := .response 0 0 (some 42) }]

/-- The modem sets the call up, but its answer does not come in time. -/
def late : List Label :=
  [.start { silent with query := down },
    .readSignal { silent with query := down, registration := some 1 },
    .event .dataCallListChanged,
    .readEvent { silent with query := up, settings := .response 0 0 (some 42) }]

/-- The link stays down though the call is up, or goes up without an address; and a link without
an address passes the check. -/
theorem not_link_follows :
    (¬∀ s ∈ statesOf step (init .ipv6 false 1) upBefore6, s.polling = true → s.signals = [] →
        s.events = [] → (s.sLink = 1 ↔ s.connectionStatus = QWDS_PKT_DATA_CONNECTED)) ∧
      (¬∀ s ∈ statesOf step (init .ipv4 false 1) late, s.polling = true → s.signals = [] →
        s.events = [] → s.sLink = 1 → s.mode.enableIpv6 = false → s.fetched = some s.ipv4Address) ∧
      ¬∀ s ∈ statesOf step (init .ipv4 false 1) upBefore4, s.blind = false := by
  refine ⟨?_, ?_, ?_⟩ <;> decide

end ModemSupport.Cm.QmiMain
