import ModemSupport.Lib.Transition

/-! `qmi_main` from its first `requestQueryDataCall` on: the data call, the link of the interface
and the address in the profile, with any answers of the modem and any order of signals and
events. -/

namespace ModemSupport.Cm.QmiMain

open Lib.Transition

def QWDS_PKT_DATA_DISCONNECTED : UInt8 := 0x01
def QWDS_PKT_DATA_CONNECTED : UInt8 := 0x02

inductive IpFamily where
  | v4
  | v6

/-- The mode in which `main` sets up the profile: `enable_ipv6` is set in the mode `ipv6`, and
`IsDualIPSupported` in the mode `dual`. -/
inductive Mode where
  | ipv4
  | ipv6
  | dual
  deriving DecidableEq

def Mode.enableIpv6 (m : Mode) : Bool := m == .ipv6
def Mode.isDualIPSupported (m : Mode) : Bool := m == .dual
def Mode.curIpFamily (m : Mode) : IpFamily := if m.enableIpv6 then .v6 else .v4

inductive Signo where
  | usr1
  | usr2
  deriving DecidableEq

/-- `RIL_UNSOL_RESPONSE_VOICE_NETWORK_STATE_CHANGED` and `RIL_UNSOL_DATA_CALL_LIST_CHANGED`. -/
inductive Event where
  | networkStateChanged
  | dataCallListChanged
  deriving DecidableEq

/-- The end of `QmiThreadSendQMI`: no response (with what it returned), or a response. -/
inductive Answer (β : Type) where
  | failed (err : Int)
  | response (QMUXResult QMUXError : UInt16) (body : β)

def Answer.check {β : Type} : Answer β → Except Int β
  | .failed err => .error err
  | .response QMUXResult QMUXError body =>
    if QMUXResult ≠ 0 ∨ QMUXError ≠ 0 then .error QMUXError.toNat else .ok body

structure PktSrvc where
  TLVLength : UInt16
  ConnectionStatus : UInt8
  ReconfigReqd : UInt8

/-- The answers to the requests that a step may make: the queries of the call, the registration
state, the set-up of the call with its second try and that of the IPv6 call (each with a handle),
its end, and the runtime settings of both families (with the IPv4 address, if any). -/
structure Answers where
  query : Answer (Option PktSrvc)
  query6 : Answer (Option PktSrvc)
  registration : Option UInt8
  setup : Answer UInt32
  retry : Answer UInt32
  setup6 : Answer UInt32
  stop : Answer Unit
  settings : Answer (Option UInt32)
  settings6 : Answer (Option UInt32)

/-- The variables of `qmi_main`, the handles of the calls, `s_link`, the IPv4 address of the
profile, and what is unread on the two sockets.  Ghosts: whether the loop has been entered, the
address that the modem has returned for the profile since the link went up, and whether
`check_ipv4_address` has accepted a link without one. -/
structure State where
  mode : Mode
  hasPassword : Bool
  polling : Bool
  IPv4ConnectionStatus : UInt8
  IPV6ConnectionStatus : UInt8
  WdsConnectionIPv4Handle : UInt32
  WdsConnectionIPv6Handle : UInt32
  sLink : Int
  ipv4Address : UInt32
  PSAttachedState : UInt8
  signals : List Signo
  events : List Event
  fetched : Option UInt32
  blind : Bool

def init (mode : Mode) (hasPassword : Bool) (PSAttachedState : UInt8) : State where
  mode := mode
  hasPassword := hasPassword
  polling := false
  IPv4ConnectionStatus := 0xff
  IPV6ConnectionStatus := 0xff
  WdsConnectionIPv4Handle := 0
  WdsConnectionIPv6Handle := 0
  sLink := -1
  ipv4Address := 0
  PSAttachedState := PSAttachedState
  signals := []
  events := []
  fetched := none
  blind := false

def State.status (s : State) : IpFamily → UInt8
  | .v4 => s.IPv4ConnectionStatus
  | .v6 => s.IPV6ConnectionStatus

def State.handle (s : State) : IpFamily → UInt32
  | .v4 => s.WdsConnectionIPv4Handle
  | .v6 => s.WdsConnectionIPv6Handle

def State.setStatus (s : State) (f : IpFamily) (x : UInt8) : State :=
  match f with
  | .v4 => { s with IPv4ConnectionStatus := x }
  | .v6 => { s with IPV6ConnectionStatus := x }

def State.setHandle (s : State) (f : IpFamily) (x : UInt32) : State :=
  match f with
  | .v4 => { s with WdsConnectionIPv4Handle := x }
  | .v6 => { s with WdsConnectionIPv6Handle := x }

def State.connectionStatus (s : State) : UInt8 := s.status s.mode.curIpFamily

def requestRegistrationState (s : State) (a : Option UInt8) : State :=
  { s with PSAttachedState := a.getD s.PSAttachedState }

def queriedStatus : Option PktSrvc → UInt8
  | some p =>
    if p.TLVLength = 2 ∧ p.ReconfigReqd = 1 then QWDS_PKT_DATA_DISCONNECTED else p.ConnectionStatus
  | none => QWDS_PKT_DATA_DISCONNECTED

def requestQueryDataCall (s : State) (f : IpFamily) (a : Answer (Option PktSrvc)) : State × Int :=
  match a.check with
  | .error e => (s, e)
  | .ok p =>
    let t := s.setStatus f (queriedStatus p)
    (if queriedStatus p = QWDS_PKT_DATA_DISCONNECTED then t.setHandle f 0 else t, 0)

def requestSetupDataCall (s : State) (f : IpFamily) (a : Answer UInt32) : State × Int :=
  match a.check with
  | .error e => (s, e)
  | .ok handle => (s.setHandle f handle, 0)

def requestDeactivateDefaultPDP (s : State) (f : IpFamily) (a : Answer Unit) : State :=
  if s.handle f = 0 then s
  else
    match a.check with
    | .error _ => s
    | .ok _ => s.setHandle f 0

/-- `requestGetIPAddress` on the IPv4 address of a profile: what it returns, the address, and
whether it is one of the answer.  The address is cleared for IPv4 only, and stored for both
families. -/
def requestGetIPAddress (s : State) (f : IpFamily) (a : Answer (Option UInt32)) (address : UInt32) :
    Int × UInt32 × Option UInt32 :=
  let cleared := match f with
    | .v4 => 0
    | .v6 => address
  if s.handle f = 0 then (0, cleared, none)
  else
    match a.check with
    | .error e => (e, cleared, none)
    | .ok none => (0, cleared, none)
    | .ok (some x) => (0, x, some x)

def getIPAddress (s : State) (f : IpFamily) (a : Answer (Option UInt32)) : State :=
  let r := requestGetIPAddress s f a s.ipv4Address
  let old := match f with
    | .v4 => none
    | .v6 => s.fetched
  { s with ipv4Address := r.2.1, fetched := r.2.2.or old }

def usbnetLinkChange (s : State) (link : Int) (a : Answers) : State :=
  if s.sLink = link then s
  else
    let t := { s with sLink := link, fetched := none }
    if link ≠ 0 then
      let u := getIPAddress t t.mode.curIpFamily a.settings
      if u.mode.isDualIPSupported then getIPAddress u .v6 a.settings6 else u
    else t

/-- `check_ipv4_address`, which works on a copy of the profile. -/
def checkIpv4Address (s : State) (a : Answer (Option UInt32)) : Bool :=
  let r := requestGetIPAddress s .v4 a s.ipv4Address
  if r.1 = 0 then r.2.1 == s.ipv4Address else false

def sendSignoToMain (s : State) (signo : Signo) : State :=
  { s with signals := s.signals ++ [signo] }

def start (s : State) (a : Answers) : State :=
  let r := requestQueryDataCall s .v4 a.query
  let t :=
    if r.2 = 0 ∧ r.1.IPv4ConnectionStatus = QWDS_PKT_DATA_CONNECTED then usbnetLinkChange r.1 1 a
    else usbnetLinkChange r.1 0 a
  { sendSignoToMain t .usr1 with polling := true }

def setupDataCall (s : State) (a : Answers) : State :=
  let f := s.mode.curIpFamily
  let r := requestSetupDataCall s f a.setup
  let r := if r.2 > 0 ∧ s.hasPassword then requestSetupDataCall r.1 f a.retry else r
  if r.2 = 0 ∧ s.mode.isDualIPSupported then (requestSetupDataCall r.1 .v6 a.setup6).1 else r.1

/-- `SIGUSR1`; its `alarm` is a signal that comes later. -/
def handleUsr1 (s : State) (a : Answers) : State :=
  let s := (requestQueryDataCall s s.mode.curIpFamily a.query).1
  if s.connectionStatus = QWDS_PKT_DATA_CONNECTED then s
  else
    let s := requestRegistrationState (usbnetLinkChange s 0 a) a.registration
    if s.PSAttachedState = 1 then setupDataCall s a else s

def checkAddress (s : State) (a : Answers) : State :=
  if s.IPv4ConnectionStatus = QWDS_PKT_DATA_CONNECTED then
    if checkIpv4Address s a.settings then
      { s with
        blind := s.blind || (decide (s.sLink = 1) && !s.mode.enableIpv6 && s.fetched.isNone) }
    else
      (requestDeactivateDefaultPDP s s.mode.curIpFamily a.stop).setStatus s.mode.curIpFamily
        QWDS_PKT_DATA_DISCONNECTED
  else s

def handleUsr2 (s : State) (a : Answers) : State :=
  let s := if s.connectionStatus = QWDS_PKT_DATA_CONNECTED then
      (requestQueryDataCall s s.mode.curIpFamily a.query).1
    else s
  let s := checkAddress s a
  if s.connectionStatus = QWDS_PKT_DATA_CONNECTED then s else sendSignoToMain s .usr1

def handleNetworkStateChanged (s : State) (a : Answers) : State :=
  let s := requestRegistrationState s a.registration
  if s.PSAttachedState = 1 ∧ s.connectionStatus = QWDS_PKT_DATA_DISCONNECTED then
    sendSignoToMain s .usr1
  else s

def queryDataCalls (s : State) (a : Answers) : State :=
  let t := (requestQueryDataCall s s.mode.curIpFamily a.query).1
  if t.mode.isDualIPSupported then (requestQueryDataCall t .v6 a.query6).1 else t

def handleDataCallListChanged (s : State) (a : Answers) : State :=
  let old := s.connectionStatus
  let s := queryDataCalls s a
  if s.connectionStatus = QWDS_PKT_DATA_CONNECTED then
    let s := usbnetLinkChange s 1 a
    if old = QWDS_PKT_DATA_CONNECTED then sendSignoToMain s .usr2 else s
  else
    let s := usbnetLinkChange s 0 a
    if old = QWDS_PKT_DATA_CONNECTED then sendSignoToMain s .usr1 else s

def handleSignal (s : State) (a : Answers) : Signo → State
  | .usr1 => handleUsr1 s a
  | .usr2 => handleUsr2 s a

def handleEvent (s : State) (a : Answers) : Event → State
  | .networkStateChanged => handleNetworkStateChanged s a
  | .dataCallListChanged => handleDataCallListChanged s a

/-- A signal or an event comes, `poll` times out, or the loop reads one from its socket. -/
inductive Label where
  | start (a : Answers)
  | signal (signo : Signo)
  | event (e : Event)
  | timeout
  | readSignal (a : Answers)
  | readEvent (a : Answers)

def step (s : State) : Label → Option State
  | .start a => if s.polling then none else some (start s a)
  | .signal signo => some (sendSignoToMain s signo)
  | .event e => some { s with events := s.events ++ [e] }
  | .timeout =>
    if s.polling ∧ s.signals = [] ∧ s.events = [] then some (sendSignoToMain s .usr2) else none
  | .readSignal a =>
    match s.signals with
    | signo :: rest =>
      if s.polling then some (handleSignal { s with signals := rest } a signo) else none
    | [] => none
  | .readEvent a =>
    match s.events with
    | e :: rest => if s.polling then some (handleEvent { s with events := rest } a e) else none
    | [] => none

end ModemSupport.Cm.QmiMain
