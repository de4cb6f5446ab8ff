import ModemSupport.Cm.MbimMain

/-! A session of `mbim_main` and the addresses on `mbim_netcard`: the loop against a device that
answers every command with success, and the indications that `mbim_recv_command` stores between any
two steps of it. -/

namespace ModemSupport.Cm.MbimSession

open Lib.Transition MbimMain

def MBIMActivationStateDeactivated : UInt32 := 3
def MBIMActivationStateDeactivating : UInt32 := 4

/-- Where the main thread is.  The calls of `mbim_update_state` are places of their own, since they
read `ActivationState` too. -/
inductive Pc where
  | testQuit
  | testOpen
  | openDevice
  | reset (v : Var)
  | deviceCaps
  | ready1
  | readyQuery
  | readyUpdate
  | ready2
  | register1
  | registerQuery
  | registerUpdate
  | register2
  | packet1
  | packetQuery
  | packetQueryUpdate
  | packetDetached
  | packetSet
  | packetUpdate
  | packet2
  | activation1
  | connectQuery
  | connectUpdate
  | activation2
  | setConnect
  | setConnectUpdate
  | activation3
  | ipConfig
  | ipConfigUpdate
  | activation4 (w : Wait)
  | wait (w : Wait)
  | waitUpdate
  | exited
  deriving DecidableEq

/-- A successful answer: the new value that it carries, and which of `IPv4Address` and
`IPv6Address` it does. -/
structure Answer where
  value : Option UInt32
  ipv4 : Bool
  ipv6 : Bool

/-- The variables, the place of the main thread, and whether `mbim_netcard` has addresses of a
session.  Ghosts: the value of `ActivationState` that the main thread has read last, and whether
`mbim_ip_config` has succeeded since it last changed to Activated. -/
structure State where
  vars : Var → UInt32
  mbimQuit : Bool
  openState : Bool
  pc : Pc
  ipv4 : Bool
  ipv6 : Bool
  lastSeen : Option UInt32
  configured : Bool

/-- The start of the loop, with the addresses that an earlier run has left. -/
def init (ipv4 ipv6 : Bool) : State where
  vars := fun _ => 0
  mbimQuit := false
  openState := false
  pc := .testQuit
  ipv4 := ipv4
  ipv6 := ipv6
  lastSeen := none
  configured := false

def State.addressed (s : State) : Bool := s.ipv4 || s.ipv6

def State.setVar (s : State) (v : Var) (x : UInt32) : State :=
  { s with
    vars := fun u => if u = v then x else s.vars u
    configured :=
      if v = .ActivationState ∧ x = MBIMActivationStateActivated ∧ s.vars v ≠ x then false
      else s.configured }

/-- `mbim_ifconfig` without an address. -/
def State.flush (s : State) : State := { s with ipv4 := false, ipv6 := false }

def State.test (s : State) (v : Var) (p : UInt32 → Bool) (yes no : Pc) : State :=
  { s with
    lastSeen := if v = .ActivationState then some (s.vars v) else s.lastSeen
    pc := if p (s.vars v) then yes else no }

def State.update (s : State) (next : Pc) : State :=
  { s with lastSeen := some (s.vars .ActivationState), pc := next }

def State.query (s : State) (v : Var) (a : Answer) (next : Pc) : State :=
  { s.setVar v (a.value.getD (s.vars v)) with pc := next }

/-- `mbim_ip_config`: an address replaces the one of its family. -/
def mbimIpConfig (s : State) (a : Answer) : State :=
  { s with
    ipv4 := s.ipv4 || a.ipv4
    ipv6 := s.ipv6 || a.ipv6
    configured := true
    pc := .ipConfigUpdate }

def resetNext : Var → Pc
  | .ReadyState => .reset .RegisterState
  | .RegisterState => .reset .PacketServiceState
  | .PacketServiceState => .reset .ActivationState
  | .ActivationState => .deviceCaps

def mainStep (s : State) (a : Answer) : Option State :=
  match s.pc with
  | .testQuit => some { s with pc := if s.mbimQuit then .exited else .testOpen }
  | .testOpen =>
    some (if s.openState then { s with pc := .ready1 } else { s.flush with pc := .openDevice })
  | .openDevice => some { s with openState := true, pc := .reset .ReadyState }
  | .reset v => some { s.setVar v 0 with pc := resetNext v }
  | .deviceCaps => some { s with pc := .ready1 }
  | .ready1 =>
    some (s.test .ReadyState (· == MBIMSubscriberReadyStateInitialized) .ready2 .readyQuery)
  | .readyQuery => some (s.query .ReadyState a .readyUpdate)
  | .readyUpdate => some (s.update .ready2)
  | .ready2 =>
    some (s.test .ReadyState (· == MBIMSubscriberReadyStateInitialized) .register1 (.wait .day))
  | .register1 => some (s.test .RegisterState registered .register2 .registerQuery)
  | .registerQuery => some (s.query .RegisterState a .registerUpdate)
  | .registerUpdate => some (s.update .register2)
  | .register2 => some (s.test .RegisterState registered .packet1 (.wait .day))
  | .packet1 =>
    some (s.test .PacketServiceState (· == MBIMPacketServiceStateAttached) .packet2 .packetQuery)
  | .packetQuery => some (s.query .PacketServiceState a .packetQueryUpdate)
  | .packetQueryUpdate => some (s.update .packetDetached)
  | .packetDetached =>
    some (s.test .PacketServiceState (· == MBIMPacketServiceStateDetached) .packetSet
      .packetUpdate)
  | .packetSet => some (s.query .PacketServiceState a .packetUpdate)
  | .packetUpdate => some (s.update .packet2)
  | .packet2 =>
    some (s.test .PacketServiceState (· == MBIMPacketServiceStateAttached) .activation1
      (.wait .day))
  | .activation1 =>
    some (s.test .ActivationState (· == MBIMActivationStateUnknown) .connectQuery .activation2)
  | .connectQuery => some (s.query .ActivationState a .connectUpdate)
  | .connectUpdate => some (s.update .activation2)
  | .activation2 => some (s.test .ActivationState active (.activation4 .day) .setConnect)
  | .setConnect => some (s.query .ActivationState a .setConnectUpdate)
  | .setConnectUpdate => some (s.update .activation3)
  | .activation3 =>
    some (s.test .ActivationState (· == MBIMActivationStateActivated) .ipConfig
      (.activation4 .retry))
  | .ipConfig => some (mbimIpConfig s a)
  | .ipConfigUpdate => some (s.update (.activation4 .day))
  | .activation4 w =>
    some (s.test .ActivationState (· == MBIMActivationStateActivated) (.wait w) (.wait w))
  -- `wait_state_change` returns by itself.
  | .wait _ => none
  | .waitUpdate =>
    some { s.update (.wait .settle) with pc := if s.mbimQuit then .testQuit else .wait .settle }
  | .exited => none

def State.notify (s : State) (v : Var) (new : UInt32) : State :=
  if s.vars v = new then s else s.setVar v new

/-- The indications of `mbim_recv_command`, by the variable that each is about.  The branch that
flushes the addresses has the condition of the first one. -/
def mbimRecvCommand (s : State) (cid : Var) (new : UInt32) : State :=
  if cid = .ActivationState then s.notify .ActivationState new
  else if cid = .ReadyState then s.notify .ReadyState new
  else if cid = .RegisterState then s.notify .RegisterState new
  else if cid = .PacketServiceState then s.notify .PacketServiceState new
  else if cid = .ActivationState then
    if new = MBIMActivationStateDeactivated ∨ new = MBIMActivationStateDeactivating then s.flush
    else s
  else s

theorem mbimRecvCommand_eq (s : State) (v : Var) (new : UInt32) :
    mbimRecvCommand s v new = s.notify v new := by
  cases v <;> rfl

inductive Label where
  | main (a : Answer)
  | wake (timeout : Bool)
  | indicate (v : Var) (new : UInt32)
  | sigaction

def step (s : State) : Label → Option State
  | .main a => mainStep s a
  | .wake timeout =>
    match s.pc with
    | .wait .settle => some { s with pc := if timeout then .testQuit else .waitUpdate }
    | .wait _ => some { s with pc := .waitUpdate }
    | _ => none
  | .indicate v new => if s.pc = .exited then none else some (mbimRecvCommand s v new)
  | .sigaction => some { s with mbimQuit := true }

end ModemSupport.Cm.MbimSession
