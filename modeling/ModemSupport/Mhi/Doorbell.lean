import ModemSupport.Mhi.Chan

/-! A started channel in burst mode with its device: the queue calls and `parse_xfer_event`, and
what `mhi_pm.c` does with the power state (`mhi_pm_m0_transition`, `mhi_pm_m1_transition`,
`mhi_pm_m3_transition`, `mhi_pm_suspend` and `mhi_pm_resume`), each section under `pm_lock` or the
channel's lock in one step or more. -/

namespace ModemSupport.Mhi.Doorbell

/-- A channel with `db_cfg.reset_req`, whose `process_db` is `mhi_db_brstmode`. -/
structure Config where
  chan : ChanCfg
  resetReq : Bool
  brstmode : chan.brstmode = true

def toStates : PmState → List PmState
  | .disable => [.por]
  | .por =>
    [.por, .disable, .m0, .sysErrDetect, .shutdownProcess, .ldErrFatalDetect, .fwDlErr]
  | .m0 => [.m2, .m3Enter, .sysErrDetect, .shutdownProcess, .ldErrFatalDetect, .fwDlErr]
  | .m2 => [.m0, .sysErrDetect, .shutdownProcess, .ldErrFatalDetect]
  | .m3Enter => [.m3, .sysErrDetect, .shutdownProcess, .ldErrFatalDetect]
  | .m3 => [.m3Exit, .sysErrDetect, .shutdownProcess, .ldErrFatalDetect]
  | .m3Exit => [.m0, .sysErrDetect, .shutdownProcess, .ldErrFatalDetect]
  | .fwDlErr => [.fwDlErr, .sysErrDetect, .shutdownProcess, .ldErrFatalDetect]
  | .sysErrDetect => [.sysErrProcess, .shutdownProcess, .ldErrFatalDetect]
  | .sysErrProcess => [.por, .shutdownProcess, .ldErrFatalDetect]
  | .shutdownProcess => [.disable, .ldErrFatalDetect]
  | .ldErrFatalDetect => [.ldErrFatalDetect, .shutdownProcess]

def trysetPmState (cur state : PmState) : PmState := if state ∈ toStates cur then state else cur

/-- Those of `enum mhi_dev_state` between which a device with started channels moves. -/
inductive DevState where
  | m0
  | m1
  | m2
  | m3
  deriving DecidableEq

/-- The device: its state and the one that `MHICTRL` asks for, whether it works on the channel,
whether it has found no further element there, and the number of elements that it has consumed. -/
structure Device where
  state : DevState
  request : DevState
  active : Bool
  drained : Bool
  consumed : Nat

/-- The events of the device's state and those that ask for a doorbell wait in the order of their
event ring.  `starting` is set up to the end of `__mhi_prepare_channel`, and `m0` between the two
sections of `mhi_pm_m0_transition`. -/
structure State where
  ctrl : Ctrl
  chan : Chan
  device : Device
  starting : Bool
  m0 : Bool
  ctrlEvents : List DevState
  dbEvents : List Tre

/-- The address of the element `x` in the device's memory. -/
def position (c : Config) (x : Nat) : Nat :=
  c.chan.iommuBase + x % c.chan.elements * sizeofMhiTre

def Device.doorbell (d : Device) (written : Bool) : Device :=
  if written then { d with active := true, drained := false } else d

/-- `mhi_ring_chan_db`, which writes the register in `db_mode` only. -/
def ringDb (c : Config) (s : State) : State :=
  { s with chan := ringChanDb c.chan s.chan, device := s.device.doorbell s.chan.dbCfg.dbMode }

def m0Transition (s : State) : State :=
  let pmState := trysetPmState s.ctrl.pmState .m0
  { s with ctrl := { s.ctrl with pmState := pmState }, m0 := pmState = .m0 }

def m0Channel (c : Config) (s : State) : State :=
  let dbMode := if c.resetReq then true else s.chan.dbCfg.dbMode
  let s := { s with
    m0 := false, chan := { s.chan with dbCfg := { s.chan.dbCfg with dbMode := dbMode } } }
  if s.chan.treRing.wp ≠ s.chan.treRing.rp then ringDb c s else s

/-- Sets the state where that is allowed, and then what the device is asked for. -/
def setState (s : State) (pmState : PmState) (request : DevState) : State :=
  let new := trysetPmState s.ctrl.pmState pmState
  { s with
    ctrl := { s.ctrl with pmState := new }
    device := { s.device with request := if new = pmState then request else s.device.request } }

def m1Transition (s : State) : State := setState s .m2 .m2

def m3Transition (s : State) : State :=
  { s with ctrl := { s.ctrl with pmState := trysetPmState s.ctrl.pmState .m3 } }

/-- `mhi_pm_suspend`, when it has found the device awake. -/
def pmSuspend (s : State) : State := setState s .m3Enter .m3

def pmResume (s : State) : State := setState s .m3Exit .m0

/-- A state change event in `mhi_process_ctrl_ev_ring`, which knows none of `M2`. -/
def stateChange (s : State) : DevState → State
  | .m0 => m0Transition s
  | .m1 => m1Transition s
  | .m2 => s
  | .m3 => m3Transition s

/-- The moves of the device: to `M1` on its own, back to `M0` when it is woken, and otherwise as
asked. -/
def Device.moves (d : Device) : DevState → Bool
  | .m0 => d.state = .m1 || d.state = .m2 || (d.state = .m3 && d.request = .m0)
  | .m1 => d.state = .m0
  | .m2 => d.state = .m1 && d.request = .m2
  | .m3 => d.state ≠ .m3 && d.request = .m3

/-- Moving, which leaves the channel idle behind `M3` if `reset_req` is set. -/
def Device.move (d : Device) (resetReq : Bool) (state : DevState) : Device :=
  let idles := d.state = .m3 && resetReq
  { d with
    state := state
    active := if idles then false else d.active
    drained := if idles then false else d.drained }

inductive Label where
  | chan (l : ChanLabel)
  | started
  | ctrlEvent
  | m0Channel
  | dbEvent
  | suspend
  | resume
  | consume
  | find
  | idle (event : Tre)
  | dbMode (event : Tre)
  | move (state : DevState)

/-- The steps of the channel that belong to a queue call, or to `parse_xfer_event` for a
completion of an element that the device has consumed. -/
def Allowed (c : Config) (s : State) : ChanLabel → Prop
  | .prepare .. => s.starting = true
  | .event event =>
    event.evCode ∈ xferCodes ∧
      ∃ x < s.device.consumed, s.chan.hist.taken ≤ x ∧ event.ptr.toNat = position c x
  | .reset | .chState _ => False
  | .call .. | .queue _ | .ret | .round => True

instance (c : Config) (s : State) : ∀ l, Decidable (Allowed c s l)
  | .prepare .. => inferInstanceAs (Decidable (s.starting = true))
  | .event event => inferInstanceAs (Decidable (event.evCode ∈ xferCodes ∧
      ∃ x < s.device.consumed, s.chan.hist.taken ≤ x ∧ event.ptr.toNat = position c x))
  | .reset | .chState _ => isFalse id
  | .call .. | .queue _ | .ret | .round => isTrue trivial

def queueWrites (s : State) : ChanLabel → Bool
  | .queue _ =>
    (s.chan.call.any fun c => c.rest.head? = some .ringDb) && s.ctrl.pmState.dbAccessValid &&
      s.chan.dbCfg.dbMode
  | _ => false

def eventWrites (s : State) : Bool :=
  s.chan.chState = .enabled && s.chan.treRing.wp ≠ s.chan.treRing.rp &&
    s.ctrl.pmState.dbAccessValid

def step (c : Config) (s : State) : Label → Option State
  | .chan l =>
    if Allowed c s l then
      (chanStep c.chan s.ctrl s.chan l).map fun x =>
        { s with ctrl := x.1, chan := x.2, device := s.device.doorbell (queueWrites s l) }
    else none
  | .started =>
    if s.starting ∧ s.chan.call = none then
      let s := { s with starting := false }
      some (if s.ctrl.pmState.dbAccessValid then ringDb c s else s)
    else none
  | .ctrlEvent =>
    match s.ctrlEvents with
    | [] => none
    | state :: events =>
      if s.m0 then none else some (stateChange { s with ctrlEvents := events } state)
  | .m0Channel => if s.m0 then some (m0Channel c s) else none
  | .dbEvent =>
    match s.dbEvents with
    | [] => none
    | event :: events =>
      if s.chan.round = none then
        some { s with
          chan := parseXferEvent c.chan s.ctrl s.chan event
          device := s.device.doorbell (eventWrites s)
          dbEvents := events }
      else none
  | .suspend => some (pmSuspend s)
  | .resume => some (pmResume s)
  | .consume =>
    if s.device.active ∧ position c s.device.consumed ≠ s.chan.ctxtWp then
      some { s with device := { s.device with consumed := s.device.consumed + 1 } }
    else none
  | .find =>
    if s.device.active ∧ position c s.device.consumed = s.chan.ctxtWp then
      some { s with device := { s.device with drained := true } }
    else none
  | .idle event =>
    if s.device.active ∧ s.device.drained ∧ event.evCode = evCcOob then
      some { s with
        device := { s.device with active := false, drained := false }
        dbEvents := s.dbEvents ++ [event] }
    else none
  | .dbMode event =>
    if event.evCode = evCcDbMode then some { s with dbEvents := s.dbEvents ++ [event] } else none
  | .move state =>
    if s.device.moves state then
      some { s with
        device := s.device.move c.resetReq state, ctrlEvents := s.ctrlEvents ++ [state] }
    else none

/-- The channel has just been started, and its ring is still to be filled where `pre_alloc` is
set. -/
def init (c : Config) : State where
  ctrl := ⟨.m0, 0, 0, 0⟩
  chan := { chanInit c.chan with chState := .enabled }
  device := ⟨.m0, .m0, false, false, 0⟩
  starting := c.chan.preAlloc
  m0 := false
  ctrlEvents := []
  dbEvents := []

/-- The power state is `M0`, no call is in progress, and every event has been looked at. -/
structure Settled (s : State) : Prop where
  pmState : s.ctrl.pmState = .m0
  m0 : s.m0 = false
  starting : s.starting = false
  call : s.chan.call = none
  round : s.chan.round = none
  ctrlEvents : s.ctrlEvents = []
  dbEvents : s.dbEvents = []

instance (s : State) : Decidable (Settled s) :=
  decidable_of_iff
    (s.ctrl.pmState = .m0 ∧ s.m0 = false ∧ s.starting = false ∧ s.chan.call = none ∧
      s.chan.round = none ∧ s.ctrlEvents = [] ∧ s.dbEvents = [])
    ⟨fun ⟨h₁, h₂, h₃, h₄, h₅, h₆, h₇⟩ => ⟨h₁, h₂, h₃, h₄, h₅, h₆, h₇⟩,
      fun h => ⟨h.pmState, h.m0, h.starting, h.call, h.round, h.ctrlEvents, h.dbEvents⟩⟩

/-- The device can see every element: the write pointer in the context is that of the ring, and the
device works on the channel unless it has consumed them all. -/
structure Seen (c : Config) (s : State) : Prop where
  ctxtWp : s.chan.ctxtWp = c.chan.iommuBase + (s.chan.treRing.wp - s.chan.treRing.base)
  device : s.device.active = true ∨ s.device.consumed = s.chan.hist.accepted.length

end ModemSupport.Mhi.Doorbell
