import ModemSupport.Lib.Transition

/-! The threads of `mbim_main`: the main thread that reads the state variables, decides and waits,
the reader thread with `mbim_recv_command`, and the handlers of signals, each as a sequence of
atomic steps. -/

namespace ModemSupport.Cm.MbimMain

open Lib.Transition

inductive Var where
  | ReadyState
  | RegisterState
  | PacketServiceState
  | ActivationState
  deriving DecidableEq

def MBIMSubscriberReadyStateInitialized : UInt32 := 1
def MBIMRegisterStateHome : UInt32 := 3
def MBIMRegisterStateRoaming : UInt32 := 4
def MBIMPacketServiceStateAttached : UInt32 := 2
def MBIMPacketServiceStateDetached : UInt32 := 4
def MBIMActivationStateUnknown : UInt32 := 0
def MBIMActivationStateActivated : UInt32 := 1
def MBIMActivationStateActivating : UInt32 := 2

/-- `wait_state_change` of a day, of the 30 seconds before the connection is tried again, and of
the second in which further changes are awaited. -/
inductive Wait where
  | day
  | retry
  | settle
  deriving DecidableEq

/-- Where the main thread is.  A test reads its variable once; a request reads the answer and
stores it.  The last test of `ActivationState` is left out, since both its branches lead to the
wait. -/
inductive Pc where
  | testQuit
  | testTid
  | testOpen
  | openDevice
  | reset (v : Var)
  | deviceCaps
  | ready1
  | readyQuery
  | ready2
  | register1
  | registerQuery
  | register2
  | packet1
  | packetQuery
  | packetDetached
  | packetSet
  | packet2
  | activation1
  | connectQuery
  | activation2
  | setConnect
  | activation3
  | ipConfig
  | lock (w : Wait)
  | held (w : Wait)
  | blocked (w : Wait)
  | woken (w : Wait) (timeout : Bool)
  | updateQuit
  | updateTid
  | exited
  deriving DecidableEq

/-- Where the reader thread is: between messages, in `notify_state_chage` of a variable behind its
test, in `_notify_state_chage` (for a variable or for its end), or at its end. -/
inductive Reader where
  | idle
  | assign (v : Var) (new : UInt32)
  | notify (v : Option Var)
  | locked (v : Option Var)
  | signalled (v : Option Var)
  | quit
  | gone
  deriving DecidableEq

inductive Handler where
  | none
  | locked
  | signalled
  deriving DecidableEq

/-- What a request of the main thread ends with: no answer, or an answer, which may say that the
device is not open, and may carry a new value. -/
structure Outcome where
  err : Bool
  notOpened : Bool
  value : Option UInt32

/-- The variables, where the threads are, whether `mbim_state_mutex` is free, and the handlers in
front of it. As a ghost, the values that the main thread has read in its pass through the loop. -/
structure State where
  vars : Var → UInt32
  mbimQuit : Nat
  readTid : Bool
  openState : Bool
  pc : Pc
  reader : Reader
  handlers : Nat
  handler : Handler
  mutexFree : Bool
  seen : Var → Option UInt32

def init : State where
  vars := fun _ => 0
  mbimQuit := 0
  readTid := true
  openState := false
  pc := .testQuit
  reader := .idle
  handlers := 0
  handler := .none
  mutexFree := true
  seen := fun _ => none

def State.setVar (s : State) (v : Var) (x : UInt32) : State :=
  { s with vars := fun u => if u = v then x else s.vars u }

def State.test (s : State) (v : Var) (p : UInt32 → Bool) (yes no : Pc) : State :=
  { s with
    seen := fun u => if u = v then some (s.vars v) else s.seen u
    pc := if p (s.vars v) then yes else no }

/-- A request whose answer is not stored. -/
def State.ask (s : State) (o : Outcome) (next : Pc) : State :=
  { s with openState := s.openState && !o.notOpened, pc := if o.err then .exited else next }

def State.query (s : State) (v : Var) (o : Outcome) (next : Pc) : State :=
  let t := s.ask o next
  if o.err then t else t.setVar v (o.value.getD (s.vars v))

def registered (x : UInt32) : Bool := x == MBIMRegisterStateHome || x == MBIMRegisterStateRoaming

def active (x : UInt32) : Bool :=
  x == MBIMActivationStateActivated || x == MBIMActivationStateActivating

/-- `mbim_reset_state`, a variable at a time; all initial values are 0. -/
def resetNext : Var → Pc
  | .ReadyState => .reset .RegisterState
  | .RegisterState => .reset .PacketServiceState
  | .PacketServiceState => .reset .ActivationState
  | .ActivationState => .deviceCaps

def mainStep (s : State) (o : Outcome) : Option State :=
  match s.pc with
  | .testQuit =>
    some { s with seen := fun _ => none, pc := if s.mbimQuit = 0 then .testTid else .exited }
  | .testTid => some { s with pc := if s.readTid then .testOpen else .exited }
  | .testOpen => some { s with pc := if s.openState then .ready1 else .openDevice }
  | .openDevice =>
    some { s with
      openState := !o.err
      pc := if o.err then .exited else .reset .ReadyState }
  | .reset v => some { s.setVar v 0 with pc := resetNext v }
  | .deviceCaps => some (s.ask o .ready1)
  | .ready1 =>
    some (s.test .ReadyState (· == MBIMSubscriberReadyStateInitialized) .ready2 .readyQuery)
  | .readyQuery => some (s.query .ReadyState o .ready2)
  | .ready2 =>
    some (s.test .ReadyState (· == MBIMSubscriberReadyStateInitialized) .register1 (.lock .day))
  | .register1 => some (s.test .RegisterState registered .register2 .registerQuery)
  | .registerQuery => some (s.query .RegisterState o .register2)
  | .register2 => some (s.test .RegisterState registered .packet1 (.lock .day))
  | .packet1 =>
    some (s.test .PacketServiceState (· == MBIMPacketServiceStateAttached) .packet2 .packetQuery)
  | .packetQuery => some (s.query .PacketServiceState o .packetDetached)
  | .packetDetached =>
    some (s.test .PacketServiceState (· == MBIMPacketServiceStateDetached) .packetSet .packet2)
  | .packetSet => some (s.query .PacketServiceState o .packet2)
  | .packet2 =>
    some (s.test .PacketServiceState (· == MBIMPacketServiceStateAttached) .activation1
      (.lock .day))
  | .activation1 =>
    some (s.test .ActivationState (· == MBIMActivationStateUnknown) .connectQuery .activation2)
  | .connectQuery => some (s.query .ActivationState o .activation2)
  | .activation2 => some (s.test .ActivationState active (.lock .day) .setConnect)
  | .setConnect => some (s.query .ActivationState o .activation3)
  | .activation3 =>
    some (s.test .ActivationState (· == MBIMActivationStateActivated) .ipConfig (.lock .retry))
  | .ipConfig => some (s.ask o (.lock .day))
  -- `wait_state_change`; the wait gives the mutex up, and takes it again behind a wake-up.
  | .lock w => if s.mutexFree then some { s with mutexFree := false, pc := .held w } else none
  | .held w => some { s with mutexFree := true, pc := .blocked w }
  | .blocked _ => none
  | .woken w timeout =>
    if s.mutexFree then
      some { s with pc := if w = .settle ∧ timeout then .testQuit else .updateQuit }
    else none
  | .updateQuit => some { s with pc := if s.mbimQuit = 0 then .updateTid else .testQuit }
  | .updateTid => some { s with pc := if s.readTid then .lock .settle else .testQuit }
  | .exited => none

/-- `pthread_cond_signal`: only the main thread waits. -/
def condSignal (s : State) : State :=
  match s.pc with
  | .blocked w => { s with pc := .woken w false }
  | _ => s

/-- A step of the reader thread behind its test of a message, or at its end. -/
def readerStep (s : State) : Option State :=
  match s.reader with
  | .idle => none
  | .assign v new => some { s.setVar v new with reader := .notify (some v) }
  | .notify v =>
    if s.mutexFree then some { s with mutexFree := false, reader := .locked v } else none
  | .locked v => some { condSignal s with reader := .signalled v }
  | .signalled v => some { s with mutexFree := true, reader := if v.isSome then .idle else .gone }
  | .quit => some { s with mbimQuit := s.mbimQuit + 1, reader := .notify none }
  | .gone => none

/-- A step of a handler behind its `mbim_quit++`. -/
def handlerStep (s : State) : Option State :=
  match s.handler with
  | .none =>
    if s.handlers ≠ 0 ∧ s.mutexFree then
      some { s with handlers := s.handlers - 1, mutexFree := false, handler := .locked }
    else none
  | .locked => some { condSignal s with handler := .signalled }
  | .signalled => some { s with mutexFree := true, handler := .none }

inductive Label where
  | main (o : Outcome)
  | timeout
  | spurious
  | indicate (v : Var) (new : UInt32)
  | reader
  | readerEnd
  | sigaction
  | handler

def step (s : State) : Label → Option State
  | .main o => mainStep s o
  | .timeout =>
    match s.pc with
    | .blocked w => some { s with pc := .woken w true }
    | _ => none
  | .spurious =>
    match s.pc with
    | .blocked w => some { s with pc := .woken w false }
    | _ => none
  | .indicate v new =>
    -- `if (_var != _new)` of `notify_state_chage`.
    if s.reader = .idle then
      some { s with reader := if s.vars v = new then .idle else .assign v new }
    else none
  | .reader => readerStep s
  | .readerEnd =>
    if s.reader = .idle then some { s with readTid := false, reader := .quit } else none
  | .sigaction => some { s with mbimQuit := s.mbimQuit + 1, handlers := s.handlers + 1 }
  | .handler => handlerStep s

end ModemSupport.Cm.MbimMain
