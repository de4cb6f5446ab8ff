import Mathlib.Data.Fintype.Pi
import ModemSupport.Lib.Transition

/-! The interrupts of the PCIe endpoint device without MSI (`sprd_pcie_ep_device.c`): the endpoint
sets a bit of the status word and raises the line, the interrupt handler of the host serves the
bits of the word one by one, and drivers register and unregister their handlers meanwhile. -/

namespace ModemSupport.Pcie.EpIrq

open Lib.Transition

abbrev pcieMsiMaxIrq : Nat := 7

abbrev Irq := Fin pcieMsiMaxIrq

def pcieMsiIpa : Irq := 6

abbrev Word := Fin 32 → Bool

inductive Run
  | idle
  | clear
  | ipaLookup
  | ipaCall (handler : Nat)
  | read
  | test (i : Nat) (value : Word)
  | reread (i : Fin 32)
  | writeBack (i : Fin 32) (value : Word)
  | lookup (i : Fin 32) (j : Irq) (value : Word)
  | call (i : Fin 32) (j : Irq) (handler : Nat) (value : Word)
  | park (i : Fin 32) (j : Irq) (value : Word)
  deriving DecidableEq

inductive RegPc
  | setHandler
  | setData
  | test
  | clear
  | call
  | unsetHandler
  | unsetData
  | done
  deriving DecidableEq

/-- A call of `sprd_ep_dev_register_irq_handler` or `sprd_ep_dev_unregister_irq_handler`. -/
structure Reg where
  irq : Irq
  handler : Option Nat
  data : Nat
  pc : RegPc

structure Call where
  irq : Irq
  handler : Nat
  data : Nat
  deriving DecidableEq

/-- The words and the tables that the three sides share, the runs in progress, and what the property
is about: the calls made, and for each interrupt whether the endpoint has set its bit and no call of
its handler followed. `toRaise` counts the bits set whose raise is still to come. -/
structure State where
  status : Word := fun _ => false
  line : Bool := false
  toRaise : Nat := 0
  bakIrqStatus : Irq → Bool := fun _ => false
  epDevHandler : Irq → Option Nat := fun _ => none
  epDevHandlerData : Irq → Nat := fun _ => 0
  run : Run := .idle
  regs : List Reg := []
  calls : List Call := []
  owed : Irq → Bool := fun _ => false

def init : State := {}

variable (baseIrq : UInt32)

/-- The interrupt number of a bit, `i - base_irq`, when it is a valid one. -/
def irqOf (i : Fin 32) : Option Irq :=
  let j := i.val.toUInt32 - baseIrq
  if h : j.toNat < pcieMsiMaxIrq then some ⟨j.toNat, h⟩ else none

/-- `handler(irq, data)`, with the data that is in the table now or was passed in. -/
def State.serve (s : State) (c : Call) : State :=
  { s with calls := s.calls ++ [c], owed := Function.update s.owed c.irq false }

def State.set (s : State) (i : Fin 32) : State :=
  { s with
    status := Function.update s.status i true
    toRaise := s.toRaise + 1
    owed := match irqOf baseIrq i with
      | some j => Function.update s.owed j true
      | none => s.owed }

def State.raise (s : State) : Option State :=
  if 0 < s.toRaise then some { s with line := true, toRaise := s.toRaise - 1 } else none

def State.irqStep (s : State) : Option State :=
  match s.run with
  | .idle => if s.line then some { s with run := .clear } else none
  | .clear => some { s with line := false, run := .ipaLookup }
  | .ipaLookup =>
    match s.epDevHandler pcieMsiIpa with
    | some handler => some { s with run := .ipaCall handler }
    | none => some { s with run := .read }
  | .ipaCall handler =>
    some { s.serve ⟨pcieMsiIpa, handler, s.epDevHandlerData pcieMsiIpa⟩ with run := .read }
  | .read => some { s with run := .test 0 s.status }
  | .test i value =>
    if h : i < 32 then
      if value ⟨i, h⟩ then some { s with run := .reread ⟨i, h⟩ }
      else some { s with run := .test (i + 1) value }
    else some { s with run := .idle }
  | .reread i => some { s with run := .writeBack i (Function.update s.status i false) }
  | .writeBack i value =>
    match irqOf baseIrq i with
    | some j => some { s with status := value, run := .lookup i j value }
    | none => some { s with status := value, run := .test (i + 1) value }
  | .lookup i j value =>
    match s.epDevHandler j with
    | some handler => some { s with run := .call i j handler value }
    | none => some { s with run := .park i j value }
  | .call i j handler value =>
    some { s.serve ⟨j, handler, s.epDevHandlerData j⟩ with run := .test (i + 1) value }
  | .park i j value =>
    some { s with
      bakIrqStatus := Function.update s.bakIrqStatus j true
      run := .test (i + 1) value }

def State.regPc (s : State) (r : Reg) : Option (State × RegPc) :=
  match r.pc with
  | .setHandler =>
    some ({ s with epDevHandler := Function.update s.epDevHandler r.irq r.handler }, .setData)
  | .setData =>
    some ({ s with epDevHandlerData := Function.update s.epDevHandlerData r.irq r.data }, .test)
  | .test =>
    if r.handler.isSome && s.bakIrqStatus r.irq then some (s, .clear) else some (s, .done)
  | .clear =>
    some ({ s with bakIrqStatus := Function.update s.bakIrqStatus r.irq false }, .call)
  | .call => r.handler.map fun handler => (s.serve ⟨r.irq, handler, r.data⟩, .done)
  | .unsetHandler =>
    some ({ s with epDevHandler := Function.update s.epDevHandler r.irq none }, .unsetData)
  | .unsetData =>
    some ({ s with epDevHandlerData := Function.update s.epDevHandlerData r.irq 0 }, .done)
  | .done => none

def State.regStep (s : State) (n : Nat) : Option State :=
  s.regs[n]?.bind fun r =>
    (s.regPc r).map fun next => { next.1 with regs := s.regs.set n { r with pc := next.2 } }

inductive Label
  | set (i : Fin 32)
  | raise
  /-- A step of the interrupt handler; the first one starts a run. -/
  | irq
  | register (irq : Irq) (handler : Option Nat) (data : Nat)
  | unregister (irq : Irq)
  /-- A step of the call with the given number. -/
  | reg (n : Nat)

def step (s : State) : Label → Option State
  | .set i => some (s.set baseIrq i)
  | .raise => s.raise
  | .irq => s.irqStep baseIrq
  | .register irq handler data =>
    some { s with regs := s.regs ++ [⟨irq, handler, data, .setHandler⟩] }
  | .unregister irq => some { s with regs := s.regs ++ [⟨irq, none, 0, .unsetHandler⟩] }
  | .reg n => s.regStep n

end ModemSupport.Pcie.EpIrq
