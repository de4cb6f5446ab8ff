import ModemSupport.Lib.Heap
import ModemSupport.Lib.Transition
import ModemSupport.Mhi.Chan

/-! The life of a UCI device (`mhi_uci.c`, with `QUEC_MHI_UCI_ALWAYS_OPEN`): `mhi_uci_probe`,
`mhi_uci_open`, `mhi_uci_release` and `mhi_uci_remove`, one call at a time.  A channel that has been
started has `avail` free descriptors inbound. -/

namespace ModemSupport.Mhi.UciDev

open Lib (Heap)
open Lib.Transition

/-- The device and its memory.  `dev` is the address of `uci_dev`, `node` its place in the list of
the driver, `uciBuf` the address of the array with the `page` of each element in `pages` (zero is
null), and `queued` what waits on the inbound ring of a device whose channels are `started`.
`stale` is set when something is used that is not live, or freed that the device still has. -/
structure State where
  heap : Heap
  dev : Option Nat
  node : Bool
  removed : Bool
  enabled : Bool
  refCount : Int
  files : Nat
  uciBuf : Option Nat
  nrTrbs : Nat
  pages : Nat → Nat
  started : Bool
  queued : Nat
  stale : Bool

def init : State :=
  ⟨.empty, none, false, false, false, 0, 0, none, 0, fun _ => 0, false, 0, false⟩

/-- What an open finds: the outcomes of `mhi_prepare_for_transfer` and `kmalloc_array`, what the
new array happens to hold as pages, and the outcomes of `alloc_pages` and `mhi_queue_transfer`. -/
structure OpenEnv where
  prepare : Option Errno
  array : Bool
  garbage : Nat → Nat
  allocPages : Nat → Bool
  transfer : Nat → Option Errno

def State.touch (s : State) (p : Nat) : State := { s with stale := s.stale || p ∉ s.heap.live }

/-- `mhi_uci_probe`; `minor` tells whether one is left. -/
def mhiUciProbe (kzalloc minor : Bool) (s : State) : State :=
  if kzalloc = false then s
  else
    let dev := s.heap.next
    let s := { s with heap := s.heap.alloc }
    if minor = false then { s with heap := s.heap.free dev }
    else
      { s with
        dev := some dev, node := true, enabled := true, refCount := 0, uciBuf := none, nrTrbs := 0 }

def allocPages (env : OpenEnv) : (n : Nat) → (i : Nat) → State → Option Errno × State
  | 0, _, s => (none, s)
  | n + 1, i, s =>
    if env.allocPages i = false then
      (some .enomem, { s with pages := Function.update s.pages i 0 })
    else
      allocPages env n (i + 1)
        { s with heap := s.heap.alloc, pages := Function.update s.pages i s.heap.next }

def allocBufs (avail : Nat) (env : OpenEnv) (s : State) : Option Errno × State :=
  let s := { s with nrTrbs := avail + 1 }
  if env.array = false then (some .enomem, s)
  else
    allocPages env s.nrTrbs 0
      { s with heap := s.heap.alloc, uciBuf := some s.heap.next, pages := env.garbage }

def queueBufs (env : OpenEnv) : (n : Nat) → (i : Nat) → State → Option Errno × State
  | 0, _, s => (none, s)
  | n + 1, i, s =>
    match env.transfer i with
    | some e => (some e, s)
    | none => queueBufs env n (i + 1) { s with queued := s.queued + 1 }

def mhiQueueInbound (avail : Nat) (env : OpenEnv) (s : State) : Option Errno × State :=
  let bufs := if s.uciBuf = none then allocBufs avail env s else (none, s)
  match bufs with
  | (some e, s) => (some e, s)
  | (none, s) =>
    if avail = 0 then (some .eio, s)
    else queueBufs env avail 0 (s.uciBuf.elim s s.touch)

def freeBufs (s : State) : State :=
  match s.uciBuf with
  | none => s
  | some buf =>
    let s := s.touch buf
    let pages := ((List.range s.nrTrbs).map s.pages).filter (· ≠ 0)
    { s with heap := (s.heap.freeAll pages).free buf, stale := s.stale || s.started }

/-- `mhi_unprepare_from_transfer`, and the reset of the channels when the device goes. -/
def State.stop (s : State) : State := { s with started := false, queued := 0 }

def mhiUciOpen (avail : Nat) (env : OpenEnv) (s : State) : Option Errno × State :=
  if s.node = false then (some .eio, s)
  else
    let s : State := s.dev.elim s s.touch
    if s.enabled = false then (some .eio, s)
    else
      let s : State := { s with refCount := s.refCount + 1 }
      if s.refCount ≠ 1 then (none, { s with files := s.files + 1 })
      else
        match env.prepare with
        | some e => (some e, { s with refCount := s.refCount - 1 })
        | none =>
          match mhiQueueInbound avail env { s with started := true } with
          | (some e, s) => (some e, freeBufs s.stop)
          | (none, s) => (none, { s with refCount := s.refCount + 1, files := s.files + 1 })

def mhiUciRelease (s : State) : State :=
  let s : State := s.dev.elim s s.touch
  let s : State := { s with refCount := s.refCount - 1, files := s.files - 1 }
  if s.refCount ≠ 0 then s
  else
    let s := freeBufs (if s.enabled then s.stop else s)
    if s.enabled then s else { s with heap := s.dev.elim s.heap s.heap.free }

/-- `mhi_driver_remove`, which stops the channels and calls `mhi_uci_remove`. -/
def mhiUciRemove (s : State) : State :=
  let s := (s.dev.elim s s.touch).stop
  let s := { s with enabled := false, node := false, removed := true }
  let s := { s with refCount := if s.refCount > 0 then s.refCount - 1 else s.refCount }
  if s.refCount ≠ 0 then s else { s with heap := s.dev.elim s.heap s.heap.free }

inductive Label where
  | probe (kzalloc minor : Bool)
  | openFile (env : OpenEnv)
  | release
  | remove

/-- A call: a device is probed once with success and removed once, and a file that is closed is
open. -/
def step (avail : Nat) (s : State) : Label → Option State
  | .probe kzalloc minor => if s.dev = none then some (mhiUciProbe kzalloc minor s) else none
  | .openFile env => some (mhiUciOpen avail env s).2
  | .release => if s.files = 0 then none else some (mhiUciRelease s)
  | .remove => if s.dev = none ∨ s.removed then none else some (mhiUciRemove s)

end ModemSupport.Mhi.UciDev
