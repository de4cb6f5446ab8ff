import ModemSupport.Lib.Transition

/-! Synchronous writes of one client of the GobiNet QMI device (`QMIDevice.c`): `WriteSync`,
`AddToURBList`, `PopFromURBList` and the URB loop of `ReleaseClientID`, a step for each section of
`mClientMemLock` and each operation on an URB or a semaphore. -/

namespace ModemSupport.Gobi.WriteSync

open Lib.Transition

def ENOENT : Int := 2
def ENXIO : Int := 6
def ENOMEM : Int := 12
def EINVAL : Int := 22
def ETIME : Int := 62

/-- The URB of a `WriteSync` call, which has the number of the call. -/
inductive Urb where
  | none
  | allocated
  | active
  | done (status : Int)
  deriving DecidableEq

/-- Where a `WriteSync` call stands; while it waits, with the count of its `writeSem`. -/
inductive Call where
  | idle
  | allocated
  | added
  | submitFailed (result : Int)
  | waiting (writeSem : Nat)
  | woken (result : Int)
  | checked (result : Int)
  | popped (result : Int)
  | mismatched
  | returned (result : Int)
  deriving DecidableEq

/-- Where `ReleaseClientID` stands: at the URB that it kills and frees with the lock dropped. -/
inductive Release where
  | idle
  | killing (urb : Nat)
  | done
  deriving DecidableEq

/-- The client and its `mpURBList`, the calls and their URBs.  Three ghost fields record the frees
of each URB, what `PopFromURBList` gave to each call, and in which order the calls have added
their URBs. -/
structure State where
  valid : Bool
  listed : Bool
  mpURBList : List Nat
  calls : Nat
  call : Nat → Call
  writeBufferSize : Nat → Nat
  urb : Nat → Urb
  release : Release
  freed : Nat → Nat
  gotBack : Nat → Option (Option Nat)
  order : List Nat

def init : State where
  valid := true
  listed := true
  mpURBList := []
  calls := 0
  call := fun _ => .idle
  writeBufferSize := fun _ => 0
  urb := fun _ => .none
  release := .idle
  freed := fun _ => 0
  gotBack := fun _ => none
  order := []

def setCall (s : State) (r : Nat) (c : Call) : State :=
  { s with call := Function.update s.call r c }

def usbFreeUrb (s : State) (u : Nat) : State :=
  { s with freed := Function.update s.freed u (s.freed u + 1) }

/-- The completion of an URB: its status, and `WriteSyncCallback`. -/
def complete (s : State) (u : Nat) (status : Int) : State :=
  { s with
    urb := Function.update s.urb u (.done status)
    call := match s.call u with
      | .waiting writeSem => Function.update s.call u (.waiting (writeSem + 1))
      | _ => s.call }

def usbKillUrb (s : State) (u : Nat) : State :=
  if s.urb u = .active then complete s u (-ENOENT) else s

/-- What the beginning of `WriteSync` comes to, up to `usb_autopm_get_interface`. -/
inductive Prepare where
  | noUrb
  | fails (result : Int)
  | ready

def writeSync (s : State) (size : Nat) (prepare : Prepare) : State :=
  let r := s.calls
  let t := { s with
    calls := r + 1
    writeBufferSize := Function.update s.writeBufferSize r size }
  if s.valid then
    match prepare with
    | .noUrb => setCall t r (.returned (-ENOMEM))
    | .fails result =>
      usbFreeUrb
        (setCall { t with urb := Function.update s.urb r .allocated } r (.returned result)) r
    | .ready => setCall { t with urb := Function.update s.urb r .allocated } r .allocated
  else setCall t r (.returned (- ENXIO))

/-- `AddToURBList`, and what `WriteSync` does when it fails. -/
def addToURBList (s : State) (r : Nat) (alloc : Bool) : State :=
  if s.valid ∧ s.listed ∧ alloc then
    { s with
      mpURBList := s.mpURBList ++ [r]
      call := Function.update s.call r .added
      order := s.order ++ [r] }
  else usbFreeUrb (setCall s r (.returned (-EINVAL))) r

/-- The URB that `PopFromURBList` returns, and the list that it leaves. -/
def popFromURBList (s : State) : Option Nat × List Nat :=
  if s.valid ∧ s.listed then (s.mpURBList.head?, s.mpURBList.tail) else (none, s.mpURBList)

def getBack (s : State) (r : Nat) : State :=
  { s with
    mpURBList := (popFromURBList s).2
    gotBack := Function.update s.gotBack r (some (popFromURBList s).1) }

def submitError (s : State) (r : Nat) (result : Int) : State :=
  let t := setCall (getBack s r) r (.returned result)
  if (popFromURBList s).1 = some r then usbFreeUrb t r else t

def pop (s : State) (r : Nat) (result : Int) : State :=
  setCall (getBack s r) r (if (popFromURBList s).1 = some r then .popped result else .mismatched)

def transferResult (s : State) (r : Nat) : Int :=
  match s.urb r with
  | .done status => if status = 0 then (s.writeBufferSize r : Int) else status
  | _ => 0

/-- The end of `WriteSync` with its own URB. -/
def finish (s : State) (r : Nat) (result : Int) : State :=
  if result = 0 then usbFreeUrb (setCall s r (.returned (transferResult s r))) r
  else usbFreeUrb (setCall (usbKillUrb s r) r (.returned result)) r

def releaseURBs (s : State) : State :=
  match (popFromURBList s).1 with
  | some u => { s with mpURBList := (popFromURBList s).2, release := .killing u }
  | none => { s with listed := false, release := .done }

inductive Label where
  | call (size : Nat) (prepare : Prepare)
  | add (r : Nat) (alloc : Bool)
  | submit (r : Nat) (result : Int)
  | submitError (r : Nat)
  | complete (u : Nat) (status : Int)
  | down (r : Nat)
  | timeout (r : Nat)
  | check (r : Nat)
  | pop (r : Nat)
  | finish (r : Nat)
  | invalidate
  | release
  | releaseKill

def step (s : State) : Label → Option State
  | .call size prepare => some (writeSync s size prepare)
  | .add r alloc => if s.call r = .allocated then some (addToURBList s r alloc) else none
  | .submit r result =>
    if s.call r = .added then
      some (if result < 0 then setCall s r (.submitFailed result)
        else setCall { s with urb := Function.update s.urb r .active } r (.waiting 0))
    else none
  | .submitError r =>
    match s.call r with
    | .submitFailed result => some (submitError s r result)
    | _ => none
  | .complete u status => if s.urb u = .active then some (complete s u status) else none
  | .down r =>
    match s.call r with
    | .waiting writeSem => if 0 < writeSem then some (setCall s r (.woken 0)) else none
    | _ => none
  | .timeout r =>
    match s.call r with
    | .waiting writeSem => if writeSem = 0 then some (setCall s r (.woken (-ETIME))) else none
    | _ => none
  | .check r =>
    match s.call r with
    | .woken result =>
      some (if s.valid then setCall s r (.checked result)
        else setCall (usbKillUrb s r) r (.returned (- ENXIO)))
    | _ => none
  | .pop r =>
    match s.call r with
    | .checked result => some (pop s r result)
    | _ => none
  | .finish r =>
    match s.call r with
    | .popped result => some (finish s r result)
    | .mismatched => some (setCall (usbKillUrb s r) r (.returned (-EINVAL)))
    | _ => none
  | .invalidate => some { s with valid := false }
  | .release =>
    if s.release = .idle then some (if s.valid then releaseURBs s else { s with release := .done })
    else none
  | .releaseKill =>
    match s.release with
    | .killing u => some (releaseURBs (usbFreeUrb (usbKillUrb s u) u))
    | _ => none

end ModemSupport.Gobi.WriteSync
