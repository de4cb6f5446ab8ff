import ModemSupport.Lib.Transition

/-! Synchronous reads of one client of the GobiNet QMI device (`QMIDevice.c`): `ReadSync`,
`ReadCallback`, `NotifyAndPopNotifyList` and `ReleaseClientID`, a step for each section of
`mClientMemLock` and each operation on a semaphore. -/

namespace ModemSupport.Gobi.ReadSync

open Lib.Transition Option

structure ReadMem where
  mTransactionID : UInt16
  mpData : List UInt8

/-- An entry of `mpReadNotifyList`; `mpData` is the `readSem` of a `ReadSync` call, here its
number. -/
structure Notify where
  mTransactionID : UInt16
  mpData : Nat
  deriving DecidableEq

inductive Errno where
  | enxio
  | efault
  | eintr

/-- Where a `ReadSync` call stands; while it waits, with the count of its `readSem`. -/
inductive Call where
  | idle
  | waiting (transactionID : UInt16) (readSem : Nat)
  | woken (transactionID : UInt16)
  | timedOut (transactionID : UInt16)
  | returned (result : Except Errno (List UInt8))

/-- Where `ReadCallback` stands: behind the removal of the entry of a call, or behind its
`UpSem`. -/
inductive Callback where
  | idle
  | notified (call : Nat)
  | upped
  deriving DecidableEq

inductive Release where
  | idle
  | notified (call : Nat)
  | upped
  | killing
  | done
  deriving DecidableEq

/-- The `sClientMemList` entry of the client, whether it is on `mpClientMemList` and whether it
has been freed, and the calls that use it.  Two ghost fields tell whether the entry was used
behind its `kfree`, and whether `UpSem` ran for a call that had returned. -/
structure State where
  listed : Bool
  freed : Bool
  mpList : List ReadMem
  mpReadNotifyList : List Notify
  calls : Nat
  call : Nat → Call
  readCallback : Callback
  release : Release
  usedFreed : Bool
  uppedReturned : Bool

def init : State where
  listed := true
  freed := false
  mpList := []
  mpReadNotifyList := []
  calls := 0
  call := fun _ => .idle
  readCallback := .idle
  release := .idle
  usedFreed := false
  uppedReturned := false

def takes (transactionID : UInt16) (m : ReadMem) : Bool :=
  transactionID == 0 || transactionID == m.mTransactionID

def wakes (transactionID : UInt16) (e : Notify) : Bool :=
  transactionID == 0 || e.mTransactionID == 0 || transactionID == e.mTransactionID

/-- `PopFromReadMemList`: the first message that the id takes. -/
def popFromReadMemList (s : State) (transactionID : UInt16) : Option ReadMem :=
  if s.listed then s.mpList.find? (takes transactionID) else none

def setCall (s : State) (r : Nat) (c : Call) : State :=
  { s with call := Function.update s.call r c }

/-- `AddToNotifyList`, and what `ReadSync` does when it fails. -/
def addToNotifyList (s : State) (r : Nat) (transactionID : UInt16) (alloc : Bool) : State :=
  if s.listed ∧ alloc then
    { s with
      mpReadNotifyList := s.mpReadNotifyList ++ [⟨transactionID, r⟩]
      call := Function.update s.call r (.waiting transactionID 0) }
  else setCall s r (.returned (.error .efault))

def readLoop (s : State) (r : Nat) (transactionID : UInt16) (alloc : Bool) : State :=
  match popFromReadMemList s transactionID with
  | some m =>
    { s with
      mpList := s.mpList.eraseP (takes transactionID)
      call := Function.update s.call r (.returned (.ok m.mpData)) }
  | none => addToNotifyList s r transactionID alloc

/-- The first section of `ReadSync`. -/
def readSync (s : State) (transactionID : UInt16) (alloc : Bool) : State :=
  if s.listed then readLoop { s with calls := s.calls + 1 } s.calls transactionID alloc
  else setCall { s with calls := s.calls + 1 } s.calls (.returned (.error .enxio))

/-- The section of a `ReadSync` call that was interrupted and timed out. -/
def giveUp (s : State) (r : Nat) : State :=
  { s with
    mpReadNotifyList := s.mpReadNotifyList.eraseP fun e => e.mpData == r
    call := Function.update s.call r (.returned (.error .eintr))
    usedFreed := s.usedFreed || s.freed }

/-- `AddToReadMemList` and `NotifyAndPopNotifyList` up to its unlock.  The message is dropped when
the entry is gone or there is no memory. -/
def deliver (s : State) (m : ReadMem) (alloc : Bool) : State :=
  if s.listed ∧ alloc then
    match s.mpReadNotifyList.find? (wakes m.mTransactionID) with
    | some e =>
      { s with
        mpList := s.mpList ++ [m]
        mpReadNotifyList := s.mpReadNotifyList.eraseP (wakes m.mTransactionID)
        readCallback := .notified e.mpData }
    | none => { s with mpList := s.mpList ++ [m] }
  else s

def upSem (s : State) (r : Nat) : State :=
  match s.call r with
  | .waiting t readSem => setCall s r (.waiting t (readSem + 1))
  | .returned _ => { s with uppedReturned := true }
  | _ => s

/-- `ReleaseClientID` from `PopFromURBList` on, to its next unlock; `urb` is whether there is an
URB, and `active` whether a poll waits on `mWaitQueue`. -/
def releaseURBs (s : State) (urb active : Bool) : State :=
  if urb then { s with release := .killing }
  else { s with mpList := [], listed := false, freed := !active, release := .done }

def releaseNotify (s : State) (urb active : Bool) : State :=
  match s.mpReadNotifyList with
  | e :: es => { s with mpReadNotifyList := es, release := .notified e.mpData }
  | [] => releaseURBs s urb active

inductive ReadLabel where
  | call (transactionID : UInt16) (alloc : Bool)
  | down (r : Nat)
  | timeout (r : Nat)
  | giveUp (r : Nat)
  | retry (r : Nat) (alloc : Bool)
  | deliver (m : ReadMem) (alloc : Bool)
  | upSem
  | callbackEnd

def readStep (s : State) : ReadLabel → Option State
  | .call transactionID alloc => some (readSync s transactionID alloc)
  | .down r =>
    match s.call r with
    | .waiting t readSem => if 0 < readSem then some (setCall s r (.woken t)) else none
    | _ => none
  | .timeout r =>
    -- `down_interruptible` and `down_timeout` fail only when nobody has upped the semaphore.
    match s.call r with
    | .waiting t readSem => if readSem = 0 then some (setCall s r (.timedOut t)) else none
    | _ => none
  | .giveUp r =>
    match s.call r with
    | .timedOut _ => some (giveUp s r)
    | _ => none
  | .retry r alloc =>
    match s.call r with
    | .woken t => some (readLoop s r t alloc)
    | _ => none
  | .deliver m alloc => if s.readCallback = .idle then some (deliver s m alloc) else none
  | .upSem =>
    match s.readCallback with
    | .notified r => some { upSem s r with readCallback := .upped }
    | _ => none
  | .callbackEnd =>
    -- `mWaitQueue` and `mpNext` of the entry are used behind the lock that the notification
    -- gave up.
    if s.readCallback = .upped then
      some { s with readCallback := .idle, usedFreed := s.usedFreed || s.freed }
    else none

attribute [grind =] readStep

section Inversion

variable {s t : State} {r : Nat}

theorem of_down (h : readStep s (.down r) = some t) :
    ∃ tid n, s.call r = .waiting tid n ∧ 0 < n ∧ t = setCall s r (.woken tid) := by
  simp only [readStep] at h
  split at h
  next tid n hr =>
    split at h
    next hn => exact ⟨tid, n, hr, hn, (some.inj h).symm⟩
    next => cases h
  next => cases h

theorem of_timeout (h : readStep s (.timeout r) = some t) :
    ∃ tid, s.call r = .waiting tid 0 ∧ t = setCall s r (.timedOut tid) := by
  simp only [readStep] at h
  split at h
  next tid n hr =>
    split at h
    next hn =>
      subst hn
      exact ⟨tid, hr, (some.inj h).symm⟩
    next => cases h
  next => cases h

theorem of_giveUp (h : readStep s (.giveUp r) = some t) :
    ∃ tid, s.call r = .timedOut tid ∧ t = giveUp s r := by
  simp only [readStep] at h
  split at h
  next tid hr => exact ⟨tid, hr, (some.inj h).symm⟩
  next => cases h

theorem of_retry {alloc : Bool} (h : readStep s (.retry r alloc) = some t) :
    ∃ tid, s.call r = .woken tid ∧ t = readLoop s r tid alloc := by
  simp only [readStep] at h
  split at h
  next tid hr => exact ⟨tid, hr, (some.inj h).symm⟩
  next => cases h

theorem of_deliver {m : ReadMem} {alloc : Bool} (h : readStep s (.deliver m alloc) = some t) :
    s.readCallback = .idle ∧ t = deliver s m alloc := by
  simp only [readStep] at h
  split at h
  next hcb => exact ⟨hcb, (some.inj h).symm⟩
  next => cases h

theorem of_upSem (h : readStep s .upSem = some t) :
    ∃ r, s.readCallback = .notified r ∧ t = { upSem s r with readCallback := .upped } := by
  simp only [readStep] at h
  split at h
  next r hcb => exact ⟨r, hcb, (some.inj h).symm⟩
  next => cases h

theorem of_callbackEnd (h : readStep s .callbackEnd = some t) :
    s.readCallback = .upped ∧
      t = { s with readCallback := .idle, usedFreed := s.usedFreed || s.freed } := by
  simp only [readStep] at h
  split at h
  next hcb => exact ⟨hcb, (some.inj h).symm⟩
  next => cases h

end Inversion

/-- The steps of `ReadSync`, `ReadCallback` and of one `ReleaseClientID`. -/
inductive Label where
  | read (l : ReadLabel)
  | release (urb active : Bool)
  | releaseUp
  | releaseLock (urb active : Bool)

def step (s : State) : Label → Option State
  | .read l => readStep s l
  | .release urb active =>
    if s.release = .idle then some (releaseNotify s urb active) else none
  | .releaseUp =>
    match s.release with
    | .notified r => some { upSem s r with release := .upped }
    | _ => none
  | .releaseLock urb active =>
    match s.release with
    | .upped => some (releaseNotify s urb active)
    | .killing => some (releaseURBs s urb active)
    | _ => none

section Inversion

variable {s t : State} {urb active : Bool}

theorem of_release (h : step s (.release urb active) = some t) :
    s.release = .idle ∧ t = releaseNotify s urb active := by
  simp only [step] at h
  split at h
  next hidle => exact ⟨hidle, (some.inj h).symm⟩
  next => cases h

theorem of_releaseUp (h : step s .releaseUp = some t) :
    ∃ r, s.release = .notified r ∧ t = { upSem s r with release := .upped } := by
  simp only [step] at h
  split at h
  next r hr => exact ⟨r, hr, (some.inj h).symm⟩
  next => cases h

theorem of_releaseLock (h : step s (.releaseLock urb active) = some t) :
    (s.release = .upped ∧ t = releaseNotify s urb active) ∨
      (s.release = .killing ∧ t = releaseURBs s urb active) := by
  simp only [step] at h
  split at h
  next hr => exact Or.inl ⟨hr, (some.inj h).symm⟩
  next hr => exact Or.inr ⟨hr, (some.inj h).symm⟩
  next => cases h

end Inversion

end ModemSupport.Gobi.ReadSync
