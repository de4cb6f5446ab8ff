import ModemSupport.Power.Mpm
import ModemSupport.Lib.Transition
import Mathlib.Algebra.Group.Nat.Defs

/-! Power manager sources over their life (`power_manager.c`), the calls executed one at a time. -/

namespace ModemSupport.Power

open Function Lib

/-- The critical section of `sprd_pms_do_up_multi`: the new `active_cnt`, and `active`. -/
def sprdPmsDoUpMulti (activeCnt : Nat) : Nat × Bool := (activeCnt + 1, activeCnt + 1 == 1)

/-- The critical section of `sprd_pms_do_down_multi`: the new `active_cnt`, and `deactive`. -/
def sprdPmsDoDownMulti (activeCnt : Nat) : Nat × Bool :=
  if 0 < activeCnt then (activeCnt - 1, activeCnt - 1 == 0) else (activeCnt, false)

/-- A power manager source (`struct sprd_pms`); `timerPending` says that `wake_timer` is armed. -/
structure Pms where
  multitask : Bool
  awake : Bool
  activeCnt : Nat
  expires : UInt64
  timerPending : Bool

def Pms.zero (multitask : Bool) : Pms := ⟨multitask, false, 0, 0, false⟩

namespace Life

def sprdPmsDoUp (mpm : Mpm) (pms : Pms) : Mpm × Pms :=
  if pms.multitask then
    let (activeCnt, active) := sprdPmsDoUpMulti pms.activeCnt
    (if active then sprdMpmUp mpm else mpm, { pms with activeCnt := activeCnt })
  else
    let pms := { pms with activeCnt := pms.activeCnt + 1 }
    (if pms.activeCnt = 1 then sprdMpmUp mpm else mpm, pms)

def sprdPmsDoDown (mpm : Mpm) (pms : Pms) (immediately : Bool) (later : UInt64) : Mpm × Pms :=
  if pms.multitask then
    let (activeCnt, deactive) := sprdPmsDoDownMulti pms.activeCnt
    (if deactive then sprdMpmDown mpm immediately later else mpm,
     { pms with activeCnt := activeCnt })
  else if 0 < pms.activeCnt then
    let pms := { pms with activeCnt := pms.activeCnt - 1 }
    (if pms.activeCnt = 0 then sprdMpmDown mpm immediately later else mpm, pms)
  else (mpm, pms)

def sprdPmsStayAwake (mpm : Mpm) (pms : Pms) : Mpm × Pms :=
  if pms.awake then (mpm, pms) else (sprdMpmStayAwake mpm, { pms with awake := true })

def sprdPmsRelax (mpm : Mpm) (pms : Pms) : Mpm × Pms :=
  if pms.awake then (sprdMpmRelax mpm, { pms with awake := false }) else (mpm, pms)

def sprdPmsCancelTimer (pms : Pms) : Pms :=
  if pms.expires ≠ 0 then { pms with expires := 0, timerPending := false } else pms

def timeAfterEq (a b : UInt64) : Bool := decide ((a - b).toNat < 2 ^ 63)

/-- `sprd_pms_relax_wakelock_timer`, which runs once the timer is no longer armed. -/
def sprdPmsRelaxWakelockTimer (mpm : Mpm) (pms : Pms) (jiffies : UInt64) : Mpm × Pms :=
  if pms.expires ≠ 0 ∧ timeAfterEq jiffies pms.expires then
    sprdPmsRelax mpm { pms with expires := 0 }
  else (mpm, pms)

/-- `sprd_pms_request_resource`, where `ret` is what the callback `wait_resource` returns. -/
def sprdPmsRequestResource (mpm : Mpm) (pms : Pms) (ret : Int) (later : UInt64) : Mpm × Pms :=
  let (mpm, pms) := sprdPmsDoUp mpm pms
  let ret := if mpm.resourceOps then ret else 0
  if ret ≠ 0 then sprdPmsDoDown mpm pms false later else (mpm, pms)

def sprdPmsReleaseResource (mpm : Mpm) (pms : Pms) (later : UInt64) : Mpm × Pms :=
  sprdPmsDoDown mpm pms false later

def sprdPmsRequestWakelock (mpm : Mpm) (pms : Pms) : Mpm × Pms :=
  sprdPmsStayAwake mpm (sprdPmsCancelTimer pms)

def sprdPmsReleaseWakelock (mpm : Mpm) (pms : Pms) : Mpm × Pms :=
  sprdPmsRelax mpm (sprdPmsCancelTimer pms)

/-- `sprd_pms_release_wakelock_later`, where `expires` is `jiffies + msecs_to_jiffies(msec)`. -/
def sprdPmsReleaseWakelockLater (mpm : Mpm) (pms : Pms) (expires : UInt64) : Mpm × Pms :=
  (mpm, { pms with expires := if expires = 0 then 1 else expires, timerPending := true })

def sprdPmsRequestWakelockPeriod (mpm : Mpm) (pms : Pms) (expires : UInt64) : Mpm × Pms :=
  let (mpm, pms) := sprdPmsRequestWakelock mpm pms
  sprdPmsReleaseWakelockLater mpm pms expires

/-- The power manager, and the sources at the addresses `ι`; those that are there are on
`pms_list`. -/
structure State (ι : Type) where
  mpm : Mpm
  pms : ι → Option Pms

inductive Op (ι : Type) where
  | create (p : ι) (multitask : Bool)
  | requestResource (p : ι) (ret : Int) (later : UInt64)
  | releaseResource (p : ι) (later : UInt64)
  | requestWakelock (p : ι)
  | releaseWakelock (p : ι)
  | requestWakelockPeriod (p : ι) (expires : UInt64)
  | releaseWakelockLater (p : ι) (expires : UInt64)
  | wakeTimer (p : ι) (jiffies : UInt64)
  | idleTimer
  | destroy (p : ι)

variable {ι : Type} [DecidableEq ι]

/-- A power manager as `sprd_mpm_create` leaves it, with the callbacks set or not. -/
def State.init (laterIdle : UInt32) (resourceOps : Bool) : State ι where
  mpm := { sprdMpmCreate laterIdle with resourceOps := resourceOps }
  pms _ := none

def State.call (s : State ι) (p : ι) (f : Mpm → Pms → Mpm × Pms) : Option (State ι) :=
  (s.pms p).map fun pms =>
    ⟨(f s.mpm pms).1, update s.pms p (some (f s.mpm pms).2)⟩

def step (s : State ι) : Op ι → Option (State ι)
  | .create p multitask =>
    match s.pms p with
    | none => some { s with pms := update s.pms p (some (.zero multitask)) }
    | some _ => none
  | .requestResource p ret later => s.call p fun mpm pms => sprdPmsRequestResource mpm pms ret later
  | .releaseResource p later => s.call p fun mpm pms => sprdPmsReleaseResource mpm pms later
  | .requestWakelock p => s.call p sprdPmsRequestWakelock
  | .releaseWakelock p => s.call p sprdPmsReleaseWakelock
  | .requestWakelockPeriod p expires =>
    s.call p fun mpm pms => sprdPmsRequestWakelockPeriod mpm pms expires
  | .releaseWakelockLater p expires =>
    s.call p fun mpm pms => sprdPmsReleaseWakelockLater mpm pms expires
  | .wakeTimer p jiffies =>
    if (s.pms p).any Pms.timerPending then
      s.call p fun mpm pms =>
        sprdPmsRelaxWakelockTimer mpm { pms with timerPending := false } jiffies
    else none
  | .idleTimer =>
    if s.mpm.timerPending then
      some { s with mpm := sprdMpmDeactiveTimerFn { s.mpm with timerPending := false } }
    else none
  | .destroy p =>
    match s.pms p with
    -- `sprd_pms_destroy` stops the timer and takes the source off the list, and nothing else
    | some _ => some { s with pms := update s.pms p none }
    | none => none

end Life

end ModemSupport.Power
