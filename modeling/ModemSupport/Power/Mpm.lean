import Mathlib.Tactic.Push

/-! The modem power manager of one remote processor (`power_manager.c`): its counts, its state, the
idle timer and the two work items that request and release the resource.  Every function here is one
critical section of `mpm_lock`. -/

namespace ModemSupport.Power

inductive MpmState where
  | idle
  | busy
  deriving DecidableEq

inductive Work where
  | requestRes
  | releaseRes
  deriving DecidableEq

/-- The power manager (`struct sprd_mpm_data`).  `wsActive` says that the system wakeup source is
held, `timerPending` that the idle timer is armed, and `queue` lists the pending work items in the
order of the work queue. -/
structure Mpm where
  upCnt : Int
  wakelockCnt : Int
  wsActive : Bool
  mpmState : MpmState
  expires : UInt64
  timerPending : Bool
  laterIdle : UInt32
  resourceOps : Bool
  queue : List Work

def sprdMpmCreate (laterIdle : UInt32) : Mpm where
  upCnt := 0
  wakelockCnt := 0
  wsActive := false
  mpmState := .idle
  expires := 0
  timerPending := false
  laterIdle := laterIdle
  resourceOps := false
  queue := []

/-- `sprd_mpm_init_resource_ops`, which sets all the callbacks. -/
def sprdMpmInitResourceOps (mpm : Mpm) : Mpm := { mpm with resourceOps := true }

/-- `schedule_work`: an item that is pending stays where it is. -/
def scheduleWork (queue : List Work) (work : Work) : List Work :=
  if work ∈ queue then queue else queue ++ [work]

def sprdMpmRequestResource (mpm : Mpm) : Mpm :=
  if mpm.resourceOps then { mpm with queue := scheduleWork mpm.queue .requestRes } else mpm

def sprdMpmReleaseResource (mpm : Mpm) : Mpm :=
  if mpm.resourceOps then { mpm with queue := scheduleWork mpm.queue .releaseRes } else mpm

def sprdMpmActive (mpm : Mpm) : Mpm := sprdMpmRequestResource { mpm with mpmState := .busy }

def sprdMpmDeactive (mpm : Mpm) : Mpm :=
  sprdMpmReleaseResource { mpm with mpmState := .idle, expires := 0 }

/-- `sprd_mpm_start_deactive`, where `later` is `jiffies + msecs_to_jiffies(later_idle)`. -/
def sprdMpmStartDeactive (mpm : Mpm) (later : UInt64) : Mpm :=
  { mpm with expires := if later = 0 then 1 else later, timerPending := true }

def sprdMpmCancelTimer (mpm : Mpm) : Mpm :=
  if mpm.expires ≠ 0 then { mpm with expires := 0, timerPending := false } else mpm

def sprdMpmDeactiveTimerFn (mpm : Mpm) : Mpm :=
  if mpm.expires ≠ 0 then sprdMpmDeactive mpm else mpm

def sprdMpmUp (mpm : Mpm) : Mpm :=
  let mpm := sprdMpmCancelTimer mpm
  let mpm := { mpm with upCnt := mpm.upCnt + 1 }
  if mpm.upCnt = 1 ∧ mpm.mpmState = .idle then sprdMpmActive mpm else mpm

def sprdMpmDown (mpm : Mpm) (immediately : Bool) (later : UInt64) : Mpm :=
  let mpm := { mpm with upCnt := mpm.upCnt - 1 }
  if mpm.upCnt = 0 then
    if mpm.laterIdle ≠ 0 ∧ !immediately then sprdMpmStartDeactive mpm later else sprdMpmDeactive mpm
  else mpm

def sprdMpmStayAwake (mpm : Mpm) : Mpm :=
  let mpm := { mpm with wakelockCnt := mpm.wakelockCnt + 1 }
  if mpm.wakelockCnt = 1 then { mpm with wsActive := true } else mpm

def sprdMpmRelax (mpm : Mpm) : Mpm :=
  let mpm := { mpm with wakelockCnt := mpm.wakelockCnt - 1 }
  if mpm.wakelockCnt = 0 then { mpm with wsActive := false } else mpm

section

variable (mpm : Mpm) (immediately : Bool) (later : UInt64)

@[simp] theorem sprdMpmActive_upCnt : (sprdMpmActive mpm).upCnt = mpm.upCnt := by
  unfold sprdMpmActive sprdMpmRequestResource
  split <;> rfl

@[simp] theorem sprdMpmActive_mpmState : (sprdMpmActive mpm).mpmState = .busy := by
  unfold sprdMpmActive sprdMpmRequestResource
  split <;> rfl

@[simp] theorem sprdMpmActive_expires : (sprdMpmActive mpm).expires = mpm.expires := by
  unfold sprdMpmActive sprdMpmRequestResource
  split <;> rfl

@[simp] theorem sprdMpmDeactive_upCnt : (sprdMpmDeactive mpm).upCnt = mpm.upCnt := by
  unfold sprdMpmDeactive sprdMpmReleaseResource
  split <;> rfl

@[simp] theorem sprdMpmDeactive_mpmState : (sprdMpmDeactive mpm).mpmState = .idle := by
  unfold sprdMpmDeactive sprdMpmReleaseResource
  split <;> rfl

@[simp] theorem sprdMpmDeactive_expires : (sprdMpmDeactive mpm).expires = 0 := by
  unfold sprdMpmDeactive sprdMpmReleaseResource
  split <;> rfl

@[simp] theorem sprdMpmCancelTimer_upCnt : (sprdMpmCancelTimer mpm).upCnt = mpm.upCnt := by
  unfold sprdMpmCancelTimer
  split <;> rfl

@[simp] theorem sprdMpmCancelTimer_mpmState :
    (sprdMpmCancelTimer mpm).mpmState = mpm.mpmState := by
  unfold sprdMpmCancelTimer
  split <;> rfl

@[simp] theorem sprdMpmCancelTimer_expires : (sprdMpmCancelTimer mpm).expires = 0 := by
  unfold sprdMpmCancelTimer
  split
  next => rfl
  next h => exact not_not.mp h

@[simp] theorem sprdMpmStartDeactive_upCnt :
    (sprdMpmStartDeactive mpm later).upCnt = mpm.upCnt := rfl

@[simp] theorem sprdMpmUp_upCnt : (sprdMpmUp mpm).upCnt = mpm.upCnt + 1 := by
  unfold sprdMpmUp
  dsimp only
  split <;> simp

theorem sprdMpmUp_expires : (sprdMpmUp mpm).expires = 0 := by
  unfold sprdMpmUp
  dsimp only
  split <;> simp

theorem sprdMpmUp_mpmState (h : mpm.upCnt = 0 ∨ mpm.mpmState = .busy) :
    (sprdMpmUp mpm).mpmState = .busy := by
  unfold sprdMpmUp
  dsimp only
  split
  next => simp
  next hno =>
    simp only [sprdMpmCancelTimer_upCnt, sprdMpmCancelTimer_mpmState] at hno ⊢
    cases hstate : mpm.mpmState with
    | busy => rfl
    | idle =>
      rcases h with h | h
      · exact absurd ⟨by omega, hstate⟩ hno
      · exact absurd (hstate.symm.trans h) (by decide)

@[simp] theorem sprdMpmDown_upCnt :
    (sprdMpmDown mpm immediately later).upCnt = mpm.upCnt - 1 := by
  unfold sprdMpmDown
  dsimp only
  split
  next => split <;> simp
  next => rfl

theorem sprdMpmDown_of_ne (h : mpm.upCnt ≠ 1) :
    sprdMpmDown mpm immediately later = { mpm with upCnt := mpm.upCnt - 1 } := by
  unfold sprdMpmDown
  exact if_neg (by dsimp only; omega)

@[simp] theorem sprdMpmDeactiveTimerFn_upCnt :
    (sprdMpmDeactiveTimerFn mpm).upCnt = mpm.upCnt := by
  unfold sprdMpmDeactiveTimerFn
  split <;> simp

end

section

variable (mpm : Mpm) (immediately : Bool) (later : UInt64)

@[simp] theorem sprdMpmStayAwake_wakelockCnt :
    (sprdMpmStayAwake mpm).wakelockCnt = mpm.wakelockCnt + 1 := by
  unfold sprdMpmStayAwake
  dsimp only
  split <;> rfl

@[simp] theorem sprdMpmStayAwake_upCnt : (sprdMpmStayAwake mpm).upCnt = mpm.upCnt := by
  unfold sprdMpmStayAwake
  dsimp only
  split <;> rfl

@[simp] theorem sprdMpmRelax_wakelockCnt :
    (sprdMpmRelax mpm).wakelockCnt = mpm.wakelockCnt - 1 := by
  unfold sprdMpmRelax
  dsimp only
  split <;> rfl

@[simp] theorem sprdMpmRelax_upCnt : (sprdMpmRelax mpm).upCnt = mpm.upCnt := by
  unfold sprdMpmRelax
  dsimp only
  split <;> rfl

end

/-- The wakeup source is held exactly while the count of wakelocks is positive. -/
def Mpm.WsOk (mpm : Mpm) : Prop := mpm.wsActive = true ↔ 0 < mpm.wakelockCnt

/-- The idle timer counts down only while nothing is up, and while something is up the state is
busy. -/
structure Mpm.Ok (mpm : Mpm) : Prop where
  expires : mpm.expires ≠ 0 → mpm.upCnt = 0
  busy : 0 < mpm.upCnt → mpm.mpmState = .busy

namespace Mpm.Ok

variable {mpm : Mpm}

theorem create (laterIdle : UInt32) : (sprdMpmCreate laterIdle).Ok :=
  ⟨fun _ => rfl, fun h => absurd h (by decide : ¬(0 : Int) < 0)⟩

theorem up (h : mpm.Ok) : (sprdMpmUp mpm).Ok where
  expires he := absurd (sprdMpmUp_expires mpm) he
  busy hup := by
    rw [sprdMpmUp_upCnt] at hup
    rcases Int.lt_trichotomy mpm.upCnt 0 with hlt | heq | hgt
    · omega
    · exact sprdMpmUp_mpmState mpm (.inl heq)
    · exact sprdMpmUp_mpmState mpm (.inr (h.busy hgt))

theorem down (h : mpm.Ok) (hup : 0 < mpm.upCnt) (immediately : Bool) (later : UInt64) :
    (sprdMpmDown mpm immediately later).Ok := by
  by_cases hlast : mpm.upCnt = 1
  · have hzero : (sprdMpmDown mpm immediately later).upCnt = 0 := by
      rw [sprdMpmDown_upCnt]
      omega
    exact ⟨fun _ => hzero, fun hpos => by omega⟩
  · rw [sprdMpmDown_of_ne _ _ _ hlast]
    refine ⟨fun he => ?_, fun _ => h.busy hup⟩
    have := h.expires he
    omega

theorem timerFn (h : mpm.Ok) : (sprdMpmDeactiveTimerFn mpm).Ok := by
  unfold sprdMpmDeactiveTimerFn
  split
  next he =>
    -- a callback that finds the timer not cancelled finds nothing up
    refine ⟨fun he' => absurd (sprdMpmDeactive_expires mpm) he', fun hup => ?_⟩
    rw [sprdMpmDeactive_upCnt, h.expires he] at hup
    omega
  next => exact h

end Mpm.Ok

end ModemSupport.Power
