import ModemSupport.Lib.Count
import ModemSupport.Power.Pms

/-! The counts of the power manager over the life of its sources.  Every call keeps the counts in
step with the sources that are there, except the one that destroys a source still awake or
active. -/

namespace ModemSupport.Power.Life

open Function Lib

def one (b : Bool) : Nat := if b then 1 else 0

/-- A call moves the counts of the power manager by what it changes at its source. -/
structure Balanced (mpm : Mpm) (pms : Pms) (mpm' : Mpm) (pms' : Pms) : Prop where
  wakelock : mpm'.wakelockCnt + one pms.awake = mpm.wakelockCnt + one pms'.awake
  up : mpm'.upCnt + one (0 < pms.activeCnt) = mpm.upCnt + one (0 < pms'.activeCnt)
  ws : mpm.WsOk → one pms.awake ≤ mpm.wakelockCnt → mpm'.WsOk

section

variable {mpm mpm' mpm'' : Mpm} {pms pms' pms'' : Pms}

theorem Balanced.trans (h : Balanced mpm pms mpm' pms') (h' : Balanced mpm' pms' mpm'' pms'') :
    Balanced mpm pms mpm'' pms'' where
  wakelock := by
    have h1 := h.wakelock
    have h2 := h'.wakelock
    omega
  up := by
    have h1 := h.up
    have h2 := h'.up
    omega
  ws hws hle := by
    have h1 := h.wakelock
    exact h'.ws (h.ws hws hle) (by omega)

end

def awake (pms : Option Pms) : Bool := pms.any Pms.awake

def active (pms : Option Pms) : Bool := pms.any fun pms => decide (0 < pms.activeCnt)

set_option linter.unusedSectionVars false

variable {ι : Type} [DecidableEq ι] [Fintype ι]

/-- The counts and the wakeup source fit the sources that are there. -/
structure Exact (s : State ι) : Prop where
  ws : s.mpm.wsActive = true ↔ ∃ p, awake (s.pms p) = true
  wakelock : s.mpm.wakelockCnt = count fun p => awake (s.pms p) = true
  up : s.mpm.upCnt = count fun p => active (s.pms p) = true
  destroyed : (∀ p, s.pms p = none) → s.mpm.wakelockCnt = 0 ∧ s.mpm.upCnt = 0

/-- A source that is destroyed is neither awake nor active. -/
def Clean (s : State ι) : Op ι → Prop
  | .destroy p => awake (s.pms p) = false ∧ active (s.pms p) = false
  | _ => True

variable {s t : State ι}

theorem exact_of_counts (hws : s.mpm.WsOk)
    (hwakelock : s.mpm.wakelockCnt = count fun p => awake (s.pms p) = true)
    (hup : s.mpm.upCnt = count fun p => active (s.pms p) = true) : Exact s where
  ws := by
    rw [← count_pos_iff, ← Int.natCast_pos, ← hwakelock]
    exact hws
  wakelock := hwakelock
  up := hup
  destroyed hnone := by
    rw [hwakelock, hup]
    simp [hnone, awake, active, count]

theorem Exact.wsOk (h : Exact s) : s.mpm.WsOk := by
  unfold Mpm.WsOk
  rw [h.ws, h.wakelock, Int.natCast_pos, count_pos_iff]

theorem Exact.update (h : Exact s) {p : ι} {pms : Option Pms} {mpm : Mpm}
    (hws : mpm.WsOk)
    (hwakelock : mpm.wakelockCnt + one (awake (s.pms p)) = s.mpm.wakelockCnt + one (awake pms))
    (hup : mpm.upCnt + one (active (s.pms p)) = s.mpm.upCnt + one (active pms)) :
    Exact ⟨mpm, Function.update s.pms p pms⟩ := by
  have hawake := count_update s.pms p pms fun pms => awake pms = true
  have hactive := count_update s.pms p pms fun pms => active pms = true
  have hwl := h.wakelock
  have hu := h.up
  unfold one at hwakelock hup
  refine exact_of_counts hws ?_ ?_
  · dsimp only
    omega
  · dsimp only
    omega

theorem Exact.one_le (h : Exact s) (p : ι) : one (awake (s.pms p)) ≤ s.mpm.wakelockCnt := by
  unfold one
  split
  next hp =>
    have hpos : 0 < count fun p => awake (s.pms p) = true := count_pos_iff.mpr ⟨p, hp⟩
    have := h.wakelock
    omega
  next =>
    have := h.wakelock
    omega

theorem Exact.call (h : Exact s) {p : ι} {f : Mpm → Pms → Mpm × Pms}
    (hcall : s.call p f = some t)
    (hf : ∀ pms, Balanced s.mpm pms (f s.mpm pms).1 (f s.mpm pms).2) : Exact t := by
  obtain ⟨pms, hp, rfl⟩ := Option.map_eq_some_iff.mp hcall
  have hbalanced := hf pms
  have hle := h.one_le p
  rw [hp] at hle
  refine h.update (hbalanced.ws h.wsOk hle) ?_ ?_
  · rw [hp]
    exact hbalanced.wakelock
  · rw [hp]
    exact hbalanced.up

end ModemSupport.Power.Life
