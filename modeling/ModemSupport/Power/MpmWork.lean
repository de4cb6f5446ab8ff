import ModemSupport.Lib.Transition
import ModemSupport.Power.Mpm
import Mathlib.Data.List.Basic

/-! The deferred work of the power manager.  A change of the state only queues a work item, and an
item that is pending keeps its place, so what is executed last is the item at the end of the queue,
whatever was asked for last. -/

namespace ModemSupport.Power.Deferred

open Lib

/-- The power manager, the idle callbacks that have started, the work item that runs, the last
callback executed, and whether the state has been busy. -/
structure State where
  mpm : Mpm
  timerRuns : Nat
  running : Option Work
  last : Option Work
  wasBusy : Bool

def State.init (laterIdle : UInt32) : State where
  mpm := sprdMpmInitResourceOps (sprdMpmCreate laterIdle)
  timerRuns := 0
  running := none
  last := none
  wasBusy := false

inductive Op where
  | up
  | down (immediately : Bool) (later : UInt64)
  | timerFire
  | timerFn
  /-- The work queue takes its oldest item, which is no longer pending. -/
  | workStart
  /-- `sprd_mpm_request_res_work_fn` or `sprd_mpm_release_res_work_fn` has called its callback. -/
  | workFinish

def State.setMpm (s : State) (mpm : Mpm) : State :=
  { s with mpm := mpm, wasBusy := s.wasBusy || mpm.mpmState == .busy }

def step (s : State) : Op → Option State
  | .up => some (s.setMpm (sprdMpmUp s.mpm))
  | .down immediately later => some (s.setMpm (sprdMpmDown s.mpm immediately later))
  | .timerFire =>
    if s.mpm.timerPending then
      some { s.setMpm { s.mpm with timerPending := false } with timerRuns := s.timerRuns + 1 }
    else none
  | .timerFn =>
    if 0 < s.timerRuns then
      some { s.setMpm (sprdMpmDeactiveTimerFn s.mpm) with timerRuns := s.timerRuns - 1 }
    else none
  | .workStart =>
    match s.running, s.mpm.queue with
    | none, work :: queue =>
      some { s with mpm := { s.mpm with queue := queue }, running := some work }
    | _, _ => none
  | .workFinish =>
    match s.running with
    | some work => some { s with running := none, last := some work }
    | none => none

/-- With no work item pending or running, the last callback executed fits the state. -/
def Converged (s : State) : Prop :=
  s.mpm.queue = [] → s.running = none →
    (s.mpm.mpmState = .busy → s.last = some .requestRes) ∧
      (s.mpm.mpmState = .idle → s.wasBusy = true → s.last = some .releaseRes)

def Work.target : Work → MpmState
  | .requestRes => .busy
  | .releaseRes => .idle

def scheduled (mpm : Mpm) : Op → Option Work
  | .up => if mpm.upCnt = 0 ∧ mpm.mpmState = .idle then some .requestRes else none
  | .down immediately _ =>
    if mpm.upCnt = 1 ∧ (mpm.laterIdle = 0 ∨ immediately = true) then some .releaseRes else none
  | .timerFn => if mpm.expires ≠ 0 then some .releaseRes else none
  | _ => none

/-- The work item that the call schedules is pending with the other one behind it. -/
def Overtaken (s : State) (op : Op) : Prop :=
  ∃ work, scheduled s.mpm op = some work ∧ work ∈ s.mpm.queue ∧ s.mpm.queue.getLast? ≠ some work

/-- What a call makes of a power manager with this queue and state: it schedules a work item and
enters the state the item is for, or keeps queue and state. -/
inductive Effect (queue : List Work) (state : MpmState) : Option Work → Mpm → Prop
  | flip {mpm : Mpm} {work : Work} (hqueue : mpm.queue = scheduleWork queue work)
      (hstate : mpm.mpmState = Work.target work) (hops : mpm.resourceOps = true) :
      Effect queue state (some work) mpm
  | keep {mpm : Mpm} (hqueue : mpm.queue = queue) (hstate : mpm.mpmState = state)
      (hops : mpm.resourceOps = true) : Effect queue state none mpm

section

variable (mpm : Mpm)

theorem active_effect (hops : mpm.resourceOps = true) :
    Effect mpm.queue mpm.mpmState (some .requestRes) (sprdMpmActive mpm) := by
  unfold sprdMpmActive sprdMpmRequestResource
  rw [if_pos hops]
  exact .flip rfl rfl hops

theorem deactive_effect (hops : mpm.resourceOps = true) :
    Effect mpm.queue mpm.mpmState (some .releaseRes) (sprdMpmDeactive mpm) := by
  unfold sprdMpmDeactive sprdMpmReleaseResource
  rw [if_pos hops]
  exact .flip rfl rfl hops

theorem cancelTimer_effect (hops : mpm.resourceOps = true) :
    Effect mpm.queue mpm.mpmState none (sprdMpmCancelTimer mpm) := by
  unfold sprdMpmCancelTimer
  split
  · exact .keep rfl rfl hops
  · exact .keep rfl rfl hops

theorem up_effect (hops : mpm.resourceOps = true) :
    Effect mpm.queue mpm.mpmState (scheduled mpm .up) (sprdMpmUp mpm) := by
  cases cancelTimer_effect mpm hops with
  | keep hqueue hstate hops' =>
    unfold sprdMpmUp scheduled
    dsimp only
    by_cases hfirst : mpm.upCnt = 0 ∧ mpm.mpmState = .idle
    · have hactive := active_effect
        { sprdMpmCancelTimer mpm with upCnt := (sprdMpmCancelTimer mpm).upCnt + 1 } hops'
      rw [if_pos hfirst, if_pos ⟨by simp [hfirst.1], by simp [hfirst.2]⟩]
      rwa [hqueue, hstate] at hactive
    · rw [if_neg hfirst, if_neg]
      · exact .keep hqueue hstate hops'
      · rintro ⟨hup, hidle⟩
        rw [sprdMpmCancelTimer_upCnt] at hup
        exact hfirst ⟨by omega, by simpa using hidle⟩

theorem down_effect (hops : mpm.resourceOps = true) (immediately : Bool) (later : UInt64) :
    Effect mpm.queue mpm.mpmState (scheduled mpm (.down immediately later))
      (sprdMpmDown mpm immediately later) := by
  unfold sprdMpmDown scheduled
  dsimp only
  by_cases hlast : mpm.upCnt = 1
  · rw [if_pos (show mpm.upCnt - 1 = 0 by omega)]
    by_cases hnow : mpm.laterIdle = 0 ∨ immediately = true
    · have hdeactive := deactive_effect { mpm with upCnt := mpm.upCnt - 1 } hops
      rw [if_pos ⟨hlast, hnow⟩, if_neg (by rcases hnow with h | h <;> simp [h])]
      exact hdeactive
    · rw [if_neg (fun h => hnow h.2), if_pos (by simpa using hnow)]
      exact .keep rfl rfl hops
  · rw [if_neg (show ¬mpm.upCnt - 1 = 0 by omega), if_neg (fun h => hlast h.1)]
    exact .keep rfl rfl hops

theorem timerFn_effect (hops : mpm.resourceOps = true) :
    Effect mpm.queue mpm.mpmState (scheduled mpm .timerFn) (sprdMpmDeactiveTimerFn mpm) := by
  unfold sprdMpmDeactiveTimerFn scheduled
  dsimp only
  by_cases hexpires : mpm.expires ≠ 0
  · rw [if_pos hexpires, if_pos hexpires]
    exact deactive_effect mpm hops
  · rw [if_neg hexpires, if_neg hexpires]
    exact .keep rfl rfl hops

end

/-- The steps: a call, or a step of the work queue. -/
inductive Move (s : State) (op : Op) : State → Prop
  | call {mpm : Mpm} {runs : Nat}
      (heffect : Effect s.mpm.queue s.mpm.mpmState (scheduled s.mpm op) mpm) :
      Move s op ⟨mpm, runs, s.running, s.last, s.wasBusy || mpm.mpmState == .busy⟩
  | start {work : Work} {queue : List Work} (hop : op = .workStart) (hrun : s.running = none)
      (hqueue : s.mpm.queue = work :: queue) :
      Move s op { s with mpm := { s.mpm with queue := queue }, running := some work }
  | finish {work : Work} (hop : op = .workFinish) (hrun : s.running = some work) :
      Move s op { s with running := none, last := some work }

variable {s t : State} {op : Op}

theorem step_move (hops : s.mpm.resourceOps = true) (hstep : step s op = some t) : Move s op t := by
  unfold step at hstep
  split at hstep
  next =>
    cases hstep
    exact .call (up_effect _ hops)
  next immediately later =>
    cases hstep
    exact .call (down_effect _ hops immediately later)
  next =>
    split at hstep
    next =>
      cases hstep
      exact .call (.keep rfl rfl hops)
    next => cases hstep
  next =>
    split at hstep
    next =>
      cases hstep
      exact .call (timerFn_effect _ hops)
    next => cases hstep
  next =>
    split at hstep
    next work queue hrun hqueue =>
      cases hstep
      exact .start rfl hrun hqueue
    next => cases hstep
  next =>
    split at hstep
    next work hrun =>
      cases hstep
      exact .finish rfl hrun
    next => cases hstep

/-- The callback executed last once the work queue has run empty. -/
def State.eventual (s : State) : Option Work := s.mpm.queue.getLast?.or (s.running.or s.last)

theorem getLast?_scheduleWork {queue : List Work} {work : Work}
    (h : work ∈ queue → queue.getLast? = some work) :
    (scheduleWork queue work).getLast? = some work := by
  unfold scheduleWork
  split
  next hmem => exact h hmem
  next => simp

/-- What holds in every run: a request that was scheduled comes from a busy state. -/
structure Base (s : State) : Prop where
  ops : s.mpm.resourceOps = true
  wasBusy : s.mpm.mpmState = .busy ∨ .requestRes ∈ s.mpm.queue → s.wasBusy = true

structure Fits (s : State) : Prop where
  busy : s.mpm.mpmState = .busy → s.eventual = some .requestRes
  idle : s.mpm.mpmState = .idle → s.wasBusy = true → s.eventual = some .releaseRes

theorem base_init (laterIdle : UInt32) : Base (.init laterIdle) :=
  ⟨rfl, fun h => by rcases h with h | h <;> cases h⟩

theorem base_step (h : Base s) (hstep : step s op = some t) : Base t := by
  have hmove := step_move h.ops hstep
  cases hmove with
  | @call mpm runs heffect =>
    generalize scheduled s.mpm op = item at heffect
    cases heffect with
    | @flip _ work hqueue hstate hops =>
      refine ⟨hops, fun hbusy => ?_⟩
      cases work with
      | requestRes => simp [hstate, Work.target]
      | releaseRes =>
        rcases hbusy with hbusy | hmem
        · exact absurd (hstate.symm.trans hbusy) (by decide)
        · have hold : Work.requestRes ∈ s.mpm.queue := by
            rw [hqueue] at hmem
            unfold scheduleWork at hmem
            split at hmem
            · exact hmem
            · simpa using hmem
          simp [h.wasBusy (.inr hold)]
    | keep hqueue hstate hops =>
      refine ⟨hops, fun hbusy => ?_⟩
      rw [hstate, hqueue] at hbusy
      simp [h.wasBusy hbusy]
  | start hop hrun hqueue =>
    refine ⟨h.ops, fun hbusy => h.wasBusy (hbusy.imp id fun hmem => ?_)⟩
    rw [hqueue]
    exact List.mem_cons_of_mem _ hmem
  | finish hop hrun => exact ⟨h.ops, h.wasBusy⟩

theorem fits_init (laterIdle : UInt32) : Fits (.init laterIdle) :=
  ⟨fun h => (by cases h), fun _ h => (by cases h)⟩

theorem fits_step (hbase : Base s) (h : Fits s) (hop : ¬Overtaken s op)
    (hstep : step s op = some t) : Fits t := by
  have hmove := step_move hbase.ops hstep
  cases hmove with
  | @call mpm runs heffect =>
    unfold Overtaken at hop
    generalize scheduled s.mpm op = item at heffect hop
    cases heffect with
    | @flip _ work hqueue hstate hops =>
      have hlast : mpm.queue.getLast? = some work := by
        rw [hqueue]
        refine getLast?_scheduleWork fun hmem => ?_
        by_contra hne
        exact hop ⟨work, rfl, hmem, hne⟩
      cases work with
      | requestRes =>
        refine ⟨fun _ => by simp [State.eventual, hlast], fun hidle => ?_⟩
        exact absurd (hstate.symm.trans hidle) (by decide)
      | releaseRes =>
        refine ⟨fun hbusy => ?_, fun _ _ => by simp [State.eventual, hlast]⟩
        exact absurd (hstate.symm.trans hbusy) (by decide)
    | keep hqueue hstate hops =>
      have heventual : State.eventual ⟨mpm, runs, s.running, s.last,
          s.wasBusy || mpm.mpmState == .busy⟩ = s.eventual := by
        simp only [State.eventual, hqueue]
      refine ⟨fun hbusy => ?_, fun hidle hwas => ?_⟩
      · rw [heventual]
        exact h.busy (hstate.symm.trans hbusy)
      · rw [heventual]
        have hidle' : mpm.mpmState = .idle := hidle
        simp only [hidle', Bool.or_eq_true] at hwas
        exact h.idle (hstate.symm.trans hidle) (hwas.resolve_right (by decide))
  | @start work queue hop hrun hqueue =>
    have heventual : State.eventual { s with
        mpm := { s.mpm with queue := queue }, running := some work } = s.eventual := by
      simp only [State.eventual, hrun, hqueue, List.getLast?_cons]
      cases queue.getLast? <;> rfl
    exact ⟨fun hbusy => heventual.trans (h.busy hbusy),
      fun hidle hwas => heventual.trans (h.idle hidle hwas)⟩
  | @finish work hop hrun =>
    have heventual : State.eventual { s with running := none, last := some work } = s.eventual := by
      simp [State.eventual, hrun]
    exact ⟨fun hbusy => heventual.trans (h.busy hbusy),
      fun hidle hwas => heventual.trans (h.idle hidle hwas)⟩

theorem Fits.converged (h : Fits s) : Converged s := by
  intro hqueue hrun
  have heventual : s.eventual = s.last := by simp [State.eventual, hqueue, hrun]
  rw [← heventual]
  exact ⟨h.busy, h.idle⟩

def WorkOp (_ : State) (op : Op) : Prop := op = .workStart ∨ op = .workFinish

theorem drain_of_idle (queue : List Work) (s : State) (hrun : s.running = none)
    (hqueue : s.mpm.queue = queue) :
    ∃ t, Transition.Reaches step WorkOp s t ∧ t.mpm.queue = [] ∧ t.running = none ∧
      t.last = s.eventual ∧ t.mpm.mpmState = s.mpm.mpmState ∧ t.wasBusy = s.wasBusy := by
  induction queue generalizing s with
  | nil => exact ⟨s, .start, hqueue, hrun, by simp [State.eventual, hqueue, hrun], rfl, rfl⟩
  | cons work rest ih =>
    let started : State := { s with mpm := { s.mpm with queue := rest }, running := some work }
    let finished : State := { started with running := none, last := some work }
    have hstart : step s .workStart = some started := by simp [step, hrun, hqueue, started]
    have hfinish : step started .workFinish = some finished := rfl
    obtain ⟨t, hreaches, hempty, hnone, hlast, hstate, hwas⟩ := ih finished rfl rfl
    refine ⟨t, ((Transition.Reaches.single (.inl rfl) hstart).trans
      (.single (.inr rfl) hfinish)).trans hreaches, hempty, hnone, ?_, hstate, hwas⟩
    rw [hlast]
    simp only [State.eventual, hqueue, hrun, List.getLast?_cons, finished, started]
    cases rest.getLast? <;> rfl

theorem drain (s : State) :
    ∃ t, Transition.Reaches step WorkOp s t ∧ t.mpm.queue = [] ∧ t.running = none ∧
      t.last = s.eventual ∧ t.mpm.mpmState = s.mpm.mpmState ∧ t.wasBusy = s.wasBusy := by
  cases hrun : s.running with
  | none => exact drain_of_idle _ s hrun rfl
  | some work =>
    let finished : State := { s with running := none, last := some work }
    have hfinish : step s .workFinish = some finished := by simp [step, hrun, finished]
    obtain ⟨t, hreaches, hempty, hnone, hlast, hrest⟩ := drain_of_idle _ finished rfl rfl
    refine ⟨t, (Transition.Reaches.single (.inr rfl) hfinish).trans hreaches, hempty, hnone, ?_,
      hrest⟩
    rw [hlast]
    simp [State.eventual, finished, hrun]

/-- After a call whose work item is overtaken, the queue runs empty with the wrong callback last. -/
theorem Overtaken.not_converged (hbase : Base s) (hop : Overtaken s op)
    (hstep : step s op = some t) : ∃ u, Transition.Reaches step WorkOp t u ∧ ¬Converged u := by
  obtain ⟨work, hscheduled, hmem, hlast⟩ := hop
  obtain ⟨u, hreaches, hempty, hnone, hu, hstate, hwas⟩ := drain t
  refine ⟨u, hreaches, fun hconverged => ?_⟩
  have hbase' := base_step hbase hstep
  have hmove := step_move hbase.ops hstep
  cases hmove with
  | @call mpm runs heffect =>
    rw [hscheduled] at heffect
    cases heffect with
    | flip hqueue hstate' hops =>
      have hsame : mpm.queue = s.mpm.queue := by
        rw [hqueue]
        exact if_pos hmem
      obtain ⟨last, hlast'⟩ : ∃ last, s.mpm.queue.getLast? = some last :=
        Option.isSome_iff_exists.mp (by
          rw [List.getLast?_isSome]
          exact List.ne_nil_of_mem hmem)
      have heventual : u.last = some last := by
        rw [hu]
        simp [State.eventual, hsame, hlast']
      have hne : last ≠ work := fun he => hlast (by rw [hlast', he])
      have hfit := hconverged hempty hnone
      rw [hstate, hwas, heventual] at hfit
      cases work with
      | requestRes => exact hne (Option.some.inj (hfit.1 hstate'))
      | releaseRes =>
        have hrequest : last = .requestRes := by
          cases last with
          | requestRes => rfl
          | releaseRes => exact absurd rfl hne
        have hmem' : Work.requestRes ∈ mpm.queue := by
          rw [hsame, ← hrequest]
          exact List.mem_of_getLast? hlast'
        exact hne (Option.some.inj (hfit.2 hstate' (hbase'.wasBusy (.inr hmem'))))
  | start hop hrun hqueue =>
    rw [hop] at hscheduled
    cases hscheduled
  | finish hop hrun =>
    rw [hop] at hscheduled
    cases hscheduled

/-- In every run in which no call finds its work item pending with the other one behind it, the last
callback executed fits the state whenever no item is pending or running; and after a call that does,
the work items alone lead to a state where it does not. -/
theorem converged_of_run (laterIdle : UInt32) :
    (∀ s, Transition.Reaches step (fun s op => ¬Overtaken s op) (.init laterIdle) s → Converged s) ∧
    ∀ s op t, Transition.Reachable step (.init laterIdle) s → step s op = some t → Overtaken s op →
      ∃ u, Transition.Reaches step WorkOp t u ∧ ¬Converged u := by
  constructor
  · intro s hreaches
    have hinv := hreaches.invariant (P := fun s => Base s ∧ Fits s)
      ⟨base_init laterIdle, fits_init laterIdle⟩ fun _ _ _ hinv hop hstep =>
        ⟨base_step hinv.1 hstep, fits_step hinv.1 hinv.2 hop hstep⟩
    exact hinv.2.converged
  · intro s op t hreaches hstep hop
    have hbase := hreaches.invariant (base_init laterIdle) fun _ _ _ hinv _ hstep =>
      base_step hinv hstep
    exact hop.not_converged hbase hstep

def flipRun : List Op :=
  [.up, .down true 0, .up, .workStart, .workFinish, .workStart, .workFinish]

instance (s : State) : Decidable (Converged s) := inferInstanceAs (Decidable (_ → _ → _))

/-- The second request is lost behind the pending release: the state is busy, nothing is pending,
and the last callback executed is the release. -/
theorem not_converged_flipRun :
    ∃ s, Transition.Reachable step (.init 0) s ∧
      (s.mpm.queue = [] ∧ s.running = none ∧ s.mpm.mpmState = .busy ∧ s.last = some .releaseRes) ∧
      ¬Converged s := by
  have hrun : ((Transition.run (Transition.guarded step fun _ _ => True) (.init 0) flipRun).any
      fun s =>
      decide ((s.mpm.queue = [] ∧ s.running = none ∧ s.mpm.mpmState = .busy ∧
        s.last = some .releaseRes) ∧ ¬Converged s)) = true := by
    decide
  exact Transition.exists_of_run flipRun hrun

end ModemSupport.Power.Deferred
