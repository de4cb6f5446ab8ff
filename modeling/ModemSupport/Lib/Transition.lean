import Mathlib.Order.WellFounded

/-! Runs of a labelled transition system given by a partial step function: the states that runs
reach, the invariant rule, and the evaluation of a run on a list of labels. -/

namespace ModemSupport.Lib.Transition

variable {σ ℓ : Type} {step : σ → ℓ → Option σ} {ok ok' : σ → ℓ → Prop} {init s t u : σ}

/-- The states reached from `init` by runs whose every step meets `ok`, a condition on the label
of the step and the state it leaves. -/
inductive Reaches (step : σ → ℓ → Option σ) (ok : σ → ℓ → Prop) (init : σ) : σ → Prop
  | start : Reaches step ok init init
  | next {s t : σ} {l : ℓ} : Reaches step ok init s → ok s l → step s l = some t →
      Reaches step ok init t

abbrev Reachable (step : σ → ℓ → Option σ) (init : σ) : σ → Prop :=
  Reaches step (fun _ _ => True) init

theorem Reaches.mono (h : Reaches step ok init s) (hok : ∀ s l, ok s l → ok' s l) :
    Reaches step ok' init s := by
  induction h with
  | start => exact .start
  | next _ hl hstep ih => exact .next ih (hok _ _ hl) hstep

theorem Reaches.reachable (h : Reaches step ok init s) : Reachable step init s :=
  h.mono fun _ _ _ => trivial

theorem Reaches.trans (h : Reaches step ok init s) (h' : Reaches step ok s t) :
    Reaches step ok init t := by
  induction h' with
  | start => exact h
  | next _ hl hstep ih => exact .next ih hl hstep

/-- A property of the first state that every step of the run preserves holds in every state the
run reaches. -/
theorem Reaches.invariant {P : σ → Prop} (h : Reaches step ok init s) (hinit : P init)
    (hstep : ∀ s l t, P s → ok s l → step s l = some t → P t) : P s := by
  induction h with
  | start => exact hinit
  | next _ hl hs ih => exact hstep _ _ _ ih hl hs

theorem Reaches.single {l : ℓ} (hok : ok s l) (hstep : step s l = some t) :
    Reaches step ok s t :=
  .next .start hok hstep

theorem reachable_single {l : ℓ} (hstep : step s l = some t) : Reachable step s t :=
  .single trivial hstep

/-- When every step from a state with an invariant keeps it and makes a measure smaller, no run from
such a state goes on forever. -/
theorem acc_of_decreasing {α : Type} {r : α → α → Prop} (hr : WellFounded r) (m : σ → α)
    {P : σ → Prop} (hstep : ∀ s l t, P s → step s l = some t → P t ∧ r (m t) (m s)) (hs : P s) :
    Acc (fun t s => ∃ l, step s l = some t) s := by
  induction h : m s using hr.induction generalizing s with
  | _ a ih =>
    refine .intro s ?_
    rintro t ⟨l, ht⟩
    obtain ⟨hP, hsmall⟩ := hstep s l t hs ht
    exact ih (m t) (h ▸ hsmall) hP rfl

/-- When no step makes a measure larger and the steps with some labels make it smaller, no run takes
such a step again and again for ever. -/
theorem acc_of_marked {α : Type} [Preorder α] [WellFoundedLT α] (m : σ → α) {P : σ → Prop}
    {mark : ℓ → Prop} (hstep : ∀ s l t, P s → ok s l → step s l = some t →
      P t ∧ m t ≤ m s ∧ (mark l → m t < m s)) (hs : P s) :
    Acc (fun t s => ∃ u l, Reaches step ok s u ∧ mark l ∧ ok u l ∧ step u l = some t) s := by
  induction h : m s using (wellFounded_lt (α := α)).induction generalizing s with
  | _ a ih =>
    refine .intro s ?_
    rintro t ⟨u, l, hreaches, hmark, hok, ht⟩
    have hu : P u ∧ m u ≤ m s :=
      hreaches.invariant (P := fun u => P u ∧ m u ≤ m s) ⟨hs, le_refl _⟩ fun v l w hv hl hw =>
        ⟨(hstep v l w hv.1 hl hw).1, (hstep v l w hv.1 hl hw).2.1.trans hv.2⟩
    obtain ⟨hP, -, hsmall⟩ := hstep u l t hu.1 hok ht
    exact ih (m t) (h ▸ lt_of_lt_of_le (hsmall hmark) hu.2) hP rfl

/-- The last state of the run of `step` on the labels `ls`, or `none` when a step is not
enabled. -/
def run (step : σ → ℓ → Option σ) : σ → List ℓ → Option σ
  | s, [] => some s
  | s, l :: ls => (step s l).bind fun t => run step t ls

@[simp] theorem run_nil : run step s [] = some s := rfl

theorem run_cons {l : ℓ} {ls : List ℓ} :
    run step s (l :: ls) = (step s l).bind fun t => run step t ls := rfl

theorem run_append {ls ms : List ℓ} :
    run step s (ls ++ ms) = (run step s ls).bind fun t => run step t ms := by
  induction ls generalizing s with
  | nil => rfl
  | cons l ls ih =>
    rw [List.cons_append, run_cons, run_cons]
    cases step s l with
    | none => rfl
    | some t => exact ih

theorem reachable_of_run (ls : List ℓ) (h : run step s ls = some t) : Reachable step s t := by
  induction ls generalizing s with
  | nil =>
    obtain rfl : s = t := by simpa using h
    exact .start
  | cons l ls ih =>
    rw [run_cons, Option.bind_eq_some_iff] at h
    obtain ⟨m, hm, hrest⟩ := h
    exact (Reaches.next .start trivial hm).trans (ih hrest)

/-- The states of the run on `ls`, up to the first label that is not enabled. -/
def statesOf (step : σ → ℓ → Option σ) : σ → List ℓ → List σ
  | s, [] => [s]
  | s, l :: ls =>
    s :: match step s l with
      | some t => statesOf step t ls
      | none => []

/-- The steps that the run on `ls` takes, each as its label and the state it leaves. -/
def stepsOf (step : σ → ℓ → Option σ) : σ → List ℓ → List (σ × ℓ)
  | _, [] => []
  | s, l :: ls =>
    match step s l with
    | some t => (s, l) :: stepsOf step t ls
    | none => []

/-- An invariant `P` that the steps that meet `ok` preserve, and that shows in every state as `Q`:
when `Q` fails behind the other steps, `Q` holds in all states of a run if and only if all its
steps meet `ok`. -/
theorem forall_statesOf_iff_of {P Q : σ → Prop} (hshow : ∀ s, P s → Q s)
    (hok : ∀ s l t, P s → step s l = some t → Q t → ok s l)
    (hstep : ∀ s l t, P s → ok s l → step s l = some t → P t) (hs : P s) (ls : List ℓ) :
    (∀ t ∈ statesOf step s ls, Q t) ↔ ∀ x ∈ stepsOf step s ls, ok x.1 x.2 := by
  induction ls generalizing s with
  | nil => simp [statesOf, stepsOf, hshow s hs]
  | cons l ls ih =>
    cases ht : step s l with
    | none => simp [statesOf, stepsOf, ht, hshow s hs]
    | some t =>
      simp only [statesOf, stepsOf, ht, List.forall_mem_cons]
      constructor
      · rintro ⟨_, hstates⟩
        have hfirst : Q t := by
          cases ls with
          | nil => exact hstates t (by simp [statesOf])
          | cons => exact hstates t (by simp [statesOf])
        have hl := hok s l t hs ht hfirst
        exact ⟨hl, (ih (hstep s l t hs hl ht)).mp hstates⟩
      · rintro ⟨hl, hsteps⟩
        exact ⟨hshow s hs, (ih (hstep s l t hs hl ht)).mpr hsteps⟩

def guarded (step : σ → ℓ → Option σ) (ok : σ → ℓ → Prop) [∀ s l, Decidable (ok s l)] (s : σ)
    (l : ℓ) : Option σ :=
  if ok s l then step s l else none

theorem reaches_of_run [∀ s l, Decidable (ok s l)] (ls : List ℓ)
    (h : run (guarded step ok) s ls = some t) : Reaches step ok s t := by
  induction ls generalizing s with
  | nil =>
    obtain rfl : s = t := by simpa using h
    exact .start
  | cons l ls ih =>
    rw [run_cons, Option.bind_eq_some_iff] at h
    obtain ⟨m, hm, hrest⟩ := h
    unfold guarded at hm
    split at hm
    next hok => exact (Reaches.single hok hm).trans (ih hrest)
    next => cases hm

theorem exists_of_run [∀ s l, Decidable (ok s l)] {P : σ → Prop} [DecidablePred P] (ls : List ℓ)
    (h : (run (guarded step ok) s ls).any (fun t => decide (P t)) = true) :
    ∃ t, Reaches step ok s t ∧ P t := by
  obtain ⟨t, hrun, hP⟩ := (Option.any_eq_true ..).mp h
  exact ⟨t, reaches_of_run ls hrun, of_decide_eq_true hP⟩

end ModemSupport.Lib.Transition
