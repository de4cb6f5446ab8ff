import Mathlib.Data.List.Count
import ModemSupport.Lib.Transition

/-! The transmit queues of `mhi_netdev` and its qmap devices (`mhi_netdev_quectel.c`):
`rmnet_vnd_start_xmit`, `mhi_netdev_xmit` and `mhi_netdev_xfer_ul_cb`, a step for each test, stop
and wake. -/

namespace ModemSupport.Mhi.NetQueue

open Lib.Transition

/-- The uplink ring by its elements, with `qmap_mode` and which `mpQmapNetDev` there are. -/
structure Config where
  elements : Nat
  qmapMode : Nat
  qmapNet : Nat → Bool
  elements_gt : 64 < elements

inductive VndXmit where
  | idle
  | entered
  | stopping
  deriving DecidableEq

inductive NetdevXmit where
  | idle
  | stopping (i : Nat)
  | queueing
  deriving DecidableEq

inductive UlCb where
  | idle
  | called
  | stopped
  | wake
  | waking (i : Nat)
  | wakingStopped (i : Nat)
  deriving DecidableEq

/-- The queues of the real device and of the qmap devices, the number of elements on the uplink
ring, and the calls, which the transmit lock of each device and that of the event ring keep to
one. -/
structure State where
  realStopped : Bool
  qmapStopped : Nat → Bool
  outstanding : Nat
  vnd : Nat → VndXmit
  xmit : NetdevXmit
  ulCb : UlCb

def getNoFreeDescriptors (c : Config) (s : State) : Nat := c.elements - 1 - s.outstanding

/-- The loop of `mhi_netdev_xmit`, and the stop of the real queue behind it. -/
def xmitStop (c : Config) (s : State) (i : Nat) : State :=
  if i < c.qmapMode then
    { s with
      qmapStopped := if c.qmapNet i then Function.update s.qmapStopped i true else s.qmapStopped
      xmit := .stopping (i + 1) }
  else { s with realStopped := true, xmit := .queueing }

/-- `mhi_queue_transfer`, which fails on a full ring, in an error state or when it cannot map. -/
def xmitQueue (c : Config) (s : State) (fails : Bool) : State :=
  if s.outstanding + 1 = c.elements ∨ fails then { s with xmit := .idle }
  else { s with outstanding := s.outstanding + 1, xmit := .idle }

def ulCbStep (c : Config) (s : State) : UlCb → Option State
  | .idle => none
  | .called => some { s with ulCb := if s.realStopped then .stopped else .idle }
  | .stopped => some { s with ulCb := if 32 < getNoFreeDescriptors c s then .wake else .idle }
  | .wake => some { s with realStopped := false, ulCb := .waking 0 }
  | .waking i =>
    if i < c.qmapMode then
      if c.qmapNet i ∧ s.qmapStopped i then some { s with ulCb := .wakingStopped i }
      else some { s with ulCb := .waking (i + 1) }
    else some { s with ulCb := .idle }
  | .wakingStopped i =>
    some { s with qmapStopped := Function.update s.qmapStopped i false, ulCb := .waking (i + 1) }

inductive Label where
  | vndXmit (i : Nat)
  | vndTest (i : Nat)
  | vndStop (i : Nat)
  | xmit
  | xmitStop
  | xmitQueue (fails : Bool)
  | complete (success : Bool)
  | ulCb
  deriving DecidableEq

/-- One step.  The stack calls a transmit function with the queue of its device awake, and a
packet that a qmap device forwards is transmitted by a call of its own. -/
def step (c : Config) (s : State) : Label → Option State
  | .vndXmit i =>
    if i < c.qmapMode ∧ c.qmapNet i ∧ s.vnd i = .idle ∧ s.qmapStopped i = false then
      some { s with vnd := Function.update s.vnd i .entered }
    else none
  | .vndTest i =>
    if s.vnd i = .entered then
      some { s with vnd := Function.update s.vnd i (if s.realStopped then .stopping else .idle) }
    else none
  | .vndStop i =>
    if s.vnd i = .stopping then
      some { s with
        qmapStopped := Function.update s.qmapStopped i true
        vnd := Function.update s.vnd i .idle }
    else none
  | .xmit =>
    if s.xmit = .idle ∧ s.realStopped = false then
      some { s with xmit := if getNoFreeDescriptors c s < 16 then .stopping 0 else .queueing }
    else none
  | .xmitStop =>
    match s.xmit with
    | .stopping i => some (xmitStop c s i)
    | _ => none
  | .xmitQueue fails => if s.xmit = .queueing then some (xmitQueue c s fails) else none
  | .complete success =>
    if s.ulCb = .idle ∧ 0 < s.outstanding then
      some { s with
        outstanding := s.outstanding - 1
        ulCb := if success then .called else .idle }
    else none
  | .ulCb => ulCbStep c s s.ulCb

def init : State where
  realStopped := false
  qmapStopped := fun _ => false
  outstanding := 0
  vnd := fun _ => .idle
  xmit := .idle
  ulCb := .idle

structure Quiet (c : Config) (s : State) : Prop where
  vnd : ∀ i < c.qmapMode, s.vnd i = .idle
  xmit : s.xmit = .idle
  ulCb : s.ulCb = .idle

def Wakes (c : Config) (s : State) : Prop :=
  ∃ ls : List Label, (∀ l ∈ ls, l = .complete true ∨ l = .ulCb) ∧
    ls.count (.complete true) ≤ s.outstanding ∧
    ∃ t, run (step c) s ls = some t ∧ t.realStopped = false

/-- Without a call in progress, the queue of a qmap device is stopped only with the real queue,
and the real queue only with elements on the ring whose completion wakes it. -/
structure NotStranded (c : Config) (s : State) : Prop where
  qmap : Quiet c s → ∀ i, s.qmapStopped i = true → s.realStopped = true
  real : Quiet c s → s.realStopped = true → 0 < s.outstanding ∧ Wakes c s

def State.StopsReal (s : State) : Prop := ∃ i, s.xmit = .stopping i

def State.ComesTo (s : State) (i : Nat) : Prop :=
  ∃ j ≤ i, s.ulCb = .waking j ∨ s.ulCb = .wakingStopped j

def State.Tests (s : State) : Prop := s.ulCb = .called ∨ s.ulCb = .stopped ∨ s.ulCb = .wake

/-- No queue is stopped behind the callback that would wake it: the queue of a qmap device is
stopped with the real queue stopped, or with a call that is going to stop it or to wake the own
one; and the real queue does not run out of elements by a transfer that cannot be queued or that
fails. -/
def InTime (s : State) : Label → Prop
  | .vndStop i => s.realStopped = true ∨ s.StopsReal ∨ s.ComesTo i
  | .xmitQueue fails =>
    fails = true → s.realStopped = true → 0 < s.outstanding ∨ s.Tests
  | .complete success =>
    success = false → s.realStopped = true → 1 < s.outstanding ∨ s.xmit = .queueing
  | _ => True

structure Inv (c : Config) (s : State) : Prop where
  qmap : ∀ i, s.qmapStopped i = true → s.realStopped = true ∨ s.StopsReal ∨ s.ComesTo i
  real : s.realStopped = true → 0 < s.outstanding ∨ s.Tests ∨ s.xmit = .queueing
  lt : s.outstanding < c.elements
  stopped : ∀ i, s.qmapStopped i = true → i < c.qmapMode ∧ c.qmapNet i = true
  vnd : ∀ i, s.vnd i ≠ .idle → i < c.qmapMode ∧ c.qmapNet i = true

variable {c : Config} {s t : State} {l : Label}

theorem inv_init : Inv c init where
  qmap := by
    intro i h
    cases h
  real := by
    intro h
    cases h
  lt := Nat.lt_trans (by decide) c.elements_gt
  stopped := by
    intro i h
    cases h
  vnd := by
    intro i h
    exact absurd rfl h

theorem Inv.setVnd {i : Nat} {v : VndXmit} (hi : Inv c s)
    (hnet : i < c.qmapMode ∧ c.qmapNet i = true) :
    Inv c { s with vnd := Function.update s.vnd i v } where
  qmap := hi.qmap
  real := hi.real
  lt := hi.lt
  stopped := hi.stopped
  vnd := by
    intro j hj
    by_cases heq : j = i
    · subst heq
      exact hnet
    · refine hi.vnd j ?_
      change Function.update s.vnd i v j ≠ .idle at hj
      rwa [Function.update_of_ne heq] at hj

theorem Inv.stopQmap {i : Nat} (hi : Inv c s) (hnet : i < c.qmapMode ∧ c.qmapNet i = true)
    (hok : s.realStopped = true ∨ s.StopsReal ∨ s.ComesTo i) :
    Inv c { s with qmapStopped := Function.update s.qmapStopped i true } where
  qmap := by
    intro j hj
    by_cases heq : j = i
    · subst heq
      exact hok
    · refine hi.qmap j ?_
      change Function.update s.qmapStopped i true j = true at hj
      rwa [Function.update_of_ne heq] at hj
  real := hi.real
  lt := hi.lt
  stopped := by
    intro j hj
    by_cases heq : j = i
    · subst heq
      exact hnet
    · refine hi.stopped j ?_
      change Function.update s.qmapStopped i true j = true at hj
      rwa [Function.update_of_ne heq] at hj
  vnd := hi.vnd

theorem Inv.setStopping (hi : Inv c s) (hreal : s.realStopped = true → s.xmit ≠ .queueing)
    (i : Nat) :
    Inv c { s with xmit := .stopping i } where
  qmap := by
    intro j hj
    exact .inr (.inl ⟨i, rfl⟩)
  real := by
    intro hstopped
    rcases hi.real hstopped with h | h | h
    · exact .inl h
    · exact .inr (.inl h)
    · exact absurd h (hreal hstopped)
  lt := hi.lt
  stopped := hi.stopped
  vnd := hi.vnd

theorem Inv.xmitStop {i : Nat} (hi : Inv c s) (hxmit : s.xmit = .stopping i) :
    Inv c (xmitStop c s i) := by
  have hnot : s.realStopped = true → s.xmit ≠ .queueing := by
    intro _ h
    rw [hxmit] at h
    cases h
  unfold NetQueue.xmitStop
  split_ifs with hlt hnet
  · exact (hi.stopQmap ⟨hlt, hnet⟩ (.inr (.inl ⟨i, hxmit⟩))).setStopping hnot (i + 1)
  · exact hi.setStopping hnot (i + 1)
  · exact ⟨fun _ _ => .inl rfl, fun _ => .inr (.inr rfl), hi.lt, hi.stopped, hi.vnd⟩

theorem Inv.xmitQueue {fails : Bool} (hi : Inv c s) (hxmit : s.xmit = .queueing)
    (hok : InTime s (.xmitQueue fails)) : Inv c (xmitQueue c s fails) := by
  have hqmap : ∀ i, s.qmapStopped i = true → s.realStopped = true ∨ s.ComesTo i := by
    intro i hstopped
    rcases hi.qmap i hstopped with h | ⟨j, h⟩ | h
    · exact .inl h
    · rw [hxmit] at h
      cases h
    · exact .inr h
  unfold NetQueue.xmitQueue
  split_ifs with hfail
  · refine ⟨?_, ?_, hi.lt, hi.stopped, hi.vnd⟩
    · intro i hstopped
      exact (hqmap i hstopped).imp_right .inr
    · intro hstopped
      rcases hfail with hfull | hfails
      · have hgt := c.elements_gt
        exact .inl (by change 0 < s.outstanding; omega)
      · exact (hok hfails hstopped).imp_right .inl
  · refine ⟨?_, fun _ => .inl (Nat.succ_pos _), ?_, hi.stopped, hi.vnd⟩
    · intro i hstopped
      exact (hqmap i hstopped).imp_right .inr
    · have hlt := hi.lt
      have hne : s.outstanding + 1 ≠ c.elements := fun h => hfail (.inl h)
      change s.outstanding + 1 < c.elements
      omega

theorem Inv.complete {success : Bool} (hi : Inv c s) (hcb : s.ulCb = .idle)
    (hok : InTime s (.complete success)) :
    Inv c { s with
      outstanding := s.outstanding - 1
      ulCb := if success then .called else .idle } where
  qmap := by
    intro i hstopped
    rcases hi.qmap i hstopped with h | h | ⟨j, _, h | h⟩
    · exact .inl h
    · exact .inr (.inl h)
    · rw [hcb] at h
      cases h
    · rw [hcb] at h
      cases h
  real := by
    intro hstopped
    cases success with
    | true => exact .inr (.inl (.inl rfl))
    | false =>
      rcases hok rfl hstopped with h | h
      · exact .inl (Nat.sub_pos_of_lt h)
      · exact .inr (.inr h)
  lt := Nat.lt_of_le_of_lt (Nat.sub_le _ _) hi.lt
  stopped := hi.stopped
  vnd := hi.vnd

theorem State.Tests.not_comesTo {i : Nat} (h : s.Tests) : ¬ s.ComesTo i := by
  rintro ⟨j, _, hj | hj⟩
  · rcases h with h | h | h <;> cases h.symm.trans hj
  · rcases h with h | h | h <;> cases h.symm.trans hj

theorem Inv.setTests {u : UlCb} (hi : Inv c s) (htests : s.Tests)
    (hreal : s.realStopped = true →
      0 < s.outstanding ∨ State.Tests { s with ulCb := u } ∨ s.xmit = .queueing) :
    Inv c { s with ulCb := u } where
  qmap := by
    intro i hstopped
    rcases hi.qmap i hstopped with h | h | h
    · exact .inl h
    · exact .inr (.inl h)
    · exact absurd h htests.not_comesTo
  real := hreal
  lt := hi.lt
  stopped := hi.stopped
  vnd := hi.vnd

theorem State.not_tests {i : Nat} (hcb : s.ulCb = .waking i ∨ s.ulCb = .wakingStopped i) :
    ¬s.Tests := by
  intro h
  rcases hcb with hcb | hcb <;> rcases h with h | h | h <;> cases hcb.symm.trans h

theorem State.ComesTo.le {i j : Nat} (h : s.ComesTo j)
    (hcb : s.ulCb = .waking i ∨ s.ulCb = .wakingStopped i) : i ≤ j := by
  obtain ⟨k, hk, h⟩ := h
  have hki : k = i := by
    rcases hcb with hcb | hcb <;> rcases h with h | h <;> cases hcb.symm.trans h <;> rfl
  exact hki ▸ hk

theorem Inv.pass {i : Nat} (hi : Inv c s) (hcb : s.ulCb = .waking i ∨ s.ulCb = .wakingStopped i)
    (hawake : s.qmapStopped i = false) : Inv c { s with ulCb := .waking (i + 1) } where
  qmap := by
    intro j hstopped
    have hne : j ≠ i := by
      rintro rfl
      rw [hawake] at hstopped
      cases hstopped
    rcases hi.qmap j hstopped with h | h | h
    · exact .inl h
    · exact .inr (.inl h)
    · have hle := h.le hcb
      exact .inr (.inr ⟨i + 1, by omega, .inl rfl⟩)
  real := by
    intro hstopped
    rcases hi.real hstopped with h | h | h
    · exact .inl h
    · exact absurd h (State.not_tests hcb)
    · exact .inr (.inr h)
  lt := hi.lt
  stopped := hi.stopped
  vnd := hi.vnd

theorem Inv.ulCbStep (hi : Inv c s) (hstep : ulCbStep c s s.ulCb = some t) : Inv c t := by
  cases hcb : s.ulCb with
  | idle =>
    rw [hcb] at hstep
    cases hstep
  | called =>
    rw [hcb] at hstep
    injection hstep with hstep
    subst hstep
    refine hi.setTests (.inl hcb) ?_
    intro hstopped
    rw [if_pos hstopped]
    exact .inr (.inl (.inr (.inl rfl)))
  | stopped =>
    rw [hcb] at hstep
    injection hstep with hstep
    subst hstep
    refine hi.setTests (.inr (.inl hcb)) ?_
    intro _
    split_ifs with hfree
    · exact .inr (.inl (.inr (.inr rfl)))
    · -- few are free, so many are on the ring
      have hgt := c.elements_gt
      unfold getNoFreeDescriptors at hfree
      exact .inl (by omega)
  | wake =>
    rw [hcb] at hstep
    injection hstep with hstep
    subst hstep
    refine ⟨?_, ?_, hi.lt, hi.stopped, hi.vnd⟩
    · intro i _
      exact .inr (.inr ⟨0, Nat.zero_le i, .inl rfl⟩)
    · intro h
      cases h
  | waking i =>
    rw [hcb, NetQueue.ulCbStep] at hstep
    split_ifs at hstep with hlt hnet
    · injection hstep with hstep
      subst hstep
      refine ⟨?_, ?_, hi.lt, hi.stopped, hi.vnd⟩
      · intro j hstopped
        rcases hi.qmap j hstopped with h | h | h
        · exact .inl h
        · exact .inr (.inl h)
        · exact .inr (.inr ⟨i, h.le (.inl hcb), .inr rfl⟩)
      · intro hstopped
        rcases hi.real hstopped with h | h | h
        · exact .inl h
        · exact absurd h (State.not_tests (.inl hcb))
        · exact .inr (.inr h)
    · injection hstep with hstep
      subst hstep
      refine hi.pass (.inl hcb) ?_
      cases hawake : s.qmapStopped i with
      | false => rfl
      | true => exact absurd ⟨(hi.stopped i hawake).2, hawake⟩ hnet
    · injection hstep with hstep
      subst hstep
      refine ⟨?_, ?_, hi.lt, hi.stopped, hi.vnd⟩
      · intro j hstopped
        rcases hi.qmap j hstopped with h | h | h
        · exact .inl h
        · exact .inr (.inl h)
        · have hle := h.le (.inl hcb)
          have hj := (hi.stopped j hstopped).1
          omega
      · intro hstopped
        rcases hi.real hstopped with h | h | h
        · exact .inl h
        · exact absurd h (State.not_tests (.inl hcb))
        · exact .inr (.inr h)
  | wakingStopped i =>
    rw [hcb] at hstep
    injection hstep with hstep
    subst hstep
    have hawake : Inv c { s with qmapStopped := Function.update s.qmapStopped i false } := by
      refine ⟨?_, hi.real, hi.lt, ?_, hi.vnd⟩
      · intro j hj
        change Function.update s.qmapStopped i false j = true at hj
        by_cases heq : j = i
        · rw [heq, Function.update_self] at hj
          cases hj
        · rw [Function.update_of_ne heq] at hj
          exact hi.qmap j hj
      · intro j hj
        change Function.update s.qmapStopped i false j = true at hj
        by_cases heq : j = i
        · rw [heq, Function.update_self] at hj
          cases hj
        · rw [Function.update_of_ne heq] at hj
          exact hi.stopped j hj
    exact hawake.pass (.inr hcb) (Function.update_self i false s.qmapStopped)

theorem inv_step (hi : Inv c s) (hok : InTime s l) (hstep : step c s l = some t) : Inv c t := by
  cases l with
  | vndXmit i =>
    simp only [step] at hstep
    split_ifs at hstep with h
    injection hstep with hstep
    subst hstep
    exact hi.setVnd ⟨h.1, h.2.1⟩
  | vndTest i =>
    simp only [step] at hstep
    split_ifs at hstep with h
    all_goals
      injection hstep with hstep
      subst hstep
      exact hi.setVnd (hi.vnd i (by simp [h]))
  | vndStop i =>
    simp only [step] at hstep
    split_ifs at hstep with h
    injection hstep with hstep
    subst hstep
    have hnet := hi.vnd i (by simp [h])
    exact (hi.stopQmap hnet hok).setVnd hnet
  | xmit =>
    simp only [step] at hstep
    split_ifs at hstep with h hfree
    · injection hstep with hstep
      subst hstep
      refine hi.setStopping ?_ 0
      intro _ hq
      rw [h.1] at hq
      cases hq
    · injection hstep with hstep
      subst hstep
      refine ⟨?_, ?_, hi.lt, hi.stopped, hi.vnd⟩
      · intro i hstopped
        rcases hi.qmap i hstopped with h' | ⟨j, h'⟩ | h'
        · exact .inl h'
        · cases h.1.symm.trans h'
        · exact .inr (.inr h')
      · exact fun _ => .inr (.inr rfl)
  | xmitStop =>
    cases hxmit : s.xmit with
    | stopping i =>
      simp only [step, hxmit] at hstep
      injection hstep with hstep
      subst hstep
      exact hi.xmitStop hxmit
    | idle =>
      simp only [step, hxmit] at hstep
      cases hstep
    | queueing =>
      simp only [step, hxmit] at hstep
      cases hstep
  | xmitQueue fails =>
    simp only [step] at hstep
    split_ifs at hstep with h
    injection hstep with hstep
    subst hstep
    exact hi.xmitQueue h hok
  | complete success =>
    simp only [step] at hstep
    by_cases h : s.ulCb = .idle ∧ 0 < s.outstanding
    · rw [if_pos h] at hstep
      injection hstep with hstep
      subst hstep
      exact hi.complete h.1 hok
    · rw [if_neg h] at hstep
      cases hstep
  | ulCb => exact hi.ulCbStep hstep

theorem wakes_of_outstanding (hcb : s.ulCb = .idle) (hreal : s.realStopped = true)
    (hpos : 0 < s.outstanding) : Wakes c s := by
  have hgt := c.elements_gt
  obtain ⟨n, hn⟩ : ∃ n, s.outstanding = n + 1 := ⟨s.outstanding - 1, by omega⟩
  clear hpos
  induction n generalizing s with
  | zero =>
    have hfree : 32 < c.elements - 1 := by omega
    refine ⟨[.complete true, .ulCb, .ulCb, .ulCb], by simp, by simp [hn],
      { s with outstanding := 0, realStopped := false, ulCb := .waking 0 }, ?_, rfl⟩
    simp [run_cons, step, ulCbStep, hcb, hreal, hn, getNoFreeDescriptors, hfree]
  | succ n ih =>
    by_cases hfree : 32 < c.elements - 1 - (n + 1)
    · refine ⟨[.complete true, .ulCb, .ulCb, .ulCb], by simp, by simp [hn],
        { s with outstanding := n + 1, realStopped := false, ulCb := .waking 0 }, ?_, rfl⟩
      simp [run_cons, step, ulCbStep, hcb, hreal, hn, getNoFreeDescriptors, hfree]
    · obtain ⟨ls, hls, hcount, t, hrun, ht⟩ :=
        @ih { s with outstanding := n + 1, ulCb := .idle } rfl hreal rfl
      refine ⟨[.complete true, .ulCb, .ulCb] ++ ls, ?_, ?_, t, ?_, ht⟩
      · intro l hl
        rcases List.mem_append.mp hl with hfirst | hrest
        · simpa using hfirst
        · exact hls l hrest
      · have hle : ls.count (.complete true) ≤ n + 1 := hcount
        have htwo : ([.complete true, .ulCb, .ulCb] : List Label).count (.complete true) = 1 := by
          decide
        rw [List.count_append, htwo, hn]
        omega
      · rw [run_append]
        have hpre : run (step c) s [.complete true, .ulCb, .ulCb] =
            some { s with outstanding := n + 1, ulCb := .idle } := by
          simp [run_cons, step, ulCbStep, hcb, hreal, hn, getNoFreeDescriptors, hfree]
        rw [hpre]
        exact hrun

theorem Inv.notStranded (hi : Inv c s) : NotStranded c s where
  qmap := by
    intro hquiet i hstopped
    rcases hi.qmap i hstopped with h | ⟨j, h⟩ | ⟨j, _, h | h⟩
    · exact h
    · cases hquiet.xmit.symm.trans h
    · cases hquiet.ulCb.symm.trans h
    · cases hquiet.ulCb.symm.trans h
  real := by
    intro hquiet hstopped
    have hpos : 0 < s.outstanding := by
      rcases hi.real hstopped with h | h | h
      · exact h
      · rcases h with h | h | h <;> cases hquiet.ulCb.symm.trans h
      · cases hquiet.xmit.symm.trans h
    exact ⟨hpos, wakes_of_outstanding hquiet.ulCb hstopped hpos⟩

/-- In a run whose steps are all in time no queue is stranded. -/
theorem never_stranded (h : Reaches (step c) InTime init s) : NotStranded c s :=
  (h.invariant inv_init fun _ _ _ hi hok hstep => inv_step hi hok hstep).notStranded

instance (s : State) : Decidable s.StopsReal :=
  match h : s.xmit with
  | .stopping i => isTrue ⟨i, h⟩
  | .idle => isFalse fun ⟨_, h'⟩ => by rw [h] at h'; cases h'
  | .queueing => isFalse fun ⟨_, h'⟩ => by rw [h] at h'; cases h'

instance (s : State) (i : Nat) : Decidable (s.ComesTo i) :=
  inferInstanceAs (Decidable (∃ j ≤ i, _ ∨ _))

instance (s : State) : Decidable s.Tests := inferInstanceAs (Decidable (_ ∨ _ ∨ _))

instance (s : State) : (l : Label) → Decidable (InTime s l)
  | .vndStop _ => inferInstanceAs (Decidable (_ ∨ _ ∨ _))
  | .xmitQueue _ => inferInstanceAs (Decidable (_ → _ → _ ∨ _))
  | .complete _ => inferInstanceAs (Decidable (_ → _ → _ ∨ _))
  | .vndXmit _ => isTrue trivial
  | .vndTest _ => isTrue trivial
  | .xmit => isTrue trivial
  | .xmitStop => isTrue trivial
  | .ulCb => isTrue trivial

def ipHw0 : Config := ⟨512, 2, fun _ => true, by decide⟩

/-- `n` packets, up to the one that stops the queues. -/
def fillRun (n : Nat) : List Label :=
  (List.replicate n [Label.xmit, .xmitQueue false]).flatten ++
    [.xmit, .xmitStop, .xmitStop, .xmitStop, .xmitQueue false]

/-- A full ring stops all queues. -/
theorem never_stranded_full :
    ∃ s, Reaches (step ipHw0) InTime init s ∧
      (s.realStopped = true ∧ s.qmapStopped 1 = true ∧ s.xmit = .idle) ∧ NotStranded ipHw0 s := by
  have hrun : (run (guarded (step ipHw0) InTime) init (fillRun 496)).any (fun t =>
      decide (t.realStopped = true ∧ t.qmapStopped 1 = true ∧ t.xmit = .idle)) = true := by
    decide +kernel
  obtain ⟨t, hreach, ht⟩ := exists_of_run (fillRun 496) hrun
  exact ⟨t, hreach, ht, never_stranded hreach⟩

def lateStop : List Label :=
  .vndXmit 0 :: fillRun 496 ++ .vndTest 0 ::
    (List.replicate 18 [Label.complete true, .ulCb, .ulCb]).flatten ++
    [.complete true, .ulCb, .ulCb, .ulCb, .ulCb, .ulCb, .ulCb, .ulCb, .ulCb, .vndStop 0]

/-- The qmap device is stopped with the real queue awake. -/
theorem stranded_lateStop : ¬ ∀ t ∈ statesOf (step ipHw0) init lateStop, NotStranded ipHw0 t := by
  intro h
  have hrun : (statesOf (step ipHw0) init lateStop).any (fun t =>
      decide ((t.vnd 0 = .idle ∧ t.vnd 1 = .idle ∧ t.xmit = .idle ∧ t.ulCb = .idle) ∧
        t.qmapStopped 0 = true ∧ t.realStopped = false)) = true := by
    decide +kernel
  obtain ⟨t, hmem, ht⟩ := List.any_eq_true.mp hrun
  obtain ⟨⟨hfirst, hsecond, hxmit, hcb⟩, hqmap, hreal⟩ := of_decide_eq_true ht
  have hvnd : ∀ i < ipHw0.qmapMode, t.vnd i = .idle := by
    intro i hi
    have hi : i < 2 := hi
    obtain rfl | rfl : i = 0 ∨ i = 1 := by omega
    · exact hfirst
    · exact hsecond
  have hstopped := (h t hmem).qmap ⟨hvnd, hxmit, hcb⟩ 0 hqmap
  rw [hreal] at hstopped
  cases hstopped

end ModemSupport.Mhi.NetQueue
