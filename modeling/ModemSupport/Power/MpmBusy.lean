import ModemSupport.Lib.Count
import ModemSupport.Power.Pms

/-! Multitask power manager sources on one power manager.  Each request and each release of a source
is two critical sections, of the `active_lock` of the source and of `mpm_lock`, and the idle timer
fires at any time it is armed. -/

namespace ModemSupport.Power

open Function Lib

namespace Busy

/-- Where a caller stands: its `sprd_mpm_up` of a source is pending, its request has completed the
up step, or its `sprd_mpm_down` is pending. -/
inductive Caller (ι : Type) where
  | idle
  | upPending (p : ι)
  | holding (p : ι)
  | downPending (p : ι) (immediately : Bool)
  deriving DecidableEq

/-- The power manager, `active_cnt` of each source, the callers, and the callbacks of the idle timer
that have started and not taken `mpm_lock` yet. -/
structure State (ι κ : Type) where
  mpm : Mpm
  activeCnt : ι → Nat
  callers : κ → Caller ι
  timerRuns : Nat

inductive Op (ι κ : Type) where
  /-- `sprd_pms_request_resource` or `sprd_pms_power_up`, its section under `active_lock`. -/
  | request (k : κ) (p : ι)
  | mpmUp (k : κ)
  /-- `sprd_pms_release_resource` or `sprd_pms_power_down`, its section under `active_lock`. -/
  | release (k : κ) (immediately : Bool)
  | mpmDown (k : κ) (later : UInt64)
  | timerFire
  | timerFn

set_option linter.unusedSectionVars false

variable {ι κ : Type} [DecidableEq ι] [DecidableEq κ]

def State.init (laterIdle : UInt32) : State ι κ where
  mpm := sprdMpmCreate laterIdle
  activeCnt _ := 0
  callers _ := .idle
  timerRuns := 0

def step (s : State ι κ) : Op ι κ → Option (State ι κ)
  | .request k p =>
    match s.callers k with
    | .idle =>
      let (activeCnt, active) := sprdPmsDoUpMulti (s.activeCnt p)
      some { s with
        activeCnt := update s.activeCnt p activeCnt
        callers := update s.callers k (if active then .upPending p else .holding p) }
    | _ => none
  | .mpmUp k =>
    match s.callers k with
    | .upPending p =>
      some { s with mpm := sprdMpmUp s.mpm, callers := update s.callers k (.holding p) }
    | _ => none
  | .release k immediately =>
    match s.callers k with
    | .holding p =>
      let (activeCnt, deactive) := sprdPmsDoDownMulti (s.activeCnt p)
      some { s with
        activeCnt := update s.activeCnt p activeCnt
        callers := update s.callers k (if deactive then .downPending p immediately else .idle) }
    | _ => none
  | .mpmDown k later =>
    match s.callers k with
    | .downPending _ immediately =>
      some { s with
        mpm := sprdMpmDown s.mpm immediately later
        callers := update s.callers k .idle }
    | _ => none
  | .timerFire =>
    if s.mpm.timerPending then
      some { s with mpm := { s.mpm with timerPending := false }, timerRuns := s.timerRuns + 1 }
    else none
  | .timerFn =>
    if 0 < s.timerRuns then
      some { s with mpm := sprdMpmDeactiveTimerFn s.mpm, timerRuns := s.timerRuns - 1 }
    else none

inductive Move (s : State ι κ) : Op ι κ → State ι κ → Prop
  | first {k : κ} {p : ι} (hk : s.callers k = .idle) (hcnt : s.activeCnt p = 0) :
    Move s (.request k p)
      { s with
        activeCnt := update s.activeCnt p 1
        callers := update s.callers k (.upPending p) }
  | join {k : κ} {p : ι} (hk : s.callers k = .idle) (hcnt : s.activeCnt p ≠ 0) :
    Move s (.request k p)
      { s with
        activeCnt := update s.activeCnt p (s.activeCnt p + 1)
        callers := update s.callers k (.holding p) }
  | mpmUp {k : κ} {p : ι} (hk : s.callers k = .upPending p) :
    Move s (.mpmUp k)
      { s with mpm := sprdMpmUp s.mpm, callers := update s.callers k (.holding p) }
  | last {k : κ} {p : ι} {immediately : Bool} (hk : s.callers k = .holding p)
      (hcnt : s.activeCnt p = 1) :
    Move s (.release k immediately)
      { s with
        activeCnt := update s.activeCnt p 0
        callers := update s.callers k (.downPending p immediately) }
  | part {k : κ} {p : ι} {immediately : Bool} (hk : s.callers k = .holding p)
      (hcnt : s.activeCnt p ≠ 1) :
    Move s (.release k immediately)
      { s with
        activeCnt := update s.activeCnt p (s.activeCnt p - 1)
        callers := update s.callers k .idle }
  | mpmDown {k : κ} {p : ι} {immediately : Bool} {later : UInt64}
      (hk : s.callers k = .downPending p immediately) :
    Move s (.mpmDown k later)
      { s with
        mpm := sprdMpmDown s.mpm immediately later
        callers := update s.callers k .idle }
  | timerFire : Move s .timerFire
      { s with mpm := { s.mpm with timerPending := false }, timerRuns := s.timerRuns + 1 }
  | timerFn : Move s .timerFn
      { s with mpm := sprdMpmDeactiveTimerFn s.mpm, timerRuns := s.timerRuns - 1 }

theorem step_move {s t : State ι κ} {op : Op ι κ} (hstep : step s op = some t) : Move s op t := by
  unfold step at hstep
  split at hstep
  next k p =>
    split at hstep
    next hk =>
      by_cases hcnt : s.activeCnt p = 0
      · simp only [sprdPmsDoUpMulti, hcnt] at hstep
        cases hstep
        exact .first hk hcnt
      · have hactive : (s.activeCnt p + 1 == 1) = false := by simpa using hcnt
        simp only [sprdPmsDoUpMulti, hactive] at hstep
        cases hstep
        exact .join hk hcnt
    next => cases hstep
  next k =>
    split at hstep
    next p hk =>
      cases hstep
      exact .mpmUp hk
    next => cases hstep
  next k immediately =>
    split at hstep
    next p hk =>
      by_cases hcnt : s.activeCnt p = 1
      · simp only [sprdPmsDoDownMulti, hcnt] at hstep
        cases hstep
        exact .last hk hcnt
      · by_cases hzero : s.activeCnt p = 0
        · simp only [sprdPmsDoDownMulti, hzero] at hstep
          cases hstep
          have hpart : Move s (.release k immediately) _ := .part hk hcnt
          rwa [hzero] at hpart
        · have hpos : 0 < s.activeCnt p := Nat.pos_of_ne_zero hzero
          have hdeactive : (s.activeCnt p - 1 == 0) = false := by
            rw [beq_eq_false_iff_ne]
            omega
          simp only [sprdPmsDoDownMulti, if_pos hpos, hdeactive] at hstep
          cases hstep
          exact .part hk hcnt
    next => cases hstep
  next k later =>
    split at hstep
    next p immediately hk =>
      cases hstep
      exact .mpmDown hk
    next => cases hstep
  next =>
    split at hstep
    next =>
      cases hstep
      exact .timerFire
    next => cases hstep
  next =>
    split at hstep
    next =>
      cases hstep
      exact .timerFn
    next => cases hstep

def Caller.On (p : ι) (c : Caller ι) : Prop := c = .upPending p ∨ c = .holding p

instance (p : ι) : DecidablePred (Caller.On p) := fun _ => instDecidableOr

def Caller.isUp : Caller ι → Bool
  | upPending _ => true
  | _ => false

def Caller.isDown : Caller ι → Bool
  | downPending _ _ => true
  | _ => false

variable [Fintype ι] [Fintype κ]

def pendingUps (s : State ι κ) : Nat := count fun k => (s.callers k).isUp = true

def pendingDowns (s : State ι κ) : Nat := count fun k => (s.callers k).isDown = true

def activePms (s : State ι κ) : Nat := count fun p => 0 < s.activeCnt p

/-- The power manager counts `p`: it is active, and no `sprd_mpm_up` of it is pending. -/
def Settled (s : State ι κ) (p : ι) : Prop :=
  0 < s.activeCnt p ∧ ∀ k, s.callers k ≠ .upPending p

instance (s : State ι κ) : DecidablePred (Settled s) := fun _ => instDecidableAnd

structure Inv (s : State ι κ) : Prop where
  active : ∀ p, s.activeCnt p = count fun k => (s.callers k).On p
  single : ∀ k k' p, s.callers k = .upPending p → s.callers k' = .upPending p → k = k'
  counts : s.mpm.upCnt + pendingUps s = activePms s + pendingDowns s
  settled : s.mpm.upCnt = count (Settled s) + pendingDowns s
  ok : s.mpm.Ok

section

variable {s t : State ι κ} {k : κ} {p : ι}

theorem Inv.active_pos (h : Inv s) (hk : (s.callers k).On p) : 0 < s.activeCnt p := by
  rw [h.active p]
  exact count_pos_iff.mpr ⟨k, hk⟩

theorem Inv.not_on (h : Inv s) (hcnt : s.activeCnt p = 0) (k : κ) : ¬(s.callers k).On p := by
  intro hk
  have := h.active_pos hk
  omega

theorem Inv.eq_of_one (h : Inv s) (hcnt : s.activeCnt p = 1) (hk : (s.callers k).On p) {k' : κ}
    (hk' : (s.callers k').On p) : k' = k := by
  have hupdate := count_update s.callers k .idle (Caller.On p)
  rw [← h.active p, hcnt] at hupdate
  have hidle : ¬Caller.On p (.idle : Caller ι) := by simp [Caller.On]
  simp only [hk, hidle, if_true, if_false] at hupdate
  by_contra hne
  have hpos : 0 < count fun j => Caller.On p (update s.callers k .idle j) :=
    count_pos_iff.mpr ⟨k', by rwa [update_of_ne hne]⟩
  omega

theorem Inv.update (h : Inv s) {t : State ι κ} {c : Caller ι} (hok : t.mpm.Ok)
    (hcallers : t.callers = update s.callers k c)
    (hcnt : ∀ q, q ≠ p → t.activeCnt q = s.activeCnt q)
    (hother : ∀ q, q ≠ p → ¬(s.callers k).On q ∧ ¬c.On q)
    (hon : t.activeCnt p + (if (s.callers k).On p then 1 else 0) =
      s.activeCnt p + (if c.On p then 1 else 0))
    (hfirst : c = .upPending p → s.activeCnt p = 0)
    (hcounts : t.mpm.upCnt + (if c.isUp then 1 else 0 : Nat) +
        (if 0 < s.activeCnt p then 1 else 0 : Nat) + (if (s.callers k).isDown then 1 else 0 : Nat) =
      s.mpm.upCnt + (if (s.callers k).isUp then 1 else 0 : Nat) +
        (if 0 < t.activeCnt p then 1 else 0 : Nat) + (if c.isDown then 1 else 0 : Nat))
    (hsettled : t.mpm.upCnt + (if Settled s p then 1 else 0 : Nat) +
        (if (s.callers k).isDown then 1 else 0 : Nat) =
      s.mpm.upCnt + (if Settled t p then 1 else 0 : Nat) + (if c.isDown then 1 else 0 : Nat)) :
    Inv t := by
  have hdowns := count_update s.callers k c (fun c => c.isDown = true)
  rw [← hcallers] at hdowns
  refine ⟨fun q => ?_, fun j j' q hj hj' => ?_, ?_, ?_, hok⟩
  · have hupdate := count_update s.callers k c (Caller.On q)
    rw [← hcallers, ← h.active q] at hupdate
    by_cases hq : q = p
    · subst hq
      omega
    · rw [if_neg (hother q hq).1, if_neg (hother q hq).2] at hupdate
      rw [hcnt q hq]
      exact hupdate.symm
  · rw [hcallers] at hj hj'
    by_cases hc : c = .upPending q
    · have hq : q = p := by
        by_contra hq
        exact (hother q hq).2 (.inl hc)
      subst hq
      have hnone := h.not_on (hfirst hc)
      have heq : ∀ i, Function.update s.callers k c i = .upPending q → i = k := by
        intro i hi
        by_contra hne
        rw [update_of_ne hne] at hi
        exact hnone i (.inl hi)
      rw [heq j hj, heq j' hj']
    · have hold : ∀ i, Function.update s.callers k c i = .upPending q →
          s.callers i = .upPending q := by
        intro i hi
        by_cases hik : i = k
        · subst hik
          rw [update_self] at hi
          exact absurd hi hc
        · rwa [update_of_ne hik] at hi
      exact h.single j j' q (hold j hj) (hold j' hj')
  · have hups := count_update s.callers k c (fun c => c.isUp = true)
    have hactive := count_change (P := fun q => 0 < t.activeCnt q)
      (Q := fun q => 0 < s.activeCnt q) p
      fun q hq => by rw [hcnt q hq]
    have hold := h.counts
    rw [← hcallers] at hups
    simp only [pendingUps, pendingDowns, activePms] at hold ⊢
    omega
  · have hchange := count_change (P := Settled t) (Q := Settled s) p fun q hq => by
      unfold Settled
      rw [hcnt q hq, hcallers]
      refine and_congr Iff.rfl (forall_congr' fun j => ?_)
      by_cases hj : j = k
      · subst hj
        rw [update_self]
        exact iff_of_true (fun he => (hother q hq).2 (.inl he))
          (fun he => (hother q hq).1 (.inl he))
      · rw [update_of_ne hj]
    have hold := h.settled
    simp only [pendingDowns] at hold ⊢
    omega

theorem inv_init (laterIdle : UInt32) : Inv (State.init laterIdle : State ι κ) := by
  have hon : ∀ p : ι, ¬Caller.On p (.idle : Caller ι) := by simp [Caller.On]
  refine ⟨fun p => ?_, fun _ _ _ hk => ?_, ?_, ?_, .create laterIdle⟩
  · exact (count_eq_zero_iff.mpr fun k => hon p).symm
  · cases hk
  · have hup : pendingUps (State.init laterIdle : State ι κ) = 0 :=
      count_eq_zero_iff.mpr fun k => by simp [State.init, Caller.isUp]
    have hdown : pendingDowns (State.init laterIdle : State ι κ) = 0 :=
      count_eq_zero_iff.mpr fun k => by simp [State.init, Caller.isDown]
    have hactive : activePms (State.init laterIdle : State ι κ) = 0 :=
      count_eq_zero_iff.mpr fun p => by simp [State.init]
    rw [hup, hdown, hactive]
    rfl
  · have hdown : pendingDowns (State.init laterIdle : State ι κ) = 0 :=
      count_eq_zero_iff.mpr fun k => by simp [State.init, Caller.isDown]
    have hsettled : count (Settled (State.init laterIdle : State ι κ)) = 0 :=
      count_eq_zero_iff.mpr fun p => by simp [State.init, Settled]
    rw [hdown, hsettled]
    rfl

theorem Inv.upCnt_pos (h : Inv s) (hdown : ∃ k, (s.callers k).isDown = true) :
    0 < s.mpm.upCnt := by
  have hpos : 0 < pendingDowns s := count_pos_iff.mpr hdown
  have := h.settled
  omega

theorem inv_step {op : Op ι κ} (h : Inv s) (hstep : step s op = some t) : Inv t := by
  have hmove := step_move hstep
  cases hmove with
  | @first k p hk hcnt =>
    have hnone : ¬Settled s p := fun hs => absurd hcnt (Nat.pos_iff_ne_zero.mp hs.1)
    have hpending : ¬Settled { s with
        activeCnt := Function.update s.activeCnt p 1
        callers := Function.update s.callers k (.upPending p) } p :=
      fun hs => hs.2 k (update_self ..)
    refine h.update (k := k) (p := p) h.ok rfl (fun q hq => update_of_ne hq _ _) (fun q hq => ?_) ?_
      (fun _ => hcnt) ?_ ?_
    · simp [hk, Caller.On, Ne.symm hq]
    · simp [hk, hcnt, Caller.On]
    · simp [hk, hcnt, Caller.isUp, Caller.isDown]
    · simp [hk, hnone, hpending, Caller.isDown]
  | @join k p hk hcnt =>
    have hpos : 0 < s.activeCnt p := Nat.pos_of_ne_zero hcnt
    have hiff : Settled { s with
        activeCnt := Function.update s.activeCnt p (s.activeCnt p + 1)
        callers := Function.update s.callers k (.holding p) } p ↔ Settled s p := by
      refine and_congr (by simp [hpos]) (forall_congr' fun j => ?_)
      by_cases hj : j = k
      · subst hj
        simp [hk]
      · simp [update_of_ne hj]
    refine h.update (k := k) (p := p) h.ok rfl (fun q hq => update_of_ne hq _ _) (fun q hq => ?_) ?_
      (fun he => by cases he) ?_ ?_
    · simp [hk, Caller.On, Ne.symm hq]
    · simp [hk, Caller.On]
    · simp [hk, hpos, Caller.isUp, Caller.isDown]
    · simp only [hiff, hk]
      rfl
  | @mpmUp k p hk =>
    have hpos : 0 < s.activeCnt p := h.active_pos (.inl hk)
    have hpending : ¬Settled s p := fun hs => hs.2 k hk
    have hsettled : Settled { s with
        mpm := sprdMpmUp s.mpm
        callers := Function.update s.callers k (.holding p) } p := by
      refine ⟨hpos, fun j hj => ?_⟩
      have hj' : Function.update s.callers k (.holding p) j = .upPending p := hj
      by_cases hjk : j = k
      · subst hjk
        simp at hj'
      · rw [update_of_ne hjk] at hj'
        exact hjk (h.single j k p hj' hk)
    refine h.update (k := k) (p := p) h.ok.up rfl (fun _ _ => rfl) (fun q hq => ?_) ?_
      (fun he => by cases he) ?_ ?_
    · simp [hk, Caller.On, Ne.symm hq]
    · simp [hk, Caller.On]
    · simp [hk, hpos, Caller.isUp, Caller.isDown]
    · simp [hk, hpending, hsettled, Caller.isDown]
  | @last k p immediately hk hcnt =>
    have hsettled : Settled s p := by
      refine ⟨by omega, fun j hj => ?_⟩
      rw [h.eq_of_one hcnt (.inr hk) (.inl hj), hk] at hj
      cases hj
    have hnone : ¬Settled { s with
        activeCnt := Function.update s.activeCnt p 0
        callers := Function.update s.callers k (.downPending p immediately) } p :=
      fun hs => absurd hs.1 (by simp)
    refine h.update (k := k) (p := p) h.ok rfl (fun q hq => update_of_ne hq _ _) (fun q hq => ?_) ?_
      (fun he => by cases he) ?_ ?_
    · simp [hk, Caller.On, Ne.symm hq]
    · simp [hk, hcnt, Caller.On]
    · simp [hk, hcnt, Caller.isUp, Caller.isDown]
    · simp [hk, hsettled, hnone, Caller.isDown]
  | @part k p immediately hk hcnt =>
    have hpos : 0 < s.activeCnt p := h.active_pos (.inr hk)
    have hleft : 0 < s.activeCnt p - 1 := by omega
    have hiff : Settled { s with
        activeCnt := Function.update s.activeCnt p (s.activeCnt p - 1)
        callers := Function.update s.callers k .idle } p ↔ Settled s p := by
      refine and_congr (by simp [hpos, hleft]) (forall_congr' fun j => ?_)
      by_cases hj : j = k
      · subst hj
        simp [hk]
      · simp [update_of_ne hj]
    refine h.update (k := k) (p := p) h.ok rfl (fun q hq => update_of_ne hq _ _) (fun q hq => ?_) ?_
      (fun he => by cases he) ?_ ?_
    · simp [hk, Caller.On, Ne.symm hq]
    · simp [hk, Caller.On]
      omega
    · simp [hk, hpos, hleft, Caller.isUp, Caller.isDown]
    · simp only [hiff, hk]
      rfl
  | @mpmDown k p immediately later hk =>
    have hiff : Settled { s with
        mpm := sprdMpmDown s.mpm immediately later
        callers := Function.update s.callers k .idle } p ↔ Settled s p := by
      refine and_congr Iff.rfl (forall_congr' fun j => ?_)
      by_cases hj : j = k
      · subst hj
        simp [hk]
      · simp [update_of_ne hj]
    have hup := h.upCnt_pos ⟨k, by rw [hk]; rfl⟩
    refine h.update (k := k) (p := p) (h.ok.down hup _ _) rfl (fun _ _ => rfl) (fun q hq => ?_) ?_
      (fun he => by cases he) ?_ ?_
    · simp [hk, Caller.On]
    · simp [hk, Caller.On]
    · simp [hk, Caller.isUp, Caller.isDown]
      omega
    · simp only [hiff, hk, sprdMpmDown_upCnt]
      simp [Caller.isDown]
      omega
  | timerFire => exact ⟨h.active, h.single, h.counts, h.settled, ⟨h.ok.expires, h.ok.busy⟩⟩
  | timerFn =>
    refine ⟨h.active, h.single, ?_, ?_, h.ok.timerFn⟩
    · simp only [sprdMpmDeactiveTimerFn_upCnt]
      exact h.counts
    · simp only [sprdMpmDeactiveTimerFn_upCnt]
      exact h.settled

/-- The caller `k` holds `p`, and no `sprd_mpm_up` of `p` is pending. -/
structure Held (s : State ι κ) (k : κ) (p : ι) : Prop where
  holding : s.callers k = .holding p
  noPending : ∀ j, s.callers j ≠ .upPending p

theorem Held.mpmState (hheld : Held s k p) (h : Inv s) : s.mpm.mpmState = .busy := by
  have hpos : 0 < count (Settled s) :=
    count_pos_iff.mpr ⟨p, h.active_pos (.inr hheld.holding), hheld.noPending⟩
  have := h.settled
  exact h.ok.busy (by omega)

theorem Held.step {op : Op ι κ} (hheld : Held s k p) (h : Inv s)
    (hop : ∀ immediately, op ≠ .release k immediately) (hstep : step s op = some t) :
    Held t k p := by
  obtain ⟨hk, hnone⟩ := hheld
  have hpos : s.activeCnt p ≠ 0 := Nat.pos_iff_ne_zero.mp (h.active_pos (.inr hk))
  have hkeep : ∀ {j : κ} {c : Caller ι}, j ≠ k → c ≠ .upPending p →
      Function.update s.callers j c k = .holding p ∧
        ∀ i, Function.update s.callers j c i ≠ .upPending p := by
    intro j c hj hc
    refine ⟨by rwa [update_of_ne hj.symm], fun i => ?_⟩
    by_cases hi : i = j
    · subst hi
      rwa [update_self]
    · rw [update_of_ne hi]
      exact hnone i
  have hmove := step_move hstep
  cases hmove with
  | @first j q hj hcnt =>
    have hq : q ≠ p := fun he => hpos (he ▸ hcnt)
    have hkept := hkeep (j := j) (c := .upPending q) (fun he => by simp [he, hk] at hj)
      (fun he => hq (Caller.upPending.inj he))
    exact ⟨hkept.1, hkept.2⟩
  | @join j q hj =>
    have hkept := hkeep (j := j) (c := .holding q) (fun he => by simp [he, hk] at hj) (by simp)
    exact ⟨hkept.1, hkept.2⟩
  | @mpmUp j q hj =>
    have hkept := hkeep (j := j) (c := .holding q) (fun he => by simp [he, hk] at hj) (by simp)
    exact ⟨hkept.1, hkept.2⟩
  | @last j q immediately hj =>
    have hkept := hkeep (j := j) (c := .downPending q immediately)
      (fun he => hop immediately (by rw [he])) (by simp)
    exact ⟨hkept.1, hkept.2⟩
  | @part j q immediately hj =>
    have hkept := hkeep (j := j) (c := .idle) (fun he => hop immediately (by rw [he])) (by simp)
    exact ⟨hkept.1, hkept.2⟩
  | @mpmDown j q immediately later hj =>
    have hkept := hkeep (j := j) (c := .idle) (fun he => by simp [he, hk] at hj) (by simp)
    exact ⟨hkept.1, hkept.2⟩
  | timerFire => exact ⟨hk, hnone⟩
  | timerFn => exact ⟨hk, hnone⟩

/-- What the counts and the state promise in a state of a run. -/
structure Sound (s : State ι κ) : Prop where
  counts : s.mpm.upCnt + pendingUps s - pendingDowns s = activePms s
  nonneg : 0 ≤ s.mpm.upCnt
  down_pos : ∀ k, (s.callers k).isDown = true → 0 < s.mpm.upCnt
  busy : ∀ k p, Held s k p → ∀ t,
    Transition.Reaches step (fun _ op => ∀ immediately, op ≠ .release k immediately) s t →
      t.mpm.mpmState = .busy

theorem Inv.sound (h : Inv s) : Sound s where
  counts := by
    have := h.counts
    omega
  nonneg := by
    have := h.settled
    omega
  down_pos k hk := h.upCnt_pos ⟨k, hk⟩
  busy k p hheld t hreaches := by
    have hrun := hreaches.invariant (P := fun t => Inv t ∧ Held t k p) ⟨h, hheld⟩
      fun _ _ _ hinv hop hstep => ⟨inv_step hinv.1 hstep, hinv.2.step hinv.1 hop hstep⟩
    exact hrun.2.mpmState hrun.1

end

end Busy

end ModemSupport.Power
