import ModemSupport.Cm.MbimMain

/-! When the main thread sleeps for a day it has decided on the variables as they are, as long as
no signal falls between its last test of the changed variable and its wait. -/

namespace ModemSupport.Cm.MbimMain

open Lib.Transition List Option

theorem Var.forall_iff {p : Var → Prop} : (∀ v, p v) ↔
    p .ReadyState ∧ p .RegisterState ∧ p .PacketServiceState ∧ p .ActivationState := by
  refine ⟨fun h => ⟨h _, h _, h _, h _⟩, ?_⟩
  rintro ⟨hready, hregister, hpacket, hactivation⟩ v
  cases v <;> assumption

instance {p : Var → Prop} [DecidablePred p] : Decidable (∀ v, p v) :=
  decidable_of_iff _ Var.forall_iff.symm

def Pc.place : Pc → Option Nat
  | .testTid => some 1
  | .testOpen => some 2
  | .openDevice => some 3
  | .reset _ => some 4
  | .deviceCaps => some 5
  | .ready1 => some 6
  | .readyQuery => some 7
  | .ready2 => some 8
  | .register1 => some 9
  | .registerQuery => some 10
  | .register2 => some 11
  | .packet1 => some 12
  | .packetQuery => some 13
  | .packetDetached => some 14
  | .packetSet => some 15
  | .packet2 => some 16
  | .activation1 => some 17
  | .connectQuery => some 18
  | .activation2 => some 19
  | .setConnect => some 20
  | .activation3 => some 21
  | .ipConfig => some 22
  | .lock .day | .held .day | .blocked .day => some 23
  | _ => none

def Var.first : Var → Nat
  | .ReadyState => 6
  | .RegisterState => 9
  | .PacketServiceState => 12
  | .ActivationState => 17

def Var.last : Var → Nat
  | .ReadyState => 8
  | .RegisterState => 11
  | .PacketServiceState => 16
  | .ActivationState => 21

/-- What a pass has done with a variable: there is no pass, it has not read it, it will read it
again, or it reads it no more. -/
inductive Phase where
  | out
  | before
  | between
  | after
  deriving DecidableEq

def Pc.phase (pc : Pc) (v : Var) : Phase :=
  match pc.place with
  | none => .out
  | some n => if n ≤ v.first then .before else if n ≤ v.last then .between else .after

def Pc.isBlocked : Pc → Bool
  | .blocked _ => true
  | _ => false

/-- The reader thread has changed the variable and not signalled it. -/
def State.changed (s : State) (v : Var) : Bool :=
  s.reader == .notify (some v) || s.reader == .locked (some v)

/-- A handler or the end of the reader thread has changed `mbim_quit` and not signalled it. -/
def State.quitting (s : State) : Bool :=
  s.handlers != 0 || s.handler == .locked || s.reader == .notify none || s.reader == .locked none

/-- A signal behind a change of the variable, or of `mbim_quit`, is to come. -/
def State.due (s : State) (v : Var) : Bool :=
  s.changed v || s.quitting

/-- The main thread, asleep for a day with no signal to come, has seen every change. -/
def Attentive (s : State) : Prop :=
  s.pc = .blocked .day → (∀ v, s.changed v = false) → s.quitting = false →
    s.mbimQuit = 0 ∧ ∀ v, ∀ x ∈ s.seen v, s.vars v = x

/-- The condition on a step: a signal finds the main thread in a wait, or in front of its last
test of the changed variable, or another signal of `mbim_quit` is to come. -/
def Heard (s : State) : Label → Prop
  | .reader => ∀ w, s.reader = .locked w → s.pc.isBlocked ∨ match w with
    | some v => s.pc.phase v ≠ .after ∨ s.handlers ≠ 0 ∨ ∀ x ∈ s.seen v, x = s.vars v
    | none => s.pc.place = none ∨ s.handlers ≠ 0
  | .handler => s.handler = .locked → s.pc.isBlocked ∨ s.pc.place = none ∨ s.handlers ≠ 0 ∨
      s.reader = .notify none
  | _ => True

/-- What has been read of a variable, by what the pass has done with it. -/
def Safe (s : State) (v : Var) : Prop :=
  (s.pc.phase v = .before → s.seen v = none) ∧
    (s.pc.phase v = .after → ∀ x ∈ s.seen v, x ≠ s.vars v → s.due v)

/-- A step of the main thread that neither reads nor changes a variable. -/
def Phase.leads : Phase → Phase → Bool
  | .before, _ => true
  | .after, .before => false
  | .after, _ => true
  | _, .out | _, .between => true
  | _, _ => false

variable {s t : State}

theorem safe_out {v : Var} (h : s.pc.phase v = .out) : Safe s v := by
  constructor <;> intro hphase <;> rw [h] at hphase <;> cases hphase

theorem Safe.leads {v : Var} (h : Safe s v) (hleads : (s.pc.phase v).leads (t.pc.phase v))
    (hvars : t.vars v = s.vars v) (hseen : t.seen v = s.seen v)
    (hdue : s.due v → t.due v) : Safe t v := by
  unfold Safe
  rw [hvars, hseen]
  constructor
  · intro hbefore
    apply h.1
    rw [hbefore] at hleads
    revert hleads
    cases s.pc.phase v <;> decide
  · intro hafter x hx hne
    rw [hafter] at hleads
    cases hphase : s.pc.phase v with
    | out =>
      rw [hphase] at hleads
      cases hleads
    | before =>
      rw [h.1 hphase] at hx
      cases hx
    | between =>
      rw [hphase] at hleads
      cases hleads
    | after => exact hdue (h.2 hphase x hx hne)

theorem safe_read {v : Var} (hphase : s.pc.phase v ≠ .before) (hseen : s.seen v = some (s.vars v)) :
    Safe s v := by
  refine ⟨fun hbefore => absurd hbefore hphase, fun _ x hx hne => ?_⟩
  rw [hseen] at hx
  exact absurd (some.inj hx).symm hne

theorem safe_test (h : ∀ u, Safe s u) (v : Var) (p : UInt32 → Bool) {yes no : Pc}
    (hread : yes.phase v ≠ .before ∧ no.phase v ≠ .before)
    (hother : ∀ u, u ≠ v → (s.pc.phase u).leads (yes.phase u) ∧ (s.pc.phase u).leads (no.phase u)) :
    ∀ u, Safe (s.test v p yes no) u := by
  intro u
  have hpc : (s.test v p yes no).pc = yes ∨ (s.test v p yes no).pc = no := by
    unfold State.test
    by_cases hp : p (s.vars v) = true
    · exact .inl (if_pos hp)
    · exact .inr (if_neg hp)
  by_cases heq : u = v
  · subst heq
    apply safe_read
    · rcases hpc with hpc | hpc
      · rw [hpc]
        exact hread.1
      · rw [hpc]
        exact hread.2
    · simp [State.test]
  · refine (h u).leads ?_ rfl (by simp [State.test, heq]) id
    rcases hpc with hpc | hpc
    · rw [hpc]
      exact (hother u heq).1
    · rw [hpc]
      exact (hother u heq).2

theorem safe_assign (h : ∀ u, Safe s u) (v : Var) (hseen : t.seen = s.seen)
    (hvars : ∀ u, u ≠ v → t.vars u = s.vars u) (hdue : t.due = s.due)
    (hafter : t.pc.phase v ≠ .after)
    (hleads : ∀ u, (s.pc.phase u).leads (t.pc.phase u)) : ∀ u, Safe t u := by
  intro u
  by_cases heq : u = v
  · subst heq
    refine ⟨fun hbefore => ?_, fun hphase => absurd hphase hafter⟩
    rw [hseen]
    have hlead := hleads u
    rw [hbefore] at hlead
    apply (h u).1
    revert hlead
    cases s.pc.phase u <;> decide
  · exact (h u).leads (hleads u) (hvars u heq) (by rw [hseen]) (by rw [hdue]; exact id)

theorem safe_move (h : ∀ u, Safe s u) (hvars : t.vars = s.vars) (hseen : t.seen = s.seen)
    (hdue : t.due = s.due) (hleads : ∀ u, (s.pc.phase u).leads (t.pc.phase u)) :
    ∀ u, Safe t u := fun u =>
  (h u).leads (hleads u) (by rw [hvars]) (by rw [hseen]) (by rw [hdue]; exact id)

theorem leads_ite {c : Prop} [Decidable c] {pc yes no : Pc}
    (hyes : ∀ u, (pc.phase u).leads (yes.phase u)) (hno : ∀ u, (pc.phase u).leads (no.phase u)) :
    ∀ u, (pc.phase u).leads ((if c then yes else no).phase u) := by
  intro u
  split
  · exact hyes u
  · exact hno u

theorem safe_ask (h : ∀ u, Safe s u) (o : Outcome) {next : Pc}
    (hleads : ∀ u, (s.pc.phase u).leads (next.phase u)) : ∀ u, Safe (s.ask o next) u := by
  refine safe_move h rfl rfl rfl (leads_ite ?_ hleads)
  intro u
  cases s.pc.phase u <;> rfl

theorem safe_query (h : ∀ u, Safe s u) (v : Var) (o : Outcome) {next : Pc}
    (hafter : next.phase v ≠ .after) (hleads : ∀ u, (s.pc.phase u).leads (next.phase u)) :
    ∀ u, Safe (s.query v o next) u := by
  cases herr : o.err with
  | true =>
    have hexit : s.query v o next = s.ask o next := by simp [State.query, herr]
    rw [hexit]
    exact safe_ask h o hleads
  | false =>
    have hpc : (s.query v o next).pc = next := by simp [State.query, State.ask, State.setVar, herr]
    apply safe_assign h v
    · simp [State.query, State.ask, State.setVar, herr]
    · intro u hu
      simp [State.query, State.ask, State.setVar, herr, hu]
    · funext u
      simp [State.query, State.ask, State.setVar, State.due, State.changed, State.quitting, herr]
    · rwa [hpc]
    · rwa [hpc]

theorem main_safe {o : Outcome} (h : ∀ v, Safe s v) (hstep : mainStep s o = some t) :
    ∀ v, Safe t v := by
  cases hpc : s.pc <;> simp only [mainStep, hpc] at hstep
  case testQuit =>
    obtain rfl := some.inj hstep
    exact fun v => ⟨fun _ => rfl, fun _ x hx => nomatch hx⟩
  case testTid | testOpen | openDevice | updateQuit | updateTid =>
    obtain rfl := some.inj hstep
    refine safe_move h rfl rfl rfl ?_
    rw [hpc]
    exact leads_ite (by decide) (by decide)
  case reset v =>
    obtain rfl := some.inj hstep
    refine safe_assign h v rfl ?_ rfl ?_ ?_
    · intro u hu
      simp [State.setVar, hu]
    · show (resetNext v).phase v ≠ .after
      cases v <;> decide
    · rw [hpc]
      show ∀ u, ((Pc.reset v).phase u).leads ((resetNext v).phase u)
      cases v <;> decide
  case deviceCaps | ipConfig =>
    obtain rfl := some.inj hstep
    exact safe_ask h o (by rw [hpc]; decide)
  case ready1 | ready2 =>
    obtain rfl := some.inj hstep
    exact safe_test h .ReadyState _ (by decide) (by rw [hpc]; decide)
  case readyQuery =>
    obtain rfl := some.inj hstep
    exact safe_query h .ReadyState o (by decide) (by rw [hpc]; decide)
  case register1 | register2 =>
    obtain rfl := some.inj hstep
    exact safe_test h .RegisterState _ (by decide) (by rw [hpc]; decide)
  case registerQuery =>
    obtain rfl := some.inj hstep
    exact safe_query h .RegisterState o (by decide) (by rw [hpc]; decide)
  case packet1 | packetDetached | packet2 =>
    obtain rfl := some.inj hstep
    exact safe_test h .PacketServiceState _ (by decide) (by rw [hpc]; decide)
  case packetQuery | packetSet =>
    obtain rfl := some.inj hstep
    exact safe_query h .PacketServiceState o (by decide) (by rw [hpc]; decide)
  case activation1 | activation2 | activation3 =>
    obtain rfl := some.inj hstep
    exact safe_test h .ActivationState _ (by decide) (by rw [hpc]; decide)
  case connectQuery | setConnect =>
    obtain rfl := some.inj hstep
    exact safe_query h .ActivationState o (by decide) (by rw [hpc]; decide)
  case lock w =>
    split at hstep
    next =>
      obtain rfl := some.inj hstep
      refine safe_move h rfl rfl rfl ?_
      rw [hpc]
      show ∀ u, ((Pc.lock w).phase u).leads ((Pc.held w).phase u)
      cases w <;> decide
    next => cases hstep
  case held w =>
    obtain rfl := some.inj hstep
    refine safe_move h rfl rfl rfl ?_
    rw [hpc]
    show ∀ u, ((Pc.held w).phase u).leads ((Pc.blocked w).phase u)
    cases w <;> decide
  case woken w timeout =>
    split at hstep
    next =>
      obtain rfl := some.inj hstep
      refine safe_move h rfl rfl rfl ?_
      rw [hpc]
      exact leads_ite (fun _ => rfl) (fun _ => rfl)
    next => cases hstep
  case blocked | exited => cases hstep

structure Inv (s : State) : Prop where
  safe : ∀ v, Safe s v
  quit : s.pc.place ≠ none → s.mbimQuit ≠ 0 → s.quitting

theorem inv_init : Inv init where
  safe _ := safe_out rfl
  quit hplace := absurd rfl hplace

theorem main_frame {o : Outcome} (hstep : mainStep s o = some t) :
    t.mbimQuit = s.mbimQuit ∧ t.quitting = s.quitting := by
  have hquery : ∀ v next, (s.query v o next).mbimQuit = s.mbimQuit ∧
      (s.query v o next).quitting = s.quitting := by
    intro v next
    unfold State.query
    show State.mbimQuit (if _ then _ else _) = _ ∧ State.quitting (if _ then _ else _) = _
    split <;> exact ⟨rfl, rfl⟩
  cases hpc : s.pc <;> simp only [mainStep, hpc] at hstep
  case readyQuery | registerQuery | packetQuery | packetSet | connectQuery | setConnect =>
    obtain rfl := some.inj hstep
    exact hquery _ _
  case lock | woken =>
    split at hstep
    next =>
      obtain rfl := some.inj hstep
      exact ⟨rfl, rfl⟩
    next => cases hstep
  case blocked | exited => cases hstep
  all_goals
    obtain rfl := some.inj hstep
    exact ⟨rfl, rfl⟩

theorem main_place {o : Outcome} (hstep : mainStep s o = some t) (hplace : t.pc.place ≠ none) :
    s.pc.place ≠ none ∨ s.mbimQuit = 0 := by
  cases hpc : s.pc <;> simp only [mainStep, hpc] at hstep
  case testQuit =>
    obtain rfl := some.inj hstep
    by_cases hquit : s.mbimQuit = 0
    · exact .inr hquit
    · simp [hquit, Pc.place] at hplace
  case lock w =>
    cases w with
    | day => exact .inl (by decide)
    | retry | settle =>
      split at hstep
      next =>
        obtain rfl := some.inj hstep
        exact absurd rfl hplace
      next => cases hstep
  case held w =>
    cases w with
    | day => exact .inl (by decide)
    | retry | settle =>
      obtain rfl := some.inj hstep
      exact absurd rfl hplace
  case woken w timeout =>
    split at hstep
    next =>
      obtain rfl := some.inj hstep
      revert hplace
      show Pc.place (if _ then _ else _) ≠ none → _
      split <;> exact fun hplace => absurd rfl hplace
    next => cases hstep
  case updateQuit | updateTid =>
    obtain rfl := some.inj hstep
    revert hplace
    show Pc.place (if _ then _ else _) ≠ none → _
    split <;> exact fun hplace => absurd rfl hplace
  case blocked | exited => cases hstep
  all_goals exact .inl (by simp [Pc.place])

theorem Inv.main {o : Outcome} (h : Inv s) (hstep : mainStep s o = some t) : Inv t := by
  refine ⟨main_safe h.safe hstep, fun hplace hquit => ?_⟩
  obtain ⟨hsame, hquitting⟩ := main_frame hstep
  rw [hsame] at hquit
  rw [hquitting]
  rcases main_place hstep hplace with hplace | hzero
  · exact h.quit hplace hquit
  · exact absurd hzero hquit

theorem inv_out (h : s.pc.place = none) : Inv s where
  safe v := safe_out (by simp [Pc.phase, h])
  quit hplace := absurd h hplace

theorem due_iff {v : Var} : s.due v ↔ s.changed v ∨ s.quitting :=
  Bool.or_eq_true_iff

theorem due_of_changed {v : Var} (h : s.changed v) : s.due v := due_iff.mpr (.inl h)

theorem due_of_quitting {v : Var} (h : s.quitting) : s.due v := due_iff.mpr (.inr h)

theorem Inv.other (h : Inv s) (hpc : t.pc = s.pc) (hseen : t.seen = s.seen)
    (hvars : ∀ v, t.changed v = false → t.vars v = s.vars v)
    (hchanged : ∀ v, s.changed v →
      t.due v ∨ s.pc.phase v ≠ .after ∨ ∀ x ∈ s.seen v, x = s.vars v)
    (hquit : s.pc.place ≠ none →
      t.quitting ∨ t.mbimQuit = s.mbimQuit ∧ (s.quitting → t.quitting)) :
    Inv t := by
  constructor
  · intro v
    refine ⟨fun hbefore => ?_, fun hafter x hx hne => ?_⟩
    · rw [hseen]
      exact (h.safe v).1 (by rwa [← hpc])
    · rw [hpc] at hafter
      rw [hseen] at hx
      have hplace : s.pc.place ≠ none := by
        intro hnone
        simp [Pc.phase, hnone] at hafter
      cases htold : t.changed v with
      | true => exact due_of_changed htold
      | false =>
        rw [hvars v htold] at hne
        rcases due_iff.mp ((h.safe v).2 hafter x hx hne) with hpending | hquitting
        · rcases hchanged v hpending with hdue | hphase | hequal
          · exact hdue
          · exact absurd hafter hphase
          · exact absurd (hequal x hx) hne
        · rcases hquit hplace with hdue | ⟨_, hdue⟩
          · exact due_of_quitting hdue
          · exact due_of_quitting (hdue hquitting)
  · intro hplace hne
    rw [hpc] at hplace
    rcases hquit hplace with htold | ⟨hsame, htold⟩
    · exact htold
    · rw [hsame] at hne
      exact htold (h.quit hplace hne)

theorem condSignal_of_not_blocked (h : ¬ s.pc.isBlocked) : condSignal s = s := by
  unfold condSignal
  split
  next w hpc => simp [hpc, Pc.isBlocked] at h
  next => rfl

theorem condSignal_place (h : s.pc.isBlocked) : (condSignal s).pc.place = none := by
  unfold condSignal
  split
  next => rfl
  next hpc =>
    cases hs : s.pc with
    | blocked w => exact absurd hs (hpc w)
    | _ => simp [hs, Pc.isBlocked] at h

theorem Inv.reader (h : Inv s) (hheard : Heard s .reader) (hstep : readerStep s = some t) :
    Inv t := by
  cases hreader : s.reader with
  | idle => simp [readerStep, hreader] at hstep
  | assign v new =>
    simp only [readerStep, hreader, some.injEq] at hstep
    subst hstep
    refine h.other rfl rfl ?_ ?_ ?_
    · intro u hu
      have hne : u ≠ v := by
        rintro rfl
        simp [State.changed] at hu
      simp [State.setVar, hne]
    · intro u hu
      simp [State.changed, hreader] at hu
    · intro _
      exact .inr ⟨rfl, by simp [State.quitting, State.setVar, hreader]⟩
  | notify v =>
    simp only [readerStep, hreader] at hstep
    split at hstep
    next =>
      obtain rfl := some.inj hstep
      refine h.other rfl rfl (fun _ _ => rfl) ?_ ?_
      · intro u hu
        refine .inl (due_of_changed ?_)
        simpa [State.changed, hreader] using hu
      · intro _
        exact .inr ⟨rfl, by simp [State.quitting, hreader]⟩
    next => cases hstep
  | locked v =>
    simp only [readerStep, hreader, some.injEq] at hstep
    subst hstep
    by_cases hblocked : s.pc.isBlocked
    · exact inv_out (condSignal_place hblocked)
    · have hunblocked := (hheard v hreader).resolve_left hblocked
      rw [condSignal_of_not_blocked hblocked]
      cases v with
      | some v =>
        refine h.other rfl rfl (fun _ _ => rfl) ?_ ?_
        · intro u hu
          obtain rfl : v = u := by simpa [State.changed, hreader] using hu
          rcases hunblocked with hphase | hhandlers | hequal
          · exact .inr (.inl hphase)
          · exact .inl (due_of_quitting (by simp [State.quitting, hhandlers]))
          · exact .inr (.inr hequal)
        · intro _
          exact .inr ⟨rfl, by simp [State.quitting, hreader]⟩
      | none =>
        refine h.other rfl rfl (fun _ _ => rfl) ?_ ?_
        · intro u hu
          simp [State.changed, hreader] at hu
        · intro hplace
          have hhandlers := hunblocked.resolve_left hplace
          exact .inl (by simp [State.quitting, hhandlers])
  | signalled v =>
    simp only [readerStep, hreader, some.injEq] at hstep
    subst hstep
    refine h.other rfl rfl (fun _ _ => rfl) ?_ ?_
    · intro u hu
      simp [State.changed, hreader] at hu
    · intro _
      refine .inr ⟨rfl, fun hquitting => ?_⟩
      simp only [State.quitting, hreader] at hquitting
      simp [State.quitting] at hquitting ⊢
      exact .inl (.inl hquitting)
  | quit =>
    simp only [readerStep, hreader, some.injEq] at hstep
    subst hstep
    refine h.other rfl rfl (fun _ _ => rfl) ?_ ?_
    · intro u hu
      simp [State.changed, hreader] at hu
    · intro _
      exact .inl (by simp [State.quitting])
  | gone => simp [readerStep, hreader] at hstep

theorem Inv.handler (h : Inv s) (hheard : Heard s .handler) (hstep : handlerStep s = some t) :
    Inv t := by
  cases hhandler : s.handler with
  | none =>
    simp only [handlerStep, hhandler] at hstep
    split at hstep
    next =>
      obtain rfl := some.inj hstep
      refine h.other rfl rfl (fun _ _ => rfl) (fun _ hu => .inl (due_of_changed hu)) ?_
      intro _
      exact .inl (by simp [State.quitting])
    next => cases hstep
  | locked =>
    simp only [handlerStep, hhandler, some.injEq] at hstep
    subst hstep
    by_cases hblocked : s.pc.isBlocked
    · exact inv_out (condSignal_place hblocked)
    · rw [condSignal_of_not_blocked hblocked]
      refine h.other rfl rfl (fun _ _ => rfl) (fun _ hu => .inl (due_of_changed hu)) ?_
      intro hplace
      rcases (hheard hhandler).resolve_left hblocked with hnone | hhandlers | hreader
      · exact absurd hnone hplace
      · exact .inl (by simp [State.quitting, hhandlers])
      · exact .inl (by simp [State.quitting, hreader])
  | signalled =>
    simp only [handlerStep, hhandler, some.injEq] at hstep
    subst hstep
    refine h.other rfl rfl (fun _ _ => rfl) (fun _ hu => .inl (due_of_changed hu)) ?_
    intro _
    exact .inr ⟨rfl, by simp [State.quitting, hhandler]⟩

theorem Inv.step {l : Label} (h : Inv s) (hheard : Heard s l) (hstep : step s l = some t) :
    Inv t := by
  cases l with
  | main o => exact h.main hstep
  | timeout | spurious =>
    simp only [MbimMain.step] at hstep
    split at hstep
    next =>
      obtain rfl := some.inj hstep
      exact inv_out rfl
    next => cases hstep
  | indicate v new =>
    simp only [MbimMain.step] at hstep
    split at hstep
    next hreader =>
      obtain rfl := some.inj hstep
      refine h.other rfl rfl (fun _ _ => rfl) ?_ ?_
      · intro u hu
        simp [State.changed, hreader] at hu
      · intro _
        refine .inr ⟨rfl, fun hquitting => ?_⟩
        simp only [State.quitting, hreader] at hquitting
        simp [State.quitting] at hquitting ⊢
        exact .inl (.inl hquitting)
    next => cases hstep
  | reader => exact h.reader hheard hstep
  | readerEnd =>
    simp only [MbimMain.step] at hstep
    split at hstep
    next hreader =>
      obtain rfl := some.inj hstep
      refine h.other rfl rfl (fun _ _ => rfl) ?_ ?_
      · intro u hu
        simp [State.changed, hreader] at hu
      · intro _
        exact .inr ⟨rfl, by simp [State.quitting, hreader]⟩
    next => cases hstep
  | sigaction =>
    obtain rfl := some.inj hstep
    refine h.other rfl rfl (fun _ _ => rfl) (fun _ hu => .inl (due_of_changed hu)) ?_
    intro _
    exact .inl (by simp [State.quitting])
  | handler => exact h.handler hheard hstep

theorem Inv.attentive (h : Inv s) : Attentive s := by
  intro hpc hchanged hquitting
  constructor
  · by_cases hzero : s.mbimQuit = 0
    · exact hzero
    · have hquit := h.quit (by rw [hpc]; decide) hzero
      rw [hquitting] at hquit
      cases hquit
  · intro v x hx
    have hafter : s.pc.phase v = .after := by
      rw [hpc]
      cases v <;> rfl
    by_cases heq : s.vars v = x
    · exact heq
    · have htold := (h.safe v).2 hafter x hx (fun h => heq h.symm)
      rw [State.due, hchanged v, hquitting] at htold
      cases htold

/-- Asleep for a day with no signal to come, the main thread has decided on the variables as they
are. -/
theorem never_sleeps_through (h : Reaches step Heard init s) : Attentive s :=
  (h.invariant inv_init fun _ _ _ hs hheard hstep => hs.step hheard hstep).attentive

instance (s : State) : (l : Label) → Decidable (Heard s l)
  | .reader =>
    match h : s.reader with
    | .locked (some v) => decidable_of_iff (s.pc.isBlocked ∨ s.pc.phase v ≠ .after ∨
        s.handlers ≠ 0 ∨ (s.seen v).all (· == s.vars v))
        (by simp [Heard, h, Option.all_eq_true])
    | .locked none => decidable_of_iff (s.pc.isBlocked ∨ s.pc.place = none ∨ s.handlers ≠ 0)
        (by simp [Heard, h])
    | .idle | .assign .. | .notify _ | .signalled _ | .quit | .gone => .isTrue (by simp [Heard, h])
  | .handler => inferInstanceAs (Decidable (s.handler = .locked → s.pc.isBlocked ∨
      s.pc.place = none ∨ s.handlers ≠ 0 ∨ s.reader = .notify none))
  | .main _ | .timeout | .spurious | .indicate .. | .readerEnd | .sigaction => .isTrue trivial

def quiet : Label := .main ⟨false, false, none⟩

def answer (x : UInt32) : Label := .main ⟨false, false, some x⟩

def bootUp : List Label :=
  replicate 10 quiet ++ [answer 1] ++ replicate 2 quiet ++ [answer 3] ++
    replicate 2 quiet ++ [answer 2] ++ replicate 3 quiet ++ [answer 2, quiet]

def hangUp : List Label := .indicate .ActivationState 3 :: replicate 4 .reader

def redial : List Label :=
  bootUp ++ [quiet, quiet] ++ hangUp ++ replicate 5 quiet ++ [.timeout] ++
    replicate 12 quiet ++ [answer 1] ++ replicate 4 quiet

theorem never_sleeps_through_redial :
    ∃ s, Reaches step Heard init s ∧ Attentive s ∧ s.pc = .blocked .day ∧
      (∀ v, s.changed v = false) ∧ s.quitting = false ∧ s.seen .ActivationState = some 1 := by
  have hrun : (run (guarded step Heard) init redial).any (fun s =>
      decide (s.pc = .blocked .day ∧ (∀ v, s.changed v = false) ∧ s.quitting = false ∧
        s.seen .ActivationState = some 1)) = true := by
    decide
  obtain ⟨s, hs, hlast⟩ := exists_of_run _ hrun
  exact ⟨s, hs, never_sleeps_through hs, hlast⟩

/-- The call ends, or a handler runs, between the last test and the wait. -/
theorem sleeps_through_hangUp :
    (∃ s, Reachable step init s ∧ ¬ Attentive s ∧ s.mbimQuit = 0 ∧
      s.seen .ActivationState = some 2 ∧ s.vars .ActivationState = 3) ∧
    ∃ s, Reachable step init s ∧ ¬ Attentive s ∧ s.mbimQuit = 1 := by
  constructor
  · have hrun : (run (guarded step fun _ _ => True) init (bootUp ++ hangUp ++ [quiet, quiet])).any
        (fun s => decide (s.pc = .blocked .day ∧ (∀ v, s.changed v = false) ∧
          s.quitting = false ∧ s.mbimQuit = 0 ∧ s.seen .ActivationState = some 2 ∧
          s.vars .ActivationState = 3)) = true := by
      decide
    obtain ⟨s, hs, hpc, hchanged, hquitting, hzero, hseen, hvar⟩ := exists_of_run _ hrun
    refine ⟨s, hs, fun h => ?_, hzero, hseen, hvar⟩
    have hsame := (h hpc hchanged hquitting).2 .ActivationState 2 hseen
    rw [hvar] at hsame
    exact absurd hsame (by decide)
  · have hrun : (run (guarded step fun _ _ => True) init
        (bootUp ++ [.sigaction] ++ replicate 3 .handler ++ [quiet, quiet])).any
        (fun s => decide (s.pc = .blocked .day ∧ (∀ v, s.changed v = false) ∧
          s.quitting = false ∧ s.mbimQuit = 1)) = true := by
      decide
    obtain ⟨s, hs, hpc, hchanged, hquitting, hone⟩ := exists_of_run _ hrun
    refine ⟨s, hs, fun h => ?_, hone⟩
    have hzero := (h hpc hchanged hquitting).1
    rw [hone] at hzero
    cases hzero

end ModemSupport.Cm.MbimMain
