import ModemSupport.Lib.Transition

/-! `gcom-locked`: the invocations for one modem, its lock directory and the PID file in it. -/

namespace ModemSupport.Rooter.GcomLocked

open Lib.Transition Option

/-- Where an invocation is: before its start; in front of `mkdir`; in front of the write of its
PID file; in front of `gcom`; in front of the last `rm -rf`; behind it; in front of `cat`; in
front of `kill -0` with the process id from the directory of a generation; in front of the
`rm -rf` of a stale directory; in `sleep`; or at its end. -/
inductive Pc where
  | idle
  | mkdir
  | writePid
  | gcom
  | finalRm
  | echo
  | cat
  | kill0 (otherPid generation : Nat)
  | staleRm (otherPid generation : Nat)
  | sleep
  | exited
  | killed
  deriving DecidableEq

/-- Between the successful `mkdir` and the last `rm -rf`. -/
def Pc.Holds : Pc → Prop
  | .writePid | .gcom | .finalRm => True
  | _ => False

def Pc.live : Pc → Bool
  | .idle | .exited | .killed => false
  | _ => true

/-- `LOCKDIR`: the invocation that has made it, how many directories have been made before it, and
what is in the PID file, once that is there. -/
structure LockDir where
  maker : Nat
  generation : Nat
  pidFile : Option Nat

structure Removal where
  remover : Nat
  maker : Nat
  makerLive : Bool
  deriving DecidableEq

/-- Process ids are natural numbers.  Ghosts: the number of directories made, and the removals. -/
structure State where
  pc : Nat → Pc
  lockDir : Option LockDir
  made : Nat
  removals : List Removal

def init : State := ⟨fun _ => .idle, none, 0, []⟩

inductive Label where
  | start (p : Nat)
  | step (p : Nat)
  | kill (p : Nat)

def State.goto (s : State) (p : Nat) (pc : Pc) : State :=
  { s with pc := fun q => if q = p then pc else s.pc q }

def State.mkdir (s : State) (p : Nat) : State :=
  match s.lockDir with
  | none =>
    { s.goto p .writePid with lockDir := some ⟨p, s.made, none⟩, made := s.made + 1 }
  | some _ => s.goto p .cat

/-- `echo "$$" > "${PIDFILE}"`, into the directory that is there. -/
def State.writePid (s : State) (p : Nat) : State :=
  { s.goto p .gcom with lockDir := s.lockDir.map fun d => { d with pidFile := some p } }

def State.cat (s : State) (p : Nat) : State :=
  match s.lockDir with
  | some ⟨_, generation, some otherPid⟩ => s.goto p (.kill0 otherPid generation)
  | _ => s.goto p .sleep

def State.rm (s : State) (p : Nat) (pc : Pc) : State :=
  { s.goto p pc with
    lockDir := none
    removals := s.removals ++
      s.lockDir.toList.map fun d => ⟨p, d.maker, (s.pc d.maker).live⟩ }

def step (s : State) : Label → Option State
  | .start p => if s.pc p = .idle then some (s.goto p .mkdir) else none
  | .kill p => if (s.pc p).live then some (s.goto p .killed) else none
  | .step p =>
    match s.pc p with
    | .mkdir => some (s.mkdir p)
    | .writePid => some (s.writePid p)
    | .gcom => some (s.goto p .finalRm)
    | .finalRm => some (s.rm p .echo)
    | .echo => some (s.goto p .exited)
    | .cat => some (s.cat p)
    | .kill0 otherPid generation =>
      some (s.goto p (if (s.pc otherPid).live then .sleep else .staleRm otherPid generation))
    | .staleRm _ _ => some (s.rm p .sleep)
    | .sleep => some (s.goto p .mkdir)
    | _ => none

/-- One invocation has the port of the modem, and no one removes the directory of another one that
lives. -/
structure Exclusive (s : State) : Prop where
  one : ∀ p q, (s.pc p).Holds → (s.pc q).Holds → p = q
  removals : ∀ x ∈ s.removals, x.remover = x.maker ∨ x.makerLive = false

def Pc.stale : Pc → Option Nat
  | .staleRm _ generation => some generation
  | _ => none

/-- A stale directory is still the one whose PID file has been read, if there is one. -/
def Unchanged (s : State) : Label → Prop
  | .step p => (s.pc p).stale.all (fun g => s.lockDir.all (·.generation = g)) = true
  | _ => True

instance (s : State) : (l : Label) → Decidable (Unchanged s l)
  | .step _ => inferInstanceAs (Decidable (_ = true))
  | .start _ | .kill _ => isTrue trivial

/-- What the place of an invocation says of the lock directory, in the runs whose stale directories
are unchanged. -/
def Knows (s : State) (p : Nat) : Pc → Prop
  | .writePid | .gcom | .finalRm => ∃ d, s.lockDir = some d ∧ d.maker = p
  | .kill0 otherPid generation => generation < s.made ∧ s.pc otherPid ≠ .idle ∧
      ∀ d, s.lockDir = some d → d.generation = generation → d.maker = otherPid
  | .staleRm otherPid generation => generation < s.made ∧ s.pc otherPid ≠ .idle ∧
      (s.pc otherPid).live = false ∧
      ∀ d, s.lockDir = some d → d.generation = generation → d.maker = otherPid
  | _ => True

structure Inv (s : State) : Prop where
  knows : ∀ p, Knows s p (s.pc p)
  made : ∀ d, s.lockDir = some d → d.generation < s.made
  maker : ∀ d, s.lockDir = some d → s.pc d.maker ≠ .idle
  pidFile : ∀ d pid, s.lockDir = some d → d.pidFile = some pid → pid = d.maker
  removals : ∀ x ∈ s.removals, x.remover = x.maker ∨ x.makerLive = false

theorem knows_of_holds {s : State} {p : Nat} (h : Knows s p (s.pc p)) (hp : (s.pc p).Holds) :
    ∃ d, s.lockDir = some d ∧ d.maker = p := by
  cases hpc : s.pc p with
  | writePid =>
    rw [hpc] at h
    exact h
  | gcom =>
    rw [hpc] at h
    exact h
  | finalRm =>
    rw [hpc] at h
    exact h
  | _ =>
    rw [hpc] at hp
    exact hp.elim

theorem Inv.exclusive {s : State} (h : Inv s) : Exclusive s where
  one := by
    intro p q hp hq
    obtain ⟨d, hd, rfl⟩ := knows_of_holds (h.knows p) hp
    obtain ⟨e, he, rfl⟩ := knows_of_holds (h.knows q) hq
    rw [hd] at he
    rw [some.inj he]
  removals := h.removals

section Steps

variable {s t : State} {p q : Nat} {pc : Pc}

/-- What a step leaves of the facts about the other invocations: who has started or is dead, and
that a directory of an older generation is the one that was there. -/
structure Kept (s t : State) : Prop where
  started : ∀ r, s.pc r ≠ .idle → t.pc r ≠ .idle
  dead : ∀ r, s.pc r ≠ .idle → (s.pc r).live = false → (t.pc r).live = false
  made : s.made ≤ t.made
  older : ∀ d, t.lockDir = some d → d.generation < s.made →
    ∃ e, s.lockDir = some e ∧ e.generation = d.generation ∧ e.maker = d.maker

theorem Knows.kept (h : Knows s q pc) (hk : Kept s t)
    (hholds : pc.Holds → t.lockDir.map LockDir.maker = s.lockDir.map LockDir.maker) :
    Knows t q pc := by
  have hdir : (∃ d, s.lockDir = some d ∧ d.maker = q) →
      t.lockDir.map LockDir.maker = s.lockDir.map LockDir.maker →
      ∃ d, t.lockDir = some d ∧ d.maker = q := by
    rintro ⟨d, hd, rfl⟩ hsame
    rw [hd] at hsame
    exact map_eq_some_iff.mp hsame
  have hstale : ∀ otherPid generation, generation < s.made →
      (∀ d, s.lockDir = some d → d.generation = generation → d.maker = otherPid) →
      ∀ d, t.lockDir = some d → d.generation = generation → d.maker = otherPid := by
    intro otherPid generation hlt hmaker d hd hgen
    obtain ⟨e, he, hegen, hemaker⟩ := hk.older d hd (by omega)
    rw [← hemaker]
    exact hmaker e he (hegen.trans hgen)
  cases pc with
  | writePid => exact hdir h (hholds trivial)
  | gcom => exact hdir h (hholds trivial)
  | finalRm => exact hdir h (hholds trivial)
  | kill0 otherPid generation =>
    obtain ⟨hlt, hstarted, hmaker⟩ := h
    exact ⟨Nat.lt_of_lt_of_le hlt hk.made, hk.started _ hstarted, hstale _ _ hlt hmaker⟩
  | staleRm otherPid generation =>
    obtain ⟨hlt, hstarted, hdead, hmaker⟩ := h
    exact ⟨Nat.lt_of_lt_of_le hlt hk.made, hk.started _ hstarted, hk.dead _ hstarted hdead,
      hstale _ _ hlt hmaker⟩
  | _ => trivial

theorem kept_of_goto (pc : Pc) (hpc : pc ≠ .idle) (hp : (s.pc p).live = true ∨ s.pc p = .idle)
    (ht : t.pc = (s.goto p pc).pc) (hmade : s.made ≤ t.made)
    (hdir : ∀ d, t.lockDir = some d → d.generation < s.made →
      ∃ e, s.lockDir = some e ∧ e.generation = d.generation ∧ e.maker = d.maker) : Kept s t where
  started := by
    intro r hr
    rw [ht]
    by_cases hrp : r = p
    · subst hrp
      simpa [State.goto] using hpc
    · simpa [State.goto, hrp] using hr
  dead := by
    intro r hr hdead
    rw [ht]
    by_cases hrp : r = p
    · subst hrp
      rcases hp with hlive | hidle
      · rw [hdead] at hlive
        cases hlive
      · exact absurd hidle hr
    · simpa [State.goto, hrp] using hdead
  made := hmade
  older := hdir

/-- A step of `p` keeps the invariant when the others do not hold the lock or the directory stays
that of its maker, and `p` knows what its new place says. -/
theorem Inv.of_kept (pc : Pc) (h : Inv s) (hk : Kept s t) (hpc : t.pc = (s.goto p pc).pc)
    (hown : Knows t p pc)
    (hholds : ∀ q, q ≠ p → (s.pc q).Holds →
      t.lockDir.map LockDir.maker = s.lockDir.map LockDir.maker)
    (hmade : ∀ d, t.lockDir = some d → d.generation < t.made)
    (hmaker : ∀ d, t.lockDir = some d → t.pc d.maker ≠ .idle)
    (hpid : ∀ d pid, t.lockDir = some d → d.pidFile = some pid → pid = d.maker)
    (hremovals : ∀ x ∈ t.removals, x.remover = x.maker ∨ x.makerLive = false) : Inv t where
  knows := by
    intro q
    rw [hpc]
    by_cases hq : q = p
    · subst hq
      simpa [State.goto] using hown
    · have hsame : (s.goto p pc).pc q = s.pc q := by simp [State.goto, hq]
      rw [hsame]
      exact (h.knows q).kept hk (hholds q hq)
  made := hmade
  maker := hmaker
  pidFile := hpid
  removals := hremovals

theorem Inv.goto (h : Inv s) (hpc : pc ≠ .idle) (hp : (s.pc p).live = true ∨ s.pc p = .idle)
    (hown : Knows s p pc) : Inv (s.goto p pc) := by
  have hk : Kept s (s.goto p pc) :=
    kept_of_goto pc hpc hp rfl (Nat.le_refl _) fun d hd _ => ⟨d, hd, rfl, rfl⟩
  exact h.of_kept pc hk rfl (hown.kept hk fun _ => rfl) (fun _ _ _ => rfl) h.made
    (fun d hd => hk.started _ (h.maker d hd)) h.pidFile h.removals

theorem Inv.mkdir (h : Inv s) (hp : s.pc p = .mkdir) : Inv (s.mkdir p) := by
  have hlive : (s.pc p).live = true ∨ s.pc p = .idle := .inl (by rw [hp]; rfl)
  unfold State.mkdir
  split
  case h_1 hnone =>
    have hold : ∀ d, some (⟨p, s.made, none⟩ : LockDir) = some d → d = ⟨p, s.made, none⟩ :=
      fun d hd => (some.inj hd).symm
    refine h.of_kept .writePid (kept_of_goto .writePid (by simp) hlive rfl (Nat.le_succ _) ?_) rfl
      ⟨_, rfl, rfl⟩ ?_ ?_ ?_ ?_ h.removals
    · intro d hd hlt
      rw [hold d hd] at hlt
      exact absurd hlt (Nat.lt_irrefl _)
    · intro q _ hq
      obtain ⟨d, hd, -⟩ := knows_of_holds (h.knows q) hq
      rw [hnone] at hd
      cases hd
    · intro d hd
      rw [hold d hd]
      exact Nat.lt_succ_self _
    · intro d hd
      rw [hold d hd]
      simp [State.goto]
    · intro d pid hd hpid
      rw [hold d hd] at hpid
      cases hpid
  case h_2 => exact h.goto (by simp) hlive trivial

theorem Inv.writePid (h : Inv s) (hp : s.pc p = .writePid) : Inv (s.writePid p) := by
  have hlive : (s.pc p).live = true ∨ s.pc p = .idle := .inl (by rw [hp]; rfl)
  obtain ⟨d, hd, hmaker⟩ := knows_of_holds (h.knows p) (by rw [hp]; trivial)
  have hdir : (s.writePid p).lockDir = some { d with pidFile := some p } := by
    show s.lockDir.map _ = _
    rw [hd]
    rfl
  have hnew : ∀ e, (s.writePid p).lockDir = some e → e = { d with pidFile := some p } := by
    intro e he
    rw [hdir] at he
    exact (some.inj he).symm
  have hk : Kept s (s.writePid p) := by
    refine kept_of_goto .gcom (by simp) hlive rfl (Nat.le_refl _) fun e he _ => ?_
    rw [hnew e he]
    exact ⟨d, hd, rfl, rfl⟩
  refine h.of_kept .gcom hk rfl ⟨_, hdir, hmaker⟩ ?_ ?_ ?_ ?_ h.removals
  · intro q _ _
    rw [hdir, hd]
    rfl
  · intro e he
    rw [hnew e he]
    exact h.made d hd
  · intro e he
    rw [hnew e he]
    exact hk.started _ (h.maker d hd)
  · intro e pid he hpid
    rw [hnew e he] at hpid ⊢
    rw [← some.inj hpid, hmaker]

theorem Inv.cat (h : Inv s) (hp : s.pc p = .cat) : Inv (s.cat p) := by
  have hlive : (s.pc p).live = true ∨ s.pc p = .idle := .inl (by rw [hp]; rfl)
  unfold State.cat
  split
  case h_1 maker generation otherPid hd =>
    obtain rfl : otherPid = maker := h.pidFile _ _ hd rfl
    refine h.goto (by simp) hlive ⟨h.made _ hd, h.maker _ hd, ?_⟩
    intro d hd' _
    rw [hd] at hd'
    rw [← some.inj hd']
  case h_2 => exact h.goto (by simp) hlive trivial

theorem Inv.rm (h : Inv s) (hpc : pc ≠ .idle) (hlive : (s.pc p).live = true) (hown : Knows s p pc)
    (hquiet : ¬ pc.Holds)
    (hdir : ∀ d, s.lockDir = some d → d.maker = p ∨ (s.pc d.maker).live = false) :
    Inv (s.rm p pc) := by
  have hk : Kept s (s.rm p pc) :=
    kept_of_goto pc hpc (.inl hlive) rfl (Nat.le_refl _) fun _ hd => nomatch hd
  refine h.of_kept pc hk rfl (hown.kept hk fun hholds => absurd hholds hquiet)
    ?_ nofun nofun nofun ?_
  · intro q hqp hq
    -- Another invocation with the lock would be the maker of the directory, and alive.
    obtain ⟨d, hd, rfl⟩ := knows_of_holds (h.knows q) hq
    have hqlive : (s.pc d.maker).live = true := by
      cases hpc : s.pc d.maker with
      | writePid => rfl
      | gcom => rfl
      | finalRm => rfl
      | _ =>
        rw [hpc] at hq
        exact hq.elim
    rcases hdir d hd with hmaker | hdead
    · exact absurd hmaker hqp
    · rw [hdead] at hqlive
      cases hqlive
  · intro x hx
    rcases List.mem_append.mp hx with hx | hx
    · exact h.removals x hx
    · obtain ⟨d, hd, rfl⟩ := List.mem_map.mp hx
      exact (hdir d (mem_toList.mp hd)).imp Eq.symm id

theorem step_inv {l : Label} (h : Inv s) (hl : Unchanged s l) (ht : step s l = some t) : Inv t := by
  cases l with
  | start p =>
    simp only [step, ite_none_right_eq_some, some.injEq] at ht
    obtain ⟨hidle, rfl⟩ := ht
    exact h.goto (by simp) (.inr hidle) trivial
  | kill p =>
    simp only [step, ite_none_right_eq_some, some.injEq] at ht
    obtain ⟨hlive, rfl⟩ := ht
    exact h.goto (by simp) (.inl hlive) trivial
  | step p =>
    have hknows := h.knows p
    cases hp : s.pc p with
    | mkdir =>
      simp only [step, hp] at ht
      obtain rfl := some.inj ht
      exact h.mkdir hp
    | writePid =>
      simp only [step, hp] at ht
      obtain rfl := some.inj ht
      exact h.writePid hp
    | gcom =>
      simp only [step, hp] at ht
      obtain rfl := some.inj ht
      rw [hp] at hknows
      exact h.goto (by simp) (.inl (by rw [hp]; rfl)) hknows
    | finalRm =>
      simp only [step, hp] at ht
      obtain rfl := some.inj ht
      rw [hp] at hknows
      obtain ⟨d, hd, hmaker⟩ := hknows
      refine h.rm (by simp) (by rw [hp]; rfl) trivial id fun e he => .inl ?_
      rw [hd] at he
      rw [← some.inj he, hmaker]
    | echo =>
      simp only [step, hp] at ht
      obtain rfl := some.inj ht
      exact h.goto (by simp) (.inl (by rw [hp]; rfl)) trivial
    | cat =>
      simp only [step, hp] at ht
      obtain rfl := some.inj ht
      exact h.cat hp
    | kill0 otherPid generation =>
      simp only [step, hp] at ht
      obtain rfl := some.inj ht
      rw [hp] at hknows
      obtain ⟨hlt, hstarted, hmaker⟩ := hknows
      have hlive : (s.pc p).live = true ∨ s.pc p = .idle := .inl (by rw [hp]; rfl)
      split
      case isTrue => exact h.goto (by simp) hlive trivial
      case isFalse hdead =>
        exact h.goto (by simp) hlive ⟨hlt, hstarted, by simpa using hdead, hmaker⟩
    | staleRm otherPid generation =>
      simp only [step, hp] at ht
      obtain rfl := some.inj ht
      rw [hp] at hknows
      obtain ⟨-, -, hdead, hmaker⟩ := hknows
      refine h.rm (by simp) (by rw [hp]; rfl) trivial id fun d hd => .inr ?_
      have hsame : d.generation = generation := by
        simpa [Unchanged, hp, Pc.stale, hd] using hl
      rw [hmaker d hd hsame]
      exact hdead
    | sleep =>
      simp only [step, hp] at ht
      obtain rfl := some.inj ht
      exact h.goto (by simp) (.inl (by rw [hp]; rfl)) trivial
    | _ => simp [step, hp] at ht

end Steps

/-- The lock is exclusive in every run in which each stale directory is removed unchanged. -/
theorem exclusive_of_unchanged {s : State} (h : Reaches step Unchanged init s) : Exclusive s := by
  have hinv : Inv s := by
    refine h.invariant ⟨fun _ => trivial, nofun, nofun, nofun, nofun⟩ ?_
    exact fun s l t hs hl ht => step_inv hs hl ht
  exact hinv.exclusive

/-- The first invocation is killed with the lock, and the second one takes it over. -/
def takeover : List Label :=
  [.start 0, .step 0, .step 0, .start 1, .step 1, .step 1, .kill 0, .step 1, .step 1, .step 1,
    .step 1]

theorem exclusive_takeover : ∃ s, Exclusive s ∧
    s.pc 1 = .writePid ∧ s.removals = [⟨1, 0, false⟩] := by
  have hrun : (run (guarded step Unchanged) init takeover).any (fun s => decide
      (s.pc 1 = .writePid ∧ s.removals = [⟨1, 0, false⟩])) = true := by
    decide
  obtain ⟨s, hreaches, hs⟩ := exists_of_run _ hrun
  exact ⟨s, exclusive_of_unchanged hreaches, hs⟩

/-- The second invocation reads the process id of the first one, which ends; the third one makes its
directory before the second one comes to remove it. -/
def lateRm : List Label :=
  [.start 0, .step 0, .step 0, .start 1, .step 1, .step 1, .step 0, .step 0, .step 0, .start 2,
    .step 2, .step 1, .step 1, .step 1, .step 1]

theorem shared_lateRm : ¬ ∀ s, Reachable step init s → Exclusive s := by
  intro h
  have hrun : (run (guarded step fun _ _ => True) init lateRm).any (fun s => decide
      (s.pc 1 = .writePid ∧ s.pc 2 = .writePid)) = true := by
    decide
  obtain ⟨s, hreaches, hone, htwo⟩ := exists_of_run _ hrun
  have hsame := (h s hreaches).one 1 2 (by rw [hone]; trivial) (by rw [htwo]; trivial)
  cases hsame

end ModemSupport.Rooter.GcomLocked
