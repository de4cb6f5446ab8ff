import ModemSupport.Gobi.ReadSyncEntries

/-! The `readSem` of a `ReadSync` call and the entry of the client, which are used by pointers: when
`UpSem` finds the call in progress, and when nothing uses the entry behind its `kfree`. -/

namespace ModemSupport.Gobi.ReadSync

open Lib.Transition

/-- `UpSem` has not run for a call that had returned, and nobody has used the entry behind its
`kfree`. -/
def Intact (s : State) : Prop := s.uppedReturned = false ∧ s.usedFreed = false

instance (s : State) : Decidable (Intact s) := inferInstanceAs (Decidable (_ ∧ _))

def Call.givesUp : Call → Bool
  | .timedOut _ => true
  | _ => false

/-- Nobody is about to use the entry by its pointer: `ReadCallback` is not behind a notification,
and no call has timed out. -/
def FreeOk (s : State) : Prop :=
  s.readCallback = .idle ∧ ∀ r < s.calls, (s.call r).givesUp = false

/-- The condition on a step: no call gives up whose `UpSem` is still to run or whose client has
been freed, and the entry is freed while nobody is about to use it. -/
def LifetimeOk (s : State) : Label → Prop
  | .read (.giveUp r) => ¬Notifies s r
  | .read (.timeout _) => s.freed = false
  | .release urb active =>
    urb = false → active = false → s.mpReadNotifyList = [] → FreeOk s
  | .releaseLock urb active =>
    urb = false → active = false → s.release = .killing ∨ s.mpReadNotifyList = [] → FreeOk s
  | _ => True

instance (s : State) : Decidable (FreeOk s) :=
  inferInstanceAs (Decidable (_ ∧ ∀ r < s.calls, (s.call r).givesUp = false))

instance (s : State) (r : Nat) : Decidable (Notifies s r) := inferInstanceAs (Decidable (_ ∨ _))

instance (s : State) : (l : Label) → Decidable (LifetimeOk s l)
  | .read (.giveUp r) => inferInstanceAs (Decidable (¬Notifies s r))
  | .read (.timeout _) => inferInstanceAs (Decidable (s.freed = false))
  | .read (.call _ _) | .read (.down _) | .read (.retry _ _) | .read (.deliver _ _)
  | .read .upSem | .read .callbackEnd | .releaseUp => inferInstanceAs (Decidable True)
  | .release urb active =>
    inferInstanceAs (Decidable (urb = false → active = false → s.mpReadNotifyList = [] → FreeOk s))
  | .releaseLock urb active =>
    inferInstanceAs (Decidable (urb = false → active = false →
      s.release = .killing ∨ s.mpReadNotifyList = [] → FreeOk s))

/-- The calls that are notified are in progress, and behind the `kfree` nobody holds a pointer to
the entry that it will use. -/
structure Alive (s : State) : Prop extends Registered s where
  intact : Intact s
  progress : ∀ r, Notifies s r → ∀ x, s.call r ≠ .returned x
  freed : s.freed = true → s.listed = false ∧ s.readCallback = .idle ∧ s.release = .done ∧
    ∀ r tid, s.call r ≠ .timedOut tid

theorem alive_init : Alive init where
  toRegistered := registered_init
  intact := ⟨rfl, rfl⟩
  progress := by simp [Notifies, init]
  freed := by simp [init]

variable {s t : State} {r : Nat} {tid : UInt16} {alloc : Bool}

theorem Alive.ofCall (h : Alive s) (ht : Registered t) (hframe : Frame s t)
    (hcb : t.readCallback = s.readCallback) (hintact : Intact t)
    (hcall : ∀ q, q ≠ r → t.call q = s.call q)
    (hreturned : Notifies s r → ∀ x, t.call r ≠ .returned x)
    (htimedOut : s.freed = true → ∀ tid, t.call r ≠ .timedOut tid) : Alive t where
  toRegistered := ht
  intact := hintact
  progress := fun q hq => by
    have hq' : Notifies s q := by simpa [Notifies, hcb, hframe.release] using hq
    by_cases hqr : q = r
    · subst hqr
      exact hreturned hq'
    · rw [hcall q hqr]
      exact h.progress q hq'
  freed := fun hf => by
    rw [hframe.freed] at hf
    obtain ⟨hlisted, hidle, hdone, hcalls⟩ := h.freed hf
    rw [hframe.listed, hcb, hframe.release]
    refine ⟨hlisted, hidle, hdone, fun q => ?_⟩
    by_cases hqr : q = r
    · subst hqr
      exact htimedOut hf
    · rw [hcall q hqr]
      exact hcalls q

theorem call_readLoop :
    (∀ q, q ≠ r → (readLoop s r tid alloc).call q = s.call q) ∧
      ∀ tid', (readLoop s r tid alloc).call r ≠ .timedOut tid' := by
  unfold readLoop addToNotifyList
  split
  · exact ⟨fun q hq => Function.update_of_ne hq .., by simp⟩
  · split
    · exact ⟨fun q hq => Function.update_of_ne hq .., by simp⟩
    · exact ⟨fun q hq => Function.update_of_ne hq .., by simp [setCall]⟩

theorem rest_readLoop : (readLoop s r tid alloc).readCallback = s.readCallback ∧
    (Intact s → Intact (readLoop s r tid alloc)) := by
  unfold readLoop addToNotifyList
  split
  · exact ⟨rfl, fun h => h⟩
  · split <;> exact ⟨rfl, fun h => h⟩

theorem Alive.readLoop (h : Alive s) (ht : Registered (readLoop s r tid alloc))
    (hn : ¬Notifies s r) : Alive (readLoop s r tid alloc) :=
  h.ofCall ht (Frame.readLoop s r tid alloc) rest_readLoop.1 (rest_readLoop.2 h.intact)
    call_readLoop.1 (fun hx => absurd hx hn) fun _ => call_readLoop.2

theorem Alive.readSync (h : Alive s) : Alive (readSync s tid alloc) := by
  have hnew : Alive { s with calls := s.calls + 1 } := ⟨h.newCall, h.intact, h.progress, h.freed⟩
  have hidle : s.call s.calls = .idle := h.fresh _ (Nat.le_refl _)
  have hn : ¬Notifies { s with calls := s.calls + 1 } s.calls := h.not_notifies_of_idle hidle
  have ht : Registered (ReadSync.readSync s tid alloc) := h.toRegistered.readSync
  unfold ReadSync.readSync at ht ⊢
  split at ht
  next hlisted =>
    rw [if_pos hlisted]
    exact hnew.readLoop ht hn
  next hlisted =>
    rw [if_neg hlisted]
    exact hnew.ofCall ht ⟨rfl, rfl, rfl⟩ rfl h.intact (fun q hq => Function.update_of_ne hq ..)
      (fun hx => absurd hx hn) (by simp [setCall])

theorem Alive.giveUp (h : Alive s) (hr : s.call r = .timedOut tid) (ht : Registered (giveUp s r))
    (hn : ¬Notifies s r) : Alive (giveUp s r) := by
  have hunfreed : s.freed = false := by
    by_contra hf
    exact (h.freed (by simpa using hf)).2.2.2 r tid hr
  refine h.ofCall ht ⟨rfl, rfl, rfl⟩ rfl ⟨h.intact.1, ?_⟩
    (fun q hq => Function.update_of_ne hq ..) (fun hx => absurd hx hn) ?_
  · simp [ReadSync.giveUp, h.intact.2, hunfreed]
  · simp [ReadSync.giveUp]

theorem upSem_of_progress (h : ∀ x, s.call r ≠ .returned x) :
    Intact s → Intact (upSem s r) := by
  unfold upSem
  cases hr : s.call r with
  | returned x => exact absurd hr (h x)
  | idle | waiting | woken | timedOut => exact fun hi => hi

theorem call_upSem (q : Nat) :
    ((∃ x, (upSem s r).call q = .returned x) → ∃ x, s.call q = .returned x) ∧
      ((∃ tid, (upSem s r).call q = .timedOut tid) → ∃ tid, s.call q = .timedOut tid) := by
  unfold upSem
  cases hr : s.call r with
  | waiting tid n =>
    by_cases hq : q = r
    · subst hq
      simp [setCall]
    · simp [setCall, Function.update_of_ne hq]
  | returned | idle | woken | timedOut => exact ⟨fun h => h, fun h => h⟩

theorem Alive.deliver (h : Alive s) (m : ReadMem) (ht : Registered (deliver s m alloc)) :
    Alive (deliver s m alloc) := by
  unfold ReadSync.deliver at ht ⊢
  by_cases hlisted : s.listed = true ∧ alloc = true
  · rw [if_pos hlisted] at ht ⊢
    have hunfreed : s.freed ≠ true := fun hf => by
      rw [(h.freed hf).1] at hlisted
      cases hlisted.1
    split at ht
    next e he =>
      refine ⟨ht, h.intact, ?_, fun hf => absurd hf hunfreed⟩
      rintro q (hq | hq) x hx
      · obtain rfl : e.mpData = q := by simpa using hq
        rcases h.entry e (List.mem_of_find?_eq_some he) with hw | hw <;> rw [hw] at hx <;> cases hx
      · exact h.progress q (Or.inr hq) x hx
    next => exact ⟨ht, h.intact, h.progress, h.freed⟩
  · rw [if_neg hlisted]
    exact h

theorem alive_readStep {l : ReadLabel} (h : Alive s) (hok : LifetimeOk s (.read l))
    (hstep : readStep s l = some t) : Alive t := by
  have ht := registered_readStep h.toRegistered hstep
  cases l with
  | call tid alloc =>
    obtain rfl : readSync s tid alloc = t := by simpa [readStep] using hstep
    exact h.readSync
  | down r =>
    obtain ⟨tid, n, -, -, rfl⟩ := of_down hstep
    exact h.ofCall ht ⟨rfl, rfl, rfl⟩ rfl h.intact (fun q hq => Function.update_of_ne hq ..)
      (fun _ => by simp [setCall]) fun _ => by simp [setCall]
  | timeout r =>
    obtain ⟨tid, -, rfl⟩ := of_timeout hstep
    have hunfreed : s.freed = false := hok
    exact h.ofCall ht ⟨rfl, rfl, rfl⟩ rfl h.intact (fun q hq => Function.update_of_ne hq ..)
      (fun _ => by simp [setCall]) fun hf => by simp [hunfreed] at hf
  | giveUp r =>
    obtain ⟨tid, hr, rfl⟩ := of_giveUp hstep
    exact h.giveUp hr ht hok
  | retry r alloc =>
    obtain ⟨tid, hr, rfl⟩ := of_retry hstep
    exact h.readLoop ht (h.not_notifies_of_woken hr)
  | deliver m alloc =>
    obtain ⟨-, rfl⟩ := of_deliver hstep
    exact h.deliver m ht
  | upSem =>
    obtain ⟨r, hcb, rfl⟩ := of_upSem hstep
    have hunfreed : s.freed ≠ true := fun hf => by
      rw [(h.freed hf).2.1] at hcb
      cases hcb
    have hframe := frame_readStep hstep
    refine ⟨ht, upSem_of_progress (h.progress r (Or.inl hcb)) h.intact, ?_, fun hf => ?_⟩
    · rintro q (hq | hq) x hx
      · cases hq
      · rw [hframe.release] at hq
        obtain ⟨y, hy⟩ := (call_upSem q).1 ⟨x, hx⟩
        exact h.progress q (Or.inr hq) y hy
    · rw [hframe.freed] at hf
      exact absurd hf hunfreed
  | callbackEnd =>
    obtain ⟨hcb, rfl⟩ := of_callbackEnd hstep
    have hunfreed : s.freed = false := by
      by_contra hf
      have hidle := (h.freed (by simpa using hf)).2.1
      rw [hidle] at hcb
      cases hcb
    refine ⟨ht, ⟨h.intact.1, by simp [h.intact.2, hunfreed]⟩, ?_, ?_⟩
    · rintro q (hq | hq)
      · cases hq
      · exact h.progress q (Or.inr hq)
    · intro hf
      simp only at hf
      rw [hunfreed] at hf
      cases hf

theorem Alive.unfreed (h : Alive s) (hrel : s.release ≠ .done) : s.freed = false := by
  by_contra hf
  exact hrel (h.freed (by simpa using hf)).2.2.1

theorem Alive.releaseURBs {urb active : Bool} (h : Alive s) (hrel : s.release ≠ .done)
    (hok : urb = false → active = false → FreeOk s) : Alive (releaseURBs s urb active) := by
  have ht := h.toRegistered.releaseURBs urb active
  unfold ReadSync.releaseURBs at ht ⊢
  cases urb with
  | true =>
    rw [if_pos rfl] at ht ⊢
    refine ⟨ht, h.intact, ?_, fun hf => absurd hf (by simp [h.unfreed hrel])⟩
    rintro q (hq | hq)
    · exact h.progress q (Or.inl hq)
    · cases hq
  | false =>
    rw [if_neg Bool.false_ne_true] at ht ⊢
    refine ⟨ht, h.intact, ?_, fun hf => ?_⟩
    · rintro q (hq | hq)
      · exact h.progress q (Or.inl hq)
      · cases hq
    · obtain ⟨hidle, hcalls⟩ := hok rfl (by simpa using hf)
      refine ⟨rfl, hidle, rfl, fun q tid hq => ?_⟩
      have hcall : s.call q = .timedOut tid := hq
      have hgives := hcalls q (h.lt_calls (by simp [hcall]))
      rw [hcall] at hgives
      cases hgives

theorem Alive.releaseNotify {urb active : Bool} (h : Alive s) (hrel : s.release ≠ .done)
    (hok : urb = false → active = false → s.mpReadNotifyList = [] → FreeOk s) :
    Alive (releaseNotify s urb active) := by
  have ht := h.toRegistered.releaseNotify urb active
  unfold ReadSync.releaseNotify at ht ⊢
  split at ht
  case h_1 e es hlist =>
    refine ⟨ht, h.intact, ?_, fun hf => absurd hf (by simp [h.unfreed hrel])⟩
    rintro q (hq | hq) x hx
    · exact h.progress q (Or.inl hq) x hx
    · obtain rfl : e.mpData = q := by simpa using hq
      rcases h.entry e (by simp [hlist]) with hw | hw <;> rw [hw] at hx <;> cases hx
  case h_2 hlist =>
    exact h.releaseURBs hrel fun hu ha => hok hu ha hlist

theorem alive_step {l : Label} (h : Alive s) (hok : LifetimeOk s l) (hstep : step s l = some t) :
    Alive t := by
  cases l with
  | read l => exact alive_readStep h hok hstep
  | release urb active =>
    obtain ⟨hidle, rfl⟩ := of_release hstep
    exact h.releaseNotify (by simp [hidle]) hok
  | releaseUp =>
    have ht := registered_step h.toRegistered hstep
    obtain ⟨r, hrel, rfl⟩ := of_releaseUp hstep
    have hunfreed := h.unfreed (by simp [hrel])
    have hfreed : (upSem s r).freed = s.freed := (Frame.upSem s r).freed
    refine ⟨ht, upSem_of_progress (h.progress r (Or.inr hrel)) h.intact, ?_, fun hf => ?_⟩
    · rintro q (hq | hq) x hx
      · have hcb : s.readCallback = .notified q := by
          rw [← hq]
          unfold upSem
          split <;> rfl
        obtain ⟨y, hy⟩ := (call_upSem q).1 ⟨x, hx⟩
        exact h.progress q (Or.inl hcb) y hy
      · cases hq
    · simp only [hfreed, hunfreed] at hf
      cases hf
  | releaseLock urb active =>
    rcases of_releaseLock hstep with ⟨hrel, rfl⟩ | ⟨hrel, rfl⟩
    · exact h.releaseNotify (by simp [hrel]) fun hu ha hlist => hok hu ha (Or.inr hlist)
    · exact h.releaseURBs (by simp [hrel]) fun hu ha => hok hu ha (Or.inl hrel)

/-- In every run whose steps meet `LifetimeOk`, the semaphore that `UpSem` ups is that of a call in
progress, and the entry is not used once it is freed. -/
theorem intact (h : Reaches step LifetimeOk init s) : Intact s :=
  (h.invariant alive_init fun _ _ _ hs hok hstep => alive_step hs hok hstep).intact

/-- A call waits, its client is released behind the notification, and the call finds that out. -/
def released : List Label :=
  [.read (.call 5 true), .release false false, .releaseUp, .releaseLock true false,
    .releaseLock false false, .read (.down 0), .read (.retry 0 true), .read (.call 6 true)]

theorem intact_released : ∃ s, Reaches step LifetimeOk init s ∧ Intact s ∧ s.freed = true := by
  have hrun : (run (guarded step LifetimeOk) init released).any (fun s => decide (s.freed = true)) =
      true := by decide
  obtain ⟨s, hs, hfreed⟩ := exists_of_run released hrun
  exact ⟨s, hs, intact hs, hfreed⟩

/-- `ReadCallback` takes the entry of a call off the list, and the call times out and returns before
`UpSem` runs. -/
def lateUpSem : List Label :=
  [.read (.call 5 true), .read (.deliver ⟨5, [1]⟩ true), .read (.timeout 0), .read (.giveUp 0),
    .read .upSem]

def lateGiveUp : List Label :=
  [.read (.call 5 true), .read (.timeout 0), .release false false, .releaseUp,
    .releaseLock false false, .read (.giveUp 0)]

def lateCallback : List Label :=
  [.read (.call 5 true), .read (.deliver ⟨5, [1]⟩ true), .release false false, .read .upSem,
    .read .callbackEnd]

theorem not_intact :
    (¬∀ s ∈ statesOf step init lateUpSem, s.uppedReturned = false) ∧
      (¬∀ s ∈ statesOf step init lateGiveUp, s.usedFreed = false) ∧
      ¬∀ s ∈ statesOf step init lateCallback, s.usedFreed = false := by
  refine ⟨?_, ?_, ?_⟩ <;> decide

end ModemSupport.Gobi.ReadSync
