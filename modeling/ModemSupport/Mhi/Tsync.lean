import ModemSupport.Lib.Transition
import ModemSupport.Mhi.Chan

/-! The time-sync requests of the MHI host driver (`mhi_main.c`, without `CONFIG_MHI_DEBUG`):
`mhi_get_remote_time` and `mhi_process_tsync_event_ring`.  A step is a section under
`mhi_tsync->lock`, a test of the event ring, or what the device does in between. -/

namespace ModemSupport.Mhi.Tsync

open Lib.Transition List

/-- `struct tsync_node`; its `local_time` is not there before the doorbell is rung. -/
structure Node where
  sequence : UInt32
  localTime : Option UInt64

structure Event where
  request : Nat
  sequence : UInt32
  time : UInt64
  deriving DecidableEq

/-- A call of `cb_func`. -/
structure Answer where
  sequence : UInt32
  localTime : Option UInt64
  remoteTime : UInt64

/-- Where `mhi_process_tsync_event_ring` stands: not called, at the loop over the ring, or in the
drain loop for an event. -/
inductive Proc where
  | idle
  | loop
  | draining (e : Event)
  deriving DecidableEq

/-- The list and the lock of `mhi_tsync`, the read locks of `pm_lock` that are held beyond those of
a section, and the event ring.  `requests` are the sequences that have been queued and `rung` those
whose doorbell has been rung, by number, and `handled` the events that have been taken off the
ring. -/
structure State where
  requests : List UInt32
  rung : List Nat
  lastEvent : Option Nat
  head : List Node
  lock : Bool
  pmReaders : Int
  ring : List Event
  proc : Proc
  answered : List Answer
  handled : List Event

def init : State := ⟨[], [], none, [], false, 0, [], .idle, [], []⟩

/-- What a call of `mhi_get_remote_time` finds: the outcomes of `__mhi_device_get_sync` and
`kzalloc`, and the power state. -/
structure RequestEnv where
  getSync : Option Errno
  kzalloc : Bool
  pmState : PmState

def RequestEnv.queues (env : RequestEnv) : Bool :=
  env.getSync.isNone && env.kzalloc && !env.pmState.inErrorState

/-- `mhi_get_remote_time` up to `list_add_tail`; a call that fails leaves nothing behind. -/
def mhiGetRemoteTime (sequence : UInt32) (env : RequestEnv) (s : State) : State :=
  if env.queues then
    { s with requests := s.requests ++ [sequence], head := s.head ++ [⟨sequence, none⟩] }
  else s

/-- The rest of `mhi_get_remote_time` for the request `i`: the local time and the doorbell. -/
def ringTsyncDb (i : Nat) (sequence : UInt32) (localTime : UInt64) (s : State) : State :=
  { s with
    rung := s.rung ++ [i]
    head := s.head.map fun n =>
      if n.sequence = sequence then { n with localTime := some localTime } else n }

def eventAccessInvalid (pmState : PmState) : Bool := pmState = .disable || pmState.inErrorState

/-- `mhi_process_tsync_event_ring` up to its loop. -/
def mhiProcessTsyncEventRing (pmState : PmState) (s : State) : State :=
  if eventAccessInvalid pmState then { s with pmReaders := s.pmReaders - 1 }
  else { s with proc := .loop }

def testRing (s : State) : State :=
  match s.ring with
  | [] => { s with proc := .idle }
  | e :: _ => { s with proc := .draining e }

def drain (e : Event) (s : State) : State :=
  match s.head with
  -- the break leaves the lock held
  | [] =>
    { s with lock := true, ring := s.ring.tail, proc := .loop, handled := s.handled ++ [e] }
  | node :: rest =>
    { s with
      head := rest
      answered :=
        if node.sequence = e.sequence then
          s.answered ++ [⟨e.sequence, node.localTime, e.time⟩]
        else s.answered }

inductive Label where
  | request (sequence : UInt32) (env : RequestEnv)
  | doorbell (i : Nat) (localTime : UInt64)
  | event (request : Nat) (time : UInt64)
  | call (pmState : PmState)
  | test
  | drain

/-- A step.  Sequence numbers are distinct, the doorbell of a request is rung once, and the device
answers requests whose doorbell has been rung, each behind the one of its last event. -/
def step (s : State) : Label → Option State
  | .request sequence env =>
    if sequence ∈ s.requests ∨ s.lock = true ∧ env.queues = true then none
    else some (mhiGetRemoteTime sequence env s)
  | .doorbell i localTime =>
    if i ∈ s.rung then none
    else s.requests[i]?.map fun sequence => ringTsyncDb i sequence localTime s
  | .event i time =>
    if i ∉ s.rung ∨ ∃ last ∈ s.lastEvent, i ≤ last then none
    else s.requests[i]?.map fun sequence =>
      { s with lastEvent := some i, ring := s.ring ++ [⟨i, sequence, time⟩] }
  | .call pmState => if s.proc = .idle then some (mhiProcessTsyncEventRing pmState s) else none
  | .test => if s.proc = .loop then some (testRing s) else none
  | .drain =>
    match s.proc with
    | .draining e => if s.lock then none else some (drain e s)
    | _ => none

/-- The number of the first request behind those of the events that have been handled. -/
def State.next (s : State) : Nat := (s.handled.getLast?.map fun e => e.request + 1).getD 0

/-- When no call is under way, both locks are as they were found, each event has answered its own
request, once, and the requests behind that of the last event are still there. -/
structure Sound (s : State) : Prop where
  lock : s.lock = false
  pmReaders : s.pmReaders = 0
  answered : s.answered.map (fun a => (a.sequence, a.remoteTime)) =
    s.handled.map fun e => (e.sequence, e.time)
  kept : s.head.map Node.sequence = s.requests.drop s.next

/-- The call finds that it may access events, and none on the ring. -/
def Ok (s : State) : Label → Prop
  | .call pmState => eventAccessInvalid pmState = false
  | .test => s.ring = []
  | .request _ _ | .doorbell _ _ | .event _ _ | .drain => True

variable {s t u : State} {l : Label}

/-- As long as no event has been found. -/
structure Inv (s : State) : Prop where
  lock : s.lock = false
  pmReaders : s.pmReaders = 0
  answered : s.answered = []
  handled : s.handled = []
  kept : s.head.map Node.sequence = s.requests
  proc : s.proc = .idle ∨ s.proc = .loop

theorem inv_init : Inv init := ⟨rfl, rfl, rfl, rfl, rfl, .inl rfl⟩

theorem Inv.sound (h : Inv s) : Sound s where
  lock := h.lock
  pmReaders := h.pmReaders
  answered := by
    rw [h.answered, h.handled]
    rfl
  kept := by
    have hnext : s.next = 0 := by
      unfold State.next
      rw [h.handled]
      rfl
    rw [hnext, drop_zero, h.kept]

theorem mhiGetRemoteTime_inv (h : Inv s) (sequence : UInt32) (env : RequestEnv) :
    Inv (mhiGetRemoteTime sequence env s) := by
  unfold mhiGetRemoteTime
  split
  · refine ⟨h.lock, h.pmReaders, h.answered, h.handled, ?_, h.proc⟩
    rw [map_append, h.kept]
    rfl
  · exact h

theorem ringTsyncDb_inv (h : Inv s) (i : Nat) (sequence : UInt32) (localTime : UInt64) :
    Inv (ringTsyncDb i sequence localTime s) := by
  refine ⟨h.lock, h.pmReaders, h.answered, h.handled, ?_, h.proc⟩
  show (s.head.map _).map Node.sequence = s.requests
  rw [List.map_map, ← h.kept]
  apply map_congr_left
  intro n _
  show (if n.sequence = sequence then { n with localTime := some localTime } else n).sequence = _
  split
  · rfl
  · rfl

theorem step_inv (h : Inv s) (hok : Ok s l) (ht : step s l = some t) : Inv t := by
  cases l with
  | request sequence env =>
    simp only [step, Option.ite_none_left_eq_some, Option.some.injEq] at ht
    obtain ⟨-, rfl⟩ := ht
    exact mhiGetRemoteTime_inv h sequence env
  | doorbell i localTime =>
    simp only [step, Option.ite_none_left_eq_some, Option.map_eq_some_iff] at ht
    obtain ⟨-, sequence, -, rfl⟩ := ht
    exact ringTsyncDb_inv h i sequence localTime
  | event i time =>
    simp only [step, Option.ite_none_left_eq_some, Option.map_eq_some_iff] at ht
    obtain ⟨-, sequence, -, rfl⟩ := ht
    exact ⟨h.lock, h.pmReaders, h.answered, h.handled, h.kept, h.proc⟩
  | call pmState =>
    simp only [step, Option.ite_none_right_eq_some, Option.some.injEq] at ht
    obtain ⟨-, rfl⟩ := ht
    unfold mhiProcessTsyncEventRing
    rw [if_neg (by rw [hok]; exact Bool.false_ne_true)]
    exact ⟨h.lock, h.pmReaders, h.answered, h.handled, h.kept, .inr rfl⟩
  | test =>
    simp only [step, Option.ite_none_right_eq_some, Option.some.injEq] at ht
    obtain ⟨-, rfl⟩ := ht
    have hring : s.ring = [] := hok
    unfold testRing
    rw [hring]
    exact ⟨h.lock, h.pmReaders, h.answered, h.handled, h.kept, .inl rfl⟩
  | drain =>
    rcases h.proc with hproc | hproc
    · simp [step, hproc] at ht
    · simp [step, hproc] at ht

/-- `pm_lock` has been released too often, the lock of the list is held, or the drain loop will
hold it when it ends. -/
def Broken (s : State) : Prop :=
  s.pmReaders < 0 ∨ s.lock = true ∨ ∃ e, s.proc = .draining e

theorem step_broken (h : Broken s) (ht : step s l = some t) : Broken t := by
  cases l with
  | request sequence env =>
    simp only [step, Option.ite_none_left_eq_some, Option.some.injEq] at ht
    obtain ⟨-, rfl⟩ := ht
    unfold mhiGetRemoteTime
    split
    · exact h
    · exact h
  | doorbell i localTime =>
    simp only [step, Option.ite_none_left_eq_some, Option.map_eq_some_iff] at ht
    obtain ⟨-, sequence, -, rfl⟩ := ht
    exact h
  | event i time =>
    simp only [step, Option.ite_none_left_eq_some, Option.map_eq_some_iff] at ht
    obtain ⟨-, sequence, -, rfl⟩ := ht
    exact h
  | call pmState =>
    simp only [step, Option.ite_none_right_eq_some, Option.some.injEq] at ht
    obtain ⟨hproc, rfl⟩ := ht
    unfold mhiProcessTsyncEventRing
    rcases h with hpm | hlock | ⟨e, hdrain⟩
    · split
      · exact .inl (show s.pmReaders - 1 < 0 by omega)
      · exact .inl hpm
    · split
      · exact .inr (.inl hlock)
      · exact .inr (.inl hlock)
    · rw [hproc] at hdrain
      cases hdrain
  | test =>
    simp only [step, Option.ite_none_right_eq_some, Option.some.injEq] at ht
    obtain ⟨hproc, rfl⟩ := ht
    unfold testRing
    rcases h with hpm | hlock | ⟨e, hdrain⟩
    · split
      · exact .inl hpm
      · exact .inl hpm
    · split
      · exact .inr (.inl hlock)
      · exact .inr (.inl hlock)
    · rw [hproc] at hdrain
      cases hdrain
  | drain =>
    simp only [step] at ht
    split at ht
    next e hproc =>
      simp only [Option.ite_none_left_eq_some, Option.some.injEq] at ht
      obtain ⟨-, rfl⟩ := ht
      unfold drain
      split
      · exact .inr (.inl rfl)
      · exact .inr (.inr ⟨e, hproc⟩)
    next => cases ht

theorem broken_of_not_ok (h : Inv s) (hok : ¬Ok s l) (ht : step s l = some t) : Broken t := by
  cases l with
  | call pmState =>
    simp only [step, Option.ite_none_right_eq_some, Option.some.injEq] at ht
    obtain ⟨-, rfl⟩ := ht
    have hinvalid := Bool.not_eq_false _ ▸ hok
    unfold mhiProcessTsyncEventRing
    rw [if_pos hinvalid]
    refine .inl ?_
    show s.pmReaders - 1 < 0
    rw [h.pmReaders]
    decide
  | test =>
    simp only [step, Option.ite_none_right_eq_some, Option.some.injEq] at ht
    obtain ⟨-, rfl⟩ := ht
    unfold testRing
    cases hring : s.ring with
    | nil => exact absurd hring hok
    | cons e rest => exact .inr (.inr ⟨e, rfl⟩)
  | request _ _ | doorbell _ _ | event _ _ | drain => exact absurd trivial hok

theorem Broken.not_sound (h : Broken s) (hidle : s.proc = .idle) : ¬Sound s := by
  intro hsound
  rcases h with hpm | hlock | ⟨e, hdrain⟩
  · rw [hsound.pmReaders] at hpm
    exact absurd hpm (by decide)
  · rw [hsound.lock] at hlock
    exact absurd hlock Bool.false_ne_true
  · rw [hidle] at hdrain
    cases hdrain

/-- The drain loop for an event takes all requests off the list, and answers those of its sequence;
then the lock stays held. -/
theorem drains (e : Event) (hproc : s.proc = .draining e) (hlock : s.lock = false) :
    Reachable step s
      { s with
        head := [], lock := true, ring := s.ring.tail, proc := .loop, handled := s.handled ++ [e]
        answered := s.answered ++ (s.head.filter (·.sequence = e.sequence)).map fun n =>
          ⟨e.sequence, n.localTime, e.time⟩ } := by
  have hstep : step s .drain = some (drain e s) := by
    simp [step, hproc, hlock]
  obtain ⟨requests, rung, lastEvent, head, lock, pmReaders, ring, proc, answered, handled⟩ := s
  dsimp only at hproc hlock
  subst hproc hlock
  induction head generalizing answered with
  | nil =>
    refine reachable_single (l := .drain) (hstep.trans ?_)
    simp [drain]
  | cons node rest ih =>
    refine (reachable_single (l := .drain) hstep).trans ?_
    unfold drain
    by_cases hsequence : node.sequence = e.sequence
    · have hrest := ih (answered ++ [⟨e.sequence, node.localTime, e.time⟩]) (by simp [step])
      rw [append_assoc] at hrest
      simpa [hsequence] using hrest
    · simpa [hsequence] using ih answered (by simp [step])

/-- As long as the calls may access events and find none, all is well; behind a call that may not,
or finds one, no call returns as it should. -/
theorem tsync_sound (s : State) (h : Reaches step Ok init s) :
    Sound s ∧ ∀ l t, step s l = some t → ¬Ok s l →
      ∀ u, Reachable step t u → u.proc = .idle → ¬Sound u := by
  have hinv : Inv s := h.invariant (P := Inv) inv_init fun _ _ _ hs hok ht => step_inv hs hok ht
  refine ⟨hinv.sound, fun l t ht hok u hu hidle => ?_⟩
  have hbroken : Broken u :=
    hu.invariant (P := Broken) (broken_of_not_ok hinv hok ht) fun _ _ _ hs _ ht =>
      step_broken hs ht
  exact hbroken.not_sound hidle

instance decidableOk (s : State) : (l : Label) → Decidable (Ok s l)
  | .call pmState => inferInstanceAs (Decidable (eventAccessInvalid pmState = false))
  | .test => inferInstanceAs (Decidable (s.ring = []))
  | .request _ _ | .doorbell _ _ | .event _ _ | .drain => inferInstanceAs (Decidable True)

/-- Two requests, of which the event answers the first. -/
theorem drains_two : ∃ u, Reachable step
    { init with head := [⟨7, none⟩, ⟨8, none⟩], proc := .draining ⟨0, 7, 200⟩ } u ∧
      u.head = [] ∧ u.answered = [⟨7, none, 200⟩] :=
  ⟨_, drains ⟨0, 7, 200⟩ rfl rfl, rfl, rfl⟩

def goodRequest (sequence : UInt32) : Label := .request sequence ⟨none, true, .m0⟩

/-- Two requests, and a call before the device has answered. -/
theorem tsync_sound_empty : ∃ s, Reaches step Ok init s ∧ Sound s ∧
    s.requests = [7, 8] ∧ s.proc = .idle := by
  have hrun : (run (guarded step Ok) init
      [goodRequest 7, .doorbell 0 100, goodRequest 8, .call .m0, .test]).any (fun s => decide
      (s.requests = [7, 8] ∧ s.proc = .idle)) = true := by
    decide
  obtain ⟨s, hreaches, hs⟩ := exists_of_run _ hrun
  exact ⟨s, hreaches, (tsync_sound s hreaches).1, hs⟩

/-- The device answers the first of two requests: the other one is dropped, and the lock stays
held. -/
theorem not_tsync_sound : ¬∀ s, Reachable step init s → s.proc = .idle → Sound s := by
  intro hall
  have hrun : (run (guarded step fun _ _ => True) init
      [goodRequest 7, .doorbell 0 100, goodRequest 8, .event 0 200, .call .m0, .test, .drain,
        .drain, .drain, .test]).any (fun s => decide
      (s.requests = [7, 8] ∧ s.head = [] ∧ s.lock = true ∧ s.proc = .idle)) = true := by
    decide
  obtain ⟨s, hreaches, -, -, hlock, hidle⟩ := exists_of_run _ hrun
  have hfree := (hall s hreaches hidle).lock
  rw [hlock] at hfree
  cases hfree

end ModemSupport.Mhi.Tsync
