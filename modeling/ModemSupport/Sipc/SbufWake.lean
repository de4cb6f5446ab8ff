import ModemSupport.Sipc.SbufStream

/-! The wake-ups of a ring.  The events are edge triggered, so a party asleep on a ready ring needs
an event that is queued or about to be sent; an event that is handled after a party sampled the
ring and before it updates its poll mask is lost. -/

namespace ModemSupport.Sipc.Sbuf

open ModemSupport.Lib

variable {c : Config} {s s' : State} {op : Op}

/-- A `SMSG_EVENT_SBUF_WRPTR` is in flight: it is queued, or the writer has moved the write pointer
and is about to send it. -/
def WrptrDue (c : Config) (s : State) : Prop :=
  0 < s.wrptrEvents ∨
    match s.writer with
    | .test _ txsize => c.forceSend ∨ s.wrptr - s.rdptr = UInt32.ofNat txsize.toNat
    | .send _ _ => True
    | _ => False

def RdptrDue (c : Config) (s : State) : Prop :=
  0 < s.rdptrEvents ∨
    match s.reader with
    | .test _ rxsize => s.wrptr - s.rdptr = c.size - UInt32.ofNat rxsize.toNat
    | .send _ _ => True
    | _ => False

/-- With no event in flight, a reader in `wait_event` on a ring with data has `POLLIN` set, and a
writer in `wait_event` on a ring with room has `POLLOUT` set. -/
structure Awake (c : Config) (s : State) : Prop where
  reader : ∀ call, s.reader = .waiting call → s.wrptr ≠ s.rdptr → ¬WrptrDue c s →
    s.pollIn = true
  writer : ∀ call, s.writer = .waiting call → s.fill < c.size.toNat → ¬RdptrDue c s →
    s.pollOut = true

def ReaderStale (s : State) : Prop := ∃ call, s.reader = .sampled call true ∧ call.timeout ≠ 0

def WriterStale (s : State) : Prop := ∃ call, s.writer = .sampled call true ∧ call.timeout ≠ 0

/-- The last event in flight for a ring that is ready again is handled between the sample of a
party and the update of its poll mask. -/
def Loses (c : Config) (s : State) : Op → Prop
  | .handleWrptr => ReaderStale s ∧ s.wrptr ≠ s.rdptr ∧
      ¬WrptrDue c { s with wrptrEvents := s.wrptrEvents - 1 }
  | .handleRdptr => WriterStale s ∧ s.fill < c.size.toNat ∧
      ¬RdptrDue c { s with rdptrEvents := s.rdptrEvents - 1 }
  | _ => False

/-- The invariant: a party that sleeps, or is to sleep whatever its poll mask says, on a ready ring
has an event in flight. -/
structure Notified (c : Config) (s : State) : Prop where
  readerWaiting : ∀ call, s.reader = .waiting call → s.wrptr ≠ s.rdptr →
    s.pollIn = true ∨ WrptrDue c s
  readerStale : ReaderStale s → s.wrptr ≠ s.rdptr → WrptrDue c s
  writerWaiting : ∀ call, s.writer = .waiting call → s.fill < c.size.toNat →
    s.pollOut = true ∨ RdptrDue c s
  writerStale : WriterStale s → s.fill < c.size.toNat → RdptrDue c s

theorem notified_init (c : Config) (mem : Nat → UInt8) : Notified c (.init mem) := by
  constructor <;> simp [State.init, ReaderStale, WriterStale]

theorem WriterMove.wrptrDue (hmove : WriterMove c s s')
    (hdue : s.wrptr ≠ s.rdptr → WrptrDue c s) (hdata : s'.wrptr ≠ s'.rdptr) :
    WrptrDue c s' := by
  cases hmove with
  | ready hw | block hw | refuse hw | wake hw | more hw | leave hw | place hw | fault hw | copy hw
  | mask hw =>
    have h := hdue hdata
    simp only [WrptrDue, hw, or_false] at h
    exact .inl h
  | @advance call txsize hw =>
    by_cases hempty : s.wrptr = s.rdptr
    · refine .inr (.inr ?_)
      show s.wrptr + UInt32.ofNat txsize.toNat - s.rdptr = _
      rw [hempty]
      grind
    · have h := hdue hempty
      simp only [WrptrDue, hw, or_false] at h
      exact .inl h
  | notify hw hevent => exact .inr trivial
  | skip hw hevent =>
    have h := hdue hdata
    simp only [WrptrDue, hw] at h
    exact .inl (h.resolve_right hevent)
  | send hw => exact .inl (Nat.succ_pos _)

theorem ReaderMove.rdptrDue (hmove : ReaderMove c s s') (hfull : s.fill ≤ c.size.toNat)
    (hdue : s.fill < c.size.toNat → RdptrDue c s) (hroom : s'.fill < c.size.toNat) :
    RdptrDue c s' := by
  cases hmove with
  | ready hr | block hr | refuse hr | wake hr | more hr | leave hr | place hr | fault hr | copy hr
  | mask hr =>
    have h := hdue hroom
    simp only [RdptrDue, hr, or_false] at h
    exact .inl h
  | @advance call rxsize bytes hr =>
    rcases hfull.lt_or_eq with hlt | heq
    · have h := hdue hlt
      simp only [RdptrDue, hr, or_false] at h
      exact .inl h
    · have hsize : s.wrptr - s.rdptr = c.size := UInt32.toNat_inj.mp heq
      refine .inr ?_
      show s.wrptr - (s.rdptr + UInt32.ofNat rxsize.toNat) = c.size - UInt32.ofNat rxsize.toNat
      rw [← hsize]
      grind
  | notify hr hevent => exact .inr trivial
  | skip hr hevent =>
    have h := hdue hroom
    simp only [RdptrDue, hr] at h
    exact .inl (h.resolve_right hevent)
  | send hr => exact .inl (Nat.succ_pos _)

theorem WriterMove.reader_eq (hmove : WriterMove c s s') :
    s'.reader = s.reader ∧ s'.pollIn = s.pollIn ∧ s'.rdptrEvents = s.rdptrEvents ∧
      s'.rdptr = s.rdptr := by
  cases hmove <;> exact ⟨rfl, rfl, rfl, rfl⟩

theorem ReaderMove.writer_eq (hmove : ReaderMove c s s') :
    s'.writer = s.writer ∧ s'.pollOut = s.pollOut ∧ s'.wrptrEvents = s.wrptrEvents ∧
      s'.wrptr = s.wrptr := by
  cases hmove <;> exact ⟨rfl, rfl, rfl, rfl⟩

theorem WriterMove.notified (hnotified : Notified c s) (hmove : WriterMove c s s') :
    Notified c s' := by
  obtain ⟨hrw, hrs, hww, hws⟩ := hnotified
  obtain ⟨hreader, hpoll, -, -⟩ := hmove.reader_eq
  refine ⟨fun call hr hdata => ?_, fun hstale hdata => ?_, ?_, ?_⟩
  · rw [hreader] at hr
    by_cases hp : s.pollIn = true
    · exact .inl (hpoll.trans hp)
    · exact .inr (hmove.wrptrDue (fun h => (hrw call hr h).resolve_left hp) hdata)
  · rw [ReaderStale, hreader] at hstale
    exact hmove.wrptrDue (hrs hstale) hdata
  · cases hmove with
    | block hw ht => exact fun _ _ hroom => .inr (hws ⟨_, hw, ht⟩ hroom)
    | _ => simp
  · cases hmove <;> simp [WriterStale]

theorem ReaderMove.notified (hsized : Sized c s) (hnotified : Notified c s)
    (hmove : ReaderMove c s s') : Notified c s' := by
  obtain ⟨hrw, hrs, hww, hws⟩ := hnotified
  obtain ⟨hwriter, hpoll, -, -⟩ := hmove.writer_eq
  refine ⟨?_, ?_, fun call hw hroom => ?_, fun hstale hroom => ?_⟩
  · cases hmove with
    | block hr ht => exact fun _ _ hdata => .inr (hrs ⟨_, hr, ht⟩ hdata)
    | _ => simp
  · cases hmove <;> simp [ReaderStale]
  · rw [hwriter] at hw
    by_cases hp : s.pollOut = true
    · exact .inl (hpoll.trans hp)
    · exact .inr (hmove.rdptrDue hsized.fill_le (fun h => (hww call hw h).resolve_left hp) hroom)
  · rw [WriterStale, hwriter] at hstale
    exact hmove.rdptrDue hsized.fill_le (hws hstale) hroom

theorem Move.notified (hsized : Sized c s) (hnotified : Notified c s) (hok : ¬Loses c s op)
    (hmove : Move c s op s') : Notified c s' := by
  obtain ⟨hrw, hrs, hww, hws⟩ := hnotified
  cases hmove with
  | @write buf timeout hw hlen =>
    have hdue : ∀ w : Writer, WrptrDue c s → WrptrDue c { s with writer := w } := by
      intro w h
      simp only [WrptrDue, hw, or_false] at h
      exact .inl h
    refine ⟨fun call hr hdata => (hrw call hr hdata).imp id (hdue _),
      fun hstale hdata => hdue _ (hrs hstale hdata), by simp, ?_⟩
    rintro ⟨call, hsampled, -⟩ hroom
    have hfull : c.size ≤ s.wrptr - s.rdptr := by
      have := (Writer.sampled.inj hsampled).2
      simpa using this
    exact absurd (UInt32.le_iff_toNat_le.mp hfull) (not_le.mpr hroom)
  | writer hmove => exact hmove.notified ⟨hrw, hrs, hww, hws⟩
  | writerGiveUp hw =>
    have hdue : WrptrDue c s → WrptrDue c { s with writer := .idle } := by
      intro h
      simp only [WrptrDue, hw, or_false] at h
      exact .inl h
    exact ⟨fun call hr hdata => (hrw call hr hdata).imp id hdue,
      fun hstale hdata => hdue (hrs hstale hdata), by simp, by simp [WriterStale]⟩
  | @read len timeout hr =>
    have hdue : ∀ r : Reader, RdptrDue c s → RdptrDue c { s with reader := r } := by
      intro r h
      simp only [RdptrDue, hr, or_false] at h
      exact .inl h
    refine ⟨by simp, ?_, fun call hw hroom => (hww call hw hroom).imp id (hdue _),
      fun hstale hroom => hdue _ (hws hstale hroom)⟩
    rintro ⟨call, hsampled, -⟩ hdata
    have hempty : (s.wrptr == s.rdptr) = true := (Reader.sampled.inj hsampled).2
    exact absurd (beq_iff_eq.mp hempty) hdata
  | reader hmove => exact hmove.notified hsized ⟨hrw, hrs, hww, hws⟩
  | readerGiveUp hr =>
    have hdue : RdptrDue c s → RdptrDue c { s with reader := .idle } := by
      intro h
      simp only [RdptrDue, hr, or_false] at h
      exact .inl h
    exact ⟨by simp, by simp [ReaderStale], fun call hw hroom => (hww call hw hroom).imp id hdue,
      fun hstale hroom => hdue (hws hstale hroom)⟩
  | handleWrptr hevent =>
    refine ⟨fun _ _ _ => .inl rfl, fun hstale hdata => ?_, hww, hws⟩
    by_contra hdue
    exact hok ⟨hstale, hdata, hdue⟩
  | handleRdptr hevent =>
    refine ⟨hrw, hrs, fun _ _ _ => .inl rfl, fun hstale hroom => ?_⟩
    by_contra hdue
    exact hok ⟨hstale, hroom, hdue⟩

theorem Loses.asleep (hlost : Loses c s op) (hstep : step c s op = some s') :
    ∃ op' s'', step c s' op' = some s'' ∧ ¬Awake c s'' := by
  have hmove := step_move hstep
  cases hmove with
  | handleWrptr hevent =>
    obtain ⟨⟨call, hr, ht⟩, hdata, hdue⟩ := hlost
    refine ⟨.reader, { s with
      wrptrEvents := s.wrptrEvents - 1, pollIn := false, reader := .waiting call }, ?_, ?_⟩
    · rw [step, readerStep]
      simp [hr, ht]
    · intro hawake
      exact absurd (hawake.reader call rfl hdata hdue) (by simp)
  | handleRdptr hevent =>
    obtain ⟨⟨call, hw, ht⟩, hroom, hdue⟩ := hlost
    refine ⟨.writer, { s with
      rdptrEvents := s.rdptrEvents - 1, pollOut := false, writer := .waiting call }, ?_, ?_⟩
    · rw [step, writerStep]
      simp [hw, ht]
    · intro hawake
      exact absurd (hawake.writer call rfl hroom hdue) (by simp)
  | _ => exact hlost.elim

/-- In every run in which no event is lost between a sample and the update of the poll mask, no
party sleeps on a ready ring; and a step that loses an event can be followed by one after which a
party does. -/
theorem awake_of_run (c : Config) :
    (∀ mem s, Transition.Reaches (step c) (fun s op => ¬Loses c s op) (.init mem) s →
      Awake c s) ∧
    ∀ s op s', step c s op = some s' → Loses c s op →
      ∃ op' s'', step c s' op' = some s'' ∧ ¬Awake c s'' := by
  refine ⟨fun mem s hrun => ?_, fun s op s' hstep hlost => hlost.asleep hstep⟩
  have hinv : Sized c s ∧ Notified c s := by
    refine hrun.invariant (P := fun s => Sized c s ∧ Notified c s)
      ⟨sized_init c mem, notified_init c mem⟩ ?_
    rintro s op s' ⟨hsized, hnotified⟩ hop hstep
    have hmove := step_move hstep
    exact ⟨hmove.sized hsized, hmove.notified hsized hnotified hop⟩
  constructor
  · intro call hr hdata hdue
    exact (hinv.2.readerWaiting call hr hdata).resolve_right hdue
  · intro call hw hroom hdue
    exact (hinv.2.writerWaiting call hw hroom).resolve_right hdue

/-- A reader samples the empty ring; a byte is written and its event handled; then the reader
updates its poll mask and waits. -/
def lostEvent : List Op :=
  [.read 10 (-1), .write [1] (-1), .writer, .writer, .writer, .writer, .writer, .writer, .writer,
    .writer, .writer, .handleWrptr, .reader]

def nrRing : Config where
  size := 0x1000
  forceSend := false
  size_pos := by decide

theorem not_wrptrDue_of_idle (hw : s.writer = .idle) (hevents : s.wrptrEvents = 0) :
    ¬WrptrDue c s := by
  simp [WrptrDue, hw, hevents]

/-- A reader sleeps on a ring with data, with no event queued and no call of the writer running. -/
theorem not_awake_nrRing :
    ¬∀ mem s, Transition.Reachable (step nrRing) (.init mem) s → Awake nrRing s := by
  intro hall
  have hawake := hall (fun _ => 0) _ (Transition.reachable_of_run lostEvent rfl)
  have hpoll := hawake.reader ⟨10, -1⟩ rfl (by decide) (not_wrptrDue_of_idle rfl rfl)
  exact absurd hpoll (by decide)

end ModemSupport.Sipc.Sbuf
