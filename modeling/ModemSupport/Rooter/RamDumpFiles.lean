import ModemSupport.Rooter.RamDumpLoop

/-! The runs of a memory dump whose files have the bytes of the memory. -/

namespace ModemSupport.Rooter.RamDump

open Lib.Memory Lib.Transition List Option

def Pc.InTable : Pc → Prop
  | .waitMemoryTable _ | .invalidTable | .returnFalse | .exited => False
  | _ => True

/-- Nothing is under way from the device. -/
def State.Quiet (s : State) : Prop := s.port = [] ∧ s.outgoing = []

def Pc.buf : Pc → Bytes
  | .writeFile buf => buf
  | _ => []

/-- The steps that keep a dump faithful: the memory table fits `misc_buffer`; a request for bytes of
an entry that is made again has failed for good, nothing of its answer is still to come; and `write`
takes all bytes. -/
def Settled (d : Device) (s : State) (l : Label) : Prop :=
  d.numDebugEntries * sizeofDebugType64 ≤ miscBufferSize ∧
    match l with
    | .timeout => s.pc.InTable → minRamDumpRead < s.maxRamDumpRead → s.Quiet
    | .write (some k) => k = s.pc.buf.length
    | _ => True

instance : DecidablePred Pc.InTable
  | .waitMemoryTable _ | .invalidTable | .returnFalse | .exited => isFalse not_false
  | .openFile | .readRegion | .rxData _ _ | .rxHeader | .rxPacket _ | .writeFile _ | .dumped
  | .overrun => isTrue trivial

instance (s : State) : Decidable s.Quiet := inferInstanceAs (Decidable (_ ∧ _))

instance (d : Device) (s : State) : (l : Label) → Decidable (Settled d s l)
  | .timeout => inferInstanceAs
      (Decidable (_ ∧ (s.pc.InTable → minRamDumpRead < s.maxRamDumpRead → s.Quiet)))
  | .write (some k) => inferInstanceAs (Decidable (_ ∧ k = s.pc.buf.length))
  | .write none | .arrive _ | .lose _ | .read _ | .openFile _ | .send _ | .next =>
    inferInstanceAs (Decidable (_ ∧ True))

variable {d : Device} {s t : State} {e : Entry} {es : List Entry} {got buf : Bytes}
  {addr m n k len : Nat}

theorem bytes_add : d.bytes addr (m + n) = d.bytes addr m ++ d.bytes (addr + m) n := by
  simp [Device.bytes, range_add, Nat.add_assoc]

theorem answer_eq (hn : n < 2 ^ d.width) : d.answer addr n = d.bytes addr n := by
  unfold Device.answer
  rw [Nat.mod_eq_of_lt hn]
  simp [Device.bytes]

theorem lt_width (hn : n ≤ saharaRawBufferSize) : n < 2 ^ d.width := by
  have hraw : saharaRawBufferSize = 65536 := rfl
  unfold Device.width
  split
  · norm_num
    omega
  · norm_num
    omega

/-- The file of the current entry has the first `cur` bytes of its region. -/
structure Within (d : Device) (s : State) (e : Entry) : Prop where
  current : s.memoryTable.head? = some e
  cur_le : s.cur ≤ e.length
  file : s.file = d.bytes e.memBase s.cur

/-- What each place in `sahara_start` says of the bytes from the device. -/
def Stream (d : Device) (s : State) : Prop :=
  match s.pc with
  | .waitMemoryTable got =>
    s.finished = [] ∧ d.memoryTableLength ≤ saharaRawBufferSize ∧
      got ++ (s.port ++ s.outgoing) <+: d.answer d.memoryTableAddr d.memoryTableLength
  | .openFile => s.Quiet
  | .readRegion | .rxHeader => s.Quiet ∧ ∃ e, Within d s e
  | .rxData len got => ∃ e, Within d s e ∧ s.cur + len ≤ e.length ∧
      got ++ (s.port ++ s.outgoing) <+: d.bytes (e.memBase + s.cur) len
  | .writeFile buf => s.Quiet ∧ ∃ e, s.memoryTable.head? = some e ∧ s.cur ≤ e.length ∧
      s.file ++ buf = d.bytes e.memBase s.cur
  | .dumped => s.memoryTable = []
  | .rxPacket _ | .overrun => False
  | .invalidTable | .returnFalse | .exited => True

structure Dumping (d : Device) (s : State) : Prop where
  stream : Stream d s
  entries : s.finished.map Prod.fst <+: d.table
  table : s.pc.InTable → s.finished.map Prod.fst ++ s.memoryTable = d.table
  files : ∀ x ∈ s.finished, x.2 = d.bytes x.1.memBase x.1.length
  limit : s.maxRamDumpRead ≤ saharaRawBufferSize

theorem Dumping.faithful (h : Dumping d s) : Faithful d s where
  entries := h.entries
  files := h.files
  all := by
    intro hpc
    have hstream := h.stream
    have htable := h.table
    rw [Stream, hpc] at hstream
    rw [hpc, hstream, append_nil] at htable
    exact htable trivial
  defined := by
    intro hpc
    have hstream := h.stream
    rw [Stream, hpc] at hstream
    exact hstream

theorem Stream.underway {port outgoing : Bytes} (h : Stream d s) (hne : s.outgoing ≠ [])
    (hleft : port ++ outgoing <+: s.port ++ s.outgoing) :
    Stream d { s with port := port, outgoing := outgoing } := by
  cases hpc : s.pc with
  | waitMemoryTable got =>
    simp only [Stream, hpc] at h ⊢
    exact ⟨h.1, h.2.1, ((prefix_append_right_inj got).mpr hleft).trans h.2.2⟩
  | openFile =>
    simp only [Stream, hpc] at h
    exact absurd h.2 hne
  | readRegion =>
    simp only [Stream, hpc] at h
    exact absurd h.1.2 hne
  | rxHeader =>
    simp only [Stream, hpc] at h
    exact absurd h.1.2 hne
  | rxData len got =>
    simp only [Stream, hpc] at h ⊢
    obtain ⟨e, hwithin, hlen, hbytes⟩ := h
    exact ⟨e, ⟨hwithin.current, hwithin.cur_le, hwithin.file⟩, hlen,
      ((prefix_append_right_inj got).mpr hleft).trans hbytes⟩
  | writeFile buf =>
    simp only [Stream, hpc] at h
    exact absurd h.1.2 hne
  | dumped =>
    simp only [Stream, hpc] at h ⊢
    exact h
  | _ => simp only [Stream, hpc] at h ⊢

theorem Dumping.underway {port outgoing : Bytes} (h : Dumping d s) (hne : s.outgoing ≠ [])
    (hleft : port ++ outgoing <+: s.port ++ s.outgoing) :
    Dumping d { s with port := port, outgoing := outgoing } :=
  ⟨h.stream.underway hne hleft, h.entries, h.table, h.files, h.limit⟩

theorem answer_read {port outgoing answer : Bytes} (h : got ++ (port ++ outgoing) <+: answer)
    (hlength : got.length = answer.length) : got = answer ∧ port = [] ∧ outgoing = [] := by
  have hgot : got = answer := ((prefix_append got _).trans h).eq_of_length hlength
  have hle := h.length_le
  simp only [length_append] at hle
  refine ⟨hgot, ?_, ?_⟩
  · exact eq_nil_of_length_eq_zero (by omega)
  · exact eq_nil_of_length_eq_zero (by omega)

theorem Dumping.leave {pc : Pc} (h : Dumping d s) (hpc : pc.InTable → False)
    (hwait : ∀ got, pc ≠ .waitMemoryTable got) : Dumping d { s with pc := pc } := by
  refine ⟨?_, h.entries, fun hin => (hpc hin).elim, h.files, h.limit⟩
  cases pc with
  | waitMemoryTable got => exact absurd rfl (hwait got)
  | _ => first | trivial | exact (hpc trivial).elim

theorem dumping_failed (h : Dumping d s) (htable : s.pc.InTable)
    (hquiet : minRamDumpRead < s.maxRamDumpRead → s.Quiet ∧ ∃ e, Within d s e) :
    Dumping d s.failed := by
  unfold State.failed
  split
  case isTrue hmore =>
    obtain ⟨hq, e, hwithin⟩ := hquiet hmore
    refine ⟨?_, h.entries, fun _ => h.table htable, h.files, (Nat.div_le_self _ _).trans h.limit⟩
    exact ⟨hq, e, hwithin.current, hwithin.cur_le, hwithin.file⟩
  case isFalse => exact h.leave id (fun _ => nofun)

theorem dumping_table (hsmall : d.numDebugEntries * sizeofDebugType64 ≤ miscBufferSize)
    (htable : got = d.answer d.memoryTableAddr d.memoryTableLength) (hfinished : s.finished = [])
    (hquiet : s.Quiet) (hlimit : s.maxRamDumpRead ≤ saharaRawBufferSize) :
    Dumping d (s.waitMemoryTable d got) := by
  unfold State.waitMemoryTable
  rw [if_neg (by unfold saharaRawBufferSize; unfold miscBufferSize at hsmall; omega),
    if_neg (Nat.not_lt.mpr hsmall)]
  refine ⟨hquiet, ?_, fun _ => ?_, ?_, hlimit⟩
  · simp [hfinished]
  · simp only [hfinished, htable]
    rfl
  · simp [hfinished]

theorem read_dumping (h : Dumping d s) (hl : Settled d s (.read k)) (ht : s.read d k = some t) :
    Dumping d t := by
  unfold State.read at ht
  split at ht
  case isFalse => cases ht
  case isTrue hk =>
    have hne : s.port ≠ [] := by
      have hpos : 0 < s.port.length := by omega
      exact ne_nil_of_length_pos hpos
    have htake : (s.port.take k).length = k := length_take_of_le hk.2.1
    have hsplit : s.port ++ s.outgoing = s.port.take k ++ (s.port.drop k ++ s.outgoing) := by
      rw [← append_assoc, take_append_drop]
    have hstream := h.stream
    have htable := h.table
    cases hpc : s.pc with
    | waitMemoryTable got =>
      simp only [Stream, hpc, hsplit, ← append_assoc] at hstream
      obtain ⟨hfinished, hlength, hbytes⟩ := hstream
      rw [append_assoc] at hbytes
      simp only [hpc] at ht
      split at ht
      case isTrue =>
        obtain rfl := some.inj ht
        exact ⟨⟨hfinished, hlength, hbytes⟩, h.entries, nofun, h.files, h.limit⟩
      case isFalse =>
        split at ht
        case isTrue hall =>
          obtain rfl := some.inj ht
          have hanswer : (d.answer d.memoryTableAddr d.memoryTableLength).length =
              d.memoryTableLength := by
            rw [answer_eq (lt_width hlength), length_bytes]
          obtain ⟨hgot, hport, houtgoing⟩ := answer_read hbytes
            (by rw [length_append, htake, hall, hanswer])
          exact dumping_table hl.1 hgot hfinished ⟨hport, houtgoing⟩ h.limit
        case isFalse => cases ht
    | rxData len got =>
      simp only [Stream, hpc, hsplit, ← append_assoc] at hstream
      obtain ⟨e, hwithin, hlen, hbytes⟩ := hstream
      rw [append_assoc] at hbytes
      simp only [hpc] at ht htable
      split at ht
      case isTrue =>
        obtain rfl := some.inj ht
        refine ⟨⟨e, ⟨hwithin.current, hwithin.cur_le, hwithin.file⟩, hlen, hbytes⟩, h.entries,
          fun _ => htable trivial, h.files, h.limit⟩
      case isFalse =>
        split at ht
        case isTrue hall =>
          obtain rfl := some.inj ht
          obtain ⟨hgot, hport, houtgoing⟩ := answer_read hbytes
            (by rw [length_append, htake, hall, length_bytes])
          refine ⟨⟨⟨hport, houtgoing⟩, e, hwithin.current, hlen, ?_⟩, h.entries,
            fun _ => htable trivial, h.files, h.limit⟩
          show s.file ++ (got ++ s.port.take k) = d.bytes e.memBase (s.cur + len)
          rw [hgot, hwithin.file, bytes_add]
        case isFalse => cases ht
    | rxHeader =>
      simp only [Stream, hpc] at hstream
      exact absurd hstream.1.1 hne
    | rxPacket length => simp only [Stream, hpc] at hstream
    | _ => simp [hpc] at ht

theorem chunk_le : s.cur + chunk e s.cur s.maxRamDumpRead ≤ max s.cur e.length := by
  have hmod := Nat.mod_le (e.length - s.cur) (2 ^ 32)
  have hmin := Nat.min_le_left ((e.length - s.cur) % 2 ^ 32) s.maxRamDumpRead
  unfold chunk
  omega

theorem send_dumping {ok : Bool} (h : Dumping d s) (ht : s.send d ok = some t) : Dumping d t := by
  unfold State.send at ht
  split at ht
  case h_1 e es hpc hes =>
    have hstream := h.stream
    simp only [Stream, hpc] at hstream
    obtain ⟨⟨hport, houtgoing⟩, e', hwithin⟩ := hstream
    have htable := h.table
    rw [hpc] at htable
    obtain rfl : e = e' := by simpa [hes] using hwithin.current
    split at ht
    case isTrue hcur =>
      dsimp only at ht
      split at ht
      case isTrue hok =>
        obtain rfl := some.inj ht
        have hlimit : chunk e s.cur s.maxRamDumpRead ≤ saharaRawBufferSize :=
          (Nat.min_le_right _ _).trans h.limit
        have hanswer : d.answer (e.memBase + s.cur) (chunk e s.cur s.maxRamDumpRead) =
            d.bytes (e.memBase + s.cur) (chunk e s.cur s.maxRamDumpRead) :=
          answer_eq (lt_width hlimit)
        have hle := chunk_le (s := s) (e := e)
        refine ⟨?_, h.entries, fun _ => htable trivial, h.files, h.limit⟩
        by_cases hzero : chunk e s.cur s.maxRamDumpRead = 0
        · have hnone : d.answer (e.memBase + s.cur) 0 = [] := by
            rw [answer_eq (lt_width (Nat.zero_le _))]
            rfl
          simp only [Stream, hzero, if_true]
          refine ⟨⟨hport, ?_⟩, e, hwithin.current, hwithin.cur_le, hwithin.file⟩
          show s.outgoing ++ d.answer (e.memBase + s.cur) 0 = []
          rw [houtgoing, hnone]
          rfl
        · simp only [Stream, if_neg hzero]
          refine ⟨e, ⟨hwithin.current, hwithin.cur_le, hwithin.file⟩, by omega, ?_⟩
          rw [hport, houtgoing, hanswer]
          exact prefix_rfl
      case isFalse =>
        obtain rfl := some.inj ht
        exact h.leave id fun _ => nofun
    case isFalse => cases ht
  case h_2 => cases ht

theorem next_dumping (h : Dumping d s) (ht : s.next = some t) : Dumping d t := by
  have hstream := h.stream
  have htable := h.table
  unfold State.next at ht
  split at ht
  case h_1 e es hpc hes =>
    simp only [Stream, hpc] at hstream
    obtain ⟨hquiet, e', hwithin⟩ := hstream
    obtain rfl : e = e' := by simpa [hes] using hwithin.current
    rw [hpc, hes] at htable
    split at ht
    case isTrue hcur =>
      obtain rfl := some.inj ht
      have hsplit : (s.finished ++ [(e, s.file)]).map Prod.fst ++ es = d.table := by
        rw [← htable trivial]
        simp
      refine ⟨hquiet, ⟨es, hsplit⟩, fun _ => hsplit, ?_, h.limit⟩
      intro x hx
      rcases mem_append.mp hx with hx | hx
      · exact h.files x hx
      · obtain rfl := mem_singleton.mp hx
        have hall : s.cur = e.length := Nat.le_antisymm hwithin.cur_le hcur
        rw [hwithin.file, hall]
    case isFalse => cases ht
  case h_2 hpc hes =>
    obtain rfl := some.inj ht
    rw [hpc] at htable
    exact ⟨hes, h.entries, fun _ => htable trivial, h.files, h.limit⟩
  case h_3 => cases ht

theorem timeout_dumping (h : Dumping d s) (hl : Settled d s .timeout) (ht : s.timeout = some t) :
    Dumping d t := by
  have hstream := h.stream
  unfold State.timeout at ht
  cases hpc : s.pc with
  | waitMemoryTable got =>
    simp only [hpc] at ht
    obtain rfl := some.inj ht
    exact h.leave id fun _ => nofun
  | rxData len got =>
    simp only [hpc] at ht
    obtain rfl := some.inj ht
    simp only [Stream, hpc] at hstream
    obtain ⟨e, hwithin, -, -⟩ := hstream
    have htable : s.pc.InTable := by rw [hpc]; trivial
    exact dumping_failed h htable fun hmore => ⟨hl.2 htable hmore, e, hwithin⟩
  | rxHeader =>
    simp only [hpc] at ht
    obtain rfl := some.inj ht
    simp only [Stream, hpc] at hstream
    exact dumping_failed h (by rw [hpc]; trivial) fun _ => hstream
  | rxPacket length => simp only [Stream, hpc] at hstream
  | _ => simp [hpc] at ht

theorem step_dumping {l : Label} (h : Dumping d s) (hl : Settled d s l) (ht : step d s l = some t) :
    Dumping d t := by
  have hstream := h.stream
  have htable := h.table
  cases l with
  | arrive k =>
    simp only [step] at ht
    split at ht
    case isTrue hk =>
      obtain rfl := some.inj ht
      have hsame : s.port ++ s.outgoing.take k ++ s.outgoing.drop k = s.port ++ s.outgoing := by
        rw [append_assoc, take_append_drop]
      exact h.underway (ne_nil_of_length_pos (by omega)) ⟨[], by rw [append_nil, hsame]⟩
    case isFalse => cases ht
  | lose k =>
    simp only [step] at ht
    split at ht
    case isTrue hk =>
      obtain rfl := some.inj ht
      have hleft : s.port ++ s.outgoing.take (s.outgoing.length - k) <+: s.port ++ s.outgoing :=
        (prefix_append_right_inj _).mpr (List.take_prefix _ _)
      exact h.underway (ne_nil_of_length_pos (by omega)) hleft
    case isFalse => cases ht
  | read k => exact read_dumping h hl ht
  | timeout => exact timeout_dumping h hl ht
  | openFile ok =>
    simp only [step] at ht
    split at ht
    case isTrue hopen =>
      obtain rfl := some.inj ht
      obtain ⟨hpc, hne⟩ := hopen
      rw [hpc] at htable
      simp only [Stream, hpc] at hstream
      obtain ⟨e, es, hes⟩ := exists_cons_of_ne_nil hne
      split
      · exact ⟨⟨hstream, e, by simp [hes], Nat.zero_le _, rfl⟩, h.entries,
          fun _ => htable trivial, h.files, h.limit⟩
      · exact h.leave id fun _ hlate => by cases hlate
    case isFalse => cases ht
  | send ok => exact send_dumping h ht
  | write retval =>
    simp only [step] at ht
    split at ht
    case h_1 =>
      obtain rfl := some.inj ht
      exact h.leave id fun _ hlate => by cases hlate
    case h_2 buf k hpc =>
      have hall : k = buf.length := by
        have hl' := hl.2
        rw [hpc] at hl'
        exact hl'
      rw [hpc] at htable
      simp only [Stream, hpc] at hstream
      obtain ⟨hquiet, e, hcurrent, hcur, hfile⟩ := hstream
      subst hall
      split at ht
      case isTrue =>
        obtain rfl := some.inj ht
        refine ⟨⟨hquiet, e, hcurrent, hcur, ?_⟩, h.entries, fun _ => htable trivial, h.files,
          h.limit⟩
        rw [List.take_length]
        exact hfile
      case isFalse => cases ht
    case h_3 => cases ht
  | next => exact next_dumping h ht

theorem dumping_waitCommand : Dumping d (waitCommand d) := by
  unfold waitCommand
  dsimp only
  split
  · exact ⟨trivial, nil_prefix, nofun, nofun, Nat.le_refl _⟩
  · split
    case isTrue hzero =>
      refine ⟨⟨rfl, rfl⟩, nil_prefix, fun _ => ?_, nofun, Nat.le_refl _⟩
      simp [Device.table, Device.numDebugEntries, hzero, entries]
    case isFalse =>
      split
      · exact ⟨trivial, nil_prefix, nofun, nofun, Nat.le_refl _⟩
      case isFalse hle =>
        exact ⟨⟨rfl, Nat.not_lt.mp hle, prefix_rfl⟩, nil_prefix, nofun, nofun,
          Nat.le_refl _⟩

/-- A dump whose steps are all settled has files that equal the memory, and ends. -/
theorem faithful_of_settled (h : Reaches (step d) (Settled d) (waitCommand d) s) :
    Faithful d s ∧ Terminates d s := by
  have hdumping : Dumping d s := h.invariant dumping_waitCommand fun _ _ _ => step_dumping
  exact ⟨hdumping.faithful, terminates h.reachable⟩

def smallDevice : Device where
  mem a := (toLE 8 0 ++ toLE 8 100 ++ toLE 8 5 ++ toLE 20 0 ++ toLE 20 97).getD a (UInt8.ofNat a)
  ramDump64bit := true
  memoryTableAddr := 0
  memoryTableLength := 64

def firstRequest : List Label := [.arrive 64, .read 60, .read 4, .openFile true, .send true]

/-- The first request fails, and the rest of its answer never comes. -/
def lostBytes : List Label :=
  firstRequest ++ [.arrive 2, .read 2, .lose 3, .timeout, .send true, .arrive 5, .read 3, .read 2,
    .write (some 5), .next, .next]

theorem faithful_lostBytes : ∃ s, (Faithful smallDevice s ∧ Terminates smallDevice s) ∧
    s.pc = .dumped ∧ s.finished.map Prod.snd = [[100, 101, 102, 103, 104]] := by
  have hrun : (run (guarded (step smallDevice) (Settled smallDevice)) (waitCommand smallDevice)
      lostBytes).any (fun s => decide
        (s.pc = .dumped ∧ s.finished.map Prod.snd = [[100, 101, 102, 103, 104]])) = true := by
    decide
  obtain ⟨s, hreaches, hs⟩ := exists_of_run _ hrun
  exact ⟨s, faithful_of_settled hreaches, hs⟩

def lateBytes : List Label :=
  firstRequest ++ [.arrive 2, .read 2, .timeout, .send true, .arrive 8, .read 5,
    .write (some 5), .next]

theorem unfaithful_lateBytes :
    ¬ ∀ d s, Reachable (step d) (waitCommand d) s → Faithful d s ∧ Terminates d s := by
  intro h
  have hrun : (run (guarded (step smallDevice) fun _ _ => True) (waitCommand smallDevice)
      lateBytes).any (fun s => decide (∃ x ∈ s.finished,
        x.2 ≠ smallDevice.bytes x.1.memBase x.1.length)) = true := by
    decide
  obtain ⟨s, hreaches, x, hx, hne⟩ := exists_of_run _ hrun
  exact hne ((h smallDevice s hreaches).1.files x hx)

end ModemSupport.Rooter.RamDump
