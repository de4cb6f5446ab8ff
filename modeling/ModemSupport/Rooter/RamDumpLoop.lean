import ModemSupport.Rooter.RamDump

/-! Every memory dump ends: the loops of `sahara_start` over the table, over an entry and over the
bytes of a request. -/

namespace ModemSupport.Rooter.RamDump

open Lib.Memory Lib.Transition List Option

variable {d : Device} {s t : State} {e : Entry} {addr n k : Nat}

@[simp] theorem length_bytes : (d.bytes addr n).length = n := by
  simp [Device.bytes]

theorem length_answer_chunk {cur limit : Nat} :
    (d.answer addr (chunk e cur limit)).length = chunk e cur limit := by
  have hwidth : 2 ^ 32 ≤ 2 ^ d.width := by
    refine Nat.pow_le_pow_right (by decide) ?_
    unfold Device.width
    split
    · decide
    · decide
  have hmod := Nat.mod_lt (e.length - cur) (by decide : 0 < 2 ^ 32)
  have hle : chunk e cur limit ≤ (e.length - cur) % 2 ^ 32 := Nat.min_le_left _ _
  rw [Device.answer, length_bytes]
  exact Nat.mod_eq_of_lt (by omega)

def Pc.stage : Pc → Nat
  | .waitMemoryTable _ => 2
  | .dumped | .invalidTable | .returnFalse | .exited | .overrun => 0
  | _ => 1

/-- The entries that are not begun, and the one that is, of which `open` is a part. -/
def State.begun (s : State) : Nat :=
  2 * s.memoryTable.length + if s.pc = .openFile then 1 else 0

def State.remaining (s : State) : Nat := (s.memoryTable.head?.map (·.length - s.cur)).getD 0

def State.request (s : State) : Nat :=
  (s.memoryTable.head?.map (chunk · s.cur s.maxRamDumpRead)).getD 0

/-- The places in front of a request, and those behind one of no bytes, whose `sahara_rx_data` waits
for a packet. -/
def Pc.asks : Pc → Nat
  | .readRegion | .rxHeader | .rxPacket _ | .writeFile _ => 2
  | _ => 0

/-- The steps that the bytes under way and those of the next request can give. -/
def State.calls (s : State) : Nat :=
  2 * s.outgoing.length + s.port.length + s.pc.asks * s.request

def Pc.place : Pc → Nat
  | .writeFile _ => 2
  | .readRegion => 1
  | _ => 0

def Nearer (t s : State) : Prop :=
  t.pc.stage < s.pc.stage ∨ t.pc.stage = s.pc.stage ∧
  (t.begun < s.begun ∨ t.begun = s.begun ∧
  (t.remaining < s.remaining ∨ t.remaining = s.remaining ∧
  (t.maxRamDumpRead < s.maxRamDumpRead ∨ t.maxRamDumpRead = s.maxRamDumpRead ∧
  (t.calls < s.calls ∨ t.calls = s.calls ∧ t.pc.place < s.pc.place))))

theorem nearer_wf : WellFounded Nearer := by
  let m (s : State) : Nat × Nat × Nat × Nat × Nat × Nat :=
    (s.pc.stage, s.begun, s.remaining, s.maxRamDumpRead, s.calls, s.pc.place)
  refine Subrelation.wf ?_ (InvImage.wf m WellFoundedRelation.wf)
  intro t s h
  show Prod.Lex (· < ·) (Prod.Lex (· < ·) (Prod.Lex (· < ·) (Prod.Lex (· < ·)
    (Prod.Lex (· < ·) (· < ·))))) (m t) (m s)
  simp only [Prod.lex_def]
  exact h

/-- Within the loop over an entry there is one, and a request for some bytes is one for it. -/
def Current (s : State) : Prop :=
  match s.pc with
  | .rxData _ _ => ∃ e, s.memoryTable.head? = some e ∧ s.cur < e.length
  | .readRegion | .rxHeader | .rxPacket _ | .writeFile _ => s.memoryTable ≠ []
  | _ => True

theorem ne_nil_of_head? {l : List Entry} (h : l.head? = some e) : l ≠ [] := by
  rintro rfl
  cases h

theorem nearer_of_stage (h : t.pc.stage < s.pc.stage) : Nearer t s := .inl h

theorem nearer_failed {port : Bytes} (h : s.pc.stage = 1) (hopen : s.pc ≠ .openFile) :
    Nearer ({ s with port := port } : State).failed s := by
  unfold State.failed
  dsimp only
  split
  case isTrue hmore =>
    refine .inr ⟨h.symm, .inr ⟨?_, .inr ⟨rfl, .inl ?_⟩⟩⟩
    · simp [State.begun, hopen]
    · exact Nat.div_lt_self (by omega) (by decide)
  case isFalse =>
    left
    rw [h]
    exact Nat.zero_lt_one

theorem current_failed (h : s.memoryTable ≠ []) : Current s.failed := by
  unfold State.failed
  split
  · exact h
  · trivial

theorem nearer_bytes {pc : Pc} {outgoing port : Bytes} (hstage : pc.stage = s.pc.stage)
    (hopen : pc = .openFile ↔ s.pc = .openFile) (hasks : pc.asks ≤ s.pc.asks)
    (h : 2 * outgoing.length + port.length < 2 * s.outgoing.length + s.port.length) :
    Nearer { s with pc := pc, outgoing := outgoing, port := port } s := by
  refine .inr ⟨hstage, .inr ⟨?_, .inr ⟨rfl, .inr ⟨rfl, .inl ?_⟩⟩⟩⟩
  · simp only [State.begun, hopen]
  · have hrequest := Nat.mul_le_mul_right s.request hasks
    exact Nat.add_lt_add_of_lt_of_le h hrequest

theorem nearer_table (table : Bytes) (h : s.pc.stage = 2) :
    Current (s.waitMemoryTable d table) ∧ (s.waitMemoryTable d table).pc.stage < s.pc.stage := by
  rw [h]
  unfold State.waitMemoryTable
  split
  · exact ⟨trivial, Nat.zero_lt_two⟩
  · split
    · exact ⟨trivial, Nat.zero_lt_two⟩
    · exact ⟨trivial, Nat.one_lt_two⟩

theorem nearer_read (h : Current s) (ht : s.read d k = some t) : Current t ∧ Nearer t s := by
  unfold State.read at ht
  split at ht
  case isFalse => cases ht
  case isTrue hk =>
    have hbytes : 2 * s.outgoing.length + (s.port.drop k).length <
        2 * s.outgoing.length + s.port.length := by
      rw [length_drop]
      omega
    cases hpc : s.pc with
    | waitMemoryTable got =>
      simp only [hpc] at ht
      split at ht
      · obtain rfl := some.inj ht
        exact ⟨trivial, nearer_bytes (by rw [hpc]; rfl) (by simp [hpc]) (Nat.zero_le _) hbytes⟩
      · split at ht
        · obtain rfl := some.inj ht
          obtain ⟨hcurrent, hstage⟩ := nearer_table (d := d)
            (s := { s with pc := .waitMemoryTable got, port := s.port.drop k })
            (got ++ s.port.take k) rfl
          exact ⟨hcurrent, nearer_of_stage (hpc ▸ hstage)⟩
        · cases ht
    | rxData len got =>
      simp only [hpc] at ht
      simp only [Current, hpc] at h
      split at ht
      · obtain rfl := some.inj ht
        exact ⟨h, nearer_bytes (by rw [hpc]; rfl) (by simp [hpc]) (Nat.zero_le _) hbytes⟩
      · split at ht
        · obtain rfl := some.inj ht
          obtain ⟨e, he, hcur⟩ := h
          refine ⟨ne_nil_of_head? he, .inr ⟨?_, .inr ⟨?_, .inl ?_⟩⟩⟩
          · rw [hpc]
            rfl
          · simp [State.begun, hpc]
          · simp only [State.remaining, he, map_some, getD_some]
            omega
        · cases ht
    | rxHeader =>
      have hfailed : Nearer ({ s with port := s.port.drop k } : State).failed s :=
        nearer_failed (by rw [hpc]; rfl) (by simp [hpc])
      rw [hpc] at hfailed
      simp only [hpc] at ht
      simp only [Current, hpc] at h
      split at ht
      · obtain rfl := some.inj ht
        exact ⟨current_failed h, hfailed⟩
      · split at ht
        · split at ht
          · obtain rfl := some.inj ht
            exact ⟨h, nearer_bytes (by rw [hpc]; rfl) (by simp [hpc])
              (by rw [hpc]; exact Nat.le_refl _) hbytes⟩
          · obtain rfl := some.inj ht
            exact ⟨current_failed h, hfailed⟩
        · cases ht
    | rxPacket length =>
      have hfailed : Nearer ({ s with port := s.port.drop k } : State).failed s :=
        nearer_failed (by rw [hpc]; rfl) (by simp [hpc])
      rw [hpc] at hfailed
      simp only [hpc] at ht
      simp only [Current, hpc] at h
      split at ht
      · cases ht
      · split at ht
        · obtain rfl := some.inj ht
          refine ⟨trivial, nearer_of_stage ?_⟩
          rw [hpc]
          exact Nat.zero_lt_one
        · split at ht
          · obtain rfl := some.inj ht
            exact ⟨h, nearer_bytes (by rw [hpc]; rfl) (by simp [hpc])
              (by rw [hpc]; exact Nat.le_refl _) hbytes⟩
          · obtain rfl := some.inj ht
            exact ⟨current_failed h, hfailed⟩
    | _ => simp [hpc] at ht

theorem nearer_send {ok : Bool} (ht : s.send d ok = some t) : Current t ∧ Nearer t s := by
  unfold State.send at ht
  split at ht
  case h_1 e es hpc hes =>
    split at ht
    case isTrue hcur =>
      have hhead : s.memoryTable.head? = some e := by rw [hes]; rfl
      have hrequest : s.request = chunk e s.cur s.maxRamDumpRead := by simp [State.request, hhead]
      have hlength : (d.answer (e.memBase + s.cur) (chunk e s.cur s.maxRamDumpRead)).length =
          chunk e s.cur s.maxRamDumpRead := length_answer_chunk
      dsimp only at ht
      split at ht
      · obtain rfl := some.inj ht
        -- The bytes of the answer are those of the request; only the place is nearer.
        split
        case isTrue hzero =>
          refine ⟨ne_nil_of_head? hhead, .inr ⟨?_, .inr ⟨?_,
            .inr ⟨rfl, .inr ⟨rfl, .inr ⟨?_, ?_⟩⟩⟩⟩⟩⟩
          · rw [hpc]
            rfl
          · simp [State.begun, hpc]
          · simp only [State.calls, hpc, length_append, hzero]
            rfl
          · rw [hpc]
            exact Nat.zero_lt_one
        case isFalse =>
          refine ⟨⟨e, hhead, hcur⟩, .inr ⟨?_, .inr ⟨?_, .inr ⟨rfl, .inr ⟨rfl, .inr ⟨?_, ?_⟩⟩⟩⟩⟩⟩
          · rw [hpc]
            rfl
          · simp [State.begun, hpc]
          · simp only [State.calls, hpc, length_append, hlength, hrequest, Pc.asks]
            omega
          · rw [hpc]
            exact Nat.zero_lt_one
      · obtain rfl := some.inj ht
        refine ⟨trivial, nearer_of_stage ?_⟩
        rw [hpc]
        exact Nat.zero_lt_one
    case isFalse => cases ht
  case h_2 => cases ht

theorem nearer_next (ht : s.next = some t) : Current t ∧ Nearer t s := by
  unfold State.next at ht
  split at ht
  case h_1 e es hpc hes =>
    split at ht
    · obtain rfl := some.inj ht
      refine ⟨trivial, .inr ⟨?_, .inl ?_⟩⟩
      · rw [hpc]
        rfl
      · simp only [State.begun, hes, hpc, length_cons]
        simp
        omega
    · cases ht
  case h_2 hpc hes =>
    obtain rfl := some.inj ht
    refine ⟨trivial, nearer_of_stage ?_⟩
    rw [hpc]
    exact Nat.zero_lt_one
  case h_3 => cases ht

theorem nearer_timeout (h : Current s) (ht : s.timeout = some t) : Current t ∧ Nearer t s := by
  have hfailed : s.pc.stage = 1 → s.pc ≠ .openFile → s.memoryTable ≠ [] →
      Current s.failed ∧ Nearer s.failed s := by
    intro hstage hopen hne
    have hnear : Nearer ({ s with port := s.port } : State).failed s := nearer_failed hstage hopen
    exact ⟨current_failed hne, hnear⟩
  unfold State.timeout at ht
  split at ht
  case h_1 hpc =>
    obtain rfl := some.inj ht
    refine ⟨trivial, nearer_of_stage ?_⟩
    rw [hpc]
    exact Nat.zero_lt_two
  case h_2 hpc =>
    obtain rfl := some.inj ht
    simp only [Current, hpc] at h
    obtain ⟨e, he, -⟩ := h
    exact hfailed (by rw [hpc]; rfl) (by simp [hpc]) (ne_nil_of_head? he)
  case h_3 hpc =>
    obtain rfl := some.inj ht
    simp only [Current, hpc] at h
    exact hfailed (by rw [hpc]; rfl) (by simp [hpc]) h
  case h_4 hpc =>
    obtain rfl := some.inj ht
    simp only [Current, hpc] at h
    exact hfailed (by rw [hpc]; rfl) (by simp [hpc]) h
  case h_5 => cases ht

theorem nearer_step (s : State) (l : Label) (t : State) (h : Current s)
    (ht : step d s l = some t) : Current t ∧ Nearer t s := by
  cases l with
  | arrive k =>
    simp only [step] at ht
    split at ht
    case isTrue hk =>
      obtain rfl := some.inj ht
      refine ⟨h, nearer_bytes rfl Iff.rfl (Nat.le_refl _) ?_⟩
      rw [length_append, length_take_of_le hk.2, length_drop]
      omega
    case isFalse => cases ht
  | lose k =>
    simp only [step] at ht
    split at ht
    case isTrue hk =>
      obtain rfl := some.inj ht
      refine ⟨h, nearer_bytes rfl Iff.rfl (Nat.le_refl _) ?_⟩
      rw [length_take]
      omega
    case isFalse => cases ht
  | read k => exact nearer_read h ht
  | timeout => exact nearer_timeout h ht
  | openFile ok =>
    simp only [step] at ht
    split at ht
    case isTrue hopen =>
      obtain rfl := some.inj ht
      split
      · refine ⟨hopen.2, .inr ⟨?_, .inl ?_⟩⟩
        · rw [hopen.1]
          rfl
        · simp [State.begun, hopen.1]
      · refine ⟨trivial, nearer_of_stage ?_⟩
        rw [hopen.1]
        exact Nat.zero_lt_one
    case isFalse => cases ht
  | send ok => exact nearer_send ht
  | write retval =>
    simp only [step] at ht
    split at ht
    case h_1 hpc =>
      obtain rfl := some.inj ht
      refine ⟨trivial, nearer_of_stage ?_⟩
      rw [hpc]
      exact Nat.zero_lt_one
    case h_2 hpc =>
      simp only [Current, hpc] at h
      split at ht
      · obtain rfl := some.inj ht
        refine ⟨h, .inr ⟨?_, .inr ⟨?_, .inr ⟨rfl, .inr ⟨rfl, .inr ⟨?_, ?_⟩⟩⟩⟩⟩⟩
        · rw [hpc]
          rfl
        · simp [State.begun, hpc]
        · simp only [State.calls, hpc]
          rfl
        · rw [hpc]
          exact Nat.one_lt_two
      · cases ht
    case h_3 => cases ht
  | next => exact nearer_next ht

theorem exists_step (hcurrent : Current s) (hpc : s.pc.Running) :
    ∃ l t, step d s l = some t := by
  cases h : s.pc with
  | waitMemoryTable got => exact ⟨.timeout, _, by simp only [step, State.timeout, h]; rfl⟩
  | openFile =>
    by_cases hne : s.memoryTable = []
    · exact ⟨.next, _, by simp only [step, State.next, h, hne]; rfl⟩
    · exact ⟨.openFile true, _, if_pos ⟨h, hne⟩⟩
  | readRegion =>
    simp only [Current, h] at hcurrent
    obtain ⟨e, es, hes⟩ := exists_cons_of_ne_nil hcurrent
    by_cases hcur : s.cur < e.length
    · exact ⟨.send false, _, by simp only [step, State.send, h, hes, if_pos hcur]; rfl⟩
    · have hle : e.length ≤ s.cur := Nat.not_lt.mp hcur
      exact ⟨.next, _, by simp only [step, State.next, h, hes, if_pos hle]; rfl⟩
  | rxData len got => exact ⟨.timeout, _, by simp only [step, State.timeout, h]; rfl⟩
  | rxHeader => exact ⟨.timeout, _, by simp only [step, State.timeout, h]; rfl⟩
  | rxPacket length => exact ⟨.timeout, _, by simp only [step, State.timeout, h]; rfl⟩
  | writeFile buf => exact ⟨.write none, _, by simp only [step, h]; rfl⟩
  | _ =>
    rw [h] at hpc
    exact hpc.elim

theorem current_waitCommand : Current (waitCommand d) := by
  unfold waitCommand
  dsimp only
  split
  · trivial
  · split
    · trivial
    · split
      · trivial
      · trivial

/-- Whatever the device and the calls do, `sahara_start` leaves its loops. -/
theorem terminates (h : Reachable (step d) (waitCommand d) s) : Terminates d s := by
  have hcurrent : Current s := h.invariant current_waitCommand
    fun s l t hs _ ht => (nearer_step s l t hs ht).1
  exact ⟨acc_of_decreasing nearer_wf id nearer_step hcurrent, exists_step hcurrent⟩

end ModemSupport.Rooter.RamDump
