import ModemSupport.Sipc.SbufStream

/-! Rings whose size does not divide `2^32`.  Single bytes go round the ring until the pointers
stand before the wrap; of two bytes written there together, the second is read at the start of
the buffer, where it was not stored. -/

namespace ModemSupport.Sipc.Sbuf

open ModemSupport.Lib

abbrev ShortRun (c : Config) : State → State → Prop :=
  Transition.Reaches (step c) fun _ op => Short op

variable {c : Config} {s : State}

theorem ShortRun.cons {s' t : State} {op : Op} (hop : Short op) (h : step c s op = some s')
    (hrest : ShortRun c s' t) : ShortRun c s t :=
  Transition.Reaches.trans (.single hop h) hrest

theorem ShortRun.writer {s' t : State} (h : writerStep c s = some s') (hrest : ShortRun c s' t) :
    ShortRun c s t :=
  @ShortRun.cons c s s' t .writer trivial h hrest

theorem ShortRun.reader {s' t : State} (h : readerStep c s = some s') (hrest : ShortRun c s' t) :
    ShortRun c s t :=
  @ShortRun.cons c s s' t .reader trivial h hrest

theorem exists_write (data : List UInt8) (hw : s.writer = .idle) (hempty : s.wrptr = s.rdptr)
    (hpos : 0 < data.length) (hlen : data.length ≤ c.size.toNat)
    (hsmall : c.size.toNat < 2 ^ 31) :
    ∃ s', ShortRun c s s' ∧ s'.writer = .idle ∧ s'.reader = s.reader ∧ s'.rdptr = s.rdptr ∧
      s'.wrptr = s.wrptr + UInt32.ofNat data.length ∧
      s'.buf = copyIn c.size.toNat s.buf (s.wrptr % c.size).toNat data ∧
      s'.accepted = s.accepted ++ data ∧ s'.returned = s.returned := by
  have hcount : (UInt32.ofNat data.length).toNat = data.length := by
    rw [UInt32.toNat_ofNat', Nat.mod_eq_of_lt (by omega)]
  have hleft : int (UInt32.ofNat data.length) = data.length := by
    rw [int_of_lt (by omega), hcount]
  have hroom : s.wrptr - s.rdptr < c.size := by
    rw [hempty, UInt32.sub_self]
    exact c.size_pos
  have hint : int (c.size - (s.wrptr - s.rdptr)) = c.size.toNat := by
    rw [hempty, UInt32.sub_self, UInt32.sub_zero, int_of_lt hsmall]
  have hmin : min (int (c.size - (s.wrptr - s.rdptr))) (data.length : Int) = data.length := by
    rw [hint]
    omega
  let call : WriteCall := ⟨data, data.length, -1⟩
  let s₁ : State := { s with writer := .sampled call false }
  let s₂ : State := { s₁ with pollOut := true, writer := .loop call }
  let s₃ : State := { s₂ with writer := .place call }
  let s₄ : State := { s₃ with writer := .copy call (s.wrptr % c.size) data.length }
  let s₅ : State :=
    { s₄ with
      buf := copyIn c.size.toNat s.buf (s.wrptr % c.size).toNat data
      writer := .advance call data.length }
  let s₆ : State :=
    { s₅ with
      wrptr := s.wrptr + UInt32.ofNat data.length
      accepted := s.accepted ++ data
      writer := .test call data.length }
  let s₇ : State := { s₆ with writer := .send call data.length }
  let s₈ : State :=
    { s₇ with wrptrEvents := s.wrptrEvents + 1, writer := .loop (call.rest data.length) }
  let s₉ : State := { s₈ with writer := .mask }
  let s₁₀ : State :=
    { s₉ with pollOut := !decide (c.size ≤ s₉.wrptr - s₉.rdptr), writer := .idle }
  have h₁ : step c s (.write data (-1)) = some s₁ := by
    rw [step, if_pos ⟨hw, by omega⟩, hleft, decide_eq_false (by simpa using hroom)]
  have h₂ : writerStep c s₁ = some s₂ := rfl
  have h₃ : writerStep c s₂ = some s₃ := by
    rw [writerStep]
    simp only [s₂, s₁, s₃, call]
    rw [if_pos ⟨by omega, hroom⟩]
  have h₄ : writerStep c s₃ = some s₄ := by
    rw [writerStep]
    simp only [s₃, s₂, s₁, s₄, call, hmin]
  have h₅ : writerStep c s₄ = some s₅ := by
    rw [writerStep]
    simp [s₄, s₃, s₂, s₁, s₅, call]
  have h₆ : writerStep c s₅ = some s₆ := by
    rw [writerStep]
    simp [s₅, s₄, s₃, s₂, s₁, s₆, call]
  have h₇ : writerStep c s₆ = some s₇ := by
    rw [writerStep]
    simp [s₆, s₅, s₄, s₃, s₂, s₁, s₇, call, hempty]
  have h₈ : writerStep c s₇ = some s₈ := rfl
  have h₉ : writerStep c s₈ = some s₉ := by
    rw [writerStep]
    simp [s₈, s₇, s₆, s₅, s₄, s₃, s₂, s₁, s₉, call, WriteCall.rest]
  have h₁₀ : writerStep c s₉ = some s₁₀ := rfl
  have hop : Short (.write data (-1)) := by
    show data.length < 2 ^ 31
    omega
  refine ⟨s₁₀, .cons hop h₁ (.writer h₂ (.writer h₃ (.writer h₄ (.writer h₅ (.writer h₆
    (.writer h₇ (.writer h₈ (.writer h₉ (.writer h₁₀ .start))))))))), ?_⟩
  exact ⟨rfl, rfl, rfl, rfl, rfl, rfl, rfl⟩

theorem copyOut_one {n pos : Nat} {buf : Nat → UInt8} (hpos : pos < n) :
    copyOut n buf pos 1 = [buf pos] := by
  rw [copyOut_eq hpos]
  simp [place, hpos]

theorem exists_read (hr : s.reader = .idle) (hdata : s.wrptr ≠ s.rdptr)
    (hfull : s.wrptr - s.rdptr ≠ c.size) (hfill : (s.wrptr - s.rdptr).toNat < 2 ^ 31) :
    ∃ s', ShortRun c s s' ∧ s'.reader = .idle ∧ s'.writer = s.writer ∧ s'.wrptr = s.wrptr ∧
      s'.rdptr = s.rdptr + 1 ∧ s'.buf = s.buf ∧ s'.accepted = s.accepted ∧
      s'.returned = s.returned ++ [s.buf (s.rdptr % c.size).toNat] := by
  have hpos : 0 < (s.wrptr - s.rdptr).toNat := by
    refine Nat.pos_of_ne_zero fun he => hdata ?_
    have h0 : s.wrptr - s.rdptr = 0 := UInt32.toNat_inj.mp he
    grind
  have hmin : min (int (s.wrptr - s.rdptr)) 1 = 1 := by
    rw [int_of_lt hfill]
    omega
  have hmod : (s.rdptr % c.size).toNat < c.size.toNat := by
    rw [UInt32.toNat_mod]
    exact Nat.mod_lt _ c.size_toNat_pos
  have hevent : s.wrptr - (s.rdptr + 1) ≠ c.size - UInt32.ofNat (Int.toNat 1) := by
    show s.wrptr - (s.rdptr + 1) ≠ c.size - 1
    exact fun he => hfull (by grind)
  let call : ReadCall := ⟨1, -1⟩
  let s₁ : State := { s with reader := .sampled call false }
  let s₂ : State := { s₁ with pollIn := true, reader := .loop call }
  let s₃ : State := { s₂ with reader := .place call }
  let s₄ : State := { s₃ with reader := .copy call (s.rdptr % c.size) 1 }
  let s₅ : State := { s₄ with reader := .advance call 1 [s.buf (s.rdptr % c.size).toNat] }
  let s₆ : State :=
    { s₅ with
      rdptr := s.rdptr + 1
      returned := s.returned ++ [s.buf (s.rdptr % c.size).toNat]
      reader := .test call 1 }
  let s₇ : State := { s₆ with reader := .loop (call.rest 1) }
  let s₈ : State := { s₇ with reader := .mask }
  let s₉ : State := { s₈ with pollIn := s₈.wrptr != s₈.rdptr, reader := .idle }
  have h₁ : step c s (.read 1 (-1)) = some s₁ := by
    rw [step, if_pos hr, beq_eq_false_iff_ne.mpr hdata]
    rfl
  have h₂ : readerStep c s₁ = some s₂ := rfl
  have h₃ : readerStep c s₂ = some s₃ := by
    rw [readerStep]
    simp only [s₂, s₁, s₃, call]
    rw [if_pos ⟨by omega, hdata⟩]
  have h₄ : readerStep c s₃ = some s₄ := by
    rw [readerStep]
    simp only [s₃, s₂, s₁, s₄, call, hmin]
  have h₅ : readerStep c s₄ = some s₅ := by
    rw [readerStep]
    simp only [s₄, s₃, s₂, s₁, s₅, call]
    rw [if_neg (by omega), Int.toNat_one, copyOut_one hmod]
  have h₆ : readerStep c s₅ = some s₆ := rfl
  have h₇ : readerStep c s₆ = some s₇ := by
    rw [readerStep]
    simp only [s₆, s₅, s₄, s₃, s₂, s₁, s₇, call]
    rw [if_neg hevent]
  have h₈ : readerStep c s₇ = some s₈ := by
    rw [readerStep]
    simp [s₇, s₆, s₅, s₄, s₃, s₂, s₁, s₈, call, ReadCall.rest]
  have h₉ : readerStep c s₈ = some s₉ := rfl
  have hop : Short (.read 1 (-1)) := by
    show (1 : UInt32).toNat < 2 ^ 31
    decide
  refine ⟨s₉, .cons hop h₁ (.reader h₂ (.reader h₃ (.reader h₄ (.reader h₅ (.reader h₆
    (.reader h₇ (.reader h₈ (.reader h₉ .start)))))))), ?_⟩
  exact ⟨rfl, rfl, rfl, rfl, rfl, rfl, rfl⟩

/-- Nothing is in flight, no call is running, and as many bytes were returned as accepted. -/
structure Quiet (s : State) : Prop where
  writer : s.writer = .idle
  reader : s.reader = .idle
  empty : s.wrptr = s.rdptr
  length : s.returned.length = s.accepted.length

theorem exists_round (hquiet : Quiet s) (hsize : 2 ≤ c.size.toNat)
    (hsmall : c.size.toNat < 2 ^ 31) :
    ∃ s', ShortRun c s s' ∧ Quiet s' ∧ s'.rdptr = s.rdptr + 1 := by
  obtain ⟨hw, hr, hempty, hlen⟩ := hquiet
  obtain ⟨s₁, hrun₁, hw₁, hr₁, hrd₁, hwr₁, -, hacc₁, hret₁⟩ :=
    exists_write [0] hw hempty (by simp) (by simp; omega) hsmall
  have hone : s₁.wrptr - s₁.rdptr = 1 := by
    rw [hwr₁, hrd₁, hempty]
    show s.rdptr + 1 - s.rdptr = 1
    grind
  obtain ⟨s₂, hrun₂, hr₂, hw₂, hwr₂, hrd₂, -, hacc₂, hret₂⟩ :=
    exists_read (c := c) (hr₁.trans hr) (by intro he; simp [he] at hone)
      (by rw [hone]; intro he; simp [← he] at hsize) (by rw [hone]; decide)
  refine ⟨s₂, hrun₁.trans hrun₂, ⟨hw₂.trans hw₁, hr₂, ?_, ?_⟩, by rw [hrd₂, hrd₁]⟩
  · rw [hwr₂, hrd₂, hwr₁, hrd₁, hempty]
    rfl
  · rw [hacc₂, hret₂, hacc₁, hret₁, List.length_append, List.length_append, hlen]
    rfl

theorem exists_quiet (mem : Nat → UInt8) (hsize : 2 ≤ c.size.toNat)
    (hsmall : c.size.toNat < 2 ^ 31) (k : Nat) :
    ∃ s, ShortRun c (.init mem) s ∧ Quiet s ∧ s.rdptr = UInt32.ofNat k := by
  induction k with
  | zero => exact ⟨_, .start, ⟨rfl, rfl, rfl, rfl⟩, rfl⟩
  | succ k ih =>
    obtain ⟨s, hrun, hquiet, hrd⟩ := ih
    obtain ⟨s', hrun', hquiet', hrd'⟩ := exists_round hquiet hsize hsmall
    refine ⟨s', hrun.trans hrun', hquiet', ?_⟩
    rw [hrd', hrd, UInt32.ofNat_add]
    rfl

theorem exists_wrong_byte (mem : Nat → UInt8) (hsmall : c.size.toNat < 2 ^ 31)
    (hdvd : ¬c.size.toNat ∣ 2 ^ 32) :
    ∃ s, ShortRun c (.init mem) s ∧ ¬Lossless c s := by
  have hsize : 3 ≤ c.size.toNat := by
    have hpos := c.size_toNat_pos
    by_contra hlt
    have h12 : c.size.toNat = 1 ∨ c.size.toNat = 2 := by omega
    rcases h12 with h | h <;> exact hdvd (by rw [h]; decide)
  obtain ⟨s, hrun, ⟨hw, hr, hempty, hlen⟩, hrd⟩ :=
    exists_quiet (c := c) mem (by omega) hsmall (2 ^ 32 - 1)
  have hmod : (s.rdptr % c.size).toNat = (2 ^ 32 - 1) % c.size.toNat := by
    rw [UInt32.toNat_mod, hrd]
    rfl
  have hlt : (2 ^ 32 - 1) % c.size.toNat + 1 < c.size.toNat := by
    have hlt := Nat.mod_lt (2 ^ 32 - 1) (show 0 < c.size.toNat by omega)
    refine lt_of_le_of_ne hlt fun he => hdvd ?_
    have hsum := Nat.div_add_mod (2 ^ 32 - 1) c.size.toNat
    exact ⟨(2 ^ 32 - 1) / c.size.toNat + 1, by rw [Nat.mul_add]; omega⟩
  -- the second byte differs from the one at the start of the buffer
  obtain ⟨s₁, hrun₁, hw₁, hr₁, hrd₁, hwr₁, hbuf₁, hacc₁, hret₁⟩ :=
    exists_write [s.buf 0, s.buf 0 + 1] hw hempty (by simp) (by simp; omega) hsmall
  have htwo : s₁.wrptr - s₁.rdptr = 2 := by
    rw [hwr₁, hrd₁, hempty]
    show s.rdptr + 2 - s.rdptr = 2
    grind
  have hstart : s₁.buf 0 = s.buf 0 := by
    rw [hbuf₁, hempty, hmod]
    by_cases h0 : (2 ^ 32 - 1) % c.size.toNat = 0
    · have hplace : place c.size.toNat ((2 ^ 32 - 1) % c.size.toNat) 0 = 0 := by
        rw [place, h0]
        simp
      have hcopy := @copyIn_place c.size.toNat s.buf _ [s.buf 0, s.buf 0 + 1]
        (Nat.lt_of_succ_lt hlt) (by simp; omega) 0 (by simp)
      rwa [hplace] at hcopy
    · refine copyIn_of_ne (fun i hi => ?_) (by omega) (by simp; omega)
      rw [place]
      split <;> simp at hi <;> omega
  obtain ⟨s₂, hrun₂, hr₂, hw₂, hwr₂, hrd₂, hbuf₂, hacc₂, hret₂⟩ :=
    exists_read (c := c) (hr₁.trans hr) (by intro he; simp [he] at htwo)
      (by rw [htwo]; intro he; simp [← he] at hsize) (by rw [htwo]; decide)
  have hone : s₂.wrptr - s₂.rdptr = 1 := by
    rw [hwr₂, hrd₂]
    grind
  have hzero : (s₂.rdptr % c.size).toNat = 0 := by
    rw [hrd₂, hrd₁, hrd, UInt32.toNat_mod]
    exact Nat.zero_mod _
  obtain ⟨s₃, hrun₃, -, -, -, -, -, hacc₃, hret₃⟩ :=
    exists_read (c := c) hr₂ (by intro he; simp [he] at hone)
      (by rw [hone]; intro he; simp [← he] at hsize) (by rw [hone]; decide)
  refine ⟨s₃, ((hrun.trans hrun₁).trans hrun₂).trans hrun₃, fun hlossless => ?_⟩
  have heq := hlossless.isPrefix.eq_of_length (by
    rw [hacc₃, hacc₂, hacc₁, hret₃, hret₂, hret₁]
    simp [hlen])
  rw [hacc₃, hacc₂, hacc₁, hret₃, hret₂, hret₁, hzero, hbuf₂, hstart] at heq
  have hlast := congrArg List.getLast? heq
  simp at hlast

theorem exists_fault (ok : State → Op → Prop) (data : List UInt8) (hw : s.writer = .idle)
    (hlen : data.length < 2 ^ 32) (hroom : s.wrptr - s.rdptr < c.size)
    (hleft : int (UInt32.ofNat data.length) ≠ 0)
    (hneg : min (int (c.size - (s.wrptr - s.rdptr))) (int (UInt32.ofNat data.length)) < 0)
    (hop : ok s (.write data (-1))) (hwriter : ∀ t, ok t .writer) :
    ∃ s', Transition.Reaches (step c) ok s s' ∧ s'.writer = .fault := by
  let call : WriteCall := ⟨data, int (UInt32.ofNat data.length), -1⟩
  let s₁ : State := { s with writer := .sampled call false }
  let s₂ : State := { s₁ with pollOut := true, writer := .loop call }
  let s₃ : State := { s₂ with writer := .place call }
  let s₄ : State :=
    { s₃ with
      writer := .copy call (s.wrptr % c.size)
        (min (int (c.size - (s.wrptr - s.rdptr))) call.left) }
  have h₁ : step c s (.write data (-1)) = some s₁ := by
    rw [step, if_pos ⟨hw, hlen⟩, decide_eq_false (by simpa using hroom)]
  have h₂ : step c s₁ .writer = some s₂ := rfl
  have h₃ : step c s₂ .writer = some s₃ := by
    rw [step, writerStep]
    simp only [s₂, s₁, s₃, call]
    rw [if_pos ⟨hleft, hroom⟩]
  have h₄ : step c s₃ .writer = some s₄ := rfl
  have h₅ : step c s₄ .writer = some { s₄ with writer := .fault } := by
    rw [step, writerStep]
    simp only [s₄, s₃, s₂, s₁, call]
    rw [if_pos hneg]
  exact ⟨_, .next (.next (.next (.next (.single hop h₁) (hwriter _) h₂) (hwriter _) h₃)
    (hwriter _) h₄) (hwriter _) h₅, rfl⟩

theorem int_neg {x : UInt32} (h : 2 ^ 31 ≤ x.toNat) : int x < 0 := by
  have := x.toNat_lt
  rw [int, if_neg (by omega)]
  omega

theorem exists_fault_of_size (mem : Nat → UInt8) (hsize : 2 ^ 31 ≤ c.size.toNat) :
    ∃ s, ShortRun c (.init mem) s ∧ ¬Lossless c s := by
  have hempty : (State.init mem).wrptr - (State.init mem).rdptr = 0 := UInt32.sub_self 0
  have hroom : (State.init mem).wrptr - (State.init mem).rdptr < c.size := by
    rw [hempty]
    exact c.size_pos
  have hneg : min (int (c.size - ((State.init mem).wrptr - (State.init mem).rdptr)))
      (int (UInt32.ofNat [(0 : UInt8)].length)) < 0 := by
    rw [hempty, UInt32.sub_zero]
    exact (min_le_left _ _).trans_lt (int_neg hsize)
  obtain ⟨s, hrun, hfault⟩ := exists_fault (fun _ op => Short op) [0] rfl (by simp) hroom
    (by decide) hneg (by show [(0 : UInt8)].length < 2 ^ 31; decide) fun _ => trivial
  exact ⟨s, hrun, fun hlossless => hlossless.noFault.1 hfault⟩

theorem exists_fault_of_length (mem : Nat → UInt8) (data : List UInt8)
    (hlen : 2 ^ 31 ≤ data.length) (hlt : data.length < 2 ^ 32) :
    ∃ s, Transition.Reachable (step c) (.init mem) s ∧ ¬Lossless c s := by
  have hempty : (State.init mem).wrptr - (State.init mem).rdptr = 0 := UInt32.sub_self 0
  have hroom : (State.init mem).wrptr - (State.init mem).rdptr < c.size := by
    rw [hempty]
    exact c.size_pos
  have hneg : int (UInt32.ofNat data.length) < 0 :=
    int_neg (by rw [UInt32.toNat_ofNat', Nat.mod_eq_of_lt hlt]; exact hlen)
  obtain ⟨s, hrun, hfault⟩ := exists_fault (fun _ _ => True) data rfl hlt hroom hneg.ne
    ((min_le_right _ _).trans_lt hneg) trivial fun _ => trivial
  exact ⟨s, hrun, fun hlossless => hlossless.noFault.1 hfault⟩

/-- A ring is a lossless FIFO in every run of calls of less than `2^31` bytes exactly when its size
is less than `2^31` and divides `2^32`; one whose size does not divide `2^32` is lossless as long
as its write pointer does not wrap, and a call of `2^31` bytes or more faults on any ring. -/
theorem lossless_iff (c : Config) :
    ((∀ mem s, ShortRun c (.init mem) s → Lossless c s) ↔
      c.size.toNat < 2 ^ 31 ∧ c.size.toNat ∣ 2 ^ 32) ∧
    (c.size.toNat < 2 ^ 31 → ∀ mem s,
      Transition.Reaches (step c) (fun s op => Short op ∧ ¬Carries s op) (.init mem) s →
        Lossless c s) ∧
    ∀ mem (data : List UInt8), 2 ^ 31 ≤ data.length → data.length < 2 ^ 32 →
      ∃ s, Transition.Reachable (step c) (.init mem) s ∧ ¬Lossless c s := by
  refine ⟨⟨fun hall => ?_, fun hsize mem s hrun => ?_⟩, fun hsmall mem s hrun => ?_,
    fun mem data hlen hlt => exists_fault_of_length mem data hlen hlt⟩
  · have hsmall : c.size.toNat < 2 ^ 31 := by
      by_contra hbig
      obtain ⟨s, hrun, hbad⟩ := exists_fault_of_size (fun _ => 0) (not_lt.mp hbig)
      exact hbad (hall _ s hrun)
    refine ⟨hsmall, ?_⟩
    by_contra hdvd
    obtain ⟨s, hrun, hbad⟩ := exists_wrong_byte (fun _ => 0) hsmall hdvd
    exact hbad (hall _ s hrun)
  · exact Reaches.lossless hrun hsize.1 (fun _ _ h => h) fun _ _ _ => .inl hsize.2
  · exact Reaches.lossless hrun hsmall (fun _ _ h => h.1) fun _ _ h => .inr h.2

def snvTx : Config where
  size := 0x40400
  forceSend := false
  size_pos := by decide

/-- The ring of `0x40400` bytes returns a wrong byte. -/
theorem not_lossless_snvTx : ¬∀ mem s, ShortRun snvTx (.init mem) s → Lossless snvTx s := by
  intro hall
  obtain ⟨s, hrun, hbad⟩ := exists_wrong_byte (c := snvTx) (fun _ => 0) (by decide) (by decide)
  exact hbad (hall _ s hrun)

end ModemSupport.Sipc.Sbuf
