import ModemSupport.Sipc.Sbuf

/-! The byte stream of a ring.  The sizes that the two parties compute from their samples stay
within the room and the data that there are, whatever the other party does meanwhile; and while
the position `pointer % size` goes round the buffer without a jump, the bytes in flight are those
accepted and not yet returned. -/

namespace ModemSupport.Sipc.Sbuf

open ModemSupport.Lib

def State.fill (s : State) : Nat := Ring.fill s.rdptr s.wrptr

variable {c : Config} {s s' : State} {op : Op}

/-- What the writer knows of the ring from its samples, when `fill` bytes are in flight: the reader
can only have made more room since. -/
def WriterSized (c : Config) (wrptr : UInt32) (fill : Nat) : Writer → Prop
  | .idle | .mask | .fault => True
  | .sampled call _ | .waiting call | .loop call => call.left ≤ call.buf.length
  | .place call => call.left ≤ call.buf.length ∧ fill < c.size.toNat
  | .copy call txpos txsize =>
    call.left ≤ call.buf.length ∧ txsize ≤ call.left ∧ fill + txsize ≤ c.size.toNat ∧
      txpos = wrptr % c.size
  | .advance call txsize =>
    call.left ≤ call.buf.length ∧ txsize ≤ call.left ∧ fill + txsize ≤ c.size.toNat ∧ 0 ≤ txsize
  | .test call txsize | .send call txsize =>
    call.left ≤ call.buf.length ∧ txsize ≤ call.left ∧ 0 ≤ txsize

/-- What the reader knows of the ring: the writer can only have added bytes since. -/
def ReaderSized (c : Config) (rdptr : UInt32) (fill : Nat) : Reader → Prop
  | .copy _ rxpos rxsize => rxsize ≤ fill ∧ rxpos = rdptr % c.size
  | .advance _ rxsize bytes => rxsize ≤ fill ∧ 0 ≤ rxsize ∧ bytes.length = rxsize.toNat
  | _ => True

structure Sized (c : Config) (s : State) : Prop where
  fill_le : s.fill ≤ c.size.toNat
  writer : WriterSized c s.wrptr s.fill s.writer
  reader : ReaderSized c s.rdptr s.fill s.reader

theorem WriterSized.mono {wrptr : UInt32} {fill fill' : Nat} {w : Writer}
    (h : WriterSized c wrptr fill w) (hle : fill' ≤ fill) : WriterSized c wrptr fill' w := by
  cases w with
  | place call => exact ⟨h.1, by have := h.2; omega⟩
  | copy call txpos txsize => exact ⟨h.1, h.2.1, by have := h.2.2.1; omega, h.2.2.2⟩
  | advance call txsize => exact ⟨h.1, h.2.1, by have := h.2.2.1; omega, h.2.2.2⟩
  | _ => exact h

theorem ReaderSized.mono {rdptr : UInt32} {fill fill' : Nat} {r : Reader}
    (h : ReaderSized c rdptr fill r) (hle : fill ≤ fill') : ReaderSized c rdptr fill' r := by
  cases r with
  | copy call rxpos rxsize => exact ⟨by have := h.1; omega, h.2⟩
  | advance call rxsize bytes => exact ⟨by have := h.1; omega, h.2⟩
  | _ => exact h

theorem fill_lt_of_room (hroom : s.wrptr - s.rdptr < c.size) : s.fill < c.size.toNat :=
  UInt32.lt_iff_toNat_lt.mp hroom

theorem room_toNat (hle : s.fill ≤ c.size.toNat) :
    (c.size - (s.wrptr - s.rdptr)).toNat = c.size.toNat - s.fill :=
  UInt32.toNat_sub_of_le _ _ (UInt32.le_iff_toNat_le.mpr hle)

theorem WriteCall.rest_left_le {call : WriteCall} {txsize : Int}
    (hle : call.left ≤ call.buf.length) (hpos : 0 ≤ txsize) :
    (call.rest txsize).left ≤ (call.rest txsize).buf.length := by
  simp only [WriteCall.rest, List.length_drop]
  omega

theorem fill_advance {rd wr : UInt32} {k : Nat} (hk : Ring.fill rd wr + k < 2 ^ 32) :
    Ring.fill rd (wr + UInt32.ofNat k) = Ring.fill rd wr + k := by
  have h1 := rd.toNat_lt
  have h2 := wr.toNat_lt
  rw [Ring.fill_toNat] at hk ⊢
  rw [Ring.fill_toNat, UInt32.toNat_add, UInt32.toNat_ofNat']
  omega

theorem fill_consume {rd wr : UInt32} {k : Nat} (hk : k ≤ Ring.fill rd wr) :
    Ring.fill (rd + UInt32.ofNat k) wr = Ring.fill rd wr - k := by
  have h1 := rd.toNat_lt
  have h2 := wr.toNat_lt
  rw [Ring.fill_toNat] at hk ⊢
  rw [Ring.fill_toNat, UInt32.toNat_add, UInt32.toNat_ofNat']
  omega

theorem sized_init (c : Config) (mem : Nat → UInt8) : Sized c (.init mem) where
  fill_le := by simp [State.fill, State.init]
  writer := trivial
  reader := trivial

theorem WriterMove.sized (hsized : Sized c s) (hmove : WriterMove c s s') : Sized c s' := by
  obtain ⟨hfill, hwriter, hreader⟩ := hsized
  cases hmove with
  | ready hw | block hw | wake hw =>
    rw [hw] at hwriter
    exact ⟨hfill, hwriter, hreader⟩
  | refuse hw | leave hw | fault hw | mask hw => exact ⟨hfill, trivial, hreader⟩
  | more hw hleft hroom =>
    rw [hw] at hwriter
    exact ⟨hfill, ⟨hwriter, fill_lt_of_room hroom⟩, hreader⟩
  | @place call hw =>
    rw [hw] at hwriter
    have hroom := int_le (c.size - (s.wrptr - s.rdptr))
    rw [room_toNat hfill] at hroom
    refine ⟨hfill, ⟨hwriter.1, min_le_right _ _, ?_, rfl⟩, hreader⟩
    have hmin := min_le_left (int (c.size - (s.wrptr - s.rdptr))) call.left
    have hlt := hwriter.2
    show (s.fill : Int) + _ ≤ _
    omega
  | copy hw hpos =>
    rw [hw] at hwriter
    exact ⟨hfill, ⟨hwriter.1, hwriter.2.1, hwriter.2.2.1, hpos⟩, hreader⟩
  | @advance call txsize hw =>
    rw [hw] at hwriter
    obtain ⟨hleft, hsize, hroom, hpos⟩ := hwriter
    have hlt : s.fill + txsize.toNat < 2 ^ 32 := by
      have := c.size.toNat_lt
      omega
    have hadv : Ring.fill s.rdptr (s.wrptr + UInt32.ofNat txsize.toNat) =
        s.fill + txsize.toNat := fill_advance hlt
    refine ⟨?_, ⟨hleft, hsize, hpos⟩, hreader.mono ?_⟩
    · rw [State.fill, hadv]
      omega
    · rw [State.fill, State.fill, hadv, State.fill]
      omega
  | notify hw =>
    rw [hw] at hwriter
    exact ⟨hfill, hwriter, hreader⟩
  | skip hw | send hw =>
    rw [hw] at hwriter
    exact ⟨hfill, WriteCall.rest_left_le hwriter.1 hwriter.2.2, hreader⟩

theorem ReaderMove.sized (hsized : Sized c s) (hmove : ReaderMove c s s') : Sized c s' := by
  obtain ⟨hfill, hwriter, hreader⟩ := hsized
  cases hmove with
  | ready | block | refuse | wake | more | leave | fault | mask | notify | skip | send =>
    exact ⟨hfill, hwriter, trivial⟩
  | @place call hr =>
    have hdata := int_le (s.wrptr - s.rdptr)
    have hmin := min_le_left (int (s.wrptr - s.rdptr)) call.left
    exact ⟨hfill, hwriter, hmin.trans hdata, rfl⟩
  | @copy call rxpos rxsize hr hpos =>
    rw [hr] at hreader
    refine ⟨hfill, hwriter, hreader.1, hpos, ?_⟩
    rw [hreader.2, copyOut_eq]
    · simp
    · rw [UInt32.toNat_mod]
      exact Nat.mod_lt _ (UInt32.lt_iff_toNat_lt.mp c.size_pos)
  | @advance call rxsize bytes hr =>
    rw [hr] at hreader
    have hle : rxsize.toNat ≤ Ring.fill s.rdptr s.wrptr := by
      have := hreader.1
      rw [State.fill] at this
      omega
    have hadv : Ring.fill (s.rdptr + UInt32.ofNat rxsize.toNat) s.wrptr = s.fill - rxsize.toNat :=
      fill_consume hle
    refine ⟨?_, hwriter.mono ?_, trivial⟩ <;>
    · rw [State.fill, hadv]
      omega

theorem Move.sized (hsized : Sized c s) (hmove : Move c s op s') : Sized c s' := by
  cases hmove with
  | @write buf timeout hw hlen =>
    refine ⟨hsized.fill_le, ?_, hsized.reader⟩
    have hle := int_le (UInt32.ofNat buf.length)
    rwa [UInt32.toNat_ofNat', Nat.mod_eq_of_lt hlen] at hle
  | writer hmove => exact hmove.sized hsized
  | writerGiveUp hw => exact ⟨hsized.fill_le, trivial, hsized.reader⟩
  | read hr => exact ⟨hsized.fill_le, hsized.writer, trivial⟩
  | reader hmove => exact hmove.sized hsized
  | readerGiveUp hr => exact ⟨hsized.fill_le, hsized.writer, trivial⟩
  | handleWrptr | handleRdptr => exact ⟨hsized.fill_le, hsized.writer, hsized.reader⟩

/-- The positions of the bytes in flight go round the buffer without a jump: the size divides
`2^32`, or the write pointer has not wrapped. -/
def Coherent (c : Config) (s : State) : Prop :=
  c.size.toNat ∣ 2 ^ 32 ∨ s.rdptr.toNat ≤ s.wrptr.toNat

/-- The writer moves the write pointer past `2^32 - 1`. -/
def Carries (s : State) : Op → Prop
  | .writer => ∃ call txsize, s.writer = .advance call txsize ∧
      2 ^ 32 ≤ s.wrptr.toNat + txsize.toNat
  | _ => False

/-- The bytes in flight are those accepted and not yet returned; the writer has stored the bytes
that it is about to publish behind them, and the reader has copied the first of them. -/
structure Stream (c : Config) (s : State) : Prop where
  coherent : Coherent c s
  content : s.accepted = s.returned ++ Ring.span c.size.toNat s.buf s.rdptr.toNat s.fill
  writer : ∀ call txsize, s.writer = .advance call txsize →
    Ring.span c.size.toNat s.buf (s.rdptr.toNat + s.fill) txsize.toNat =
      call.buf.take txsize.toNat
  reader : ∀ call rxsize bytes, s.reader = .advance call rxsize bytes →
    bytes = Ring.span c.size.toNat s.buf s.rdptr.toNat rxsize.toNat

theorem Config.size_toNat_pos (c : Config) : 0 < c.size.toNat :=
  UInt32.lt_iff_toNat_lt.mp c.size_pos

theorem Coherent.wrptr_mod (h : Coherent c s) :
    s.wrptr.toNat % c.size.toNat = (s.rdptr.toNat + s.fill) % c.size.toNat := by
  have h1 := s.rdptr.toNat_lt
  have h2 := s.wrptr.toNat_lt
  have hwr : s.wrptr.toNat = (s.rdptr.toNat + s.fill) % 2 ^ 32 := by
    rw [State.fill, Ring.fill_toNat]
    omega
  rcases h with hdvd | hle
  · rw [hwr, Nat.mod_mod_of_dvd _ hdvd]
  · rw [State.fill, Ring.fill_of_le hle, Nat.add_sub_cancel' hle]

theorem Coherent.rdptr_mod (h : Coherent c s) {k : Nat} (hk : k ≤ s.fill) :
    (s.rdptr + UInt32.ofNat k).toNat % c.size.toNat = (s.rdptr.toNat + k) % c.size.toNat := by
  rw [UInt32.toNat_add, UInt32.toNat_ofNat', Nat.add_mod_mod]
  rcases h with hdvd | hle
  · rw [Nat.mod_mod_of_dvd _ hdvd]
  · rw [State.fill, Ring.fill_of_le hle] at hk
    have := s.wrptr.toNat_lt
    rw [Nat.mod_eq_of_lt (show s.rdptr.toNat + k < 2 ^ 32 by omega)]

theorem stream_init (c : Config) (mem : Nat → UInt8) : Stream c (.init mem) where
  coherent := .inr le_rfl
  content := by simp [State.init, State.fill]
  writer := by simp [State.init]
  reader := by simp [State.init]

theorem Coherent.place_eq (h : Coherent c s) {i : Nat} (hi : i ≤ c.size.toNat) :
    place c.size.toNat (s.wrptr % c.size).toNat i =
      (s.rdptr.toNat + s.fill + i) % c.size.toNat := by
  rw [UInt32.toNat_mod, place_mod c.size_toNat_pos hi, Nat.add_mod, h.wrptr_mod, ← Nat.add_mod]

theorem WriterMove.stream (hsized : Sized c s) (hstream : Stream c s)
    (hok : c.size.toNat ∣ 2 ^ 32 ∨ ¬Carries s .writer) (hmove : WriterMove c s s') :
    Stream c s' := by
  obtain ⟨hcoherent, hcontent, hwriter, hreader⟩ := hstream
  cases hmove with
  | ready | block | refuse | wake | more | leave | place | fault | notify | skip | send | mask =>
    exact ⟨hcoherent, hcontent, by simp, hreader⟩
  | @copy call txpos txsize hw hpos =>
    have hwr := hsized.writer
    rw [hw] at hwr
    obtain ⟨hleft, hsize, hroom, rfl⟩ := hwr
    have hlen : (call.buf.take txsize.toNat).length = txsize.toNat := by
      rw [List.length_take]
      omega
    have hmod := Nat.mod_lt s.wrptr.toNat c.size_toNat_pos
    rw [← UInt32.toNat_mod] at hmod
    -- the copy is past the bytes in flight
    have hkeep : ∀ i < s.fill, s.buf ((s.rdptr.toNat + i) % c.size.toNat) =
        copyIn c.size.toNat s.buf (s.wrptr % c.size).toNat (call.buf.take txsize.toNat)
          ((s.rdptr.toNat + i) % c.size.toNat) := by
      intro i hi
      refine (copyIn_of_ne (fun j hj => ?_) hmod (by omega)).symm
      rw [hcoherent.place_eq (by omega), Nat.add_assoc]
      exact (Ring.add_mod_ne (by omega) (by omega)).symm
    refine ⟨hcoherent, ?_, ?_, ?_⟩
    · rw [hcontent]
      exact congrArg _ (Ring.span_congr hkeep)
    · rintro _ _ ⟨⟩
      refine List.ext_getElem (by simpa using hlen.symm) fun i hi hi' => ?_
      have hi'' : i < txsize.toNat := by simpa using hi
      simp only [Ring.span, List.getElem_map, List.getElem_range, State.fill]
      have hplace := hcoherent.place_eq (i := i) (by omega)
      rw [State.fill] at hplace
      rw [← hplace, copyIn_place hmod (by omega) hi']
    · intro call' rxsize bytes hr
      rw [hreader call' rxsize bytes hr]
      have hrd := hsized.reader
      rw [hr] at hrd
      exact Ring.span_congr fun i hi => hkeep i (by have := hrd.1; omega)
  | @advance call txsize hw =>
    have hwr := hsized.writer
    rw [hw] at hwr
    obtain ⟨hleft, hsize, hroom, hpos⟩ := hwr
    have hlt : s.fill + txsize.toNat < 2 ^ 32 := by
      have := c.size.toNat_lt
      omega
    have hadv : Ring.fill s.rdptr (s.wrptr + UInt32.ofNat txsize.toNat) =
        s.fill + txsize.toNat := fill_advance hlt
    refine ⟨?_, ?_, by simp, hreader⟩
    · rcases hok with hdvd | hcarry
      · exact .inl hdvd
      rcases hcoherent with hdvd | hle
      · exact .inl hdvd
      have hnc : s.wrptr.toNat + txsize.toNat < 2 ^ 32 :=
        not_le.mp fun h => hcarry ⟨call, txsize, hw, h⟩
      refine .inr ?_
      show s.rdptr.toNat ≤ (s.wrptr + UInt32.ofNat txsize.toNat).toNat
      rw [UInt32.toNat_add, UInt32.toNat_ofNat', Nat.add_mod_mod, Nat.mod_eq_of_lt hnc]
      omega
    · show s.accepted ++ call.buf.take txsize.toNat = s.returned ++
        Ring.span c.size.toNat s.buf s.rdptr.toNat
          (Ring.fill s.rdptr (s.wrptr + UInt32.ofNat txsize.toNat))
      rw [hadv, Ring.span_add, hwriter call txsize hw, hcontent, List.append_assoc]

theorem ReaderMove.stream (hsized : Sized c s) (hstream : Stream c s)
    (hmove : ReaderMove c s s') : Stream c s' := by
  obtain ⟨hcoherent, hcontent, hwriter, hreader⟩ := hstream
  cases hmove with
  | ready | block | refuse | wake | more | leave | place | fault | notify | skip | send | mask =>
    exact ⟨hcoherent, hcontent, hwriter, by simp⟩
  | @copy call rxpos rxsize hr hpos =>
    have hrd := hsized.reader
    rw [hr] at hrd
    obtain ⟨hdata, rfl⟩ := hrd
    have hfill := hsized.fill_le
    refine ⟨hcoherent, hcontent, hwriter, ?_⟩
    rintro _ _ _ ⟨⟩
    rw [UInt32.toNat_mod, copyOut_eq (Nat.mod_lt _ c.size_toNat_pos)]
    refine List.map_congr_left fun i hi => ?_
    have hi' := List.mem_range.mp hi
    rw [place_mod c.size_toNat_pos (by omega)]
  | @advance call rxsize bytes hr =>
    have hrd := hsized.reader
    rw [hr] at hrd
    obtain ⟨hdata, hpos, hlen⟩ := hrd
    have hle : rxsize.toNat ≤ s.fill := by omega
    have hadv : Ring.fill (s.rdptr + UInt32.ofNat rxsize.toNat) s.wrptr = s.fill - rxsize.toNat :=
      fill_consume hle
    have hmod := hcoherent.rdptr_mod hle
    refine ⟨?_, ?_, ?_, by simp⟩
    · rcases hcoherent with hdvd | hord
      · exact .inl hdvd
      have hlt := s.wrptr.toNat_lt
      rw [State.fill, Ring.fill_of_le hord] at hle
      refine .inr ?_
      show (s.rdptr + UInt32.ofNat rxsize.toNat).toNat ≤ s.wrptr.toNat
      rw [UInt32.toNat_add, UInt32.toNat_ofNat', Nat.add_mod_mod, Nat.mod_eq_of_lt (by omega)]
      omega
    · have hsplit : Ring.span c.size.toNat s.buf s.rdptr.toNat s.fill =
          Ring.span c.size.toNat s.buf s.rdptr.toNat rxsize.toNat ++
            Ring.span c.size.toNat s.buf (s.rdptr.toNat + rxsize.toNat)
              (s.fill - rxsize.toNat) := by
        rw [← Ring.span_add, Nat.add_sub_cancel' hle]
      show s.accepted = s.returned ++ bytes ++ Ring.span c.size.toNat s.buf
        (s.rdptr + UInt32.ofNat rxsize.toNat).toNat
        (Ring.fill (s.rdptr + UInt32.ofNat rxsize.toNat) s.wrptr)
      rw [hadv, Ring.span_mod hmod, hreader call rxsize bytes hr, List.append_assoc, ← hsplit,
        hcontent]
    · intro call' txsize hw
      rw [← hwriter call' txsize hw]
      refine Ring.span_mod ?_ _
      show ((s.rdptr + UInt32.ofNat rxsize.toNat).toNat +
        Ring.fill (s.rdptr + UInt32.ofNat rxsize.toNat) s.wrptr) % _ = _
      rw [hadv, Nat.add_mod, hmod, ← Nat.add_mod]
      congr 1
      omega

theorem Move.stream (hsized : Sized c s) (hstream : Stream c s)
    (hok : c.size.toNat ∣ 2 ^ 32 ∨ ¬Carries s op) (hmove : Move c s op s') : Stream c s' := by
  cases hmove with
  | writer hmove => exact hmove.stream hsized hstream hok
  | reader hmove => exact hmove.stream hsized hstream
  | write | writerGiveUp =>
    exact ⟨hstream.coherent, hstream.content, by simp, hstream.reader⟩
  | read | readerGiveUp =>
    exact ⟨hstream.coherent, hstream.content, hstream.writer, by simp⟩
  | handleWrptr | handleRdptr =>
    exact ⟨hstream.coherent, hstream.content, hstream.writer, hstream.reader⟩

/-- The length of the call converts to an `int` that is not negative. -/
def Short : Op → Prop
  | .write buf _ => buf.length < 2 ^ 31
  | .read len _ => len.toNat < 2 ^ 31
  | _ => True

def WriterShort : Writer → Prop
  | .idle | .mask => True
  | .fault => False
  | .sampled call _ | .waiting call | .loop call | .place call => 0 ≤ call.left
  | .copy call _ txsize => 0 ≤ call.left ∧ 0 ≤ txsize
  | .advance call _ | .test call _ | .send call _ => 0 ≤ call.left

def ReaderShort : Reader → Prop
  | .idle | .mask => True
  | .fault => False
  | .sampled call _ | .waiting call | .loop call | .place call => 0 ≤ call.left
  | .copy call _ rxsize => rxsize ≤ call.left ∧ 0 ≤ rxsize
  | .advance call rxsize _ | .test call rxsize | .send call rxsize => rxsize ≤ call.left

theorem WriterMove.short (hsmall : c.size.toNat < 2 ^ 31) (hsized : Sized c s)
    (hshort : WriterShort s.writer) (hmove : WriterMove c s s') : WriterShort s'.writer := by
  have hwr := hsized.writer
  cases hmove with
  | ready hw | block hw | wake hw | more hw =>
    rw [hw] at hshort
    exact hshort
  | refuse | leave | mask => trivial
  | @place call hw =>
    rw [hw] at hshort hwr
    have hroom := room_toNat hsized.fill_le
    refine ⟨hshort, le_min ?_ hshort⟩
    rw [int_of_lt (by omega)]
    omega
  | fault hw hneg =>
    rw [hw] at hshort
    exact absurd hshort.2 (by omega)
  | copy hw | advance hw | notify hw =>
    rw [hw] at hshort
    first | exact hshort | exact hshort.1
  | skip hw | send hw =>
    rw [hw] at hwr
    exact sub_nonneg.mpr hwr.2.1

theorem ReaderMove.short (hsmall : c.size.toNat < 2 ^ 31) (hsized : Sized c s)
    (hshort : ReaderShort s.reader) (hmove : ReaderMove c s s') : ReaderShort s'.reader := by
  cases hmove with
  | ready hr | block hr | wake hr | more hr =>
    rw [hr] at hshort
    exact hshort
  | refuse | leave | mask => trivial
  | @place call hr =>
    rw [hr] at hshort
    refine ⟨min_le_right _ _, le_min ?_ hshort⟩
    have hle : (s.wrptr - s.rdptr).toNat ≤ c.size.toNat := hsized.fill_le
    rw [int_of_lt (by omega)]
    omega
  | fault hr hneg =>
    rw [hr] at hshort
    exact absurd hshort.2 (by omega)
  | copy hr | advance hr | notify hr =>
    rw [hr] at hshort
    first | exact hshort | exact hshort.1
  | skip hr | send hr =>
    rw [hr] at hshort
    exact sub_nonneg.mpr hshort

theorem Move.short (hsmall : c.size.toNat < 2 ^ 31) (hsized : Sized c s) (hop : Short op)
    (hshort : WriterShort s.writer ∧ ReaderShort s.reader) (hmove : Move c s op s') :
    WriterShort s'.writer ∧ ReaderShort s'.reader := by
  cases hmove with
  | @write buf timeout hw hlen =>
    refine ⟨?_, hshort.2⟩
    have hlt : (UInt32.ofNat buf.length).toNat = buf.length := by
      rw [UInt32.toNat_ofNat', Nat.mod_eq_of_lt hlen]
    show 0 ≤ int (UInt32.ofNat buf.length)
    rw [int_of_lt (by rw [hlt]; exact hop)]
    omega
  | writer hmove => exact ⟨hmove.short hsmall hsized hshort.1, by cases hmove <;> exact hshort.2⟩
  | writerGiveUp => exact ⟨trivial, hshort.2⟩
  | @read len timeout hr =>
    refine ⟨hshort.1, ?_⟩
    show 0 ≤ int len
    rw [int_of_lt hop]
    omega
  | reader hmove => exact ⟨by cases hmove <;> exact hshort.1, hmove.short hsmall hsized hshort.2⟩
  | readerGiveUp => exact ⟨hshort.1, trivial⟩
  | handleWrptr | handleRdptr => exact hshort

/-- The bytes returned are the first of those accepted, the pointers count the bytes between, never
more than the ring holds, and no copy lands on one of them or runs past the buffer. -/
structure Lossless (c : Config) (s : State) : Prop where
  isPrefix : s.returned <+: s.accepted
  inFlight : s.accepted.length = s.returned.length + (s.wrptr - s.rdptr).toNat
  fill_le : (s.wrptr - s.rdptr).toNat ≤ c.size.toNat
  fresh : ∀ call txpos txsize, s.writer = .copy call txpos txsize →
    ∀ i < txsize.toNat, place c.size.toNat txpos.toNat i ∉
      Ring.slots (Ring.modSlot c.size.toNat) s.rdptr (s.wrptr - s.rdptr).toNat
  noFault : s.writer ≠ .fault ∧ s.reader ≠ .fault

theorem lossless (hsized : Sized c s) (hstream : Stream c s)
    (hshort : WriterShort s.writer ∧ ReaderShort s.reader) : Lossless c s := by
  have hcontent := hstream.content
  refine ⟨⟨_, hcontent.symm⟩, ?_, hsized.fill_le, ?_, ?_, ?_⟩
  · rw [hcontent, List.length_append, Ring.span_length]
    rfl
  · intro call txpos txsize hw i hi hmem
    have hwr := hsized.writer
    rw [hw] at hwr
    obtain ⟨-, -, hroom, rfl⟩ := hwr
    obtain ⟨j, hj, he⟩ := Ring.mem_slots.mp hmem
    have hj' : j < s.fill := hj
    have hplace := hstream.coherent.place_eq (i := i) (by omega)
    have hslot : Ring.modSlot c.size.toNat (Ring.ahead s.rdptr j) =
        (s.rdptr.toNat + j) % c.size.toNat := hstream.coherent.rdptr_mod hj'.le
    rw [hplace, hslot, Nat.add_assoc] at he
    exact Ring.add_mod_ne (by omega) (by omega) he
  · intro hw
    rw [hw] at hshort
    exact hshort.1
  · intro hr
    rw [hr] at hshort
    exact hshort.2

/-- A ring of less than `2^31` bytes loses nothing in the runs of short calls, when its size
divides `2^32` or the write pointer does not wrap. -/
theorem Reaches.lossless {ok : State → Op → Prop} {mem : Nat → UInt8}
    (hrun : Transition.Reaches (step c) ok (.init mem) s) (hsmall : c.size.toNat < 2 ^ 31)
    (hshort : ∀ s op, ok s op → Short op)
    (hok : ∀ s op, ok s op → c.size.toNat ∣ 2 ^ 32 ∨ ¬Carries s op) : Lossless c s := by
  have hinv : Sized c s ∧ Stream c s ∧ WriterShort s.writer ∧ ReaderShort s.reader := by
    refine hrun.invariant (P := fun s => Sized c s ∧ Stream c s ∧ WriterShort s.writer ∧
      ReaderShort s.reader) ⟨sized_init c mem, stream_init c mem, trivial, trivial⟩ ?_
    rintro s op s' ⟨hsized, hstream, hs⟩ hop hstep
    have hmove := step_move hstep
    exact ⟨hmove.sized hsized, hmove.stream hsized hstream (hok s op hop),
      hmove.short hsmall hsized (hshort s op hop) hs⟩
  exact Sbuf.lossless hinv.1 hinv.2.1 hinv.2.2

end ModemSupport.Sipc.Sbuf
