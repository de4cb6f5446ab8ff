import ModemSupport.Rooter.Usb2tcp

/-! The frames on the socket of `usb2tcp.c`, and the runs that keep both ends in step with them. -/

namespace ModemSupport.Rooter.Usb2tcp

open Lib.Memory Lib.Transition List Option

def frame (b : Bytes) : Bytes := header b.length ++ b

@[simp] theorem length_header {n : Nat} : (header n).length = 8 := by
  simp [header, Tlv.bytes]

theorem ofBytes_header {n : Nat} (hn : n < 2 ^ 32) :
    Tlv.ofBytes (header n) = ⟨qUsb2tcpVersion, n⟩ := by
  have htag : (header n).take 4 = toLE 4 qUsb2tcpVersion := by
    show (toLE 4 qUsb2tcpVersion ++ toLE 4 n).take 4 = _
    exact take_left' length_toLE
  have hlength : ((header n).drop 4).take 4 = toLE 4 n := by
    have hdrop : (header n).drop 4 = toLE 4 n := by
      show (toLE 4 qUsb2tcpVersion ++ toLE 4 n).drop 4 = _
      exact drop_left' length_toLE
    rw [hdrop]
    exact take_of_length_le (by simp)
  unfold Tlv.ofBytes
  rw [htag, hlength, ofLE_toLE (by decide), ofLE_toLE (by omega)]

theorem header_inj {m n : Nat} (hm : m < 2 ^ 32) (hn : n < 2 ^ 32) (h : header m = header n) :
    m = n := by
  have hof := congrArg Tlv.ofBytes h
  rw [ofBytes_header hm, ofBytes_header hn] at hof
  exact congrArg Tlv.length hof

theorem int32_of_lt {n : Nat} (h : n < 2 ^ 31) : int32 n = n := if_pos h

theorem frames_eq_nil {bs : List Bytes} (h : bs.flatMap frame = []) : bs = [] := by
  cases bs with
  | nil => rfl
  | cons b bs =>
    have hlength := congrArg List.length h
    simp [frame] at hlength

theorem header_of_frames {got rest : Bytes} {bs : List Bytes}
    (h : got ++ rest = bs.flatMap frame) (hgot : got.length = 8) :
    ∃ b bs', bs = b :: bs' ∧ got = header b.length ∧ rest = b ++ bs'.flatMap frame := by
  cases bs with
  | nil =>
    have hnil : got = [] := (append_eq_nil_iff.mp h).1
    simp [hnil] at hgot
  | cons b bs =>
    have happ : got ++ rest = header b.length ++ (b ++ bs.flatMap frame) := by
      rw [h, flatMap_cons, frame, append_assoc]
    obtain ⟨hhead, hrest⟩ := append_inj happ (by rw [hgot, length_header])
    exact ⟨b, bs, rfl, hhead, hrest⟩

/-- The steps that keep the two ends in step: a write of at most the buffer of `usb2tcp_main`, a
header that goes into the socket and comes out of it in one call and not behind bytes of the same
read, no `poll` that runs out of time within a frame, and an endpoint that is not silent for 30
seconds. -/
def InStep (s : State) : Label → Prop
  | .write buf => buf.length ≤ maxBulkOut
  | .wrote k =>
    match s.flasher with
    | .writing _ _ => k = 8
    | _ => True
  | .took k =>
    match s.flasher with
    | .reading _ _ got => k = 8 ∧ got = []
    | _ => True
  | .timeout =>
    match s.flasher with
    | .writeBody _ _ _ | .readBody _ _ _ _ _ => False
    | _ => True
  | .hangup => False
  | _ => True

instance (s : State) : (l : Label) → Decidable (InStep s l)
  | .write buf => inferInstanceAs (Decidable (buf.length ≤ maxBulkOut))
  | .wrote k =>
    match h : s.flasher with
    | .writing _ _ => decidable_of_iff (k = 8) (by simp [InStep, h])
    | .idle | .writeBody _ _ _ | .reading _ _ _ | .readBody _ _ _ _ _ =>
      isTrue (by simp [InStep, h])
  | .took k =>
    match h : s.flasher with
    | .reading _ _ got => decidable_of_iff (k = 8 ∧ got = []) (by simp [InStep, h])
    | .idle | .writing _ _ | .writeBody _ _ _ | .readBody _ _ _ _ _ =>
      isTrue (by simp [InStep, h])
  | .timeout =>
    match h : s.flasher with
    | .writeBody _ _ _ | .readBody _ _ _ _ _ => isFalse (by simp [InStep, h])
    | .idle | .writing _ _ | .reading _ _ _ => isTrue (by simp [InStep, h])
  | .hangup => isFalse not_false
  | .read _ _ | .go | .usb _ | .sent _ | .bridgeTook _ => isTrue trivial

/-- The buffer of a running write, once its header is in the socket. -/
def Flasher.current : Flasher → List Bytes
  | .writeBody buf _ _ => [buf]
  | _ => []

def Flasher.unsent : Flasher → Bytes
  | .writeBody buf cur done => buf.drop (cur + done)
  | _ => []

def Bridge.got : Bridge → Bytes
  | .readHeader got => got
  | .readBody size got => header size ++ got
  | _ => []

def Flasher.Writes : Flasher → Prop
  | .writing buf cur => cur = 0 ∧ buf ≠ [] ∧ buf.length ≤ maxBulkOut
  | .writeBody buf cur done => cur = 0 ∧ done < buf.length
  | _ => True

def Bridge.Reads : Bridge → Prop
  | .readHeader got => got.length < 8
  | .readBody size got => got.length < size ∧ size ≤ maxBulkOut
  | .closed => False
  | _ => True

/-- The buffers that are written and not yet at the endpoint are under way as frames. -/
structure Outward (s : State) (pending : List Bytes) : Prop where
  written : s.written = s.usbOut ++ pending
  stream : s.bridge.got ++ (s.toBridge ++ s.flasher.unsent) =
    (pending ++ s.flasher.current).flatMap frame
  sizes : ∀ b ∈ pending ++ s.flasher.current, b ≠ [] ∧ b.length ≤ maxBulkOut
  writes : s.flasher.Writes
  bridgeReads : s.bridge.Reads
  buffer : s.overrun = false

variable {s t : State} {pending : List Bytes} {k max min want : Nat} {buf got piece : Bytes}

def Flasher.Reader : Flasher → Prop
  | .writing _ _ | .writeBody _ _ _ => False
  | _ => True

theorem Flasher.Reader.current {f : Flasher} (h : f.Reader) : f.current = [] := by
  cases f with
  | writeBody => exact h.elim
  | _ => rfl

theorem Flasher.Reader.unsent {f : Flasher} (h : f.Reader) : f.unsent = [] := by
  cases f with
  | writeBody => exact h.elim
  | _ => rfl

theorem Flasher.Reader.writes {f : Flasher} (h : f.Reader) : f.Writes := by
  cases f with
  | writing => exact h.elim
  | writeBody => exact h.elim
  | _ => trivial

structure ReadStep (s t : State) : Prop where
  source : s.flasher.Reader
  target : t.flasher.Reader
  others : t = { s with
    flasher := t.flasher, tlv := t.tlv, toFlasher := t.toFlasher, reads := t.reads }

theorem ReadStep.outward (h : ReadStep s t) (ho : Outward s pending) : Outward t pending := by
  have hcurrent : t.flasher.current = s.flasher.current := by
    rw [h.target.current, h.source.current]
  have hunsent : t.flasher.unsent = s.flasher.unsent := by rw [h.target.unsent, h.source.unsent]
  rw [h.others]
  refine ⟨ho.written, ?_, ?_, h.target.writes, ho.bridgeReads, ho.buffer⟩
  · rw [hcurrent, hunsent]
    exact ho.stream
  · rw [hcurrent]
    exact ho.sizes

theorem returns_readStep (h : s.flasher.Reader) : ReadStep s (s.returns got) :=
  ⟨h, trivial, rfl⟩

theorem enter_readStep (h : s.flasher.Reader) : ReadStep s (s.enter max min got) := by
  unfold State.enter
  dsimp only
  split
  · exact ⟨h, trivial, rfl⟩
  · exact ⟨h, trivial, rfl⟩

theorem piece_readStep (h : s.flasher.Reader) : ReadStep s (s.piece max min got piece) := by
  unfold State.piece
  dsimp only
  split
  · exact ⟨h, trivial, rfl⟩
  · exact ⟨h, trivial, rfl⟩

theorem ReadStep.of_taken {u : State} (h : ReadStep u t)
    (hu : u = { s with tlv := u.tlv, toFlasher := u.toFlasher }) : ReadStep s t := by
  have hflasher : u.flasher = s.flasher := by rw [hu]
  refine ⟨hflasher ▸ h.source, h.target, ?_⟩
  rw [h.others, hu]

theorem took_readStep (h : s.took k = some t) : ReadStep s t := by
  unfold State.took at h
  split at h
  case h_1 max min got hf =>
    have hreader : s.flasher.Reader := by rw [hf]; trivial
    split at h
    · dsimp only at h
      split at h
      · obtain rfl := some.inj h
        exact .of_taken (enter_readStep (by exact hreader)) rfl
      · obtain rfl := some.inj h
        exact .of_taken (returns_readStep (by exact hreader)) rfl
    · cases h
  case h_2 max min got want piece hf =>
    have hreader : s.flasher.Reader := by rw [hf]; trivial
    split at h
    · dsimp only at h
      split at h
      · obtain rfl := some.inj h
        exact .of_taken (piece_readStep (by exact hreader)) rfl
      · obtain rfl := some.inj h
        exact ⟨hreader, trivial, rfl⟩
    · cases h
  case h_3 => cases h

theorem go_readStep (h : s.go = some t) : ReadStep s t := by
  unfold State.go at h
  split at h
  case h_1 max min got hf =>
    have hreader : s.flasher.Reader := by rw [hf]; trivial
    split at h
    · obtain rfl := some.inj h
      exact enter_readStep hreader
    · cases h
  case h_2 => cases h

theorem timeout_cases (hstep : InStep s .timeout) (h : s.timeout = some t) :
    (∃ buf cur, s.flasher = .writing buf cur ∧ t = { s with flasher := .idle }) ∨
      ∃ max min got, s.flasher = .reading max min got ∧ t = s.returns got := by
  cases hf : s.flasher with
  | idle => simp [State.timeout, hf] at h
  | writing buf cur =>
    left
    exact ⟨buf, cur, rfl, by simpa [State.timeout, hf] using h.symm⟩
  | writeBody => simp [InStep, hf] at hstep
  | reading max min got =>
    right
    exact ⟨max, min, got, rfl, by simpa [State.timeout, hf] using h.symm⟩
  | readBody => simp [InStep, hf] at hstep

theorem wrote_outward (h : Outward s pending) (hstep : InStep s (.wrote k))
    (ht : s.wrote k = some t) : ∃ pending, Outward t pending := by
  have hstream := h.stream
  have hsizes := h.sizes
  have hwrites := h.writes
  unfold State.wrote at ht
  split at ht
  case h_1 buf cur hf =>
    obtain rfl : k = 8 := by simpa [InStep, hf] using hstep
    rw [hf] at hstream hsizes hwrites
    obtain ⟨rfl, hne, hsize⟩ := hwrites
    simp only [Nat.le_refl, if_true] at ht
    obtain rfl := some.inj ht
    refine ⟨pending, h.written, ?_, ?_, ⟨rfl, length_pos_iff.mpr hne⟩, h.bridgeReads, h.buffer⟩
    · have hheader : (header (buf.length - 0)).take 8 = header buf.length :=
        take_of_length_le (by simp)
      simp only [Flasher.unsent, Flasher.current, append_nil] at hstream
      simp only [Flasher.unsent, Flasher.current, hheader, flatMap_append, ← hstream]
      simp [frame]
    · intro b hb
      rcases mem_append.mp hb with hb | hb
      · exact hsizes b (mem_append_left _ hb)
      · obtain rfl : b = buf := by simpa [Flasher.current] using hb
        exact ⟨hne, hsize⟩
  case h_2 buf cur done hf =>
    rw [hf] at hstream hsizes hwrites
    obtain ⟨rfl, hdone⟩ := hwrites
    simp only [Flasher.unsent, Flasher.current, Nat.zero_add] at hstream hsizes
    simp only [Nat.zero_add] at ht
    have hdrop : (buf.drop done).take k ++ buf.drop (done + k) = buf.drop done := by
      rw [← drop_drop]
      exact take_append_drop _ _
    split at ht
    case isTrue hk =>
      split at ht
      case isTrue hlast =>
        obtain rfl := some.inj ht
        have hend : buf.drop (done + k) = [] := drop_eq_nil_of_le (by omega)
        rw [hend, append_nil] at hdrop
        have hlast' : 0 + (done + k) = buf.length := by omega
        unfold State.wroteBody
        rw [if_pos hlast']
        refine ⟨pending ++ [buf], ?_, ?_, ?_, trivial, h.bridgeReads, h.buffer⟩
        · simp [h.written]
        · simp only [Flasher.unsent, Flasher.current, append_nil, hdrop]
          exact hstream
        · simpa [Flasher.current] using hsizes
      case isFalse hlast =>
        obtain rfl := some.inj ht
        refine ⟨pending, h.written, ?_, hsizes, ⟨rfl, by omega⟩, h.bridgeReads, h.buffer⟩
        simp only [Flasher.unsent, Flasher.current, Nat.zero_add, append_assoc, hdrop]
        exact hstream
    case isFalse => cases ht
  case h_3 => cases ht

theorem bridge_stream (h : Outward s pending) :
    s.bridge.got ++ s.toBridge.take k ++ (s.toBridge.drop k ++ s.flasher.unsent) =
      (pending ++ s.flasher.current).flatMap frame := by
  rw [append_assoc, ← append_assoc (s.toBridge.take k), take_append_drop]
  exact h.stream

theorem bridgeHeader_outward (h : Outward s pending) (hlength : got.length = 8)
    (hgot : s.bridge.got ++ s.toBridge.take k = got) :
    Outward ({ s with toBridge := s.toBridge.drop k }.bridgeHeader got) pending := by
  have hstream := bridge_stream (k := k) h
  rw [hgot] at hstream
  obtain ⟨b, bs, hbs, rfl, hrest⟩ := header_of_frames hstream hlength
  have hb : b ≠ [] ∧ b.length ≤ maxBulkOut := h.sizes b (by simp [hbs])
  have hsize : b.length ≤ 16384 := hb.2
  have hpos : 0 < b.length := length_pos_iff.mpr hb.1
  unfold State.bridgeHeader
  simp only [ofBytes_header (n := b.length) (by omega), int32_of_lt (n := b.length) (by omega)]
  rw [if_neg (by simp), if_neg (by omega), if_neg (by omega)]
  refine ⟨h.written, ?_, h.sizes, h.writes, ⟨hpos, hb.2⟩, h.buffer⟩
  simp only [Bridge.got, append_nil]
  exact hstream

theorem bridgeBody_outward {size : Nat} {overrun : Bool} (h : Outward s pending)
    (hbridge : s.bridge = .readBody size got) (hk : k ≤ s.toBridge.length)
    (hsize : got.length + k = size) (hover : overrun = false) :
    ∃ pending, Outward { s with
      toBridge := s.toBridge.drop k, overrun := overrun, bridge := .poll,
      usbOut := s.usbOut ++ [got ++ s.toBridge.take k] } pending := by
  have hreads := h.bridgeReads
  have hstream := bridge_stream (k := k) h
  rw [hbridge] at hreads hstream
  have hmax : size ≤ 16384 := hreads.2
  simp only [Bridge.got, append_assoc] at hstream
  obtain ⟨b, bs, hbs, hheader, hrest⟩ := header_of_frames hstream length_header
  have hb : b.length ≤ 16384 := (h.sizes b (by simp [hbs])).2
  obtain rfl : size = b.length := header_inj (by omega) (by omega) hheader
  have hlength : (got ++ s.toBridge.take k).length = b.length := by
    rw [length_append, length_take_of_le hk]
    exact hsize
  rw [← append_assoc] at hrest
  obtain ⟨hbody, hbehind⟩ := append_inj hrest hlength
  cases pending with
  | nil =>
    -- The last byte of the running write is not in the socket yet.
    exfalso
    have hwrites := h.writes
    cases hf : s.flasher with
    | writeBody buf cur done =>
      rw [hf] at hbs hwrites hbehind
      obtain ⟨rfl, hdone⟩ := hwrites
      obtain ⟨-, rfl⟩ : buf = b ∧ bs = [] := by simpa [Flasher.current, eq_comm] using hbs
      have hnil := (append_eq_nil_iff.mp hbehind).2
      have hlen := drop_eq_nil_iff.mp hnil
      omega
    | _ => simp [hf, Flasher.current] at hbs
  | cons c pending =>
    obtain ⟨rfl, rfl⟩ := List.cons.inj hbs
    refine ⟨pending, ?_, ?_, ?_, h.writes, trivial, hover⟩
    · simp [h.written, hbody]
    · exact hbehind
    · exact fun x hx => h.sizes x (mem_cons_of_mem _ hx)

theorem bridgeTook_outward (h : Outward s pending) (ht : s.bridgeTook k = some t) :
    ∃ pending, Outward t pending := by
  unfold State.bridgeTook at ht
  split at ht
  case isFalse => cases ht
  case isTrue hk =>
    have htake : (s.toBridge.take k).length = k := length_take_of_le hk.2
    have hstream := bridge_stream (k := k) h
    have hreads := h.bridgeReads
    dsimp only at ht
    split at ht
    case h_1 hbridge =>
      rw [hbridge] at hstream
      split at ht
      · obtain rfl := some.inj ht
        exact ⟨pending, h.written, hstream, h.sizes, h.writes, by show _ < _; omega, h.buffer⟩
      · split at ht
        · obtain rfl := some.inj ht
          exact ⟨pending, bridgeHeader_outward h (by omega) (by rw [hbridge]; rfl)⟩
        · cases ht
    case h_2 got hbridge =>
      rw [hbridge] at hstream
      split at ht
      · obtain rfl := some.inj ht
        refine ⟨pending, h.written, hstream, h.sizes, h.writes, ?_, h.buffer⟩
        show (got ++ s.toBridge.take k).length < 8
        rw [length_append]
        omega
      · split at ht
        · obtain rfl := some.inj ht
          refine ⟨pending, bridgeHeader_outward h ?_ (by rw [hbridge]; rfl)⟩
          rw [length_append]
          omega
        · cases ht
    case h_3 size got hbridge =>
      rw [hbridge] at hstream hreads
      have hover : got.length + k ≤ size →
          (s.overrun || decide (maxBulkOut < got.length + k)) = false := by
        intro hle
        rw [h.buffer, Bool.false_or, decide_eq_false_iff_not]
        exact Nat.not_lt.mpr (hle.trans hreads.2)
      split at ht
      case isTrue hlt =>
        obtain rfl := some.inj ht
        refine ⟨pending, h.written, ?_, h.sizes, h.writes, ⟨?_, hreads.2⟩, hover hlt.le⟩
        · simpa [Bridge.got] using hstream
        · rw [length_append]
          omega
      case isFalse =>
        split at ht
        case isTrue heq =>
          obtain rfl := some.inj ht
          exact bridgeBody_outward h hbridge hk.2 heq (hover heq.le)
        case isFalse => cases ht
    case h_4 => cases ht

theorem step_outward {l : Label} (h : Outward s pending) (hl : InStep s l)
    (ht : step s l = some t) :
    ∃ pending, Outward t pending := by
  cases l with
  | write buf =>
    simp only [step] at ht
    split at ht
    case isTrue hbuf =>
      obtain rfl := some.inj ht
      have hstream := h.stream
      have hsizes := h.sizes
      rw [hbuf.1] at hstream hsizes
      exact ⟨pending, h.written, hstream, hsizes, ⟨rfl, hbuf.2, hl⟩, h.bridgeReads, h.buffer⟩
    case isFalse => cases ht
  | wrote k => exact wrote_outward h hl ht
  | read max min =>
    simp only [step] at ht
    split at ht
    case isTrue hidle =>
      obtain rfl := some.inj ht
      have hread : ReadStep s { s with
          flasher := .reading max (if min = 0 then 1 else min) [] } :=
        ⟨by rw [hidle]; trivial, trivial, rfl⟩
      exact ⟨pending, hread.outward h⟩
    case isFalse => cases ht
  | took k => exact ⟨pending, (took_readStep ht).outward h⟩
  | go => exact ⟨pending, (go_readStep ht).outward h⟩
  | timeout =>
    obtain ⟨buf, cur, hf, rfl⟩ | ⟨max, min, got, hf, rfl⟩ := timeout_cases hl ht
    · have hstream := h.stream
      have hsizes := h.sizes
      rw [hf] at hstream hsizes
      exact ⟨pending, h.written, hstream, hsizes, trivial, h.bridgeReads, h.buffer⟩
    · have hread : ReadStep s (s.returns got) := returns_readStep (by rw [hf]; trivial)
      exact ⟨pending, hread.outward h⟩
  | usb transfer =>
    simp only [step] at ht
    split at ht
    case isTrue hpoll =>
      obtain rfl := some.inj ht
      have hstream := h.stream
      rw [hpoll.1] at hstream
      exact ⟨pending, h.written, hstream, h.sizes, h.writes, trivial, h.buffer⟩
    case isFalse => cases ht
  | sent k =>
    simp only [step] at ht
    split at ht
    case h_1 rest hbridge =>
      split at ht
      case isTrue =>
        obtain rfl := some.inj ht
        have hstream := h.stream
        rw [hbridge] at hstream
        refine ⟨pending, h.written, ?_, h.sizes, h.writes, ?_, h.buffer⟩
        · dsimp only
          split
          · exact hstream
          · exact hstream
        · dsimp only
          split
          · trivial
          · trivial
      case isFalse => cases ht
    case h_2 => cases ht
  | bridgeTook k => exact bridgeTook_outward h ht
  | hangup => exact hl.elim

end ModemSupport.Rooter.Usb2tcp
