import ModemSupport.Rooter.Usb2tcpFrames

/-! The transfers from the endpoint to the flasher, and when `usb2tcp.c` is transparent. -/

namespace ModemSupport.Rooter.Usb2tcp

open Lib.Memory Lib.Transition List Option

section Cut

variable {transfers : List Bytes} {j n : Nat} {reads : List Bytes} {t : Bytes}

theorem Cut.le_length (h : Cut transfers j n reads) : j ≤ transfers.length := by
  induction h with
  | start => exact Nat.zero_le _
  | piece _ _ _ ih => exact ih
  | next _ ht _ => exact (List.getElem?_eq_some_iff.mp ht).1
  | nothing _ ih => exact ih

theorem Cut.append (h : Cut transfers j n reads) (u : Bytes) :
    Cut (transfers ++ [u]) j n reads := by
  have hold : ∀ {i : Nat} {x : Bytes}, transfers[i]? = some x →
      (transfers ++ [u])[i]? = some x := by
    intro i x hx
    rw [List.getElem?_append_left (List.getElem?_eq_some_iff.mp hx).1, hx]
  induction h with
  | start => exact .start
  | piece _ ht hk ih => exact .piece ih (hold ht) hk
  | next _ ht ih => exact .next ih (hold ht)
  | nothing _ ih => exact .nothing ih

theorem Cut.flatten (h : Cut transfers j n reads) :
    reads.flatten = (transfers.take j).flatten ++ (transfers[j]?.getD []).take n := by
  induction h with
  | start => simp
  | piece _ ht _ ih =>
    rw [flatten_append, ih, ht]
    simp [take_add]
  | next _ ht ih =>
    rw [ih, ht, take_add_one, ht]
    simp
  | nothing _ ih =>
    rw [flatten_append, ih]
    simp

end Cut

/-- Where the reads are: the running one has got some bytes, `owed` bytes of the same frame come
next, and the rest of the incoming bytes are frames. -/
inductive Place (transfers reads : List Bytes) (got : Bytes) (owed : Nat) (incoming : Bytes) : Prop
  | between {j : Nat} (cut : Cut transfers j 0 reads) (none : got = []) (rest : owed = 0)
      (stream : incoming = (transfers.drop j).flatMap frame)
  | within {j n : Nat} {t : Bytes} (cut : Cut transfers j n reads) (ht : transfers[j]? = some t)
      (length : n + got.length + owed = t.length) (piece : got = (t.drop n).take got.length)
      (stream : incoming = t.drop (n + got.length) ++ (transfers.drop (j + 1)).flatMap frame)
      (more : got ≠ [] ∨ 0 < owed)

section Place

variable {transfers reads : List Bytes} {got incoming xs : Bytes} {owed k : Nat}

theorem Place.cut (h : Place transfers reads got owed incoming) :
    ∃ j n, Cut transfers j n reads := by
  cases h with
  | between cut _ _ _ => exact ⟨_, _, cut⟩
  | within cut _ _ _ _ _ => exact ⟨_, _, cut⟩

theorem Place.all (h : Place transfers reads [] owed []) : reads.flatten = transfers.flatten := by
  cases h with
  | between cut _ _ stream =>
    have hdrop := drop_eq_nil_iff.mp (frames_eq_nil stream.symm)
    rw [cut.flatten, take_of_length_le hdrop]
    simp
  | within _ _ length _ stream more =>
    have howed : 0 < owed := more.resolve_left fun h => h rfl
    have hdrop := (append_eq_nil_iff.mp stream.symm).1
    have hle := drop_eq_nil_iff.mp hdrop
    simp only [length_nil] at length hle
    omega

theorem Place.returns (h : Place transfers reads got owed incoming) :
    Place transfers (reads ++ [got]) [] owed incoming := by
  cases h with
  | between cut hgot howed stream =>
    rw [hgot]
    exact .between cut.nothing rfl howed stream
  | within cut ht length hgot stream more =>
    have hcut := cut.piece (k := got.length) ht (by omega)
    rw [← hgot] at hcut
    by_cases howed : owed = 0
    · rw [howed, Nat.add_zero] at length
      rw [length] at hcut stream
      refine .between (hcut.next ht) rfl howed ?_
      rw [stream, drop_length, nil_append]
    · exact .within hcut ht length rfl stream (.inr (Nat.pos_of_ne_zero howed))

theorem Place.header (h : Place transfers reads [] 0 (xs ++ incoming)) (hxs : xs.length = 8)
    (hne : ∀ t ∈ transfers, t ≠ []) :
    ∃ t ∈ transfers, xs = header t.length ∧ Place transfers reads [] t.length incoming := by
  cases h with
  | @between j cut _ _ stream =>
    obtain ⟨t, ts, hdrop, hheader, hrest⟩ := header_of_frames stream hxs
    have ht : transfers[j]? = some t := by
      rw [← List.head?_drop, hdrop]
      rfl
    have hts : transfers.drop (j + 1) = ts := by
      rw [drop_add_one_eq_tail_drop, hdrop]
      rfl
    have hmem : t ∈ transfers := mem_of_getElem? ht
    refine ⟨t, hmem, hheader, .within cut ht (by simp) (by simp) ?_ (.inr ?_)⟩
    · rw [hrest, hts]
      rfl
    · exact length_pos_iff.mpr (hne t hmem)
  | within _ _ _ _ _ more => simp at more

theorem Place.take (h : Place transfers reads got (owed + k) (xs ++ incoming)) (hxs : xs.length = k)
    (hk : 0 < k) : Place transfers reads (got ++ xs) owed incoming := by
  cases h with
  | between _ _ howed _ => omega
  | @within j n t cut ht length hgot stream more =>
    have hle : k ≤ (t.drop (n + got.length)).length := by
      rw [length_drop]
      omega
    have hxs' : xs = (t.drop (n + got.length)).take k := by
      rw [← take_append_of_le_length hle, ← stream, take_left' hxs]
    have hincoming : incoming = t.drop (n + got.length + k) ++
        (transfers.drop (j + 1)).flatMap frame := by
      rw [← drop_drop, ← drop_append_of_le_length hle, ← stream, drop_left' hxs]
    have hlength : (got ++ xs).length = got.length + k := by rw [length_append, hxs]
    refine .within cut ht ?_ ?_ ?_ (.inl ?_)
    · rw [hlength]
      omega
    · rw [hlength, take_add, ← hgot, drop_drop, ← hxs']
    · rw [hlength, ← Nat.add_assoc]
      exact hincoming
    · exact ne_nil_of_length_pos (by omega)

theorem Place.transfer (h : Place transfers reads got owed incoming) (u : Bytes) :
    Place (transfers ++ [u]) reads got owed (incoming ++ frame u) := by
  cases h with
  | between cut hgot howed stream =>
    refine .between (cut.append u) hgot howed ?_
    rw [stream, drop_append_of_le_length cut.le_length, flatMap_append]
    simp
  | within cut ht length hgot stream more =>
    have hj := (List.getElem?_eq_some_iff.mp ht).1
    refine .within (cut.append u) ?_ length hgot ?_ more
    · rw [List.getElem?_append_left hj, ht]
    · rw [stream, drop_append_of_le_length hj, flatMap_append]
      simp

end Place

def Flasher.got : Flasher → Bytes
  | .reading _ _ got => got
  | .readBody _ _ got _ piece => got ++ piece
  | _ => []

/-- What `tlv.length` no longer counts and the running call of `qtcp_read` has not got yet. -/
def Flasher.owed : Flasher → Nat
  | .readBody _ _ _ want piece => want - piece.length
  | _ => 0

def Flasher.Wants : Flasher → Prop
  | .readBody _ _ _ want piece => piece.length < want
  | _ => True

def Bridge.unsent : Bridge → Bytes
  | .sending rest => rest
  | _ => []

structure Inward (s : State) : Prop where
  place : Place s.usbIn s.reads s.flasher.got (s.tlv.length + s.flasher.owed)
    (s.toFlasher ++ s.bridge.unsent)
  tag : s.tlv.tag = qUsb2tcpVersion
  length : s.tlv.length ≤ maxBulkIn
  wants : s.flasher.Wants
  sizes : ∀ t ∈ s.usbIn, t ≠ [] ∧ t.length ≤ maxBulkIn

variable {s t : State} {pending : List Bytes} {k max min : Nat} {got : Bytes}

structure WriteStep (s t : State) : Prop where
  source : s.flasher.got = [] ∧ s.flasher.owed = 0
  target : t.flasher.got = [] ∧ t.flasher.owed = 0
  wants : t.flasher.Wants
  others : t = { s with flasher := t.flasher, toBridge := t.toBridge, written := t.written }

theorem WriteStep.inward (h : WriteStep s t) (hi : Inward s) : Inward t := by
  have hplace := hi.place
  rw [h.source.1, h.source.2] at hplace
  rw [h.others]
  refine ⟨?_, hi.tag, hi.length, h.wants, hi.sizes⟩
  rw [h.target.1, h.target.2]
  exact hplace

theorem wrote_writeStep (h : s.wrote k = some t) : WriteStep s t := by
  unfold State.wrote at h
  split at h
  case h_1 buf cur hf =>
    have hsource : s.flasher.got = [] ∧ s.flasher.owed = 0 := by rw [hf]; exact ⟨rfl, rfl⟩
    split at h
    · dsimp only at h
      split at h
      · obtain rfl := some.inj h
        exact ⟨hsource, ⟨rfl, rfl⟩, trivial, rfl⟩
      · obtain rfl := some.inj h
        exact ⟨hsource, ⟨rfl, rfl⟩, trivial, rfl⟩
    · cases h
  case h_2 buf cur done hf =>
    have hsource : s.flasher.got = [] ∧ s.flasher.owed = 0 := by rw [hf]; exact ⟨rfl, rfl⟩
    split at h
    · dsimp only at h
      split at h
      case isTrue hend =>
        obtain rfl := some.inj h
        unfold State.wroteBody
        rw [if_pos (by omega)]
        exact ⟨hsource, ⟨rfl, rfl⟩, trivial, rfl⟩
      case isFalse =>
        obtain rfl := some.inj h
        exact ⟨hsource, ⟨rfl, rfl⟩, trivial, rfl⟩
    · cases h
  case h_3 => cases h

structure BridgeStep (s t : State) : Prop where
  source : s.bridge.unsent = []
  target : t.bridge.unsent = []
  others : t = { s with
    bridge := t.bridge, toBridge := t.toBridge, usbOut := t.usbOut, overrun := t.overrun }

theorem BridgeStep.inward (h : BridgeStep s t) (hi : Inward s) : Inward t := by
  have hplace := hi.place
  rw [h.source] at hplace
  rw [h.others]
  refine ⟨?_, hi.tag, hi.length, hi.wants, hi.sizes⟩
  rw [h.target]
  exact hplace

theorem bridgeHeader_bridgeStep (h : s.bridge.unsent = []) :
    BridgeStep s ({ s with toBridge := s.toBridge.drop k }.bridgeHeader got) := by
  unfold State.bridgeHeader
  dsimp only
  split
  · exact ⟨h, rfl, rfl⟩
  · split
    · exact ⟨h, rfl, rfl⟩
    · split
      · exact ⟨h, rfl, rfl⟩
      · exact ⟨h, rfl, rfl⟩

theorem bridgeTook_bridgeStep (h : s.bridgeTook k = some t) : BridgeStep s t := by
  unfold State.bridgeTook at h
  split at h
  case isFalse => cases h
  case isTrue =>
    dsimp only at h
    split at h
    case h_1 hbridge =>
      have hs : s.bridge.unsent = [] := by rw [hbridge]; rfl
      split at h
      · obtain rfl := some.inj h
        exact ⟨hs, rfl, rfl⟩
      · split at h
        · obtain rfl := some.inj h
          exact bridgeHeader_bridgeStep hs
        · cases h
    case h_2 got hbridge =>
      have hs : s.bridge.unsent = [] := by rw [hbridge]; rfl
      split at h
      · obtain rfl := some.inj h
        exact ⟨hs, rfl, rfl⟩
      · split at h
        · obtain rfl := some.inj h
          exact bridgeHeader_bridgeStep hs
        · cases h
    case h_3 size got hbridge =>
      have hs : s.bridge.unsent = [] := by rw [hbridge]; rfl
      split at h
      · obtain rfl := some.inj h
        exact ⟨hs, rfl, rfl⟩
      · split at h
        · obtain rfl := some.inj h
          exact ⟨hs, rfl, rfl⟩
        · cases h
    case h_4 => cases h

theorem returns_inward (h : Inward s) (hgot : s.flasher.got = got) (howed : s.flasher.owed = 0) :
    Inward (s.returns got) := by
  have hplace := h.place
  rw [hgot, howed] at hplace
  exact ⟨hplace.returns, h.tag, h.length, trivial, h.sizes⟩

theorem enter_inward (h : Inward s) (hgot : s.flasher.got = got) (howed : s.flasher.owed = 0) :
    Inward (s.enter max min got) := by
  have hlength : s.tlv.length ≤ 4096 := h.length
  have hint : (int32 s.tlv.length).toNat = s.tlv.length := by
    rw [int32_of_lt (by omega)]
    rfl
  have hplace := h.place
  rw [hgot, howed] at hplace
  unfold State.enter
  simp only [hint]
  split
  case isTrue hwant =>
    rw [hwant]
    exact returns_inward h hgot howed
  case isFalse hwant =>
    have hle : Min.min (max - got.length) s.tlv.length ≤ s.tlv.length := Nat.min_le_right _ _
    refine ⟨?_, h.tag, (Nat.sub_le _ _).trans h.length, Nat.pos_of_ne_zero hwant, h.sizes⟩
    simp only [Flasher.got, Flasher.owed, append_nil, length_nil, Nat.sub_zero]
    rw [Nat.sub_add_cancel hle]
    exact hplace

theorem took_inward (h : Inward s) (hstep : InStep s (.took k)) (ht : s.took k = some t) :
    Inward t := by
  have hsplit : s.toFlasher ++ s.bridge.unsent =
      s.toFlasher.take k ++ (s.toFlasher.drop k ++ s.bridge.unsent) := by
    rw [← append_assoc, take_append_drop]
  have hplace := h.place
  rw [hsplit] at hplace
  unfold State.took at ht
  split at ht
  case h_1 max min got hf =>
    obtain ⟨rfl, rfl⟩ : k = 8 ∧ got = [] := by simpa [InStep, hf] using hstep
    rw [hf] at hplace
    split at ht
    case isTrue hguard =>
      obtain ⟨hzero, -, -, hk⟩ := hguard
      rw [hzero] at hplace
      obtain ⟨u, hu, hheader, hnext⟩ :=
        hplace.header (length_take_of_le hk) fun x hx => (h.sizes x hx).1
      have hsize : u.length ≤ 4096 := (h.sizes u hu).2
      have htlv : Tlv.ofBytes (s.toFlasher.take 8 ++ s.tlv.bytes.drop 8) =
          ⟨qUsb2tcpVersion, u.length⟩ := by
        have hdrop : s.tlv.bytes.drop 8 = [] := drop_eq_nil_of_le (by simp [Tlv.bytes])
        rw [hheader, hdrop, append_nil, ofBytes_header (by omega)]
      simp only [htlv, and_self, if_true] at ht
      obtain rfl := some.inj ht
      refine enter_inward ⟨?_, rfl, hsize, ?_, h.sizes⟩ (congrArg Flasher.got hf)
        (congrArg Flasher.owed hf)
      · rw [hf]
        exact hnext
      · rw [hf]
        trivial
    case isFalse => cases ht
  case h_2 max min got want piece hf =>
    have hwants := h.wants
    rw [hf] at hplace hwants
    split at ht
    case isTrue hguard =>
      obtain ⟨hpos, hwant, hk⟩ := hguard
      have hlength : (piece ++ s.toFlasher.take k).length = piece.length + k := by
        rw [length_append, length_take_of_le hk]
      have howed : s.tlv.length + (want - piece.length) =
          s.tlv.length + (want - (piece.length + k)) + k := by omega
      simp only [Flasher.got, Flasher.owed, howed] at hplace
      have hnext := hplace.take (length_take_of_le hk) hpos
      rw [append_assoc] at hnext
      simp only [hlength] at ht
      split at ht
      case isTrue hall =>
        obtain rfl := some.inj ht
        rw [hall, Nat.sub_self] at hnext
        -- The call returns from a loop that has all the bytes it wanted.
        have hloop : Inward { s with
            flasher := .reading max min (got ++ (piece ++ s.toFlasher.take k)),
            toFlasher := s.toFlasher.drop k } :=
          ⟨hnext, h.tag, h.length, trivial, h.sizes⟩
        unfold State.piece
        dsimp only
        split
        · exact hloop
        · have hreturn := returns_inward hloop rfl rfl
          exact hreturn
      case isFalse hmore =>
        obtain rfl := some.inj ht
        refine ⟨?_, h.tag, h.length, ?_, h.sizes⟩
        · simp only [Flasher.got, Flasher.owed, hlength]
          exact hnext
        · show (piece ++ s.toFlasher.take k).length < want
          omega
    case isFalse => cases ht
  case h_3 => cases ht

theorem step_inward {l : Label} (h : Inward s) (hl : InStep s l) (ht : step s l = some t) :
    Inward t := by
  cases l with
  | write buf =>
    simp only [step] at ht
    split at ht
    case isTrue hbuf =>
      obtain rfl := some.inj ht
      have hwrite : WriteStep s { s with flasher := .writing buf 0 } :=
        ⟨by rw [hbuf.1]; exact ⟨rfl, rfl⟩, ⟨rfl, rfl⟩, trivial, rfl⟩
      exact hwrite.inward h
    case isFalse => cases ht
  | wrote k => exact (wrote_writeStep ht).inward h
  | read max min =>
    simp only [step] at ht
    split at ht
    case isTrue hidle =>
      obtain rfl := some.inj ht
      have hplace := h.place
      rw [hidle] at hplace
      exact ⟨hplace, h.tag, h.length, trivial, h.sizes⟩
    case isFalse => cases ht
  | took k => exact took_inward h hl ht
  | go =>
    simp only [step, State.go] at ht
    split at ht
    case h_1 max min got hf =>
      split at ht
      · obtain rfl := some.inj ht
        exact enter_inward h (by rw [hf]; rfl) (by rw [hf]; rfl)
      · cases ht
    case h_2 => cases ht
  | timeout =>
    obtain ⟨buf, cur, hf, rfl⟩ | ⟨max, min, got, hf, rfl⟩ := timeout_cases hl ht
    · have hwrite : WriteStep s { s with flasher := .idle } :=
        ⟨by rw [hf]; exact ⟨rfl, rfl⟩, ⟨rfl, rfl⟩, trivial, rfl⟩
      exact hwrite.inward h
    · exact returns_inward h (by rw [hf]; rfl) (by rw [hf]; rfl)
  | usb transfer =>
    simp only [step] at ht
    split at ht
    case isTrue hguard =>
      obtain ⟨hpoll, hne, hsize⟩ := hguard
      obtain rfl := some.inj ht
      have hplace := h.place
      rw [hpoll] at hplace
      simp only [Bridge.unsent, append_nil] at hplace
      refine ⟨hplace.transfer transfer, h.tag, h.length, h.wants, ?_⟩
      intro u hu
      rcases mem_append.mp hu with hu | hu
      · exact h.sizes u hu
      · obtain rfl := mem_singleton.mp hu
        exact ⟨hne, hsize⟩
    case isFalse => cases ht
  | sent k =>
    simp only [step] at ht
    split at ht
    case h_1 rest hbridge =>
      split at ht
      case isTrue hk =>
        obtain rfl := some.inj ht
        have hplace := h.place
        rw [hbridge] at hplace
        refine ⟨?_, h.tag, h.length, h.wants, h.sizes⟩
        dsimp only
        split
        case isTrue hall =>
          rw [hall, List.take_length]
          simpa [Bridge.unsent] using hplace
        case isFalse =>
          simpa [Bridge.unsent] using hplace
      case isFalse => cases ht
    case h_2 => cases ht
  | bridgeTook k => exact (bridgeTook_bridgeStep ht).inward h
  | hangup => exact hl.elim

theorem transparent_of (hs : Outward s pending) (hi : Inward s) : Transparent s where
  usbOut := ⟨pending, hs.written.symm⟩
  usbOut_all := by
    intro hidle hempty hbridge
    have hgot : s.bridge.got = [] := by
      rcases hbridge with hpoll | ⟨rest, hsending⟩
      · rw [hpoll]
        rfl
      · rw [hsending]
        rfl
    have hstream := hs.stream
    rw [hgot, hempty, hidle] at hstream
    simp only [Flasher.unsent, Flasher.current, append_nil] at hstream
    have hpending := frames_eq_nil hstream.symm
    rw [hs.written, hpending, append_nil]
  reads := hi.place.cut
  reads_all := by
    intro hidle hempty hpoll
    have hplace := hi.place
    rw [hidle, hempty, hpoll] at hplace
    exact hplace.all
  buffer := hs.buffer
  alive := by
    intro hclosed
    have hreads := hs.bridgeReads
    rw [hclosed] at hreads
    exact hreads

theorem outward_init : Outward init [] :=
  ⟨rfl, rfl, by simp [init, Flasher.current], trivial, trivial, rfl⟩

theorem inward_init : Inward init where
  place := .between .start rfl rfl rfl
  tag := rfl
  length := Nat.zero_le _
  wants := trivial
  sizes := by simp [init]

/-- A run whose steps keep the two ends in step is transparent. -/
theorem transparent_of_inStep (h : Reaches step InStep init s) : Transparent s := by
  obtain ⟨⟨pending, hs⟩, hi⟩ : (∃ pending, Outward s pending) ∧ Inward s := by
    refine h.invariant (P := fun s => (∃ pending, Outward s pending) ∧ Inward s)
      ⟨⟨[], outward_init⟩, inward_init⟩ ?_
    rintro s l t ⟨⟨pending, hs⟩, hi⟩ hl ht
    exact ⟨step_outward hs hl ht, step_inward hi hl ht⟩
  exact transparent_of hs hi

/-- A buffer to the endpoint and two transfers from it, all of them cut by the socket, and a read
that comes too early. -/
def exchange : List Label :=
  [.usb [1, 2, 3], .sent 5, .sent 4, .sent 2, .write [7, 8, 9], .wrote 8, .wrote 1, .bridgeTook 3,
    .bridgeTook 5, .bridgeTook 1, .wrote 2, .bridgeTook 2, .read 2 0, .took 8, .took 1, .took 1,
    .read 2 1, .go, .took 1, .read 2 1, .timeout, .usb [4], .sent 9, .read 2 1, .took 8, .took 1]

theorem transparent_exchange : ∃ s, Transparent s ∧
    s.usbOut = [[7, 8, 9]] ∧ s.reads = [[1, 2], [3], [], [4]] := by
  have hrun : (run (guarded step InStep) init exchange).any (fun s => decide
      (s.usbOut = [[7, 8, 9]] ∧ s.reads = [[1, 2], [3], [], [4]])) = true := by
    decide
  obtain ⟨s, hreaches, hs⟩ := exists_of_run _ hrun
  exact ⟨s, transparent_of_inStep hreaches, hs⟩

/-- A read that runs out of time when it has one byte of three, and the next one. -/
def lateBytes : List Label :=
  [.usb [1, 2, 3], .sent 9, .read 3 1, .took 8, .took 1, .timeout, .sent 2, .read 2 1, .took 2]

/-- The two bytes that come late are taken for a header, and are in no read. -/
theorem lost_lateBytes : ¬ ∀ s, Reachable step init s → Transparent s := by
  intro h
  have hrun : (run (guarded step fun _ _ => True) init lateBytes).any (fun s => decide
      (s.flasher = .idle ∧ s.toFlasher = [] ∧ s.bridge = .poll ∧
        s.reads.flatten ≠ s.usbIn.flatten)) = true := by
    decide
  obtain ⟨s, hreaches, hidle, hempty, hpoll, hreads⟩ := exists_of_run _ hrun
  exact hreads ((h s hreaches).reads_all hidle hempty hpoll)

end ModemSupport.Rooter.Usb2tcp
