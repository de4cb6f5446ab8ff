import ModemSupport.Cm.QmiStream

/-! Which frames survive the cuts of the stream: at the proxy those that one read returns, at the
client those whose header is read whole and whose rest the second read returns. -/

namespace ModemSupport.Cm.QmiStream

open Lib.Frames Lib.Transition List Option

/-- The frames of at most `limit` bytes that have been read to their end, or that nobody will
read, each with its place. -/
def due (frames : List (List UInt8)) (limit offset : Nat) (connected : Bool) :
    List (Nat × List UInt8) :=
  (placed 0 frames).filter fun x =>
    decide (x.2.length ≤ limit) && (!connected || decide (x.1 + x.2.length ≤ offset))

variable {frames : List (List UInt8)} {limit offset : Nat} {connected : Bool}

theorem mem_due (hwf : ∀ f ∈ frames, WellFormed f) {x : Nat × List UInt8}
    (hx : x ∈ due frames limit offset connected) :
    WellFormed x.2 ∧ x.2.length ≤ limit ∧ slice frames.flatten x.1 x.2.length = x.2 := by
  obtain ⟨hmem, hlimit⟩ := mem_filter.mp hx
  obtain ⟨hframe, -, hslice⟩ := mem_placed hmem
  simp only [Bool.and_eq_true, decide_eq_true_eq] at hlimit
  exact ⟨hwf _ hframe, hlimit.1, hslice⟩

theorem due_pairwise (hwf : ∀ f ∈ frames, WellFormed f) :
    (due frames limit offset connected).Pairwise fun x y => x.1 < y.1 := by
  apply List.Pairwise.sublist filter_sublist
  apply placed_pairwise
  intro f hf
  exact Nat.lt_of_lt_of_le (by decide) (hwf f hf).header

theorem Length_write {buf bytes : List UInt8} (h : 3 ≤ bytes.length) :
    Length (write buf 0 bytes) = Length bytes := by
  have hget : ∀ i, i < bytes.length → (write buf 0 bytes).getD i 0 = bytes.getD i 0 := by
    intro i hi
    simp [write_zero, getD_eq_getElem?_getD, List.getElem?_append_left hi]
  unfold Length
  rw [hget 1 (by omega), hget 2 (by omega)]

structure Proxy.Framed (frames : List (List UInt8)) (s : Proxy) : Prop where
  inOrder : (due frames proxyBufSize s.offset s.connected).Sublist s.sent
  once : (s.sent.map Prod.fst).Nodup

/-- Every frame of at most 2048 bytes is what one read returns. -/
def Proxy.Whole (frames : List (List UInt8)) (s : Proxy) : Prop :=
  ∀ x ∈ due frames proxyBufSize s.offset s.connected, (x.1, x.2.length) ∈ s.reads

structure Proxy.Inv (stream : List UInt8) (s : Proxy) : Prop where
  unread : s.stream = stream.drop s.offset
  sent : ∀ x ∈ s.sent, (x.1, x.2.length) ∈ s.reads
  kept : ∀ x ∈ s.reads, WellFormed (slice stream x.1 x.2) → (slice stream x.1 x.2).length = x.2 →
    (x.1, slice stream x.1 x.2) ∈ s.sent
  before : ∀ x ∈ s.sent, x.1 < s.offset
  order : s.sent.Pairwise fun x y => x.1 < y.1

theorem Proxy.inv_init (frames : List (List UInt8)) (qmiBuf : List UInt8) :
    (Proxy.init frames qmiBuf).Inv frames.flatten := by
  constructor <;> simp [Proxy.init]

theorem order_append {l : List (Nat × List UInt8)} {o : Nat}
    (horder : l.Pairwise fun x y => x.1 < y.1)
    (hbefore : ∀ x ∈ l, x.1 < o) (f : List UInt8) :
    (l ++ [(o, f)]).Pairwise fun x y => x.1 < y.1 := by
  refine pairwise_append.mpr ⟨horder, pairwise_singleton _ _, ?_⟩
  intro x hx y hy
  obtain rfl := mem_singleton.mp hy
  exact hbefore x hx

theorem Proxy.Inv.received {stream : List UInt8} {s : Proxy} (h : s.Inv stream) {n : Nat}
    (hpos : 0 < n) (hn : n ≤ s.stream.length) : (s.received n).Inv stream := by
  have hbytes : s.stream.take n = slice stream s.offset n := by rw [h.unread, slice]
  have hlength : (slice stream s.offset n).length = n := by
    rw [← hbytes, length_take, Nat.min_eq_left hn]
  have hunread : (s.received n).stream = stream.drop (s.offset + n) := by
    show s.stream.drop n = _
    rw [h.unread, drop_drop]
  have hreads : (s.received n).reads = s.reads ++ [(s.offset, n)] := rfl
  have hbefore : ∀ x ∈ s.sent, x.1 < s.offset + n := fun x hx => Nat.lt_add_right n (h.before x hx)
  by_cases heq : n = Length (write s.qmiBuf 0 (s.stream.take n)) + 1
  · have hsent : (s.received n).sent = s.sent ++ [(s.offset, slice stream s.offset n)] := by
      have htake : (write s.qmiBuf 0 (s.stream.take n)).take n = slice stream s.offset n := by
        rw [hbytes, take_write_of_length s.qmiBuf hlength]
      show (if n = Length (write s.qmiBuf 0 (s.stream.take n)) + 1 then
        s.sent ++ [(s.offset, (write s.qmiBuf 0 (s.stream.take n)).take n)] else s.sent) = _
      rw [if_pos heq, htake]
    constructor
    case unread => exact hunread
    case sent =>
      rw [hsent, hreads]
      intro x hx
      rcases mem_append.mp hx with hx | hx
      · exact mem_append_left _ (h.sent x hx)
      · obtain rfl := mem_singleton.mp hx
        simp [hlength]
    case kept =>
      rw [hsent, hreads]
      intro x hx hwf hx'
      rcases mem_append.mp hx with hx | hx
      · exact mem_append_left _ (h.kept x hx hwf hx')
      · obtain rfl := mem_singleton.mp hx
        simp
    case before =>
      rw [hsent]
      intro x hx
      rcases mem_append.mp hx with hx | hx
      · exact hbefore x hx
      · obtain rfl := mem_singleton.mp hx
        exact Nat.lt_add_of_pos_right hpos
    case order =>
      rw [hsent]
      exact order_append h.order h.before _
  · have hsent : (s.received n).sent = s.sent := if_neg heq
    constructor
    case unread => exact hunread
    case sent =>
      rw [hsent, hreads]
      exact fun x hx => mem_append_left _ (h.sent x hx)
    case kept =>
      rw [hsent, hreads]
      intro x hx hwf hx'
      rcases mem_append.mp hx with hx | hx
      · exact h.kept x hx hwf hx'
      · obtain rfl := mem_singleton.mp hx
        -- A whole frame passes the test of its length.
        have hthree : 3 ≤ (slice stream s.offset n).length := Nat.le_trans (by decide) hwf.header
        rw [hbytes, Length_write hthree, ← hwf.length, hlength] at heq
        exact absurd rfl heq
    case before =>
      rw [hsent]
      exact hbefore
    case order =>
      rw [hsent]
      exact h.order

theorem Proxy.inv_step {stream : List UInt8} {s t : Proxy} {l : ProxyLabel} (h : s.Inv stream)
    (hstep : s.step l = some t) : t.Inv stream := by
  have hcleanup : s.cleanup.Inv stream := ⟨h.unread, h.sent, h.kept, h.before, h.order⟩
  cases l with
  | read r =>
    simp only [Proxy.step] at hstep
    split at hstep
    next hok =>
      cases r with
      | wouldBlock =>
        obtain rfl := some.inj hstep
        exact hcleanup
      | bytes n =>
        by_cases hzero : n = 0
        · obtain rfl := some.inj ((if_pos hzero).symm.trans hstep)
          exact hcleanup
        · obtain rfl := some.inj ((if_neg hzero).symm.trans hstep)
          exact h.received (Nat.pos_of_ne_zero hzero) hok.2.2.1
    next => cases hstep
  | other bytes =>
    simp only [Proxy.step] at hstep
    split at hstep
    next =>
      obtain rfl := some.inj hstep
      exact ⟨h.unread, h.sent, h.kept, h.before, h.order⟩
    next => cases hstep
  | hangup =>
    simp only [Proxy.step] at hstep
    split at hstep
    next =>
      obtain rfl := some.inj hstep
      exact hcleanup
    next => cases hstep

theorem Proxy.framed_iff (hwf : ∀ f ∈ frames, WellFormed f) {s : Proxy} (h : s.Inv frames.flatten) :
    s.Framed frames ↔ s.Whole frames := by
  constructor
  · intro hframed x hx
    exact h.sent x (hframed.inOrder.subset hx)
  · intro hwhole
    refine ⟨?_, keys_nodup h.order⟩
    apply sublist_of_keys (due_pairwise hwf) h.order
    intro x hx
    obtain ⟨hframe, -, hslice⟩ := mem_due hwf hx
    have hkept := h.kept _ (hwhole x hx)
    rw [hslice] at hkept
    exact hkept hframe rfl

/-- Every frame of at most 512 bytes is handed to `QmiThreadRecvQMI` once, unmodified and in
order, and no read writes past the buffer. -/
structure Client.Framed (frames : List (List UInt8)) (s : Client) : Prop where
  inOrder : (due frames clientBufSize s.offset s.connected).Sublist s.received
  once : (s.received.map Prod.fst).Nodup
  inside : s.overflow = false

/-- Every second read fits, and every frame of at most 512 bytes is read as its header and its
rest. -/
def Client.Whole (frames : List (List UInt8)) (s : Client) : Prop :=
  (∀ x ∈ s.bodies, sizeofQcqmiHdr + x.2 ≤ clientBufSize) ∧
    ∀ x ∈ due frames clientBufSize s.offset s.connected,
      (x.1, x.2.length - sizeofQcqmiHdr) ∈ s.bodies

structure Client.Inv (stream : List UInt8) (s : Client) : Prop where
  unread : s.stream = stream.drop s.offset
  taken : ∀ x ∈ s.received, sizeofQcqmiHdr ≤ x.2.length →
    (x.1, x.2.length - sizeofQcqmiHdr) ∈ s.bodies
  kept : ∀ x ∈ s.bodies, WellFormed (slice stream x.1 (sizeofQcqmiHdr + x.2)) →
    (slice stream x.1 (sizeofQcqmiHdr + x.2)).length = sizeofQcqmiHdr + x.2 →
    sizeofQcqmiHdr + x.2 ≤ clientBufSize →
    (x.1, slice stream x.1 (sizeofQcqmiHdr + x.2)) ∈ s.received
  overflow : s.overflow = true ↔ ∃ x ∈ s.bodies, clientBufSize < sizeofQcqmiHdr + x.2
  before : ∀ x ∈ s.received, x.1 < s.offset
  order : s.received.Pairwise fun x y => x.1 < y.1

theorem Client.inv_init (stream : List UInt8) : (Client.init stream).Inv stream := by
  constructor <;> simp [Client.init]

section Client

variable {stream : List UInt8} {s t : Client}

theorem Client.Inv.check (h : s.Inv stream) {place : Nat} (hplace : place < s.offset)
    (hbefore : ∀ x ∈ s.received, x.1 < place) (buf : List UInt8) {nreads : Nat}
    (hshort : nreads < sizeofQcqmiHdr) : (s.check place buf nreads).Inv stream := by
  unfold Client.check
  split
  next =>
    have htake : (buf.take nreads).length < sizeofQcqmiHdr :=
      Nat.lt_of_le_of_lt (length_take_le _ _) hshort
    constructor
    case unread => exact h.unread
    case taken =>
      intro x hx hlength
      rcases mem_append.mp hx with hx | hx
      · exact h.taken x hx hlength
      · obtain rfl := mem_singleton.mp hx
        exact absurd hlength (Nat.not_le.mpr htake)
    case kept => exact fun x hx hwf hx' hfits => mem_append_left _ (h.kept x hx hwf hx' hfits)
    case overflow => exact h.overflow
    case before =>
      intro x hx
      rcases mem_append.mp hx with hx | hx
      · exact h.before x hx
      · obtain rfl := mem_singleton.mp hx
        exact hplace
    case order => exact order_append h.order hbefore _
  next => exact h

theorem Client.Inv.advance (h : s.Inv stream) (n : Nat) :
    Client.Inv stream { s with stream := s.stream.drop n, offset := s.offset + n } where
  unread := by rw [h.unread, drop_drop]
  taken := h.taken
  kept := h.kept
  overflow := h.overflow
  before := fun x hx => Nat.lt_add_right n (h.before x hx)
  order := h.order

theorem write_body (stack : List UInt8) {place m : Nat}
    (hheader : (slice stream place sizeofQcqmiHdr).length = sizeofQcqmiHdr) :
    write (write stack 0 (slice stream place sizeofQcqmiHdr)) sizeofQcqmiHdr
        ((stream.drop (place + sizeofQcqmiHdr)).take m) =
      write stack 0 (slice stream place (sizeofQcqmiHdr + m)) := by
  have hwrite := write_write stack (slice stream place sizeofQcqmiHdr)
    ((stream.drop (place + sizeofQcqmiHdr)).take m)
  rw [hheader] at hwrite
  rw [hwrite, slice_add]
  rfl

theorem Client.Inv.readBody (h : s.Inv stream) {place : Nat} (stack : List UInt8)
    (hoffset : s.offset = place + sizeofQcqmiHdr) (hbefore : ∀ x ∈ s.received, x.1 < place)
    (hheader : (slice stream place sizeofQcqmiHdr).length = sizeofQcqmiHdr)
    {body : Read} {count : Nat} (hbody : body.Allowed count s.stream)
    (hinside : s.overflow = false) :
    (s.readBody place (write stack 0 (slice stream place sizeofQcqmiHdr)) body).Inv stream := by
  have hplace : place < s.offset := by rw [hoffset]; exact Nat.lt_add_of_pos_right (by decide)
  cases body with
  | wouldBlock => exact h.check hplace hbefore _ (by decide)
  | bytes m =>
    obtain ⟨-, hm, -⟩ := hbody
    have hfit : ∀ x ∈ s.bodies, ¬clientBufSize < sizeofQcqmiHdr + x.2 := by
      intro x hx hlt
      have := h.overflow.mpr ⟨x, hx, hlt⟩
      simp [hinside] at this
    have hunread : s.stream.drop m = stream.drop (s.offset + m) := by
      rw [h.unread, drop_drop]
    have hbefore' : ∀ x ∈ s.received, x.1 < s.offset + m := fun x hx =>
      Nat.lt_add_right m (h.before x hx)
    have hmessage : write (write stack 0 (slice stream place sizeofQcqmiHdr)) sizeofQcqmiHdr
        (s.stream.take m) = write stack 0 (slice stream place (sizeofQcqmiHdr + m)) := by
      rw [h.unread, hoffset]
      exact write_body stack hheader
    have hlength : (slice stream place (sizeofQcqmiHdr + m)).length = sizeofQcqmiHdr + m := by
      rw [slice_add, length_append, hheader, slice, ← hoffset, ← h.unread, length_take,
        Nat.min_eq_left hm]
    have htaken : ∀ x ∈ s.received, sizeofQcqmiHdr ≤ x.2.length →
        (x.1, x.2.length - sizeofQcqmiHdr) ∈ s.bodies ++ [(place, m)] := fun x hx hle =>
      mem_append_left _ (h.taken x hx hle)
    simp only [Client.readBody]
    split
    next hlt =>
      constructor
      case unread => exact hunread
      case taken => exact htaken
      case kept =>
        intro x hx hwf hx' hfits
        rcases mem_append.mp hx with hx | hx
        · exact h.kept x hx hwf hx' hfits
        · obtain rfl := mem_singleton.mp hx
          exact absurd hlt (Nat.not_lt.mpr hfits)
      case overflow =>
        show true = true ↔ ∃ x ∈ s.bodies ++ [(place, m)], clientBufSize < sizeofQcqmiHdr + x.2
        exact ⟨fun _ => ⟨(place, m), by simp, hlt⟩, fun _ => rfl⟩
      case before => exact hbefore'
      case order => exact h.order
    next hle =>
      have hoverflow : s.overflow = true ↔
          ∃ x ∈ s.bodies ++ [(place, m)], clientBufSize < sizeofQcqmiHdr + x.2 := by
        simp only [hinside, Bool.false_eq_true, false_iff]
        rintro ⟨x, hx, hlt⟩
        rcases mem_append.mp hx with hx | hx
        · exact hfit x hx hlt
        · obtain rfl := mem_singleton.mp hx
          exact hle hlt
      rw [hmessage]
      have hthree : 3 ≤ (slice stream place (sizeofQcqmiHdr + m)).length := by
        rw [hlength]
        exact Nat.le_trans (by decide) (Nat.le_add_right sizeofQcqmiHdr m)
      unfold Client.check
      rw [Length_write hthree, take_write_of_length stack hlength]
      split
      next =>
        constructor
        case unread => exact hunread
        case taken =>
          intro x hx hlong
          rcases mem_append.mp hx with hx | hx
          · exact htaken x hx hlong
          · obtain rfl := mem_singleton.mp hx
            simp [hlength]
        case kept =>
          intro x hx hwf hx' hfits
          rcases mem_append.mp hx with hx | hx
          · exact mem_append_left _ (h.kept x hx hwf hx' hfits)
          · obtain rfl := mem_singleton.mp hx
            simp
        case overflow => exact hoverflow
        case before =>
          intro x hx
          rcases mem_append.mp hx with hx | hx
          · exact hbefore' x hx
          · obtain rfl := mem_singleton.mp hx
            exact Nat.lt_add_right m hplace
        case order => exact order_append h.order hbefore _
      next hne =>
        constructor
        case unread => exact hunread
        case taken => exact htaken
        case kept =>
          intro x hx hwf hx' hfits
          rcases mem_append.mp hx with hx | hx
          · exact h.kept x hx hwf hx' hfits
          · obtain rfl := mem_singleton.mp hx
            exact absurd (hlength.symm.trans hwf.length) hne
        case overflow => exact hoverflow
        case before => exact hbefore'
        case order => exact h.order

theorem Client.inv_step {l : ClientLabel} (h : s.Inv stream) (hstep : s.step l = some t) :
    t.Inv stream := by
  cases l with
  | read stack header body =>
    simp only [Client.step] at hstep
    split at hstep
    next hok =>
      obtain ⟨-, hinside, -, hheader⟩ := hok
      cases header with
      | wouldBlock =>
        obtain rfl := some.inj hstep
        exact h
      | bytes n =>
        obtain ⟨hle, hn, -⟩ := hheader
        have hadvance := h.advance n
        have hbytes : s.stream.take n = slice stream s.offset n := by rw [h.unread, slice]
        have hlength : (slice stream s.offset n).length = n := by
          rw [← hbytes, length_take, Nat.min_eq_left hn]
        simp only at hstep
        split at hstep
        next heq =>
          split at hstep
          next hbody =>
            obtain rfl := some.inj hstep
            subst heq
            rw [hbytes]
            exact hadvance.readBody stack rfl h.before hlength hbody (by simpa using hinside)
          next => cases hstep
        next hne =>
          split at hstep
          next =>
            obtain rfl := some.inj hstep
            exact h
          next hzero =>
            obtain rfl := some.inj hstep
            apply hadvance.check ?_ h.before
            · exact Nat.lt_of_le_of_ne hle hne
            · exact Nat.lt_add_of_pos_right (Nat.pos_of_ne_zero hzero)
    next => cases hstep
  | hangup =>
    simp only [Client.step] at hstep
    split at hstep
    next =>
      obtain rfl := some.inj hstep
      exact ⟨h.unread, h.taken, h.kept, h.overflow, h.before, h.order⟩
    next => cases hstep

theorem Client.framed_iff (hwf : ∀ f ∈ frames, WellFormed f) (h : s.Inv frames.flatten) :
    s.Framed frames ↔ s.Whole frames := by
  constructor
  · intro hframed
    constructor
    · intro x hx
      by_contra hlt
      have := h.overflow.mpr ⟨x, hx, Nat.lt_of_not_le hlt⟩
      simp [hframed.inside] at this
    · intro x hx
      exact h.taken x (hframed.inOrder.subset hx) (mem_due hwf hx).1.header
  · rintro ⟨hfit, hwhole⟩
    refine ⟨?_, keys_nodup h.order, ?_⟩
    · apply sublist_of_keys (due_pairwise hwf) h.order
      intro x hx
      obtain ⟨hframe, hlimit, hslice⟩ := mem_due hwf hx
      have hsize : sizeofQcqmiHdr + (x.2.length - sizeofQcqmiHdr) = x.2.length :=
        Nat.add_sub_cancel' hframe.header
      have hkept := h.kept _ (hwhole x hx)
      simp only [hsize, hslice] at hkept
      exact hkept hframe trivial hlimit
    · by_contra hoverflow
      obtain ⟨x, hx, hlt⟩ := h.overflow.mp (by simpa using hoverflow)
      exact absurd hlt (Nat.not_lt.mpr (hfit x hx))

theorem Length_lt (buf : List UInt8) : Length buf < 65536 := by
  have hlow := UInt8.toNat_lt (buf.getD 1 0)
  have hhigh := UInt8.toNat_lt (buf.getD 2 0)
  unfold Length
  omega

theorem bodyCount_le {buf : List UInt8} (hlow : 5 ≤ Length buf) (hhigh : Length buf ≤ 511) :
    sizeofQcqmiHdr + bodyCount buf ≤ clientBufSize := by
  simp only [bodyCount, sizeofQcqmiHdr, clientBufSize, UInt64.size]
  omega

theorem lt_bodyCount {buf : List UInt8} (h : ¬(5 ≤ Length buf ∧ Length buf ≤ 511)) :
    clientBufSize < sizeofQcqmiHdr + bodyCount buf := by
  have hlt := Length_lt buf
  simp only [bodyCount, sizeofQcqmiHdr, clientBufSize, UInt64.size]
  omega

theorem Client.step_header {stack : List UInt8} {body : Read} (hconnected : s.connected = true)
    (hinside : s.overflow = false) (hstack : stack.length = clientBufSize)
    (hheader : (s.stream.take sizeofQcqmiHdr).length = sizeofQcqmiHdr) :
    s.step (.read stack (.bytes sizeofQcqmiHdr) body) =
      if body.Allowed (bodyCount (write stack 0 (s.stream.take sizeofQcqmiHdr)))
          (s.stream.drop sizeofQcqmiHdr) then
        some (Client.readBody { s with
            stream := s.stream.drop sizeofQcqmiHdr
            offset := s.offset + sizeofQcqmiHdr }
          s.offset (write stack 0 (s.stream.take sizeofQcqmiHdr)) body)
      else none := by
  have hallowed : (Read.bytes sizeofQcqmiHdr).Allowed sizeofQcqmiHdr s.stream := by
    rw [length_take] at hheader
    refine ⟨Nat.le_refl _, by omega, fun hzero => absurd hzero (by decide)⟩
  simp only [Client.step]
  rw [if_pos ⟨hconnected, by simp [hinside], hstack, hallowed⟩, if_pos trivial]

theorem Client.inside_iff {header : List UInt8} (hheader : header.length = sizeofQcqmiHdr) :
    (∀ (s : Client) (stack : List UInt8) (body : Read) (t : Client),
        s.stream.take sizeofQcqmiHdr = header →
        s.step (.read stack (.bytes sizeofQcqmiHdr) body) = some t → t.overflow = false) ↔
      5 ≤ Length header ∧ Length header ≤ 511 := by
  have hthree : 3 ≤ header.length := hheader ▸ by decide
  constructor
  · intro hall
    by_contra hlength
    have hcount := lt_bodyCount hlength
    let stack : List UInt8 := replicate clientBufSize 0
    let s : Client := Client.init (header ++ replicate clientBufSize 0)
    have htake : s.stream.take sizeofQcqmiHdr = header := by
      show (header ++ _).take sizeofQcqmiHdr = header
      rw [← hheader]
      exact take_left
    have hdrop : s.stream.drop sizeofQcqmiHdr = replicate clientBufSize 0 := by
      show (header ++ _).drop sizeofQcqmiHdr = _
      rw [← hheader]
      exact drop_left
    have hsame : bodyCount (write stack 0 header) = bodyCount header := by
      simp only [bodyCount, Length_write hthree]
    have hstep : s.step (.read stack (.bytes sizeofQcqmiHdr) (.bytes (clientBufSize - 5))) = _ :=
      Client.step_header rfl rfl length_replicate (by rw [htake, hheader])
    have hallowed : (Read.bytes (clientBufSize - 5)).Allowed (bodyCount (write stack 0 header))
        (replicate clientBufSize 0) := by
      rw [hsame]
      refine ⟨?_, ?_, fun hzero => absurd hzero (by decide)⟩
      · simp only [clientBufSize, sizeofQcqmiHdr] at hcount ⊢
        omega
      · simp only [length_replicate]
        exact Nat.sub_le _ _
    rw [htake, hdrop, if_pos hallowed] at hstep
    have := hall s stack _ _ htake hstep
    cases this
  · rintro ⟨hlow, hhigh⟩ s stack body t htake hstep
    simp only [Client.step] at hstep
    split at hstep
    next hok =>
      obtain ⟨-, hinside, -⟩ := hok
      rw [if_pos trivial] at hstep
      split at hstep
      next hbody =>
        obtain rfl := some.inj hstep
        cases body with
        | wouldBlock =>
          simp only [Client.readBody, Client.check]
          split <;> simpa using hinside
        | bytes m =>
          have hcount : m ≤ bodyCount header := by
            have hle := hbody.1
            rw [htake] at hle
            simpa only [bodyCount, Length_write hthree] using hle
          have hfit := bodyCount_le hlow hhigh
          have hle : ¬clientBufSize < sizeofQcqmiHdr + m := by omega
          simp only [Client.readBody, if_neg hle, Client.check]
          split <;> simpa using hinside
      next => cases hstep
    next => cases hstep

end Client

/-- The frames that reach the other end are those that the kernel does not cut at other places. -/
theorem framing (frames : List (List UInt8)) (hwf : ∀ f ∈ frames, WellFormed f) :
    (∀ (qmiBuf : List UInt8) (s : Proxy), Reachable Proxy.step (Proxy.init frames qmiBuf) s →
        (s.Framed frames ↔ s.Whole frames)) ∧
      (∀ s : Client, Reachable Client.step (Client.init frames.flatten) s →
        (s.Framed frames ↔ s.Whole frames)) ∧
      ∀ header : List UInt8, header.length = sizeofQcqmiHdr →
        ((∀ (s : Client) (stack : List UInt8) (body : Read) (t : Client),
            s.stream.take sizeofQcqmiHdr = header →
            s.step (.read stack (.bytes sizeofQcqmiHdr) body) = some t → t.overflow = false) ↔
          5 ≤ Length header ∧ Length header ≤ 511) := by
  refine ⟨?_, ?_, fun header hheader => Client.inside_iff hheader⟩
  · intro qmiBuf s hs
    have hinv : s.Inv frames.flatten :=
      hs.invariant (Proxy.inv_init frames qmiBuf) fun _ _ _ h _ hstep => Proxy.inv_step h hstep
    exact Proxy.framed_iff hwf hinv
  · intro s hs
    have hinv : s.Inv frames.flatten :=
      hs.invariant (Client.inv_init frames.flatten) fun _ _ _ h _ hstep => Client.inv_step h hstep
    exact Client.framed_iff hwf hinv

def twoFrames : List (List UInt8) := [[1, 7, 0, 0, 1, 1, 9, 9], [1, 5, 0, 0, 1, 1]]

theorem twoFrames_wellFormed : ∀ f ∈ twoFrames, WellFormed f := by
  intro f hf
  simp only [twoFrames, mem_cons, not_mem_nil, or_false] at hf
  rcases hf with rfl | rfl
  · exact ⟨by decide, by decide⟩
  · exact ⟨by decide, by decide⟩

/-- Every message is one read at the proxy. -/
def oneByOne : List ProxyLabel := [.read (.bytes 8), .other [7, 7], .read (.bytes 6)]

def headerAndRest : List ClientLabel :=
  [.read (replicate clientBufSize 7) .wouldBlock .wouldBlock,
    .read (replicate clientBufSize 7) (.bytes 6) (.bytes 2),
    .read (replicate clientBufSize 7) (.bytes 6) (.bytes 0)]

theorem framing_twoFrames :
    ((∃ s, Reachable Proxy.step (Proxy.init twoFrames (replicate proxyBufSize 0)) s ∧
        s.sent = placed 0 twoFrames ∧ (s.Framed twoFrames ↔ s.Whole twoFrames)) ∧
      ∃ s, Reachable Client.step (Client.init twoFrames.flatten) s ∧
        s.received = placed 0 twoFrames ∧ (s.Framed twoFrames ↔ s.Whole twoFrames)) ∧
      ((∀ (s : Client) (stack : List UInt8) (body : Read) (t : Client),
          s.stream.take sizeofQcqmiHdr = [1, 7, 0, 0, 1, 1] →
          s.step (.read stack (.bytes sizeofQcqmiHdr) body) = some t → t.overflow = false) ↔
        5 ≤ Length [1, 7, 0, 0, 1, 1] ∧ Length [1, 7, 0, 0, 1, 1] ≤ 511) := by
  obtain ⟨hproxy, hclient, hinside⟩ := framing twoFrames twoFrames_wellFormed
  refine ⟨⟨?_, ?_⟩, hinside _ rfl⟩
  · have hrun : (run (guarded Proxy.step fun _ _ => True)
        (Proxy.init twoFrames (replicate proxyBufSize 0)) oneByOne).any
        (fun s => decide (s.sent = placed 0 twoFrames)) = true := by
      decide
    obtain ⟨s, hs, hlast⟩ := exists_of_run oneByOne hrun
    exact ⟨s, hs, hlast, hproxy _ s hs⟩
  · have hrun : (run (guarded Client.step fun _ _ => True)
        (Client.init twoFrames.flatten) headerAndRest).any
        (fun s => decide (s.received = placed 0 twoFrames)) = true := by
      decide +kernel
    obtain ⟨s, hs, hlast⟩ := exists_of_run headerAndRest hrun
    exact ⟨s, hs, hlast, hclient s hs⟩

def longFrame : List UInt8 := [1, 87, 2, 0, 1, 1] ++ replicate 594 0

/-- Two messages that are one read are lost, and so is one whose rest comes later; a long one goes
past the buffer of the client. -/
theorem not_framing :
    (∃ s, Reachable Proxy.step (Proxy.init twoFrames (replicate proxyBufSize 0)) s ∧
        s.stream = [] ∧ ¬s.Framed twoFrames) ∧
      (∃ s, Reachable Client.step (Client.init twoFrames.flatten) s ∧ s.stream = [] ∧
        ¬s.Framed twoFrames) ∧
      ∃ s, Reachable Client.step (Client.init longFrame) s ∧ s.overflow = true := by
  refine ⟨?_, ?_, ?_⟩
  · have hrun : (run (guarded Proxy.step fun _ _ => True)
        (Proxy.init twoFrames (replicate proxyBufSize 0)) [.read (.bytes 14)]).any
        (fun s => decide (s.stream = [] ∧ ¬(due twoFrames proxyBufSize s.offset s.connected).Sublist
          s.sent)) = true := by
      decide
    obtain ⟨s, hs, hread, hlost⟩ := exists_of_run _ hrun
    exact ⟨s, hs, hread, fun hframed => hlost hframed.inOrder⟩
  · have hrun : (run (guarded Client.step fun _ _ => True) (Client.init twoFrames.flatten)
        [.read (replicate clientBufSize 0) (.bytes 6) .wouldBlock,
          .read (replicate clientBufSize 0) (.bytes 6) .wouldBlock,
          .read (replicate clientBufSize 0) (.bytes 2) .wouldBlock]).any
        (fun s => decide (s.stream = [] ∧
          ¬(due twoFrames clientBufSize s.offset s.connected).Sublist s.received)) = true := by
      decide +kernel
    obtain ⟨s, hs, hread, hlost⟩ := exists_of_run _ hrun
    exact ⟨s, hs, hread, fun hframed => hlost hframed.inOrder⟩
  · have hrun : (run (guarded Client.step fun _ _ => True) (Client.init longFrame)
        [.read (replicate clientBufSize 0) (.bytes 6) (.bytes 594)]).any
        (fun s => decide (s.overflow = true)) = true := by
      decide +kernel
    obtain ⟨s, hs, hover⟩ := exists_of_run _ hrun
    exact ⟨s, hs, hover⟩

end ModemSupport.Cm.QmiStream
