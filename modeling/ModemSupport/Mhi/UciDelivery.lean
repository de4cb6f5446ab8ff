import ModemSupport.Mhi.EventSafety
import ModemSupport.Mhi.Uci

/-! What a UCI device delivers: as long as no element completes without a byte, the buffer in every
slot is its own and the reads return what the device wrote.  A completion without a byte gives no
buffer back, and the ring is one short from then on. -/

namespace ModemSupport.Mhi.Uci

open ModemSupport.Lib Event List Option

section

variable {c : Config} {ch : EvChan} {rd wr : Nat}

structure Queued (c : Config) (ch : EvChan) (rd wr : Nat) : Prop where
  rings : Event.RingsAt c.chan ch rd rd wr
  rsc : ch.rsc = false
  slots : ∀ x, rd ≤ x → x < wr →
    (ch.infos (x % c.chan.elements)).cbBuf = c.page (x % c.chan.elements)

theorem Config.elements_pos (c : Config) : 0 < c.chan.elements := by
  have := c.chan.two_le
  omega

theorem Queued.queueTransfer (h : Queued c ch rd wr) (hroom : wr + 1 < rd + c.chan.elements) :
    ∃ ch', queueTransfer ch (c.page (wr % c.chan.elements)) = (none, ch') ∧
      Queued c ch' rd (wr + 1) := by
  have hfull : ch.treRing.isRingFull = false := by
    rw [Bool.eq_false_iff, ne_eq, h.rings.tre.isRingFull_iff h.rings.rd_le h.rings.wr_lt]
    omega
  refine ⟨_, by rw [Uci.queueTransfer, if_neg (by simp [hfull])], ?_⟩
  rw [Event.enqueue, if_neg (by simp [hfull])]
  exact
  { rings :=
    { h.rings with
      tre := h.rings.tre.add
      buf := h.rings.buf.add
      rd_le := Nat.le_succ_of_le h.rings.rd_le
      wr_lt := hroom }
    rsc := h.rsc
    slots := by
      intro x hx hlt
      dsimp only
      rw [h.rings.buf.index_wp]
      rcases Nat.lt_succ_iff_lt_or_eq.mp hlt with hlt | rfl
      · have hne : x % c.chan.elements ≠ wr % c.chan.elements :=
          Ring.mod_ne_of_lt hlt (by omega)
        rw [Function.update_of_ne hne]
        exact h.slots x hx hlt
      · rw [Function.update_self] }

theorem Queued.del (h : Queued c ch rd wr) (hlt : rd < wr) :
    Queued c { ch with
      treRing := ch.treRing.delRingElement, bufRing := ch.bufRing.delRingElement } (rd + 1) wr where
  rings :=
    { h.rings with
      tre := h.rings.tre.del
      buf := h.rings.buf.del
      rd_le := hlt
      wr_lt := by
        have := h.rings.wr_lt
        omega
      inStep := fun _ => rfl }
  rsc := h.rsc
  slots x hx := h.slots x (Nat.le_of_succ_le hx)

theorem Queued.queueAll (k : Nat) (h : Queued c ch rd wr) (hwr : wr + k < rd + c.chan.elements)
    (hin : wr + k ≤ c.chan.elements) :
    ∃ ch', queueAll ((List.range' wr k).map c.page) ch = (none, ch') ∧
      Queued c ch' rd (wr + k) := by
  induction k generalizing ch wr with
  | zero => exact ⟨ch, rfl, h⟩
  | succ k ih =>
    obtain ⟨ch₁, hfirst, h₁⟩ := h.queueTransfer (by omega)
    rw [Nat.mod_eq_of_lt (by omega)] at hfirst
    obtain ⟨ch₂, hrest, h₂⟩ := ih h₁ (by omega) (by omega)
    refine ⟨ch₂, ?_, by rwa [Nat.add_right_comm, Nat.add_assoc] at h₂⟩
    rw [List.range'_succ, map_cons, Uci.queueAll, hfirst]
    exact hrest

end

def pages (n a k : Nat) : List Buf := (List.range' a k).map fun x => .page (x % n)

theorem pages_concat (n a k : Nat) : pages n a (k + 1) = pages n a k ++ [.page ((a + k) % n)] := by
  rw [pages, List.range'_1_concat, map_append]
  rfl

theorem pages_succ (n a k : Nat) : pages n a (k + 1) = .page (a % n) :: pages n (a + 1) k := by
  rw [pages, List.range'_succ]
  rfl

theorem mem_pages {n a k : Nat} {b : Buf} :
    b ∈ pages n a k ↔ ∃ x, a ≤ x ∧ x < a + k ∧ b = .page (x % n) := by
  simp only [pages, List.mem_map, mem_range'_1, and_assoc, eq_comm]

/-- The buffers that are pending or being read, the oldest first. -/
def State.held (s : State) : List Buf := s.curBuf.toList ++ s.pending

def State.bufBytes (s : State) (b : Buf) : List UInt8 := (s.bufData b).take (s.bufLen b)

def State.heldBytes (s : State) : List UInt8 :=
  (s.curBuf.toList.flatMap fun b => (s.bufBytes b).drop (s.bufLen b - s.rxSize)) ++
    s.pending.flatMap s.bufBytes

def State.callbackBytes (s : State) : List UInt8 :=
  s.callback.toList.flatMap fun x => (s.bufData (.page x.1)).take x.2

def Reader.bytes : Reader → List UInt8
  | .finished _ bytes => bytes
  | _ => []

def ReaderOk (s : State) : Prop :=
  match s.reader with
  | .copying _ buf => s.curBuf = some buf
  | .finished buf _ => s.curBuf = some buf ∧ s.rxSize = 0
  | _ => True

/-- The first `given` buffers are given back, and the others of those taken off the ring are held,
the last one by the callback.  The channels that recycle in the callback hold copies. -/
def Held (c : Config) (s : State) (rd given : Nat) : Prop :=
  if c.recycles then given + s.callback.toList.length = rd ∧ ∀ i, .page i ∉ s.held
  else
    given + s.held.length + s.callback.toList.length = rd ∧
      s.held = pages c.chan.elements given s.held.length

/-- `rd` elements are completed, and `given` buffers given back. -/
structure Inv (c : Config) (s : State) (rd given : Nat) : Prop where
  queued : Queued c s.chan rd (given + (c.chan.elements - 1))
  data : ∀ i, (s.uciBuf i).data = c.page i
  index : ∀ i, (s.uciBuf i).nrTrb = i
  nrTrb : s.nrTrb = rd % c.chan.elements
  nrTrbs : s.nrTrbs = c.chan.elements
  rxError : s.rxError = 0
  refCount : 1 < s.refCount
  held : Held c s rd given
  callback : ∀ x ∈ s.callback, ∃ y, y + 1 = rd ∧ x.1 = y % c.chan.elements
  reader : ReaderOk s
  rxSize : ∀ b ∈ s.curBuf, s.rxSize ≤ s.bufLen b
  stream : s.returned ++ (s.reader.bytes ++ (s.heldBytes ++ s.callbackBytes)) = s.payloads

variable {c : Config} {s t : State} {rd given : Nat}

theorem Held.number (h : Held c s rd given) :
    given + s.callback.toList.length + (if c.recycles then 0 else s.held.length) = rd := by
  unfold Held at h
  split at h
  next hkind => simpa [hkind] using h.1
  next hkind =>
    have := h.1
    simp only [if_neg hkind]
    omega

theorem Held.of_mem (h : Held c s rd given) {i : Nat} (hi : .page i ∈ s.held) :
    ∃ x, given ≤ x ∧ x + s.callback.toList.length < rd ∧ i = x % c.chan.elements := by
  unfold Held at h
  split at h
  · exact absurd hi (h.2 i)
  · obtain ⟨hnum, heq⟩ := h
    rw [heq, mem_pages] at hi
    obtain ⟨x, hx, hlt, hpage⟩ := hi
    exact ⟨x, hx, by omega, Buf.page.inj hpage⟩

theorem Inv.given_le (h : Inv c s rd given) : given + s.callback.toList.length ≤ rd := by
  have := h.held.number
  omega

theorem heldBytes_congr (hcur : t.curBuf = s.curBuf) (hpending : t.pending = s.pending)
    (hrx : t.rxSize = s.rxSize) (hlen : ∀ b ∈ s.held, t.bufLen b = s.bufLen b)
    (hdata : ∀ b ∈ s.held, t.bufData b = s.bufData b) : t.heldBytes = s.heldBytes := by
  have hbytes : ∀ b ∈ s.held, t.bufBytes b = s.bufBytes b := by
    intro b hb
    rw [State.bufBytes, hlen b hb, hdata b hb, State.bufBytes]
  unfold State.heldBytes
  rw [hcur, hpending, hrx]
  congr 1
  · refine flatMap_congr fun b hb => ?_
    have hmem : b ∈ s.held := mem_append_left _ hb
    rw [hbytes b hmem, hlen b hmem]
  · exact flatMap_congr fun b hb => hbytes b (mem_append_right _ hb)

theorem Inv.apart (h : Inv c s rd given) {i x : Nat} (hi : .page i ∈ s.held) (hx : rd ≤ x)
    (hlt : x < given + c.chan.elements) : i ≠ x % c.chan.elements := by
  obtain ⟨y, hy, hyrd, rfl⟩ := h.held.of_mem hi
  exact Ring.mod_ne_of_lt (by omega) (by omega)

theorem Inv.outstanding_eq (h : Inv c s rd given) :
    s.chan.treRing.outstanding = given + (c.chan.elements - 1) - rd :=
  h.queued.rings.tre.outstanding_eq h.queued.rings.rd_le h.queued.rings.wr_lt

theorem Inv.delivers (h : Inv c s rd given) : Delivers c s where
  slots k hk := by
    obtain ⟨x, hx, hlt, rfl⟩ := h.queued.rings.outstanding_iff.mp hk
    rw [h.queued.slots x hx hlt, h.data]
  rxError := h.rxError
  apart := by
    intro k hk i hi heq
    obtain ⟨x, hx, hlt, rfl⟩ := h.queued.rings.outstanding_iff.mp hk
    rw [h.queued.slots x hx hlt, h.data] at heq
    have hpage : .page i ∉ s.held := by
      intro hmem
      refine h.apart hmem hx (by omega) ?_
      exact c.page_inj i hi _ (Nat.mod_lt _ c.elements_pos) heq.symm
    constructor
    · exact fun hmem => hpage (mem_append_right _ hmem)
    · intro hcur
      exact hpage (mem_append_left _ (by simp [hcur]))
  number := by
    have hnum := h.held.number
    have hle := h.queued.rings.rd_le
    rw [State.held, length_append] at hnum
    rw [h.outstanding_eq]
    omega
  stream := ⟨_, h.stream⟩

theorem succ_mod {n : Nat} (hn : 0 < n) (x : Nat) :
    (if x % n + 1 = n then 0 else x % n + 1) = (x + 1) % n := by
  have hlt := Nat.mod_lt x hn
  rw [← Nat.mod_add_mod x n 1]
  split
  next heq => rw [heq, Nat.mod_self]
  next hne => exact (Nat.mod_eq_of_lt (by omega)).symm

theorem before_mod {n : Nat} (hn : 0 < n) (hs : s.nrTrbs = n) (x : Nat) :
    s.before (x % n) = (x + (n - 1)) % n := by
  have hlt := Nat.mod_lt x hn
  rw [State.before, hs, ← Nat.mod_add_mod x n (n - 1)]
  split
  next hne =>
    rw [show x % n + (n - 1) = x % n - 1 + n by omega, Nat.add_mod_right]
    exact (Nat.mod_eq_of_lt (by omega)).symm
  next heq =>
    rw [not_not.mp heq, Nat.zero_add]
    exact (Nat.mod_eq_of_lt (by omega)).symm

theorem Inv.giveBack (h : Inv c s rd given) (hlt : given < rd) {t : State}
    (hdata : ∀ i, (t.uciBuf i).data = (s.uciBuf i).data) (htrbs : t.nrTrbs = s.nrTrbs) :
    ∃ ch, queueTransfer s.chan (t.uciBuf (t.before (given % c.chan.elements))).data = (none, ch) ∧
      Queued c ch rd (given + 1 + (c.chan.elements - 1)) := by
  have hroom : given + (c.chan.elements - 1) + 1 < rd + c.chan.elements := by
    have := c.elements_pos
    omega
  obtain ⟨ch, hqueue, hqueued⟩ := h.queued.queueTransfer hroom
  refine ⟨ch, ?_, by rwa [Nat.add_right_comm] at hqueued⟩
  rw [hdata, h.data, before_mod c.elements_pos (htrbs.trans h.nrTrbs), hqueue]

theorem Inv.complete_eq (h : Inv c s rd given) (hlt : rd < given + (c.chan.elements - 1))
    (code : UInt32) {payload : List UInt8} (hlen : payload.length ≤ c.mtu) :
    complete c s code payload =
      { s with
        chan := { s.chan with
          treRing := s.chan.treRing.delRingElement, bufRing := s.chan.bufRing.delRingElement }
        mem := Function.update s.mem (c.page (rd % c.chan.elements))
          (payload ++ (s.mem (c.page (rd % c.chan.elements))).drop payload.length)
        payloads := s.payloads ++ payload
        nrTrb := (rd + 1) % c.chan.elements
        callback :=
          if payload = [] then s.callback else some (rd % c.chan.elements, payload.length) } := by
  have hmtu := c.mtu_le
  have hslot := h.queued.slots rd (le_refl _) hlt
  have hbytes : payload.length % 2 ^ 16 = payload.length := Nat.mod_eq_of_lt (by omega)
  have hstatus : (if code = evCcOverflow then some Errno.eoverflow else none) ≠ some .enotconn := by
    split <;> simp
  unfold complete dlXferCb
  dsimp only
  rw [h.queued.rings.tre.index_rp, h.queued.rings.buf.index_rp, hslot, hbytes, h.nrTrb,
    if_neg (by simp [h.index, h.data]), if_neg hstatus, h.nrTrbs, succ_mod c.elements_pos]
  rcases eq_or_ne payload [] with rfl | hne
  · rw [if_pos (by simp), if_pos rfl]
  · have hpos := length_pos_iff.mpr hne
    rw [if_neg (by omega), if_neg hne]

theorem Inv.mem_of_held (h : Inv c s rd given) (hlt : rd < given + (c.chan.elements - 1))
    (bytes : List UInt8) {i : Nat} (hi : .page i ∈ s.held) :
    Function.update s.mem (c.page (rd % c.chan.elements)) bytes (s.uciBuf i).data =
      s.mem (s.uciBuf i).data := by
  obtain ⟨x, _, _, hx⟩ := h.held.of_mem hi
  refine Function.update_of_ne (fun heq => ?_) _ _
  rw [h.data] at heq
  refine h.apart hi (le_refl _) (by omega) (c.page_inj i ?_ _ (Nat.mod_lt _ c.elements_pos) heq)
  rw [hx]
  exact Nat.mod_lt _ c.elements_pos

theorem Inv.complete (h : Inv c s rd given) (hcb : s.callback = none)
    (hlt : rd < given + (c.chan.elements - 1)) (code : UInt32) {payload : List UInt8}
    (hlen : payload.length ≤ c.mtu) (hne : payload ≠ []) :
    Inv c (complete c s code payload) (rd + 1) given := by
  have heq := h.complete_eq hlt code hlen
  rw [if_neg hne] at heq
  generalize Uci.complete c s code payload = t at heq ⊢
  have hbytes : t.heldBytes = s.heldBytes := by
    subst heq
    refine heldBytes_congr rfl rfl rfl (fun _ _ => rfl) fun b hb => ?_
    cases b with
    | page i => exact h.mem_of_held hlt _ hb
    | tmp data => rfl
  have hpayload : t.callbackBytes = payload := by
    subst heq
    simp [State.callbackBytes, State.bufData, h.data]
  have hstream := h.stream
  have hnone : s.callbackBytes = [] := by simp [State.callbackBytes, hcb]
  rw [hnone, append_nil] at hstream
  subst heq
  exact
  { h with
    queued := h.queued.del hlt
    nrTrb := rfl
    held := by
      have hold := h.held
      simp only [Held, hcb, toList_none, toList_some, length_nil,
        length_singleton, Nat.add_zero] at hold ⊢
      split at hold
      next hkind =>
        rw [if_pos hkind]
        exact ⟨by omega, hold.2⟩
      next hkind =>
        rw [if_neg hkind]
        refine ⟨?_, hold.2⟩
        have := hold.1
        change given + s.held.length + 1 = rd + 1
        omega
    callback := by
      rintro _ ⟨⟩
      exact ⟨rd, rfl, rfl⟩
    stream := by
      rw [hbytes, hpayload]
      change s.returned ++ (s.reader.bytes ++ (s.heldBytes ++ payload)) = s.payloads ++ payload
      simp only [← hstream, append_assoc] }

theorem Inv.complete_nil (h : Inv c s rd given) (hcb : s.callback = none)
    (hlt : rd < given + (c.chan.elements - 1)) (code : UInt32) :
    ¬Delivers c (Uci.complete c s code []) := by
  intro hdel
  have hnumber := hdel.number
  have hheld := h.held.number
  rw [h.complete_eq hlt code (Nat.zero_le _), if_pos rfl] at hnumber
  have hout := (h.queued.del hlt).rings.tre.outstanding_eq hlt (by
    have := h.given_le
    omega)
  rw [State.held, length_append, hcb] at hheld
  simp only [hout, hcb, toList_none, length_nil] at hnumber hheld
  omega

def State.setLen (s : State) (i len : Nat) : State :=
  { s with uciBuf := Function.update s.uciBuf i { s.uciBuf i with len := len }, callback := none }

@[simp] theorem setLen_data (s : State) (i len j : Nat) :
    ((s.setLen i len).uciBuf j).data = (s.uciBuf j).data := by
  rcases eq_or_ne j i with rfl | hne
  · simp [State.setLen]
  · simp [State.setLen, hne]

@[simp] theorem setLen_nrTrb (s : State) (i len j : Nat) :
    ((s.setLen i len).uciBuf j).nrTrb = (s.uciBuf j).nrTrb := by
  rcases eq_or_ne j i with rfl | hne
  · simp [State.setLen]
  · simp [State.setLen, hne]

theorem setLen_bufLen (s : State) {i : Nat} (len : Nat) {b : Buf} (hb : b ≠ .page i) :
    (s.setLen i len).bufLen b = s.bufLen b := by
  cases b with
  | page j =>
    have hne : j ≠ i := fun heq => hb (congrArg Buf.page heq)
    simp [State.setLen, State.bufLen, hne]
  | tmp data => rfl

theorem setLen_bufData (s : State) (i len : Nat) (b : Buf) :
    (s.setLen i len).bufData b = s.bufData b := by
  cases b with
  | page j => exact congrArg s.mem (setLen_data s i len j)
  | tmp data => rfl

theorem Inv.callback_eq (h : Inv c s rd given) {x : Nat × Nat} (hcb : s.callback = some x) :
    ∃ ch b given', dlXferCbLocked c s x.1 x.2 =
        { s.setLen x.1 x.2 with chan := ch, pending := s.pending ++ [b] } ∧
      Queued c ch rd (given' + (c.chan.elements - 1)) ∧
      (s.setLen x.1 x.2).bufBytes b = s.callbackBytes ∧
      if c.recycles then given' = rd ∧ ∀ i, .page i ∉ s.held ++ [b]
      else
        given' + (s.held.length + 1) = rd ∧
          s.held ++ [b] = pages c.chan.elements given' (s.held.length + 1) := by
  obtain ⟨y, hy, hx⟩ := h.callback x hcb
  have hold := h.held
  simp only [Held, hcb, toList_some, length_singleton] at hold
  unfold dlXferCbLocked
  dsimp only
  split
  next hkind =>
    rw [if_pos hkind] at hold
    obtain ⟨ch, hqueue, hqueued⟩ := h.giveBack (t := s.setLen x.1 x.2) (by omega)
      (setLen_data s x.1 x.2) rfl
    have hindex : given % c.chan.elements = (s.uciBuf x.1).nrTrb := by
      rw [h.index, hx]
      congr 1
      omega
    rw [hindex] at hqueue
    refine ⟨ch, .tmp ((s.mem (s.uciBuf x.1).data).take x.2), given + 1, ?_, hqueued, ?_, hold.1,
      fun i hi => ?_⟩
    · rw [if_neg h.refCount.ne']
      exact congrArg (fun queued : Option Errno × EvChan => { s.setLen x.1 x.2 with
        chan := queued.2
        pending := s.pending ++ [Buf.tmp ((s.mem (s.uciBuf x.1).data).take x.2)] }) hqueue
    · simp [State.bufBytes, State.bufLen, State.bufData, State.callbackBytes, hcb]
    · rcases mem_append.mp hi with hi | hi
      · exact hold.2 i hi
      · simp at hi
  next hkind =>
    rw [if_neg hkind] at hold
    refine ⟨s.chan, .page x.1, given, rfl, h.queued, ?_, by omega, ?_⟩
    · rw [State.bufBytes, setLen_bufData]
      simp [State.setLen, State.bufLen, State.callbackBytes, hcb]
    · rw [pages_concat, ← hold.2, hx]
      congr 4
      omega

theorem Inv.callbackStep (h : Inv c s rd given) {x : Nat × Nat} (hcb : s.callback = some x) :
    ∃ given', Inv c (dlXferCbLocked c s x.1 x.2) rd given' := by
  obtain ⟨y, hy, hx⟩ := h.callback x hcb
  obtain ⟨ch, b, given', heq, hqueued, hbytes, hheld⟩ := h.callback_eq hcb
  have hne : ∀ b ∈ s.held, b ≠ .page x.1 := by
    rintro _ hmem rfl
    obtain ⟨z, hz, hlt, hzx⟩ := h.held.of_mem hmem
    have hwr := h.queued.rings.rd_le
    simp only [hcb, toList_some, length_singleton] at hlt
    exact Ring.mod_ne_of_lt (x := z) (y := y) (n := c.chan.elements) (by omega) (by omega)
      (hzx.symm.trans hx)
  have hsame : (s.setLen x.1 x.2).heldBytes = s.heldBytes :=
    heldBytes_congr rfl rfl rfl (fun b hb => setLen_bufLen s x.2 (hne b hb))
      fun b _ => setLen_bufData s x.1 x.2 b
  have hstream := h.stream
  rw [heq]
  refine ⟨given', ?_⟩
  exact
  { h with
    queued := hqueued
    data := fun j => (setLen_data s x.1 x.2 j).trans (h.data j)
    index := fun j => (setLen_nrTrb s x.1 x.2 j).trans (h.index j)
    held := by
      have hlist : State.held { s.setLen x.1 x.2 with
          chan := ch, pending := s.pending ++ [b] } = s.held ++ [b] :=
        (append_assoc ..).symm
      rw [Held, hlist, length_append]
      exact hheld
    callback := by
      rintro _ ⟨⟩
    rxSize := by
      intro b hb
      have hmem : b ∈ s.held := mem_append_left _ (mem_toList.mpr hb)
      exact (h.rxSize b hb).trans_eq (setLen_bufLen s x.2 (hne b hmem)).symm
    stream := by
      have hconcat : State.heldBytes { s.setLen x.1 x.2 with
          chan := ch, pending := s.pending ++ [b] } = s.heldBytes ++ s.callbackBytes := by
        rw [← hsame, ← hbytes]
        simp only [State.heldBytes, flatMap_append, flatMap_singleton, append_assoc]
        rfl
      rw [hconcat]
      change s.returned ++ (s.reader.bytes ++ (s.heldBytes ++ s.callbackBytes ++ [])) = s.payloads
      rw [append_nil, hstream] }

theorem Inv.ret (h : Inv c s rd given) {r : Except ReadErrno (List UInt8)}
    (hr : State.returned { s with reads := [r] } = s.reader.bytes) : Inv c (s.ret r) rd given where
  __ := h
  reader := trivial
  stream := by
    have hstream := h.stream
    have hreturned : (s.ret r).returned = s.returned ++ s.reader.bytes := by
      rw [← hr]
      simp [State.returned, State.ret]
    change (s.ret r).returned ++ ([] ++ (s.heldBytes ++ s.callbackBytes)) = s.payloads
    rw [hreturned, append_assoc, nil_append, hstream]

theorem Inv.setReader (h : Inv c s rd given) {r : Reader}
    (hr : ReaderOk { s with reader := r }) (hbytes : r.bytes = s.reader.bytes) :
    Inv c { s with reader := r } rd given where
  __ := h
  reader := hr
  stream := by
    change s.returned ++ (r.bytes ++ (s.heldBytes ++ s.callbackBytes)) = s.payloads
    rw [hbytes, h.stream]

theorem Inv.takeBuf (h : Inv c s rd given) (hbytes : s.reader.bytes = []) (count : Nat) :
    Inv c (takeBuf s count) rd given := by
  unfold Uci.takeBuf
  split
  next buf hcur => exact h.setReader hcur hbytes.symm
  next => exact h.ret hbytes.symm
  next buf pending hcur hpending =>
    have hlist : State.held { s with pending := pending, curBuf := some buf } = s.held := by
      simp [State.held, hcur, hpending]
    have hheld : State.heldBytes { s with
        pending := pending, curBuf := some buf, rxSize := s.bufLen buf } = s.heldBytes := by
      have hdrop : (s.bufBytes buf).drop (s.bufLen buf - s.bufLen buf) = s.bufBytes buf := by
        rw [Nat.sub_self, drop_zero]
      simp only [State.heldBytes, hcur, hpending, toList_some, toList_none,
        flatMap_nil, nil_append, flatMap_cons, append_nil]
      exact congrArg (· ++ _) hdrop
    exact
    { h with
      held := by
        have hold := h.held
        unfold Held at hold ⊢
        rw [← hlist] at hold
        exact hold
      reader := rfl
      rxSize := by
        rintro _ ⟨⟩
        exact le_refl _
      stream := by
        have hstream := h.stream
        rw [hbytes] at hstream
        change s.returned ++ ([] ++ (State.heldBytes { s with
          pending := pending, curBuf := some buf, rxSize := s.bufLen buf } ++ s.callbackBytes)) = _
        rw [hheld, hstream] }

theorem Inv.readTake (h : Inv c s rd given) (hbytes : s.reader.bytes = []) (count : Nat)
    (nonblock : Bool) : Inv c (readTake s count nonblock) rd given := by
  unfold Uci.readTake
  split
  · split
    · exact h.ret hbytes.symm
    · exact h.setReader trivial hbytes.symm
  · exact h.takeBuf hbytes count

theorem copy_append (data : List UInt8) {len rx n : Nat} (hn : n ≤ rx) (hrx : rx ≤ len) :
    (data.drop (len - rx)).take n ++ (data.take len).drop (len - (rx - n)) =
      (data.take len).drop (len - rx) := by
  rw [drop_take, drop_take, show len - (rx - n) = len - rx + n by omega,
    show len - (len - rx) = n + (len - (len - rx + n)) by omega, take_add, drop_drop]

theorem Inv.readCopy (h : Inv c s rd given) {count : Nat} {buf : Buf}
    (hreader : s.reader = .copying count buf) : Inv c (readCopy s count buf) rd given := by
  have hok := h.reader
  rw [ReaderOk, hreader] at hok
  have hcur : s.curBuf = some buf := hok
  have hrx := h.rxSize buf hcur
  have hstream := h.stream
  rw [hreader] at hstream
  have hbytes : (((s.bufData buf).drop (s.bufLen buf - s.rxSize)).take (min count s.rxSize)) ++
      State.heldBytes { s with rxSize := s.rxSize - min count s.rxSize } = s.heldBytes := by
    simp only [State.heldBytes, hcur, toList_some, flatMap_singleton]
    rw [← append_assoc]
    exact congrArg (· ++ _) (copy_append _ (Nat.min_le_right _ _) hrx)
  have hle : ∀ b ∈ s.curBuf, s.rxSize - min count s.rxSize ≤ s.bufLen b :=
    fun b hb => (Nat.sub_le _ _).trans (h.rxSize b hb)
  unfold Uci.readCopy
  dsimp only
  split
  next hzero =>
    exact
    { h with
      reader := ⟨hcur, hzero⟩
      rxSize := hle
      stream := by
        rw [← hstream, ← hbytes, append_assoc]
        rfl }
  next =>
    exact
    { h with
      reader := trivial
      rxSize := hle
      stream := by
        rw [← hstream, ← hbytes]
        simp [State.returned, State.ret, Reader.bytes, State.heldBytes, State.callbackBytes]
        rfl }

theorem Inv.drop (h : Inv c s rd given) {buf : Buf} {bytes : List UInt8}
    (hreader : s.reader = .finished buf bytes) {ch : EvChan} {given' : Nat}
    (hqueued : Queued c ch rd (given' + (c.chan.elements - 1)))
    (hheld : Held c { s with curBuf := none } rd given') :
    Inv c (State.ret { s with curBuf := none, chan := ch } (.ok bytes)) rd given' := by
  have hok := h.reader
  rw [ReaderOk, hreader] at hok
  obtain ⟨hcur, hrx⟩ := hok
  have hstream := h.stream
  rw [hreader] at hstream
  have hbytes : State.heldBytes { s with curBuf := none } = s.heldBytes := by
    have hdrop : (s.bufBytes buf).drop (s.bufLen buf - 0) = [] :=
      drop_eq_nil_of_le (length_take_le _ _)
    simp only [State.heldBytes, hcur, hrx, toList_none, toList_some,
      flatMap_singleton, flatMap_nil, hdrop]
    rfl
  exact
  { h with
    queued := hqueued
    held := hheld
    reader := trivial
    rxSize := by
      rintro _ ⟨⟩
    stream := by
      have hreturned : State.returned (State.ret { s with curBuf := none, chan := ch }
          (.ok bytes)) = s.returned ++ bytes := by
        simp [State.returned, State.ret]
      change _ ++ ([] ++ (State.heldBytes { s with curBuf := none } ++ s.callbackBytes)) = _
      rw [hreturned, hbytes, append_assoc, nil_append]
      exact hstream }

theorem Inv.readFinish (h : Inv c s rd given) {buf : Buf} {bytes : List UInt8}
    (hreader : s.reader = .finished buf bytes) :
    ∃ given', Inv c (readFinish s buf bytes) rd given' := by
  have hok := h.reader
  rw [ReaderOk, hreader] at hok
  have hlist : s.held = buf :: s.pending := by simp [State.held, hok.1]
  have hheld := h.held
  unfold Held at hheld
  rw [hlist] at hheld
  unfold Uci.readFinish
  cases buf with
  | page i =>
    have hkind : ¬c.recycles = true := by
      intro hkind
      rw [if_pos hkind] at hheld
      exact hheld.2 i (mem_cons_self ..)
    rw [if_neg hkind, length_cons, pages_succ] at hheld
    obtain ⟨hnum, heq⟩ := hheld
    obtain ⟨hi, hpending⟩ := cons_eq_cons.mp heq
    obtain rfl := Buf.page.inj hi
    obtain ⟨ch, hqueue, hqueued⟩ := h.giveBack (t := { s with curBuf := none }) (by omega)
      (fun _ => rfl) rfl
    refine ⟨given + 1, ?_⟩
    dsimp only at hqueue ⊢
    rw [h.index, hqueue]
    refine h.drop hreader hqueued ?_
    rw [Held, if_neg hkind]
    refine ⟨?_, hpending⟩
    change given + 1 + s.pending.length + s.callback.toList.length = rd
    omega
  | tmp data =>
    have hkind : c.recycles = true := by
      by_contra hkind
      rw [if_neg hkind, length_cons, pages_succ] at hheld
      cases hheld.2
    rw [if_pos hkind] at hheld
    refine ⟨given, h.drop hreader h.queued ?_⟩
    rw [Held, if_pos hkind]
    exact ⟨hheld.1, fun i hi => hheld.2 i (mem_cons_of_mem _ hi)⟩

def HasBytes : Label → Prop
  | .complete _ payload => payload ≠ []
  | _ => True

theorem Inv.step (h : Inv c s rd given) {l : Label} (hl : HasBytes l)
    (hstep : step c s l = some t) : ∃ rd' given', Inv c t rd' given' := by
  cases l with
  | complete code payload =>
    obtain ⟨⟨hcb, hne, _, hlen⟩, heq⟩ := ite_none_right_eq_some.mp hstep
    obtain rfl := some.inj heq
    have hlt : rd < given + (c.chan.elements - 1) := by
      have hle := h.queued.rings.rd_le
      rw [ne_eq, h.queued.rings.tre.rp_eq_wp_iff hle h.queued.rings.wr_lt] at hne
      omega
    exact ⟨_, _, h.complete hcb hlt code hlen hl⟩
  | callback =>
    obtain ⟨x, hcb, rfl⟩ := map_eq_some_iff.mp hstep
    exact ⟨rd, h.callbackStep hcb⟩
  | openFile =>
    obtain rfl := some.inj hstep
    exact ⟨rd, given, { h with refCount := Nat.lt_succ_of_lt h.refCount }⟩
  | releaseFile =>
    obtain ⟨hcount, heq⟩ := ite_none_right_eq_some.mp hstep
    obtain rfl := some.inj heq
    refine ⟨rd, given, { h with refCount := ?_ }⟩
    change 1 < s.refCount - 1
    omega
  | readEnter count nonblock =>
    obtain ⟨hidle, heq⟩ := ite_none_right_eq_some.mp hstep
    obtain rfl := some.inj heq
    refine ⟨rd, given, ?_⟩
    rw [readEnter, if_neg (not_not.mpr h.rxError)]
    exact h.setReader trivial (by rw [hidle]; rfl)
  | read =>
    simp only [Uci.step] at hstep
    split at hstep
    next => cases hstep
    next count nonblock hreader =>
      obtain rfl := some.inj hstep
      exact ⟨rd, given, h.readTake (by rw [hreader]; rfl) count nonblock⟩
    next count hreader =>
      obtain ⟨_, heq⟩ := ite_none_right_eq_some.mp hstep
      obtain rfl := some.inj heq
      exact ⟨rd, given, h.setReader trivial (by rw [hreader]; rfl)⟩
    next count hreader =>
      obtain rfl := some.inj hstep
      exact ⟨rd, given, h.takeBuf (by rw [hreader]; rfl) count⟩
    next count buf hreader =>
      obtain rfl := some.inj hstep
      exact ⟨rd, given, h.readCopy hreader⟩
    next buf bytes hreader =>
      obtain rfl := some.inj hstep
      exact ⟨rd, h.readFinish hreader⟩
  | readSignal =>
    simp only [Uci.step] at hstep
    split at hstep
    next count hreader =>
      obtain rfl := some.inj hstep
      exact ⟨rd, given, h.ret (by rw [hreader]; rfl)⟩
    next => cases hstep

theorem Inv.hasBytes (h : Inv c s rd given) {l : Label} (hstep : Uci.step c s l = some t)
    (hdel : Delivers c t) : HasBytes l := by
  cases l with
  | complete code payload =>
    rintro rfl
    obtain ⟨⟨hcb, hne, _⟩, heq⟩ := ite_none_right_eq_some.mp hstep
    obtain rfl := some.inj heq
    have hle := h.queued.rings.rd_le
    rw [ne_eq, h.queued.rings.tre.rp_eq_wp_iff hle h.queued.rings.wr_lt] at hne
    exact h.complete_nil hcb (by omega) code hdel
  | _ => trivial

theorem startChan_queued (c : Config) : Queued c (startChan c) 0 0 where
  rings :=
    { tre := (chanInit_inv c.chan).rings.tre
      buf := (chanInit_inv c.chan).rings.buf
      base := rfl
      iommuBase := rfl
      elSize := rfl
      rd_le := le_refl _
      wr_lt := (chanInit_inv c.chan).rings.accepted_lt
      inStep := fun _ => rfl }
  rsc := rfl
  slots x _ hx := absurd hx (Nat.not_lt_zero x)

theorem init_inv (c : Config) : (queueInbound c (startChan c)).1 = none ∧ Inv c (init c) 0 0 := by
  have hel := c.elements_pos
  have hfree := (startChan_queued c).rings.tre.getNrAvailRingElements_eq (le_refl _) (by omega)
  have hnr : (startChan c).treRing.getNrAvailRingElements.toNat = c.chan.elements - 1 := by omega
  obtain ⟨ch, hqueue, hqueued⟩ := (startChan_queued c).queueAll (c.chan.elements - 1) (by omega)
    (by omega)
  rw [← List.range_eq_range'] at hqueue
  unfold init queueInbound
  dsimp only
  rw [hnr, hqueue]
  refine ⟨rfl, ?_⟩
  exact
  { queued := hqueued
    data := fun _ => rfl
    index := fun _ => rfl
    nrTrb := (Nat.zero_mod _).symm
    nrTrbs := by
      change c.chan.elements - 1 + 1 = c.chan.elements
      omega
    rxError := rfl
    refCount := Nat.lt_succ_self 1
    held := by
      unfold Held
      split
      · exact ⟨rfl, fun i hi => by cases hi⟩
      · exact ⟨rfl, rfl⟩
    callback := by
      rintro _ ⟨⟩
    reader := trivial
    rxSize := by
      rintro _ ⟨⟩
    stream := rfl }

/-- The device delivers what it receives, in every state of a run, if and only if every element that
completes in the run does so with at least one byte. -/
theorem delivers_iff (c : Config) (ls : List Label) :
    (∀ s ∈ Transition.statesOf (step c) (init c) ls, Delivers c s) ↔
      ∀ x ∈ Transition.stepsOf (step c) (init c) ls, HasBytes x.2 := by
  refine @Transition.forall_statesOf_iff_of State Label (step c) (fun _ l => HasBytes l) (init c)
    (fun s => ∃ rd given, Inv c s rd given) (Delivers c) ?_ ?_ ?_ ⟨0, 0, (init_inv c).2⟩ ls
  · rintro s ⟨rd, given, h⟩
    exact h.delivers
  · rintro s l t ⟨rd, given, h⟩ hstep hdel
    exact h.hasBytes hstep hdel
  · rintro s l t ⟨rd, given, h⟩ hl hstep
    exact h.step hl hstep

def dun : Config where
  chan := ⟨3, .fromDevice, false, 0, true, 0x8000, 0x1000, 0x2000, by decide, by decide, by decide,
    by decide⟩
  dlChanId := clientDunIn
  mtu := 0x1000
  page i := 0x10000 + i * 0x1000
  mem _ := []
  mtu_le := by decide
  page_inj := by
    intro i _ j _ heq
    omega

/-- An element completes without a byte, and the ring goes round once. -/
def emptyRun : List Label :=
  [.complete evCcEot [], .complete evCcEot [1], .callback, .complete evCcEot [2]]

/-- The callback that comes to the last slot finds another buffer in it. -/
theorem not_delivers_emptyRun :
    (∃ s ∈ Transition.statesOf (step dun) (init dun) emptyRun, s.rxError = 1) ∧
      ¬∀ s ∈ Transition.statesOf (step dun) (init dun) emptyRun, Delivers dun s := by
  have herror : ∃ s ∈ Transition.statesOf (step dun) (init dun) emptyRun, s.rxError = 1 := by
    decide
  refine ⟨herror, fun h => ?_⟩
  obtain ⟨s, hs, hone⟩ := herror
  have hzero := (h s hs).rxError
  omega

end ModemSupport.Mhi.Uci
