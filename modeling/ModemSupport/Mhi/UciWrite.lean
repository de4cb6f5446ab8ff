import ModemSupport.Lib.Heap
import ModemSupport.Mhi.Chan

/-! `mhi_uci_write` (`mhi_uci.c`): the bytes of a user buffer go to the device in elements of at
most `mtu` bytes, a round of the loop for each.  What the rounds find is given from outside. -/

namespace ModemSupport.Mhi.UciWrite

open List

open Lib (Heap)

inductive WriteErrno where
  | einval
  | erestartsys
  | eagain
  | enomem
  | queue (e : Errno)

inductive Flags where
  | chain
  | eot

/-- What a round finds: the free descriptors, whether a signal ends the wait and `enabled` is gone
behind it, the free descriptors that the wait has seen, the outcome of `kmalloc`, the bytes that
`copy_from_user` cannot copy, and `enabled` and the outcome of `mhi_queue_transfer` under the
lock. -/
structure Round where
  free : Nat
  signal : Bool
  disabled : Bool
  nrAvail : Nat
  kmalloc : Bool
  left : Nat
  enabled : Bool
  transfer : Option Errno

/-- A call, with the bytes at `buf`, or `none` for a null pointer. -/
structure Call where
  buf : Option (List UInt8)
  mtu : Nat
  rxError : Nat
  enabled : Bool
  nonblock : Bool
  rounds : Nat → Round

/-- An element that has been queued. -/
structure Elem where
  kbuf : Nat
  data : List UInt8
  flags : Flags

/-- The heap, what the call has queued, and its `buf` with the `count` bytes that are left and its
`bytes_xfered`. -/
structure State where
  heap : Heap
  queued : List Elem
  buf : List UInt8
  bytesXfered : Nat

def Call.round (c : Call) (r : Round) (s : State) : Option (Except WriteErrno Nat) × State :=
  if r.free = 0 ∧ c.nonblock then (some (.error .eagain), s)
  else if r.signal ∨ r.disabled then (some (.error .erestartsys), s)
  else if r.kmalloc = false then (some (.error .enomem), s)
  else
    let xferSize := min s.buf.length c.mtu
    let kbuf := s.heap.next
    let s := { s with heap := s.heap.alloc }
    let freed := { s with heap := s.heap.free kbuf }
    let ret := min r.left xferSize
    if ret ≠ 0 then (some (.ok ret), freed)
    else
      let flags := if 1 < r.nrAvail ∧ s.buf.length - xferSize ≠ 0 then .chain else .eot
      if r.enabled = false then (some (.error .erestartsys), freed)
      else
        match r.transfer with
        | some e => (some (.error (.queue e)), freed)
        | none =>
          (none, { s with
            queued := s.queued ++ [⟨kbuf, s.buf.take xferSize, flags⟩]
            bytesXfered := s.bytesXfered + xferSize
            buf := s.buf.drop xferSize })

/-- The loop, or `none` when it is not over after `fuel` rounds. -/
def Call.loop (c : Call) : (fuel : Nat) → (i : Nat) → State → Option (Except WriteErrno Nat × State)
  | 0, _, s => if s.buf.length = 0 then some (.ok s.bytesXfered, s) else none
  | fuel + 1, i, s =>
    if s.buf.length = 0 then some (.ok s.bytesXfered, s)
    else
      match c.round (c.rounds i) s with
      | (some ret, s) => some (ret, s)
      | (none, s) => c.loop fuel (i + 1) s

def mhiUciWrite (c : Call) (h : Heap) (fuel : Nat) : Option (Except WriteErrno Nat × State) :=
  match c.buf with
  | none => some (.error .einval, ⟨h, [], [], 0⟩)
  | some buf =>
    let s : State := ⟨h, [], buf, 0⟩
    if buf.length = 0 ∨ c.rxError ≠ 0 then some (.error .einval, s)
    else if c.enabled = false then some (.error .erestartsys, s)
    else c.loop fuel 0 s

def bytes (queued : List Elem) : List UInt8 := (queued.map Elem.data).flatten

/-- What `mhi_uci_write` returns is what it has queued: the first `r` bytes of the buffer in
elements of at most `mtu` bytes when it returns `r`, and nothing when it returns an error.  A
buffer that it has allocated is queued or freed, and the last element that it has queued ends the
packet. -/
structure Faithful (c : Call) (buf : List UInt8) (h : Heap) (x : Except WriteErrno Nat × State) :
    Prop where
  ok : ∀ r, x.1 = .ok r → bytes x.2.queued = buf.take r ∧ (bytes x.2.queued).length = r
  mtu : ∀ e ∈ x.2.queued, e.data.length ≤ c.mtu
  error : ∀ e, x.1 = .error e → x.2.queued = []
  live : x.2.heap.live = h.live ++ x.2.queued.map Elem.kbuf
  wild : x.2.heap.wild = h.wild
  eot : ∀ e ∈ x.2.queued.getLast?, e.flags = .eot

variable {c : Call} {r : Round} {s : State} {buf : List UInt8} {h : Heap} {i : Nat}

def Call.Copies (c : Call) (r : Round) : Prop :=
  ¬(r.free = 0 ∧ c.nonblock) ∧ ¬(r.signal ∨ r.disabled) ∧ r.kmalloc = true

/-- The bytes that `copy_from_user` leaves in round `i`. -/
def Call.left (c : Call) (buf : List UInt8) (i : Nat) : Nat :=
  min (c.rounds i).left (min (buf.length - i * c.mtu) c.mtu)

def Call.Queues (c : Call) (buf : List UInt8) (i : Nat) : Prop :=
  c.Copies (c.rounds i) ∧ c.left buf i = 0 ∧ (c.rounds i).enabled = true ∧
    (c.rounds i).transfer = none

def Call.Faults (c : Call) (buf : List UInt8) (i : Nat) : Prop :=
  c.Copies (c.rounds i) ∧ c.left buf i ≠ 0

/-- The calls that are reported as they went: those that are refused, those all of whose rounds
queue their bytes, those whose first round fails, but not in the copy, and those whose first element
ends the packet and whose second round cannot copy as many bytes as that element has. -/
def Call.Meets (c : Call) : Prop :=
  ∀ buf ∈ c.buf, buf.length = 0 ∨ c.rxError ≠ 0 ∨ c.enabled = false ∨
    (∀ i, i * c.mtu < buf.length → c.Queues buf i) ∨
    (¬c.Queues buf 0 ∧ ¬c.Faults buf 0) ∨
    (c.Queues buf 0 ∧ (c.rounds 0).nrAvail ≤ 1 ∧ c.Faults buf 1 ∧ c.left buf 1 = c.mtu)

/-- What has been queued when round `i` begins. -/
structure Inv (c : Call) (buf : List UInt8) (h : Heap) (i : Nat) (s : State) : Prop where
  rest : s.buf = buf.drop (i * c.mtu)
  data : bytes s.queued = buf.take (i * c.mtu)
  bytesXfered : s.bytesXfered = (bytes s.queued).length
  mtu : ∀ e ∈ s.queued, e.data.length ≤ c.mtu
  length : s.queued.length = i
  live : s.heap.live = h.live ++ s.queued.map Elem.kbuf
  wild : s.heap.wild = h.wild
  before : ∀ j < i, j * c.mtu < buf.length ∧ c.Queues buf j
  flags : ∀ e ∈ s.queued.getLast?, e.flags = .eot ↔ (c.rounds (i - 1)).nrAvail ≤ 1 ∨ s.buf = []

theorem Inv.start (c : Call) (buf : List UInt8) (h : Heap) : Inv c buf h 0 ⟨h, [], buf, 0⟩ where
  rest := by rw [Nat.zero_mul, drop_zero]
  data := by rw [Nat.zero_mul, take_zero]; rfl
  bytesXfered := rfl
  mtu e he := absurd he not_mem_nil
  length := rfl
  live := (append_nil _).symm
  wild := rfl
  before j hj := absurd hj (Nat.not_lt_zero j)
  flags e he := by cases he

theorem Inv.length_buf (hinv : Inv c buf h i s) : s.buf.length = buf.length - i * c.mtu := by
  rw [hinv.rest, length_drop]

theorem Inv.left_eq (hinv : Inv c buf h i s) :
    min (c.rounds i).left (min s.buf.length c.mtu) = c.left buf i := by
  rw [hinv.length_buf]
  rfl

theorem take_min_length {α : Type} (xs : List α) (n : Nat) :
    xs.take (min xs.length n) = xs.take n := by
  rw [Nat.min_comm, ← take_eq_take_min]

theorem drop_min_length {α : Type} (xs : List α) (n : Nat) :
    xs.drop (min xs.length n) = xs.drop n := by
  rcases Nat.le_total xs.length n with hle | hle
  · rw [Nat.min_eq_left hle, drop_length, drop_eq_nil_of_le hle]
  · rw [Nat.min_eq_right hle]

theorem bytes_append (queued : List Elem) (e : Elem) :
    bytes (queued ++ [e]) = bytes queued ++ e.data := by
  rw [bytes, map_append, flatten_append, map_singleton, flatten_singleton]
  rfl

theorem round_queues (hinv : Inv c buf h i s) (hne : s.buf.length ≠ 0) (hq : c.Queues buf i) :
    ∃ s', c.round (c.rounds i) s = (none, s') ∧ Inv c buf h (i + 1) s' := by
  obtain ⟨⟨hfree, hwait, hkmalloc⟩, hleft, henabled, htransfer⟩ := hq
  have hmul : (i + 1) * c.mtu = i * c.mtu + c.mtu := Nat.succ_mul i c.mtu
  have hlen := hinv.length_buf
  unfold Call.round
  dsimp only
  rw [if_neg hfree, if_neg hwait, if_neg (by rw [hkmalloc]; exact Bool.true_eq_false_eq_False),
    hinv.left_eq, hleft, if_neg (not_not.mpr rfl),
    if_neg (by rw [henabled]; exact Bool.true_eq_false_eq_False), htransfer, take_min_length,
    drop_min_length]
  refine ⟨_, rfl, ?_, ?_, ?_, ?_, ?_, ?_, hinv.wild, ?_, ?_⟩
  · show s.buf.drop c.mtu = _
    rw [hinv.rest, drop_drop, hmul]
  · show bytes (s.queued ++ [_]) = _
    rw [bytes_append, hinv.data, hinv.rest, hmul, take_add]
  · show s.bytesXfered + _ = (bytes (s.queued ++ [_])).length
    rw [bytes_append, length_append, ← hinv.bytesXfered, length_take, Nat.min_comm]
  · intro e he
    rcases mem_append.mp he with hold | hnew
    · exact hinv.mtu e hold
    · cases mem_singleton.mp hnew
      exact length_take_le _ _
  · show (s.queued ++ [_]).length = i + 1
    rw [length_append, hinv.length, length_singleton]
  · show s.heap.live ++ [s.heap.next] = h.live ++ (s.queued ++ [_]).map Elem.kbuf
    rw [hinv.live, map_append, append_assoc]
    rfl
  · intro j hj
    rcases Nat.lt_or_eq_of_le (Nat.le_of_lt_succ hj) with hlt | rfl
    · exact hinv.before j hlt
    · exact ⟨by omega, ⟨hfree, hwait, hkmalloc⟩, hleft, henabled, htransfer⟩
  · intro e he
    have hlast : e = ⟨s.heap.next, s.buf.take c.mtu,
        if 1 < (c.rounds i).nrAvail ∧ s.buf.length - min s.buf.length c.mtu ≠ 0 then .chain
        else .eot⟩ := by
      have he' : (s.queued ++ [_]).getLast? = some e := he
      rw [getLast?_append_of_ne_nil _ (cons_ne_nil _ _)] at he'
      exact (Option.some.inj he').symm
    have hdrop : s.buf.drop c.mtu = [] ↔ s.buf.length - min s.buf.length c.mtu = 0 := by
      rw [drop_eq_nil_iff]
      omega
    show e.flags = .eot ↔ (c.rounds (i + 1 - 1)).nrAvail ≤ 1 ∨ s.buf.drop c.mtu = []
    rw [hlast, hdrop, Nat.add_sub_cancel]
    split
    · simp only [reduceCtorEq, false_iff]
      omega
    · simp only [true_iff]
      omega

theorem round_stops (hinv : Inv c buf h i s) (hq : ¬c.Queues buf i) :
    ∃ ret s', c.round (c.rounds i) s = (some ret, s') ∧ s'.queued = s.queued ∧
      s'.heap.live = s.heap.live ∧ s'.heap.wild = s.heap.wild ∧
      (c.Faults buf i ∧ ret = .ok (c.left buf i) ∨
        ¬c.Faults buf i ∧ ∃ e, ret = .error e) := by
  obtain ⟨hfree, hwild⟩ := Heap.free_live s.heap.live [] s.heap.alloc_live
  rw [append_nil] at hfree
  unfold Call.round
  dsimp only
  rw [hinv.left_eq]
  split
  next hnone => exact ⟨_, _, rfl, rfl, rfl, rfl, .inr ⟨fun hf => hf.1.1 hnone, _, rfl⟩⟩
  next hsome =>
  split
  next hwait => exact ⟨_, _, rfl, rfl, rfl, rfl, .inr ⟨fun hf => hf.1.2.1 hwait, _, rfl⟩⟩
  next hwait =>
  split
  next hkmalloc =>
    refine ⟨_, _, rfl, rfl, rfl, rfl, .inr ⟨fun hf => ?_, _, rfl⟩⟩
    rw [hf.1.2.2] at hkmalloc
    exact absurd hkmalloc Bool.noConfusion
  next hkmalloc =>
  have hcopies : c.Copies (c.rounds i) := ⟨hsome, hwait, Bool.not_eq_false _ ▸ hkmalloc⟩
  split
  next hleft => exact ⟨_, _, rfl, rfl, hfree, hwild, .inl ⟨⟨hcopies, hleft⟩, rfl⟩⟩
  next hleft =>
  split
  next => exact ⟨_, _, rfl, rfl, hfree, hwild, .inr ⟨fun hf => hleft hf.2, _, rfl⟩⟩
  next henabled =>
  cases htransfer : (c.rounds i).transfer with
  | some e => exact ⟨_, _, rfl, rfl, hfree, hwild, .inr ⟨fun hf => hleft hf.2, _, rfl⟩⟩
  | none =>
    exact absurd ⟨hcopies, not_not.mp hleft, Bool.not_eq_false _ ▸ henabled, htransfer⟩ hq

/-- How the loop has ended: before round `n`, with all bytes queued, or in that round. -/
structure Ended (c : Call) (buf : List UInt8) (h : Heap) (n : Nat) (s : State)
    (x : Except WriteErrno Nat × State) : Prop where
  inv : Inv c buf h n s
  queued : x.2.queued = s.queued
  live : x.2.heap.live = s.heap.live
  wild : x.2.heap.wild = s.heap.wild
  ret : s.buf.length = 0 ∧ x.1 = .ok s.bytesXfered ∨
    s.buf.length ≠ 0 ∧ ¬c.Queues buf n ∧
      (c.Faults buf n ∧ x.1 = .ok (c.left buf n) ∨ ¬c.Faults buf n ∧ ∃ e, x.1 = .error e)

theorem loop_ended {fuel : Nat} {x : Except WriteErrno Nat × State} (hinv : Inv c buf h i s)
    (hx : c.loop fuel i s = some x) : ∃ n s', Ended c buf h n s' x := by
  induction fuel generalizing i s with
  | zero =>
    rw [Call.loop] at hx
    split at hx
    next hnil => cases hx; exact ⟨i, s, hinv, rfl, rfl, rfl, .inl ⟨hnil, rfl⟩⟩
    next => cases hx
  | succ fuel ih =>
    rw [Call.loop] at hx
    split at hx
    next hnil => cases hx; exact ⟨i, s, hinv, rfl, rfl, rfl, .inl ⟨hnil, rfl⟩⟩
    next hne =>
    by_cases hq : c.Queues buf i
    · obtain ⟨s', hround, hinv'⟩ := round_queues hinv hne hq
      rw [hround] at hx
      exact ih hinv' hx
    · obtain ⟨ret, s', hround, hqueued, hlive, hwild, hret⟩ := round_stops hinv hq
      rw [hround] at hx
      cases hx
      exact ⟨i, s, hinv, hqueued, hlive, hwild, .inr ⟨hne, hq, hret⟩⟩

variable {n : Nat} {x : Except WriteErrno Nat × State}

theorem Ended.faithful_iff (hend : Ended c buf h n s x) :
    Faithful c buf h x ↔
      (∀ r, x.1 = .ok r → bytes s.queued = buf.take r ∧ (bytes s.queued).length = r) ∧
        (∀ e, x.1 = .error e → s.queued = []) ∧ ∀ e ∈ s.queued.getLast?, e.flags = .eot := by
  have hinv := hend.inv
  constructor
  · intro hf
    rw [← hend.queued]
    exact ⟨hf.ok, hf.error, hf.eot⟩
  · intro ⟨hok, herror, heot⟩
    rw [← hend.queued] at hok herror heot
    refine ⟨hok, ?_, herror, ?_, hend.wild.trans hinv.wild, heot⟩
    · rw [hend.queued]
      exact hinv.mtu
    · rw [hend.live, hend.queued, hinv.live]

theorem Ended.faithful_of_all (hend : Ended c buf h n s x) (hnil : s.buf.length = 0)
    (hx : x.1 = .ok s.bytesXfered) : Faithful c buf h x := by
  have hinv := hend.inv
  have hle : buf.length ≤ n * c.mtu := by
    have hlen := hinv.length_buf
    omega
  have hdata : bytes s.queued = buf := by rw [hinv.data, take_of_length_le hle]
  rw [hend.faithful_iff, hx]
  refine ⟨?_, ?_, ?_⟩
  · intro r hr
    cases hr
    rw [hinv.bytesXfered, hdata, List.take_length]
    exact ⟨rfl, rfl⟩
  · intro e he
    cases he
  · intro e he
    exact (hinv.flags e he).mpr (.inr (length_eq_zero_iff.mp hnil))

theorem Ended.faithful_iff_first (hend : Ended c buf h 0 s x)
    (hret : c.Faults buf 0 ∧ x.1 = .ok (c.left buf 0) ∨ ¬c.Faults buf 0 ∧ ∃ e, x.1 = .error e) :
    Faithful c buf h x ↔ ¬c.Faults buf 0 := by
  have hnil : s.queued = [] := length_eq_zero_iff.mp hend.inv.length
  rw [hend.faithful_iff, hnil]
  rcases hret with ⟨hfault, hx⟩ | ⟨hnot, e, hx⟩
  · rw [hx]
    refine iff_of_false (fun ⟨hok, _⟩ => ?_) (not_not.mpr hfault)
    exact hfault.2 (hok _ rfl).2.symm
  · rw [hx]
    refine iff_of_true ⟨?_, fun _ _ => rfl, ?_⟩ hnot
    · intro r hr
      cases hr
    · intro e he
      cases he

/-- A call that ends in a later round is reported as it went when that is the second, and the bytes
that could not be copied are as many as those of the first element, which ends the packet. -/
theorem Ended.faithful_iff_later (hend : Ended c buf h (n + 1) s x) (hne : s.buf.length ≠ 0)
    (hret : c.Faults buf (n + 1) ∧ x.1 = .ok (c.left buf (n + 1)) ∨
      ¬c.Faults buf (n + 1) ∧ ∃ e, x.1 = .error e) :
    Faithful c buf h x ↔
      n = 0 ∧ (c.rounds 0).nrAvail ≤ 1 ∧ c.Faults buf 1 ∧ c.left buf 1 = c.mtu := by
  have hinv := hend.inv
  have hlen := hinv.length_buf
  have hqueued : (bytes s.queued).length = (n + 1) * c.mtu := by
    rw [hinv.data, length_take]
    omega
  have hcons : s.queued ≠ [] := fun hnil => by
    have hlength := hinv.length
    rw [hnil] at hlength
    cases hlength
  rw [hend.faithful_iff]
  rcases hret with ⟨hfault, hx⟩ | ⟨hnot, e, hx⟩
  · have hle : c.left buf (n + 1) ≤ c.mtu := by
      unfold Call.left
      omega
    have hpos := hfault.2
    rw [hx]
    constructor
    · intro ⟨hok, _, heot⟩
      have hleft := (hok _ rfl).2
      rw [hqueued, Nat.succ_mul] at hleft
      have hn : n = 0 := by
        rcases Nat.mul_eq_zero.mp (show n * c.mtu = 0 by omega) with hn | hmtu
        · exact hn
        · omega
      subst hn
      rw [Nat.zero_add] at hleft hfault
      have hflags := (hinv.flags _ (getLast?_eq_some_getLast hcons)).mp
        (heot _ (getLast?_eq_some_getLast hcons))
      refine ⟨rfl, hflags.resolve_right fun hnil => hne ?_, hfault, by omega⟩
      rw [hnil, length_nil]
    · rintro ⟨rfl, havail, -, hleft⟩
      rw [Nat.zero_add, Nat.one_mul] at hqueued
      have hr : c.left buf (0 + 1) = c.mtu := hleft
      rw [hr]
      refine ⟨fun r hr => ?_, fun e he => ?_, fun e he => (hinv.flags e he).mpr (.inl havail)⟩
      · cases hr
        refine ⟨?_, hqueued⟩
        rw [hinv.data, Nat.zero_add, Nat.one_mul]
      · cases he
  · rw [hx]
    refine iff_of_false (fun ⟨_, herror, _⟩ => hcons (herror e rfl)) ?_
    rintro ⟨rfl, _, hfault, _⟩
    exact hnot hfault

theorem faithful_refused (e : WriteErrno) (rest : List UInt8) :
    Faithful c buf h (.error e, ⟨h, [], rest, 0⟩) where
  ok r hr := by cases hr
  mtu e he := absurd he not_mem_nil
  error _ _ := rfl
  live := (append_nil _).symm
  wild := rfl
  eot e he := by cases he

theorem Ended.faithful_iff_meets (hend : Ended c buf h n s x) :
    Faithful c buf h x ↔ (∀ i, i * c.mtu < buf.length → c.Queues buf i) ∨
      (¬c.Queues buf 0 ∧ ¬c.Faults buf 0) ∨
      (c.Queues buf 0 ∧ (c.rounds 0).nrAvail ≤ 1 ∧ c.Faults buf 1 ∧ c.left buf 1 = c.mtu) := by
  have hinv := hend.inv
  have hlen := hinv.length_buf
  rcases hend.ret with ⟨hnil, hx⟩ | ⟨hne, hq, hret⟩
  · refine iff_of_true (hend.faithful_of_all hnil hx) (.inl fun i hi => ?_)
    have hlt : i < n := by
      by_contra hge
      have hmul := Nat.mul_le_mul_right c.mtu (Nat.le_of_not_lt hge)
      omega
    exact (hinv.before i hlt).2
  · have hall : ¬∀ i, i * c.mtu < buf.length → c.Queues buf i := fun hall =>
      hq (hall n (by omega))
    cases n with
    | zero =>
      rw [hend.faithful_iff_first hret]
      constructor
      · intro hfault
        exact .inr (.inl ⟨hq, hfault⟩)
      · rintro (hqueues | ⟨-, hfault⟩ | ⟨hqueues, -⟩)
        · exact absurd hqueues hall
        · exact hfault
        · exact absurd hqueues hq
    | succ n =>
      have hfirst := (hinv.before 0 (Nat.succ_pos n)).2
      rw [hend.faithful_iff_later hne hret]
      constructor
      · rintro ⟨-, hcoincides⟩
        exact .inr (.inr ⟨hfirst, hcoincides⟩)
      · rintro (hqueues | ⟨hqueues, -⟩ | ⟨-, havail, hfault, hleft⟩)
        · exact absurd hqueues hall
        · exact absurd hfirst hqueues
        · refine ⟨?_, havail, hfault, hleft⟩
          -- a second round that queues leaves nothing uncopied
          by_contra hn
          exact hfault.2 (hinv.before 1 (by omega)).2.2.1

/-- The report of `mhi_uci_write` is what it has queued exactly for the calls that `Meets` names. -/
theorem mhiUciWrite_faithful_iff (c : Call) (h : Heap) (fuel : Nat)
    (x : Except WriteErrno Nat × State) (hx : mhiUciWrite c h fuel = some x) :
    Faithful c (c.buf.getD []) h x ↔ c.Meets := by
  unfold mhiUciWrite at hx
  unfold Call.Meets
  cases hbuf : c.buf with
  | none =>
    rw [hbuf] at hx
    cases hx
    exact iff_of_true (faithful_refused _ _) fun buf hbuf => by cases hbuf
  | some buf =>
    rw [hbuf] at hx
    dsimp only at hx
    rw [Option.getD_some]
    simp only [Option.mem_some_iff, forall_eq']
    split at hx
    next hrefused =>
      cases hx
      exact iff_of_true (faithful_refused _ _) (hrefused.imp_right .inl)
    next hok =>
    split at hx
    next hdisabled =>
      cases hx
      exact iff_of_true (faithful_refused _ _) (.inr (.inr (.inl hdisabled)))
    next henabled =>
      obtain ⟨n, s, hend⟩ := loop_ended (.start c buf h) hx
      rw [not_or] at hok
      rw [hend.faithful_iff_meets, or_iff_right hok.1, or_iff_right hok.2, or_iff_right henabled]

def goodRound : Round := ⟨4, false, false, 4, true, 0, true, none⟩

def threeBytes (rounds : Nat → Round) : Call := ⟨some [1, 2, 3], 2, 0, true, false, rounds⟩

theorem threeBytes_faithful :
    ∃ x, mhiUciWrite (threeBytes fun _ => goodRound) .empty 2 = some x ∧
      Faithful (threeBytes fun _ => goodRound) [1, 2, 3] .empty x := by
  refine ⟨_, rfl, (mhiUciWrite_faithful_iff _ _ 2 _ rfl).mpr ?_⟩
  intro buf _
  refine .inr (.inr (.inr (.inl fun i _ => ⟨?_, Nat.zero_min _, rfl, rfl⟩)))
  simp [Call.Copies, threeBytes, goodRound]

/-- Without memory for the second round the call returns an error, and the first element stays
queued, chained to what a later write queues. -/
theorem not_faithful :
    ¬∀ (c : Call) (h : Heap) (fuel : Nat) (x : Except WriteErrno Nat × State),
      mhiUciWrite c h fuel = some x → Faithful c (c.buf.getD []) h x := by
  intro hall
  have hf := hall (threeBytes fun i => { goodRound with kmalloc := i = 0 }) .empty 2 _ rfl
  exact absurd (hf.error _ rfl) (cons_ne_nil _ _)

end ModemSupport.Mhi.UciWrite
