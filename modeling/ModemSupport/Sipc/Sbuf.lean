import ModemSupport.Lib.Ring
import ModemSupport.Lib.Transition
import ModemSupport.Sipc.Basic

/-! One direction of a byte-stream ring (`sbuf.c`): a writer in `sbuf_write` on one side, a reader
in `sbuf_read` on the other, and the `sbuf_thread` of each side, over a ring in remote shared
memory.  Every access to the shared pointers, to a poll mask or to the event queues is a step of
its own.  The locks `txlock` and `rxlock` leave at most one writer and one reader. -/

namespace ModemSupport.Sipc.Sbuf

open ModemSupport.Lib List Option

def store (buf : Nat → UInt8) (pos : Nat) (bytes : List UInt8) : Nat → UInt8 := fun j =>
  if pos ≤ j then bytes[j - pos]?.getD (buf j) else buf j

def fetch (buf : Nat → UInt8) (pos len : Nat) : List UInt8 :=
  (List.range len).map fun i => buf (pos + i)

/-- The copy of `sbuf_write`: the part past the end of the buffer goes to its start. -/
def copyIn (size : Nat) (buf : Nat → UInt8) (pos : Nat) (bytes : List UInt8) : Nat → UInt8 :=
  let tail := pos + bytes.length - size
  if 0 < tail then
    store (store buf pos (bytes.take (bytes.length - tail))) 0 (bytes.drop (bytes.length - tail))
  else store buf pos bytes

def copyOut (size : Nat) (buf : Nat → UInt8) (pos len : Nat) : List UInt8 :=
  let tail := pos + len - size
  if 0 < tail then fetch buf pos (len - tail) ++ fetch buf 0 tail else fetch buf pos len

section

variable {n : Nat} {buf : Nat → UInt8} {pos : Nat} {bytes : List UInt8}

/-- Where the copies put and find the byte `i`. -/
def place (n pos i : Nat) : Nat := if pos + i < n then pos + i else pos + i - n

theorem place_mod {p i : Nat} (hn : 0 < n) (hi : i ≤ n) : place n (p % n) i = (p + i) % n := by
  have hp := Nat.mod_lt p hn
  rw [← Nat.mod_add_mod p n i, place]
  split
  next h => exact (Nat.mod_eq_of_lt h).symm
  next h => rw [Nat.mod_eq_sub_mod (Nat.le_of_not_lt h), Nat.mod_eq_of_lt (a := _ - n) (by omega)]

theorem store_apply (j : Nat) :
    store buf pos bytes j = if pos ≤ j then bytes[j - pos]?.getD (buf j) else buf j := rfl

theorem copyIn_place (hpos : pos < n) (hlen : bytes.length ≤ n) {i : Nat} (hi : i < bytes.length) :
    copyIn n buf pos bytes (place n pos i) = bytes[i] := by
  unfold copyIn place
  by_cases htail : 0 < pos + bytes.length - n
  · simp only [htail, if_true, store_apply]
    by_cases hin : pos + i < n
    · simp [hin, List.getElem?_drop, List.getElem?_take]
      grind
    · simp only [hin, if_false]
      grind
  · simp only [htail, if_false, store_apply]
    grind

theorem copyIn_of_ne {j : Nat} (hj : ∀ i < bytes.length, place n pos i ≠ j)
    (hpos : pos < n) (hlen : bytes.length ≤ n) : copyIn n buf pos bytes j = buf j := by
  have hhead := hj (j - pos)
  have htail := hj (j + n - pos)
  unfold place at hhead htail
  unfold copyIn
  by_cases hround : 0 < pos + bytes.length - n
  · simp only [hround, if_true, store_apply]
    grind
  · simp only [hround, if_false, store_apply]
    grind

theorem copyOut_eq {len : Nat} (hpos : pos < n) :
    copyOut n buf pos len = (List.range len).map fun i => buf (place n pos i) := by
  unfold copyOut fetch
  by_cases hround : 0 < pos + len - n
  · simp only [hround, if_true]
    have hlen' : len = (len - (pos + len - n)) + (pos + len - n) := by omega
    conv_rhs => rw [hlen', range_add, map_append, List.map_map]
    congr 1
    · refine map_congr_left fun i hi => ?_
      have hi' := mem_range.mp hi
      rw [place, if_pos (by omega)]
    · refine map_congr_left fun i hi => ?_
      have hi' := mem_range.mp hi
      rw [Function.comp_apply, place, if_neg (by omega)]
      congr 1
      omega
  · simp only [hround, if_false]
    refine map_congr_left fun i hi => ?_
    have hi' := mem_range.mp hi
    rw [place, if_pos (by omega)]

end

/-- The locals of `sbuf_write`: the bytes from `u_buf.buf` on, and `left`. -/
structure WriteCall where
  buf : List UInt8
  left : Int
  timeout : Int
  deriving DecidableEq

inductive Writer where
  | idle
  | sampled (c : WriteCall) (noData : Bool)
  | waiting (c : WriteCall)
  | loop (c : WriteCall)
  | place (c : WriteCall)
  | copy (c : WriteCall) (txpos : UInt32) (txsize : Int)
  | advance (c : WriteCall) (txsize : Int)
  | test (c : WriteCall) (txsize : Int)
  | send (c : WriteCall) (txsize : Int)
  | mask
  | fault
  deriving DecidableEq

structure ReadCall where
  left : Int
  timeout : Int
  deriving DecidableEq

/-- Where the reader stands; `bytes` are those copied out and not yet freed in the ring. -/
inductive Reader where
  | idle
  | sampled (c : ReadCall) (noData : Bool)
  | waiting (c : ReadCall)
  | loop (c : ReadCall)
  | place (c : ReadCall)
  | copy (c : ReadCall) (rxpos : UInt32) (rxsize : Int)
  | advance (c : ReadCall) (rxsize : Int) (bytes : List UInt8)
  | test (c : ReadCall) (rxsize : Int)
  | send (c : ReadCall) (rxsize : Int)
  | mask
  | fault
  deriving DecidableEq

/-- A ring as `sbuf_create` makes it, of positive size. -/
structure Config where
  size : UInt32
  forceSend : Bool
  size_pos : 0 < size

/-- The shared memory, the poll mask of the ring on each side, the events in flight to each side,
and the bytes that the calls have accepted and returned so far. -/
structure State where
  buf : Nat → UInt8
  rdptr : UInt32
  wrptr : UInt32
  pollOut : Bool
  pollIn : Bool
  wrptrEvents : Nat
  rdptrEvents : Nat
  writer : Writer
  reader : Reader
  accepted : List UInt8
  returned : List UInt8

/-- The state that `sbuf_comm_init` leaves on both sides, over memory that holds `mem`. -/
def State.init (mem : Nat → UInt8) : State where
  buf := mem
  rdptr := 0
  wrptr := 0
  pollOut := true
  pollIn := false
  wrptrEvents := 0
  rdptrEvents := 0
  writer := .idle
  reader := .idle
  accepted := []
  returned := []

namespace WriteCall

/-- The call after `txsize` bytes: `left -= txsize; u_buf.buf += txsize`. -/
def rest (c : WriteCall) (txsize : Int) : WriteCall :=
  { c with buf := c.buf.drop txsize.toNat, left := c.left - txsize }

end WriteCall

/-- The call after `rxsize` bytes: `left -= rxsize`. -/
def ReadCall.rest (c : ReadCall) (rxsize : Int) : ReadCall := { c with left := c.left - rxsize }

/-- The next step of `sbuf_write`.  The comparisons of `(int)(wrptr - rdptr)` with the size are
unsigned, since the size is a `u32`. -/
def writerStep (c : Config) (s : State) : Option State :=
  match s.writer with
  | .idle => none
  | .sampled call noData =>
    some { s with
      pollOut := !noData
      writer := if noData then if call.timeout = 0 then .idle else .waiting call else .loop call }
  | .waiting call => if s.pollOut then some { s with writer := .loop call } else none
  | .loop call =>
    some { s with
      writer :=
        if call.left ≠ 0 ∧ s.wrptr - s.rdptr < c.size then .place call else .mask }
  | .place call =>
    let txpos := s.wrptr % c.size
    let txsize := min (int (c.size - (s.wrptr - s.rdptr))) call.left
    some { s with writer := .copy call txpos txsize }
  | .copy call txpos txsize =>
    if txsize < 0 then some { s with writer := .fault }
    else
      some { s with
        buf := copyIn c.size.toNat s.buf txpos.toNat (call.buf.take txsize.toNat)
        writer := .advance call txsize }
  | .advance call txsize =>
    some { s with
      wrptr := s.wrptr + UInt32.ofNat txsize.toNat
      accepted := s.accepted ++ call.buf.take txsize.toNat
      writer := .test call txsize }
  | .test call txsize =>
    some { s with
      writer :=
        if c.forceSend ∨ s.wrptr - s.rdptr = UInt32.ofNat txsize.toNat then .send call txsize
        else .loop (call.rest txsize) }
  | .send call txsize =>
    some { s with wrptrEvents := s.wrptrEvents + 1, writer := .loop (call.rest txsize) }
  | .mask => some { s with pollOut := !decide (c.size ≤ s.wrptr - s.rdptr), writer := .idle }
  | .fault => none

def readerStep (c : Config) (s : State) : Option State :=
  match s.reader with
  | .idle => none
  | .sampled call noData =>
    some { s with
      pollIn := !noData
      reader := if noData then if call.timeout = 0 then .idle else .waiting call else .loop call }
  | .waiting call => if s.pollIn then some { s with reader := .loop call } else none
  | .loop call =>
    some { s with
      reader := if call.left ≠ 0 ∧ s.wrptr ≠ s.rdptr then .place call else .mask }
  | .place call =>
    let rxpos := s.rdptr % c.size
    let rxsize := min (int (s.wrptr - s.rdptr)) call.left
    some { s with reader := .copy call rxpos rxsize }
  | .copy call rxpos rxsize =>
    if rxsize < 0 then some { s with reader := .fault }
    else
      some { s with
        reader := .advance call rxsize (copyOut c.size.toNat s.buf rxpos.toNat rxsize.toNat) }
  | .advance call rxsize bytes =>
    some { s with
      rdptr := s.rdptr + UInt32.ofNat rxsize.toNat
      returned := s.returned ++ bytes
      reader := .test call rxsize }
  | .test call rxsize =>
    some { s with
      reader :=
        if s.wrptr - s.rdptr = c.size - UInt32.ofNat rxsize.toNat then .send call rxsize
        else .loop (call.rest rxsize) }
  | .send call rxsize =>
    some { s with rdptrEvents := s.rdptrEvents + 1, reader := .loop (call.rest rxsize) }
  | .mask => some { s with pollIn := s.wrptr != s.rdptr, reader := .idle }
  | .fault => none

inductive Op where
  /-- A call of `sbuf_write`, up to its first sample of the pointers. -/
  | write (buf : List UInt8) (timeout : Int)
  | writer
  /-- The wait of the writer ends by its timeout or by a signal. -/
  | writerGiveUp
  /-- A call of `sbuf_read`, up to its first sample of the pointers. -/
  | read (len : UInt32) (timeout : Int)
  | reader
  | readerGiveUp
  /-- `sbuf_thread` of the reader's side handles `SMSG_EVENT_SBUF_WRPTR`. -/
  | handleWrptr
  /-- `sbuf_thread` of the writer's side handles `SMSG_EVENT_SBUF_RDPTR`. -/
  | handleRdptr

def step (c : Config) (s : State) : Op → Option State
  | .write buf timeout =>
    if s.writer = .idle ∧ buf.length < 2 ^ 32 then
      let call : WriteCall := ⟨buf, int (UInt32.ofNat buf.length), timeout⟩
      some { s with writer := .sampled call (decide (c.size ≤ s.wrptr - s.rdptr)) }
    else none
  | .writer => writerStep c s
  | .writerGiveUp =>
    match s.writer with
    | .waiting _ => some { s with writer := .idle }
    | _ => none
  | .read len timeout =>
    if s.reader = .idle then
      some { s with reader := .sampled ⟨int len, timeout⟩ (s.wrptr == s.rdptr) }
    else none
  | .reader => readerStep c s
  | .readerGiveUp =>
    match s.reader with
    | .waiting _ => some { s with reader := .idle }
    | _ => none
  | .handleWrptr =>
    if 0 < s.wrptrEvents then some { s with wrptrEvents := s.wrptrEvents - 1, pollIn := true }
    else none
  | .handleRdptr =>
    if 0 < s.rdptrEvents then some { s with rdptrEvents := s.rdptrEvents - 1, pollOut := true }
    else none

inductive WriterMove (c : Config) (s : State) : State → Prop
  | ready {call : WriteCall} (hw : s.writer = .sampled call false) :
    WriterMove c s { s with pollOut := true, writer := .loop call }
  | block {call : WriteCall} (hw : s.writer = .sampled call true) (ht : call.timeout ≠ 0) :
    WriterMove c s { s with pollOut := false, writer := .waiting call }
  | refuse {call : WriteCall} (hw : s.writer = .sampled call true) (ht : call.timeout = 0) :
    WriterMove c s { s with pollOut := false, writer := .idle }
  | wake {call : WriteCall} (hw : s.writer = .waiting call) (hpoll : s.pollOut = true) :
    WriterMove c s { s with writer := .loop call }
  | more {call : WriteCall} (hw : s.writer = .loop call) (hleft : call.left ≠ 0)
      (hroom : s.wrptr - s.rdptr < c.size) : WriterMove c s { s with writer := .place call }
  | leave {call : WriteCall} (hw : s.writer = .loop call)
      (hdone : ¬(call.left ≠ 0 ∧ s.wrptr - s.rdptr < c.size)) :
    WriterMove c s { s with writer := .mask }
  | place {call : WriteCall} (hw : s.writer = .place call) :
    WriterMove c s
      { s with
        writer := .copy call (s.wrptr % c.size)
          (min (int (c.size - (s.wrptr - s.rdptr))) call.left) }
  | fault {call : WriteCall} {txpos : UInt32} {txsize : Int}
      (hw : s.writer = .copy call txpos txsize) (hneg : txsize < 0) :
    WriterMove c s { s with writer := .fault }
  | copy {call : WriteCall} {txpos : UInt32} {txsize : Int}
      (hw : s.writer = .copy call txpos txsize) (hpos : 0 ≤ txsize) :
    WriterMove c s
      { s with
        buf := copyIn c.size.toNat s.buf txpos.toNat (call.buf.take txsize.toNat)
        writer := .advance call txsize }
  | advance {call : WriteCall} {txsize : Int} (hw : s.writer = .advance call txsize) :
    WriterMove c s
      { s with
        wrptr := s.wrptr + UInt32.ofNat txsize.toNat
        accepted := s.accepted ++ call.buf.take txsize.toNat
        writer := .test call txsize }
  | notify {call : WriteCall} {txsize : Int} (hw : s.writer = .test call txsize)
      (hevent : c.forceSend ∨ s.wrptr - s.rdptr = UInt32.ofNat txsize.toNat) :
    WriterMove c s { s with writer := .send call txsize }
  | skip {call : WriteCall} {txsize : Int} (hw : s.writer = .test call txsize)
      (hevent : ¬(c.forceSend ∨ s.wrptr - s.rdptr = UInt32.ofNat txsize.toNat)) :
    WriterMove c s { s with writer := .loop (call.rest txsize) }
  | send {call : WriteCall} {txsize : Int} (hw : s.writer = .send call txsize) :
    WriterMove c s
      { s with wrptrEvents := s.wrptrEvents + 1, writer := .loop (call.rest txsize) }
  | mask (hw : s.writer = .mask) :
    WriterMove c s
      { s with pollOut := !decide (c.size ≤ s.wrptr - s.rdptr), writer := .idle }

theorem writerStep_move {c : Config} {s s' : State} (hstep : writerStep c s = some s') :
    WriterMove c s s' := by
  unfold writerStep at hstep
  split at hstep
  next => cases hstep
  next call noData hw =>
    obtain rfl := some.inj hstep
    cases noData with
    | false => exact .ready hw
    | true =>
      by_cases ht : call.timeout = 0
      · simpa [ht] using WriterMove.refuse (c := c) hw ht
      · simpa [ht] using WriterMove.block (c := c) hw ht
  next call hw =>
    split at hstep
    next hpoll =>
      obtain rfl := some.inj hstep
      exact .wake hw hpoll
    next => cases hstep
  next call hw =>
    obtain rfl := some.inj hstep
    by_cases hmore : call.left ≠ 0 ∧ s.wrptr - s.rdptr < c.size
    · rw [if_pos hmore]
      exact .more hw hmore.1 hmore.2
    · rw [if_neg hmore]
      exact .leave hw hmore
  next call hw =>
    obtain rfl := some.inj hstep
    exact .place hw
  next call txpos txsize hw =>
    split at hstep
    next hneg =>
      obtain rfl := some.inj hstep
      exact .fault hw hneg
    next hpos =>
      obtain rfl := some.inj hstep
      exact .copy hw (not_lt.mp hpos)
  next call txsize hw =>
    obtain rfl := some.inj hstep
    exact .advance hw
  next call txsize hw =>
    obtain rfl := some.inj hstep
    by_cases hevent : c.forceSend ∨ s.wrptr - s.rdptr = UInt32.ofNat txsize.toNat
    · rw [if_pos hevent]
      exact .notify hw hevent
    · rw [if_neg hevent]
      exact .skip hw hevent
  next call txsize hw =>
    obtain rfl := some.inj hstep
    exact .send hw
  next hw =>
    obtain rfl := some.inj hstep
    exact .mask hw
  next => cases hstep

inductive ReaderMove (c : Config) (s : State) : State → Prop
  | ready {call : ReadCall} (hr : s.reader = .sampled call false) :
    ReaderMove c s { s with pollIn := true, reader := .loop call }
  | block {call : ReadCall} (hr : s.reader = .sampled call true) (ht : call.timeout ≠ 0) :
    ReaderMove c s { s with pollIn := false, reader := .waiting call }
  | refuse {call : ReadCall} (hr : s.reader = .sampled call true) (ht : call.timeout = 0) :
    ReaderMove c s { s with pollIn := false, reader := .idle }
  | wake {call : ReadCall} (hr : s.reader = .waiting call) (hpoll : s.pollIn = true) :
    ReaderMove c s { s with reader := .loop call }
  | more {call : ReadCall} (hr : s.reader = .loop call) (hleft : call.left ≠ 0)
      (hdata : s.wrptr ≠ s.rdptr) : ReaderMove c s { s with reader := .place call }
  | leave {call : ReadCall} (hr : s.reader = .loop call)
      (hdone : ¬(call.left ≠ 0 ∧ s.wrptr ≠ s.rdptr)) :
    ReaderMove c s { s with reader := .mask }
  | place {call : ReadCall} (hr : s.reader = .place call) :
    ReaderMove c s
      { s with
        reader := .copy call (s.rdptr % c.size) (min (int (s.wrptr - s.rdptr)) call.left) }
  | fault {call : ReadCall} {rxpos : UInt32} {rxsize : Int}
      (hr : s.reader = .copy call rxpos rxsize) (hneg : rxsize < 0) :
    ReaderMove c s { s with reader := .fault }
  | copy {call : ReadCall} {rxpos : UInt32} {rxsize : Int}
      (hr : s.reader = .copy call rxpos rxsize) (hpos : 0 ≤ rxsize) :
    ReaderMove c s
      { s with
        reader := .advance call rxsize
          (copyOut c.size.toNat s.buf rxpos.toNat rxsize.toNat) }
  | advance {call : ReadCall} {rxsize : Int} {bytes : List UInt8}
      (hr : s.reader = .advance call rxsize bytes) :
    ReaderMove c s
      { s with
        rdptr := s.rdptr + UInt32.ofNat rxsize.toNat
        returned := s.returned ++ bytes
        reader := .test call rxsize }
  | notify {call : ReadCall} {rxsize : Int} (hr : s.reader = .test call rxsize)
      (hevent : s.wrptr - s.rdptr = c.size - UInt32.ofNat rxsize.toNat) :
    ReaderMove c s { s with reader := .send call rxsize }
  | skip {call : ReadCall} {rxsize : Int} (hr : s.reader = .test call rxsize)
      (hevent : s.wrptr - s.rdptr ≠ c.size - UInt32.ofNat rxsize.toNat) :
    ReaderMove c s { s with reader := .loop (call.rest rxsize) }
  | send {call : ReadCall} {rxsize : Int} (hr : s.reader = .send call rxsize) :
    ReaderMove c s
      { s with rdptrEvents := s.rdptrEvents + 1, reader := .loop (call.rest rxsize) }
  | mask (hr : s.reader = .mask) :
    ReaderMove c s { s with pollIn := s.wrptr != s.rdptr, reader := .idle }

theorem readerStep_move {c : Config} {s s' : State} (hstep : readerStep c s = some s') :
    ReaderMove c s s' := by
  unfold readerStep at hstep
  split at hstep
  next => cases hstep
  next call noData hr =>
    obtain rfl := some.inj hstep
    cases noData with
    | false => exact .ready hr
    | true =>
      by_cases ht : call.timeout = 0
      · simpa [ht] using ReaderMove.refuse (c := c) hr ht
      · simpa [ht] using ReaderMove.block (c := c) hr ht
  next call hr =>
    split at hstep
    next hpoll =>
      obtain rfl := some.inj hstep
      exact .wake hr hpoll
    next => cases hstep
  next call hr =>
    obtain rfl := some.inj hstep
    by_cases hmore : call.left ≠ 0 ∧ s.wrptr ≠ s.rdptr
    · rw [if_pos hmore]
      exact .more hr hmore.1 hmore.2
    · rw [if_neg hmore]
      exact .leave hr hmore
  next call hr =>
    obtain rfl := some.inj hstep
    exact .place hr
  next call rxpos rxsize hr =>
    split at hstep
    next hneg =>
      obtain rfl := some.inj hstep
      exact .fault hr hneg
    next hpos =>
      obtain rfl := some.inj hstep
      exact .copy hr (not_lt.mp hpos)
  next call rxsize bytes hr =>
    obtain rfl := some.inj hstep
    exact .advance hr
  next call rxsize hr =>
    obtain rfl := some.inj hstep
    by_cases hevent : s.wrptr - s.rdptr = c.size - UInt32.ofNat rxsize.toNat
    · rw [if_pos hevent]
      exact .notify hr hevent
    · rw [if_neg hevent]
      exact .skip hr hevent
  next call rxsize hr =>
    obtain rfl := some.inj hstep
    exact .send hr
  next hr =>
    obtain rfl := some.inj hstep
    exact .mask hr
  next => cases hstep

inductive Move (c : Config) (s : State) : Op → State → Prop
  | write {buf : List UInt8} {timeout : Int} (hw : s.writer = .idle) (hlen : buf.length < 2 ^ 32) :
    Move c s (.write buf timeout)
      { s with
        writer := .sampled ⟨buf, int (UInt32.ofNat buf.length), timeout⟩
          (decide (c.size ≤ s.wrptr - s.rdptr)) }
  | writer {s' : State} (hmove : WriterMove c s s') : Move c s .writer s'
  | writerGiveUp {call : WriteCall} (hw : s.writer = .waiting call) :
    Move c s .writerGiveUp { s with writer := .idle }
  | read {len : UInt32} {timeout : Int} (hr : s.reader = .idle) :
    Move c s (.read len timeout)
      { s with reader := .sampled ⟨int len, timeout⟩ (s.wrptr == s.rdptr) }
  | reader {s' : State} (hmove : ReaderMove c s s') : Move c s .reader s'
  | readerGiveUp {call : ReadCall} (hr : s.reader = .waiting call) :
    Move c s .readerGiveUp { s with reader := .idle }
  | handleWrptr (hevent : 0 < s.wrptrEvents) :
    Move c s .handleWrptr { s with wrptrEvents := s.wrptrEvents - 1, pollIn := true }
  | handleRdptr (hevent : 0 < s.rdptrEvents) :
    Move c s .handleRdptr { s with rdptrEvents := s.rdptrEvents - 1, pollOut := true }

theorem step_move {c : Config} {s s' : State} {op : Op} (hstep : step c s op = some s') :
    Move c s op s' := by
  unfold step at hstep
  split at hstep
  next buf timeout =>
    split at hstep
    next h =>
      obtain rfl := some.inj hstep
      exact .write h.1 h.2
    next => cases hstep
  next => exact .writer (writerStep_move hstep)
  next =>
    split at hstep
    next call hw =>
      obtain rfl := some.inj hstep
      exact .writerGiveUp hw
    next => cases hstep
  next len timeout =>
    split at hstep
    next h =>
      obtain rfl := some.inj hstep
      exact .read h
    next => cases hstep
  next => exact .reader (readerStep_move hstep)
  next =>
    split at hstep
    next call hr =>
      obtain rfl := some.inj hstep
      exact .readerGiveUp hr
    next => cases hstep
  next =>
    split at hstep
    next h =>
      obtain rfl := some.inj hstep
      exact .handleWrptr h
    next => cases hstep
  next =>
    split at hstep
    next h =>
      obtain rfl := some.inj hstep
      exact .handleRdptr h
    next => cases hstep

end ModemSupport.Sipc.Sbuf
