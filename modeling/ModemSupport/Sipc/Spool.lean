import Mathlib.Tactic.NormNum
import Mathlib.Data.List.Infix
import ModemSupport.Lib.Transition

/-! The spool device (`spool.c`): a read takes a block of the channel, or goes on with the one that
is held, and a write sends its bytes in as many blocks as they need. -/

namespace ModemSupport.Sipc.Spool

open Lib.Transition List

abbrev Bytes := List UInt8

structure Block where
  bytes : Bytes
  length_lt : bytes.length < 2 ^ 32

structure Access where
  length : Nat
  pos : Nat
  size : Nat
  deriving DecidableEq

/-- `struct spool_sblock` with the block that is held, by its number, and the position of the file.
Ghosts: the blocks received, the numbers of those released, the accesses to them and the bytes that
the reads return. -/
structure State where
  held : Option (Nat × Block)
  pos : Nat
  received : List Block
  released : List Nat
  accesses : List Access
  returned : Bytes

def init : State := ⟨none, 0, [], [], [], []⟩

/-- The copy to user space, and the release of a block that is not held any more. -/
def State.copyToUser (s : State) (id : Nat) (blk : Block) (rdsize : Nat) (isHold fault : Bool) :
    State :=
  let s := { s with accesses := s.accesses ++ [Access.mk blk.bytes.length s.pos rdsize] }
  if fault then { s with held := none, pos := 0, released := s.released ++ [id] }
  else
    { s with
      held := if isHold then some (id, blk) else none
      pos := s.pos + rdsize
      released := if isHold then s.released else s.released ++ [id]
      returned := s.returned ++ (blk.bytes.drop s.pos).take rdsize }

/-- `hold.length - *ppos`, which is compared with a `size_t`. -/
def remaining (length pos : Nat) : Nat := (((length : Int) - pos) % 2 ^ 64).toNat

/-- `receive` is what `sblock_receive` gives, if it is called. -/
def State.spoolRead (s : State) (count : Nat) (receive : Option Block) (fault : Bool) : State :=
  match s.held with
  | some (id, blk) =>
    if count < remaining blk.bytes.length s.pos then s.copyToUser id blk count true fault
    else s.copyToUser id blk (blk.bytes.length - s.pos) false fault
  | none =>
    let s := { s with pos := 0 }
    match receive with
    | none => s
    | some blk =>
      let id := s.received.length
      let s := { s with received := s.received ++ [blk] }
      if blk.bytes.length ≤ count then s.copyToUser id blk blk.bytes.length false fault
      else s.copyToUser id blk count true fault

def State.spoolRelease (s : State) : State :=
  match s.held with
  | some (id, _) => { s with held := none, released := s.released ++ [id] }
  | none => s

inductive Op
  | read (count : Nat) (receive : Option Block) (fault : Bool)
  | lseek (pos : Fin (2 ^ 63))

def maxRwCount : Nat := 0x7ffff000

/-- A read asks for no more than `MAX_RW_COUNT` bytes, and is refused in front of `spool_read` when
the position and the count are more than a `loff_t` holds. -/
def State.next (s : State) : Op → State
  | .read count receive fault =>
    if s.pos + min count maxRwCount < 2 ^ 63 then
      s.spoolRead (min count maxRwCount) receive fault
    else s
  | .lseek pos => { s with pos := pos }

def step (s : State) (op : Op) : Option State := some (s.next op)

/-- The end of the file, behind some operations on it. -/
def State.after (s : State) (ops : List Op) : State := (ops.foldl State.next s).spoolRelease

/-- What `sblock_get` gives: an error, or a block of `length` bytes. A copy to it that faults leaves
`content` in a block. -/
inductive Get
  | fail (error : Nat)
  | block (length : Nat)
  | fault (content : Bytes)

/-- The blocks that are passed to `sblock_send`, and what is returned, which is `none` when the call
waits for a block. -/
structure Written where
  sent : List Bytes
  ret : Option Int

def spoolWrite (buf : Bytes) (pos : Nat) : List Get → Written
  | [] => ⟨[], none⟩
  | .fail error :: _ => ⟨[], some (Int.negSucc error)⟩
  | .block length :: gets =>
    let wrsize := min length (buf.length - pos)
    let rest := if pos + wrsize < buf.length then spoolWrite buf (pos + wrsize) gets
      else ⟨[], some (pos + wrsize : Nat)⟩
    { rest with sent := (buf.drop pos).take wrsize :: rest.sent }
  | .fault content :: gets =>
    -- no bytes, no fault
    if min content.length (buf.length - pos) = 0 then
      let rest := if pos < buf.length then spoolWrite buf pos gets else ⟨[], some pos⟩
      { rest with sent := [] :: rest.sent }
    -- the block is sent as long as it was got
    else ⟨[content], some pos⟩

def Access.Inside (a : Access) : Prop := a.size = 0 ∨ a.pos + a.size ≤ a.length

/-- The file is not moved, and no copy of a read faults. -/
def Plain : Op → Prop
  | .read _ _ fault => fault = false
  | .lseek _ => False

/-- Every block is released once, in the order in which they are received. -/
structure ReadSound (ops : List Op) (s : State) : Prop where
  released : s.released = List.range s.received.length
  inside : ∀ a ∈ s.accesses, a.Inside
  returned : (∀ op ∈ ops, Plain op) → s.returned = s.received.flatMap Block.bytes

structure WriteSound (buf : Bytes) (w : Written) : Prop where
  sent : w.sent.flatten <+: buf
  returned : ∀ ret, w.ret = some ret → 0 < w.sent.flatten.length → ret = w.sent.flatten.length

def ReadOk (s : State) : Op → Prop
  | .read count _ _ => ∀ x, s.held = some x → s.pos ≤ x.2.bytes.length ∨ count = 0 ∨
      2 ^ 63 ≤ s.pos + min count maxRwCount
  | .lseek _ => True

/-- No copy faults, and no block is refused when some bytes have been sent. -/
def WriteOk (buf : Bytes) (pos : Nat) : List Get → Prop
  | [] => True
  | .fail _ :: _ => pos = 0
  | .block length :: gets =>
    let pos' := pos + min length (buf.length - pos)
    pos' < buf.length → WriteOk buf pos' gets
  | .fault content :: gets =>
    min content.length (buf.length - pos) = 0 ∧ (pos < buf.length → WriteOk buf pos gets)

variable {s t : State} {count pos : Nat} {receive : Option Block} {fault isHold : Bool} {id : Nat}
  {blk : Block} {op : Op} {ops : List Op} {rdsize : Nat}

theorem remaining_of_le (h : pos ≤ blk.bytes.length) :
    remaining blk.bytes.length pos = blk.bytes.length - pos := by
  have hlt := blk.length_lt
  unfold remaining
  omega

theorem lt_remaining (h : blk.bytes.length < pos) (hpos : pos < 2 ^ 63) (hcount : count < 2 ^ 63) :
    count < remaining blk.bytes.length pos := by
  unfold remaining
  omega

def State.take (s : State) (receive : Option Block) : Option (State × Nat × Block) :=
  match s.held with
  | some (id, blk) => some (s, id, blk)
  | none => receive.map fun blk =>
      ({ s with pos := 0, received := s.received ++ [blk] }, s.received.length, blk)

theorem spoolRead_eq : s.spoolRead count receive fault = match s.take receive with
    | none => { s with pos := 0 }
    | some (t, id, blk) =>
      if count < remaining blk.bytes.length t.pos then t.copyToUser id blk count true fault
      else t.copyToUser id blk (blk.bytes.length - t.pos) false fault := by
  unfold State.spoolRead State.take
  cases s.held with
  | some x => rfl
  | none =>
    cases receive with
    | none => rfl
    | some blk =>
      dsimp only [Option.map_some]
      rw [remaining_of_le (Nat.zero_le _), Nat.sub_zero]
      by_cases hle : blk.bytes.length ≤ count
      · rw [if_pos hle, if_neg (Nat.not_lt.mpr hle)]
      · rw [if_neg hle, if_pos (Nat.not_le.mp hle)]

/-- The blocks received are those released, and the one that is held. -/
def Kept (s : State) : Prop :=
  s.released ++ s.held.toList.map Prod.fst = List.range s.received.length

/-- The block at hand is the last one received, and the only one not released. -/
structure Taken (s t : State) (id : Nat) (blk : Block) : Prop where
  released : t.released ++ [id] = List.range t.received.length
  accesses : t.accesses = s.accesses

theorem take_spec (h : Kept s) (ht : s.take receive = some (t, id, blk)) : Taken s t id blk := by
  unfold State.take at ht
  unfold Kept at h
  cases hheld : s.held with
  | some x =>
    rw [hheld] at ht h
    cases ht
    exact ⟨h, rfl⟩
  | none =>
    rw [hheld] at ht h
    obtain ⟨b, -, hb⟩ := Option.map_eq_some_iff.mp ht
    cases hb
    refine ⟨?_, rfl⟩
    rw [length_append, length_singleton, range_succ, ← h]
    simp

theorem kept_copyToUser (h : t.released ++ [id] = List.range t.received.length) :
    Kept (t.copyToUser id blk rdsize isHold fault) := by
  unfold Kept State.copyToUser
  cases fault <;> cases isHold <;> simpa using h

theorem accesses_copyToUser : (t.copyToUser id blk rdsize isHold fault).accesses =
    t.accesses ++ [⟨blk.bytes.length, t.pos, rdsize⟩] := by
  unfold State.copyToUser
  cases fault <;> rfl

theorem kept_spoolRead (h : Kept s) : Kept (s.spoolRead count receive fault) := by
  rw [spoolRead_eq]
  cases ht : s.take receive with
  | none => exact h
  | some x =>
    obtain ⟨t, id, blk⟩ := x
    dsimp only
    split <;> exact kept_copyToUser (take_spec h ht).released

theorem kept_next (h : Kept s) : Kept (s.next op) := by
  cases op with
  | lseek pos => exact h
  | read count receive fault =>
    rw [State.next]
    split
    · exact kept_spoolRead h
    · exact h

theorem kept_run (h : Kept s) : Kept (ops.foldl State.next s) := by
  induction ops generalizing s with
  | nil => exact h
  | cons op ops ih => exact ih (kept_next h)

theorem released_spoolRelease (h : Kept s) :
    s.spoolRelease.released = List.range s.spoolRelease.received.length := by
  unfold Kept at h
  unfold State.spoolRelease
  cases hheld : s.held with
  | none =>
    rw [hheld] at h
    simpa using h
  | some x =>
    rw [hheld] at h
    exact h

theorem take_eq (ht : s.take receive = some (t, id, blk)) :
    t.accesses = s.accesses ∧ (s.held = some (id, blk) ∧ t = s ∨ s.held = none ∧ t.pos = 0) := by
  unfold State.take at ht
  cases hheld : s.held with
  | some x =>
    rw [hheld] at ht
    cases ht
    exact ⟨rfl, .inl ⟨rfl, rfl⟩⟩
  | none =>
    rw [hheld] at ht
    obtain ⟨b, -, hb⟩ := Option.map_eq_some_iff.mp ht
    cases hb
    exact ⟨rfl, .inr ⟨rfl, rfl⟩⟩

theorem inside_spoolRead (hroom : s.pos + count < 2 ^ 63) :
    (∀ a ∈ (s.spoolRead count receive fault).accesses, a.Inside) ↔
      (∀ a ∈ s.accesses, a.Inside) ∧
        ∀ x, s.held = some x → s.pos ≤ x.2.bytes.length ∨ count = 0 := by
  rw [spoolRead_eq]
  cases ht : s.take receive with
  | none =>
    have hheld : s.held = none := by
      unfold State.take at ht
      cases hheld : s.held with
      | none => rfl
      | some x =>
        rw [hheld] at ht
        cases ht
    simp [hheld]
  | some x =>
    obtain ⟨t, id, blk⟩ := x
    obtain ⟨haccesses, hcase⟩ := take_eq ht
    have hle : (∀ x, s.held = some x → s.pos ≤ x.2.bytes.length ∨ count = 0) ↔
        t.pos ≤ blk.bytes.length ∨ count = 0 := by
      rcases hcase with ⟨hheld, rfl⟩ | ⟨hheld, hpos⟩
      · simp [hheld]
      · simp [hheld, hpos]
    rw [hle]
    dsimp only
    by_cases hpos : t.pos ≤ blk.bytes.length
    · rw [remaining_of_le hpos]
      split
      · rw [accesses_copyToUser, forall_mem_append, haccesses, forall_mem_singleton,
          Access.Inside]
        refine and_congr_right fun _ => iff_of_true (.inr ?_) (.inl hpos)
        show t.pos + count ≤ blk.bytes.length
        omega
      · rw [accesses_copyToUser, forall_mem_append, haccesses, forall_mem_singleton,
          Access.Inside]
        refine and_congr_right fun _ => iff_of_true (.inr ?_) (.inl hpos)
        show t.pos + (blk.bytes.length - t.pos) ≤ blk.bytes.length
        omega
    · have hts : t.pos = s.pos := by
        rcases hcase with ⟨-, rfl⟩ | ⟨-, hzero⟩
        · rfl
        · omega
      rw [if_pos (lt_remaining (by omega) (by omega) (by omega)), accesses_copyToUser,
        forall_mem_append, haccesses, forall_mem_singleton, Access.Inside]
      refine and_congr_right fun _ => ?_
      show count = 0 ∨ t.pos + count ≤ blk.bytes.length ↔ _
      omega

theorem inside_next : (∀ a ∈ (s.next op).accesses, a.Inside) ↔
    (∀ a ∈ s.accesses, a.Inside) ∧ ReadOk s op := by
  cases op with
  | lseek pos => exact (and_iff_left trivial).symm
  | read count receive fault =>
    have hzero : min count maxRwCount = 0 ↔ count = 0 := by
      unfold maxRwCount
      omega
    rw [State.next, ReadOk]
    by_cases hroom : s.pos + min count maxRwCount < 2 ^ 63
    · rw [if_pos hroom, inside_spoolRead hroom]
      refine and_congr_right fun _ => forall_congr' fun x => forall_congr' fun _ => ?_
      rw [hzero, ← or_assoc, or_iff_left (Nat.not_le.mpr hroom)]
    · rw [if_neg hroom]
      exact (and_iff_left fun _ _ => .inr (.inr (Nat.not_lt.mp hroom))).symm

theorem inside_run : (∀ a ∈ (ops.foldl State.next s).accesses, a.Inside) ↔
    (∀ a ∈ s.accesses, a.Inside) ∧ ∀ x ∈ stepsOf step s ops, ReadOk x.1 x.2 := by
  induction ops generalizing s with
  | nil => exact (and_iff_left fun _ => nofun).symm
  | cons op ops ih =>
    rw [foldl_cons, ih, inside_next, and_assoc]
    simp only [stepsOf, step, forall_mem_cons]

/-- What has been returned and the rest of the block that is held are the blocks received. -/
structure Whole (s : State) : Prop where
  returned : s.returned ++ s.held.toList.flatMap (fun x => x.2.bytes.drop s.pos) =
    s.received.flatMap Block.bytes
  pos_lt : ∀ x, s.held = some x → s.pos < x.2.bytes.length

theorem whole_copyToUser (h : t.returned ++ blk.bytes.drop t.pos = t.received.flatMap Block.bytes)
    (hpos : t.pos ≤ blk.bytes.length) :
    Whole (if count < remaining blk.bytes.length t.pos then t.copyToUser id blk count true false
      else t.copyToUser id blk (blk.bytes.length - t.pos) false false) := by
  rw [remaining_of_le hpos]
  split
  next hlt =>
    refine ⟨?_, ?_⟩
    · show t.returned ++ (blk.bytes.drop t.pos).take count ++
        ([blk.bytes.drop (t.pos + count)]).flatten = t.received.flatMap Block.bytes
      rw [← h, flatten_singleton, append_assoc, ← drop_drop, take_append_drop]
    · rintro x hx
      obtain rfl := Option.some.inj hx
      show t.pos + count < blk.bytes.length
      omega
  next =>
    refine ⟨?_, nofun⟩
    show t.returned ++ (blk.bytes.drop t.pos).take (blk.bytes.length - t.pos) ++ [] =
      t.received.flatMap Block.bytes
    rw [← h, append_nil, take_of_length_le (by simp)]

theorem whole_next (h : Whole s) (hplain : Plain op) : Whole (s.next op) := by
  cases op with
  | lseek pos => exact hplain.elim
  | read count receive fault =>
    obtain rfl : fault = false := hplain
    rw [State.next]
    split
    next =>
      rw [spoolRead_eq]
      obtain ⟨hreturned, hpos⟩ := h
      unfold State.take
      cases hheld : s.held with
      | some x =>
        rw [hheld] at hreturned
        exact whole_copyToUser (by simpa using hreturned) (hpos x hheld).le
      | none =>
        rw [hheld] at hreturned
        cases receive with
        | none => exact ⟨by simpa [hheld] using hreturned, by simp⟩
        | some blk =>
          refine whole_copyToUser ?_ (Nat.zero_le _)
          simpa using hreturned
    next => exact h

theorem whole_run (h : Whole s) (hplain : ∀ op ∈ ops, Plain op) :
    Whole (ops.foldl State.next s) := by
  induction ops generalizing s with
  | nil => exact h
  | cons op ops ih =>
    rw [forall_mem_cons] at hplain
    exact ih (whole_next h hplain.1) hplain.2

theorem Whole.returned_iff (h : Whole s) :
    s.returned = s.received.flatMap Block.bytes ↔ s.held = none := by
  obtain ⟨hreturned, hpos⟩ := h
  rw [← hreturned, self_eq_append_right]
  cases hheld : s.held with
  | none => simp
  | some x =>
    have hlt := hpos x hheld
    simp
    omega

theorem spoolRelease_fields : s.spoolRelease.accesses = s.accesses ∧
    s.spoolRelease.returned = s.returned ∧ s.spoolRelease.received = s.received := by
  unfold State.spoolRelease
  split <;> exact ⟨rfl, rfl, rfl⟩

theorem readSound_iff : ReadSound ops (init.after ops) ↔
    (∀ x ∈ stepsOf step init ops, ReadOk x.1 x.2) ∧
      ((∀ op ∈ ops, Plain op) → (ops.foldl State.next init).held = none) := by
  obtain ⟨haccesses, hreturned, hreceived⟩ := @spoolRelease_fields (ops.foldl State.next init)
  have hinside := @inside_run init ops
  rw [and_iff_right (show ∀ a ∈ init.accesses, a.Inside from nofun)] at hinside
  have hwhole : (∀ op ∈ ops, Plain op) → Whole (ops.foldl State.next init) :=
    whole_run ⟨rfl, nofun⟩
  constructor
  · rintro ⟨-, hins, hret⟩
    rw [State.after, haccesses] at hins
    rw [State.after, hreturned, hreceived] at hret
    exact ⟨hinside.mp hins, fun hplain => (hwhole hplain).returned_iff.mp (hret hplain)⟩
  · rintro ⟨hok, hheld⟩
    refine ⟨released_spoolRelease (kept_run rfl), ?_, fun hplain => ?_⟩
    · rw [State.after, haccesses]
      exact hinside.mpr hok
    · rw [State.after, hreturned, hreceived]
      exact (hwhole hplain).returned_iff.mpr (hheld hplain)

/-- `WriteSound` for what comes behind `pos` bytes. -/
structure SoundFrom (buf : Bytes) (pos : Nat) (w : Written) : Prop where
  sent : w.sent.flatten <+: buf.drop pos
  returned : ∀ ret, w.ret = some ret → 0 < pos + w.sent.flatten.length →
    ret = (pos + w.sent.flatten.length : Nat)

variable {buf : Bytes} {w : Written} {gets : List Get} {k : Nat}

theorem soundFrom_done : SoundFrom buf pos ⟨[], some pos⟩ :=
  ⟨List.nil_prefix, fun _ h _ => (Option.some.inj h).symm⟩

theorem soundFrom_send (hk : k ≤ buf.length - pos) :
    SoundFrom buf pos { w with sent := (buf.drop pos).take k :: w.sent } ↔
      SoundFrom buf (pos + k) w := by
  have hlength : ((buf.drop pos).take k ++ w.sent.flatten).length = k + w.sent.flatten.length := by
    rw [length_append, length_take_of_le (by rwa [length_drop])]
  have hfront : (buf.drop pos).take k ++ w.sent.flatten <+: buf.drop pos ↔
      w.sent.flatten <+: buf.drop (pos + k) := by
    rw [← drop_drop]
    conv_lhs => rw [← take_append_drop k (buf.drop pos), take_left' (by simp; omega)]
    exact prefix_append_right_inj _
  constructor
  · rintro ⟨hsent, hret⟩
    rw [flatten_cons] at hsent hret
    rw [hlength, ← Nat.add_assoc] at hret
    exact ⟨hfront.mp hsent, hret⟩
  · rintro ⟨hsent, hret⟩
    refine ⟨?_, ?_⟩
    · rw [flatten_cons]
      exact hfront.mpr hsent
    · rw [flatten_cons, hlength, ← Nat.add_assoc]
      exact hret

theorem soundFrom_iff : SoundFrom buf pos (spoolWrite buf pos gets) ↔ WriteOk buf pos gets := by
  induction gets generalizing pos with
  | nil => exact iff_of_true ⟨List.nil_prefix, nofun⟩ trivial
  | cons get gets ih =>
    cases get with
    | fail error =>
      rw [spoolWrite, WriteOk]
      constructor
      · intro h
        by_contra hpos
        have hret := h.returned _ rfl (by omega)
        cases hret
      · rintro rfl
        exact ⟨List.nil_prefix, fun _ _ hlt => absurd hlt (Nat.lt_irrefl 0)⟩
    | block length =>
      rw [spoolWrite, WriteOk, soundFrom_send (Nat.min_le_right ..)]
      split
      next hlt => rw [ih, imp_iff_right hlt]
      next hnot => exact iff_of_true soundFrom_done fun hlt => absurd hlt hnot
    | fault content =>
      rw [spoolWrite, WriteOk]
      split
      next hzero =>
        dsimp only
        rw [and_iff_right hzero]
        refine (soundFrom_send (k := 0) (Nat.zero_le _)).trans ?_
        split
        next hlt => rw [Nat.add_zero, ih, imp_iff_right hlt]
        next hnot => exact iff_of_true soundFrom_done fun hlt => absurd hlt hnot
      next hpos =>
        refine iff_of_false (fun h => ?_) fun h => hpos h.1
        -- more bytes are sent than are counted
        have hret := h.returned pos rfl
        simp only [flatten_singleton] at hret
        omega

theorem writeSound_iff : WriteSound buf (spoolWrite buf 0 gets) ↔ WriteOk buf 0 gets := by
  rw [← soundFrom_iff]
  constructor
  · rintro ⟨hsent, hret⟩
    refine ⟨hsent, ?_⟩
    rw [Nat.zero_add]
    exact hret
  · rintro ⟨hsent, hret⟩
    rw [Nat.zero_add] at hret
    exact ⟨hsent, hret⟩

/-- The reads are sound just when none goes on behind the end of the block that is held, and in a
plain run no block is held when the file is closed; a write is just when it sends no block that it
could not fill, and is not refused a block behind others. -/
theorem spool_sound_iff (ops : List Op) (buf : Bytes) (gets : List Get) :
    (ReadSound ops (init.after ops) ↔
      (∀ x ∈ stepsOf step init ops, ReadOk x.1 x.2) ∧
        ((∀ op ∈ ops, Plain op) → (ops.foldl State.next init).held = none)) ∧
    (WriteSound buf (spoolWrite buf 0 gets) ↔ WriteOk buf 0 gets) :=
  ⟨readSound_iff, writeSound_iff⟩

/-- A block of two bytes of which one is read, and the position 5. -/
def movedBehind : List Op :=
  [.read 1 (some ⟨[1, 2], by decide⟩) false, .lseek 5, .read 1 none false]

/-- A byte behind the block is read; and the second of two blocks is refused, or not filled. -/
theorem spool_not_sound : ¬ReadSound movedBehind (init.after movedBehind) ∧
    ¬WriteSound [1, 2] (spoolWrite [1, 2] 0 [.block 1, .fail 11]) ∧
    ¬WriteSound [1, 2] (spoolWrite [1, 2] 0 [.block 1, .fault [7]]) := by
  refine ⟨fun h => ?_, fun h => ?_, fun h => ?_⟩
  · rcases h.inside ⟨2, 5, 1⟩ (by decide) with hzero | hle
    · cases hzero
    · exact absurd hle (by decide)
  · cases h.returned _ rfl (by decide)
  · exact absurd (h.returned _ rfl (by decide)) (by decide)

end ModemSupport.Sipc.Spool
