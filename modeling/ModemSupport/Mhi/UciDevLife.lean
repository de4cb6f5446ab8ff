import ModemSupport.Mhi.UciDev

/-! The life of a UCI device is sound up to the first open that cannot fill its ring, and the first
removal that finds only the reference of the always-open mode. -/

namespace ModemSupport.Mhi.UciDev

open Lib (Heap)
open Lib.Transition List Option

/-- The open gets its buffers and queues them. -/
structure Fills (avail : Nat) (env : OpenEnv) : Prop where
  array : env.array = true
  allocPages : ∀ i < avail + 1, env.allocPages i = true
  avail_ne : avail ≠ 0
  transfer : ∀ i < avail, env.transfer i = none

/-- An open that starts the channels fills the ring, and the device is removed before the first
open that succeeds or while a file is open. -/
def Ok (avail : Nat) (s : State) : Label → Prop
  | .openFile env =>
    s.node = true → s.refCount = 0 → env.prepare = none → Fills avail env
  | .remove => s.refCount = 0 ∨ s.files ≠ 0
  | .probe _ _ | .release => True

/-- Nothing has been freed that was not live, or used that was not, and nothing is left of a device
that has been removed when all files are closed. -/
structure Sound (s : State) : Prop where
  wild : s.heap.wild = false
  stale : s.stale = false
  gone : s.removed = true → s.files = 0 → s.heap.live = []

/-- An open that succeeds finds or leaves the channels started and the ring filled, and one that
fails leaves all as it was. -/
structure Opens (avail : Nat) (env : OpenEnv) (s : State) : Prop where
  started : (mhiUciOpen avail env s).1 = none →
    (mhiUciOpen avail env s).2.started = true ∧ (mhiUciOpen avail env s).2.queued = avail
  restored : ∀ e, (mhiUciOpen avail env s).1 = some e →
    (mhiUciOpen avail env s).2.refCount = s.refCount ∧
    (mhiUciOpen avail env s).2.uciBuf = s.uciBuf ∧
    (mhiUciOpen avail env s).2.started = s.started ∧
    (mhiUciOpen avail env s).2.queued = s.queued

def Kept (avail : Nat) (s : State) (l : Label) (t : State) : Prop :=
  Sound t ∧ ∀ env, l = .openFile env → Opens avail env s

/-- The device at `d` has its array at `b`, with a page in each element. -/
structure Buffers (avail : Nat) (s : State) (d b : Nat) : Prop where
  dev : s.dev = some d
  uciBuf : s.uciBuf = some b
  nrTrbs : s.nrTrbs = avail + 1
  pages : ∀ i < avail + 1, s.pages i ≠ 0
  live : s.heap.live = d :: b :: (List.range (avail + 1)).map s.pages

variable {avail n i d b : Nat} {env : OpenEnv} {s t : State} {l : Label}

theorem touch_live {p : Nat} (hmem : p ∈ s.heap.live) : s.touch p = s := by
  unfold State.touch
  simp [hmem]

theorem allocPages_all (hall : ∀ j, i ≤ j → j < i + n → env.allocPages j = true) :
    ∃ heap pages, allocPages env n i s = (none, { s with heap := heap, pages := pages }) ∧
      heap.wild = s.heap.wild ∧ heap.live = s.heap.live ++ (List.range' i n).map pages ∧
      (∀ j, j < i → pages j = s.pages j) ∧ ∀ j, i ≤ j → j < i + n → pages j ≠ 0 := by
  induction n generalizing i s with
  | zero =>
    refine ⟨s.heap, s.pages, rfl, rfl, (append_nil _).symm, fun _ _ => rfl, ?_⟩
    intro j hle hlt
    omega
  | succ n ih =>
    rw [allocPages, if_neg (by rw [hall i (Nat.le_refl i) (by omega)]; exact Bool.noConfusion)]
    obtain ⟨heap, pages, heq, hwild, hlive, hbelow, hne⟩ :=
      ih (i := i + 1)
        (s := { s with
          heap := s.heap.alloc, pages := Function.update s.pages i s.heap.next })
        fun j hle hlt => hall j (by omega) (by omega)
    have hi : pages i = s.heap.next := by
      rw [hbelow i (Nat.lt_succ_self i)]
      exact Function.update_self ..
    refine ⟨heap, pages, heq, hwild, ?_, ?_, ?_⟩
    · rw [hlive, List.range'_succ, map_cons, hi, Heap.alloc_live, append_assoc]
      rfl
    · intro j hj
      rw [hbelow j (Nat.lt_succ_of_lt hj)]
      exact Function.update_of_ne (Nat.ne_of_lt hj) ..
    · intro j hle hlt
      rcases Nat.lt_or_eq_of_le hle with hj | rfl
      · exact hne j hj (by omega)
      · rw [hi]
        exact Nat.ne_of_gt s.heap.next_pos

theorem allocPages_fails (hnot : ¬∀ j, i ≤ j → j < i + n → env.allocPages j = true) :
    ∃ e t, allocPages env n i s = (some e, t) ∧ t.refCount = s.refCount := by
  induction n generalizing i s with
  | zero => exact absurd (fun j hle hlt => by omega) hnot
  | succ n ih =>
    rw [allocPages]
    split
    next => exact ⟨_, _, rfl, rfl⟩
    next hpage =>
      refine ih (s := { s with
        heap := s.heap.alloc, pages := Function.update s.pages i s.heap.next }) fun hall => hnot ?_
      intro j hle hlt
      rcases Nat.lt_or_eq_of_le hle with hj | rfl
      · exact hall j hj (by omega)
      · exact Bool.not_eq_false _ ▸ hpage

theorem queueBufs_all (hall : ∀ j, i ≤ j → j < i + n → env.transfer j = none) :
    queueBufs env n i s = (none, { s with queued := s.queued + n }) := by
  induction n generalizing i s with
  | zero => rfl
  | succ n ih =>
    rw [queueBufs, hall i (Nat.le_refl i) (by omega)]
    dsimp only
    rw [ih fun j hle hlt => hall j (by omega) (by omega)]
    show (none, { s with queued := s.queued + 1 + n }) = _
    rw [Nat.add_assoc, Nat.add_comm 1 n]

theorem queueBufs_fails (hnot : ¬∀ j, i ≤ j → j < i + n → env.transfer j = none) :
    ∃ e t, queueBufs env n i s = (some e, t) ∧ t.refCount = s.refCount := by
  induction n generalizing i s with
  | zero => exact absurd (fun j hle hlt => by omega) hnot
  | succ n ih =>
    rw [queueBufs]
    cases htransfer : env.transfer i with
    | some e => exact ⟨_, _, rfl, rfl⟩
    | none =>
      refine ih (s := { s with queued := s.queued + 1 }) fun hall => hnot ?_
      intro j hle hlt
      rcases Nat.lt_or_eq_of_le hle with hj | rfl
      · exact hall j hj (by omega)
      · exact htransfer

theorem mhiQueueInbound_fills (hfills : Fills avail env) (hdev : s.dev = some d)
    (hbuf : s.uciBuf = none) (hlive : s.heap.live = [d]) :
    ∃ heap pages, Buffers avail (mhiQueueInbound avail env s).2 d s.heap.next ∧
      heap.wild = s.heap.wild ∧
      mhiQueueInbound avail env s = (none,
        { s with
          heap := heap, uciBuf := some s.heap.next, nrTrbs := avail + 1, pages := pages
          queued := s.queued + avail }) := by
  have hall : ∀ j, 0 ≤ j → j < 0 + (avail + 1) → env.allocPages j = true :=
    fun j _ hlt => hfills.allocPages j (by omega)
  obtain ⟨heap, pages, hpages, hwild, hplive, -, hne⟩ :=
    allocPages_all
      (s := { s with
        nrTrbs := avail + 1, heap := s.heap.alloc, uciBuf := some s.heap.next
        pages := env.garbage })
      hall
  have hheap : heap.live = d :: s.heap.next :: (List.range (avail + 1)).map pages := by
    rw [hplive, ← List.range_eq_range']
    show s.heap.live ++ [s.heap.next] ++ _ = _
    rw [hlive]
    rfl
  have heq : mhiQueueInbound avail env s = (none,
      { s with
        heap := heap, uciBuf := some s.heap.next, nrTrbs := avail + 1, pages := pages
        queued := s.queued + avail }) := by
    have hmem : s.heap.next ∈ heap.live := by
      rw [hheap]
      exact mem_cons_of_mem _ mem_cons_self
    unfold mhiQueueInbound allocBufs
    rw [if_pos hbuf]
    dsimp only
    rw [if_neg (by rw [hfills.array]; exact Bool.noConfusion), hpages]
    dsimp only
    rw [if_neg hfills.avail_ne, queueBufs_all fun j _ hlt => hfills.transfer j (by omega)]
    simp [State.touch, hmem]
  refine ⟨heap, pages, ?_, hwild, heq⟩
  rw [heq]
  exact ⟨hdev, rfl, rfl, fun i hi => hne i (Nat.zero_le i) (by omega), hheap⟩

theorem mhiQueueInbound_fails (hfills : ¬Fills avail env) (hbuf : s.uciBuf = none) :
    ∃ e t, mhiQueueInbound avail env s = (some e, t) ∧ t.refCount = s.refCount := by
  unfold mhiQueueInbound allocBufs
  rw [if_pos hbuf]
  dsimp only
  by_cases harray : env.array = false
  · rw [if_pos harray]
    exact ⟨_, _, rfl, rfl⟩
  rw [if_neg harray]
  by_cases hall : ∀ j, 0 ≤ j → j < 0 + (avail + 1) → env.allocPages j = true
  · obtain ⟨heap, pages, hpages, -⟩ :=
      allocPages_all (s := { s with
        nrTrbs := avail + 1, heap := s.heap.alloc, uciBuf := some s.heap.next
        pages := env.garbage }) hall
    rw [hpages]
    dsimp only
    split
    · exact ⟨_, _, rfl, rfl⟩
    next havail =>
      refine queueBufs_fails fun htransfer => hfills ?_
      exact ⟨Bool.not_eq_false _ ▸ harray, fun i hi => hall i (Nat.zero_le i) (by omega), havail,
        fun i hi => htransfer i (Nat.zero_le i) (by omega)⟩
  · obtain ⟨e, t, heq, hcount⟩ :=
      allocPages_fails (s := { s with
        nrTrbs := avail + 1, heap := s.heap.alloc, uciBuf := some s.heap.next
        pages := env.garbage }) hall
    rw [heq]
    exact ⟨e, t, rfl, hcount⟩

theorem freeBufs_refCount (s : State) : (freeBufs s).refCount = s.refCount := by
  unfold freeBufs
  split
  · rfl
  · rfl

theorem freeBufs_live (hbufs : Buffers avail s d b) (hstarted : s.started = false) :
    ∃ heap, freeBufs s = { s with heap := heap } ∧ heap.live = [d] ∧
      heap.wild = s.heap.wild := by
  have hpages : ((List.range s.nrTrbs).map s.pages).filter (· ≠ 0) =
      (List.range (avail + 1)).map s.pages := by
    rw [hbufs.nrTrbs, filter_eq_self]
    intro p hp
    obtain ⟨i, hi, rfl⟩ := List.mem_map.mp hp
    exact decide_eq_true (hbufs.pages i (mem_range.mp hi))
  have hmem : b ∈ s.heap.live := by
    rw [hbufs.live]
    exact mem_cons_of_mem _ mem_cons_self
  have hall : s.heap.live = [d, b] ++ ((List.range (avail + 1)).map s.pages ++ []) := by
    rw [hbufs.live, append_nil]
    rfl
  obtain ⟨hlive, hwild⟩ := Heap.freeAll_live [d, b] [] hall
  obtain ⟨hlive', hwild'⟩ := Heap.free_live [d] [] hlive
  have hstale : (s.stale || s.started) = s.stale := by rw [hstarted, Bool.or_false]
  refine ⟨_, ?_, hlive', hwild'.trans hwild⟩
  unfold freeBufs
  split
  next hnone =>
    rw [hbufs.uciBuf] at hnone
    cases hnone
  next buf hbuf =>
    obtain rfl := some.inj (hbufs.uciBuf.symm.trans hbuf)
    dsimp only
    rw [touch_live hmem, hpages, hstale]

/-- Where the life of the device stands.  The always-open mode holds a reference of its own from the
first open that succeeds up to the removal. -/
inductive Phase (avail : Nat) (s : State) : Prop
  | unprobed : s.dev = none → s.node = false → s.removed = false → s.files = 0 → s.queued = 0 →
      s.heap.live = [] → Phase avail s
  | unopened (d : Nat) : s.dev = some d → s.enabled = true → s.removed = false → s.files = 0 →
      s.refCount = 0 → s.uciBuf = none → s.queued = 0 → s.heap.live = [d] → Phase avail s
  | opened (d b : Nat) : Buffers avail s d b → s.enabled = true → s.removed = false →
      s.refCount = s.files + 1 → s.started = true → s.queued = avail → Phase avail s
  | closing (d b : Nat) : Buffers avail s d b → s.node = false → s.enabled = false →
      s.removed = true → s.files ≠ 0 → s.refCount = s.files → s.started = false → Phase avail s
  | gone (d : Nat) : s.dev = some d → s.node = false → s.removed = true → s.files = 0 →
      s.heap.live = [] → Phase avail s

structure Inv (avail : Nat) (s : State) : Prop where
  wild : s.heap.wild = false
  stale : s.stale = false
  phase : Phase avail s

theorem inv_init : Inv avail init := ⟨rfl, rfl, .unprobed rfl rfl rfl rfl rfl rfl⟩

theorem Inv.sound (h : Inv avail s) : Sound s where
  wild := h.wild
  stale := h.stale
  gone hremoved hfiles := by
    cases h.phase with
    | unprobed hdev hnode hnot hfiles hqueued hlive => exact hlive
    | unopened d hdev henabled hnot =>
      rw [hnot] at hremoved
      exact absurd hremoved Bool.noConfusion
    | opened d b hbufs henabled hnot =>
      rw [hnot] at hremoved
      exact absurd hremoved Bool.noConfusion
    | closing d b hbufs hnode henabled hrem hne => exact absurd hfiles hne
    | gone d hdev hnode hrem hfiles hlive => exact hlive

theorem touch_dev (hdev : s.dev = some d) (hmem : d ∈ s.heap.live) :
    s.dev.elim s s.touch = s := by
  rw [hdev]
  exact touch_live hmem

theorem Buffers.mem (h : Buffers avail s d b) : d ∈ s.heap.live := by
  rw [h.live]
  exact mem_cons_self

theorem inv_probe (h : Inv avail s) (hdev : s.dev = none) (kzalloc minor : Bool) :
    Inv avail (mhiUciProbe kzalloc minor s) := by
  cases h.phase with
  | unprobed _ hnode hremoved hfiles hqueued hlive =>
    have halloc : s.heap.alloc.live = [] ++ s.heap.next :: [] := by
      rw [Heap.alloc_live, hlive]
    obtain ⟨hfree, hwild⟩ := Heap.free_live [] [] halloc
    unfold mhiUciProbe
    split
    · exact h
    dsimp only
    split
    · exact ⟨hwild.trans h.wild, h.stale, .unprobed hdev hnode hremoved hfiles hqueued hfree⟩
    · exact ⟨h.wild, h.stale, .unopened _ rfl rfl hremoved hfiles rfl rfl hqueued halloc⟩
  | unopened d hsome =>
    rw [hdev] at hsome
    cases hsome
  | opened d b hbufs =>
    have hsome := hbufs.dev
    rw [hdev] at hsome
    cases hsome
  | closing d b hbufs =>
    have hsome := hbufs.dev
    rw [hdev] at hsome
    cases hsome
  | gone d hsome =>
    rw [hdev] at hsome
    cases hsome

theorem Inv.listed (h : Inv avail s) (hnode : s.node = true) :
    (∃ d, s.dev = some d ∧ s.enabled = true ∧ s.removed = false ∧ s.files = 0 ∧ s.refCount = 0 ∧
      s.uciBuf = none ∧ s.queued = 0 ∧ s.heap.live = [d]) ∨
    ∃ d b, Buffers avail s d b ∧ s.enabled = true ∧ s.removed = false ∧
      s.refCount = s.files + 1 ∧ s.started = true ∧ s.queued = avail := by
  cases h.phase with
  | unprobed _ hnot =>
    rw [hnot] at hnode
    exact absurd hnode Bool.noConfusion
  | unopened d hdev henabled hremoved hfiles hcount hbuf hqueued hlive =>
    exact .inl ⟨d, hdev, henabled, hremoved, hfiles, hcount, hbuf, hqueued, hlive⟩
  | opened d b hbufs henabled hremoved hcount hstarted hqueued =>
    exact .inr ⟨d, b, hbufs, henabled, hremoved, hcount, hstarted, hqueued⟩
  | closing d b _ hnot =>
    rw [hnot] at hnode
    exact absurd hnode Bool.noConfusion
  | gone d _ hnot =>
    rw [hnot] at hnode
    exact absurd hnode Bool.noConfusion

theorem mhiUciOpen_opened (hnode : s.node = true) (hbufs : Buffers avail s d b)
    (henabled : s.enabled = true) (hcount : s.refCount = s.files + 1) (env : OpenEnv) :
    mhiUciOpen avail env s =
      (none, { s with refCount := s.refCount + 1, files := s.files + 1 }) := by
  unfold mhiUciOpen
  rw [if_neg (by rw [hnode]; exact Bool.noConfusion), touch_dev hbufs.dev hbufs.mem]
  dsimp only
  rw [if_neg (by rw [henabled]; exact Bool.noConfusion), if_pos (by omega)]

theorem mhiUciOpen_unopened (avail : Nat) (hnode : s.node = true) (hdev : s.dev = some d)
    (henabled : s.enabled = true) (hcount : s.refCount = 0) (hlive : s.heap.live = [d])
    (env : OpenEnv) :
    mhiUciOpen avail env s = match env.prepare with
      | some e => (some e, { s with refCount := 0 })
      | none => match mhiQueueInbound avail env { s with refCount := 1, started := true } with
        | (some e, s) => (some e, freeBufs s.stop)
        | (none, s) => (none, { s with refCount := s.refCount + 1, files := s.files + 1 }) := by
  unfold mhiUciOpen
  rw [if_neg (by rw [hnode]; exact Bool.noConfusion),
    touch_dev hdev (by rw [hlive]; exact mem_cons_self)]
  dsimp only
  rw [if_neg (by rw [henabled]; exact Bool.noConfusion), hcount, if_neg (by decide)]
  rfl

theorem opens_of_none (heq : mhiUciOpen avail env s = (none, t)) (hstarted : t.started = true)
    (hqueued : t.queued = avail) : Opens avail env s where
  started _ := by
    rw [heq]
    exact ⟨hstarted, hqueued⟩
  restored e he := by
    rw [heq] at he
    cases he

theorem opens_of_some {e : Errno} (heq : mhiUciOpen avail env s = (some e, t))
    (hcount : t.refCount = s.refCount) (hbuf : t.uciBuf = s.uciBuf)
    (hstarted : t.started = s.started) (hqueued : t.queued = s.queued) : Opens avail env s where
  started hnone := by
    rw [heq] at hnone
    cases hnone
  restored _ _ := by
    rw [heq]
    exact ⟨hcount, hbuf, hstarted, hqueued⟩

theorem inv_open (h : Inv avail s) (env : OpenEnv) (hok : Ok avail s (.openFile env)) :
    Inv avail (mhiUciOpen avail env s).2 ∧ Opens avail env s := by
  by_cases hnode : s.node = true
  · rcases h.listed hnode with
      ⟨d, hdev, henabled, hremoved, hfiles, hcount, hbuf, hqueued, hlive⟩ |
        ⟨d, b, hbufs, henabled, hremoved, hcount, hstarted, hqueued⟩
    · have hopen := mhiUciOpen_unopened avail hnode hdev henabled hcount hlive env
      cases hprepare : env.prepare with
      | some e =>
        rw [hprepare] at hopen
        refine ⟨?_, opens_of_some hopen hcount.symm rfl rfl rfl⟩
        rw [hopen]
        exact ⟨h.wild, h.stale, .unopened d hdev henabled hremoved hfiles rfl hbuf hqueued hlive⟩
      | none =>
        obtain ⟨heap, pages, hbufs, hwild, hinbound⟩ :=
          mhiQueueInbound_fills (s := { s with refCount := 1, started := true })
            (hok hnode hcount hprepare) hdev hbuf hlive
        rw [hinbound] at hbufs
        rw [hprepare] at hopen
        dsimp only at hopen
        rw [hinbound] at hopen
        have hfull : s.queued + avail = avail := by rw [hqueued, Nat.zero_add]
        refine ⟨?_, opens_of_none hopen rfl hfull⟩
        rw [hopen]
        refine ⟨hwild.trans h.wild, h.stale, .opened d s.heap.next ?_ henabled hremoved ?_ rfl
          hfull⟩
        · exact ⟨hbufs.dev, hbufs.uciBuf, hbufs.nrTrbs, hbufs.pages, hbufs.live⟩
        · show (1 : Int) + 1 = (s.files + 1 : Nat) + 1
          rw [hfiles]
          rfl
    · have hopen := mhiUciOpen_opened hnode hbufs henabled hcount env
      refine ⟨?_, opens_of_none hopen hstarted hqueued⟩
      rw [hopen]
      refine ⟨h.wild, h.stale, .opened d b ?_ henabled hremoved ?_ hstarted hqueued⟩
      · exact ⟨hbufs.dev, hbufs.uciBuf, hbufs.nrTrbs, hbufs.pages, hbufs.live⟩
      · show s.refCount + 1 = (s.files + 1 : Nat) + 1
        omega
  · have hopen : mhiUciOpen avail env s = (some .eio, s) := by
      unfold mhiUciOpen
      rw [if_pos (Bool.eq_false_iff.mpr hnode)]
    refine ⟨?_, opens_of_some hopen rfl rfl rfl rfl⟩
    rw [hopen]
    exact h

theorem not_opens (h : Inv avail s) (env : OpenEnv) (hok : ¬Ok avail s (.openFile env)) :
    ¬Opens avail env s := by
  simp only [Ok, Classical.not_imp] at hok
  obtain ⟨hnode, hcount, hprepare, hfills⟩ := hok
  intro hopens
  rcases h.listed hnode with
    ⟨d, hdev, henabled, hremoved, hfiles, -, hbuf, hqueued, hlive⟩ |
      ⟨d, b, -, -, -, hcount', -⟩
  · have hopen := mhiUciOpen_unopened avail hnode hdev henabled hcount hlive env
    obtain ⟨e, t, hinbound, ht⟩ :=
      mhiQueueInbound_fails (s := { s with refCount := 1, started := true }) hfills hbuf
    rw [hprepare] at hopen
    dsimp only at hopen
    rw [hinbound] at hopen
    have hrestored := (hopens.restored e (by rw [hopen])).1
    rw [hopen] at hrestored
    have hone : (freeBufs t.stop).refCount = 1 := (freeBufs_refCount _).trans ht
    rw [hone, hcount] at hrestored
    exact absurd hrestored (by decide)
  · omega

theorem mhiUciRelease_last (hbufs : Buffers avail s d b) (henabled : s.enabled = false)
    (hstarted : s.started = false) (hcount : s.refCount = 1) :
    ∃ heap, mhiUciRelease s =
        { s with refCount := s.refCount - 1, files := s.files - 1, heap := heap } ∧
      heap.live = [] ∧ heap.wild = s.heap.wild := by
  have hbufs' :
      Buffers avail { s with refCount := s.refCount - 1, files := s.files - 1 } d b :=
    ⟨hbufs.dev, hbufs.uciBuf, hbufs.nrTrbs, hbufs.pages, hbufs.live⟩
  have hnot : ¬s.enabled = true := by
    rw [henabled]
    exact Bool.false_ne_true
  obtain ⟨heap, hfreed, hlive, hwild⟩ := freeBufs_live hbufs' hstarted
  obtain ⟨hlive', hwild'⟩ := Heap.free_live [] [] hlive
  have hdev : s.dev.elim heap heap.free = heap.free d := by
    rw [hbufs.dev]
    rfl
  refine ⟨heap.free d, ?_, hlive', hwild'.trans hwild⟩
  unfold mhiUciRelease
  rw [touch_dev hbufs.dev hbufs.mem]
  dsimp only
  rw [if_neg (show ¬s.refCount - 1 ≠ 0 by omega), if_neg hnot, hfreed]
  dsimp only
  rw [if_neg hnot, hdev]

theorem inv_release (h : Inv avail s) (hfiles : s.files ≠ 0) : Inv avail (mhiUciRelease s) := by
  have hnotLast (d b : Nat) (hbufs : Buffers avail s d b) (hcount : s.refCount ≠ 1) :
      mhiUciRelease s = { s with refCount := s.refCount - 1, files := s.files - 1 } := by
    unfold mhiUciRelease
    rw [touch_dev hbufs.dev hbufs.mem]
    exact if_pos (show s.refCount - 1 ≠ 0 by omega)
  cases h.phase with
  | unprobed _ _ _ hzero => exact absurd hzero hfiles
  | unopened d _ _ _ hzero => exact absurd hzero hfiles
  | gone d _ _ _ hzero => exact absurd hzero hfiles
  | opened d b hbufs henabled hremoved hcount hstarted hqueued =>
    rw [hnotLast d b hbufs (by omega)]
    refine ⟨h.wild, h.stale, .opened d b ?_ henabled hremoved ?_ hstarted hqueued⟩
    · exact ⟨hbufs.dev, hbufs.uciBuf, hbufs.nrTrbs, hbufs.pages, hbufs.live⟩
    · show s.refCount - 1 = (s.files - 1 : Nat) + 1
      omega
  | closing d b hbufs hnode henabled hremoved _ hcount hstarted =>
    by_cases hlast : s.refCount = 1
    · obtain ⟨heap, heq, hlive, hwild⟩ := mhiUciRelease_last hbufs henabled hstarted hlast
      rw [heq]
      refine ⟨hwild.trans h.wild, h.stale, .gone d hbufs.dev hnode hremoved ?_ hlive⟩
      show s.files - 1 = 0
      omega
    · rw [hnotLast d b hbufs hlast]
      refine ⟨h.wild, h.stale, .closing d b ?_ hnode henabled hremoved ?_ ?_ hstarted⟩
      · exact ⟨hbufs.dev, hbufs.uciBuf, hbufs.nrTrbs, hbufs.pages, hbufs.live⟩
      · show s.files - 1 ≠ 0
        omega
      · show s.refCount - 1 = (s.files - 1 : Nat)
        omega

theorem mhiUciRemove_open (hdev : s.dev = some d) (hmem : d ∈ s.heap.live)
    (hcount : 1 < s.refCount) :
    mhiUciRemove s =
      { s.stop with
        enabled := false, node := false, removed := true, refCount := s.refCount - 1 } := by
  have hpos : 0 < s.refCount := by omega
  have hne : s.refCount - 1 ≠ 0 := by omega
  unfold mhiUciRemove
  rw [touch_dev hdev hmem]
  simp [State.stop, hpos, hne]

theorem mhiUciRemove_free (hdev : s.dev = some d) (hmem : d ∈ s.heap.live)
    (hcount : s.refCount = 0 ∨ s.refCount = 1) :
    mhiUciRemove s =
      { s.stop with
        enabled := false, node := false, removed := true, refCount := 0
        heap := s.heap.free d } := by
  unfold mhiUciRemove
  rw [touch_dev hdev hmem]
  rcases hcount with hzero | hone
  · simp [State.stop, hzero, hdev]
  · simp [State.stop, hone, hdev]

theorem Inv.present (h : Inv avail s) (hdev : s.dev ≠ none) (hremoved : s.removed = false) :
    (∃ d, s.dev = some d ∧ s.files = 0 ∧ s.refCount = 0 ∧ s.heap.live = [d]) ∨
      ∃ d b, Buffers avail s d b ∧ s.refCount = s.files + 1 := by
  cases h.phase with
  | unprobed hnone => exact absurd hnone hdev
  | unopened d hsome _ _ hfiles hcount _ _ hlive => exact .inl ⟨d, hsome, hfiles, hcount, hlive⟩
  | opened d b hbufs _ _ hcount => exact .inr ⟨d, b, hbufs, hcount⟩
  | closing d b _ _ _ hrem =>
    rw [hremoved] at hrem
    exact absurd hrem Bool.noConfusion
  | gone d _ _ hrem =>
    rw [hremoved] at hrem
    exact absurd hrem Bool.noConfusion

theorem inv_remove (h : Inv avail s) (hdev : s.dev ≠ none) (hremoved : s.removed = false)
    (hok : Ok avail s .remove) : Inv avail (mhiUciRemove s) := by
  rcases h.present hdev hremoved with ⟨d, hsome, hfiles, hcount, hlive⟩ | ⟨d, b, hbufs, hcount⟩
  · obtain ⟨hlive', hwild⟩ := Heap.free_live [] [] hlive
    rw [mhiUciRemove_free hsome (by rw [hlive]; exact mem_cons_self) (.inl hcount)]
    exact ⟨hwild.trans h.wild, h.stale, .gone d hsome rfl rfl hfiles hlive'⟩
  · have hfiles : s.files ≠ 0 := hok.resolve_left (by omega)
    rw [mhiUciRemove_open hbufs.dev hbufs.mem (by omega)]
    refine ⟨h.wild, h.stale, .closing d b ?_ rfl rfl rfl hfiles ?_ rfl⟩
    · exact ⟨hbufs.dev, hbufs.uciBuf, hbufs.nrTrbs, hbufs.pages, hbufs.live⟩
    · show s.refCount - 1 = s.files
      omega

theorem not_sound_remove (h : Inv avail s) (hdev : s.dev ≠ none) (hremoved : s.removed = false)
    (hok : ¬Ok avail s .remove) : ¬Sound (mhiUciRemove s) := by
  simp only [Ok, not_or, not_not] at hok
  rcases h.present hdev hremoved with ⟨d, _, _, hcount, _⟩ | ⟨d, b, hbufs, hcount⟩
  · exact absurd hcount hok.1
  · obtain ⟨hlive, -⟩ := Heap.free_live [] _ hbufs.live
    intro hsound
    rw [mhiUciRemove_free hbufs.dev hbufs.mem (.inr (by omega))] at hsound
    have hnil := hsound.gone rfl hok.2
    rw [show (s.heap.free d).live = _ from hlive] at hnil
    cases hnil

theorem step_inv (h : Inv avail s) (ht : step avail s l = some t) :
    (Ok avail s l → Inv avail t ∧ ∀ env, l = .openFile env → Opens avail env s) ∧
      (¬Ok avail s l → ¬Kept avail s l t) := by
  cases l with
  | probe kzalloc minor =>
    simp only [step, ite_none_right_eq_some, some.injEq] at ht
    obtain ⟨hdev, rfl⟩ := ht
    refine ⟨fun _ => ⟨inv_probe h hdev kzalloc minor, ?_⟩, fun hnot => absurd trivial hnot⟩
    intro env henv
    cases henv
  | openFile env =>
    simp only [step, some.injEq] at ht
    subst ht
    constructor
    · intro hok
      obtain ⟨hinv, hopens⟩ := inv_open h env hok
      refine ⟨hinv, fun env' henv => ?_⟩
      cases henv
      exact hopens
    · intro hnot hkept
      exact not_opens h env hnot (hkept.2 env rfl)
  | release =>
    simp only [step, ite_none_left_eq_some, some.injEq] at ht
    obtain ⟨hfiles, rfl⟩ := ht
    refine ⟨fun _ => ⟨inv_release h hfiles, ?_⟩, fun hnot => absurd trivial hnot⟩
    intro env henv
    cases henv
  | remove =>
    simp only [step, ite_none_left_eq_some, some.injEq, not_or] at ht
    obtain ⟨⟨hdev, hremoved⟩, rfl⟩ := ht
    have hremoved' := Bool.not_eq_true _ ▸ hremoved
    constructor
    · intro hok
      refine ⟨inv_remove h hdev hremoved' hok, ?_⟩
      intro env henv
      cases henv
    · intro hnot hkept
      exact not_sound_remove h hdev hremoved' hnot hkept.1

/-- Behind calls that meet `Ok` the life of the device is sound, and the next call keeps it so
exactly when it meets `Ok` too. -/
theorem uciDev_sound (avail : Nat) (s : State) (h : Reaches (step avail) (Ok avail) init s) :
    Sound s ∧ ∀ l t, step avail s l = some t → (Kept avail s l t ↔ Ok avail s l) := by
  have hinv : Inv avail s := h.invariant (P := Inv avail) inv_init fun _ _ _ hs hok ht =>
    ((step_inv hs ht).1 hok).1
  refine ⟨hinv.sound, fun l t ht => ?_⟩
  obtain ⟨hok, hnot⟩ := step_inv hinv ht
  constructor
  · intro hkept
    by_contra hl
    exact hnot hl hkept
  · intro hl
    exact ⟨(hok hl).1.sound, (hok hl).2⟩

instance decidableFills (avail : Nat) (env : OpenEnv) : Decidable (Fills avail env) :=
  decidable_of_iff (env.array = true ∧ (∀ i < avail + 1, env.allocPages i = true) ∧ avail ≠ 0 ∧
      ∀ i < avail, env.transfer i = none)
    ⟨fun h => ⟨h.1, h.2.1, h.2.2.1, h.2.2.2⟩, fun h => ⟨h.1, h.2, h.3, h.4⟩⟩

instance decidableOk (avail : Nat) (s : State) : (l : Label) → Decidable (Ok avail s l)
  | .openFile env =>
    inferInstanceAs (Decidable (s.node = true → s.refCount = 0 → env.prepare = none →
      Fills avail env))
  | .remove => inferInstanceAs (Decidable (s.refCount = 0 ∨ s.files ≠ 0))
  | .probe _ _ | .release => inferInstanceAs (Decidable True)

def goodOpen : OpenEnv := ⟨none, true, fun _ => 0, fun _ => true, fun _ => none⟩

/-- The device goes while the second of two files is open. -/
theorem uciDev_sound_closed : ∃ s, Reaches (step 2) (Ok 2) init s ∧ Sound s ∧
    s.removed = true ∧ s.files = 0 ∧ s.heap.next = 6 := by
  have hrun : (run (guarded (step 2) (Ok 2)) init
      [.probe true true, .openFile { goodOpen with prepare := some .eio }, .openFile goodOpen,
        .openFile goodOpen, .release, .remove, .release]).any (fun s => decide
      (s.removed = true ∧ s.files = 0 ∧ s.heap.next = 6)) = true := by
    decide
  obtain ⟨s, hreaches, hs⟩ := exists_of_run _ hrun
  exact ⟨s, hreaches, (uciDev_sound 2 s hreaches).1, hs⟩

/-- The device goes after its file has been closed: the buffers stay behind. -/
theorem not_uciDev_sound : ¬∀ (avail : Nat) (s : State), Reachable (step avail) init s →
    Sound s := by
  intro hall
  have hrun : (run (guarded (step 2) fun _ _ => True) init
      [.probe true true, .openFile goodOpen, .release, .remove]).any (fun s => decide
      (s.removed = true ∧ s.files = 0 ∧ s.heap.live = [2, 3, 4, 5])) = true := by
    decide
  obtain ⟨s, hreaches, hremoved, hfiles, hlive⟩ := exists_of_run _ hrun
  have hnil := (hall 2 s hreaches).gone hremoved hfiles
  rw [hlive] at hnil
  cases hnil

end ModemSupport.Mhi.UciDev
