import ModemSupport.Sipc.Smem

/-! What the counters of the pools say over whole runs: the sizes that are out, as long as every
free rounds as its allocation did. -/

namespace ModemSupport.Sipc.Smem

open Lib.Chunks Lib.Transition List Option

variable {c : Config} {s t : State} {p q : Pool} {addr size dst k : Nat} {r : Record}

theorem minOrder_cases : minOrder c = 2 ∨ minOrder c = 3 := by
  rw [minOrder]
  split
  · exact .inr rfl
  · exact .inl rfl

theorem order_bounds : 2 ≤ order c size ∧ order c size < 32 := by
  have hpage := c.page
  have hmin := minOrder_cases (c := c)
  rw [order]
  split
  · omega
  · omega

theorem align_eq {x : Nat} (h : x + (2 ^ k - 1) < 2 ^ 32) :
    align k x = chunks (2 ^ k) x * 2 ^ k := by
  rw [align, Nat.mod_eq_of_lt h, chunks]

theorem align_wrap {x : Nat} (hk : k < 32) (hx : x < 2 ^ 32) (h : 2 ^ 32 ≤ x + (2 ^ k - 1)) :
    align k x = 0 := by
  have hpow : 2 ^ k < 2 ^ 32 := Nat.pow_lt_pow_right (by decide) hk
  have hmod : (x + (2 ^ k - 1)) % 2 ^ 32 = x + (2 ^ k - 1) - 2 ^ 32 := by
    rw [Nat.mod_eq_sub_mod h, Nat.mod_eq_of_lt (by omega)]
  rw [align, hmod, Nat.div_eq_of_lt (by omega), Nat.zero_mul]

theorem align_of_pos {x : Nat} (hk : k < 32) (hx : x < 2 ^ 32) (h : 0 < align k x) :
    align k x = chunks (2 ^ k) x * 2 ^ k ∧ 0 < x := by
  have hfits : x + (2 ^ k - 1) < 2 ^ 32 := by
    by_contra hnot
    rw [align_wrap hk hx (Nat.le_of_not_lt hnot)] at h
    cases h
  refine ⟨align_eq hfits, ?_⟩
  rcases Nat.eq_zero_or_pos x with rfl | hpos
  · have hpow := Nat.two_pow_pos k
    rw [align_eq hfits, chunks, Nat.zero_add, Nat.div_eq_of_lt (by omega), Nat.zero_mul] at h
    cases h
  · exact hpos

theorem align_lt {x : Nat} : align k x < 2 ^ 32 := by
  have hmod := Nat.mod_lt (x + (2 ^ k - 1)) (show 0 < 2 ^ 32 by decide)
  exact Nat.lt_of_le_of_lt (Nat.div_mul_le_self ..) hmod

def Record.run (k : Nat) (r : Record) : Nat × Nat := (r.start, r.size / 2 ^ k)

structure Recorded (k base limit : Nat) (r : Record) : Prop where
  request : r.request < 2 ^ 32
  size : r.size = align k r.request
  pos : 0 < r.size
  addr : r.addr = (base + r.start * 2 ^ k) % 2 ^ 32
  start : r.start * 2 ^ k < limit

/-- The records are of runs that `gen_pool` has handed out. -/
structure Backed (c : Config) (p : Pool) : Prop where
  addr : p.addr < 2 ^ 32
  size : p.size < 2 ^ 32
  gen : ∀ gen ∈ p.gen, gen.total * 2 ^ order c p.size ≤ p.size ∧
    gen.Serves (p.records.map (Record.run (order c p.size)))
  none : p.gen = none → p.records = []
  recorded : ∀ r ∈ p.records, Recorded (order c p.size) p.addr p.size r

theorem Recorded.mul (h : Recorded k addr size r) : r.size / 2 ^ k * 2 ^ k = r.size := by
  rw [h.size, align, Nat.mul_div_cancel _ (Nat.two_pow_pos _)]

theorem Recorded.run_pos (h : Recorded k addr size r) : 0 < (r.run k).2 := by
  have hmul := h.mul
  have hpos := h.pos
  rcases Nat.eq_zero_or_pos (r.size / 2 ^ k) with hzero | hdiv
  · rw [hzero] at hmul
    omega
  · exact hdiv

theorem sum_mul {rs : List Record} (h : ∀ r ∈ rs, Recorded k addr size r) :
    (rs.map Record.size).sum = ((rs.map (Record.run k)).map Prod.snd).sum * 2 ^ k := by
  induction rs with
  | nil => exact (Nat.zero_mul _).symm
  | cons r rs ih =>
    have hr := (h r mem_cons_self).mul
    rw [map_cons, sum_cons, ih fun r' hr' => h r' (mem_cons_of_mem _ hr')]
    rw [map_cons, map_cons, sum_cons, Nat.add_mul, Record.run, hr]

theorem Backed.sum_le (h : Backed c p) : (p.records.map Record.size).sum ≤ p.size := by
  cases hgen : p.gen with
  | none =>
    rw [h.none hgen]
    exact Nat.zero_le _
  | some gen =>
    obtain ⟨htotal, hserves⟩ := h.gen gen hgen
    rw [sum_mul h.recorded]
    exact (Nat.mul_le_mul_right _ hserves.sum_le).trans htotal

/-- The counter says the sizes of the records, which `gen_pool` has handed out. -/
structure PoolInv (c : Config) (p : Pool) : Prop extends Backed c p where
  used : p.used = (p.records.map Record.size).sum

theorem PoolInv.accounted (h : PoolInv c p) : Accounted p where
  used := h.used
  empty hnil := by
    rw [h.used, hnil]
    rfl
  room := by
    rw [h.used]
    exact h.sum_le

theorem poolInv_new (haddr : addr < 2 ^ 32) (created : Created) : PoolInv c
    { addr := addr
      size := align (order c size) size
      dst := dst
      used := 0
      gen := newGen c (align (order c size) size) created
      records := [] } where
  addr := haddr
  size := align_lt
  gen gen hgen := by
    cases created with
    | noPool => cases hgen
    | noGen => cases hgen
    | noChunk =>
      cases hgen
      refine ⟨?_, serves_nil⟩
      rw [Nat.zero_mul]
      exact Nat.zero_le _
    | done =>
      cases hgen
      exact ⟨Nat.div_mul_le_self .., serves_nil⟩
  none _ := rfl
  recorded _ h := by cases h
  used := rfl

theorem alloc_bounds (h : Backed c p) {gen gen' : Lib.Chunks.Pool} {n : Nat}
    (hgen : gen ∈ p.gen) (halloc : gen.alloc (k, n) = some gen') :
    0 < n ∧ (k + n) * 2 ^ order c p.size ≤ p.size ∧ gen'.total = gen.total := by
  simp only [Lib.Chunks.Pool.alloc, ite_none_right_eq_some, some.injEq] at halloc
  obtain ⟨⟨hpos, hroom, -⟩, rfl⟩ := halloc
  exact ⟨hpos, (Nat.mul_le_mul_right _ hroom).trans (h.gen gen hgen).1, rfl⟩

theorem recorded_alloc (h : Backed c p) {gen gen' : Lib.Chunks.Pool}
    (hgen : gen ∈ p.gen) (hsize : size < 2 ^ 32) (halloc : gen.alloc
      (k, chunks (2 ^ order c p.size) (align (order c p.size) size)) = some gen') :
    Recorded (order c p.size) p.addr p.size ⟨align (order c p.size) size,
      (p.addr + k * 2 ^ order c p.size) % 2 ^ 32, k, size⟩ := by
  obtain ⟨hpos, hroom, -⟩ := alloc_bounds h hgen halloc
  have hpow := Nat.two_pow_pos (order c p.size)
  have halign : 0 < align (order c p.size) size := by
    rcases Nat.eq_zero_or_pos (align (order c p.size) size) with hzero | hpos'
    · rw [hzero, chunks, Nat.zero_add, Nat.div_eq_of_lt (by omega)] at hpos
      cases hpos
    · exact hpos'
  refine ⟨hsize, rfl, halign, rfl, ?_⟩
  rw [Nat.add_mul] at hroom
  have hmul := Nat.mul_le_mul_right (2 ^ order c p.size) hpos
  show k * 2 ^ order c p.size < p.size
  omega

theorem chunks_align {x : Nat} : chunks (2 ^ k) (align k x) = align k x / 2 ^ k := by
  rw [align, chunks_mul (Nat.two_pow_pos k), Nat.mul_div_cancel _ (Nat.two_pow_pos k)]

theorem PoolInv.alloc (h : PoolInv c p) (hsize : size < 2 ^ 32) {start : Option Nat}
    (hq : p.smemAlloc c size start = some q) : PoolInv c q := by
  cases start with
  | none =>
    cases hq
    exact h
  | some k =>
    obtain ⟨gen, hgen, hq⟩ := bind_eq_some_iff.mp hq
    obtain ⟨gen', halloc, rfl⟩ := map_eq_some_iff.mp hq
    obtain ⟨htotal, hserves⟩ := h.gen gen hgen
    obtain ⟨-, -, htotal'⟩ := alloc_bounds h.toBacked hgen halloc
    have hrecorded := recorded_alloc h.toBacked hgen hsize halloc
    split
    · -- an address of 0 is taken for a failure
      refine ⟨⟨h.addr, h.size, fun g hg => ?_, fun hnone => ?_, h.recorded⟩, h.used⟩
      · obtain rfl := some.inj hg
        rw [htotal']
        exact ⟨htotal, hserves.take halloc⟩
      · cases hnone
    · have hbacked : Backed c
          { p with
            gen := some gen'
            used := (p.used + align (order c p.size) size) % 2 ^ 32
            records := p.records ++ [⟨align (order c p.size) size,
              (p.addr + k * 2 ^ order c p.size) % 2 ^ 32, k, size⟩] } := by
        refine ⟨h.addr, h.size, fun g hg => ?_, fun hnone => ?_, fun r hr => ?_⟩
        · obtain rfl := some.inj hg
          rw [chunks_align] at halloc
          rw [htotal', map_append]
          exact ⟨htotal, hserves.alloc halloc⟩
        · cases hnone
        · rcases mem_append.mp hr with hold | hnew
          · exact h.recorded r hold
          · obtain rfl := mem_singleton.mp hnew
            exact hrecorded
      refine ⟨hbacked, ?_⟩
      have hsum := hbacked.sum_le
      have hlt := h.size
      simp only [map_append, sum_append, map_cons, map_nil, sum_cons,
        sum_nil, Nat.add_zero] at hsum ⊢
      rw [h.used, Nat.mod_eq_of_lt (by omega)]

theorem Recorded.eq_of_addr {r' : Record} (h : Recorded k addr size r)
    (h' : Recorded k addr size r')
    (hsize : size < 2 ^ 32) (heq : r.addr = r'.addr) : r.start = r'.start := by
  have haddr := h.addr
  have haddr' := h'.addr
  have hstart := h.start
  have hstart' := h'.start
  have hmul : r.start * 2 ^ k = r'.start * 2 ^ k := by omega
  exact Nat.eq_of_mul_eq_mul_right (Nat.two_pow_pos k) hmul

theorem Recorded.start_eq (h : Recorded k addr size r) (haddr : addr < 2 ^ 32)
    (hsize : size < 2 ^ 32) (hle : addr ≤ r.addr) : (r.addr - addr) / 2 ^ k = r.start := by
  have hmod := h.addr
  have hstart := h.start
  have heq : r.addr = addr + r.start * 2 ^ k := by omega
  rw [heq, Nat.add_sub_cancel_left, Nat.mul_div_cancel _ (Nat.two_pow_pos k)]

theorem Backed.eq_of_addr (h : Backed c p) {r r' : Record} (hr : r ∈ p.records)
    (hr' : r' ∈ p.records) (heq : r.addr = r'.addr) : r = r' := by
  by_contra hne
  have hrecorded := h.recorded r hr
  have hrecorded' := h.recorded r' hr'
  have hstart := hrecorded.eq_of_addr hrecorded' h.size heq
  cases hgen : p.gen with
  | none =>
    rw [h.none hgen] at hr
    cases hr
  | some gen =>
    have hapart := pairwise_map.mp (h.gen gen hgen).2.apart
    have : Std.Symm fun r r' : Record => Disjoint (run (r.run (order c p.size)))
      (run (r'.run (order c p.size))) := ⟨fun _ _ h => h.symm⟩
    exact not_disjoint_run hrecorded.run_pos hrecorded'.run_pos hstart (hapart.forall hr hr' hne)

theorem Backed.split (h : Backed c p) (hlive : Live p addr size) : ∃ rs r rs',
    p.records = rs ++ r :: rs' ∧ r.addr = addr ∧ r.request = size ∧
      p.records.eraseP (fun r => r.addr == addr) = rs ++ rs' := by
  obtain ⟨r, hr, haddr, hrequest⟩ := hlive
  obtain ⟨r', rs, rs', -, hfound, hrecords, herase⟩ :=
    exists_of_eraseP (p := fun r => r.addr == addr) hr (beq_iff_eq.mpr haddr)
  have hr' : r' ∈ p.records := hrecords ▸ mem_append_right _ mem_cons_self
  obtain rfl := h.eq_of_addr hr hr' (haddr.trans (beq_iff_eq.mp hfound).symm)
  exact ⟨rs, r, rs', hrecords, haddr, hrequest, herase⟩

theorem Backed.size_le (h : Backed c p) (hr : r ∈ p.records) : r.size ≤ p.size := by
  obtain ⟨rs, rs', hrecords⟩ := append_of_mem hr
  have hsum := h.sum_le
  rw [hrecords, map_append, sum_append, map_cons, sum_cons] at hsum
  omega

def Fits (c : Config) (p : Pool) (size : Nat) : Prop :=
  p.size < alignPoolsz ∨ size ≥ alignPoolsz ∨ align (minOrder c) size = align c.pageShift size

theorem Backed.free_size (h : Backed c p) (hr : r ∈ p.records) :
    chunks (2 ^ order c p.size) (align (order c r.request) r.request) =
        r.size / 2 ^ order c p.size ∧
      (Fits c p r.request ↔ align (order c r.request) r.request = r.size) := by
  have hrecorded := h.recorded r hr
  have hle := h.size_le hr
  have hpos := hrecorded.pos
  rw [hrecorded.size] at hpos
  have hround := (align_of_pos order_bounds.2 hrecorded.request hpos).1
  have hbounds := (chunks_mul_bounds (x := r.request) (Nat.two_pow_pos (order c p.size))).1
  rw [← hround, ← hrecorded.size] at hbounds
  rw [hrecorded.size, Fits]
  by_cases hlarge : p.size ≥ alignPoolsz
  · have hpage : order c p.size = c.pageShift := if_pos hlarge
    rw [hpage] at hround ⊢
    by_cases hrequest : r.request ≥ alignPoolsz
    · have hsame : order c r.request = c.pageShift := if_pos hrequest
      rw [hsame]
      exact ⟨chunks_align, iff_of_true (.inr (.inl hrequest)) rfl⟩
    · have hother : order c r.request = minOrder c := if_neg hrequest
      rw [hother]
      have hmin := minOrder_cases (c := c)
      have hpow : 2 ^ minOrder c ≤ 8 := by
        rcases hmin with h2 | h3
        · rw [h2]
          decide
        · rw [h3]
          decide
      have hsmall : align (minOrder c) r.request =
          chunks (2 ^ minOrder c) r.request * 2 ^ minOrder c := by
        apply align_eq
        rw [alignPoolsz] at hrequest
        omega
      refine ⟨?_, ⟨?_, fun heq => .inr (.inr heq)⟩⟩
      · have hpage' : c.pageShift = c.pageShift - minOrder c + minOrder c := by
          have hshift := c.page
          omega
        rw [hsmall, hround, Nat.mul_div_cancel _ (Nat.two_pow_pos _)]
        rw [hpage', Nat.pow_add]
        exact chunks_chunks (Nat.two_pow_pos _) (Nat.two_pow_pos _)
      · rintro (hnot | hnot | heq)
        · exact absurd hlarge (Nat.not_le.mpr hnot)
        · exact absurd hnot hrequest
        · exact heq
  · have hsame : order c r.request = order c p.size := by
      rw [order, order, if_neg hlarge, if_neg (by omega)]
    rw [hsame]
    exact ⟨chunks_align, iff_of_true (.inl (Nat.lt_of_not_le hlarge)) rfl⟩

theorem PoolInv.free (h : PoolInv c p) (hlive : Live p addr size)
    (hq : p.smemFree c addr size = some q) :
    (Fits c p size → PoolInv c q) ∧ (¬Fits c p size → ¬Accounted q) := by
  obtain ⟨rs, r, rs', hrecords, haddr, rfl, herase⟩ := h.split hlive
  obtain rfl := haddr
  have hr : r ∈ p.records := hrecords ▸ mem_append_right _ mem_cons_self
  have hrecorded := h.recorded r hr
  obtain ⟨hchunks, hfits⟩ := h.free_size hr
  obtain ⟨gen, hgen, hq⟩ := bind_eq_some_iff.mp hq
  simp only [ite_none_left_eq_some] at hq
  obtain ⟨hle, hq⟩ := hq
  obtain ⟨gen', hfree, rfl⟩ := map_eq_some_iff.mp hq
  obtain ⟨htotal, hserves⟩ := h.gen gen hgen
  have htotal' : gen'.total = gen.total := by
    simp only [Lib.Chunks.Pool.free, ite_none_right_eq_some, some.injEq] at hfree
    rw [← hfree.2]
  rw [hchunks, hrecorded.start_eq h.addr h.size (Nat.le_of_not_lt hle)] at hfree
  have hused := h.used
  have hsum := h.sum_le
  rw [hrecords, map_append, sum_append, map_cons, sum_cons] at hused hsum
  have hsize := h.size
  have halign := align_lt (k := order c r.request) (x := r.request)
  rw [hfits, herase]
  refine ⟨fun heq => ⟨⟨h.addr, h.size, fun g hg => ?_, fun hnone => ?_, fun r' hr' => ?_⟩, ?_⟩,
    fun hne hacc => hne ?_⟩
  · obtain rfl := some.inj hg
    rw [htotal', map_append]
    refine ⟨htotal, ?_⟩
    rw [hrecords, map_append, map_cons] at hserves
    exact hserves.free hfree
  · cases hnone
  · apply h.recorded r'
    rw [hrecords]
    rcases mem_append.mp hr' with hl | hl
    · exact mem_append_left _ hl
    · exact mem_append_right _ (mem_cons_of_mem _ hl)
  · show (p.used + 2 ^ 32 - align (order c r.request) r.request) % 2 ^ 32 =
      ((rs ++ rs').map Record.size).sum
    rw [map_append, sum_append, heq, hused]
    omega
  · have hacc' : (p.used + 2 ^ 32 - align (order c r.request) r.request) % 2 ^ 32 =
      ((rs ++ rs').map Record.size).sum := hacc.used
    rw [map_append, sum_append, hused] at hacc'
    omega

theorem onPool_cases {f : Pool → Option Pool} (h : onPool dst f s = some t) :
    findPool dst s = none ∧ t = s ∨ ∃ ps p q ps', s = ps ++ p :: ps' ∧ findPool dst s = some p ∧
      f p = some q ∧ t = ps ++ q :: ps' := by
  induction s generalizing t with
  | nil =>
    cases h
    exact .inl ⟨rfl, rfl⟩
  | cons p ps ih =>
    rw [onPool] at h
    by_cases hdst : p.dst = dst % 2 ^ 8
    · rw [if_pos hdst] at h
      obtain ⟨q, hq, rfl⟩ := map_eq_some_iff.mp h
      exact .inr ⟨[], p, q, ps, rfl, List.find?_cons_of_pos (beq_iff_eq.mpr hdst), hq, rfl⟩
    · rw [if_neg hdst] at h
      obtain ⟨t, ht, rfl⟩ := map_eq_some_iff.mp h
      have hfind : findPool dst (p :: ps) = findPool dst ps :=
        List.find?_cons_of_neg (by rwa [beq_iff_eq])
      rw [hfind]
      rcases ih ht with ⟨hnone, rfl⟩ | ⟨qs, p', q, qs', rfl, hfound, hq, rfl⟩
      · exact .inl ⟨hnone, rfl⟩
      · exact .inr ⟨p :: qs, p', q, qs', rfl, hfound, hq, rfl⟩

def Inv (c : Config) (s : State) : Prop := ∀ p ∈ s, PoolInv c p

theorem Inv.replace {ps ps' : List Pool} (h : Inv c (ps ++ p :: ps')) (hq : PoolInv c q) :
    Inv c (ps ++ q :: ps') := by
  intro x hx
  rcases mem_append.mp hx with hl | hl
  · exact h x (mem_append_left _ hl)
  · rcases mem_cons.mp hl with rfl | hl
    · exact hq
    · exact h x (mem_append_right _ (mem_cons_of_mem _ hl))

theorem Inv.found (h : Inv c s) (hfound : findPool dst s = some p) : PoolInv c p :=
  h p (List.mem_of_find?_eq_some hfound)

theorem step_inv (h : Inv c s) {l : Label} (ht : step c s l = some t) :
    (Ok c s l → Inv c t) ∧ (¬Ok c s l → ∃ q ∈ t, ¬Accounted q) := by
  cases l with
  | init addr size dst created =>
    simp only [step, ite_none_right_eq_some, some.injEq] at ht
    obtain ⟨⟨haddr, -⟩, rfl⟩ := ht
    refine ⟨fun _ => ?_, fun hnot => absurd trivial hnot⟩
    rw [smemInit]
    split
    · exact h
    · intro p hp
      rcases mem_append.mp hp with hold | hnew
      · exact h p hold
      · obtain rfl := mem_singleton.mp hnew
        exact poolInv_new haddr created
  | alloc dst size start =>
    simp only [step, ite_none_right_eq_some] at ht
    obtain ⟨hsize, ht⟩ := ht
    refine ⟨fun _ => ?_, fun hnot => absurd trivial hnot⟩
    rcases onPool_cases ht with ⟨-, rfl⟩ | ⟨ps, p, q, ps', rfl, hfound, hq, rfl⟩
    · exact h
    · exact h.replace ((h.found hfound).alloc hsize hq)
  | free dst addr size =>
    simp only [step, ite_none_right_eq_some] at ht
    obtain ⟨hlive, ht⟩ := ht
    rcases onPool_cases ht with ⟨hnone, rfl⟩ | ⟨ps, p, q, ps', rfl, hfound, hq, rfl⟩
    · refine ⟨fun _ => h, fun hnot => absurd ?_ hnot⟩
      intro p hp
      cases hnone.symm.trans hp
    · have hok : Ok c (ps ++ p :: ps') (.free dst addr size) ↔ Fits c p size := by
        refine ⟨fun hok => hok p hfound, fun hfits p' hp' => ?_⟩
        obtain rfl := some.inj (hfound.symm.trans hp')
        exact hfits
      obtain ⟨hinv, hnot⟩ := (h.found hfound).free (hlive p hfound) hq
      rw [hok]
      refine ⟨fun hfits => h.replace (hinv hfits), fun hfits => ⟨q, ?_, hnot hfits⟩⟩
      exact mem_append_right _ mem_cons_self

theorem inv_of_reaches (h : Reaches (step c) (Ok c) [] s) : Inv c s :=
  h.invariant (P := Inv c) (fun _ h => by cases h) fun _ _ _ hs hok ht => (step_inv hs ht).1 hok

/-- The counters are right up to the first free that rounds to less than its allocation, and not
behind it. -/
theorem used_accounted (h : Reaches (step c) (Ok c) [] s) :
    (∀ p ∈ s, Accounted p) ∧
      ∀ l t, step c s l = some t → ((∀ p ∈ t, Accounted p) ↔ Ok c s l) := by
  have hinv := inv_of_reaches h
  refine ⟨fun p hp => (hinv p hp).accounted, fun l t ht => ?_⟩
  obtain ⟨hok, hnot⟩ := step_inv hinv ht
  refine ⟨fun hall => ?_, fun hl p hp => (hok hl p hp).accounted⟩
  by_contra hl
  obtain ⟨q, hq, hne⟩ := hnot hl
  exact hne (hall q hq)

instance decidableOk (c : Config) (s : State) : (l : Label) → Decidable (Ok c s l)
  | .free dst _ size => inferInstanceAs (Decidable (∀ p ∈ findPool dst s, p.size < alignPoolsz ∨
      size ≥ alignPoolsz ∨ align (minOrder c) size = align c.pageShift size))
  | .init _ _ _ _ | .alloc _ _ _ => inferInstanceAs (Decidable True)

/-- A pool of pages and a small one, which frees 100 bytes. -/
theorem used_accounted_two : ∃ s,
    Reaches (step ⟨12, true, by decide⟩) (Ok ⟨12, true, by decide⟩) [] s ∧
      (∀ p ∈ s, Accounted p) ∧ s.map Pool.used = [8192, 0] := by
  have hrun : (run (guarded (step ⟨12, true, by decide⟩) (Ok ⟨12, true, by decide⟩)) []
      [.init 0x80000000 0x40000 1 .done, .init 0x1000 0x100 2 .done, .alloc 1 5000 (some 0),
        .alloc 2 100 (some 3), .free 2 0x1018 100]).any
      (fun s => decide (s.map Pool.used = [8192, 0])) = true := by
    decide
  obtain ⟨s, hreaches, hs⟩ := exists_of_run _ hrun
  exact ⟨s, hreaches, (used_accounted hreaches).1, hs⟩

/-- A block of one page that was asked for as 100 bytes: 3992 bytes stay in the counter. -/
theorem not_used_accounted : ¬∀ (c : Config) (s : State),
    Reaches (step c) (fun _ _ => True) [] s → ∀ p ∈ s, Accounted p := by
  intro h
  have hrun : (run (guarded (step ⟨12, true, by decide⟩) fun _ _ => True) []
      [.init 0x80000000 0x40000 1 .done, .alloc 1 100 (some 0), .free 1 0x80000000 100]).any
      (fun s => decide (∃ p ∈ s, p.records = [] ∧ p.used ≠ 0)) = true := by
    decide
  obtain ⟨s, hreaches, p, hp, hrecords, hused⟩ := exists_of_run _ hrun
  exact hused ((h _ s hreaches p hp).empty hrecords)

end ModemSupport.Sipc.Smem
