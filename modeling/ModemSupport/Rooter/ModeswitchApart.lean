import ModemSupport.Rooter.Modeswitch

/-! The slots of `modeswitch.sh` over whole runs: as long as no reinsertion saves the variables, the
slots below `MODSTART` are those in use. -/

namespace ModemSupport.Rooter.Modeswitch

open Lib.Transition List Option

variable {m k : Nat} {s t : State} {d : Device} {x : Detection} {n : List Char} {slot : Slot}

namespace State

theorem findDevice_some (h : s.findDevice m n = some k) :
    1 ≤ k ∧ k ≤ m ∧ (s.slots k).empty = false ∧ (s.slots k).device = n := by
  have hmem := List.mem_of_find?_eq_some h
  have hfound := List.find?_some h
  rw [mem_range'_1] at hmem
  simp only [Bool.and_eq_true, Bool.not_eq_true', beq_iff_eq] at hfound
  exact ⟨by omega, by omega, hfound⟩

theorem findDevice_none (h : s.findDevice m n = none) (h1 : 1 ≤ k) (hm : k ≤ m)
    (hk : (s.slots k).empty = false) : (s.slots k).device ≠ n := by
  intro hn
  have hnone := List.find?_eq_none.mp h k (mem_range'_1.mpr ⟨h1, by omega⟩)
  simp [hk, hn] at hnone

theorem reinserted_some (h : s.reinserted m d = some k) :
    s.findDevice m d.name = some k ∧ (s.slots k).active = false := by
  obtain ⟨hfound, hk⟩ := filter_eq_some_iff.mp h
  simp only [Bool.and_eq_true, Bool.not_eq_true'] at hk
  exact ⟨hfound, hk.1.1⟩

@[simp] theorem setSlot_self : (s.setSlot k slot).slots k = slot := if_pos rfl

theorem setSlot_of_ne {j : Nat} (h : j ≠ k) : (s.setSlot k slot).slots j = s.slots j := if_neg h

@[simp] theorem setSlot_vars : (s.setSlot k slot).vars = s.vars := rfl

@[simp] theorem setSlot_plugged : (s.setSlot k slot).plugged = s.plugged := rfl

end State

theorem reinsert_saved (v : Variables) (k : Nat) (slot : Slot) : (v.reinsert k slot).saved =
    if slot.wwan = [] ∧ slot.wdm = [] then v else (v.reinsert k slot).memory := by
  rw [Variables.reinsert]
  by_cases hwwan : slot.wwan = []
  · by_cases hwdm : slot.wdm = []
    · simp [Choice.take, hwwan, hwdm]
    · simp [Choice.take, hwwan, hwdm]
  · by_cases hwdm : slot.wdm = []
    · simp [Choice.take, hwwan, hwdm]
    · simp [Choice.take, hwwan, hwdm]

theorem take_frame (c : Choice) (value : List Char) (set : Variables → Variables)
    (hset : ∀ v, (set v).modStart = v.modStart) :
    (c.take value set).reinsert = c.reinsert ∧ (c.take value set).slot = c.slot ∧
      (c.take value set).memory.modStart = c.memory.modStart := by
  rw [Choice.take]
  split
  · exact ⟨rfl, rfl, rfl⟩
  · exact ⟨rfl, rfl, hset _⟩

theorem reinsert_frame (v : Variables) (k : Nat) (slot : Slot) :
    (v.reinsert k slot).reinsert = true ∧ (v.reinsert k slot).slot = k ∧
      (v.reinsert k slot).memory.modStart = k := by
  obtain ⟨hreinsert, hslot, hstart⟩ := take_frame ⟨true, k, { v with modStart := k }, v⟩ slot.wwan
    (fun v => { v with wwan := slot.wwan }) fun _ => rfl
  obtain ⟨hreinsert', hslot', hstart'⟩ := take_frame
    ((⟨true, k, { v with modStart := k }, v⟩ : Choice).take slot.wwan
      fun v => { v with wwan := slot.wwan }) slot.wdm
    (fun v => { v with wdmn := slot.wdm }) fun _ => rfl
  exact ⟨hreinsert'.trans hreinsert, hslot'.trans hslot, hstart'.trans hstart⟩

def State.freshSlot (s : State) (d : Device) (x : Detection) : Slot :=
  { s.slots s.vars.modStart with
    empty := false
    active := true
    device := d.name
    uVid := d.uVid
    uPid := d.uPid
    idV := x.idV
    idP := x.idP
    baseport := s.vars.basePort
    maxport := x.portn.getD 0 + s.vars.basePort }

inductive Added (m : Nat) (s : State) (d : Device) (x : Detection) : State × Option Nat → Prop
  | same : (d.ignored = true ∨ x.other = true ∨ s.reinserted m d = none) → Added m s d x (s, none)
  | undetected {k : Nat} : d.ignored = false → x.other = false → s.reinserted m d = some k →
      Added m s d x ({ s with vars := (s.vars.reinsert k (s.slots k)).saved }, none)
  | back {k : Nat} : d.ignored = false → x.other = false → s.reinserted m d = some k →
      Added m s d x (({ s with vars := (s.vars.reinsert k (s.slots k)).saved : State }.setSlot k
        { s.slots k with active := true }), some k)
  | fresh : d.ignored = false → s.findDevice m d.name = none → s.vars.modStart ≤ m →
      Added m s d x (({ s with
        vars :=
          { s.vars with
            modStart := s.vars.modStart + 1
            basePort := x.portn.getD 0 + s.vars.basePort } : State }.setSlot s.vars.modStart
        (s.freshSlot d x)), some s.vars.modStart)

theorem reinserted_none (h : s.findDevice m d.name = none) : s.reinserted m d = none := by
  rw [State.reinserted, h]
  rfl

theorem added : Added m s d x (s.add m d x) := by
  rw [State.add]
  by_cases hskip : (d.ignored || x.other) = true
  · rw [if_pos hskip]
    exact .same ((Bool.or_eq_true_iff.mp hskip).imp_right .inl)
  rw [if_neg hskip]
  obtain ⟨hignored, hother⟩ := Bool.or_eq_false_iff.mp (Bool.eq_false_iff.mpr hskip)
  rw [State.choose]
  cases hfind : s.findDevice m d.name with
  | none =>
    have hnone := reinserted_none hfind
    by_cases hfull : s.vars.modStart > m
    · simp only [hfull, ↓reduceIte]
      exact .same (.inr (.inr hnone))
    · simp only [hfull, ↓reduceIte, State.detected]
      by_cases hretval : x.retval = 0
      · rw [if_pos hretval]
        exact .same (.inr (.inr hnone))
      · rw [if_neg hretval, if_neg Bool.false_ne_true]
        exact .fresh hignored hfind (Nat.le_of_not_gt hfull)
  | some j =>
    cases hre : s.reinserted m d with
    | none => exact .same (.inr (.inr hre))
    | some k =>
      obtain ⟨hfound, -⟩ := State.reinserted_some hre
      obtain ⟨hreinsert, hslot, hstart⟩ := reinsert_frame s.vars k (s.slots k)
      have hle := (State.findDevice_some hfound).2.1
      simp only [map_some, hstart, Nat.not_lt.mpr hle, ↓reduceIte, State.detected]
      by_cases hretval : x.retval = 0
      · rw [if_pos hretval]
        exact .undetected hignored hother hre
      · rw [if_neg hretval, if_pos hreinsert, hslot]
        exact .back hignored hother hre

theorem checkAllEmpty_cases : s.checkAllEmpty = s ∧ (∃ k, 1 ≤ k ∧ k ≤ modCnt ∧
      (s.slots k).empty = false ∧ (s.slots k).active = true) ∨
    s.checkAllEmpty = { s with
      slots := fun k => if 1 ≤ k ∧ k ≤ modCnt then .vacant else s.slots k
      vars := .start } ∧
      ∀ k, 1 ≤ k → k ≤ modCnt → (s.slots k).empty = false → (s.slots k).active = false := by
  rw [State.checkAllEmpty]
  split
  next hany =>
    obtain ⟨k, hmem, hk⟩ := List.any_eq_true.mp hany
    rw [mem_range'_1] at hmem
    rw [Bool.and_eq_true, Bool.not_eq_true'] at hk
    exact .inl ⟨rfl, k, hmem.1, by omega, hk⟩
  next hany =>
    refine .inr ⟨rfl, fun k h1 hle hk => ?_⟩
    have hnot := List.any_eq_false.mp (Bool.eq_false_iff.mpr hany) k
      (mem_range'_1.mpr ⟨h1, by omega⟩)
    simpa [hk] using hnot

/-- The slots below `MODSTART` are the ones in use; those of the modems that are plugged in are
active, and no others are. -/
structure Inv (m : Nat) (s : State) : Prop where
  start : 1 ≤ s.vars.modStart
  room : s.vars.modStart ≤ m + 1
  used : ∀ k, (s.slots k).empty = false ↔ 1 ≤ k ∧ k < s.vars.modStart
  device : ∀ j k, (s.slots j).empty = false → (s.slots k).empty = false →
    (s.slots j).device = (s.slots k).device → j = k
  port : ∀ k, (s.slots k).empty = false →
    (s.slots k).baseport ≤ (s.slots k).maxport ∧ (s.slots k).maxport ≤ s.vars.basePort
  ports : ∀ j k, j < k → (s.slots j).empty = false → (s.slots k).empty = false →
    (s.slots j).maxport ≤ (s.slots k).baseport
  active : ∀ k, (s.slots k).active = true →
    (s.slots k).empty = false ∧ ((s.slots k).device, some k) ∈ s.plugged
  plugged : ∀ n k, (n, some k) ∈ s.plugged →
    (s.slots k).empty = false ∧ (s.slots k).active = true ∧ (s.slots k).device = n
  named : ∀ n k, (n, some k) ∈ s.plugged → n.contains ':' = false

theorem inv_init : Inv m init where
  start := Nat.le_refl 1
  room := Nat.le_add_left 1 m
  used k := by
    show true = false ↔ 1 ≤ k ∧ k < 1
    simp only [Bool.true_eq_false, false_iff]
    omega
  device _ _ h := by cases h
  port _ h := by cases h
  ports _ _ _ h := by cases h
  active _ h := by cases h
  plugged _ _ h := by cases h
  named _ _ h := by cases h

theorem countP_lt {p : Nat → Bool} {c : Nat} (h1 : 1 ≤ c) (h : ∀ k, p k = true ↔ 1 ≤ k ∧ k < c) :
    (List.range' 1 m).countP p = min m (c - 1) := by
  induction m with
  | zero => simp
  | succ m ih =>
    rw [List.range'_1_concat, countP_append, ih, countP_singleton]
    by_cases hlt : 1 + m < c
    · rw [if_pos ((h _).mpr ⟨by omega, hlt⟩)]
      omega
    · rw [if_neg (fun hp => hlt ((h _).mp hp).2)]
      omega

theorem Inv.count (h : Inv m s) :
    (List.range' 1 m).countP (fun k => !(s.slots k).empty) + 1 = s.vars.modStart := by
  have hstart := h.start
  have hroom := h.room
  have hused : ∀ k, (!(s.slots k).empty) = true ↔ 1 ≤ k ∧ k < s.vars.modStart := by
    intro k
    rw [Bool.not_eq_true', h.used]
  rw [countP_lt hstart hused]
  omega

theorem Inv.apart (h : Inv m s) : Apart m s where
  slots p hp q hq hne k hk hk' := by
    obtain ⟨n, i⟩ := p
    obtain ⟨n', i'⟩ := q
    subst hk hk'
    exact hne ((h.plugged n k hp).2.2.symm.trans (h.plugged n' k hq).2.2)
  start := h.count.symm
  ports j k _ hjk _ hj hk port := by
    have hle := h.ports j k hjk hj hk
    simp only [Slot.Owns]
    omega

theorem Inv.without (h : Inv m s) : Inv m { s with plugged := (n, none) :: s.plugged } where
  start := h.start
  room := h.room
  used := h.used
  device := h.device
  port := h.port
  ports := h.ports
  active k hk := by
    obtain ⟨hused, hplugged⟩ := h.active k hk
    exact ⟨hused, mem_cons_of_mem _ hplugged⟩
  plugged n' k hk := by
    rcases mem_cons.mp hk with heq | hold
    · cases heq
    · exact h.plugged n' k hold
  named n' k hk := by
    rcases mem_cons.mp hk with heq | hold
    · cases heq
    · exact h.named n' k hold

structure SameUse (a b : Slot) : Prop where
  empty : a.empty = b.empty
  device : a.device = b.device
  baseport : a.baseport = b.baseport
  maxport : a.maxport = b.maxport

theorem sameUse_setSlot (h : SameUse slot (s.slots k)) (j : Nat) :
    SameUse ((s.setSlot k slot).slots j) (s.slots j) := by
  by_cases hj : j = k
  · subst hj
    rw [State.setSlot_self]
    exact h
  · rw [State.setSlot_of_ne hj]
    exact ⟨rfl, rfl, rfl, rfl⟩

theorem Inv.sameUse (h : Inv m s) (hvars : t.vars = s.vars)
    (hslots : ∀ j, SameUse (t.slots j) (s.slots j))
    (hactive : ∀ j, (t.slots j).active = true →
      (t.slots j).empty = false ∧ ((t.slots j).device, some j) ∈ t.plugged)
    (hplugged : ∀ n j, (n, some j) ∈ t.plugged →
      (t.slots j).empty = false ∧ (t.slots j).active = true ∧ (t.slots j).device = n)
    (hnamed : ∀ n j, (n, some j) ∈ t.plugged → n.contains ':' = false) : Inv m t where
  start := by
    rw [hvars]
    exact h.start
  room := by
    rw [hvars]
    exact h.room
  used j := by
    rw [hvars, (hslots j).empty]
    exact h.used j
  device j j' := by
    rw [(hslots j).empty, (hslots j').empty, (hslots j).device, (hslots j').device]
    exact h.device j j'
  port j := by
    rw [hvars, (hslots j).empty, (hslots j).baseport, (hslots j).maxport]
    exact h.port j
  ports j j' := by
    rw [(hslots j).empty, (hslots j').empty, (hslots j).maxport, (hslots j').baseport]
    exact h.ports j j'
  active := hactive
  plugged := hplugged
  named := hnamed

theorem Inv.named_cons (h : Inv m s) (hn : n.contains ':' = false) {i : Option Nat} :
    ∀ n' j, (n', some j) ∈ (n, i) :: s.plugged → n'.contains ':' = false := by
  intro n' j hj
  rcases mem_cons.mp hj with heq | hold
  · cases heq
    exact hn
  · exact h.named n' j hold

theorem Inv.back (h : Inv m s) (hn : n.contains ':' = false) (hfound : s.findDevice m n = some k)
    (hidle : (s.slots k).active = false) :
    Inv m { s.setSlot k { s.slots k with active := true } with
      plugged := (n, some k) :: s.plugged } := by
  obtain ⟨h1, hm, hused, rfl⟩ := State.findDevice_some hfound
  have hslot : SameUse { s.slots k with active := true } (s.slots k) := ⟨rfl, rfl, rfl, rfl⟩
  refine h.sameUse rfl (fun j => sameUse_setSlot hslot j) (fun j hj => ?_) (fun n j hj => ?_)
    (h.named_cons hn)
  · by_cases hjk : j = k
    · subst hjk
      simpa using hused
    · simp only [State.setSlot_of_ne hjk] at hj ⊢
      obtain ⟨hj', hmem⟩ := h.active j hj
      exact ⟨hj', mem_cons_of_mem _ hmem⟩
  · rcases mem_cons.mp hj with heq | hold
    · cases heq
      simpa using hused
    · obtain ⟨hj', hactive, hname⟩ := h.plugged n j hold
      have hjk : j ≠ k := by
        rintro rfl
        rw [hidle] at hactive
        cases hactive
      simpa only [State.setSlot_of_ne hjk] using ⟨hj', hactive, hname⟩

theorem Inv.fresh (h : Inv m s) (hn : d.name.contains ':' = false)
    (hnone : s.findDevice m d.name = none) (hle : s.vars.modStart ≤ m) :
    Inv m { ({ s with
        vars :=
          { s.vars with
            modStart := s.vars.modStart + 1
            basePort := x.portn.getD 0 + s.vars.basePort } : State }.setSlot s.vars.modStart
        (s.freshSlot d x)) with
      plugged := (d.name, some s.vars.modStart) :: s.plugged } := by
  have hother : ∀ k, (s.slots k).empty = false →
      k ≠ s.vars.modStart ∧ (s.slots k).device ≠ d.name := by
    intro k hk
    obtain ⟨h1, hlt⟩ := (h.used k).mp hk
    exact ⟨by omega, State.findDevice_none hnone h1 (by omega) hk⟩
  have hstart := h.start
  refine ⟨by simp, by simp [hle], fun k => ?_, fun j k => ?_, fun k => ?_, fun j k => ?_,
    fun k => ?_, fun n k hk => ?_, h.named_cons hn⟩
  · by_cases hk : k = s.vars.modStart
    · subst hk
      simp [State.freshSlot, hstart]
    · simp only [State.setSlot_of_ne hk, h.used, State.setSlot_vars]
      omega
  · by_cases hj : j = s.vars.modStart
    · subst hj
      by_cases hk : k = s.vars.modStart
      · exact fun _ _ _ => hk.symm
      · simp only [State.setSlot_self, State.setSlot_of_ne hk]
        exact fun _ hused heq => absurd heq.symm (hother k hused).2
    · by_cases hk : k = s.vars.modStart
      · subst hk
        simp only [State.setSlot_self, State.setSlot_of_ne hj]
        exact fun hused _ heq => absurd heq (hother j hused).2
      · simp only [State.setSlot_of_ne hj, State.setSlot_of_ne hk]
        exact h.device j k
  · by_cases hk : k = s.vars.modStart
    · subst hk
      simp [State.freshSlot]
    · simp only [State.setSlot_of_ne hk, State.setSlot_vars]
      intro hused
      have hport := h.port k hused
      omega
  · intro hjk
    by_cases hj : j = s.vars.modStart
    · subst hj
      simp only [State.setSlot_of_ne (Nat.ne_of_gt hjk)]
      intro _ hused
      have hlt := (h.used k).mp hused
      omega
    · by_cases hk : k = s.vars.modStart
      · subst hk
        simp only [State.setSlot_self, State.setSlot_of_ne hj, State.freshSlot]
        exact fun hused _ => (h.port j hused).2
      · simp only [State.setSlot_of_ne hj, State.setSlot_of_ne hk]
        exact h.ports j k hjk
  · by_cases hk : k = s.vars.modStart
    · subst hk
      simp [State.freshSlot]
    · simp only [State.setSlot_of_ne hk]
      intro hactive
      obtain ⟨hused, hmem⟩ := h.active k hactive
      exact ⟨hused, mem_cons_of_mem _ hmem⟩
  · rcases mem_cons.mp hk with heq | hold
    · cases heq
      simp [State.freshSlot]
    · obtain ⟨hused, hrest⟩ := h.plugged n k hold
      simpa only [State.setSlot_of_ne (hother k hused).1] using ⟨hused, hrest⟩

theorem Inv.write (h : Inv m s) (wwan wdm : List Char) :
    Inv m (s.setSlot k { s.slots k with wwan := wwan, wdm := wdm }) := by
  have hslot : SameUse { s.slots k with wwan := wwan, wdm := wdm } (s.slots k) :=
    ⟨rfl, rfl, rfl, rfl⟩
  refine h.sameUse rfl (fun j => sameUse_setSlot hslot j) (fun j => ?_) (fun n j hj => ?_) h.named
  · by_cases hjk : j = k
    · subst hjk
      simpa only [State.setSlot_self, State.setSlot_plugged] using h.active j
    · simpa only [State.setSlot_of_ne hjk, State.setSlot_plugged] using h.active j
  · by_cases hjk : j = k
    · subst hjk
      simpa only [State.setSlot_self] using h.plugged n j hj
    · simpa only [State.setSlot_of_ne hjk] using h.plugged n j hj

theorem mem_leave {p : List Char × Option Nat} :
    p ∈ s.plugged.filter (fun p => p.1 ≠ n) ↔ p ∈ s.plugged ∧ p.1 ≠ n := by
  rw [mem_filter, decide_eq_true_iff]

theorem Inv.leave (h : Inv m s) (hnone : ∀ k, (n, some k) ∉ s.plugged) :
    Inv m { s with plugged := s.plugged.filter fun p => p.1 ≠ n } := by
  refine h.sameUse rfl (fun j => ⟨rfl, rfl, rfl, rfl⟩) (fun j hj => ?_) (fun n j hj => ?_)
    fun n j hj => h.named n j (mem_leave.mp hj).1
  · obtain ⟨hused, hmem⟩ := h.active j hj
    refine ⟨hused, mem_leave.mpr ⟨hmem, fun heq => ?_⟩⟩
    have hdevice : (s.slots j).device = n := heq
    rw [hdevice] at hmem
    exact hnone j hmem
  · exact h.plugged n j (mem_leave.mp hj).1

theorem Inv.idle (h : Inv m s) (hfound : s.findDevice modCnt n = some k) :
    Inv m { s.setSlot k { s.slots k with active := false } with
      plugged := s.plugged.filter fun p => p.1 ≠ n } := by
  obtain ⟨-, -, hused, rfl⟩ := State.findDevice_some hfound
  have hslot : SameUse { s.slots k with active := false } (s.slots k) := ⟨rfl, rfl, rfl, rfl⟩
  refine h.sameUse rfl (fun j => sameUse_setSlot hslot j) (fun j hj => ?_) (fun n j hj => ?_)
    fun n j hj => h.named n j (mem_leave.mp hj).1
  · have hjk : j ≠ k := by
      rintro rfl
      simp at hj
    simp only [State.setSlot_of_ne hjk] at hj ⊢
    obtain ⟨hused', hmem⟩ := h.active j hj
    exact ⟨hused', mem_leave.mpr ⟨hmem, fun heq => hjk (h.device j k hused' hused heq)⟩⟩
  · obtain ⟨hmem, hne⟩ := mem_leave.mp hj
    obtain ⟨hused', hactive, hname⟩ := h.plugged n j hmem
    have hjk : j ≠ k := by
      rintro rfl
      exact hne hname.symm
    simpa only [State.setSlot_of_ne hjk] using ⟨hused', hactive, hname⟩

theorem Inv.checkAllEmpty (h : Inv m s) (hm : m ≤ modCnt) : Inv m s.checkAllEmpty := by
  obtain ⟨heq, -⟩ | ⟨heq, hidle⟩ := checkAllEmpty_cases (s := s)
  · rwa [heq]
  · have hvacant : ∀ k, (s.checkAllEmpty.slots k).empty = true ∧
        (s.checkAllEmpty.slots k).active = false := by
      intro k
      rw [heq]
      by_cases hk : 1 ≤ k ∧ k ≤ modCnt
      · simp only [hk, and_self, ↓reduceIte]
        exact ⟨rfl, rfl⟩
      · simp only [hk, ↓reduceIte]
        have hroom := h.room
        have hempty : (s.slots k).empty = true := by
          rw [← Bool.not_eq_false, h.used]
          omega
        refine ⟨hempty, Bool.eq_false_iff.mpr fun hactive => ?_⟩
        rw [(h.active k hactive).1] at hempty
        cases hempty
    have hnone : ∀ n k, (n, some k) ∉ s.plugged := by
      intro n k hmem
      obtain ⟨hused, hactive, -⟩ := h.plugged n k hmem
      have hroom := h.room
      have hk := (h.used k).mp hused
      rw [hidle k hk.1 (by omega) hused] at hactive
      cases hactive
    have hvars : s.checkAllEmpty.vars.modStart = 1 := by rw [heq]; rfl
    have hplugged : s.checkAllEmpty.plugged = s.plugged := by rw [heq]
    refine ⟨by omega, by omega, fun k => ?_, fun j k hj => ?_, fun k hk => ?_,
      fun j k _ hj => ?_, fun k hk => ?_, fun n k hk => ?_, fun n k hk => ?_⟩
    · rw [(hvacant k).1, hvars]
      simp only [Bool.true_eq_false, false_iff]
      omega
    · cases (hvacant j).1.symm.trans hj
    · cases (hvacant k).1.symm.trans hk
    · cases (hvacant j).1.symm.trans hj
    · cases (hvacant k).2.symm.trans hk
    · exact absurd (hplugged ▸ hk) (hnone n k)
    · exact absurd (hplugged ▸ hk) (hnone n k)

theorem checkAllEmpty_plugged {p : List (List Char × Option Nat)} :
    { s.checkAllEmpty with plugged := p } = { s with plugged := p : State }.checkAllEmpty := by
  rw [State.checkAllEmpty, State.checkAllEmpty]
  split <;> rfl

theorem Inv.remove (h : Inv m s) (hm : m ≤ modCnt)
    (hids : (s.findDevice modCnt d.name).all (fun k => d.uVid ≠ (s.slots k).idV)) :
    Inv m { s.remove d with plugged := s.plugged.filter fun p => p.1 ≠ d.name } := by
  rw [State.remove]
  by_cases hname : d.name.contains ':' = true
  · rw [if_pos hname]
    refine h.leave fun k hmem => ?_
    rw [h.named _ k hmem] at hname
    cases hname
  · rw [if_neg hname]
    cases hfind : s.findDevice modCnt d.name with
    | none =>
      refine h.leave fun k hmem => ?_
      obtain ⟨hused, -, hdevice⟩ := h.plugged _ k hmem
      have hroom := h.room
      have hk := (h.used k).mp hused
      exact State.findDevice_none hfind hk.1 (by omega) hused hdevice
    | some k =>
      have hne : d.uVid ≠ (s.slots k).idV := by simpa [hfind] using hids
      simp only [hne, ↓reduceIte]
      rw [checkAllEmpty_plugged]
      exact (h.idle hfind).checkAllEmpty hm

theorem notColon_of_ignored (h : d.ignored = false) : d.name.contains ':' = false := by
  simp only [Device.ignored, Bool.or_eq_false_iff] at h
  exact h.1.1.1.1

theorem Inv.not_apart (h : Inv m s) (hre : s.reinserted m d = some k)
    (hstart : t.vars.modStart = k) (hslots : ∀ j, (t.slots j).empty = (s.slots j).empty) :
    ¬Apart m t := by
  intro hapart
  have hused := (State.findDevice_some (State.reinserted_some hre).1).2.2.1
  have hk := (h.used k).mp hused
  have hcount := hapart.start
  simp only [hslots] at hcount
  rw [h.count, hstart] at hcount
  omega

theorem ok_of_none (h : s.reinserted m d = none) : Ok m s (.add d x) :=
  .inr (.inr (by rw [h]; rfl))

theorem ok_iff (hignored : d.ignored = false) (hother : x.other = false)
    (hre : s.reinserted m d = some k) :
    Ok m s (.add d x) ↔ (s.slots k).wwan = [] ∧ (s.slots k).wdm = [] := by
  simp [Ok, hignored, hother, hre]

theorem step_add (h : Inv m s) (ht : step m s (.add d x) = some t) :
    (Ok m s (.add d x) → Inv m t ∧ Kept s (.add d x) t) ∧
      (¬Ok m s (.add d x) → ¬Apart m t) := by
  simp only [step, ite_none_left_eq_some, some.injEq] at ht
  obtain ⟨-, rfl⟩ := ht
  generalize hr : s.add m d x = r
  have hadded : Added m s d x r := hr ▸ added
  cases hadded with
  | same hnone =>
    refine ⟨fun _ => ⟨h.without, fun _ _ _ _ _ => rfl⟩, fun hnot => absurd ?_ hnot⟩
    exact hnone.imp_right (.imp_right fun hre => by rw [hre]; rfl)
  | @undetected k hignored hother hre =>
    have hsaved := reinsert_saved s.vars k (s.slots k)
    rw [ok_iff hignored hother hre]
    refine ⟨fun hok => ?_, fun hnot => ?_⟩
    · rw [if_pos hok] at hsaved
      rw [hsaved]
      exact ⟨h.without, fun _ _ _ _ _ => rfl⟩
    · rw [if_neg hnot] at hsaved
      rw [hsaved]
      exact h.not_apart hre (reinsert_frame _ _ _).2.2 fun _ => rfl
  | @back k hignored hother hre =>
    have hsaved := reinsert_saved s.vars k (s.slots k)
    obtain ⟨hfound, hidle⟩ := State.reinserted_some hre
    rw [ok_iff hignored hother hre]
    refine ⟨fun hok => ?_, fun hnot => ?_⟩
    · rw [if_pos hok] at hsaved
      rw [hsaved]
      refine ⟨h.back (notColon_of_ignored hignored) hfound hidle, fun _ _ _ j hj => ?_⟩
      refine State.setSlot_of_ne ?_
      rintro rfl
      cases hidle.symm.trans hj
    · rw [if_neg hnot] at hsaved
      rw [hsaved]
      have hslot : SameUse { s.slots k with active := true } (s.slots k) := ⟨rfl, rfl, rfl, rfl⟩
      exact h.not_apart hre (reinsert_frame _ _ _).2.2 fun j => (sameUse_setSlot hslot j).empty
  | fresh hignored hnone hle =>
    refine ⟨fun _ => ⟨h.fresh (notColon_of_ignored hignored) hnone hle, fun _ _ _ j hj => ?_⟩,
      fun hnot => absurd (ok_of_none (reinserted_none hnone)) hnot⟩
    refine State.setSlot_of_ne ?_
    rintro rfl
    exact Nat.lt_irrefl _ ((h.used _).mp (h.active _ hj).1).2

theorem step_inv (hm : m ≤ modCnt) (h : Inv m s) {l : Label} (ht : step m s l = some t) :
    (Ok m s l → Inv m t ∧ Kept s l t) ∧ (¬Ok m s l → ¬Apart m t) := by
  cases l with
  | add d x => exact step_add h ht
  | remove d =>
    simp only [step, ite_none_right_eq_some, some.injEq] at ht
    obtain ⟨⟨-, hids⟩, rfl⟩ := ht
    exact ⟨fun _ => ⟨h.remove hm hids, fun _ _ hl => by cases hl⟩, fun hnot => absurd trivial hnot⟩
  | write k wwan wdm =>
    simp only [step, ite_none_right_eq_some, some.injEq] at ht
    obtain ⟨-, rfl⟩ := ht
    exact ⟨fun _ => ⟨h.write wwan wdm, fun _ _ hl => by cases hl⟩, fun hnot => absurd trivial hnot⟩

theorem inv_of_reaches (hm : m ≤ modCnt) (h : Reaches (step m) (Ok m) init s) : Inv m s :=
  h.invariant (P := Inv m) inv_init fun _ _ _ hs hok ht => ((step_inv hm hs ht).1 hok).1

/-- The slots stay apart up to the first reinsertion that finds a value in its slot, and not behind
it. -/
theorem slots_apart (hm : m ≤ modCnt) (h : Reaches (step m) (Ok m) init s) :
    Apart m s ∧ ∀ l t, step m s l = some t → (Kept s l t ∧ Apart m t ↔ Ok m s l) := by
  have hinv := inv_of_reaches hm h
  refine ⟨hinv.apart, fun l t ht => ?_⟩
  obtain ⟨hok, hnot⟩ := step_inv hm hinv ht
  refine ⟨fun hboth => ?_, fun hl => ?_⟩
  · by_contra hl
    exact hnot hl hboth.2
  · exact ⟨(hok hl).2, (hok hl).1.apart⟩

instance decidableOk (m : Nat) (s : State) : (l : Label) → Decidable (Ok m s l)
  | .add d x => inferInstanceAs (Decidable (d.ignored = true ∨ x.other = true ∨ _ = true))
  | .remove _ | .write _ _ _ => inferInstanceAs (Decidable True)

def modem (name : List Char) : Device :=
  ⟨name, "2c7c".toList, "0125".toList, "Quectel".toList, "EC25".toList⟩

def qmi (ports : Nat) : Detection :=
  ⟨2, false, false, false, "2c7c".toList, "0125".toList, 2, some ports⟩

/-- A modem leaves and comes back to a slot without values, beside another one. -/
theorem slots_apart_back : ∃ s, Reaches (step 2) (Ok 2) init s ∧ Apart 2 s ∧
    s.plugged = [("1-1".toList, some 1), ("1-2".toList, some 2)] ∧
      s.vars = ⟨3, ['0'], ['0'], 8⟩ := by
  have hrun : (run (guarded (step 2) (Ok 2)) init
      [.add (modem "1-1".toList) (qmi 4), .add (modem "1-2".toList) (qmi 4),
        .write 2 ['1'] ['1'], .remove ⟨"1-1".toList, [], [], [], []⟩,
        .add (modem "1-1".toList) (qmi 4)]).any (fun s => decide
      (s.plugged = [("1-1".toList, some 1), ("1-2".toList, some 2)] ∧
        s.vars = ⟨3, ['0'], ['0'], 8⟩)) = true := by
    decide
  obtain ⟨s, hreaches, hs⟩ := exists_of_run _ hrun
  exact ⟨s, hreaches, (slots_apart (by decide) hreaches).1, hs⟩

/-- The same with `wwan0` in slot 1: its reinsertion saves 1 as `MODSTART`, and the next modem takes
the slot over. -/
theorem not_slots_apart : ¬∀ (m : Nat) (s : State), m ≤ modCnt →
    Reaches (step m) (fun _ _ => True) init s → Apart m s := by
  intro h
  have hrun : (run (guarded (step 2) fun _ _ => True) init
      [.add (modem "1-1".toList) (qmi 4), .add (modem "1-2".toList) (qmi 4),
        .write 1 ['0'] ['0'], .remove ⟨"1-1".toList, [], [], [], []⟩,
        .add (modem "1-1".toList) (qmi 4), .add (modem "1-3".toList) (qmi 4)]).any (fun s => decide
      (("1-1".toList, some 1) ∈ s.plugged ∧ ("1-3".toList, some 1) ∈ s.plugged)) = true := by
    decide
  obtain ⟨s, hreaches, h1, h3⟩ := exists_of_run _ hrun
  exact (h 2 s (by decide) hreaches).slots _ h1 _ h3 (by decide) 1 rfl rfl

end ModemSupport.Rooter.Modeswitch
