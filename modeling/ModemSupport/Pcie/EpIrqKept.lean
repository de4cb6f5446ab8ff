import ModemSupport.Pcie.EpIrq

/-! No interrupt of the endpoint is lost in the runs in which no bit is set between the read and the
write-back of a word that lacks it, and none is parked behind the test of a registration. -/

namespace ModemSupport.Pcie.EpIrq

open Lib.Transition List Option

variable {baseIrq : UInt32} {s t : State} {i k : Fin 32} {j : Irq} {r r' : Reg} {n : Nat}
  {run : Run}

def Run.Serves (k : Fin 32) : Run → Prop
  | .idle => False
  | .clear => True
  | .ipaLookup => True
  | .ipaCall _ => True
  | .read => True
  | .test i value => i ≤ k.val ∧ value k = true
  | .reread i => i ≤ k
  | .writeBack i value => k = i ∨ (i < k ∧ value k = true)
  | .lookup i _ value => i < k ∧ value k = true
  | .call i _ _ value => i < k ∧ value k = true
  | .park i _ value => i < k ∧ value k = true

/-- The interrupt whose bit a run has taken out of the word, and that it has not called or parked
yet. -/
def Run.Holds (baseIrq : UInt32) (j : Irq) : Run → Prop
  | .writeBack i _ => irqOf baseIrq i = some j
  | .lookup _ j' _ => j' = j
  | .call _ j' _ _ => j' = j
  | .park _ j' _ => j' = j
  | _ => False

/-- A registration that has put its handler in the table and has yet to test or clear the parked
bit. -/
def Reg.Pending (r : Reg) (j : Irq) : Prop :=
  r.irq = j ∧ r.handler.isSome ∧ (r.pc = .setData ∨ r.pc = .test ∨ r.pc = .clear)

instance (r : Reg) (j : Irq) : Decidable (r.Pending j) :=
  inferInstanceAs (Decidable (_ ∧ _))

def Reg.Calls (r : Reg) (j : Irq) : Prop := r.irq = j ∧ r.handler.isSome ∧ r.pc = .call

def State.Due (s : State) : Prop := s.line = true ∨ 0 < s.toRaise

def State.Recorded (baseIrq : UInt32) (s : State) (j : Irq) : Prop :=
  (∃ k, irqOf baseIrq k = some j ∧ s.status k = true) ∨ s.run.Holds baseIrq j ∨
    s.bakIrqStatus j = true ∨ ∃ r ∈ s.regs, r.Calls j

/-- A bit that is set now is not lost when the run writes the word back. -/
def Run.Keeps (baseIrq : UInt32) (k : Fin 32) : Run → Prop
  | .writeBack i value => irqOf baseIrq k = none ∨ k = i ∨ value k = true
  | _ => True

instance : ∀ run : Run, Decidable (run.Keeps baseIrq k)
  | .writeBack i value =>
    inferInstanceAs (Decidable (irqOf baseIrq k = none ∨ k = i ∨ value k = true))
  | .idle => inferInstanceAs (Decidable True)
  | .clear => inferInstanceAs (Decidable True)
  | .ipaLookup => inferInstanceAs (Decidable True)
  | .ipaCall _ => inferInstanceAs (Decidable True)
  | .read => inferInstanceAs (Decidable True)
  | .test .. => inferInstanceAs (Decidable True)
  | .reread _ => inferInstanceAs (Decidable True)
  | .lookup .. => inferInstanceAs (Decidable True)
  | .call .. => inferInstanceAs (Decidable True)
  | .park .. => inferInstanceAs (Decidable True)

def Run.parks : Run → Option Irq
  | .park _ j _ => some j
  | _ => none

def State.Found (s : State) (j : Irq) : Prop :=
  s.epDevHandler j = none ∨ ∃ r ∈ s.regs, r.Pending j

instance (s : State) (j : Irq) : Decidable (s.Found j) :=
  inferInstanceAs (Decidable (_ ∨ _))

/-- The endpoint sets no valid bit between the read and the write-back of a word that lacks it, and
the run parks no interrupt whose handler was registered, with the test done, since the look-up. -/
def Ok (baseIrq : UInt32) (s : State) : Label → Prop
  | .set k => s.run.Keeps baseIrq k
  | .irq => s.run.parks.all (fun j => decide (s.Found j)) = true
  | _ => True

instance : ∀ s l, Decidable (Ok baseIrq s l)
  | s, .set k => inferInstanceAs (Decidable (s.run.Keeps baseIrq k))
  | _, .irq => inferInstanceAs (Decidable (_ = true))
  | _, .raise => inferInstanceAs (Decidable True)
  | _, .register .. => inferInstanceAs (Decidable True)
  | _, .unregister _ => inferInstanceAs (Decidable True)
  | _, .reg _ => inferInstanceAs (Decidable True)

structure Inv (baseIrq : UInt32) (s : State) : Prop where
  served : ∀ k, s.status k = true → s.Due ∨ s.run.Serves k
  -- What the run is about to write back.
  cleared : ∀ i value, s.run = .writeBack i value → value i = false
  lower : ∀ i value, s.run = .writeBack i value → ∀ k, k < i → value k = true → s.Due
  written : ∀ i value, s.run = .writeBack i value → ∀ k, k ≠ i → irqOf baseIrq k ≠ none →
    s.status k = true → value k = true
  recorded : ∀ j, s.owed j = true → s.Recorded baseIrq j
  parked : ∀ j, s.bakIrqStatus j = true → s.Found j
  armed : ∀ r ∈ s.regs, r.pc = .clear ∨ r.pc = .call → r.handler.isSome = true

theorem inv_init : Inv baseIrq init where
  served := nofun
  cleared := nofun
  lower := nofun
  written := nofun
  recorded := nofun
  parked := nofun
  armed := nofun

theorem Inv.set (h : Inv baseIrq s) (hok : s.run.Keeps baseIrq i) :
    Inv baseIrq (s.set baseIrq i) where
  served := fun _ _ => .inl (.inr (Nat.succ_pos _))
  cleared := h.cleared
  lower := fun _ _ _ _ _ _ => .inr (Nat.succ_pos _)
  written := by
    intro i' value hrun k hne hvalid hstatus
    by_cases hk : k = i
    · subst hk
      rw [show s.run = .writeBack i' value from hrun] at hok
      exact (hok.resolve_left hvalid).resolve_left hne
    · have hold : s.status k = true := by simpa [State.set, hk] using hstatus
      exact h.written i' value hrun k hne hvalid hold
  recorded := by
    intro j hj
    by_cases hi : irqOf baseIrq i = some j
    · exact .inl ⟨i, hi, Function.update_self ..⟩
    · have howed : s.owed j = true := by
        cases hirq : irqOf baseIrq i with
        | none => simpa [State.set, hirq] using hj
        | some j' =>
          have hne : j ≠ j' := by
            rintro rfl
            exact hi hirq
          simpa [State.set, hirq, hne] using hj
      obtain ⟨k, hk, hstatus⟩ | hrest := h.recorded j howed
      · refine .inl ⟨k, hk, ?_⟩
        by_cases hki : k = i
        · exact hki ▸ Function.update_self ..
        · rw [← hstatus]
          exact Function.update_of_ne hki _ _
      · exact .inr hrest
  parked := h.parked
  armed := h.armed

theorem Inv.raise (h : Inv baseIrq s) (ht : s.raise = some t) : Inv baseIrq t := by
  simp only [State.raise, ite_none_right_eq_some, some.injEq] at ht
  obtain ⟨-, rfl⟩ := ht
  exact ⟨fun _ _ => .inl (.inl rfl), h.cleared, fun _ _ _ _ _ _ => .inl rfl, h.written,
    h.recorded, h.parked, h.armed⟩

theorem State.Recorded.move (h : s.Recorded baseIrq j)
    (hholds : s.run.Holds baseIrq j → run.Holds baseIrq j) :
    State.Recorded baseIrq { s with run := run } j := by
  obtain hstatus | hheld | hrest := h
  · exact .inl hstatus
  · exact .inr (.inl (hholds hheld))
  · exact .inr (.inr hrest)

theorem Inv.move (h : Inv baseIrq s)
    (hserves : ∀ k, s.status k = true → s.run.Serves k → run.Serves k)
    (hholds : ∀ j, s.run.Holds baseIrq j → run.Holds baseIrq j)
    (hrun : ∀ i value, run ≠ .writeBack i value) : Inv baseIrq { s with run := run } where
  served := by
    intro k hk
    exact (h.served k hk).imp id (hserves k hk)
  cleared := fun i value heq => absurd heq (hrun i value)
  lower := fun i value heq => absurd heq (hrun i value)
  written := fun i value heq => absurd heq (hrun i value)
  recorded j hj := (h.recorded j hj).move (hholds j)
  parked := h.parked
  armed := h.armed

theorem Inv.serve (h : Inv baseIrq s) (c : Call)
    (hserves : ∀ k, s.status k = true → s.run.Serves k → run.Serves k)
    (hholds : ∀ j, j ≠ c.irq → s.run.Holds baseIrq j → run.Holds baseIrq j)
    (hrun : ∀ i value, run ≠ .writeBack i value) : Inv baseIrq { s.serve c with run := run } where
  served := by
    intro k hk
    exact (h.served k hk).imp id (hserves k hk)
  cleared := fun i value heq => absurd heq (hrun i value)
  lower := fun i value heq => absurd heq (hrun i value)
  written := fun i value heq => absurd heq (hrun i value)
  recorded := by
    intro j hj
    have hne : j ≠ c.irq := by
      rintro rfl
      simp [State.serve] at hj
    have howed : s.owed j = true := by simpa [State.serve, hne] using hj
    exact (h.recorded j howed).move (hholds j hne)
  parked := h.parked
  armed := h.armed

theorem Inv.reread (h : Inv baseIrq s) (hrun : s.run = .reread i) :
    Inv baseIrq { s with run := .writeBack i (Function.update s.status i false) } where
  served := by
    intro k hk
    refine (h.served k hk).imp id fun hserves => ?_
    rw [hrun] at hserves
    by_cases hki : k = i
    · exact .inl hki
    · refine .inr ⟨lt_of_le_of_ne hserves (Ne.symm hki), ?_⟩
      rw [Function.update_of_ne hki]
      exact hk
  cleared := by
    intro i' value heq
    simp only [Run.writeBack.injEq] at heq
    obtain ⟨rfl, rfl⟩ := heq
    exact Function.update_self ..
  lower := by
    intro i' value heq k hlt hvalue
    simp only [Run.writeBack.injEq] at heq
    obtain ⟨rfl, rfl⟩ := heq
    rw [Function.update_of_ne hlt.ne] at hvalue
    refine (h.served k hvalue).resolve_right fun hserves => ?_
    rw [hrun] at hserves
    exact absurd hlt (not_lt.mpr hserves)
  written := by
    intro i' value heq k hne _ hstatus
    simp only [Run.writeBack.injEq] at heq
    obtain ⟨rfl, rfl⟩ := heq
    rw [Function.update_of_ne hne]
    exact hstatus
  recorded := by
    intro j hj
    refine (h.recorded j hj).move fun hheld => ?_
    rw [hrun] at hheld
    exact absurd hheld id
  parked := h.parked
  armed := h.armed

theorem Inv.writeBack (h : Inv baseIrq s) {value : Word} (hrun : s.run = .writeBack i value)
    (hserves : ∀ k, i < k → value k = true → run.Serves k)
    (hholds : ∀ j, irqOf baseIrq i = some j → run.Holds baseIrq j)
    (hne : ∀ i value, run ≠ .writeBack i value) :
    Inv baseIrq { s with status := value, run := run } where
  served := by
    intro k hk
    rcases lt_trichotomy k i with hlt | heq | hlt
    · exact .inl (h.lower i value hrun k hlt hk)
    · have hset : value i = true := heq ▸ hk
      rw [h.cleared i value hrun] at hset
      cases hset
    · exact .inr (hserves k hlt hk)
  cleared := fun i value heq => absurd heq (hne i value)
  lower := fun i value heq => absurd heq (hne i value)
  written := fun i value heq => absurd heq (hne i value)
  recorded := by
    intro j hj
    obtain ⟨k, hk, hstatus⟩ | hheld | hrest := h.recorded j hj
    · by_cases hki : k = i
      · exact .inr (.inl (hholds j (hki ▸ hk)))
      · exact .inl ⟨k, hk, h.written i value hrun k hki (by simp [hk]) hstatus⟩
    · rw [hrun] at hheld
      exact .inr (.inl (hholds j hheld))
    · exact .inr (.inr hrest)
  parked := h.parked
  armed := h.armed

theorem Inv.clear (h : Inv baseIrq s) (hrun : s.run = .clear) :
    Inv baseIrq { s with line := false, run := .ipaLookup } where
  served := fun _ _ => .inr trivial
  cleared := nofun
  lower := nofun
  written := nofun
  recorded := by
    intro j hj
    refine (h.recorded j hj).move fun hheld => ?_
    rw [hrun] at hheld
    exact absurd hheld id
  parked := h.parked
  armed := h.armed

theorem Inv.park (h : Inv baseIrq s) {value : Word} (hrun : s.run = .park i j value)
    (hfound : s.Found j) :
    Inv baseIrq { s with
      bakIrqStatus := Function.update s.bakIrqStatus j true
      run := .test (i + 1) value } where
  served := by
    intro k hk
    refine (h.served k hk).imp id fun hserves => ?_
    rw [hrun] at hserves
    exact ⟨Nat.succ_le_of_lt hserves.1, hserves.2⟩
  cleared := nofun
  lower := nofun
  written := nofun
  recorded := by
    intro j' hj'
    by_cases hjj : j' = j
    · exact .inr (.inr (.inl (hjj ▸ Function.update_self ..)))
    · obtain hstatus | hheld | hbak | hcalls := h.recorded j' hj'
      · exact .inl hstatus
      · rw [hrun] at hheld
        exact absurd hheld.symm hjj
      · refine .inr (.inr (.inl ?_))
        rw [← hbak]
        exact Function.update_of_ne hjj _ _
      · exact .inr (.inr (.inr hcalls))
  parked := by
    intro j' hj'
    by_cases hjj : j' = j
    · exact hjj ▸ hfound
    · refine h.parked j' ?_
      simpa [hjj] using hj'
  armed := h.armed

theorem Inv.irqStep (h : Inv baseIrq s)
    (hok : s.run.parks.all (fun j => decide (s.Found j)) = true)
    (ht : s.irqStep baseIrq = some t) : Inv baseIrq t := by
  cases hrun : s.run with
  | idle =>
    simp only [State.irqStep, hrun, ite_none_right_eq_some, some.injEq] at ht
    obtain ⟨-, rfl⟩ := ht
    exact h.move (fun _ _ _ => trivial) (fun _ hheld => by rw [hrun] at hheld; exact hheld)
      (fun _ _ => nofun)
  | clear =>
    simp only [State.irqStep, hrun, some.injEq] at ht
    subst ht
    exact h.clear hrun
  | ipaLookup =>
    simp only [State.irqStep, hrun] at ht
    split at ht <;> obtain rfl := some.inj ht <;>
      exact h.move (fun _ _ _ => trivial) (fun _ hheld => by rw [hrun] at hheld; exact hheld)
        (fun _ _ => nofun)
  | ipaCall handler =>
    simp only [State.irqStep, hrun, some.injEq] at ht
    subst ht
    exact h.serve _ (fun _ _ _ => trivial) (fun _ _ hheld => by rw [hrun] at hheld; exact hheld)
      (fun _ _ => nofun)
  | read =>
    simp only [State.irqStep, hrun, some.injEq] at ht
    subst ht
    exact h.move (fun k hk _ => ⟨Nat.zero_le _, hk⟩)
      (fun _ hheld => by rw [hrun] at hheld; exact hheld) (fun _ _ => nofun)
  | test i value =>
    simp only [State.irqStep, hrun] at ht
    split at ht
    next hlt =>
      split at ht
      next =>
        obtain rfl := some.inj ht
        refine h.move (fun k hk hserves => ?_) (fun _ hheld => by rw [hrun] at hheld; exact hheld)
          (fun _ _ => nofun)
        rw [hrun] at hserves
        exact hserves.1
      next hclear =>
        obtain rfl := some.inj ht
        refine h.move (fun k hk hserves => ?_) (fun _ hheld => by rw [hrun] at hheld; exact hheld)
          (fun _ _ => nofun)
        rw [hrun] at hserves
        refine ⟨lt_of_le_of_ne hserves.1 ?_, hserves.2⟩
        rintro rfl
        exact hclear hserves.2
    next hge =>
      obtain rfl := some.inj ht
      refine h.move (fun k hk hserves => ?_) (fun _ hheld => by rw [hrun] at hheld; exact hheld)
        (fun _ _ => nofun)
      rw [hrun] at hserves
      exact hge (Nat.lt_of_le_of_lt hserves.1 k.isLt)
  | reread i =>
    simp only [State.irqStep, hrun, some.injEq] at ht
    subst ht
    exact h.reread hrun
  | writeBack i value =>
    simp only [State.irqStep, hrun] at ht
    split at ht
    next j hj =>
      obtain rfl := some.inj ht
      refine h.writeBack hrun (fun k hlt hk => ⟨hlt, hk⟩) (fun j' hj' => ?_) (fun _ _ => nofun)
      exact some.inj (hj.symm.trans hj')
    next hnone =>
      obtain rfl := some.inj ht
      refine h.writeBack hrun (fun k hlt hk => ⟨Nat.succ_le_of_lt hlt, hk⟩) (fun j' hj' => ?_)
        (fun _ _ => nofun)
      rw [hnone] at hj'
      cases hj'
  | lookup i j value =>
    simp only [State.irqStep, hrun] at ht
    split at ht <;> obtain rfl := some.inj ht <;>
      exact h.move (fun _ _ hserves => by rw [hrun] at hserves; exact hserves)
        (fun _ hheld => by rw [hrun] at hheld; exact hheld) (fun _ _ => nofun)
  | call i j handler value =>
    simp only [State.irqStep, hrun, some.injEq] at ht
    subst ht
    refine h.serve _ (fun k hk hserves => ?_) (fun j' hne hheld => ?_) (fun _ _ => nofun)
    · rw [hrun] at hserves
      exact ⟨Nat.succ_le_of_lt hserves.1, hserves.2⟩
    · rw [hrun] at hheld
      exact absurd hheld.symm hne
  | park i j value =>
    simp only [State.irqStep, hrun, some.injEq] at ht
    subst ht
    rw [hrun] at hok
    exact h.park hrun (by simpa [Run.parks] using hok)

theorem mem_set {l : List Reg} (hr : l[n]? = some r) {x : Reg} (hx : x ∈ l) :
    x = r ∨ x ∈ l.set n r' := by
  obtain ⟨m, hm⟩ := List.getElem?_of_mem hx
  by_cases hmn : n = m
  · subst hmn
    exact .inl (some.inj (hm.symm.trans hr))
  · refine .inr (mem_of_getElem? (i := m) ?_)
    rw [List.getElem?_set_ne hmn, hm]

theorem mem_set_self {l : List Reg} (hr : l[n]? = some r) : r' ∈ l.set n r' := by
  refine mem_of_getElem? (i := n) ?_
  obtain ⟨hlt, -⟩ := List.getElem?_eq_some_iff.mp hr
  rw [List.getElem?_set_self hlt]

theorem Inv.setReg (h : Inv baseIrq s) (hr : s.regs[n]? = some r) {u : State}
    (hstatus : u.status = s.status) (hline : u.line = s.line) (hraise : u.toRaise = s.toRaise)
    (hrun : u.run = s.run) (howed : ∀ j, u.owed j = true → s.owed j = true)
    -- What is owed and was parked, or about to be called, still is.
    (hbak : ∀ j, u.owed j = true → s.bakIrqStatus j = true →
      u.bakIrqStatus j = true ∨ r'.Calls j)
    (hcalls : ∀ j, u.owed j = true → r.Calls j → r'.Calls j)
    -- What is parked is still found.
    (hparked : ∀ j, u.bakIrqStatus j = true → s.bakIrqStatus j = true)
    (hnone : ∀ j, s.epDevHandler j = none → u.epDevHandler j = none ∨ r'.Pending j)
    (hpending : ∀ j, u.bakIrqStatus j = true → r.Pending j → r'.Pending j)
    (harmed : r'.pc = .clear ∨ r'.pc = .call → r'.handler.isSome = true) :
    Inv baseIrq { u with regs := s.regs.set n r' } where
  served := by
    show ∀ k, u.status k = true → (u.line = true ∨ 0 < u.toRaise) ∨ u.run.Serves k
    rw [hstatus, hline, hraise, hrun]
    exact h.served
  cleared := by
    rw [hrun]
    exact h.cleared
  lower := by
    show ∀ i value, u.run = .writeBack i value → ∀ k, k < i → value k = true →
      u.line = true ∨ 0 < u.toRaise
    rw [hline, hraise, hrun]
    exact h.lower
  written := by
    show ∀ i value, u.run = .writeBack i value → ∀ k, k ≠ i → irqOf baseIrq k ≠ none →
      u.status k = true → value k = true
    rw [hstatus, hrun]
    exact h.written
  recorded := by
    intro j hj
    obtain ⟨k, hk, hset⟩ | hheld | hold | ⟨x, hx, hxcalls⟩ := h.recorded j (howed j hj)
    · exact .inl ⟨k, hk, by rw [hstatus]; exact hset⟩
    · exact .inr (.inl (by rw [hrun]; exact hheld))
    · rcases hbak j hj hold with hnew | hnew
      · exact .inr (.inr (.inl hnew))
      · exact .inr (.inr (.inr ⟨r', mem_set_self hr, hnew⟩))
    · rcases mem_set hr hx with rfl | hmem
      · exact .inr (.inr (.inr ⟨r', mem_set_self hr, hcalls j hj hxcalls⟩))
      · exact .inr (.inr (.inr ⟨x, hmem, hxcalls⟩))
  parked := by
    intro j hj
    rcases h.parked j (hparked j hj) with hfree | ⟨x, hx, hxpending⟩
    · exact (hnone j hfree).imp id fun hnew => ⟨r', mem_set_self hr, hnew⟩
    · rcases mem_set hr hx with rfl | hmem
      · exact .inr ⟨r', mem_set_self hr, hpending j hj hxpending⟩
      · exact .inr ⟨x, hmem, hxpending⟩
  armed := by
    intro x hx
    rcases mem_or_eq_of_mem_set hx with hmem | rfl
    · exact h.armed x hmem
    · exact harmed

theorem Inv.regStep (h : Inv baseIrq s) (ht : s.regStep n = some t) : Inv baseIrq t := by
  simp only [State.regStep, bind_eq_some_iff, map_eq_some_iff] at ht
  obtain ⟨r, hr, ⟨u, pc⟩, hnext, rfl⟩ := ht
  have hmem := mem_of_getElem? hr
  -- What `r` is not, by its place.
  have hnot : ∀ j, r.pc ≠ .call → ¬r.Calls j := fun j hne hc => hne hc.2.2
  cases hpc : r.pc with
  | setHandler =>
    simp only [State.regPc, hpc, some.injEq, Prod.mk.injEq] at hnext
    obtain ⟨rfl, rfl⟩ := hnext
    refine h.setReg hr rfl rfl rfl rfl (fun _ hj => hj) (fun _ _ hold => .inl hold)
      (fun j _ hc => absurd hc (hnot j (by simp [hpc]))) (fun _ hj => hj) (fun j hnone => ?_)
      (fun j _ hp => ?_) (by simp)
    · by_cases hj : j = r.irq
      · subst hj
        cases hh : r.handler with
        | none => exact .inl (by simp)
        | some handler => exact .inr ⟨rfl, rfl, .inl rfl⟩
      · exact .inl (by simpa [hj] using hnone)
    · have := hp.2.2
      simp [hpc] at this
  | setData =>
    simp only [State.regPc, hpc, some.injEq, Prod.mk.injEq] at hnext
    obtain ⟨rfl, rfl⟩ := hnext
    exact h.setReg hr rfl rfl rfl rfl (fun _ hj => hj) (fun _ _ hold => .inl hold)
      (fun j _ hc => absurd hc (hnot j (by simp [hpc]))) (fun _ hj => hj)
      (fun _ hnone => .inl hnone) (fun j _ hp => ⟨hp.1, hp.2.1, .inr (.inl rfl)⟩) (by simp)
  | test =>
    simp only [State.regPc, hpc] at hnext
    split at hnext
    next hset =>
      simp only [some.injEq, Prod.mk.injEq] at hnext
      obtain ⟨rfl, rfl⟩ := hnext
      rw [Bool.and_eq_true] at hset
      exact h.setReg hr rfl rfl rfl rfl (fun _ hj => hj) (fun _ _ hold => .inl hold)
        (fun j _ hc => absurd hc (hnot j (by simp [hpc]))) (fun _ hj => hj)
        (fun _ hnone => .inl hnone) (fun j _ hp => ⟨hp.1, hp.2.1, .inr (.inr rfl)⟩)
        (fun _ => hset.1)
    next hunset =>
      simp only [some.injEq, Prod.mk.injEq] at hnext
      obtain ⟨rfl, rfl⟩ := hnext
      refine h.setReg hr rfl rfl rfl rfl (fun _ hj => hj) (fun _ _ hold => .inl hold)
        (fun j _ hc => absurd hc (hnot j (by simp [hpc]))) (fun _ hj => hj)
        (fun _ hnone => .inl hnone) (fun j hj hp => ?_) (by simp)
      -- The test has seen no parked bit.
      obtain ⟨rfl, hh, -⟩ := hp
      exact absurd (by rw [hh, hj]; rfl) hunset
  | clear =>
    simp only [State.regPc, hpc, some.injEq, Prod.mk.injEq] at hnext
    obtain ⟨rfl, rfl⟩ := hnext
    have hsome := h.armed r hmem (.inl hpc)
    refine h.setReg hr rfl rfl rfl rfl (fun _ hj => hj) (fun j _ hold => ?_)
      (fun j _ hc => absurd hc (hnot j (by simp [hpc]))) (fun j hj => ?_)
      (fun _ hnone => .inl hnone) (fun j hj hp => ?_) (fun _ => hsome)
    · by_cases hj : j = r.irq
      · exact .inr ⟨hj.symm, hsome, rfl⟩
      · exact .inl (by simpa [hj] using hold)
    · by_cases hjr : j = r.irq
      · simp [hjr] at hj
      · simpa [hjr] using hj
    · obtain ⟨rfl, -⟩ := hp
      simp at hj
  | call =>
    simp only [State.regPc, hpc, map_eq_some_iff, Prod.mk.injEq] at hnext
    obtain ⟨handler, hh, rfl, rfl⟩ := hnext
    refine h.setReg hr rfl rfl rfl rfl (fun j hj => ?_) (fun _ _ hold => .inl hold)
      (fun j hj hc => ?_) (fun _ hj => hj) (fun _ hnone => .inl hnone) (fun j _ hp => ?_) (by simp)
    · by_cases hjr : j = r.irq
      · simp [State.serve, hjr] at hj
      · simpa [State.serve, hjr] using hj
    · obtain ⟨rfl, -⟩ := hc
      simp [State.serve] at hj
    · have := hp.2.2
      simp [hpc] at this
  | unsetHandler =>
    simp only [State.regPc, hpc, some.injEq, Prod.mk.injEq] at hnext
    obtain ⟨rfl, rfl⟩ := hnext
    refine h.setReg hr rfl rfl rfl rfl (fun _ hj => hj) (fun _ _ hold => .inl hold)
      (fun j _ hc => absurd hc (hnot j (by simp [hpc]))) (fun _ hj => hj) (fun j hnone => .inl ?_)
      (fun j _ hp => ?_) (by simp)
    · by_cases hj : j = r.irq
      · simp [hj]
      · simpa [hj] using hnone
    · have := hp.2.2
      simp [hpc] at this
  | unsetData =>
    simp only [State.regPc, hpc, some.injEq, Prod.mk.injEq] at hnext
    obtain ⟨rfl, rfl⟩ := hnext
    refine h.setReg hr rfl rfl rfl rfl (fun _ hj => hj) (fun _ _ hold => .inl hold)
      (fun j _ hc => absurd hc (hnot j (by simp [hpc]))) (fun _ hj => hj)
      (fun _ hnone => .inl hnone) (fun j _ hp => ?_) (by simp)
    have := hp.2.2
    simp [hpc] at this
  | done =>
    simp only [State.regPc, hpc] at hnext
    cases hnext

theorem Inv.newReg (h : Inv baseIrq s) (hclear : r.pc ≠ .clear) (hcall : r.pc ≠ .call) :
    Inv baseIrq { s with regs := s.regs ++ [r] } where
  served := h.served
  cleared := h.cleared
  lower := h.lower
  written := h.written
  recorded := by
    intro j hj
    obtain hstatus | hheld | hold | ⟨x, hx, hxcalls⟩ := h.recorded j hj
    · exact .inl hstatus
    · exact .inr (.inl hheld)
    · exact .inr (.inr (.inl hold))
    · exact .inr (.inr (.inr ⟨x, mem_append_left _ hx, hxcalls⟩))
  parked := by
    intro j hj
    exact (h.parked j hj).imp id fun ⟨x, hx, hp⟩ => ⟨x, mem_append_left _ hx, hp⟩
  armed := by
    intro x hx
    rcases mem_append.mp hx with hx | hx
    · exact h.armed x hx
    · rw [mem_singleton.mp hx]
      rintro (heq | heq)
      · exact absurd heq hclear
      · exact absurd heq hcall

theorem step_inv {l : Label} (h : Inv baseIrq s) (hok : Ok baseIrq s l)
    (ht : step baseIrq s l = some t) : Inv baseIrq t := by
  cases l with
  | set i =>
    obtain rfl := some.inj ht
    exact h.set hok
  | raise => exact h.raise ht
  | irq => exact h.irqStep hok ht
  | register irq handler data =>
    obtain rfl := some.inj ht
    exact h.newReg (by simp) (by simp)
  | unregister irq =>
    obtain rfl := some.inj ht
    exact h.newReg (by simp) (by simp)
  | reg n => exact h.regStep ht

/-- No run of the interrupt handler is in progress or due, and no registration is in progress. -/
structure State.Quiet (s : State) : Prop where
  run : s.run = .idle
  line : s.line = false
  toRaise : s.toRaise = 0
  regs : ∀ r ∈ s.regs, r.pc = .done

/-- What holds of the interrupts between steps. -/
structure Kept (baseIrq : UInt32) (s : State) : Prop where
  /-- An interrupt that is owed a call is still recorded. -/
  recorded : ∀ j, s.owed j = true → s.Recorded baseIrq j
  /-- A bit of the status word is served by the run in progress or by one that is due. -/
  served : ∀ k, s.status k = true → s.Due ∨ s.run.Serves k
  /-- When all is quiet, an interrupt that is owed a call is parked, and only interrupts without a
  handler are. -/
  quiet : s.Quiet → (∀ k, s.status k = false) ∧
    ∀ j, (s.owed j = true → s.bakIrqStatus j = true) ∧
      (s.bakIrqStatus j = true → s.epDevHandler j = none)

theorem Inv.kept (h : Inv baseIrq s) : Kept baseIrq s where
  recorded := h.recorded
  served := h.served
  quiet := by
    intro hq
    have hstatus : ∀ k, s.status k = false := by
      intro k
      rw [Bool.eq_false_iff]
      intro hk
      obtain (hline | hraise) | hserves := h.served k hk
      · rw [hq.line] at hline
        cases hline
      · exact absurd hq.toRaise hraise.ne'
      · rw [hq.run] at hserves
        exact hserves
    refine ⟨hstatus, fun j => ⟨fun hj => ?_, fun hj => ?_⟩⟩
    · obtain ⟨k, -, hk⟩ | hheld | hbak | ⟨r, hr, hcalls⟩ := h.recorded j hj
      · rw [hstatus k] at hk
        cases hk
      · rw [hq.run] at hheld
        exact absurd hheld id
      · exact hbak
      · have hpc := hcalls.2.2
        rw [hq.regs r hr] at hpc
        cases hpc
    · refine (h.parked j hj).resolve_right ?_
      rintro ⟨r, hr, hp⟩
      have hpc := hp.2.2
      simp [hq.regs r hr] at hpc

/-- In the runs in which the endpoint sets no valid bit between the read and the write-back of a
word that lacks it, and no interrupt is parked behind the test of its registration, no interrupt is
lost. -/
theorem kept_of_apart (h : Reaches (step baseIrq) (Ok baseIrq) init s) : Kept baseIrq s :=
  (h.invariant (P := Inv baseIrq) inv_init fun _ _ _ hs hok ht => step_inv hs hok ht).kept

/-- A bit that is set behind the registration of its handler is served by the run. -/
theorem kept_served : ∃ s, Kept 20 s ∧ s.calls = [⟨0, 5, 9⟩] := by
  have hrun : (run (guarded (step 20) (Ok 20)) init
      ([.register 0 (some 5) 9, .reg 0, .reg 0, .reg 0, .set 20, .raise] ++
        replicate 41 .irq)).any (fun s => decide (s.calls = [⟨0, 5, 9⟩])) = true := by
    decide
  obtain ⟨s, hreaches, hcalls⟩ := exists_of_run _ hrun
  exact ⟨s, kept_of_apart hreaches, hcalls⟩

/-- A bit that the endpoint sets while the run takes another one out of the word is written over. -/
theorem not_kept_writeBack : ¬∀ s, Reachable (step 20) init s → Kept 20 s := by
  intro h
  have hrun : (run (guarded (step 20) fun _ _ => True) init
      ([.set 20, .raise] ++ replicate 26 .irq ++ [.set 21, .raise] ++
        replicate 52 .irq)).any (fun s => decide ((s.run = .idle ∧ s.line = false ∧
          s.toRaise = 0 ∧ s.regs = []) ∧ s.owed 1 = true ∧ s.bakIrqStatus 1 = false)) = true := by
    decide
  obtain ⟨s, hreaches, ⟨hidle, hline, hraise, hregs⟩, howed, hbak⟩ := exists_of_run _ hrun
  have hquiet : s.Quiet := ⟨hidle, hline, hraise, by simp [hregs]⟩
  have hparked := (((h s hreaches).quiet hquiet).2 1).1 howed
  rw [hbak] at hparked
  cases hparked

end ModemSupport.Pcie.EpIrq
