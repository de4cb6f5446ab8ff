import ModemSupport.Pcie.EpBars

/-! What the BAR windows hold in link cycles. A BAR is marked exactly when its window holds a live
mapping, and a probe brings back what outlived a remove, in the runs in which every entry that a
remove leaves in the saved copy is for a mapping that outlives it. -/

namespace ModemSupport.Pcie.EpBars

open Lib.Transition List Option

variable {res : Bar → Resource} {s t : State} {d : SprdPciEpDev} {save : SprdPciEpDevSave}
  {bar : Bar} {w : Window} {m : Mapping} {n : Nat}

structure Window.At (w : Window) (bar : Bar) (n : Nat) : Prop where
  empty : w.srcAddr = 0 → w = {}
  made : w.srcAddr ≠ 0 → ∃ k, k < n ∧ w.made = some ⟨bar, k⟩
  vir : w.barVir = if barMin ≤ bar then w.made else none
  cpu : w.cpuVir.map Ptr.mapping = w.barVir

theorem Window.at_empty : ({} : Window).At bar n where
  empty := fun _ => rfl
  made := fun h => absurd rfl h
  vir := by split <;> rfl
  cpu := rfl

theorem Window.At.mono {n' : Nat} (h : w.At bar n) (hle : n ≤ n') : w.At bar n' where
  empty := h.empty
  made := by
    intro hsrc
    obtain ⟨k, hk, hmade⟩ := h.made hsrc
    exact ⟨k, Nat.lt_of_lt_of_le hk hle, hmade⟩
  vir := h.vir
  cpu := h.cpu

theorem Window.At.srcAddr_ne (h : w.At bar n) (hmade : w.made ≠ none) : w.srcAddr ≠ 0 := by
  intro hsrc
  rw [h.empty hsrc] at hmade
  exact hmade rfl

theorem Window.At.eq_of_made (h : w.At bar n) (hmade : w.made = some m) :
    m.bar = bar ∧ m.nr < n := by
  obtain ⟨k, hk, hk'⟩ := h.made (h.srcAddr_ne (by simp [hmade]))
  rw [hk', some.injEq] at hmade
  exact hmade ▸ ⟨rfl, hk⟩

theorem Window.At.made_of_vir (h : w.At bar n) (hvir : w.barVir = some m) :
    barMin ≤ bar ∧ w.made = some m := by
  rw [h.vir] at hvir
  split at hvir
  next hle => exact ⟨hle, hvir⟩
  next => cases hvir

theorem Window.At.vir_eq (h : w.At bar n) (hle : barMin ≤ bar) : w.barVir = w.made := by
  rw [h.vir, if_pos hle]

structure Present (s : State) (d : SprdPciEpDev) : Prop where
  windows : ∀ bar, (d.windows bar).At bar s.next
  marked : ∀ bar, barMin ≤ bar → (d.barRes bar = true ↔ s.Holds d bar)
  -- A live mapping in the saved copy is still in the BAR that it was saved from.
  kept : ∀ bar, barMin ≤ bar → ∀ m ∈ s.live, (s.gEpSave.windows bar).made = some m →
    d.windows bar = s.gEpSave.windows bar

structure Inv (s : State) : Prop where
  live : ∀ m ∈ s.live, m.nr < s.next
  save : ∀ bar, (s.gEpSave.windows bar).At bar s.next
  saved : ∀ bar, barMin ≤ bar → ∀ m ∈ s.live, (s.gEpSave.windows bar).made = some m →
    s.gEpSave.barRes bar = true
  present : ∀ d, s.gEpDev = some d → Present s d
  -- What the next probe brings back.
  gone : s.gEpDev = none → ∀ bar, barMin ≤ bar → s.gEpSave.barRes bar = true →
    ∃ m ∈ s.live, (s.gEpSave.windows bar).made = some m
  before : ∀ w, s.before = some w → s.gEpDev = none ∧ s.gEpSave.windows = w ∧
    ∀ bar, (w bar).srcAddr ≠ 0 → ∃ m ∈ s.live, (w bar).made = some m

theorem inv_init : Inv init where
  live := nofun
  save := fun _ => Window.at_empty
  saved := nofun
  present := nofun
  gone := nofun
  before := nofun

theorem Inv.before_eq_none (h : Inv s) (hd : s.gEpDev = some d) : s.before = none := by
  cases hw : s.before with
  | none => rfl
  | some w =>
    rw [(h.before w hw).1] at hd
    cases hd

theorem Inv.setWindow (bar : Bar) (h : Inv s) (hd : s.gEpDev = some d) {d' : SprdPciEpDev}
    (hgEpDev : t.gEpDev = some d') (hsave : t.gEpSave = s.gEpSave) (hbefore : t.before = s.before)
    (hnext : s.next ≤ t.next) (hlt : ∀ m ∈ t.live, m.nr < t.next)
    -- Only mappings of the BAR are made or undone.
    (hlive : ∀ m, m.nr < s.next → m ∈ t.live → m ∈ s.live)
    (hothers : ∀ m, m.bar ≠ bar → (m ∈ t.live ↔ m ∈ s.live))
    (hwindows : ∀ i, i ≠ bar → d'.windows i = d.windows i ∧ d'.barRes i = d.barRes i)
    (hat : (d'.windows bar).At bar t.next)
    (hmarked : barMin ≤ bar → (d'.barRes bar = true ↔ t.Holds d' bar))
    (hkept : barMin ≤ bar → ∀ m ∈ t.live, (s.gEpSave.windows bar).made = some m →
      d'.windows bar = s.gEpSave.windows bar) : Inv t where
  live := hlt
  save := by
    intro i
    rw [hsave]
    exact (h.save i).mono hnext
  saved := by
    intro i hi m hm hmade
    rw [hsave] at hmade ⊢
    exact h.saved i hi m (hlive m ((h.save i).eq_of_made hmade).2 hm) hmade
  present := by
    intro e he
    rw [hgEpDev, some.injEq] at he
    subst he
    have hp := h.present d hd
    refine ⟨fun i => ?_, fun i hi => ?_, fun i hi m hm hmade => ?_⟩
    · by_cases hib : i = bar
      · exact hib ▸ hat
      · rw [(hwindows i hib).1]
        exact (hp.windows i).mono hnext
    · by_cases hib : i = bar
      · exact hib ▸ hmarked (hib ▸ hi)
      · rw [(hwindows i hib).2, hp.marked i hi]
        constructor
        · rintro ⟨m, hm, hmade⟩
          have hbar := ((hp.windows i).eq_of_made hmade).1
          refine ⟨m, (hothers m (hbar ▸ hib)).mpr hm, ?_⟩
          rw [(hwindows i hib).1, hmade]
        · rintro ⟨m, hm, hmade⟩
          rw [(hwindows i hib).1] at hmade
          have hbar := ((hp.windows i).eq_of_made hmade).1
          exact ⟨m, (hothers m (hbar ▸ hib)).mp hm, hmade⟩
    · rw [hsave] at hmade ⊢
      by_cases hib : i = bar
      · subst hib
        exact hkept hi m hm hmade
      · rw [(hwindows i hib).1]
        exact hp.kept i hi m (hlive m ((h.save i).eq_of_made hmade).2 hm) hmade
  gone := by
    intro hnone
    rw [hgEpDev] at hnone
    cases hnone
  before := by
    intro w hw
    rw [hbefore, h.before_eq_none hd] at hw
    cases hw

theorem getBar_spec (h : d.getBar = some bar) : barMin ≤ bar ∧ d.barRes bar = false := by
  simpa using List.find?_some h

theorem offset_lt {r : Resource} (a : UInt64) : (a - a / r.size * r.size).toNat < r.size.toNat := by
  have hle : (a / r.size * r.size).toNat = a.toNat / r.size.toNat * r.size.toNat := by
    rw [UInt64.toNat_mul, UInt64.toNat_div]
    apply Nat.mod_eq_of_lt
    exact Nat.lt_of_le_of_lt (Nat.div_mul_le_self ..) a.toNat_lt
  have hdiv := Nat.div_add_mod' a.toNat r.size.toNat
  have hmod := Nat.mod_lt a.toNat r.size_pos
  rw [UInt64.toNat_sub_of_le _ _ (by rw [UInt64.le_iff_toNat_le, hle]; omega), hle]
  omega

theorem srcAddr_ne {r : Resource} {cpuAddr size base size' offset : UInt64}
    (h : sprdEpDevAdjustRegion r cpuAddr size = some (base, size', offset)) :
    r.start + offset ≠ 0 := by
  simp only [sprdEpDevAdjustRegion] at h
  split at h
  next => cases h
  next =>
    simp only [some.injEq, Prod.mk.injEq] at h
    obtain ⟨-, -, rfl⟩ := h
    have hlt := offset_lt (r := r) cpuAddr
    have hpos := r.start_pos
    have hfits := r.fits
    intro hzero
    have hnat := congrArg UInt64.toNat hzero
    rw [UInt64.toNat_add, Nat.mod_eq_of_lt (by omega)] at hnat
    have h0 : (0 : UInt64).toNat = 0 := rfl
    omega

def newWindow (r : Resource) (bar : Bar) (n : Nat) (base size offset : UInt64) : Window :=
  ⟨some ⟨bar, n⟩, some ⟨⟨bar, n⟩, offset⟩, r.start + offset, base, size, some ⟨bar, n⟩⟩

/-- What mapping memory does: nothing; or it leaves a mapping that no window holds, as the
translation step fails behind `ioremap`; or it fills in the window of a free BAR. -/
theorem sprdEpMapMemory_cases (res : Bar → Resource) (s : State) (cpuAddr size : UInt64) (io : Io) :
    s.sprdEpMapMemory res cpuAddr size io = (none, s) ∨
    (io.ioremap = true ∧ io.translation = false ∧ ∃ d bar, s.gEpDev = some d ∧
      s.sprdEpMapMemory res cpuAddr size io =
        (none, { s with live := ⟨bar, s.next⟩ :: s.live, next := s.next + 1 })) ∨
    (∃ d bar base size' offset, s.gEpDev = some d ∧ barMin ≤ bar ∧ d.barRes bar = false ∧
      (res bar).start + offset ≠ 0 ∧
      s.sprdEpMapMemory res cpuAddr size io =
        (some ⟨⟨bar, s.next⟩, offset⟩,
          { s with
            gEpDev := some { d with
              barRes := Function.update d.barRes bar true
              windows := Function.update d.windows bar
                (newWindow (res bar) bar s.next base size' offset) }
            live := ⟨bar, s.next⟩ :: s.live
            next := s.next + 1 })) := by
  cases hd : s.gEpDev with
  | none =>
    left
    simp [State.sprdEpMapMemory, State.sprdEpDevGetBar, hd]
  | some d =>
    cases hbar : d.getBar with
    | none =>
      left
      simp [State.sprdEpMapMemory, State.sprdEpDevGetBar, hd, hbar]
    | some bar =>
      obtain ⟨hle, hfree⟩ := getBar_spec hbar
      have hback : Function.update (Function.update d.barRes bar true) bar false = d.barRes := by
        rw [Function.update_idem, ← hfree, Function.update_eq_self]
      have hs : { s with gEpDev := some d } = s := by rw [← hd]
      have hput : ({ s with gEpDev := some { d with
          barRes := Function.update d.barRes bar true } } : State).sprdEpDevPutBar bar = s := by
        simp only [State.sprdEpDevPutBar, map_some, hback]
        exact hs
      simp only [State.sprdEpMapMemory, State.sprdEpDevGetBar, hd, bind_some, hbar,
        map_some, State.sprdEpDevMapBar]
      by_cases hvir : (d.windows bar).barVir.isSome = true
      · left
        simp only [hvir, if_true, hput]
      · simp only [hvir]
        cases hregion : sprdEpDevAdjustRegion (res bar) cpuAddr size with
        | none =>
          left
          simp only [Bool.false_eq_true, if_false, hput]
        | some x =>
          obtain ⟨base, size', offset⟩ := x
          cases hio : io.ioremap with
          | false =>
            left
            simp only [Bool.false_eq_true, if_false, hput]
          | true =>
            cases htr : io.translation with
            | true =>
              right; right
              exact ⟨d, bar, base, size', offset, rfl, hle, hfree, srcAddr_ne hregion, rfl⟩
            | false =>
              right; left
              refine ⟨rfl, rfl, d, bar, rfl, ?_⟩
              have hnone : (d.windows bar).barVir = none := by simpa using hvir
              simp [State.iounmap, hnone, State.sprdEpDevPutBar, hback]

theorem newWindow_at {r : Resource} {base size offset : UInt64} (hle : barMin ≤ bar)
    (hsrc : r.start + offset ≠ 0) : (newWindow r bar n base size offset).At bar (n + 1) where
  empty := fun h => absurd h hsrc
  made := fun _ => ⟨n, Nat.lt_succ_self n, rfl⟩
  vir := by rw [if_pos hle]; rfl
  cpu := rfl

theorem Inv.lt_of_mem_cons (h : Inv s) (hm : m ∈ ⟨bar, s.next⟩ :: s.live) : m.nr < s.next + 1 := by
  rcases mem_cons.mp hm with rfl | hm
  · exact Nat.lt_succ_self _
  · exact Nat.lt_succ_of_lt (h.live m hm)

theorem mem_of_mem_cons (hlt : m.nr < n) (hm : m ∈ ⟨bar, n⟩ :: s.live) : m ∈ s.live := by
  rcases mem_cons.mp hm with rfl | hm
  · exact absurd hlt (Nat.lt_irrefl _)
  · exact hm

theorem mem_cons_iff_of_bar_ne (hne : m.bar ≠ bar) : m ∈ ⟨bar, n⟩ :: s.live ↔ m ∈ s.live := by
  rw [mem_cons, or_iff_right]
  rintro rfl
  exact hne rfl

theorem Inv.sprdEpMapMemory (res : Bar → Resource) (h : Inv s) (cpuAddr size : UInt64) (io : Io) :
    Inv (s.sprdEpMapMemory res cpuAddr size io).2 := by
  obtain heq | ⟨-, -, d, bar, hd, heq⟩ | ⟨d, bar, base, size', offset, hd, hle, hfree, hsrc, heq⟩ :=
    sprdEpMapMemory_cases res s cpuAddr size io
  · rw [heq]
    exact h
  · rw [heq]
    have hp := h.present d hd
    refine h.setWindow bar hd hd rfl rfl (Nat.le_succ _) (fun m hm => h.lt_of_mem_cons hm)
      (fun m hlt hm => mem_of_mem_cons hlt hm) (fun m hne => mem_cons_iff_of_bar_ne hne)
      (fun i _ => ⟨rfl, rfl⟩) ((hp.windows bar).mono (Nat.le_succ _)) ?_ ?_
    · intro hle
      rw [hp.marked bar hle]
      constructor
      · rintro ⟨m, hm, hmade⟩
        exact ⟨m, mem_cons_of_mem _ hm, hmade⟩
      · rintro ⟨m, hm, hmade⟩
        exact ⟨m, mem_of_mem_cons ((hp.windows bar).eq_of_made hmade).2 hm, hmade⟩
    · intro hle m hm hmade
      exact hp.kept bar hle m (mem_of_mem_cons ((h.save bar).eq_of_made hmade).2 hm) hmade
  · rw [heq]
    have hp := h.present d hd
    refine h.setWindow bar hd rfl rfl rfl (Nat.le_succ _) (fun m hm => h.lt_of_mem_cons hm)
      (fun m hlt hm => mem_of_mem_cons hlt hm) (fun m hne => mem_cons_iff_of_bar_ne hne)
      (fun i hi => ⟨Function.update_of_ne hi _ _, Function.update_of_ne hi _ _⟩) ?_ ?_ ?_
    · simpa only [Function.update_self] using newWindow_at hle hsrc
    · intro _
      simp only [Function.update_self, true_iff]
      exact ⟨⟨bar, s.next⟩, mem_cons_self, by simp [newWindow]⟩
    · -- A live mapping that was saved from the BAR would be in it, and the BAR marked.
      intro _ m hm hmade
      have hlive := mem_of_mem_cons ((h.save bar).eq_of_made hmade).2 hm
      have hin := hp.kept bar hle m hlive hmade
      have hmarked := (hp.marked bar hle).mpr ⟨m, hlive, by rw [hin, hmade]⟩
      rw [hfree] at hmarked
      cases hmarked

theorem Inv.undo (h : Inv s) (hd : s.gEpDev = some d) (hmade : (d.windows bar).made = some m)
    (hat : w.At bar s.next) (hw : barMin ≤ bar → w = {}) :
    Inv { s.iounmap (some m) with
      gEpDev := some { d with
        barRes := Function.update d.barRes bar (decide (¬barMin ≤ bar) && d.barRes bar)
        windows := Function.update d.windows bar w } } := by
  have hp := h.present d hd
  have hbar := ((hp.windows bar).eq_of_made hmade).1
  have hmem : ∀ x, x ∈ (s.iounmap (some m)).live ↔ x ∈ s.live ∧ x ≠ m := by
    intro x
    simp [State.iounmap]
  refine h.setWindow bar hd rfl rfl rfl (Nat.le_refl _)
    (fun x hx => h.live x ((hmem x).mp hx).1) (fun x _ hx => ((hmem x).mp hx).1) ?_
    (fun i hi => ⟨Function.update_of_ne hi _ _, Function.update_of_ne hi _ _⟩) ?_ ?_ ?_
  · intro x hx
    rw [hmem, and_iff_left]
    rintro rfl
    exact hx hbar
  · show (Function.update d.windows bar w bar).At bar s.next
    rw [Function.update_self]
    exact hat
  · intro hle
    simp [State.Holds, hw hle, hle]
  · -- What was saved from the BAR is the mapping that is undone.
    intro hle x hx hsaved
    obtain ⟨hx, hne⟩ := (hmem x).mp hx
    have hin := hp.kept bar hle x hx hsaved
    rw [← hin, hmade, some.injEq] at hsaved
    exact absurd hsaved.symm hne

theorem sprdEpUnmapMemory_cases (s : State) (barAddr : Option Ptr) :
    s.sprdEpUnmapMemory barAddr = s ∨
    ∃ d bar, s.gEpDev = some d ∧ (d.windows bar).cpuVir = barAddr ∧
      s.sprdEpUnmapMemory barAddr = (s.sprdEpDevUnmapBar bar).sprdEpDevPutBar bar := by
  unfold State.sprdEpUnmapMemory
  split
  next => exact .inl rfl
  next d hd =>
    split
    next => exact .inl rfl
    next bar hfound =>
      have haddr := List.find?_some hfound
      exact .inr ⟨d, bar, hd, (of_decide_eq_true haddr).symm, rfl⟩

theorem unmapBar_eq (hd : s.gEpDev = some d) (hvir : (d.windows bar).barVir = some m) :
    (s.sprdEpDevUnmapBar bar).sprdEpDevPutBar bar = { s.iounmap (some m) with
      gEpDev := some { d with
        barRes := Function.update d.barRes bar false
        windows := Function.update d.windows bar {} } } := by
  simp [State.sprdEpDevUnmapBar, State.sprdEpDevPutBar, State.iounmap, hd, hvir]

theorem unmapBar_none (hd : s.gEpDev = some d) (hvir : (d.windows bar).barVir = none) :
    (s.sprdEpDevUnmapBar bar).sprdEpDevPutBar bar =
      { s with gEpDev := some { d with barRes := Function.update d.barRes bar false } } := by
  simp [State.sprdEpDevUnmapBar, State.sprdEpDevPutBar, hd, hvir]

theorem Inv.unmapBar (h : Inv s) (hd : s.gEpDev = some d) :
    Inv ((s.sprdEpDevUnmapBar bar).sprdEpDevPutBar bar) := by
  have hp := h.present d hd
  cases hvir : (d.windows bar).barVir with
  | none =>
    rw [unmapBar_none hd hvir]
    refine h.setWindow bar hd rfl rfl rfl (Nat.le_refl _) h.live (fun _ _ hm => hm)
      (fun _ _ => Iff.rfl) (fun i hi => ⟨rfl, Function.update_of_ne hi _ _⟩) (hp.windows bar) ?_
      (hp.kept bar)
    -- A BAR without a mapping is not marked.
    intro hle
    have hmade : (d.windows bar).made = none := by
      rw [← (hp.windows bar).vir_eq hle, hvir]
    simp [State.Holds, hmade]
  | some m =>
    obtain ⟨hle, hmade⟩ := (hp.windows bar).made_of_vir hvir
    have hundo := h.undo hd hmade Window.at_empty fun _ => rfl
    rw [unmapBar_eq hd hvir]
    simpa [hle] using hundo

theorem Inv.sprdEpUnmapMemory (h : Inv s) (barAddr : Option Ptr) :
    Inv (s.sprdEpUnmapMemory barAddr) := by
  obtain heq | ⟨d, bar, hd, -, heq⟩ := sprdEpUnmapMemory_cases s barAddr
  · rw [heq]
    exact h
  · rw [heq]
    exact h.unmapBar hd

theorem sprdEpUnmapMemory_gEpSave (s : State) (barAddr : Option Ptr) :
    (s.sprdEpUnmapMemory barAddr).gEpSave = s.gEpSave := by
  obtain heq | ⟨d, bar, hd, -, heq⟩ := sprdEpUnmapMemory_cases s barAddr
  · rw [heq]
  · rw [heq]
    cases hvir : (d.windows bar).barVir with
    | none => rw [unmapBar_none hd hvir]
    | some m => rw [unmapBar_eq hd hvir]; rfl

theorem Inv.mem_unmapMemory (h : Inv s) (hd : s.gEpDev = some d) {barAddr : Option Ptr}
    (hm : m ∈ s.live) (hne : (d.windows m.bar).cpuVir ≠ barAddr) :
    m ∈ (s.sprdEpUnmapMemory barAddr).live := by
  obtain heq | ⟨d', bar, hd', haddr, heq⟩ := sprdEpUnmapMemory_cases s barAddr
  · rwa [heq]
  · rw [hd, some.injEq] at hd'
    subst hd'
    rw [heq]
    cases hvir : (d.windows bar).barVir with
    | none => rwa [unmapBar_none hd hvir]
    | some m' =>
      have hbar := (((h.present d hd).windows bar).eq_of_made
        (((h.present d hd).windows bar).made_of_vir hvir).2).1
      rw [unmapBar_eq hd hvir]
      have hother : m ≠ m' := by
        rintro rfl
        exact hne (hbar ▸ haddr)
      simpa [State.iounmap] using ⟨hm, hother⟩

theorem not_barMin_le (type : IpaType) : ¬barMin ≤ type.bar := by
  cases type <;> decide

theorem sprdEpIpaMap_cases (res : Bar → Resource) (s : State) (type : IpaType)
    (targetAddr size : UInt64)
    (translation : Bool) :
    s.sprdEpIpaMap res type targetAddr size translation = (0, s) ∨
    ∃ d w, s.gEpDev = some d ∧ w.srcAddr ≠ 0 ∧ w.made = some ⟨type.bar, s.next⟩ ∧
      w.barVir = (d.windows type.bar).barVir ∧ w.cpuVir = (d.windows type.bar).cpuVir ∧
      s.sprdEpIpaMap res type targetAddr size translation =
        (w.srcAddr, { s with
          gEpDev := some { d with windows := Function.update d.windows type.bar w }
          live := ⟨type.bar, s.next⟩ ::
            (s.iounmap (d.windows type.bar).made).live
          next := s.next + 1 }) := by
  unfold State.sprdEpIpaMap
  split
  next => exact .inl rfl
  next d hd =>
    split
    next => exact .inl rfl
    next base size' offset hregion =>
      split
      next =>
        exact .inr ⟨d, { d.windows type.bar with
          srcAddr := (res type.bar).start + offset
          targetAddr := base
          mapSize := size'
          made := some ⟨type.bar, s.next⟩ }, hd, srcAddr_ne hregion, rfl, rfl, rfl, rfl⟩
      next => exact .inl rfl

theorem Inv.sprdEpIpaMap (res : Bar → Resource) (h : Inv s) (type : IpaType)
    (targetAddr size : UInt64)
    (translation : Bool) : Inv (s.sprdEpIpaMap res type targetAddr size translation).2 := by
  obtain heq | ⟨d, w, hd, hsrc, hmade, hvir, hcpu, heq⟩ :=
    sprdEpIpaMap_cases res s type targetAddr size translation
  · rw [heq]
    exact h
  · rw [heq]
    have hat := (h.present d hd).windows type.bar
    have hmem : ∀ m, m ∈ (s.iounmap (d.windows type.bar).made).live → m ∈ s.live := by
      intro m hm
      exact (mem_filter.mp hm).1
    refine h.setWindow type.bar hd rfl rfl rfl (Nat.le_succ _) ?_ ?_ ?_
      (fun i hi => ⟨Function.update_of_ne hi _ _, rfl⟩) ?_
      (fun hle => absurd hle (not_barMin_le type)) (fun hle => absurd hle (not_barMin_le type))
    · intro m hm
      rcases mem_cons.mp hm with rfl | hm
      · exact Nat.lt_succ_self _
      · exact Nat.lt_succ_of_lt (h.live m (hmem m hm))
    · intro m hlt hm
      exact hmem m ((mem_cons.mp hm).resolve_left fun heq => by
        rw [heq] at hlt
        exact Nat.lt_irrefl _ hlt)
    · intro m hne
      have hnew : m ≠ ⟨type.bar, s.next⟩ := fun heq => hne (by rw [heq])
      have hold : some m ≠ (d.windows type.bar).made := fun heq => hne (hat.eq_of_made heq.symm).1
      simp [State.iounmap, hnew, hold]
    · show (Function.update d.windows type.bar w type.bar).At type.bar (s.next + 1)
      rw [Function.update_self]
      refine ⟨fun h0 => absurd h0 hsrc, fun _ => ⟨s.next, Nat.lt_succ_self _, hmade⟩, ?_, ?_⟩
      · rw [hvir, hat.vir, if_neg (not_barMin_le type), if_neg (not_barMin_le type)]
      · rw [hcpu, hvir, hat.cpu]

theorem Window.At.ipaUnmapped (h : w.At bar n) : w.ipaUnmapped.At bar n where
  empty := by
    intro hsrc
    rw [h.empty hsrc]
    rfl
  made := h.made
  vir := h.vir
  cpu := h.cpu

theorem Inv.sprdEpIpaUnmap (h : Inv s) (type : IpaType) (cpuAddr : UInt64) :
    Inv (s.sprdEpIpaUnmap type cpuAddr) := by
  unfold State.sprdEpIpaUnmap
  split
  next => exact h
  next d hd =>
    have hat := (h.present d hd).windows type.bar
    split
    next =>
      cases hmade : (d.windows type.bar).made with
      | none =>
        have hempty : d.windows type.bar = {} := by
          apply hat.empty
          by_contra hne
          obtain ⟨k, -, hk⟩ := hat.made hne
          rw [hmade] at hk
          cases hk
        have hsame : Function.update d.windows type.bar (d.windows type.bar).ipaUnmapped =
            d.windows := by
          rw [Function.update_eq_self_iff, hempty]
          rfl
        simpa [State.iounmap, hsame, ← hd] using h
      | some m =>
        have hundo := h.undo hd hmade hat.ipaUnmapped fun hle => absurd hle (not_barMin_le type)
        simpa [not_barMin_le type] using hundo
    next => exact h

theorem Inv.map (h : Inv s) {f : SprdPciEpDev → SprdPciEpDev}
    (hwindows : ∀ d, (f d).windows = d.windows) (hres : ∀ d, (f d).barRes = d.barRes) :
    Inv { s with gEpDev := s.gEpDev.map f } where
  live := h.live
  save := h.save
  saved := h.saved
  present := by
    intro e he
    obtain ⟨d, hd, rfl⟩ := map_eq_some_iff.mp he
    have hp := h.present d hd
    refine ⟨?_, ?_, ?_⟩
    · rw [hwindows]
      exact hp.windows
    · intro bar hle
      rw [hres, hp.marked bar hle, State.Holds, State.Holds, hwindows]
    · rw [hwindows]
      exact hp.kept
  gone := by
    intro hnone
    exact h.gone (map_eq_none_iff.mp hnone)
  before := by
    intro w hw
    obtain ⟨hnone, hsave⟩ := h.before w hw
    exact ⟨by rw [hnone]; rfl, hsave⟩

theorem backup_windows (hsrc : (d.windows bar).srcAddr ≠ 0) :
    (d.backup save).windows bar = d.windows bar := if_neg hsrc

theorem Inv.backup_kept (h : Inv s) (hd : s.gEpDev = some d) (hle : barMin ≤ bar) (hm : m ∈ s.live)
    (hmade : ((d.backup s.gEpSave).windows bar).made = some m) :
    d.windows bar = (d.backup s.gEpSave).windows bar := by
  by_cases hsrc : (d.windows bar).srcAddr = 0
  · have hold : (d.backup s.gEpSave).windows bar = s.gEpSave.windows bar := if_pos hsrc
    rw [hold] at hmade ⊢
    exact (h.present d hd).kept bar hle m hm hmade
  · exact (backup_windows hsrc).symm

theorem Inv.backup (h : Inv s) (hd : s.gEpDev = some d) :
    Inv { s with gEpSave := d.backup s.gEpSave } where
  live := h.live
  save := by
    intro bar
    show (if (d.windows bar).srcAddr = 0 then _ else _ : Window).At bar s.next
    split
    · exact h.save bar
    · exact (h.present d hd).windows bar
  saved := by
    intro bar hle m hm hmade
    have hkept := h.backup_kept hd hle hm hmade
    exact ((h.present d hd).marked bar hle).mpr ⟨m, hm, hkept ▸ hmade⟩
  present := by
    intro e he
    obtain rfl : d = e := some.inj (hd.symm.trans he)
    have hp := h.present d hd
    exact ⟨hp.windows, hp.marked, fun bar hle m hm hmade => h.backup_kept hd hle hm hmade⟩
  gone := by
    intro hnone
    rw [hd] at hnone
    cases hnone
  before := by
    intro w hw
    rw [h.before_eq_none hd] at hw
    cases hw

theorem Inv.sprdEpDevSetBackup (h : Inv s) : Inv s.sprdEpDevSetBackup := by
  unfold State.sprdEpDevSetBackup
  split
  next => exact h
  next d hd =>
    have hset := (h.backup hd).map (f := fun d => { d with needBackup := true })
      (fun _ => rfl) (fun _ => rfl)
    simpa [hd] using hset

def State.Outlives (s : State) (d : SprdPciEpDev) (save : SprdPciEpDevSave) (bar : Bar) : Prop :=
  save.windows bar = d.windows bar ∧ s.Holds d bar ∧ ¬d.Legacy bar

instance (s : State) (d : SprdPciEpDev) (save : SprdPciEpDevSave) (bar : Bar) :
    Decidable (s.Outlives d save bar) :=
  inferInstanceAs (Decidable (_ ∧ _))

/-- A remove that makes a backup leaves in the saved copy only mappings that outlive it, and one
that makes none finds no other mappings marked there. -/
def State.Restorable (s : State) (d : SprdPciEpDev) : Prop :=
  if d.needBackup then
    ∀ bar, ((d.saved s.gEpSave).windows bar).srcAddr ≠ 0 → s.Outlives d (d.saved s.gEpSave) bar
  else
    ∀ bar, barMin ≤ bar → (d.saved s.gEpSave).barRes bar = true →
      s.Outlives d (d.saved s.gEpSave) bar

instance (s : State) (d : SprdPciEpDev) : Decidable (s.Restorable d) :=
  inferInstanceAs (Decidable (if d.needBackup then _ else _))

theorem saved_of_backup (hneed : d.needBackup = true) : d.saved save = d.backup save := if_pos hneed

theorem Inv.saved_inv (h : Inv s) (hd : s.gEpDev = some d) :
    Inv { s with gEpSave := d.saved s.gEpSave } := by
  unfold SprdPciEpDev.saved
  split
  · exact h.backup hd
  · exact h

theorem Inv.saved_windows (h : Inv s) (hd : s.gEpDev = some d) (hneed : d.needBackup = true)
    (hok : ∀ bar, ((d.saved s.gEpSave).windows bar).srcAddr ≠ 0 →
      s.Outlives d (d.saved s.gEpSave) bar) :
    (d.saved s.gEpSave).windows = s.outliving d := by
  funext bar
  by_cases hsrc : ((d.saved s.gEpSave).windows bar).srcAddr = 0
  · rw [((h.saved_inv hd).save bar).empty hsrc, State.outliving, if_neg]
    rintro ⟨⟨m, hm, hmade⟩, -⟩
    have hne := ((h.present d hd).windows bar).srcAddr_ne (by simp [hmade])
    rw [saved_of_backup hneed, backup_windows hne] at hsrc
    exact hne hsrc
  · obtain ⟨heq, hholds, hlegacy⟩ := hok bar hsrc
    rw [State.outliving, if_pos ⟨hholds, hlegacy⟩, heq]

theorem Inv.outlives_of_marked (h : Inv s) (hd : s.gEpDev = some d) (hok : s.Restorable d)
    (hle : barMin ≤ bar) (hmark : (d.saved s.gEpSave).barRes bar = true) :
    s.Outlives d (d.saved s.gEpSave) bar := by
  unfold State.Restorable at hok
  split at hok
  next hneed =>
    rw [saved_of_backup hneed] at hmark
    obtain ⟨m, hm, hmade⟩ := ((h.present d hd).marked bar hle).mp hmark
    have hne := ((h.present d hd).windows bar).srcAddr_ne (by simp [hmade])
    apply hok bar
    rwa [saved_of_backup hneed, backup_windows hne]
  next => exact hok bar hle hmark

theorem unmapLegacy_gEpSave : (s.unmapLegacy d).gEpSave = s.gEpSave := by
  unfold State.unmapLegacy
  split
  · exact sprdEpUnmapMemory_gEpSave _ _
  · rfl

theorem Inv.unmapLegacy (h : Inv s) : Inv (s.unmapLegacy d) := by
  unfold State.unmapLegacy
  split
  · exact h.sprdEpUnmapMemory _
  · exact h

theorem Inv.mem_unmapLegacy (h : Inv s) (hd : s.gEpDev = some d) (hm : m ∈ s.live)
    (hmade : (d.windows bar).made = some m) (hlegacy : ¬d.Legacy bar) :
    m ∈ (s.unmapLegacy d).live := by
  unfold State.unmapLegacy
  split
  next hsome =>
    have hbar := (((h.present d hd).windows bar).eq_of_made hmade).1
    refine h.mem_unmapMemory hd hm fun heq => hlegacy ⟨hsome, ?_⟩
    rw [← hbar]
    exact heq
  next => exact hm

theorem Inv.sprdPciEpDevRemove (h : Inv s) (hd : s.gEpDev = some d) (hok : s.Restorable d) :
    Inv (s.sprdPciEpDevRemove d) := by
  have hsaved := h.saved_inv hd
  have ht := hsaved.unmapLegacy (d := d)
  have hsave : (({ s with gEpSave := d.saved s.gEpSave } : State).unmapLegacy d).gEpSave =
      d.saved s.gEpSave := unmapLegacy_gEpSave
  -- A mapping of the saved copy that outlives the remove is live behind it.
  have hheld : ∀ bar, s.Outlives d (d.saved s.gEpSave) bar →
      ∃ m ∈ (({ s with gEpSave := d.saved s.gEpSave } : State).unmapLegacy d).live,
        ((d.saved s.gEpSave).windows bar).made = some m := by
    rintro bar ⟨heq, ⟨m, hm, hmade⟩, hlegacy⟩
    exact ⟨m, hsaved.mem_unmapLegacy hd hm hmade hlegacy, by rw [heq, hmade]⟩
  refine ⟨ht.live, ht.save, ht.saved, nofun, ?_, ?_⟩
  · intro _ bar hle hmark
    simp only [State.sprdPciEpDevRemove, hsave] at hmark ⊢
    exact hheld bar (h.outlives_of_marked hd hok hle hmark)
  · intro w hw
    simp only [State.sprdPciEpDevRemove, ite_none_right_eq_some, some.injEq] at hw
    obtain ⟨hneed, rfl⟩ := hw
    unfold State.Restorable at hok
    rw [if_pos hneed] at hok
    rw [← h.saved_windows hd hneed hok]
    exact ⟨rfl, congrArg SprdPciEpDevSave.windows hsave, fun bar hsrc => hheld bar (hok bar hsrc)⟩

theorem Inv.restore_windows (h : Inv s) :
    (({} : SprdPciEpDev).restore s.gEpSave).windows = s.gEpSave.windows := by
  funext bar
  show (if (s.gEpSave.windows bar).srcAddr = 0 then {} else s.gEpSave.windows bar) = _
  split
  next hsrc => rw [(h.save bar).empty hsrc]
  next => rfl

theorem Inv.restored (h : Inv s) (hnone : s.gEpDev = none) : Inv s.restored where
  live := h.live
  save := h.save
  saved := h.saved
  present := by
    intro d hd
    obtain rfl := some.inj hd
    refine ⟨fun bar => ?_, fun bar hle => ?_, fun bar _ _ _ _ => ?_⟩
    · rw [h.restore_windows]
      exact h.save bar
    · unfold State.Holds
      rw [h.restore_windows]
      constructor
      · exact h.gone hnone bar hle
      · rintro ⟨m, hm, hmade⟩
        exact h.saved bar hle m hm hmade
    · rw [h.restore_windows]
      rfl
  gone := nofun
  before := nofun

theorem Inv.sprdPciEpDevProbe (h : Inv s) (hnone : s.gEpDev = none) (msi : Bool) (io : Io) :
    Inv (s.sprdPciEpDevProbe res msi io) := by
  have hr := h.restored hnone
  unfold State.sprdPciEpDevProbe
  split
  · exact hr
  · exact (hr.sprdEpMapMemory res pcieLegacyClearBase 0x4000 io).map (fun _ => rfl)
      fun _ => rfl

theorem Inv.probe_windows (h : Inv s) {w : Bar → Window} (hw : s.before = some w) {msi : Bool}
    {io : Io} (hd : (s.sprdPciEpDevProbe res msi io).gEpDev = some d) (bar : Bar) :
    d.windows bar = w bar ∨ (w bar = {} ∧ d.Legacy bar) := by
  obtain ⟨hnone, rfl, hheld⟩ := h.before w hw
  have hwindows := h.restore_windows
  unfold State.sprdPciEpDevProbe State.mapLegacy at hd
  split at hd
  next =>
    obtain rfl := some.inj hd
    exact .inl (congrFun hwindows bar)
  next =>
    obtain heq | ⟨-, -, -, bar', -, heq⟩ |
        ⟨d', bar', base, size, offset, hd', hle, hfree, -, heq⟩ :=
      sprdEpMapMemory_cases res s.restored pcieLegacyClearBase 0x4000 io
    · rw [heq] at hd
      obtain rfl := some.inj hd
      exact .inl (congrFun hwindows bar)
    · rw [heq] at hd
      obtain rfl := some.inj hd
      exact .inl (congrFun hwindows bar)
    · obtain rfl := some.inj hd'
      rw [heq] at hd
      obtain rfl := some.inj hd
      by_cases hbar : bar = bar'
      · subst hbar
        refine .inr ⟨?_, rfl, ?_⟩
        · -- A saved window with a mapping would be marked.
          apply (h.save bar).empty
          by_contra hsrc
          obtain ⟨m, hm, hmade⟩ := hheld bar hsrc
          have hmarked : s.gEpSave.barRes bar = true := h.saved bar hle m hm hmade
          rw [show s.gEpSave.barRes bar = false from hfree] at hmarked
          cases hmarked
        · simp [newWindow]
      · left
        simp only [Function.update_of_ne hbar]
        exact congrFun hwindows bar

/-- No translation step fails behind an `ioremap`, and no remove leaves an entry in the saved copy
for a mapping that does not outlive it. -/
def Ok (s : State) : Label → Prop
  | .mapMemory _ _ io => io.ioremap = true → io.translation = true
  | .probe msi io => msi = false → io.ioremap = true → io.translation = true
  | .remove => s.gEpDev.all (fun d => decide (s.Restorable d)) = true
  | _ => True

instance : ∀ s l, Decidable (Ok s l)
  | _, .mapMemory .. => inferInstanceAs (Decidable (_ → _))
  | _, .probe .. => inferInstanceAs (Decidable (_ → _))
  | _, .remove => inferInstanceAs (Decidable (_ = true))
  | _, .unmapMemory _ => inferInstanceAs (Decidable True)
  | _, .ipaMap .. => inferInstanceAs (Decidable True)
  | _, .ipaUnmap .. => inferInstanceAs (Decidable True)
  | _, .setBackup => inferInstanceAs (Decidable True)
  | _, .clearBackup => inferInstanceAs (Decidable True)

theorem step_inv {l : Label} (h : Inv s) (hok : Ok s l) (ht : step res s l = some t) : Inv t := by
  cases l with
  | mapMemory cpuAddr size io =>
    obtain rfl := some.inj ht
    exact h.sprdEpMapMemory res cpuAddr size io
  | unmapMemory barAddr =>
    obtain rfl := some.inj ht
    exact h.sprdEpUnmapMemory barAddr
  | ipaMap type targetAddr size translation =>
    obtain rfl := some.inj ht
    exact h.sprdEpIpaMap res type targetAddr size translation
  | ipaUnmap type cpuAddr =>
    obtain rfl := some.inj ht
    exact h.sprdEpIpaUnmap type cpuAddr
  | setBackup =>
    obtain rfl := some.inj ht
    exact h.sprdEpDevSetBackup
  | clearBackup =>
    obtain rfl := some.inj ht
    exact h.map (fun _ => rfl) fun _ => rfl
  | remove =>
    obtain ⟨d, hd, rfl⟩ := map_eq_some_iff.mp ht
    simp only [Ok, hd, all_some, decide_eq_true_eq] at hok
    exact h.sprdPciEpDevRemove hd hok
  | probe msi io =>
    simp only [step, ite_none_right_eq_some, some.injEq,
      isNone_iff_eq_none] at ht
    obtain ⟨hnone, rfl⟩ := ht
    exact h.sprdPciEpDevProbe hnone msi io

/-- What holds of the windows between calls. -/
structure Conserved (res : Bar → Resource) (s : State) : Prop where
  /-- A BAR is marked exactly when its window holds a live mapping. -/
  marked : ∀ d, s.gEpDev = some d → ∀ bar, barMin ≤ bar →
    (d.barRes bar = true ↔ ∃ m ∈ s.live, (d.windows bar).barVir = some m)
  /-- A call that maps nothing changes nothing. -/
  refused : ∀ cpuAddr size io, Ok s (.mapMemory cpuAddr size io) →
    (s.sprdEpMapMemory res cpuAddr size io).1 = none →
      (s.sprdEpMapMemory res cpuAddr size io).2 = s
  ipaRefused : ∀ type targetAddr size translation,
    (s.sprdEpIpaMap res type targetAddr size translation).1 = 0 →
      (s.sprdEpIpaMap res type targetAddr size translation).2 = s
  /-- A probe behind a remove that made a backup brings back what outlived the remove, and
  otherwise only makes the legacy mapping. -/
  restored : ∀ w, s.before = some w → ∀ msi io t, step res s (.probe msi io) = some t →
    ∀ d, t.gEpDev = some d → ∀ bar, d.windows bar = w bar ∨ (w bar = {} ∧ d.Legacy bar)

theorem Inv.conserved (h : Inv s) : Conserved res s where
  marked := by
    intro d hd bar hle
    have hp := h.present d hd
    rw [hp.marked bar hle, (hp.windows bar).vir_eq hle]
    rfl
  refused := by
    intro cpuAddr size io hok hnone
    obtain heq | ⟨hioremap, hfails, -⟩ | ⟨d, bar, base, size', offset, -, -, -, -, heq⟩ :=
      sprdEpMapMemory_cases res s cpuAddr size io
    · rw [heq]
    · rw [hok hioremap] at hfails
      cases hfails
    · rw [heq] at hnone
      cases hnone
  ipaRefused := by
    intro type targetAddr size translation hzero
    obtain heq | ⟨d, w, -, hsrc, -, -, -, heq⟩ :=
      sprdEpIpaMap_cases res s type targetAddr size translation
    · rw [heq]
    · rw [heq] at hzero
      exact absurd hzero hsrc
  restored := by
    intro w hw msi io t ht d hd bar
    simp only [step, ite_none_right_eq_some, some.injEq] at ht
    obtain ⟨-, rfl⟩ := ht
    exact h.probe_windows hw hd bar

/-- In the runs in which no translation step fails behind an `ioremap` and every entry that a remove
leaves in the saved copy is for a mapping that outlives it, the windows are conserved. -/
theorem conserved_of_restorable (h : Reaches (step res) Ok init s) : Conserved res s :=
  (h.invariant (P := Inv) inv_init fun _ _ _ hs hok ht => step_inv hs hok ht).conserved

def mebibytes (bar : Bar) : Resource where
  start := 0x40000000 + 0x100000 * bar.val.toUInt64
  size := 0x100000
  start_pos := by decide +revert
  size_pos := by decide
  fits := by decide +revert

/-- A mapping that is made behind the probe comes back in the next link cycle. -/
theorem conserved_linkCycle : ∃ s, Conserved mebibytes s ∧
    s.gEpDev.any (fun d => decide (d.barRes barMin = true ∧
      (d.windows barMin).barVir = some ⟨barMin, 0⟩)) = true := by
  have hrun : (run (guarded (step mebibytes) Ok) init
      [.probe true ⟨true, true⟩, .mapMemory 0x12345678 0x1000 ⟨true, true⟩, .setBackup, .remove,
        .probe true ⟨true, true⟩]).any (fun s => decide (s.gEpDev.any (fun d =>
          decide (d.barRes barMin = true ∧
            (d.windows barMin).barVir = some ⟨barMin, 0⟩)) = true)) = true := by
    decide
  obtain ⟨s, hreaches, hs⟩ := exists_of_run _ hrun
  exact ⟨s, conserved_of_restorable hreaches, hs⟩

/-- Without MSI the remove saves the legacy mapping before it undoes it, and the next probe marks
its BAR and brings back an address that is no longer mapped. -/
theorem not_conserved_legacy :
    ¬∀ s, Reachable (step mebibytes) init s → Conserved mebibytes s := by
  intro h
  have hrun : (run (guarded (step mebibytes) fun _ _ => True) init
      [.probe false ⟨true, true⟩, .setBackup, .remove, .probe true ⟨true, true⟩]).any
        (fun s => decide (s.gEpDev.any (fun d =>
          decide (d.barRes barMin = true ∧
            ¬∃ m ∈ s.live, (d.windows barMin).barVir = some m)) = true)) =
      true := by
    decide
  obtain ⟨s, hreaches, hs⟩ := exists_of_run _ hrun
  obtain ⟨d, hd, hstale⟩ := (Option.any_eq_true ..).mp hs
  obtain ⟨hmarked, hnone⟩ := of_decide_eq_true hstale
  exact hnone (((h s hreaches).marked d hd barMin (by decide)).mp hmarked)

end ModemSupport.Pcie.EpBars
