import ModemSupport.Gobi.ReadSync
import ModemSupport.Lib.Lists

/-! The entries of `mpReadNotifyList` and the `ReadSync` calls whose semaphores they hold, in every
reachable state. -/

namespace ModemSupport.Gobi.ReadSync

open Lib.Lists List

/-- `ReadCallback` or `ReleaseClientID` has taken the entry of the call off the list, and its
`UpSem` is still to run. -/
def Notifies (s : State) (r : Nat) : Prop :=
  s.readCallback = .notified r ∨ s.release = .notified r

def Call.unupped : Call → Prop
  | .waiting _ readSem => readSem = 0
  | .timedOut _ | .returned _ => True
  | .idle | .woken _ => False

/-- Each entry is that of a call that waits or gives up, and the entry of a call that is notified
is off the list. -/
structure Registered (s : State) : Prop where
  entry : ∀ e ∈ s.mpReadNotifyList, s.call e.mpData = .waiting e.mTransactionID 0 ∨
    s.call e.mpData = .timedOut e.mTransactionID
  nodup : (s.mpReadNotifyList.map Notify.mpData).Nodup
  fresh : ∀ r, s.calls ≤ r → s.call r = .idle
  off : ∀ r, Notifies s r → ∀ e ∈ s.mpReadNotifyList, e.mpData ≠ r
  unupped : ∀ r, Notifies s r → (s.call r).unupped
  distinct : ∀ r, s.readCallback = .notified r → s.release ≠ .notified r

theorem registered_init : Registered init where
  entry := by simp [init]
  nodup := by simp [init]
  fresh := fun _ _ => rfl
  off := by simp [Notifies, init]
  unupped := by simp [Notifies, init]
  distinct := by simp [init]

variable {s t : State} {r : Nat} {c : Call} {tid : UInt16} {alloc : Bool}

theorem Registered.lt_calls (h : Registered s) (hr : s.call r ≠ .idle) : r < s.calls := by
  by_contra hlt
  exact hr (h.fresh r (by omega))

theorem Registered.not_notifies_of_idle (h : Registered s) (hr : s.call r = .idle) :
    ¬Notifies s r := fun hn => by simpa [hr, Call.unupped] using h.unupped r hn

theorem Registered.not_notifies_of_woken (h : Registered s) (hr : s.call r = .woken tid) :
    ¬Notifies s r := fun hn => by simpa [hr, Call.unupped] using h.unupped r hn

theorem Registered.off_of_idle (h : Registered s) (hr : s.call r = .idle) :
    ∀ e ∈ s.mpReadNotifyList, e.mpData ≠ r := by
  rintro e he rfl
  rcases h.entry e he with hw | hw <;> rw [hr] at hw <;> cases hw

theorem Registered.off_of_woken (h : Registered s) (hr : s.call r = .woken tid) :
    ∀ e ∈ s.mpReadNotifyList, e.mpData ≠ r := by
  rintro e he rfl
  rcases h.entry e he with hw | hw <;> rw [hr] at hw <;> cases hw

theorem Registered.off_erased (h : Registered s) {e : Notify} {l₁ l₂ : List Notify}
    (hl : s.mpReadNotifyList = l₁ ++ e :: l₂) : ∀ e' ∈ l₁ ++ l₂, e'.mpData ≠ e.mpData := by
  have hnodup := h.nodup
  rw [hl, map_append, map_cons, nodup_append] at hnodup
  obtain ⟨-, htail, hdisj⟩ := hnodup
  intro e' he' heq
  rcases mem_append.mp he' with he' | he'
  · exact hdisj _ (List.mem_map_of_mem he') _ (by simp) heq
  · exact (nodup_cons.mp htail).1 (heq ▸ List.mem_map_of_mem he')

theorem Registered.setCall (h : Registered s) (hr : r < s.calls)
    (hoff : ∀ e ∈ s.mpReadNotifyList, e.mpData ≠ r) (hn : Notifies s r → c.unupped) :
    Registered (setCall s r c) where
  entry := fun e he => by
    simp only [ReadSync.setCall, Function.update_of_ne (hoff e he)]
    exact h.entry e he
  nodup := h.nodup
  fresh := fun q hq => by
    have hne : q ≠ r := by
      rintro rfl
      exact absurd hr (by simpa [ReadSync.setCall] using hq)
    simp only [ReadSync.setCall, Function.update_of_ne hne]
    exact h.fresh q hq
  off := h.off
  unupped := fun q hq => by
    by_cases hne : q = r
    · subst hne
      simpa [ReadSync.setCall] using hn hq
    · simp only [ReadSync.setCall, Function.update_of_ne hne]
      exact h.unupped q hq
  distinct := h.distinct

theorem Registered.sublist (h : Registered s) {es : List Notify} {ms : List ReadMem}
    (hes : es.Sublist s.mpReadNotifyList) :
    Registered { s with mpReadNotifyList := es, mpList := ms } where
  entry := fun e he => h.entry e (hes.subset he)
  nodup := h.nodup.sublist (hes.map _)
  fresh := h.fresh
  off := fun r hr e he => h.off r hr e (hes.subset he)
  unupped := h.unupped
  distinct := h.distinct

theorem Registered.congr (h : Registered s) (hnotify : t.mpReadNotifyList = s.mpReadNotifyList)
    (hcalls : t.calls = s.calls) (hcall : t.call = s.call)
    (hcb : t.readCallback = s.readCallback ∨ ∀ r, t.readCallback ≠ .notified r)
    (hrel : t.release = s.release ∨ ∀ r, t.release ≠ .notified r) : Registered t := by
  have hnotifies : ∀ r, Notifies t r → Notifies s r := by
    rintro r (hr | hr)
    · exact hcb.elim (fun heq => Or.inl (heq ▸ hr)) fun hne => absurd hr (hne r)
    · exact hrel.elim (fun heq => Or.inr (heq ▸ hr)) fun hne => absurd hr (hne r)
  refine ⟨?_, ?_, ?_, ?_, ?_, ?_⟩
  · rw [hnotify, hcall]
    exact h.entry
  · rw [hnotify]
    exact h.nodup
  · rw [hcalls, hcall]
    exact h.fresh
  · rw [hnotify]
    exact fun r hr => h.off r (hnotifies r hr)
  · rw [hcall]
    exact fun r hr => h.unupped r (hnotifies r hr)
  · intro r hr hr'
    rcases hcb with hcb | hcb
    · rcases hrel with hrel | hrel
      · exact h.distinct r (hcb ▸ hr) (hrel ▸ hr')
      · exact hrel r hr'
    · exact hcb r hr

theorem Registered.addToNotifyList (h : Registered s) (hr : r < s.calls)
    (hoff : ∀ e ∈ s.mpReadNotifyList, e.mpData ≠ r) (hn : ¬Notifies s r) :
    Registered (addToNotifyList s r tid alloc) := by
  unfold ReadSync.addToNotifyList
  split
  · have hset := h.setCall (c := .waiting tid 0) hr hoff fun hx => absurd hx hn
    exact
      { entry := fun e he => by
          rcases mem_append.mp he with he | he
          · exact hset.entry e he
          · obtain rfl := mem_singleton.mp he
            exact Or.inl (Function.update_self ..)
        nodup := by
          rw [map_append, nodup_append]
          refine ⟨hset.nodup, by simp, ?_⟩
          rintro a ha b hb rfl
          obtain ⟨e, he, rfl⟩ := List.mem_map.mp ha
          exact hoff e he (by simpa using hb)
        fresh := hset.fresh
        off := fun q hq e he => by
          rcases mem_append.mp he with he | he
          · exact hset.off q hq e he
          · obtain rfl := mem_singleton.mp he
            rintro rfl
            exact hn hq
        unupped := hset.unupped
        distinct := hset.distinct }
  · exact h.setCall hr hoff fun hx => absurd hx hn

theorem Registered.readLoop (h : Registered s) (hr : r < s.calls)
    (hoff : ∀ e ∈ s.mpReadNotifyList, e.mpData ≠ r) (hn : ¬Notifies s r) :
    Registered (readLoop s r tid alloc) := by
  unfold ReadSync.readLoop
  split
  · have hsub : Registered { s with mpList := s.mpList.eraseP (takes tid) } :=
      h.sublist (Sublist.refl _)
    exact hsub.setCall hr hoff fun hx => absurd hx hn
  · exact h.addToNotifyList hr hoff hn

theorem Registered.newCall (h : Registered s) : Registered { s with calls := s.calls + 1 } where
  entry := h.entry
  nodup := h.nodup
  fresh := fun r hr => h.fresh r (by simp only at hr; omega)
  off := h.off
  unupped := h.unupped
  distinct := h.distinct

theorem Registered.readSync (h : Registered s) : Registered (readSync s tid alloc) := by
  have hidle : s.call s.calls = .idle := h.fresh _ (Nat.le_refl _)
  have hn : ¬Notifies { s with calls := s.calls + 1 } s.calls := h.not_notifies_of_idle hidle
  unfold ReadSync.readSync
  split
  · exact h.newCall.readLoop (Nat.lt_succ_self _) (h.off_of_idle hidle) hn
  · exact h.newCall.setCall (Nat.lt_succ_self _) (h.off_of_idle hidle) fun hx => absurd hx hn

theorem Registered.down {n : Nat} (h : Registered s) (hr : s.call r = .waiting tid n)
    (hpos : 0 < n) : Registered (ReadSync.setCall s r (.woken tid)) := by
  refine h.setCall (h.lt_calls (by simp [hr])) ?_ fun hn => ?_
  · rintro e he rfl
    rcases h.entry e he with hw | hw <;> rw [hr] at hw <;> cases hw
    exact absurd hpos (Nat.lt_irrefl 0)
  · have hzero : n = 0 := by simpa [hr, Call.unupped] using h.unupped r hn
    omega

theorem Registered.timeout (h : Registered s) (hr : s.call r = .waiting tid 0) :
    Registered (ReadSync.setCall s r (.timedOut tid)) where
  entry := fun e he => by
    by_cases hne : e.mpData = r
    · subst hne
      have htid : e.mTransactionID = tid := by
        rcases h.entry e he with hw | hw <;> rw [hr] at hw <;> cases hw
        rfl
      simp [ReadSync.setCall, htid]
    · simp only [ReadSync.setCall, Function.update_of_ne hne]
      exact h.entry e he
  nodup := h.nodup
  fresh := fun q hq => by
    have hne : q ≠ r := by
      rintro rfl
      rw [h.fresh q hq] at hr
      cases hr
    simp only [ReadSync.setCall, Function.update_of_ne hne]
    exact h.fresh q hq
  off := h.off
  unupped := fun q hq => by
    by_cases hne : q = r
    · subst hne
      simp [ReadSync.setCall, Call.unupped]
    · simp only [ReadSync.setCall, Function.update_of_ne hne]
      exact h.unupped q hq
  distinct := h.distinct

theorem Registered.giveUp (h : Registered s) (hr : s.call r = .timedOut tid) :
    Registered (giveUp s r) := by
  have hlt : r < s.calls := h.lt_calls (by simp [hr])
  have hsub : Registered
      { s with mpReadNotifyList := s.mpReadNotifyList.eraseP fun e => e.mpData == r } :=
    h.sublist eraseP_sublist
  have hoff : ∀ e ∈ s.mpReadNotifyList.eraseP fun e => e.mpData == r, e.mpData ≠ r := by
    rintro e he rfl
    obtain ⟨a, l₁, l₂, -, ha, hl, herase⟩ := exists_of_eraseP
      (p := fun a : Notify => a.mpData == e.mpData) (mem_of_mem_eraseP he) (by simp)
    rw [herase] at he
    exact h.off_erased hl e he (by simpa using (beq_iff_eq.mp ha).symm)
  exact (hsub.setCall (c := .returned (.error .eintr)) hlt hoff fun _ => trivial).congr rfl rfl rfl
    (Or.inl rfl) (Or.inl rfl)

theorem Registered.deliver (h : Registered s) (m : ReadMem) : Registered (deliver s m alloc) := by
  unfold ReadSync.deliver
  split
  case isFalse => exact h
  case isTrue =>
    split
    case h_2 => exact h.sublist (Sublist.refl _)
    case h_1 e he =>
      obtain ⟨-, l₁, l₂, hl, herase⟩ := find_split he
      have hsub : Registered { s with
          mpList := s.mpList ++ [m]
          mpReadNotifyList := s.mpReadNotifyList.eraseP (wakes m.mTransactionID) } :=
        h.sublist eraseP_sublist
      have hmem : e ∈ s.mpReadNotifyList := by simp [hl]
      exact
        { entry := hsub.entry
          nodup := hsub.nodup
          fresh := hsub.fresh
          off := by
            rintro q (hq | hq)
            · obtain rfl : e.mpData = q := by simpa using hq
              simp only [herase]
              exact h.off_erased hl
            · exact hsub.off q (Or.inr hq)
          unupped := by
            rintro q (hq | hq)
            · obtain rfl : e.mpData = q := by simpa using hq
              rcases h.entry e hmem with hw | hw <;> simp [hw, Call.unupped]
            · exact h.unupped q (Or.inr hq)
          distinct := by
            rintro q hq hrel
            obtain rfl : e.mpData = q := by simpa using hq
            exact h.off _ (Or.inr hrel) e hmem rfl }

theorem Registered.upSem (h : Registered s) (hoff : ∀ e ∈ s.mpReadNotifyList, e.mpData ≠ r)
    (hn : ¬Notifies s r) : Registered (upSem s r) := by
  unfold ReadSync.upSem
  cases hr : s.call r with
  | waiting t n => exact h.setCall (h.lt_calls (by simp [hr])) hoff fun hx => absurd hx hn
  | returned x => exact h.congr rfl rfl rfl (Or.inl rfl) (Or.inl rfl)
  | idle => exact h
  | woken t => exact h
  | timedOut t => exact h

theorem upSem_readCallback {cb : Callback} :
    { upSem s r with readCallback := cb } = upSem { s with readCallback := cb } r := by
  unfold upSem
  cases s.call r <;> rfl

theorem upSem_release {rel : Release} :
    { upSem s r with release := rel } = upSem { s with release := rel } r := by
  unfold upSem
  cases s.call r <;> rfl

theorem registered_readStep {l : ReadLabel} (h : Registered s) (hstep : readStep s l = some t) :
    Registered t := by
  cases l with
  | call tid alloc =>
    obtain rfl : readSync s tid alloc = t := by simpa [readStep] using hstep
    exact h.readSync
  | down r =>
    obtain ⟨tid, n, hr, hn, rfl⟩ := of_down hstep
    exact h.down hr hn
  | timeout r =>
    obtain ⟨tid, hr, rfl⟩ := of_timeout hstep
    exact h.timeout hr
  | giveUp r =>
    obtain ⟨tid, hr, rfl⟩ := of_giveUp hstep
    exact h.giveUp hr
  | retry r alloc =>
    obtain ⟨tid, hr, rfl⟩ := of_retry hstep
    exact h.readLoop (h.lt_calls (by simp [hr])) (h.off_of_woken hr) (h.not_notifies_of_woken hr)
  | deliver m alloc =>
    obtain ⟨-, rfl⟩ := of_deliver hstep
    exact h.deliver m
  | upSem =>
    obtain ⟨r, hcb, rfl⟩ := of_upSem hstep
    rw [upSem_readCallback]
    have hupped : Registered { s with readCallback := .upped } :=
      h.congr rfl rfl rfl (Or.inr (by simp)) (Or.inl rfl)
    refine hupped.upSem (h.off r (Or.inl hcb)) ?_
    simpa [Notifies] using h.distinct r hcb
  | callbackEnd =>
    obtain ⟨-, rfl⟩ := of_callbackEnd hstep
    exact h.congr rfl rfl rfl (Or.inr (by simp)) (Or.inl rfl)

theorem Registered.releaseURBs (h : Registered s) (urb active : Bool) :
    Registered (releaseURBs s urb active) := by
  unfold ReadSync.releaseURBs
  split
  · exact h.congr rfl rfl rfl (Or.inl rfl) (Or.inr (by simp))
  · exact h.congr rfl rfl rfl (Or.inl rfl) (Or.inr (by simp))

theorem Registered.releaseNotify (h : Registered s) (urb active : Bool) :
    Registered (releaseNotify s urb active) := by
  unfold ReadSync.releaseNotify
  split
  case h_2 => exact h.releaseURBs urb active
  case h_1 e es hlist =>
    have hsub : Registered { s with mpReadNotifyList := es } :=
      h.sublist (by rw [hlist]; exact sublist_cons_self ..)
    have hmem : e ∈ s.mpReadNotifyList := by simp [hlist]
    exact
      { entry := hsub.entry
        nodup := hsub.nodup
        fresh := hsub.fresh
        off := by
          rintro q (hq | hq)
          · exact hsub.off q (Or.inl hq)
          · obtain rfl : e.mpData = q := by simpa using hq
            have hl : s.mpReadNotifyList = [] ++ e :: es := hlist
            exact h.off_erased hl
        unupped := by
          rintro q (hq | hq)
          · exact h.unupped q (Or.inl hq)
          · obtain rfl : e.mpData = q := by simpa using hq
            rcases h.entry e hmem with hw | hw <;> simp [hw, Call.unupped]
        distinct := by
          rintro q hcb hq
          obtain rfl : e.mpData = q := by simpa using hq
          exact h.off _ (Or.inl hcb) e hmem rfl }

theorem registered_step {l : Label} (h : Registered s) (hstep : step s l = some t) :
    Registered t := by
  cases l with
  | read l => exact registered_readStep h hstep
  | release urb active =>
    obtain ⟨-, rfl⟩ := of_release hstep
    exact h.releaseNotify urb active
  | releaseUp =>
    obtain ⟨r, hrel, rfl⟩ := of_releaseUp hstep
    rw [upSem_release]
    have hupped : Registered { s with release := .upped } :=
      h.congr rfl rfl rfl (Or.inl rfl) (Or.inr (by simp))
    refine hupped.upSem (h.off r (Or.inr hrel)) ?_
    simpa [Notifies] using fun hcb => h.distinct r hcb hrel
  | releaseLock urb active =>
    rcases of_releaseLock hstep with ⟨-, rfl⟩ | ⟨-, rfl⟩
    · exact h.releaseNotify urb active
    · exact h.releaseURBs urb active

/-- Only `ReleaseClientID` takes the client off its list. -/
structure Frame (s t : State) : Prop where
  listed : t.listed = s.listed
  freed : t.freed = s.freed
  release : t.release = s.release

theorem Frame.readLoop (s : State) (r : Nat) (tid : UInt16) (alloc : Bool) :
    Frame s (readLoop s r tid alloc) := by
  unfold ReadSync.readLoop ReadSync.addToNotifyList
  split
  · exact ⟨rfl, rfl, rfl⟩
  · split <;> exact ⟨rfl, rfl, rfl⟩

theorem Frame.upSem (s : State) (r : Nat) : Frame s (upSem s r) := by
  unfold ReadSync.upSem
  split <;> exact ⟨rfl, rfl, rfl⟩

theorem frame_readStep {l : ReadLabel} (hstep : readStep s l = some t) : Frame s t := by
  cases l with
  | call tid alloc =>
    obtain rfl : readSync s tid alloc = t := by simpa [readStep] using hstep
    unfold readSync
    split
    · obtain ⟨hl, hf, hr⟩ := Frame.readLoop { s with calls := s.calls + 1 } s.calls tid alloc
      exact ⟨hl, hf, hr⟩
    · exact ⟨rfl, rfl, rfl⟩
  | down r =>
    obtain ⟨tid, n, -, -, rfl⟩ := of_down hstep
    exact ⟨rfl, rfl, rfl⟩
  | timeout r =>
    obtain ⟨tid, -, rfl⟩ := of_timeout hstep
    exact ⟨rfl, rfl, rfl⟩
  | giveUp r =>
    obtain ⟨tid, -, rfl⟩ := of_giveUp hstep
    exact ⟨rfl, rfl, rfl⟩
  | retry r alloc =>
    obtain ⟨tid, -, rfl⟩ := of_retry hstep
    exact Frame.readLoop s r tid alloc
  | deliver m alloc =>
    obtain ⟨-, rfl⟩ := of_deliver hstep
    unfold deliver
    split
    · split <;> exact ⟨rfl, rfl, rfl⟩
    · exact ⟨rfl, rfl, rfl⟩
  | upSem =>
    obtain ⟨r, -, rfl⟩ := of_upSem hstep
    rw [upSem_readCallback]
    obtain ⟨hl, hf, hr⟩ := Frame.upSem { s with readCallback := .upped } r
    exact ⟨hl, hf, hr⟩
  | callbackEnd =>
    obtain ⟨-, rfl⟩ := of_callbackEnd hstep
    exact ⟨rfl, rfl, rfl⟩

end ModemSupport.Gobi.ReadSync
