import ModemSupport.Gobi.WriteSync
import ModemSupport.Lib.Lists

/-! Which URB a `WriteSync` call gets back, what it returns, and how often each URB is freed. -/

namespace ModemSupport.Gobi.WriteSync

open Lib.Transition Lib.Lists Option

/-- The calls get their own URBs back, a call whose transfer completed with status 0 returns its
size, and each URB that was allocated is freed once. -/
structure Own (s : State) : Prop where
  own : ∀ r x, s.gotBack r = some x → x = some r
  back : ∀ r ∈ s.order, ∀ result, s.call r = .returned result → s.gotBack r = some (some r)
  size : ∀ r result, s.call r = .returned result → s.urb r = .done 0 →
    result = s.writeBufferSize r
  freed_le : ∀ r, s.freed r ≤ 1
  freed : ∀ r result, s.call r = .returned result → s.urb r ≠ .none → s.freed r = 1

/-- The call has added its URB and not yet come to `PopFromURBList`. -/
def Call.inProgress : Call → Bool
  | .added | .submitFailed _ | .waiting _ | .woken _ | .checked _ => true
  | _ => false

def Call.waits : Call → Bool
  | .waiting _ => true
  | _ => false

/-- The condition on a step: the calls come to `PopFromURBList` in the order in which they came to
`AddToURBList`, the device stays valid and the client is not released while a call is in progress,
and no transfer completes behind the timeout of its call. -/
def InOrder (s : State) : Label → Prop
  | .submitError r | .pop r => s.order.find? (fun q => (s.call q).inProgress) = some r
  | .invalidate | .release => ∀ r < s.calls, (s.call r).inProgress = false
  | .complete u status => status = 0 → (s.call u).waits = true
  | _ => True

def CallOk (c : Call) (size : Nat) (u : Urb) (freed : Nat) : Prop :=
  match c with
  | .idle => u = .none ∧ freed = 0
  | .allocated | .added | .submitFailed _ => u = .allocated ∧ freed = 0
  | .waiting writeSem =>
    ((u = .active ∧ writeSem = 0) ∨ (∃ status, u = .done status) ∧ 0 < writeSem) ∧ freed = 0
  | .woken result | .checked result | .popped result =>
    ((result = 0 ∧ ∃ status, u = .done status) ∨
      (result ≠ 0 ∧ (u = .active ∨ ∃ status, status ≠ 0 ∧ u = .done status))) ∧ freed = 0
  | .mismatched => False
  | .returned result =>
    (u = .none ∧ freed = 0) ∨ (u ≠ .none ∧ freed = 1 ∧ (u = .done 0 → result = size))

def Call.hasAdded : Call → Bool
  | .idle | .allocated => false
  | _ => true

/-- `mpURBList` holds the URBs of the calls in progress, in the order in which they were added. -/
structure Inv (s : State) : Prop where
  list : s.mpURBList = s.order.filter fun q => (s.call q).inProgress
  nodup : s.order.Nodup
  added : ∀ r ∈ s.order, (s.call r).hasAdded = true
  progress : ∀ r, (s.call r).inProgress = true → r ∈ s.order
  usable : ∀ r, (s.call r).inProgress = true → s.valid = true ∧ s.listed = true
  release : ∀ u, s.release ≠ .killing u
  fresh : ∀ r, s.calls ≤ r → s.call r = .idle
  callOk : ∀ r, CallOk (s.call r) (s.writeBufferSize r) (s.urb r) (s.freed r)
  own : ∀ r x, s.gotBack r = some x → x = some r
  back : ∀ r ∈ s.order, (s.call r).inProgress = false → s.gotBack r = some (some r)

theorem inv_init : Inv init where
  list := rfl
  nodup := List.nodup_nil
  added := by simp [init]
  progress := by simp [init, Call.inProgress]
  usable := by simp [init, Call.inProgress]
  release := by simp [init]
  fresh := fun _ _ => rfl
  callOk := fun _ => ⟨rfl, rfl⟩
  own := by simp [init]
  back := by simp [init]

variable {s t : State} {r : Nat}

theorem Inv.lt_calls (h : Inv s) (hr : s.call r ≠ .idle) : r < s.calls := by
  by_contra hlt
  exact hr (h.fresh r (by omega))

theorem Inv.toOwn (h : Inv s) : Own s where
  own := h.own
  back := fun r hr result hcall => h.back r hr (by simp [hcall, Call.inProgress])
  size := fun r result hcall hdone => by
    have hok := h.callOk r
    rw [hcall] at hok
    rcases hok with ⟨hnone, -⟩ | ⟨-, -, hsize⟩
    · rw [hnone] at hdone
      cases hdone
    · exact hsize hdone
  freed_le := fun r => by
    have hok := h.callOk r
    cases hcall : s.call r <;> rw [hcall] at hok <;> simp only [CallOk] at hok <;> omega
  freed := fun r result hcall hurb => by
    have hok := h.callOk r
    rw [hcall] at hok
    rcases hok with ⟨hnone, -⟩ | ⟨-, hfreed, -⟩
    · exact absurd hnone hurb
    · exact hfreed

/-- What a step of one call leaves alone. -/
structure Frame (s t : State) (r : Nat) : Prop where
  mpURBList : t.mpURBList = s.mpURBList
  order : t.order = s.order
  valid : t.valid = s.valid
  listed : t.listed = s.listed
  release : t.release = s.release
  calls : t.calls = s.calls
  gotBack : t.gotBack = s.gotBack
  call : ∀ q, q ≠ r → t.call q = s.call q
  rest : ∀ q, q ≠ r → t.writeBufferSize q = s.writeBufferSize q ∧ t.urb q = s.urb q ∧
    t.freed q = s.freed q

theorem Inv.ofFrame (h : Inv s) (hframe : Frame s t r) (hr : r < s.calls)
    (hprogress : (t.call r).inProgress = (s.call r).inProgress)
    (hadded : (s.call r).hasAdded = true → (t.call r).hasAdded = true)
    (hok : CallOk (t.call r) (t.writeBufferSize r) (t.urb r) (t.freed r)) : Inv t := by
  have hall : ∀ q, (t.call q).inProgress = (s.call q).inProgress := fun q => by
    by_cases hq : q = r
    · rw [hq, hprogress]
    · rw [hframe.call q hq]
  have hfun : (fun q => (t.call q).inProgress) = fun q => (s.call q).inProgress := funext hall
  constructor
  case list => rw [hframe.mpURBList, hframe.order, hfun, h.list]
  case nodup => exact hframe.order ▸ h.nodup
  case added =>
    intro q hq
    rw [hframe.order] at hq
    by_cases hqr : q = r
    · rw [hqr] at hq ⊢
      exact hadded (h.added r hq)
    · rw [hframe.call q hqr]
      exact h.added q hq
  case progress =>
    intro q hq
    rw [hall] at hq
    exact hframe.order ▸ h.progress q hq
  case usable =>
    intro q hq
    rw [hall] at hq
    rw [hframe.valid, hframe.listed]
    exact h.usable q hq
  case release => exact hframe.release ▸ h.release
  case fresh =>
    intro q hq
    rw [hframe.calls] at hq
    rw [hframe.call q (by omega)]
    exact h.fresh q hq
  case callOk =>
    intro q
    by_cases hqr : q = r
    · exact hqr ▸ hok
    · obtain ⟨hsize, hurb, hfreed⟩ := hframe.rest q hqr
      rw [hframe.call q hqr, hsize, hurb, hfreed]
      exact h.callOk q
  case own => exact hframe.gotBack ▸ h.own
  case back =>
    intro q hq hno
    rw [hall] at hno
    rw [hframe.order] at hq
    rw [hframe.gotBack]
    exact h.back q hq hno

theorem frame_setCall (c : Call) : Frame s (setCall s r c) r := by
  constructor <;> intros <;> simp_all [setCall]

theorem frame_complete (status : Int) : Frame s (complete s r status) r := by
  constructor
  case call =>
    intro q hq
    unfold complete
    cases s.call r <;> simp [Function.update_of_ne hq]
  case rest =>
    intro q hq
    exact ⟨rfl, Function.update_of_ne hq .., rfl⟩
  all_goals rfl

theorem frame_usbKillUrb : Frame s (usbKillUrb s r) r := by
  unfold usbKillUrb
  split
  · exact frame_complete _
  · constructor <;> intros <;> simp_all

theorem Frame.usbFreeUrb (h : Frame s t r) : Frame s (usbFreeUrb t r) r where
  mpURBList := h.mpURBList
  order := h.order
  valid := h.valid
  listed := h.listed
  release := h.release
  calls := h.calls
  gotBack := h.gotBack
  call := h.call
  rest := fun q hq => by
    obtain ⟨hsize, hurb, hfreed⟩ := h.rest q hq
    exact ⟨hsize, hurb, by simp [WriteSync.usbFreeUrb, Function.update_of_ne hq, hfreed]⟩

theorem Frame.setCall (h : Frame s t r) (c : Call) : Frame s (setCall t r c) r where
  mpURBList := h.mpURBList
  order := h.order
  valid := h.valid
  listed := h.listed
  release := h.release
  calls := h.calls
  gotBack := h.gotBack
  call := fun q hq => by
    rw [← h.call q hq]
    exact Function.update_of_ne hq ..
  rest := h.rest

@[simp] theorem setCall_call (c : Call) : (setCall s r c).call r = c := by simp [setCall]
@[simp] theorem setCall_urb (c : Call) : (setCall s r c).urb = s.urb := rfl
@[simp] theorem setCall_freed (c : Call) : (setCall s r c).freed = s.freed := rfl
@[simp] theorem setCall_size (c : Call) :
    (setCall s r c).writeBufferSize = s.writeBufferSize := rfl
@[simp] theorem usbFreeUrb_call : (usbFreeUrb s r).call = s.call := rfl
@[simp] theorem usbFreeUrb_urb : (usbFreeUrb s r).urb = s.urb := rfl
@[simp] theorem usbFreeUrb_size : (usbFreeUrb s r).writeBufferSize = s.writeBufferSize := rfl
@[simp] theorem usbFreeUrb_freed : (usbFreeUrb s r).freed r = s.freed r + 1 := by
  simp [usbFreeUrb]

theorem usbKillUrb_freed : (usbKillUrb s r).freed = s.freed := by
  unfold usbKillUrb
  split <;> rfl

theorem usbKillUrb_urb : (usbKillUrb s r).urb r ≠ .active ∧
    ((usbKillUrb s r).urb r = .done 0 → s.urb r = .done 0) ∧
    (s.urb r ≠ .none → (usbKillUrb s r).urb r ≠ .none) := by
  unfold usbKillUrb complete
  split
  · simp [ENOENT]
  · simp_all

theorem Inv.submit (h : Inv s) (hr : s.call r = .added) (result : Int) :
    Inv (if result < 0 then setCall s r (.submitFailed result)
      else setCall { s with urb := Function.update s.urb r .active } r (.waiting 0)) := by
  have hlt : r < s.calls := h.lt_calls (by simp [hr])
  have hok := h.callOk r
  rw [hr] at hok
  split
  · exact h.ofFrame (frame_setCall _) hlt (by simp [hr, Call.inProgress])
      (by simp [Call.hasAdded]) (by simpa [CallOk] using hok)
  · refine h.ofFrame ?_ hlt (by simp [hr, Call.inProgress]) (by simp [Call.hasAdded]) ?_
    · constructor <;> intros <;> simp_all [setCall, Function.update_of_ne]
    · simpa [CallOk] using hok.2

theorem Inv.complete (h : Inv s) (hr : s.urb r = .active) {status : Int}
    (hstatus : status = 0 → (s.call r).waits = true) : Inv (complete s r status) := by
  have hok := h.callOk r
  rw [hr] at hok
  have hlt : r < s.calls := h.lt_calls fun hidle => by
    rw [hidle] at hok
    cases hok.1
  refine h.ofFrame (frame_complete status) hlt ?_ ?_ ?_
  · unfold WriteSync.complete
    cases hc : s.call r <;> simp [hc, Call.inProgress]
  · unfold WriteSync.complete
    cases hc : s.call r <;> simp [hc, Call.hasAdded]
  · unfold WriteSync.complete
    cases hc : s.call r with
    | waiting n =>
      rw [hc] at hok
      simpa [CallOk] using hok.2
    | woken result | checked result | popped result =>
      have hne : status ≠ 0 := fun hz => by simpa [hc, Call.waits] using hstatus hz
      rw [hc] at hok
      simp only [CallOk, Function.update_self, hc] at hok ⊢
      obtain ⟨hres, hfreed⟩ := hok
      refine ⟨Or.inr ⟨?_, Or.inr ⟨status, hne, rfl⟩⟩, hfreed⟩
      rcases hres with ⟨-, st, hst⟩ | ⟨hres, -⟩
      · cases hst
      · exact hres
    | returned result =>
      have hne : status ≠ 0 := fun hz => by simpa [hc, Call.waits] using hstatus hz
      rw [hc] at hok
      simpa [CallOk, hc, hne] using hok
    | mismatched =>
      rw [hc] at hok
      exact hok.elim
    | idle | allocated | added | submitFailed e =>
      rw [hc] at hok
      cases hok.1

theorem Inv.down {n : Nat} (h : Inv s) (hr : s.call r = .waiting n) (hn : 0 < n) :
    Inv (setCall s r (.woken 0)) := by
  have hok := h.callOk r
  rw [hr] at hok
  obtain ⟨⟨-, hz⟩ | ⟨hdone, -⟩, hfreed⟩ := hok
  · omega
  · exact h.ofFrame (frame_setCall _) (h.lt_calls (by simp [hr])) (by simp [hr, Call.inProgress])
      (by simp [Call.hasAdded]) (by simpa [CallOk, hfreed] using hdone)

theorem Inv.timeout (h : Inv s) (hr : s.call r = .waiting 0) :
    Inv (setCall s r (.woken (-ETIME))) := by
  have hok := h.callOk r
  rw [hr] at hok
  obtain ⟨⟨hactive, -⟩ | ⟨-, hlt⟩, hfreed⟩ := hok
  · exact h.ofFrame (frame_setCall _) (h.lt_calls (by simp [hr])) (by simp [hr, Call.inProgress])
      (by simp [Call.hasAdded]) (by simp [CallOk, hfreed, hactive, ETIME])
  · cases hlt

theorem Inv.check {result : Int} (h : Inv s) (hr : s.call r = .woken result) :
    Inv (if s.valid then setCall s r (.checked result)
      else setCall (usbKillUrb s r) r (.returned (- ENXIO))) := by
  have hvalid : s.valid = true := (h.usable r (by simp [hr, Call.inProgress])).1
  have hok := h.callOk r
  rw [hr] at hok
  rw [if_pos hvalid]
  exact h.ofFrame (frame_setCall _) (h.lt_calls (by simp [hr])) (by simp [hr, Call.inProgress])
    (by simp [Call.hasAdded]) (by simpa [CallOk] using hok)

theorem Inv.finish {result : Int} (h : Inv s) (hr : s.call r = .popped result) :
    Inv (finish s r result) := by
  have hlt : r < s.calls := h.lt_calls (by simp [hr])
  have hok := h.callOk r
  rw [hr] at hok
  obtain ⟨hres, hfreed⟩ := hok
  unfold WriteSync.finish
  split
  next hz =>
    obtain ⟨status, hdone⟩ : ∃ status, s.urb r = .done status := by
      rcases hres with ⟨-, hdone⟩ | ⟨hne, -⟩
      · exact hdone
      · exact absurd hz hne
    have hend : CallOk (.returned (transferResult s r)) (s.writeBufferSize r) (s.urb r)
        (s.freed r + 1) := by
      refine Or.inr ⟨by simp [hdone], by simp [hfreed], fun hstatus => ?_⟩
      have hzero : status = 0 := by simpa [hdone] using hstatus
      simp [transferResult, hdone, hzero]
    exact h.ofFrame (frame_setCall _).usbFreeUrb hlt (by simp [hr, Call.inProgress])
      (by simp [Call.hasAdded]) (by simpa using hend)
  next hne =>
    obtain ⟨-, hdone, hnone⟩ := usbKillUrb_urb (s := s) (r := r)
    have hurb : s.urb r ≠ .none ∧ s.urb r ≠ .done 0 := by
      rcases hres with ⟨hz, -⟩ | ⟨-, hactive | ⟨status, hst, hdone⟩⟩
      · exact absurd hz hne
      · simp [hactive]
      · simp [hdone, hst]
    have hend : CallOk (.returned result) ((usbKillUrb s r).writeBufferSize r)
        ((usbKillUrb s r).urb r) ((usbKillUrb s r).freed r + 1) :=
      Or.inr ⟨hnone hurb.1, by simp [usbKillUrb_freed, hfreed], fun hz => absurd (hdone hz) hurb.2⟩
    exact h.ofFrame (frame_usbKillUrb.setCall _).usbFreeUrb hlt (by simp [hr, Call.inProgress])
      (by simp [Call.hasAdded]) (by simpa using hend)

theorem Inv.notMem_order (h : Inv s) (hr : (s.call r).hasAdded = false) : r ∉ s.order :=
    fun hmem => by
  rw [h.added r hmem] at hr
  cases hr

theorem Inv.newCall (h : Inv s) (size : Nat) : Inv { s with
    calls := s.calls + 1
    writeBufferSize := Function.update s.writeBufferSize s.calls size } where
  list := h.list
  nodup := h.nodup
  added := h.added
  progress := h.progress
  usable := h.usable
  release := h.release
  fresh := fun q hq => h.fresh q (by simp only at hq; omega)
  callOk := fun q => by
    have hok := h.callOk q
    by_cases hq : q = s.calls
    · rw [h.fresh q (by omega)] at hok ⊢
      exact hok
    · simpa [Function.update_of_ne hq] using hok
  own := h.own
  back := h.back

theorem Inv.writeSync (h : Inv s) (size : Nat) (prepare : Prepare) :
    Inv (writeSync s size prepare) := by
  have hidle : s.call s.calls = .idle := h.fresh _ (Nat.le_refl _)
  have hok := h.callOk s.calls
  rw [hidle] at hok
  obtain ⟨hurb, hfreed⟩ := hok
  have hnew := h.newCall size
  have hlt : s.calls < s.calls + 1 := Nat.lt_succ_self _
  unfold WriteSync.writeSync
  by_cases hvalid : s.valid = true
  · rw [if_pos hvalid]
    cases prepare with
    | noUrb =>
      exact hnew.ofFrame (frame_setCall _) hlt (by simp [hidle, Call.inProgress])
        (by simp [Call.hasAdded]) (by simp [CallOk, hurb, hfreed])
    | fails result =>
      refine hnew.ofFrame (Frame.usbFreeUrb ?_) hlt (by simp [hidle, Call.inProgress])
        (by simp [Call.hasAdded]) (by simp [CallOk, hfreed])
      constructor <;> intros <;> simp_all [setCall, Function.update_of_ne]
    | ready =>
      refine hnew.ofFrame ?_ hlt (by simp [hidle, Call.inProgress])
        (by simp [hidle, Call.hasAdded]) (by simp [CallOk, hfreed])
      constructor <;> intros <;> simp_all [setCall, Function.update_of_ne]
  · rw [if_neg hvalid]
    exact hnew.ofFrame (frame_setCall _) hlt (by simp [hidle, Call.inProgress])
      (by simp [Call.hasAdded]) (by simp [CallOk, hurb, hfreed])

theorem Inv.addToURBList {alloc : Bool} (h : Inv s) (hr : s.call r = .allocated) :
    Inv (addToURBList s r alloc) := by
  have hlt : r < s.calls := h.lt_calls (by simp [hr])
  have hok := h.callOk r
  rw [hr] at hok
  have hnot : r ∉ s.order := h.notMem_order (by simp [hr, Call.hasAdded])
  unfold WriteSync.addToURBList
  split
  next hlisted =>
    have hcall : ∀ q, q ≠ r → Function.update s.call r .added q = s.call q := fun q hq =>
      Function.update_of_ne hq ..
    constructor
    case list =>
      simp only [List.filter_append]
      rw [filter_congr_of_notMem hnot fun q hq => by rw [hcall q hq], ← h.list]
      simp [Call.inProgress]
    case nodup => exact nodup_append_one h.nodup hnot
    case added =>
      intro q hq
      by_cases hqr : q = r
      · simp [hqr, Call.hasAdded]
      · simp only [hcall q hqr]
        exact h.added q (by simpa [hqr] using hq)
    case progress =>
      intro q hq
      by_cases hqr : q = r
      · simp [hqr]
      · simp only [hcall q hqr] at hq
        simp [h.progress q hq]
    case usable => exact fun _ _ => ⟨hlisted.1, hlisted.2.1⟩
    case release => exact h.release
    case fresh =>
      intro q hq
      simp only at hq
      have hqr : q ≠ r := by omega
      simp only [hcall q hqr]
      exact h.fresh q hq
    case callOk =>
      intro q
      by_cases hqr : q = r
      · subst hqr
        simpa [CallOk] using hok
      · simp only [hcall q hqr]
        exact h.callOk q
    case own => exact h.own
    case back =>
      intro q hq hno
      by_cases hqr : q = r
      · simp [hqr, Call.inProgress] at hno
      · simp only [hcall q hqr] at hno
        exact h.back q (by simpa [hqr] using hq) hno
  next =>
    obtain ⟨hurb, hfreed⟩ := hok
    exact h.ofFrame (frame_setCall _).usbFreeUrb hlt (by simp [hr, Call.inProgress])
      (by simp [Call.hasAdded]) (by simp [CallOk, hurb, hfreed])

theorem Inv.popFromURBList (h : Inv s)
    (hfirst : s.order.find? (fun q => (s.call q).inProgress) = some r) :
    (s.call r).inProgress = true ∧ r ∈ s.order ∧ popFromURBList s = (some r, s.mpURBList.tail) := by
  have hprogress : (s.call r).inProgress = true := by simpa using List.find?_some hfirst
  have hmem := List.mem_of_find?_eq_some hfirst
  have hhead : s.mpURBList.head? = some r := by rw [h.list, List.head?_filter, hfirst]
  refine ⟨hprogress, hmem, ?_⟩
  unfold WriteSync.popFromURBList
  rw [if_pos (h.usable r hprogress), hhead]

theorem Inv.getBack (h : Inv s) {c : Call} {n : Nat}
    (hfirst : s.order.find? (fun q => (s.call q).inProgress) = some r)
    (hc : c.inProgress = false) (hadded : c.hasAdded = true)
    (hok : CallOk c (s.writeBufferSize r) (s.urb r) n) :
    Inv { setCall (getBack s r) r c with freed := Function.update s.freed r n } := by
  obtain ⟨hprogress, hmem, hpop⟩ := h.popFromURBList hfirst
  have hlt : r < s.calls := h.lt_calls fun hidle => by simp [hidle, Call.inProgress] at hprogress
  have hcall : ∀ q, q ≠ r → Function.update s.call r c q = s.call q := fun q hq =>
    Function.update_of_ne hq ..
  have hall : ∀ q, (Function.update s.call r c q).inProgress = true → q ≠ r ∧
      (s.call q).inProgress = true := fun q hq => by
    by_cases hqr : q = r
    · simp [hqr, hc] at hq
    · rw [hcall q hqr] at hq
      exact ⟨hqr, hq⟩
  constructor
  case list =>
    simp only [setCall, WriteSync.getBack, hpop]
    rw [h.list]
    exact tail_filter h.nodup hfirst (fun q hq => by rw [hcall q hq]) (by simp [hc])
  case nodup => exact h.nodup
  case added =>
    intro q hq
    by_cases hqr : q = r
    · simp [setCall, hqr, hadded]
    · simp only [setCall, WriteSync.getBack, hcall q hqr]
      exact h.added q hq
  case progress => exact fun q hq => h.progress q (hall q hq).2
  case usable => exact fun q hq => h.usable q (hall q hq).2
  case release => exact h.release
  case fresh =>
    intro q hq
    have hqr : q ≠ r := by
      rintro rfl
      exact absurd hlt (by simpa [setCall, WriteSync.getBack] using hq)
    simp only [setCall, WriteSync.getBack, hcall q hqr]
    exact h.fresh q hq
  case callOk =>
    intro q
    by_cases hqr : q = r
    · subst hqr
      simpa [setCall, WriteSync.getBack] using hok
    · simp only [setCall, WriteSync.getBack, hcall q hqr, Function.update_of_ne hqr]
      exact h.callOk q
  case own =>
    intro q x hx
    by_cases hqr : q = r
    · subst hqr
      simpa [setCall, WriteSync.getBack, hpop] using hx.symm
    · simp only [setCall, WriteSync.getBack, Function.update_of_ne hqr] at hx
      exact h.own q x hx
  case back =>
    intro q hq hno
    by_cases hqr : q = r
    · subst hqr
      simp [setCall, WriteSync.getBack, hpop]
    · simp only [setCall, WriteSync.getBack, hcall q hqr, Function.update_of_ne hqr] at hno ⊢
      exact h.back q hq hno

theorem Inv.submitError {result : Int} (h : Inv s) (hr : s.call r = .submitFailed result)
    (hfirst : s.order.find? (fun q => (s.call q).inProgress) = some r) :
    Inv (submitError s r result) := by
  obtain ⟨-, -, hpop⟩ := h.popFromURBList hfirst
  have hok := h.callOk r
  rw [hr] at hok
  obtain ⟨hurb, hfreed⟩ := hok
  unfold WriteSync.submitError
  rw [hpop, if_pos rfl]
  refine h.getBack (n := s.freed r + 1) hfirst (by simp [Call.inProgress])
    (by simp [Call.hasAdded]) ?_
  simp [CallOk, hurb, hfreed]

theorem Inv.pop {result : Int} (h : Inv s) (hr : s.call r = .checked result)
    (hfirst : s.order.find? (fun q => (s.call q).inProgress) = some r) : Inv (pop s r result) := by
  obtain ⟨-, -, hpop⟩ := h.popFromURBList hfirst
  have hok := h.callOk r
  rw [hr] at hok
  unfold WriteSync.pop
  rw [hpop, if_pos rfl]
  have hback := h.getBack (c := .popped result) (n := s.freed r) hfirst (by simp [Call.inProgress])
    (by simp [Call.hasAdded]) (by simpa [CallOk] using hok)
  rwa [Function.update_eq_self] at hback

theorem Inv.mpURBList_eq_nil (h : Inv s) (hno : ∀ r < s.calls, (s.call r).inProgress = false) :
    s.mpURBList = [] ∧ ∀ r, (s.call r).inProgress = false := by
  have hall : ∀ r, (s.call r).inProgress = false := fun r => by
    by_cases hr : r < s.calls
    · exact hno r hr
    · rw [h.fresh r (by omega)]
      rfl
  refine ⟨?_, hall⟩
  rw [h.list, List.filter_eq_nil_iff]
  exact fun q _ => by simp [hall q]

theorem Inv.gone (h : Inv s) (hno : ∀ r < s.calls, (s.call r).inProgress = false)
    (valid listed : Bool)
    {release : Release} (hrel : ∀ u, release ≠ .killing u) :
    Inv { s with valid := valid, listed := listed, release := release } where
  list := h.list
  nodup := h.nodup
  added := h.added
  progress := h.progress
  usable := fun r hr => by
    rw [show (s.call r).inProgress = false from (h.mpURBList_eq_nil hno).2 r] at hr
    cases hr
  release := hrel
  fresh := h.fresh
  callOk := h.callOk
  own := h.own
  back := h.back

theorem Inv.releaseClient (h : Inv s) (hno : ∀ r < s.calls, (s.call r).inProgress = false) :
    Inv (if s.valid then releaseURBs s else { s with release := .done }) := by
  have hnil := (h.mpURBList_eq_nil hno).1
  split
  · have hpop : (WriteSync.popFromURBList s).1 = none := by
      unfold WriteSync.popFromURBList
      split <;> simp [hnil]
    unfold releaseURBs
    rw [hpop]
    exact h.gone hno s.valid false (by simp)
  · exact h.gone hno s.valid s.listed (by simp)

theorem inv_step {l : Label} (h : Inv s) (hok : InOrder s l) (hstep : step s l = some t) :
    Inv t := by
  cases l with
  | call size prepare =>
    obtain rfl : writeSync s size prepare = t := by simpa [step] using hstep
    exact h.writeSync size prepare
  | add r alloc =>
    simp only [step] at hstep
    split at hstep
    next hr =>
      obtain rfl := some.inj hstep
      exact h.addToURBList hr
    next => cases hstep
  | submit r result =>
    simp only [step] at hstep
    split at hstep
    next hr =>
      obtain rfl := some.inj hstep
      exact h.submit hr result
    next => cases hstep
  | submitError r =>
    simp only [step] at hstep
    split at hstep
    next result hr =>
      obtain rfl := some.inj hstep
      exact h.submitError hr hok
    next => cases hstep
  | complete u status =>
    simp only [step] at hstep
    split at hstep
    next hu =>
      obtain rfl := some.inj hstep
      exact h.complete hu hok
    next => cases hstep
  | down r =>
    simp only [step] at hstep
    split at hstep
    next n hr =>
      split at hstep
      next hn =>
        obtain rfl := some.inj hstep
        exact h.down hr hn
      next => cases hstep
    next => cases hstep
  | timeout r =>
    simp only [step] at hstep
    split at hstep
    next n hr =>
      split at hstep
      next hn =>
        subst hn
        obtain rfl := some.inj hstep
        exact h.timeout hr
      next => cases hstep
    next => cases hstep
  | check r =>
    simp only [step] at hstep
    split at hstep
    next result hr =>
      obtain rfl := some.inj hstep
      exact h.check hr
    next => cases hstep
  | pop r =>
    simp only [step] at hstep
    split at hstep
    next result hr =>
      obtain rfl := some.inj hstep
      exact h.pop hr hok
    next => cases hstep
  | finish r =>
    simp only [step] at hstep
    split at hstep
    next result hr =>
      obtain rfl := some.inj hstep
      exact h.finish hr
    next hr =>
      have hno := h.callOk r
      rw [hr] at hno
      exact hno.elim
    next => cases hstep
  | invalidate =>
    obtain rfl : { s with valid := false } = t := by simpa [step] using hstep
    exact h.gone hok false s.listed h.release
  | release =>
    simp only [step] at hstep
    split at hstep
    next =>
      obtain rfl := some.inj hstep
      exact h.releaseClient hok
    next => cases hstep
  | releaseKill =>
    simp only [step] at hstep
    split at hstep
    next u hu => exact absurd hu (h.release u)
    next => cases hstep

/-- In every run whose steps meet `InOrder`, each call gets its own URB back, returns its size
when the transfer was complete, and each URB is freed once. -/
theorem own_back (h : Reaches step InOrder init s) : Own s :=
  (h.invariant inv_init fun _ _ _ hs hok hstep => inv_step hs hok hstep).toOwn

instance (s : State) : (l : Label) → Decidable (InOrder s l)
  | .submitError r | .pop r =>
    inferInstanceAs (Decidable (s.order.find? (fun q => (s.call q).inProgress) = some r))
  | .invalidate | .release =>
    inferInstanceAs (Decidable (∀ r < s.calls, (s.call r).inProgress = false))
  | .complete u status => inferInstanceAs (Decidable (status = 0 → (s.call u).waits = true))
  | .call _ _ | .add _ _ | .submit _ _ | .down _ | .timeout _ | .check _ | .finish _
  | .releaseKill => inferInstanceAs (Decidable True)

/-- Three calls overlap: the first two complete in order, the submission of the third fails. -/
def threeWrites : List Label :=
  [.call 20 .ready, .call 30 .ready, .call 40 .ready, .add 0 true, .add 1 true, .submit 1 0,
    .submit 0 0, .add 2 true, .submit 2 (-EINVAL), .complete 1 0, .complete 0 0, .down 1, .down 0,
    .check 1, .check 0, .pop 0, .pop 1, .submitError 2, .finish 1, .finish 0, .release]

theorem own_back_threeWrites :
    ∃ s, Reaches step InOrder init s ∧ Own s ∧ s.call 0 = .returned 20 ∧ s.call 1 = .returned 30 ∧
      s.listed = false := by
  have hrun : (run (guarded step InOrder) init threeWrites).any (fun s =>
      decide (s.call 0 = .returned 20 ∧ s.call 1 = .returned 30 ∧ s.listed = false)) = true := by
    decide
  obtain ⟨s, hs, hlast⟩ := exists_of_run threeWrites hrun
  exact ⟨s, hs, own_back hs, hlast⟩

def overtaken : List Label :=
  [.call 20 .ready, .add 0 true, .submit 0 0, .call 30 .ready, .add 1 true, .submit 1 0,
    .complete 1 0, .down 1, .check 1, .pop 1, .finish 1, .complete 0 0, .down 0, .check 0, .pop 0,
    .finish 0, .release]

/-- Each call gets the URB of the other, fails behind a transfer with status 0, and no URB is
freed. -/
theorem not_own_overtaken :
    (¬∀ s ∈ statesOf step init overtaken, ∀ r x, s.gotBack r = some x → x = some r) ∧
      (¬∀ s ∈ statesOf step init overtaken, ∀ r result, s.call r = .returned result →
        s.urb r = .done 0 → result = s.writeBufferSize r) ∧
      ¬∀ s ∈ statesOf step init overtaken, s.release = .done → ∀ r, s.urb r ≠ .none →
        s.freed r = 1 := by
  have hback : (statesOf step init overtaken).any (fun s =>
      decide (s.gotBack 1 = some (some 0))) = true := by decide
  have hsize : (statesOf step init overtaken).any (fun s =>
      decide (s.call 1 = .returned (-EINVAL) ∧ s.urb 1 = .done 0)) = true := by decide
  have hfreed : (statesOf step init overtaken).any (fun s =>
      decide (s.release = .done ∧ s.urb 0 ≠ .none ∧ s.freed 0 = 0)) = true := by decide
  refine ⟨fun h => ?_, fun h => ?_, fun h => ?_⟩
  · obtain ⟨s, hs, hlast⟩ := List.any_eq_true.mp hback
    have hother := h s hs 1 _ (of_decide_eq_true hlast)
    simp at hother
  · obtain ⟨s, hs, hlast⟩ := List.any_eq_true.mp hsize
    obtain ⟨hcall, hurb⟩ := of_decide_eq_true hlast
    have hresult := h s hs 1 _ hcall hurb
    simp only [EINVAL] at hresult
    omega
  · obtain ⟨s, hs, hlast⟩ := List.any_eq_true.mp hfreed
    obtain ⟨hdone, hurb, hnone⟩ := of_decide_eq_true hlast
    have hone := h s hs hdone 0 hurb
    omega

end ModemSupport.Gobi.WriteSync
