import Mathlib.Data.Multiset.Range
import ModemSupport.Gobi.ReadSyncEntries
import ModemSupport.Lib.Supply

/-! A registered reader of the client and the messages that it waits for: when every message that it
would take has a reader on the way that will look at `mpList` again. -/

namespace ModemSupport.Gobi.ReadSync

open Lib.Transition Lib.Supply Lib.Lists List

/-- The transaction id of a call whose notification is in flight: its entry has been taken off
`mpReadNotifyList` and it has not come back to `mpList`. -/
def flying (s : State) (r : Nat) : Option UInt16 :=
  match s.call r with
  | .waiting t readSem => if 0 < readSem ∨ s.readCallback = .notified r then some t else none
  | .woken t => some t
  | _ => none

/-- The ids of the calls whose notification is in flight. -/
def notified (s : State) : Multiset UInt16 := (Multiset.range s.calls).filterMap (flying s)

/-- Some registered reader would take a message with this id. -/
def Awaited (s : State) (t : UInt16) : Prop :=
  ∃ e ∈ s.mpReadNotifyList, e.mTransactionID = 0 ∨ e.mTransactionID = t

instance (s : State) : DecidablePred (Awaited s) := fun t =>
  inferInstanceAs
    (Decidable (∃ e ∈ s.mpReadNotifyList, e.mTransactionID = 0 ∨ e.mTransactionID = t))

def ids (s : State) : Multiset UInt16 := (s.mpList.map ReadMem.mTransactionID : List UInt16)

/-- The ids of the messages that a registered reader would take. -/
def awaited (s : State) : Multiset UInt16 := (ids s).filter (Awaited s)

/-- Without a notification in flight, every registered reader finds nothing that
`PopFromReadMemList` would give it. -/
def Awake (s : State) : Prop :=
  notified s = 0 → ∀ e ∈ s.mpReadNotifyList, popFromReadMemList s e.mTransactionID = none

def Call.waits : Call → Bool
  | .waiting _ _ => true
  | _ => false

def Call.wokenForAny : Call → Bool
  | .woken t => t == 0
  | _ => false

/-- The reader that a message notifies still waits and would take the message, or no reader that
stays registered would. -/
def DeliverOk (s : State) (m : ReadMem) : Prop :=
  ∀ e ∈ s.mpReadNotifyList.find? (wakes m.mTransactionID),
    ((s.call e.mpData).waits ∧ takes e.mTransactionID m) ∨
      ∀ e' ∈ s.mpReadNotifyList.eraseP (wakes m.mTransactionID), takes e'.mTransactionID m = false

/-- The first message, which a reader of any id takes, is one more than the notified readers of its
id take, or the notified readers of any id are more than the messages that are left to them. -/
def RetryOk (s : State) (r : Nat) : Prop :=
  (s.call r).wokenForAny → ∀ m ∈ s.mpList.head?,
    (single 0 (notified s)).count m.mTransactionID < (awaited s).count m.mTransactionID ∨
      unmet 0 (awaited s) (notified s) < (notified s).count 0

def ReadOk (s : State) : ReadLabel → Prop
  | .timeout r => s.readCallback ≠ .notified r
  | .retry r _ => RetryOk s r
  | .deliver m alloc => alloc = true → DeliverOk s m
  | _ => True

instance (s : State) (m : ReadMem) : Decidable (DeliverOk s m) :=
  inferInstanceAs (Decidable (∀ e ∈ s.mpReadNotifyList.find? (wakes m.mTransactionID), _ ∨ _))

instance (s : State) (r : Nat) : Decidable (RetryOk s r) :=
  inferInstanceAs (Decidable ((s.call r).wokenForAny → ∀ m ∈ s.mpList.head?, _ ∨ _))

instance (s : State) : (l : ReadLabel) → Decidable (ReadOk s l)
  | .timeout r => inferInstanceAs (Decidable (s.readCallback ≠ .notified r))
  | .retry r _ => inferInstanceAs (Decidable (RetryOk s r))
  | .deliver m alloc => inferInstanceAs (Decidable (alloc = true → DeliverOk s m))
  | .call _ _ | .down _ | .giveUp _ | .upSem | .callbackEnd => inferInstanceAs (Decidable True)

variable {s t : State} {r : Nat} {c : Call} {tid : UInt16} {alloc : Bool}

/-- A client that is not released. -/
structure Reading (s : State) : Prop extends Registered s where
  listed : s.listed = true

theorem Registered.ne_notified (h : Registered s) (hr : ¬(s.call r).unupped) :
    s.readCallback ≠ .notified r := fun hn => hr (h.unupped r (Or.inl hn))

/-- The ids of the calls in flight but `r`. -/
def others (s : State) (r : Nat) : Multiset UInt16 :=
  ((Multiset.range s.calls).erase r).filterMap (flying s)

theorem notified_of_some (hr : r < s.calls) (h : flying s r = some tid) :
    notified s = tid ::ₘ others s r := by
  unfold notified others
  conv_lhs => rw [← Multiset.cons_erase (Multiset.mem_range.mpr hr)]
  exact Multiset.filterMap_cons_some _ _ _ h

theorem notified_of_none (h : flying s r = none) : notified s = others s r := by
  unfold notified others
  by_cases hr : r ∈ Multiset.range s.calls
  · conv_lhs => rw [← Multiset.cons_erase hr]
    exact Multiset.filterMap_cons_none _ _ h
  · rw [Multiset.erase_of_notMem hr]

theorem others_congr (hcalls : t.calls = s.calls)
    (h : ∀ q, q ≠ r → flying t q = flying s q) : others t r = others s r := by
  have hmem : ∀ q ∈ (Multiset.range s.calls).erase r, flying t q = flying s q := fun q hq =>
    h q ((Multiset.Nodup.mem_erase_iff (Multiset.nodup_range _)).mp hq).1
  unfold others
  rw [hcalls]
  revert hmem
  induction (Multiset.range s.calls).erase r using Quotient.inductionOn with
  | h l => exact fun hmem => congrArg _ (filterMap_congr hmem)

theorem flying_congr {q : Nat} (hcall : t.call q = s.call q)
    (hcb : t.readCallback = .notified q ↔ s.readCallback = .notified q) :
    flying t q = flying s q := by
  unfold flying
  rw [hcall]
  cases s.call q <;> simp [hcb]

theorem flying_setCall {q : Nat} (hq : q ≠ r) : flying (setCall s r c) q = flying s q :=
  flying_congr (Function.update_of_ne hq ..) Iff.rfl

theorem notified_congr (hcalls : t.calls = s.calls) (h : ∀ q, flying t q = flying s q) :
    notified t = notified s := by
  unfold notified
  rw [hcalls, funext h]

theorem awaited_le (hids : ids t ≤ ids s)
    (h : ∀ m ∈ t.mpList, Awaited t m.mTransactionID → Awaited s m.mTransactionID) :
    awaited t ≤ awaited s := by
  unfold awaited
  have hright : (ids t).filter (Awaited t) ≤ (ids t).filter (Awaited s) := by
    have heq : (ids t).filter (Awaited t) =
        (ids t).filter fun tid => Awaited t tid ∧ Awaited s tid := by
      refine Multiset.filter_congr fun tid htid => ?_
      obtain ⟨m, hm, rfl⟩ := List.mem_map.mp (Multiset.mem_coe.mp htid)
      exact ⟨fun hx => ⟨hx, h m hm hx⟩, fun hx => hx.1⟩
    rw [heq]
    exact Multiset.monotone_filter_right _ fun _ hx => hx.2
  exact hright.trans (Multiset.filter_le_filter _ hids)

theorem ids_of_find {m : ReadMem} (hm : s.mpList.find? (takes tid) = some m) :
    ids s = m.mTransactionID ::ₘ
      (((s.mpList.eraseP (takes tid)).map ReadMem.mTransactionID : List UInt16) :
        Multiset UInt16) := by
  obtain ⟨-, l₁, l₂, hl, herase⟩ := find_split hm
  unfold ids
  rw [herase, hl]
  simp

theorem takes_iff {m : ReadMem} : takes tid m = true ↔ tid = 0 ∨ tid = m.mTransactionID := by
  simp [takes]

theorem readLoop_cases (h : Reading s) (tid : UInt16) (alloc : Bool) :
    (∃ m, s.mpList.find? (takes tid) = some m ∧
      readLoop s r tid alloc = setCall { s with mpList := s.mpList.eraseP (takes tid) } r
        (.returned (.ok m.mpData))) ∨
    (s.mpList.find? (takes tid) = none ∧
      readLoop s r tid alloc = setCall { s with
        mpReadNotifyList := s.mpReadNotifyList ++ [⟨tid, r⟩] } r (.waiting tid 0)) ∨
    (s.mpList.find? (takes tid) = none ∧
      readLoop s r tid alloc = setCall s r (.returned (.error .efault))) := by
  unfold readLoop popFromReadMemList addToNotifyList
  rw [if_pos h.listed]
  cases hm : s.mpList.find? (takes tid) with
  | some m => exact Or.inl ⟨m, rfl, rfl⟩
  | none =>
    cases alloc with
    | true => exact Or.inr (Or.inl ⟨rfl, by simp [h.listed, setCall]⟩)
    | false => exact Or.inr (Or.inr ⟨rfl, by simp⟩)

/-- The notifications in flight are enough for the messages that registered readers would take. -/
def Met (s : State) : Prop := Enough 0 (awaited s) (notified s)

theorem awaited_pop {m : ReadMem} (hids : ids s = m.mTransactionID ::ₘ ids t)
    (h : t.mpReadNotifyList = s.mpReadNotifyList) :
    awaited t = (awaited s).erase m.mTransactionID := by
  have hiff : ∀ tid, Awaited t tid ↔ Awaited s tid := fun tid => by simp [Awaited, h]
  unfold awaited
  rw [hids, Multiset.filter_congr fun tid _ => hiff tid]
  by_cases ha : Awaited s m.mTransactionID
  · rw [Multiset.filter_cons_of_pos _ ha, Multiset.erase_cons_head]
  · rw [Multiset.filter_cons_of_neg _ ha, Multiset.erase_of_notMem]
    exact fun hmem => ha (Multiset.mem_filter.mp hmem).2

theorem not_takes (h : s.mpList.find? (takes tid) = none) {m : ReadMem} (hm : m ∈ s.mpList) :
    tid ≠ 0 ∧ tid ≠ m.mTransactionID := by
  have hno : ¬(tid = 0 ∨ tid = m.mTransactionID) := fun hx =>
    List.find?_eq_none.mp h m hm (takes_iff.mpr hx)
  exact not_or.mp hno

theorem notMem_awaited (h : s.mpList.find? (takes tid) = none) : tid ∉ awaited s := by
  intro hmem
  obtain ⟨m, hm, htid⟩ := List.mem_map.mp (Multiset.mem_coe.mp (Multiset.mem_filter.mp hmem).1)
  exact (not_takes h hm).2 htid.symm

theorem awaited_found {m : ReadMem} (hm : s.mpList.find? (takes tid) = some m) :
    awaited (setCall { s with mpList := s.mpList.eraseP (takes tid) } r c) =
      (awaited s).erase m.mTransactionID :=
  awaited_pop (ids_of_find hm) rfl

theorem awaited_register_le (h : s.mpList.find? (takes tid) = none)
    (hlist : t.mpList = s.mpList)
    (hnotify : t.mpReadNotifyList = s.mpReadNotifyList ++ [⟨tid, r⟩]) : awaited t ≤ awaited s := by
  refine awaited_le (by simp [ids, hlist]) ?_
  rintro m hm ⟨e, he, hem⟩
  rw [hnotify] at he
  rw [hlist] at hm
  rcases mem_append.mp he with he | he
  · exact ⟨e, he, hem⟩
  · obtain rfl := mem_singleton.mp he
    obtain ⟨hz, hne⟩ := not_takes h hm
    exact absurd hem (not_or.mpr ⟨hz, hne⟩)

theorem awaited_readLoop_le (h : Reading s) :
    awaited (readLoop s r tid alloc) ≤ awaited s := by
  rcases readLoop_cases h tid alloc with ⟨m, hm, heq⟩ | ⟨hm, heq⟩ | ⟨-, heq⟩
  · rw [heq, awaited_found hm]
    exact Multiset.erase_le ..
  · rw [heq]
    exact awaited_register_le hm rfl rfl
  · rw [heq]
    exact le_of_eq rfl

theorem calls_readLoop (h : Reading s) : (readLoop s r tid alloc).calls = s.calls := by
  rcases readLoop_cases h tid alloc with ⟨m, -, heq⟩ | ⟨-, heq⟩ | ⟨-, heq⟩ <;> rw [heq] <;> rfl

theorem flying_readLoop_of_ne (h : Reading s) {q : Nat} (hq : q ≠ r) :
    flying (readLoop s r tid alloc) q = flying s q := by
  rcases readLoop_cases h tid alloc with ⟨m, -, heq⟩ | ⟨-, heq⟩ | ⟨-, heq⟩ <;> rw [heq] <;>
    exact flying_setCall hq

theorem flying_readLoop_self (h : Reading s) (hcb : s.readCallback ≠ .notified r) :
    flying (readLoop s r tid alloc) r = none := by
  rcases readLoop_cases h tid alloc with ⟨m, -, heq⟩ | ⟨-, heq⟩ | ⟨-, heq⟩ <;> rw [heq] <;>
    simp [flying, setCall, hcb]

theorem Met.readLoop (h : Reading s) (hcb : s.readCallback ≠ .notified r)
    (hmet : Enough 0 (awaited (readLoop s r tid alloc)) (others s r)) :
    Met (readLoop s r tid alloc) := by
  unfold Met
  rw [notified_of_none (flying_readLoop_self h hcb),
    others_congr (calls_readLoop h) fun q hq => flying_readLoop_of_ne h hq]
  exact hmet

theorem Met.readSync (hmet : Met s) (h : Reading s) : Met (readSync s tid alloc) := by
  have hidle : s.call s.calls = .idle := h.fresh _ (Nat.le_refl _)
  have hcb : s.readCallback ≠ .notified s.calls := h.ne_notified (by simp [hidle, Call.unupped])
  have hnew : Reading { s with calls := s.calls + 1 } := ⟨h.newCall, h.listed⟩
  have hothers : others { s with calls := s.calls + 1 } s.calls = notified s := by
    unfold others notified
    rw [Multiset.range_succ, Multiset.erase_cons_head]
    rfl
  unfold ReadSync.readSync
  rw [if_pos h.listed]
  refine Met.readLoop hnew hcb ?_
  rw [hothers]
  exact hmet.mono (awaited_readLoop_le hnew)

theorem Met.retry_single (hmet : Met s) (h : Reading s) (hr : s.call r = .woken tid)
    (htid : tid ≠ 0) : Met (ReadSync.readLoop s r tid alloc) := by
  have hcb : s.readCallback ≠ .notified r := h.ne_notified (by simp [hr, Call.unupped])
  have hflying : flying s r = some tid := by simp [flying, hr]
  refine Met.readLoop h hcb ?_
  unfold Met at hmet
  rw [notified_of_some (h.lt_calls (by simp [hr])) hflying] at hmet
  rcases readLoop_cases h tid alloc with ⟨m, hm, heq⟩ | ⟨hm, -⟩ | ⟨hm, -⟩
  · have hid : tid = m.mTransactionID := (takes_iff.mp (List.find?_some hm)).resolve_left htid
    rw [heq, awaited_found hm, ← hid]
    exact hmet.take htid
  · exact (hmet.leave htid (notMem_awaited hm)).mono (awaited_readLoop_le h)
  · exact (hmet.leave htid (notMem_awaited hm)).mono (awaited_readLoop_le h)

theorem Met.retry_any (hmet : Met s) (h : Reading s) (hr : s.call r = .woken 0)
    (hok : RetryOk s r) : Met (ReadSync.readLoop s r 0 alloc) := by
  have hcb : s.readCallback ≠ .notified r := h.ne_notified (by simp [hr, Call.unupped])
  have hflying : flying s r = some 0 := by simp [flying, hr]
  have hsome := notified_of_some (h.lt_calls (by simp [hr])) hflying
  refine Met.readLoop h hcb ?_
  unfold Met at hmet
  rw [hsome] at hmet
  rcases readLoop_cases h 0 alloc with ⟨m, hm, heq⟩ | ⟨hm, -⟩ | ⟨hm, -⟩
  · have hhead : m ∈ s.mpList.head? := by
      cases hlist : s.mpList with
      | nil => simp [hlist] at hm
      | cons a l => simpa [hlist, takes] using hm
    have hspare := hok (by simp [hr, Call.wokenForAny]) m hhead
    rw [hsome, single_cons_self, Multiset.count_cons_self] at hspare
    rw [heq, awaited_found hm]
    refine hmet.takeAny (hspare.imp_right fun hlt => ?_)
    have hunmet : unmet 0 (awaited s) (0 ::ₘ others s r) = unmet 0 (awaited s) (others s r) := by
      unfold unmet
      rw [single_cons_self]
    omega
  all_goals
    have hempty : ids s = 0 := by
      cases hlist : s.mpList with
      | nil => simp [ids, hlist]
      | cons a l => exact absurd rfl (not_takes hm (m := a) (by simp [hlist])).1
    have hnone : awaited s = 0 := by simp [awaited, hempty]
    exact Enough.zero.mono (hnone ▸ awaited_readLoop_le h)

theorem Met.congr (hmet : Met s) (hids : t.mpList = s.mpList)
    (hnotify : t.mpReadNotifyList.Sublist s.mpReadNotifyList) (hcalls : t.calls = s.calls)
    (hflying : ∀ q, flying t q = flying s q) : Met t := by
  unfold Met
  rw [notified_congr hcalls hflying]
  refine hmet.mono (awaited_le (by simp [ids, hids]) ?_)
  rintro m - ⟨e, he, hem⟩
  exact ⟨e, hnotify.subset he, hem⟩

theorem flying_setCall_all (h : flying (setCall s r c) r = flying s r) (q : Nat) :
    flying (setCall s r c) q = flying s q := by
  by_cases hq : q = r
  · rw [hq, h]
  · exact flying_setCall hq

theorem Met.down {n : Nat} (hmet : Met s) (hr : s.call r = .waiting tid n) (hn : 0 < n) :
    Met (setCall s r (.woken tid)) :=
  hmet.congr rfl (Sublist.refl _) rfl
    (flying_setCall_all (by simp [flying, setCall, hr, hn]))

theorem Met.timeout (hmet : Met s) (hr : s.call r = .waiting tid 0)
    (hcb : s.readCallback ≠ .notified r) : Met (setCall s r (.timedOut tid)) :=
  hmet.congr rfl (Sublist.refl _) rfl
    (flying_setCall_all (by simp [flying, setCall, hr, hcb]))

theorem Met.giveUp (hmet : Met s) (hr : s.call r = .timedOut tid) : Met (giveUp s r) := by
  refine hmet.congr rfl eraseP_sublist rfl fun q => ?_
  have hset : flying (ReadSync.giveUp s r) q =
      flying (ReadSync.setCall s r (.returned (.error .eintr))) q := rfl
  rw [hset, flying_setCall_all (by simp [flying, setCall, hr])]

theorem Met.upSem (hmet : Met s) (h : Reading s) (hcb : s.readCallback = .notified r) :
    Met { upSem s r with readCallback := .upped } := by
  have hcall := h.unupped r (Or.inl hcb)
  have hothers : ∀ q, q ≠ r → (Callback.upped = .notified q ↔ s.readCallback = .notified q) :=
    fun q hq => by simp [hcb, Ne.symm hq]
  unfold ReadSync.upSem
  cases hr : s.call r with
  | waiting tid n =>
    refine hmet.congr rfl (Sublist.refl _) rfl fun q => ?_
    by_cases hq : q = r
    · subst hq
      simp [flying, setCall, hr, hcb]
    · exact flying_congr (Function.update_of_ne hq ..) (hothers q hq)
  | returned x =>
    refine hmet.congr rfl (Sublist.refl _) rfl fun q => ?_
    by_cases hq : q = r
    · subst hq
      simp [flying, hr]
    · exact flying_congr rfl (hothers q hq)
  | timedOut tid =>
    refine hmet.congr rfl (Sublist.refl _) rfl fun q => ?_
    by_cases hq : q = r
    · subst hq
      simp [flying, hr]
    · exact flying_congr rfl (hothers q hq)
  | idle => exact absurd hcall (by simp [hr, Call.unupped])
  | woken tid => exact absurd hcall (by simp [hr, Call.unupped])

section Arrival

variable {m : ReadMem}

theorem ids_append (hlist : t.mpList = s.mpList ++ [m]) :
    ids t = m.mTransactionID ::ₘ ids s := by
  unfold ids
  rw [hlist]
  simp [← Multiset.coe_add, add_comm]

theorem awaited_sublist_le (hnotify : t.mpReadNotifyList.Sublist s.mpReadNotifyList) :
    (ids s).filter (Awaited t) ≤ awaited s :=
  Multiset.monotone_filter_right _ fun _ ⟨e, he, hem⟩ => ⟨e, hnotify.subset he, hem⟩

theorem awaited_append_le (hlist : t.mpList = s.mpList ++ [m])
    (hnotify : t.mpReadNotifyList.Sublist s.mpReadNotifyList) :
    awaited t ≤ m.mTransactionID ::ₘ awaited s := by
  unfold awaited
  rw [ids_append hlist]
  by_cases ha : Awaited t m.mTransactionID
  · rw [Multiset.filter_cons_of_pos _ ha]
    exact Multiset.cons_le_cons _ (awaited_sublist_le hnotify)
  · rw [Multiset.filter_cons_of_neg _ ha]
    exact (awaited_sublist_le hnotify).trans (Multiset.le_cons_self ..)

theorem awaited_append_le_of_not (hlist : t.mpList = s.mpList ++ [m])
    (hnotify : t.mpReadNotifyList.Sublist s.mpReadNotifyList)
    (hno : ∀ e ∈ t.mpReadNotifyList, takes e.mTransactionID m = false) :
    awaited t ≤ awaited s := by
  have ha : ¬Awaited t m.mTransactionID := by
    rintro ⟨e, he, hem⟩
    have htrue : takes e.mTransactionID m = true := takes_iff.mpr hem
    rw [hno e he] at htrue
    cases htrue
  unfold awaited
  rw [ids_append hlist, Multiset.filter_cons_of_neg _ ha]
  exact awaited_sublist_le hnotify

theorem wakes_of_takes {e : Notify} (h : takes e.mTransactionID m = true) :
    wakes m.mTransactionID e = true := by
  rcases takes_iff.mp h with hz | heq
  · simp [wakes, hz]
  · simp [wakes, heq]

theorem Met.deliver (hmet : Met s) (h : Reading s) (hcb : s.readCallback = .idle)
    (hok : alloc = true → DeliverOk s m) : Met (deliver s m alloc) := by
  unfold ReadSync.deliver
  split
  case isFalse => exact hmet
  case isTrue halloc =>
    split
    case h_2 hnone =>
      have hsame : notified { s with mpList := s.mpList ++ [m] } = notified s :=
        notified_congr rfl fun q => flying_congr rfl Iff.rfl
      unfold Met
      rw [hsame]
      refine hmet.mono (awaited_append_le_of_not rfl (Sublist.refl _) fun e he => ?_)
      by_contra htakes
      exact List.find?_eq_none.mp hnone e he (wakes_of_takes (by simpa using htakes))
    case h_1 e he =>
      set t : State := { s with
        mpList := s.mpList ++ [m]
        mpReadNotifyList := s.mpReadNotifyList.eraseP (wakes m.mTransactionID)
        readCallback := .notified e.mpData } with ht
      have hmem : e ∈ s.mpReadNotifyList := List.mem_of_find?_eq_some he
      have hsub : t.mpReadNotifyList.Sublist s.mpReadNotifyList := eraseP_sublist
      have hothers : others t e.mpData = others s e.mpData :=
        others_congr rfl fun q hq => flying_congr rfl (by simp [ht, hcb, Ne.symm hq])
      have hbefore : notified s = others s e.mpData := by
        refine notified_of_none ?_
        rcases h.entry e hmem with hw | hw <;> simp [flying, hw, hcb]
      have hlt : e.mpData < t.calls := by
        refine h.lt_calls ?_
        rcases h.entry e hmem with hw | hw <;> simp [hw]
      unfold Met at hmet ⊢
      rw [hbefore, ← hothers] at hmet
      rcases h.entry e hmem with hw | hw
      · -- The reader waits, and its notification is in flight now.
        have hflying : flying t e.mpData = some e.mTransactionID := by
          simp [flying, ht, hw]
        rw [notified_of_some hlt hflying]
        rcases hok halloc.2 e he with ⟨-, htakes⟩ | hno
        · exact (hmet.serve (takes_iff.mp htakes)).mono (awaited_append_le rfl hsub)
        · exact (hmet.more _).mono (awaited_append_le_of_not rfl hsub hno)
      · -- The reader gives up, and the notification is lost.
        have hflying : flying t e.mpData = none := by simp [flying, ht, hw]
        rw [notified_of_none hflying]
        rcases hok halloc.2 e he with ⟨hwaits, -⟩ | hno
        · simp [hw, Call.waits] at hwaits
        · exact hmet.mono (awaited_append_le_of_not rfl hsub hno)

end Arrival

theorem met_step {l : ReadLabel} (hmet : Met s) (h : Reading s) (hok : ReadOk s l)
    (hstep : readStep s l = some t) : Met t := by
  cases l with
  | call tid alloc =>
    obtain rfl : readSync s tid alloc = t := by simpa [readStep] using hstep
    exact hmet.readSync h
  | down r =>
    obtain ⟨tid, n, hr, hn, rfl⟩ := of_down hstep
    exact hmet.down hr hn
  | timeout r =>
    obtain ⟨tid, hr, rfl⟩ := of_timeout hstep
    exact hmet.timeout hr hok
  | giveUp r =>
    obtain ⟨tid, hr, rfl⟩ := of_giveUp hstep
    exact hmet.giveUp hr
  | retry r alloc =>
    obtain ⟨tid, hr, rfl⟩ := of_retry hstep
    by_cases htid : tid = 0
    · subst htid
      exact hmet.retry_any h hr hok
    · exact hmet.retry_single h hr htid
  | deliver m alloc =>
    obtain ⟨hcb, rfl⟩ := of_deliver hstep
    exact hmet.deliver h hcb hok
  | upSem =>
    obtain ⟨r, hcb, rfl⟩ := of_upSem hstep
    exact hmet.upSem h hcb
  | callbackEnd =>
    obtain ⟨hcb, rfl⟩ := of_callbackEnd hstep
    exact hmet.congr rfl (Sublist.refl _) rfl fun q => flying_congr rfl (by simp [hcb])

theorem Met.awake (hmet : Met s) : Awake s := by
  intro hnone e he
  unfold Met at hmet
  rw [hnone] at hmet
  have hempty : awaited s = 0 := hmet.eq_zero
  unfold popFromReadMemList
  split
  · rw [List.find?_eq_none]
    intro m hm htakes
    have hmem : m.mTransactionID ∈ awaited s := by
      refine Multiset.mem_filter.mpr ⟨Multiset.mem_coe.mpr (List.mem_map_of_mem hm), e, he, ?_⟩
      exact takes_iff.mp htakes
    rw [hempty] at hmem
    exact absurd hmem (Multiset.notMem_zero _)
  · rfl

theorem reading_step {l : ReadLabel} (h : Reading s) (hstep : readStep s l = some t) :
    Reading t := by
  refine ⟨registered_readStep h.toRegistered hstep, ?_⟩
  rw [(frame_readStep hstep).listed]
  exact h.listed

/-- In every run whose steps meet `ReadOk`, no registered reader sleeps on a message that it would
take. -/
theorem never_asleep (h : Reaches readStep ReadOk init s) : Awake s := by
  have hinit : Met init := by simp [Met, awaited, ids, init]
  have hinv : Reading s ∧ Met s :=
    h.invariant (P := fun s => Reading s ∧ Met s) ⟨⟨registered_init, rfl⟩, hinit⟩
      fun s l t hs hok hstep => ⟨reading_step hs.1 hstep, met_step hs.2 hs.1 hok hstep⟩
  exact hinv.2.awake

def twoWoken : List ReadLabel :=
  [.call 7 true, .call 0 true, .call 0 true, .deliver ⟨7, [1]⟩ true, .upSem, .callbackEnd,
    .deliver ⟨9, [2]⟩ true, .upSem, .callbackEnd, .down 0, .retry 0 true, .down 1, .retry 1 true]

theorem never_asleep_twoWoken :
    ∃ s, Reaches readStep ReadOk init s ∧ Awake s ∧ notified s = 0 ∧
      s.mpReadNotifyList = [⟨0, 2⟩] := by
  have hrun : (run (guarded readStep ReadOk) init twoWoken).any (fun s =>
      decide (notified s = 0 ∧ s.mpReadNotifyList = [⟨0, 2⟩])) = true := by decide
  obtain ⟨s, hs, hlast⟩ := exists_of_run twoWoken hrun
  exact ⟨s, hs, never_asleep hs, hlast⟩

/-- An indication wakes the reader with an id that is first on the list, and the reader of any id
behind it sleeps on. -/
def indication : List ReadLabel :=
  [.call 5 true, .call 0 true, .deliver ⟨0, [1]⟩ true, .upSem, .callbackEnd, .down 0, .retry 0 true]

instance (s : State) : Decidable (Awake s) :=
  inferInstanceAs (Decidable (notified s = 0 → ∀ e ∈ s.mpReadNotifyList, _ = none))

theorem asleep_indication : ¬∀ s ∈ statesOf readStep init indication, Awake s := by
  intro h
  have hasleep : (statesOf readStep init indication).any (fun s => decide ¬Awake s) = true := by
    decide
  obtain ⟨s, hs, hns⟩ := List.any_eq_true.mp hasleep
  exact of_decide_eq_true hns (h s hs)

end ModemSupport.Gobi.ReadSync
