import ModemSupport.Cm.QmiThread
import ModemSupport.Lib.Lists

/-! A call returns only its own response, its request is freed once and so is a response that is
not handed over, as long as no call returns before the reader has taken its request. -/

namespace ModemSupport.Cm.QmiThread

open Lib.Transition Lib.Lists List Option

/-- The copy `k` is of a response to the request of the call `c` that came behind it. -/
def Own (s : State) (c k : Nat) : Prop :=
  ∃ request ∈ s.requests[c]?, ∃ copy ∈ s.copies[k]?,
    copy.msg.isRsp = true ∧ isResponse request copy.msg = true ∧ c ∈ copy.written

/-- How often the copy `k` has been handed over or freed. -/
def settled (s : State) (k : Nat) : Nat := (s.handed.map Prod.snd).count k + s.freedCopies.count k

/-- What the calls promise to the main thread. -/
structure Clean (s : State) : Prop where
  own : ∀ x ∈ s.handed, Own s x.1 x.2
  freed : ∀ c < s.requests.length, (∀ w ∈ s.waiting, w.1 ≠ c) → s.freed.count c = 1
  freedOnce : ∀ c, s.freed.count c ≤ 1
  unread : s.readFreed = false
  copies : ∀ k < s.copies.length,
    settled s k = 1 ∨ (settled s k = 0 ∧ s.waiting.isSome ∧ s.sPResponse = some k)

/-- The condition on a step: a request is sent, a call returns only when the reader has taken its
request, and not as timed out when there is a response, and the response it returns carries the
response flag and came behind the request. -/
def Taken (s : State) : Label → Prop
  | .call request _ io => ∀ m ∈ request, (qmiWwanSendQMI m io).2.1 = 0
  | .wake timeout => s.sPRequest = none ∧
    if timeout then s.sPResponse = none
    else ∀ w ∈ s.waiting, w.2 = true → ∀ k ∈ s.sPResponse, ∀ copy ∈ s.copies[k]?,
      copy.msg.isRsp = true ∧ w.1 ∈ copy.written
  | .recv _ => True

/-- The call in progress: its request is shared with the reader, or the reader has taken it. -/
structure Pending (s : State) (c : Nat) : Prop where
  last : c + 1 = s.requests.length
  shared : ∀ r, s.sPRequest = some r → r = c ∧ s.freed.count c = 0 ∧ s.sPResponse = none
  taken : s.sPRequest = none → s.freed.count c = 1
  response : ∀ k, s.sPResponse = some k → settled s k = 0 ∧ k + 1 = s.copies.length ∧
    ∃ request ∈ s.requests[c]?, ∃ copy ∈ s.copies[k]?, isResponse request copy.msg = true

structure Inv (s : State) : Prop extends Clean s where
  requests : ∀ r ∈ s.freed, r < s.requests.length
  bounds : ∀ k, s.copies.length ≤ k → settled s k = 0
  idle : s.waiting = none → s.sPRequest = none
  pending : ∀ w ∈ s.waiting, Pending s w.1

theorem inv_init : Inv init where
  own := by simp [init]
  freed := by simp [init]
  freedOnce := by simp [init]
  unread := rfl
  copies := by simp [init]
  requests := by simp [init]
  bounds := fun _ _ => rfl
  idle := fun _ => rfl
  pending := by simp [init]

variable {s t : State}

theorem Own.mono {c k : Nat} (h : Own s c k) (hrequests : s.requests <+: t.requests)
    (hcopies : s.copies <+: t.copies) : Own t c k := by
  obtain ⟨request, hrequest, copy, hcopy, hown⟩ := h
  exact ⟨request, getElem?_of_prefix hrequests hrequest, copy,
    getElem?_of_prefix hcopies hcopy, hown⟩

theorem Inv.called (h : Inv s) {request : QMIMsg} {io : Io} (hidle : s.waiting = none)
    (hsent : (qmiWwanSendQMI request io).2.1 = 0) (ppResponse : Bool) :
    Inv (sendQMI s request ppResponse io) := by
  have hwaiting :
      (sendQMI s request ppResponse io).waiting = some (s.requests.length, ppResponse) :=
    if_pos hsent
  have hlength : (sendQMI s request ppResponse io).requests.length = s.requests.length + 1 := by
    simp [sendQMI]
  have hfresh : s.freed.count s.requests.length = 0 :=
    count_eq_zero.mpr fun hmem => Nat.lt_irrefl _ (h.requests _ hmem)
  constructor
  case toClean =>
    constructor
    case own => exact fun x hx => (h.own x hx).mono (prefix_append _ _) (prefix_refl _)
    case freed =>
      intro c hc hother
      rw [hlength] at hc
      have hne := hother _ hwaiting
      refine h.freed c (by omega) fun w hw => ?_
      rw [hidle] at hw
      cases hw
    case freedOnce => exact h.freedOnce
    case unread => exact h.unread
    case copies =>
      intro k hk
      rcases h.copies k hk with hone | ⟨-, hsome, -⟩
      · exact .inl hone
      · simp [hidle] at hsome
  case requests =>
    rw [hlength]
    exact fun r hr => Nat.lt_succ_of_lt (h.requests r hr)
  case bounds => exact h.bounds
  case idle =>
    rw [hwaiting]
    exact fun hnone => nomatch hnone
  case pending =>
    rw [hwaiting]
    intro w hw
    obtain rfl := some.inj hw
    constructor
    case last => exact hlength.symm
    case shared =>
      intro r hr
      obtain rfl := some.inj hr
      exact ⟨rfl, hfresh, rfl⟩
    case taken => exact fun hnone => nomatch hnone
    case response => exact fun k hk => nomatch hk

theorem settled_wake (s : State) (c : Nat) (ppResponse : Bool) {k : Nat}
    (hk : s.sPResponse = some k)
    (j : Nat) : settled (wake s c ppResponse false) j = settled s j + if j = k then 1 else 0 := by
  unfold settled wake
  rw [hk]
  cases ppResponse
  · simp only [Bool.false_eq_true, if_false, count_append, count_singleton]
    by_cases hj : j = k
    · simp [hj, Nat.add_assoc]
    · simp [hj, Ne.symm hj]
  · simp only [Bool.false_eq_true, if_false, if_true, map_append, map_cons, map_nil,
      count_append, count_singleton]
    by_cases hj : j = k
    · simp [hj]
      omega
    · simp [hj, Ne.symm hj]

theorem Inv.freed_taken (h : Inv s) (htaken : s.sPRequest = none) {c : Nat}
    (hc : c < s.requests.length) : s.freed.count c = 1 := by
  by_cases hother : ∀ w ∈ s.waiting, w.1 ≠ c
  · exact h.freed c hc hother
  · push Not at hother
    obtain ⟨w, hw, rfl⟩ := hother
    exact (h.pending w hw).taken htaken

theorem Inv.returned (h : Inv s) (htaken : s.sPRequest = none) (hnone : s.sPResponse = none) :
    Inv { s with waiting := none } where
  own := h.own
  freed := fun _ hc _ => h.freed_taken htaken hc
  freedOnce := h.freedOnce
  unread := h.unread
  copies := fun k hk => by
    rcases h.copies k hk with hone | ⟨-, -, hresponse⟩
    · exact .inl hone
    · simp [hnone] at hresponse
  requests := h.requests
  bounds := h.bounds
  idle := fun _ => htaken
  pending := fun _ hw => nomatch hw

theorem Inv.answered (h : Inv s) {c : Nat} {ppResponse : Bool}
    (hw : s.waiting = some (c, ppResponse))
    (htaken : s.sPRequest = none) {k : Nat} (hk : s.sPResponse = some k)
    (hown : ppResponse = true → Own s c k) : Inv (wake s c ppResponse false) := by
  obtain ⟨hfresh, hlast, -⟩ := (h.pending _ hw).response k hk
  have hsettled := settled_wake s c ppResponse hk
  have hframe : (wake s c ppResponse false).requests = s.requests ∧
      (wake s c ppResponse false).copies = s.copies ∧ (wake s c ppResponse false).freed = s.freed ∧
      (wake s c ppResponse false).waiting = none ∧
      (wake s c ppResponse false).sPRequest = s.sPRequest ∧
      (wake s c ppResponse false).readFreed = s.readFreed ∧
      (wake s c ppResponse false).handed =
        if ppResponse then s.handed ++ [(c, k)] else s.handed := by
    unfold wake
    rw [hk]
    cases ppResponse <;> exact ⟨rfl, rfl, rfl, rfl, rfl, rfl, rfl⟩
  obtain ⟨hrequests, hcopies, hfreed, hwaiting, hrequest, hread, hhanded⟩ := hframe
  constructor
  case toClean =>
    constructor
    case own =>
      have hmono : ∀ i j, Own s i j → Own (wake s c ppResponse false) i j := fun i j hij =>
        hij.mono (hrequests ▸ prefix_refl _) (hcopies ▸ prefix_refl _)
      rw [hhanded]
      intro x hx
      split at hx
      next hpp =>
        rcases mem_append.mp hx with hx | hx
        · exact hmono _ _ (h.own x hx)
        · obtain rfl := mem_singleton.mp hx
          exact hmono _ _ (hown hpp)
      next => exact hmono _ _ (h.own x hx)
    case freed =>
      rw [hrequests, hfreed]
      exact fun i hi _ => h.freed_taken htaken hi
    case freedOnce =>
      rw [hfreed]
      exact h.freedOnce
    case unread =>
      rw [hread]
      exact h.unread
    case copies =>
      rw [hcopies]
      intro j hj
      rw [hsettled j]
      by_cases heq : j = k
      · subst heq
        exact .inl (by simp [hfresh])
      · rcases h.copies j hj with hone | ⟨-, -, hresponse⟩
        · exact .inl (by simp [heq, hone])
        · rw [hk] at hresponse
          exact absurd (some.inj hresponse).symm heq
  case requests =>
    rw [hfreed, hrequests]
    exact h.requests
  case bounds =>
    rw [hcopies]
    intro j hj
    have hne : j ≠ k := by omega
    rw [hsettled j, if_neg hne, h.bounds j hj]
  case idle =>
    rw [hrequest]
    exact fun _ => htaken
  case pending =>
    rw [hwaiting]
    exact fun _ hw' => nomatch hw'

theorem Inv.woken (h : Inv s) {c : Nat} {ppResponse timeout : Bool}
    (hw : s.waiting = some (c, ppResponse)) (hok : Taken s (.wake timeout)) :
    Inv (wake s c ppResponse timeout) := by
  obtain ⟨htaken, hresponse⟩ := hok
  cases timeout with
  | true => exact h.returned htaken hresponse
  | false =>
    cases hk : s.sPResponse with
    | none =>
      have hwake : wake s c ppResponse false = { s with waiting := none } := by simp [wake, hk]
      rw [hwake]
      exact h.returned htaken hk
    | some k =>
      refine h.answered hw htaken hk fun hpp => ?_
      obtain ⟨-, -, request, hrequest, copy, hcopy, hanswers⟩ := (h.pending _ hw).response k hk
      obtain ⟨hrsp, hwritten⟩ := hresponse _ hw hpp k hk copy hcopy
      exact ⟨request, hrequest, copy, hcopy, hrsp, hanswers, hwritten⟩

theorem Inv.shared (h : Inv s) {r : Nat} (hr : s.sPRequest = some r) :
    ∃ ppResponse, s.waiting = some (r, ppResponse) ∧ Pending s r := by
  cases hw : s.waiting with
  | none => simp [h.idle hw] at hr
  | some w =>
    obtain ⟨rfl, -⟩ := (h.pending w hw).shared r hr
    exact ⟨w.2, rfl, h.pending w hw⟩

theorem count_freed (h : Inv s) {r : Nat} (hr : s.sPRequest = some r) :
    (s.freed ++ [r]).count r = 1 ∧
      (∀ c, c ≠ r → (s.freed ++ [r]).count c = s.freed.count c) ∧
      (∀ c, (s.freed ++ [r]).count c ≤ 1) ∧ ∀ c ∈ s.freed ++ [r], c < s.requests.length := by
  obtain ⟨-, -, hpending⟩ := h.shared hr
  obtain ⟨-, hzero, -⟩ := hpending.shared r hr
  have hself : (s.freed ++ [r]).count r = 1 := by simp [count_append, hzero]
  have hother : ∀ c, c ≠ r → (s.freed ++ [r]).count c = s.freed.count c := fun c hc => by
    simp [count_append, Ne.symm hc]
  refine ⟨hself, hother, fun c => ?_, fun c hc => ?_⟩
  · by_cases heq : c = r
    · exact Nat.le_of_eq (heq ▸ hself)
    · rw [hother c heq]
      exact h.freedOnce c
  · rcases mem_append.mp hc with hc | hc
    · exact h.requests c hc
    · obtain rfl := mem_singleton.mp hc
      have := hpending.last
      omega

theorem Inv.recvNull (h : Inv s) : Inv (recvNull s) := by
  unfold QmiThread.recvNull
  split
  next r hr =>
    obtain ⟨ppResponse, hw, hpending⟩ := h.shared hr
    obtain ⟨-, -, hnone⟩ := hpending.shared r hr
    obtain ⟨hself, hother, honce, hbound⟩ := count_freed h hr
    constructor
    case toClean =>
      constructor
      case own => exact h.own
      case freed =>
        intro c hc hne
        have hcr : c ≠ r := fun heq => hne _ hw heq.symm
        exact (hother c hcr).trans (h.freed c hc hne)
      case freedOnce => exact honce
      case unread => exact h.unread
      case copies =>
        intro k hk
        rcases h.copies k hk with hone | ⟨-, -, hresponse⟩
        · exact .inl hone
        · simp [hnone] at hresponse
    case requests => exact hbound
    case bounds => exact h.bounds
    case idle => exact fun _ => rfl
    case pending =>
      intro w hw'
      obtain rfl := some.inj (hw.symm.trans hw')
      exact ⟨hpending.last, fun _ hr' => (nomatch hr'), fun _ => hself, fun _ hk => (nomatch hk)⟩
  next => exact h

theorem Inv.recvQMI (h : Inv s) (m : QMIMsg) : Inv (recvQMI s m) := by
  unfold QmiThread.recvQMI
  split
  next r hr =>
    obtain ⟨ppResponse, hw, hpending⟩ := h.shared hr
    obtain ⟨-, hzero, hnone⟩ := hpending.shared r hr
    have hread : (s.readFreed || decide (r ∈ s.freed)) = false := by
      simp [h.unread, count_eq_zero.mp hzero]
    split
    next hmatch =>
      obtain ⟨hself, hother, honce, hbound⟩ := count_freed h hr
      obtain ⟨request, hrequest, hanswers⟩ := (Option.any_eq_true ..).mp hmatch
      constructor
      case toClean =>
        constructor
        case own =>
          exact fun x hx => (h.own x hx).mono (prefix_refl _) (prefix_append _ _)
        case freed =>
          intro c hc hne
          have hcr : c ≠ r := fun heq => hne _ hw heq.symm
          exact (hother c hcr).trans (h.freed c hc hne)
        case freedOnce => exact honce
        case unread => exact hread
        case copies =>
          intro k hk
          have hlength : k < s.copies.length + 1 := by simpa using hk
          by_cases heq : k = s.copies.length
          · subst heq
            exact .inr ⟨h.bounds _ (Nat.le_refl _), by simp [hw], rfl⟩
          · rcases h.copies k (by omega) with hone | ⟨-, -, hresponse⟩
            · exact .inl hone
            · simp [hnone] at hresponse
      case requests => exact hbound
      case bounds =>
        intro k hk
        have hlength : s.copies.length + 1 ≤ k := by simpa using hk
        exact h.bounds k (by omega)
      case idle => exact fun _ => rfl
      case pending =>
        intro w hw'
        obtain rfl := some.inj (hw.symm.trans hw')
        refine ⟨hpending.last, fun _ hr' => (nomatch hr'), fun _ => hself, ?_⟩
        intro k hk
        obtain rfl := some.inj hk
        have hcopy : (s.copies ++ [⟨m, s.written⟩])[s.copies.length]? = some ⟨m, s.written⟩ := by
          simp
        exact ⟨h.bounds _ (Nat.le_refl _), by simp, request, hrequest, _, hcopy, hanswers⟩
    next =>
      refine ⟨⟨h.own, h.freed, h.freedOnce, hread, h.copies⟩, h.requests, h.bounds, h.idle, ?_⟩
      intro w hw'
      have hold := h.pending w hw'
      exact ⟨hold.last, hold.shared, hold.taken, hold.response⟩
  next =>
    refine ⟨⟨h.own, h.freed, h.freedOnce, h.unread, h.copies⟩, h.requests, h.bounds, h.idle, ?_⟩
    intro w hw'
    have hold := h.pending w hw'
    exact ⟨hold.last, hold.shared, hold.taken, hold.response⟩

theorem inv_step {l : Label} (h : Inv s) (hok : Taken s l) (hstep : step s l = some t) : Inv t := by
  cases l with
  | call request ppResponse io =>
    simp only [step] at hstep
    split at hstep
    next hidle =>
      cases request with
      | none =>
        obtain rfl := some.inj hstep
        exact h
      | some request =>
        obtain rfl := some.inj hstep
        exact h.called hidle (hok request rfl) ppResponse
    next => cases hstep
  | wake timeout =>
    obtain ⟨w, hw, rfl⟩ := map_eq_some_iff.mp hstep
    exact h.woken hw hok
  | recv response =>
    cases response with
    | none =>
      obtain rfl := some.inj hstep
      exact h.recvNull
    | some m =>
      obtain rfl := some.inj hstep
      exact h.recvQMI m

theorem taken_of_clean {l : Label} (h : Inv s) (hstep : step s l = some t) (ht : Clean t) :
    Taken s l := by
  cases l with
  | call request ppResponse io =>
    intro m hm
    obtain rfl : request = some m := hm
    simp only [step] at hstep
    split at hstep
    next hidle =>
      obtain rfl := some.inj hstep
      by_contra hfailed
      have hwaiting : (sendQMI s m ppResponse io).waiting = none := if_neg hfailed
      have hlost : s.freed.count s.requests.length = 0 :=
        count_eq_zero.mpr fun hmem => Nat.lt_irrefl _ (h.requests _ hmem)
      have hone : s.freed.count s.requests.length = 1 :=
        ht.freed s.requests.length (by simp [sendQMI]) fun w hw => by simp [hwaiting] at hw
      omega
    next => cases hstep
  | wake timeout =>
    obtain ⟨w, hw, rfl⟩ := map_eq_some_iff.mp hstep
    obtain ⟨c, ppResponse⟩ := w
    have hpending := h.pending _ hw
    have hlast := hpending.last
    have hframe : (wake s c ppResponse timeout).waiting = none ∧
        (wake s c ppResponse timeout).requests = s.requests ∧
        (wake s c ppResponse timeout).freed = s.freed ∧
        (wake s c ppResponse timeout).copies = s.copies := by
      unfold wake
      split
      · exact ⟨rfl, rfl, rfl, rfl⟩
      · split
        · split <;> exact ⟨rfl, rfl, rfl, rfl⟩
        · exact ⟨rfl, rfl, rfl, rfl⟩
    obtain ⟨hwaiting, hrequests, hfreed, hcopies⟩ := hframe
    refine ⟨?_, ?_⟩
    · by_contra hshared
      obtain ⟨r, hr⟩ := ne_none_iff_exists'.mp hshared
      obtain ⟨rfl, hlost, -⟩ := hpending.shared r hr
      have hone := ht.freed r (by rw [hrequests]; omega) fun w hw' => by simp [hwaiting] at hw'
      rw [hfreed] at hone
      exact absurd (hone.symm.trans hlost) (by decide)
    · cases timeout with
      | true =>
        show s.sPResponse = none
        by_contra hsome
        obtain ⟨k, hk⟩ := ne_none_iff_exists'.mp hsome
        obtain ⟨hlost, hlength, -⟩ := hpending.response k hk
        rcases ht.copies k (by rw [hcopies]; omega) with hone | ⟨-, hsome', -⟩
        · have hzero : settled (wake s c ppResponse true) k = 0 := hlost
          exact absurd (hone.symm.trans hzero) (by decide)
        · simp [hwaiting] at hsome'
      | false =>
        show ∀ w ∈ s.waiting, w.2 = true → ∀ k ∈ s.sPResponse, ∀ copy ∈ s.copies[k]?,
          copy.msg.isRsp = true ∧ w.1 ∈ copy.written
        intro w hw' hpp k hk copy hcopy
        obtain rfl := some.inj (hw.symm.trans hw')
        obtain rfl : ppResponse = true := hpp
        have hresponse : s.sPResponse = some k := hk
        have hhanded : (c, k) ∈ (wake s c true false).handed := by simp [wake, hresponse]
        obtain ⟨request, -, copy', hcopy', hrsp, -, hwritten⟩ := ht.own _ hhanded
        rw [hcopies] at hcopy'
        obtain rfl := some.inj (hcopy.symm.trans hcopy')
        exact ⟨hrsp, hwritten⟩
  | recv response => trivial

/-- The calls keep their promises in every state of a run if and only if no call of it returns
before the reader has taken its request, or with a response that it has not asked for. -/
theorem calls_clean (ls : List Label) :
    (∀ s ∈ statesOf step init ls, Clean s) ↔ ∀ x ∈ stepsOf step init ls, Taken x.1 x.2 :=
  forall_statesOf_iff_of (P := Inv) (fun _ h => h.toClean)
    (fun _ _ _ h hstep ht => taken_of_clean h hstep ht)
    (fun _ _ _ h hok hstep => inv_step h hok hstep)
    inv_init ls

def wdsRequest : QMIMsg := ⟨12, QMUX_TYPE_WDS, 5, 0, 7, 0x20⟩
def wdsResponse : QMIMsg := ⟨19, QMUX_TYPE_WDS, 5, QMUX_CTL_FLAG_TYPE_RSP, 7, 0x20⟩
def wdsIndication : QMIMsg := ⟨17, QMUX_TYPE_WDS, 5, 0x04, 7, QMIWDS_GET_PKT_SRVC_STATUS_IND⟩

def sends : Io := ⟨true, 1, true, 13⟩

def full : Io := ⟨true, 0, false, 0⟩

example : ∀ s ∈ statesOf step init
    [.call (some wdsRequest) true sends, .recv (some wdsResponse), .wake false,
    .recv (some wdsIndication), .call (some wdsRequest) false sends, .recv none, .wake false],
    s.waiting = none → s.freed.length = s.requests.length := by decide

/-- The indication is handed over as the response; a call that times out does not free its
request, and its response is lost to the next call; a response comes back though the request has
not been written. -/
theorem not_calls_clean :
    (¬∀ s ∈ statesOf step init [.call (some wdsRequest) true sends, .recv (some wdsIndication),
        .wake false],
        ∀ x ∈ s.handed, ∀ copy ∈ s.copies[x.2]?, copy.msg.isRsp = true) ∧
      (¬∀ s ∈ statesOf step init [.call (some wdsRequest) true sends, .wake true,
          .call (some wdsRequest) true sends], ∀ c < s.requests.length,
        (∀ w ∈ s.waiting, w.1 ≠ c) → s.freed.count c = 1) ∧
      (¬∀ s ∈ statesOf step init [.call (some wdsRequest) true sends, .wake true,
          .recv (some wdsResponse), .call (some wdsRequest) true sends], ∀ k < s.copies.length,
        settled s k = 1 ∨ (settled s k = 0 ∧ s.waiting.isSome ∧ s.sPResponse = some k)) ∧
      ¬∀ s ∈ statesOf step init [.call (some wdsRequest) true full, .recv (some wdsResponse),
        .wake false],
        ∀ x ∈ s.handed, ∀ copy ∈ s.copies[x.2]?, x.1 ∈ copy.written := by
  refine ⟨?_, ?_, ?_, ?_⟩ <;> decide

end ModemSupport.Cm.QmiThread
