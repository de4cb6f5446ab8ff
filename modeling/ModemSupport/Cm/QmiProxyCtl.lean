import ModemSupport.Cm.QmiProxy
import ModemSupport.Lib.Lists

/-! CTL requests through the proxy: each is written to the modem once, its response goes to the
connection that asked, and the queue does not stall. -/

namespace ModemSupport.Cm.QmiProxy

open Lib.Transition Lib.Lists List Option

def Open (s : State) (k : Nat) : Prop := k ∈ s.connections.map Connection.con

instance (s : State) (k : Nat) : Decidable (Open s k) :=
  inferInstanceAs (Decidable (k ∈ s.connections.map Connection.con))

/-- The requests of open connections are written once and answered once, a queue with requests
waits for the modem, and no connection gets a response to a request of another. -/
structure Answered (s : State) : Prop where
  once : ∀ q ∈ s.asked, Open s q.con → s.written.count q ≤ 1 ∧ s.delivered.count (q.con, q) ≤ 1
  drained : s.ctlMsg = [] → ∀ q ∈ s.asked, Open s q.con →
    s.written.count q = 1 ∧ s.delivered.count (q.con, q) = 1
  own : ∀ x ∈ s.delivered, x.2.con = x.1
  live : s.ctlMsg ≠ [] → s.modem ≠ []

def queued (s : State) (clientfd : UInt8) : Nat := s.ctlMsg.countP fun m => m.ClientFd == clientfd

/-- The condition on a step: a CTL indication comes while the queue is empty; a client that
disconnects has no request in the queue, or one that has not been sent, or the only one; and while
the modem has such a request no other one comes. -/
def InStep (s : State) : Label → Prop
  | .request _ _ => s.ctlMsg = [] → s.modem = []
  | .indication => s.ctlMsg = []
  | .disconnect clientfd =>
    queued s clientfd = 0 ∨ (queued s clientfd = 1 ∧
      (s.ctlMsg.length = 1 ∨ ∀ m ∈ s.ctlMsg.head?, m.ClientFd ≠ clientfd))
  | _ => True

/-- What the requests in the queue, those that the modem has and the logs have to do with each
other. -/
structure Inv (s : State) : Prop where
  fds : (s.connections.map Connection.ClientFd).Nodup
  cons : (s.connections.map Connection.con).Nodup
  accepted : ∀ c ∈ s.connections, c.con < s.accepted
  asked : ∀ q ∈ s.asked, q.id < s.asked.length ∧ q.con < s.accepted
  msgs : ∀ m ∈ s.ctlMsg, m.qmi ∈ s.asked ∧
    ∃ c ∈ s.connections, c.ClientFd = m.ClientFd ∧ c.con = m.qmi.con
  nodup : (s.ctlMsg.map Msg.qmi).Nodup
  sent : ∀ q ∈ s.modem, q ∈ s.asked
  written : ∀ q ∈ s.written, q ∈ s.asked
  delivered : ∀ x ∈ s.delivered, x.2 ∈ s.asked ∧ x.2.con = x.1
  busy : ∀ m rest, s.ctlMsg = m :: rest → s.modem = [m.qmi] ∧ s.written.count m.qmi = 1 ∧
    ∀ m' ∈ rest, s.written.count m'.qmi = 0
  idle : s.ctlMsg = [] → ∀ q ∈ s.modem, ¬Open s q.con
  unanswered : ∀ m ∈ s.ctlMsg, s.delivered.count (m.qmi.con, m.qmi) = 0
  done : ∀ q ∈ s.asked, Open s q.con → (∃ m ∈ s.ctlMsg, m.qmi = q) ∨
    (s.written.count q = 1 ∧ s.delivered.count (q.con, q) = 1)

theorem inv_init : Inv init := by
  constructor <;> simp [init]

theorem Inv.answered {s : State} (h : Inv s) : Answered s where
  once := fun q hq hopen => by
    rcases h.done q hq hopen with ⟨m, hm, rfl⟩ | ⟨hw, hd⟩
    · refine ⟨?_, by simp [h.unanswered m hm]⟩
      cases hlist : s.ctlMsg with
      | nil => simp [hlist] at hm
      | cons a rest =>
        obtain ⟨-, hone, hzero⟩ := h.busy a rest hlist
        rw [hlist] at hm
        rcases mem_cons.mp hm with rfl | hm
        · omega
        · simp [hzero m hm]
    · omega
  drained := fun hnil q hq hopen => by
    rcases h.done q hq hopen with ⟨m, hm, -⟩ | hdone
    · simp [hnil] at hm
    · exact hdone
  own := fun x hx => (h.delivered x hx).2
  live := fun hne => by
    cases hlist : s.ctlMsg with
    | nil => exact absurd hlist hne
    | cons a rest => simp [(h.busy a rest hlist).1]

variable {s t : State}

theorem Inv.filter_fd (h : Inv s) {c : Connection} (hc : c ∈ s.connections) {fd : UInt8}
    (hfd : c.ClientFd = fd) : (s.connections.filter fun c => c.ClientFd == fd) = [c] := by
  subst hfd
  exact filter_of_nodup h.fds hc

theorem Inv.congr (h : Inv s) (hfds : t.connections.map Connection.ClientFd =
      s.connections.map Connection.ClientFd)
    (hconnections : t.connections.map Connection.con = s.connections.map Connection.con)
    (hpairs : ∀ c ∈ s.connections, ∃ c' ∈ t.connections, c'.ClientFd = c.ClientFd ∧ c'.con = c.con)
    (hmsg : t.ctlMsg = s.ctlMsg) (hmodem : t.modem = s.modem) (hacc : t.accepted = s.accepted)
    (hasked : t.asked = s.asked) (hwritten : t.written = s.written)
    (hdelivered : t.delivered = s.delivered) : Inv t := by
  have hopen : ∀ k, Open t k ↔ Open s k := fun k => by simp only [Open, hconnections]
  constructor
  case fds => rw [hfds]; exact h.fds
  case cons => rw [hconnections]; exact h.cons
  case accepted =>
    intro c hc
    have hmem : c.con ∈ s.connections.map Connection.con := by
      rw [← hconnections]
      exact List.mem_map_of_mem hc
    obtain ⟨c', hc', heq⟩ := List.mem_map.mp hmem
    rw [hacc, ← heq]
    exact h.accepted c' hc'
  case asked => rw [hasked, hacc]; exact h.asked
  case msgs =>
    rw [hmsg, hasked]
    intro m hm
    obtain ⟨hq, c, hc, hfd, hcon⟩ := h.msgs m hm
    obtain ⟨c', hc', hfd', hcon'⟩ := hpairs c hc
    exact ⟨hq, c', hc', hfd'.trans hfd, hcon'.trans hcon⟩
  case nodup => rw [hmsg]; exact h.nodup
  case sent => rw [hmodem, hasked]; exact h.sent
  case written => rw [hwritten, hasked]; exact h.written
  case delivered => rw [hdelivered, hasked]; exact h.delivered
  case busy => rw [hmsg, hmodem, hwritten]; exact h.busy
  case idle =>
    rw [hmsg, hmodem]
    intro hnil q hq
    rw [hopen]
    exact h.idle hnil q hq
  case unanswered => rw [hmsg, hdelivered]; exact h.unanswered
  case done =>
    rw [hmsg, hwritten, hdelivered, hasked]
    intro q hq
    rw [hopen]
    exact h.done q hq

theorem Inv.accept (h : Inv s) {fd : UInt8} (hfd : fd ∉ s.connections.map Connection.ClientFd) :
    Inv (acceptQmiConnection s fd) := by
  have hnew : s.accepted ∉ s.connections.map Connection.con := fun hmem => by
    obtain ⟨c, hc, heq⟩ := List.mem_map.mp hmem
    exact absurd (h.accepted c hc) (by omega)
  have hopen : ∀ k, k < s.accepted → (Open (acceptQmiConnection s fd) k ↔ Open s k) := by
    intro k hk
    have hne : k ≠ s.accepted := by omega
    simp [Open, acceptQmiConnection, hne]
  constructor
  case fds =>
    simp only [acceptQmiConnection, map_append, map_cons, map_nil]
    exact nodup_append_one h.fds hfd
  case cons =>
    simp only [acceptQmiConnection, map_append, map_cons, map_nil]
    exact nodup_append_one h.cons hnew
  case accepted =>
    intro c hc
    show c.con < s.accepted + 1
    rcases mem_append.mp hc with hc | hc
    · have := h.accepted c hc
      omega
    · obtain rfl := mem_singleton.mp hc
      simp
  case asked =>
    intro q hq
    show q.id < s.asked.length ∧ q.con < s.accepted + 1
    have := h.asked q hq
    omega
  case msgs =>
    intro m hm
    obtain ⟨hq, c, hc, hpair⟩ := h.msgs m hm
    exact ⟨hq, c, mem_append_left _ hc, hpair⟩
  case nodup => exact h.nodup
  case sent => exact h.sent
  case written => exact h.written
  case delivered => exact h.delivered
  case busy => exact h.busy
  case idle =>
    intro hnil q hq hq'
    exact h.idle hnil q hq ((hopen _ (h.asked q (h.sent q hq)).2).mp hq')
  case unanswered => exact h.unanswered
  case done =>
    intro q hq hq'
    exact h.done q hq ((hopen _ (h.asked q hq).2).mp hq')

/-- The invariant when the modem has no request and none of the queue has been sent. -/
structure Waiting (s : State) : Prop where
  fds : (s.connections.map Connection.ClientFd).Nodup
  cons : (s.connections.map Connection.con).Nodup
  accepted : ∀ c ∈ s.connections, c.con < s.accepted
  asked : ∀ q ∈ s.asked, q.id < s.asked.length ∧ q.con < s.accepted
  msgs : ∀ m ∈ s.ctlMsg, m.qmi ∈ s.asked ∧
    ∃ c ∈ s.connections, c.ClientFd = m.ClientFd ∧ c.con = m.qmi.con
  nodup : (s.ctlMsg.map Msg.qmi).Nodup
  modem : s.modem = []
  written : ∀ q ∈ s.written, q ∈ s.asked
  delivered : ∀ x ∈ s.delivered, x.2 ∈ s.asked ∧ x.2.con = x.1
  unsent : ∀ m ∈ s.ctlMsg, s.written.count m.qmi = 0
  unanswered : ∀ m ∈ s.ctlMsg, s.delivered.count (m.qmi.con, m.qmi) = 0
  done : ∀ q ∈ s.asked, Open s q.con → (∃ m ∈ s.ctlMsg, m.qmi = q) ∨
    (s.written.count q = 1 ∧ s.delivered.count (q.con, q) = 1)

theorem Waiting.inv_nil (h : Waiting s) (hlist : s.ctlMsg = []) : Inv s where
  fds := h.fds
  cons := h.cons
  accepted := h.accepted
  asked := h.asked
  msgs := h.msgs
  nodup := h.nodup
  sent q hq := by
    rw [h.modem] at hq
    cases hq
  written := h.written
  delivered := h.delivered
  busy m rest hm := by
    rw [hlist] at hm
    cases hm
  idle _ q hq := by
    rw [h.modem] at hq
    cases hq
  unanswered := h.unanswered
  done := h.done

theorem Waiting.inv_cons (h : Waiting s) {m : Msg} {rest : List Msg}
    (hlist : s.ctlMsg = m :: rest) : Inv (sendQmiToCdcWdm s m.qmi) := by
  have hmem : m ∈ s.ctlMsg := by simp [hlist]
  have hother : ∀ q, q ≠ m.qmi → (s.written ++ [m.qmi]).count q = s.written.count q := by
    intro q hq
    have hzero : [m.qmi].count q = 0 := count_eq_zero.mpr (by simpa using hq)
    rw [count_append, hzero, Nat.add_zero]
  have hnodup := h.nodup
  rw [hlist, map_cons, nodup_cons] at hnodup
  exact
    { fds := h.fds
      cons := h.cons
      accepted := h.accepted
      asked := h.asked
      msgs := h.msgs
      nodup := h.nodup
      sent := by
        intro q hq
        obtain rfl : q = m.qmi := by simpa [sendQmiToCdcWdm, h.modem] using hq
        exact (h.msgs m hmem).1
      written := by
        intro q hq
        rcases mem_append.mp hq with hq | hq
        · exact h.written q hq
        · obtain rfl := mem_singleton.mp hq
          exact (h.msgs m hmem).1
      delivered := h.delivered
      busy := by
        intro n rest' hn
        obtain ⟨rfl, rfl⟩ : m = n ∧ rest = rest' := by simpa [sendQmiToCdcWdm, hlist] using hn
        refine ⟨by simp [sendQmiToCdcWdm, h.modem], ?_, ?_⟩
        · show (s.written ++ [m.qmi]).count m.qmi = 1
          rw [count_append, h.unsent m hmem]
          simp
        · intro n hn
          have hne : n.qmi ≠ m.qmi := fun heq => hnodup.1 (heq ▸ List.mem_map_of_mem hn)
          exact (hother _ hne).trans (h.unsent n (by simp [hlist, hn]))
      idle := fun hnil => by
        have hnil' : s.ctlMsg = [] := hnil
        rw [hlist] at hnil'
        cases hnil'
      unanswered := h.unanswered
      done := by
        intro q hq hopen
        rcases h.done q hq hopen with hqueue | ⟨hwritten, hdelivered⟩
        · exact .inl hqueue
        · by_cases heq : q = m.qmi
          · exact .inl ⟨m, hmem, heq.symm⟩
          · exact .inr ⟨(hother q heq).trans hwritten, hdelivered⟩ }

theorem sendHead_eq {m : Msg} {rest : List Msg} {c : Connection} (hlist : s.ctlMsg = m :: rest)
    (hfilter : (s.connections.filter fun c => c.ClientFd == m.ClientFd) = [c]) :
    sendHead s = sendQmiToCdcWdm s m.qmi := by
  unfold sendHead
  rw [hlist]
  simp only [hfilter, foldl_cons, foldl_nil]

theorem sendHead_nil (hlist : s.ctlMsg = []) : sendHead s = s := by
  unfold sendHead
  rw [hlist]

theorem Waiting.sendHead (h : Waiting s) : Inv (sendHead s) := by
  cases hlist : s.ctlMsg with
  | nil =>
    rw [sendHead_nil hlist]
    exact h.inv_nil hlist
  | cons m rest =>
    obtain ⟨_, c, hc, hfd, _⟩ := h.msgs m (by simp [hlist])
    have hfilter : (s.connections.filter fun c => c.ClientFd == m.ClientFd) = [c] := by
      rw [← hfd]
      exact filter_of_nodup h.fds hc
    rw [sendHead_eq hlist hfilter]
    exact h.inv_cons hlist

theorem Inv.notMem_asked (h : Inv s) (c : Connection) (ctl : Ctl) :
    newRequest s c ctl ∉ s.asked := fun hmem => by
  have hlt := (h.asked _ hmem).1
  simp [newRequest] at hlt

theorem Inv.count_written_new (h : Inv s) (c : Connection) (ctl : Ctl) :
    s.written.count (newRequest s c ctl) = 0 :=
  count_eq_zero.mpr fun hmem => h.notMem_asked c ctl (h.written _ hmem)

theorem Inv.count_delivered_new (h : Inv s) (c : Connection) (ctl : Ctl) (k : Nat) :
    s.delivered.count (k, newRequest s c ctl) = 0 :=
  count_eq_zero.mpr fun hmem => h.notMem_asked c ctl (h.delivered _ hmem).1

theorem Inv.request (h : Inv s) {c : Connection} (hc : c ∈ s.connections) (ctl : Ctl)
    (hok : s.ctlMsg = [] → s.modem = []) :
    Inv (sendQmi { s with asked := s.asked ++ [newRequest s c ctl] } (newRequest s c ctl)
      c.ClientFd) := by
  set q := newRequest s c ctl with hq
  have hqcon : q.con = c.con := rfl
  have hnot : q ∉ s.asked := h.notMem_asked c ctl
  have hasked : ∀ p ∈ s.asked ++ [q], p.id < (s.asked ++ [q]).length ∧ p.con < s.accepted := by
    intro p hp
    rw [length_append, length_singleton]
    rcases mem_append.mp hp with hp | hp
    · have := h.asked p hp
      omega
    · obtain rfl := mem_singleton.mp hp
      exact ⟨Nat.lt_succ_self _, h.accepted c hc⟩
  have hne : ∀ m ∈ s.ctlMsg, m.qmi ≠ q := fun m hm heq => hnot (heq ▸ (h.msgs m hm).1)
  have hmsgs : ∀ m ∈ s.ctlMsg ++ [⟨c.ClientFd, q⟩], m.qmi ∈ s.asked ++ [q] ∧
      ∃ c ∈ s.connections, c.ClientFd = m.ClientFd ∧ c.con = m.qmi.con := by
    intro m hm
    rcases mem_append.mp hm with hm | hm
    · exact ⟨mem_append_left _ (h.msgs m hm).1, (h.msgs m hm).2⟩
    · obtain rfl := mem_singleton.mp hm
      exact ⟨by simp, c, hc, rfl, rfl⟩
  have hnodup : ((s.ctlMsg ++ [(⟨c.ClientFd, q⟩ : Msg)]).map Msg.qmi).Nodup := by
    rw [map_append]
    refine nodup_append_one h.nodup ?_
    rintro hmem
    obtain ⟨m, hm, heq⟩ := List.mem_map.mp hmem
    exact hne m hm heq
  have hdelivered : ∀ x ∈ s.delivered, x.2 ∈ s.asked ++ [q] ∧ x.2.con = x.1 := fun x hx =>
    ⟨mem_append_left _ (h.delivered x hx).1, (h.delivered x hx).2⟩
  have hunanswered : ∀ m ∈ s.ctlMsg ++ [⟨c.ClientFd, q⟩],
      s.delivered.count (m.qmi.con, m.qmi) = 0 := by
    intro m hm
    rcases mem_append.mp hm with hm | hm
    · exact h.unanswered m hm
    · obtain rfl := mem_singleton.mp hm
      exact h.count_delivered_new c ctl _
  unfold sendQmi
  cases hlist : s.ctlMsg with
  | nil =>
    rw [hlist] at hmsgs hnodup hunanswered
    set t : State := { s with asked := s.asked ++ [q], ctlMsg := [⟨c.ClientFd, q⟩] } with ht
    have hwaiting : Waiting t :=
      { fds := h.fds
        cons := h.cons
        accepted := h.accepted
        asked := hasked
        msgs := hmsgs
        nodup := hnodup
        modem := hok hlist
        written := fun p hp => mem_append_left _ (h.written p hp)
        delivered := hdelivered
        unsent := by
          intro m hm
          obtain rfl := mem_singleton.mp hm
          exact h.count_written_new c ctl
        unanswered := hunanswered
        done := by
          intro p hp hopen
          rcases mem_append.mp hp with hp | hp
          · rcases h.done p hp hopen with ⟨m, hm, _⟩ | hdone
            · simp [hlist] at hm
            · exact .inr hdone
          · obtain rfl := mem_singleton.mp hp
            exact .inl ⟨_, mem_singleton_self _, rfl⟩ }
    exact hwaiting.inv_cons rfl
  | cons a rest =>
    obtain ⟨hmodem, hone, hzero⟩ := h.busy a rest hlist
    rw [hlist] at hmsgs hnodup hunanswered
    simp only [isEmpty_cons, Bool.false_eq_true, if_false]
    exact
      { fds := h.fds
        cons := h.cons
        accepted := h.accepted
        asked := hasked
        msgs := hmsgs
        nodup := hnodup
        sent := fun p hp => mem_append_left _ (h.sent p hp)
        written := fun p hp => mem_append_left _ (h.written p hp)
        delivered := hdelivered
        busy := by
          intro m rest' hm
          obtain ⟨rfl, rfl⟩ : a = m ∧ rest ++ [⟨c.ClientFd, q⟩] = rest' := by simpa using hm
          refine ⟨hmodem, hone, ?_⟩
          intro m' hm'
          rcases mem_append.mp hm' with hm' | hm'
          · exact hzero m' hm'
          · obtain rfl := mem_singleton.mp hm'
            exact h.count_written_new c ctl
        idle := by simp
        unanswered := hunanswered
        done := by
          intro p hp hopen
          rcases mem_append.mp hp with hp | hp
          · rcases h.done p hp hopen with ⟨m, hm, heq⟩ | hdone
            · rw [hlist] at hm
              exact Or.inl ⟨m, mem_append_left _ hm, heq⟩
            · exact Or.inr hdone
          · left
            obtain rfl := mem_singleton.mp hp
            exact ⟨⟨c.ClientFd, q⟩, by simp, rfl⟩ }

theorem recvResponse_nil (hlist : s.ctlMsg = []) (q : Request) (response : Response) :
    recvResponse s q response = s := by
  unfold recvResponse
  rw [hlist]

@[simp] theorem learn_con (c : Connection) (response : Response) :
    (learn c response).con = c.con := by
  unfold learn
  split
  · split <;> rfl
  · split <;> rfl
  · rfl

@[simp] theorem learn_ClientFd (c : Connection) (response : Response) :
    (learn c response).ClientFd = c.ClientFd := by
  unfold learn
  split
  · split <;> rfl
  · split <;> rfl
  · rfl

def learned (s : State) (fd : UInt8) (response : Response) : List Connection :=
  s.connections.map fun c => if c.ClientFd == fd then learn c response else c

theorem map_learned_fd (fd : UInt8) (response : Response) :
    (learned s fd response).map Connection.ClientFd = s.connections.map Connection.ClientFd := by
  unfold learned
  rw [List.map_map]
  refine map_congr_left fun c _ => ?_
  simp only [Function.comp]
  split <;> simp

theorem map_learned_con (fd : UInt8) (response : Response) :
    (learned s fd response).map Connection.con = s.connections.map Connection.con := by
  unfold learned
  rw [List.map_map]
  refine map_congr_left fun c _ => ?_
  simp only [Function.comp]
  split <;> simp

theorem mem_learned {fd : UInt8} {response : Response} {c : Connection} (hc : c ∈ s.connections) :
    ∃ c' ∈ learned s fd response, c'.ClientFd = c.ClientFd ∧ c'.con = c.con := by
  refine ⟨_, List.mem_map_of_mem hc, ?_⟩
  split <;> simp

theorem Inv.response (h : Inv s) {m : Msg} {rest : List Msg} (hlist : s.ctlMsg = m :: rest)
    (response : Response) :
    Inv (sendHead (recvResponse { s with modem := [] } m.qmi response)) := by
  obtain ⟨hmodem, hone, hzero⟩ := h.busy m rest hlist
  obtain ⟨hasked, c, hc, hfd, hcon⟩ := h.msgs m (by simp [hlist])
  have hfilter := h.filter_fd hc hfd
  have hnodup := h.nodup
  rw [hlist, map_cons, nodup_cons] at hnodup
  obtain ⟨hmrest, hrest⟩ := hnodup
  have hnone := h.unanswered m (by simp [hlist])
  set t : State := { s with
    connections := learned s m.ClientFd response
    delivered := s.delivered ++ [(m.qmi.con, m.qmi)]
    ctlMsg := rest
    modem := [] } with ht
  have hrecv : recvResponse { s with modem := [] } m.qmi response = t := by
    unfold recvResponse
    simp only [hlist, hfilter, map_cons, map_nil, hcon, ht, learned]
  rw [hrecv]
  have hopen : ∀ k, Open t k ↔ Open s k := fun k => by
    simp only [Open, ht, map_learned_con]
  have hmsgs : ∀ m' ∈ rest, m'.qmi ∈ s.asked ∧
      ∃ c ∈ t.connections, c.ClientFd = m'.ClientFd ∧ c.con = m'.qmi.con := by
    intro m' hm'
    obtain ⟨hq, c, hc, hfd, hcon⟩ := h.msgs m' (by simp [hlist, hm'])
    obtain ⟨c', hc', hfd', hcon'⟩ : ∃ c' ∈ learned s m.ClientFd response,
        c'.ClientFd = c.ClientFd ∧ c'.con = c.con := mem_learned hc
    exact ⟨hq, c', hc', hfd'.trans hfd, hcon'.trans hcon⟩
  have hdelivered : ∀ x ∈ t.delivered, x.2 ∈ s.asked ∧ x.2.con = x.1 := by
    intro x hx
    rcases mem_append.mp hx with hx | hx
    · exact h.delivered x hx
    · obtain rfl := mem_singleton.mp hx
      exact ⟨hasked, rfl⟩
  have hcount : ∀ q, q ≠ m.qmi →
      t.delivered.count (q.con, q) = s.delivered.count (q.con, q) := by
    intro q hq
    show (s.delivered ++ [(m.qmi.con, m.qmi)]).count (q.con, q) = _
    have hother : [(m.qmi.con, m.qmi)].count (q.con, q) = 0 :=
      count_eq_zero.mpr (by simp [hq])
    rw [count_append, hother, Nat.add_zero]
  have hself : t.delivered.count (m.qmi.con, m.qmi) = 1 := by
    show (s.delivered ++ [(m.qmi.con, m.qmi)]).count _ = 1
    rw [count_append, hnone]
    simp
  have hdone : ∀ q ∈ s.asked, Open s q.con → (∃ m' ∈ rest, m'.qmi = q) ∨
      (s.written.count q = 1 ∧ t.delivered.count (q.con, q) = 1) := by
    intro q hq hopenq
    by_cases hqm : q = m.qmi
    · subst hqm
      exact Or.inr ⟨hone, hself⟩
    · rcases h.done q hq hopenq with ⟨m', hm', heq⟩ | ⟨hw, hd⟩
      · rw [hlist] at hm'
        rcases mem_cons.mp hm' with rfl | hm'
        · exact absurd heq.symm hqm
        · exact Or.inl ⟨m', hm', heq⟩
      · exact Or.inr ⟨hw, (hcount q hqm).trans hd⟩
  have hunanswered : ∀ m' ∈ rest, t.delivered.count (m'.qmi.con, m'.qmi) = 0 := by
    intro m' hm'
    have hne : m'.qmi ≠ m.qmi := fun heq => hmrest (heq ▸ List.mem_map_of_mem hm')
    rw [hcount _ hne]
    exact h.unanswered m' (by simp [hlist, hm'])
  have hfds : (t.connections.map Connection.ClientFd).Nodup := by
    rw [map_learned_fd]
    exact h.fds
  have hcons : (t.connections.map Connection.con).Nodup := by
    rw [map_learned_con]
    exact h.cons
  have haccepted : ∀ c ∈ t.connections, c.con < s.accepted := by
    intro c hc
    have hmem : c.con ∈ s.connections.map Connection.con := by
      rw [← map_learned_con m.ClientFd response]
      exact List.mem_map_of_mem hc
    obtain ⟨c', hc', heq⟩ := List.mem_map.mp hmem
    rw [← heq]
    exact h.accepted c' hc'
  have hwaiting : Waiting t :=
    { fds := hfds
      cons := hcons
      accepted := haccepted
      asked := h.asked
      msgs := hmsgs
      nodup := hrest
      modem := rfl
      written := h.written
      delivered := hdelivered
      unsent := hzero
      unanswered := hunanswered
      done := fun q hq hopenq => hdone q hq ((hopen _).mp hopenq) }
  exact hwaiting.sendHead

theorem of_reply {q : Request} {result error : UInt16} {ClientId : UInt8} {x : State × Response}
    (h : reply s q result error ClientId = some x) : ∃ allocated held,
    x.1 = { s with allocated := allocated, held := held } := by
  unfold reply at h
  split at h
  · split at h
    · split at h
      · cases h
      · obtain rfl := some.inj h
        exact ⟨_, _, rfl⟩
    · obtain rfl := some.inj h
      exact ⟨_, _, rfl⟩
  · split at h
    · obtain rfl := some.inj h
      exact ⟨_, _, rfl⟩
    · obtain rfl := some.inj h
      exact ⟨_, _, rfl⟩
  · obtain rfl := some.inj h
    exact ⟨_, _, rfl⟩

theorem Inv.drop (h : Inv s) (hlist : s.ctlMsg = []) {q : Request} {rest : List Request}
    (hmodem : s.modem = q :: rest) : Inv { s with modem := rest } where
  fds := h.fds
  cons := h.cons
  accepted := h.accepted
  asked := h.asked
  msgs := h.msgs
  nodup := h.nodup
  sent := fun p hp => h.sent p (by simp [hmodem, show p ∈ rest from hp])
  written := h.written
  delivered := h.delivered
  busy := by simp [hlist]
  idle := fun _ p hp => h.idle hlist p (by simp [hmodem, show p ∈ rest from hp])
  unanswered := h.unanswered
  done := h.done

theorem Inv.respond (h : Inv s) {q : Request} {rest : List Request} (hmodem : s.modem = q :: rest)
    {result error : UInt16} {ClientId : UInt8} {x : State × Response}
    (hreply : reply { s with modem := rest } q result error ClientId = some x) :
    Inv (sendHead (recvResponse x.1 q x.2)) := by
  obtain ⟨allocated, held, hx⟩ := of_reply hreply
  have hpairs : ∀ c ∈ s.connections, ∃ c' ∈ s.connections,
      c'.ClientFd = c.ClientFd ∧ c'.con = c.con := fun c hc => ⟨c, hc, rfl, rfl⟩
  have hsame : Inv { s with allocated := allocated, held := held } :=
    h.congr rfl rfl hpairs rfl rfl rfl rfl rfl rfl
  by_cases hnil : s.ctlMsg = []
  · have hx' : x.1.ctlMsg = [] := by
      rw [hx]
      exact hnil
    rw [recvResponse_nil hx', sendHead_nil hx', hx]
    exact hsame.drop hnil hmodem
  · obtain ⟨m, rest', hlist⟩ := exists_cons_of_ne_nil hnil
    obtain ⟨hone, -, -⟩ := h.busy m rest' hlist
    rw [hone] at hmodem
    obtain ⟨rfl, rfl⟩ : m.qmi = q ∧ [] = rest := by simpa using hmodem
    rw [hx]
    exact hsame.response hlist x.2

theorem Open.of_cleanup {k : Nat} {fd : UInt8} (h : Open (cleanupQmiConnection s fd) k) :
    Open s k :=
  (eraseP_sublist.map Connection.con).subset h

theorem Inv.cleanup (h : Inv s) {c : Connection} (hc : c ∈ s.connections) :
    ¬Open (cleanupQmiConnection s c.ClientFd) c.con ∧
      ∀ c' ∈ s.connections, c'.ClientFd ≠ c.ClientFd →
        c' ∈ (cleanupQmiConnection s c.ClientFd).connections := by
  obtain ⟨a, l₁, l₂, -, ha, hl, herase⟩ := exists_of_eraseP
    (p := fun d : Connection => d.ClientFd == c.ClientFd) hc (by simp)
  have hac : a = c := by
    have hmem : a ∈ s.connections.filter fun d => d.ClientFd == c.ClientFd :=
      mem_filter.mpr ⟨by rw [hl]; simp, ha⟩
    rw [h.filter_fd hc rfl] at hmem
    exact mem_singleton.mp hmem
  subst hac
  have hcons := h.cons
  rw [hl, map_append, map_cons, nodup_append] at hcons
  obtain ⟨-, htail, hdisj⟩ := hcons
  refine ⟨?_, ?_⟩
  · intro hopen
    simp only [Open, cleanupQmiConnection, herase, map_append] at hopen
    rcases mem_append.mp hopen with hmem | hmem
    · exact hdisj _ hmem _ (by simp) rfl
    · exact (nodup_cons.mp htail).1 hmem
  · intro c' hc' hne
    show c' ∈ s.connections.eraseP _
    rw [mem_eraseP_of_neg (by simpa using hne)]
    exact hc'

/-- What `cleanup_qmi_connection` leaves of the queue: all of it, nothing of a queue with a single
request that has been sent, or all but a request that has not been sent. -/
theorem erase_cases {fd : UInt8} (hok : InStep s (.disconnect fd)) :
    let ms := s.ctlMsg.eraseP fun m => m.ClientFd == fd
    (ms = s.ctlMsg ∧ ∀ m ∈ ms, m.ClientFd ≠ fd) ∨
      (∃ a, s.ctlMsg = [a] ∧ a.ClientFd = fd ∧ ms = []) ∨
      ∃ m rest, s.ctlMsg = m :: rest ∧ (∀ x ∈ ms, x.ClientFd ≠ fd) ∧
        ms = m :: rest.eraseP fun m => m.ClientFd == fd := by
  intro ms
  rcases hok with hzero | ⟨hone, hwhere⟩
  · have hno : ∀ m ∈ s.ctlMsg, ¬(m.ClientFd == fd) = true := countP_eq_zero.mp hzero
    have heq : ms = s.ctlMsg := eraseP_of_forall_not hno
    exact Or.inl ⟨heq, fun m hm => by simpa using hno m (heq ▸ hm)⟩
  · obtain ⟨a, hmem, hfd⟩ := countP_pos_iff.mp (show 0 < queued s fd by omega)
    obtain ⟨b, l₁, l₂, -, hb, hl, herase⟩ := exists_of_eraseP
      (p := fun m : Msg => m.ClientFd == fd) hmem hfd
    have hcount : l₁.countP (fun m => m.ClientFd == fd) = 0 ∧
        l₂.countP (fun m => m.ClientFd == fd) = 0 := by
      have hsum := hone
      simp only [queued, hl, countP_append, countP_cons, hb, if_true] at hsum
      omega
    have hno : ∀ x ∈ ms, x.ClientFd ≠ fd := by
      intro x hx
      rw [show ms = l₁ ++ l₂ from herase] at hx
      rcases mem_append.mp hx with hx | hx
      · simpa using countP_eq_zero.mp hcount.1 x hx
      · simpa using countP_eq_zero.mp hcount.2 x hx
    rcases hwhere with hlength | hhead
    · obtain ⟨m, hm⟩ := length_eq_one_iff.mp hlength
      rw [hm] at hmem
      obtain rfl := mem_singleton.mp hmem
      refine Or.inr (Or.inl ⟨a, hm, by simpa using hfd, ?_⟩)
      show s.ctlMsg.eraseP _ = []
      rw [hm, eraseP_cons_of_pos (p := fun m : Msg => m.ClientFd == fd) hfd]
    · obtain ⟨m, rest, hlist⟩ := exists_cons_of_ne_nil (ne_nil_of_mem hmem)
      have hne : m.ClientFd ≠ fd := hhead m (by simp [hlist])
      refine Or.inr (Or.inr ⟨m, rest, hlist, hno, ?_⟩)
      show s.ctlMsg.eraseP _ = _
      rw [hlist, eraseP_cons_of_neg (by simpa using hne)]

theorem Inv.disconnect (h : Inv s) {c : Connection} (hc : c ∈ s.connections)
    (hok : InStep s (.disconnect c.ClientFd)) : Inv (cleanupQmiConnection s c.ClientFd) := by
  obtain ⟨hclosed, hstay⟩ := h.cleanup hc
  have hcases := erase_cases hok
  set ms := s.ctlMsg.eraseP fun m => m.ClientFd == c.ClientFd with hms
  have hsub : ms.Sublist s.ctlMsg := eraseP_sublist
  have hcon : ∀ m ∈ s.ctlMsg, m.ClientFd = c.ClientFd → m.qmi.con = c.con := by
    intro m hm hfd
    obtain ⟨-, c', hc', hfd', hcon'⟩ := h.msgs m hm
    have hmem : c' ∈ s.connections.filter fun d => d.ClientFd == c.ClientFd :=
      mem_filter.mpr ⟨hc', by simp [hfd', hfd]⟩
    rw [h.filter_fd hc rfl] at hmem
    rw [← hcon', mem_singleton.mp hmem]
  have hgone : ∀ m ∈ ms, m.ClientFd ≠ c.ClientFd := by
    rcases hcases with ⟨-, hno⟩ | ⟨a, -, -, hnil⟩ | ⟨m, rest, -, hno, -⟩
    · exact hno
    · simp [hnil]
    · exact hno
  constructor
  case fds => exact h.fds.sublist (eraseP_sublist.map _)
  case cons => exact h.cons.sublist (eraseP_sublist.map _)
  case accepted => exact fun d hd => h.accepted d (mem_of_mem_eraseP hd)
  case asked => exact h.asked
  case msgs =>
    intro m hm
    obtain ⟨hq, d, hd, hfd, hdcon⟩ := h.msgs m (hsub.subset hm)
    exact ⟨hq, d, hstay d hd (hfd ▸ hgone m hm), hfd, hdcon⟩
  case nodup => exact h.nodup.sublist (hsub.map _)
  case sent => exact h.sent
  case written => exact h.written
  case delivered => exact h.delivered
  case busy =>
    intro m rest hm
    have hfirst : ∃ rest', s.ctlMsg = m :: rest' ∧ rest ⊆ rest' := by
      rcases hcases with ⟨heq, -⟩ | ⟨a, -, -, hnil⟩ | ⟨a, rest', hlist, -, heq⟩
      · exact ⟨rest, heq ▸ hm, List.Subset.refl _⟩
      · exact absurd (hnil ▸ hm : [] = m :: rest) (by simp)
      · obtain ⟨rfl, rfl⟩ : a = m ∧ (rest'.eraseP fun m => m.ClientFd == c.ClientFd) = rest := by
          simpa using heq.symm.trans hm
        exact ⟨rest', hlist, eraseP_subset⟩
    obtain ⟨rest', hlist, hrest⟩ := hfirst
    obtain ⟨hmodem, hone, hzero⟩ := h.busy m rest' hlist
    exact ⟨hmodem, hone, fun m' hm' => hzero m' (hrest hm')⟩
  case idle =>
    intro hnil q hq hopen
    rcases hcases with ⟨heq, -⟩ | ⟨a, hlist, hfd, -⟩ | ⟨a, rest', -, -, heq⟩
    · exact h.idle (heq ▸ hnil) q hq hopen.of_cleanup
    · have hq' : q ∈ s.modem := hq
      rw [(h.busy a [] hlist).1] at hq'
      obtain rfl := mem_singleton.mp hq'
      rw [hcon a (by simp [hlist]) hfd] at hopen
      exact hclosed hopen
    · exact absurd (heq.symm.trans hnil) (by simp)
  case unanswered => exact fun m hm => h.unanswered m (hsub.subset hm)
  case done =>
    intro q hq hopen
    rcases h.done q hq hopen.of_cleanup with ⟨m, hm, rfl⟩ | hdone
    · have hne : m.ClientFd ≠ c.ClientFd := fun hfd => hclosed (hcon m hm hfd ▸ hopen)
      exact Or.inl ⟨m, (mem_eraseP_of_neg (by simpa using hne)).mpr hm, rfl⟩
    · exact Or.inr hdone

theorem inv_step {l : Label} (h : Inv s) (hok : InStep s l) (hstep : step s l = some t) :
    Inv t := by
  cases l with
  | accept fd =>
    simp only [step] at hstep
    split at hstep
    next => cases hstep
    next hfd =>
      obtain rfl := some.inj hstep
      exact h.accept hfd
  | request fd ctl =>
    simp only [step, map_eq_some_iff] at hstep
    obtain ⟨c, hc, rfl⟩ := hstep
    obtain rfl : c.ClientFd = fd := by simpa using List.find?_some hc
    exact h.request (List.mem_of_find?_eq_some hc) ctl hok
  | respond result error ClientId =>
    simp only [step] at hstep
    split at hstep
    next q rest hmodem =>
      obtain ⟨x, hreply, rfl⟩ := map_eq_some_iff.mp hstep
      exact h.respond hmodem hreply
    next => cases hstep
  | indication =>
    obtain rfl : sendHead s = t := by simpa [step] using hstep
    rw [sendHead_nil hok]
    exact h
  | service QMIType ClientId =>
    simp only [step] at hstep
    split at hstep
    next => cases hstep
    next =>
      obtain rfl := some.inj hstep
      exact h.congr rfl rfl (fun c hc => ⟨c, hc, rfl, rfl⟩) rfl rfl rfl rfl rfl rfl
  | disconnect fd =>
    simp only [step] at hstep
    split at hstep
    next hfd =>
      obtain rfl := some.inj hstep
      obtain ⟨c, hc, rfl⟩ := List.mem_map.mp hfd
      exact h.disconnect hc hok
    next => cases hstep

/-- In every run whose steps meet `InStep`, the requests sent, queued and answered stay in step. -/
theorem ctl_answered (h : Reaches step InStep init s) : Answered s :=
  (h.invariant inv_init fun _ _ _ hs hok hstep => inv_step hs hok hstep).answered

instance (s : State) : (l : Label) → Decidable (InStep s l)
  | .request _ _ => inferInstanceAs (Decidable (s.ctlMsg = [] → s.modem = []))
  | .indication => inferInstanceAs (Decidable (s.ctlMsg = []))
  | .disconnect clientfd => inferInstanceAs (Decidable (queued s clientfd = 0 ∨
      (queued s clientfd = 1 ∧
        (s.ctlMsg.length = 1 ∨ ∀ m ∈ s.ctlMsg.head?, m.ClientFd ≠ clientfd))))
  | .accept _ | .respond _ _ _ | .service _ _ => inferInstanceAs (Decidable True)

/-- Three clients, one of which goes before its request is sent; its descriptor is used again. -/
def threeClients : List Label :=
  [.accept 5, .accept 6, .accept 7, .request 5 .other, .request 6 .other,
    .request 7 (.getClientId 1), .disconnect 6, .accept 6, .respond 0 0 0, .request 6 .other,
    .respond 0 0 4, .respond 0 0 0, .indication]

theorem ctl_answered_threeClients :
    ∃ s, Reaches step InStep init s ∧ Answered s ∧ s.ctlMsg = [] ∧
      s.delivered.map (fun x => (x.1, x.2.id)) = [(0, 0), (2, 2), (3, 3)] := by
  have hrun : (run (guarded step InStep) init threeClients).any (fun s =>
      decide (s.ctlMsg = [] ∧
        s.delivered.map (fun x => (x.1, x.2.id)) = [(0, 0), (2, 2), (3, 3)])) = true := by
    decide
  obtain ⟨s, hs, hlast⟩ := exists_of_run threeClients hrun
  exact ⟨s, hs, ctl_answered hs, hlast⟩

def gone : List Label :=
  [.accept 5, .accept 6, .request 5 .other, .request 6 .other, .disconnect 5, .respond 0 0 0]

def unasked : List Label := [.accept 5, .request 5 .other, .indication]

def stalled : List Label :=
  [.accept 5, .accept 6, .request 6 .other, .request 5 .other, .request 5 .other,
    .disconnect 5, .respond 0 0 0]

/-- A response goes to another connection, a request is written twice, and the queue stalls. -/
theorem not_ctl_answered :
    (¬∀ s ∈ statesOf step init gone, ∀ x ∈ s.delivered, x.2.con = x.1) ∧
      (¬∀ s ∈ statesOf step init unasked, ∀ q ∈ s.asked, Open s q.con → s.written.count q ≤ 1) ∧
      ¬∀ s ∈ statesOf step init stalled, s.ctlMsg ≠ [] → s.modem ≠ [] := by
  refine ⟨?_, ?_, ?_⟩ <;> decide

end ModemSupport.Cm.QmiProxy
