import ModemSupport.Cm.QmiProxyCtl

/-! The client ids of the connections, which the proxy learns from the CTL responses, and the
service frames that it writes to their owners. -/

namespace ModemSupport.Cm.QmiProxy

open Lib.Transition Lib.Lists List Option

/-- No client id is in the lists of two connections, a list holds only ids that its connection was
given and whose release has not been confirmed to it, no id has two open owners, and each service
frame has been written once to each of its owners. -/
structure Owned (s : State) : Prop where
  single : ∀ c ∈ s.connections, ∀ c' ∈ s.connections, c.con ≠ c'.con →
    ∀ p ∈ c.clients, p ∉ c'.clients
  given : ∀ c ∈ s.connections, ∀ p ∈ c.clients, (c.con, p) ∈ s.held
  owner : ∀ k k' p, Open s k → Open s k' → (k, p) ∈ s.held → (k', p) ∈ s.held → k = k'
  served : ∀ x ∈ s.served, x.1 = x.2 ∧ x.2.Nodup

def Ctl.releases : Ctl → Option Client
  | .releaseClientId client => some client
  | _ => none

def ReleaseOk (s : State) : Prop :=
  ∀ q ∈ s.modem.head?, ∀ p ∈ q.ctl.releases, ∀ c ∈ s.connections, c.con ≠ q.con → p ∉ c.clients

/-- The condition on a step: that of the CTL requests, no client releases an id of another one,
and a broadcast comes while each connection has at most one client of the service. -/
def ClientStep (s : State) (l : Label) : Prop :=
  InStep s l ∧ match l with
    | .respond result error _ => result = 0 → error = 0 → ReleaseOk s
    | .service QMIType ClientId => ClientId = 0 →
      ∀ c ∈ s.connections, (c.clients.countP fun p => QMIType == p.QMIType) ≤ 1
    | _ => True

/-- The lists of the connections and what the modem has given to them. -/
structure Clients (s : State) : Prop where
  held : ∀ c ∈ s.connections, ∀ p, p ∈ c.clients ↔ (c.con, p) ∈ s.held
  nodup : ∀ c ∈ s.connections, c.clients.Nodup
  once : ∀ k p, Open s k → s.held.count (k, p) ≤ 1
  allocated : ∀ k p, Open s k → (k, p) ∈ s.held → p ∈ s.allocated
  owner : ∀ k k' p, Open s k → Open s k' → (k, p) ∈ s.held → (k', p) ∈ s.held → k = k'
  started : ∀ x ∈ s.held, x.1 < s.accepted
  served : ∀ x ∈ s.served, x.1 = x.2 ∧ x.2.Nodup

theorem clients_init : Clients init := by
  constructor <;> simp [init, Open]

variable {s t : State}

theorem Clients.owned (h : Clients s) : Owned s where
  single := fun c hc c' hc' hne p hp hp' =>
    hne (h.owner c.con c'.con p (List.mem_map_of_mem hc) (List.mem_map_of_mem hc')
      ((h.held c hc p).mp hp) ((h.held c' hc' p).mp hp'))
  given := fun c hc p hp => (h.held c hc p).mp hp
  owner := h.owner
  served := h.served

theorem Clients.congr (h : Clients s) (hconnections : t.connections.Sublist s.connections)
    (hallocated : t.allocated = s.allocated) (hheld : t.held = s.held)
    (haccepted : t.accepted = s.accepted) (hserved : t.served = s.served) : Clients t := by
  have hopen : ∀ k, Open t k → Open s k := fun k hk => (hconnections.map Connection.con).subset hk
  constructor
  case held =>
    rw [hheld]
    exact fun c hc => h.held c (hconnections.subset hc)
  case nodup => exact fun c hc => h.nodup c (hconnections.subset hc)
  case once =>
    rw [hheld]
    exact fun k p hk => h.once k p (hopen k hk)
  case allocated =>
    rw [hheld, hallocated]
    exact fun k p hk => h.allocated k p (hopen k hk)
  case owner =>
    rw [hheld]
    exact fun k k' p hk hk' => h.owner k k' p (hopen k hk) (hopen k' hk')
  case started =>
    rw [hheld, haccepted]
    exact h.started
  case served =>
    rw [hserved]
    exact h.served

theorem Clients.accept (h : Clients s) (fd : UInt8) :
    Clients (acceptQmiConnection s fd) := by
  have hnew : ∀ p, (s.accepted, p) ∉ s.held := fun p hp => by
    have := h.started _ hp
    simp at this
  have hopen : ∀ k p, (k, p) ∈ s.held → Open (acceptQmiConnection s fd) k → Open s k := by
    intro k p hp hk
    simp only [Open, acceptQmiConnection, map_append] at hk
    rcases mem_append.mp hk with hk | hk
    · exact hk
    · obtain rfl : k = s.accepted := by simpa using hk
      exact absurd hp (hnew p)
  constructor
  case held =>
    intro c hc p
    rcases mem_append.mp hc with hc | hc
    · exact h.held c hc p
    · obtain rfl := mem_singleton.mp hc
      simpa [acceptQmiConnection] using hnew p
  case nodup =>
    intro c hc
    rcases mem_append.mp hc with hc | hc
    · exact h.nodup c hc
    · obtain rfl := mem_singleton.mp hc
      exact nodup_nil
  case once =>
    intro k p hk
    show s.held.count (k, p) ≤ 1
    by_cases hp : (k, p) ∈ s.held
    · exact h.once k p (hopen k p hp hk)
    · rw [count_eq_zero.mpr hp]
      exact Nat.zero_le 1
  case allocated => exact fun k p hk hp => h.allocated k p (hopen k p hp hk) hp
  case owner =>
    exact fun k k' p hk hk' hp hp' =>
      h.owner k k' p (hopen k p hp hk) (hopen k' p hp' hk') hp hp'
  case started => exact fun x hx => Nat.lt_succ_of_lt (h.started x hx)
  case served => exact h.served

theorem map_filter_eq {p : Client → Bool} {l : List Client} (h : l.countP p ≤ 1) (k : Nat) :
    (l.filter p).map (fun _ => k) = if l.any p then [k] else [] := by
  rw [countP_eq_length_filter] at h
  cases hl : l.filter p with
  | nil =>
    have hnone : l.any p = false := by
      rw [List.any_eq_false]
      exact fun x hx => filter_eq_nil_iff.mp hl x hx
    simp [hnone]
  | cons a rest =>
    rw [hl] at h
    obtain rfl : rest = [] := by simpa using h
    have hmem : a ∈ l.filter p := by simp [hl]
    have hany : l.any p = true :=
      List.any_eq_true.mpr ⟨a, mem_filter.mp hmem⟩
    simp [hany]

theorem flatMap_eq_filter {l : List Connection} {f : Connection → List Nat} {p : Nat → Bool}
    (h : ∀ c ∈ l, f c = if p c.con then [c.con] else []) :
    l.flatMap f = (l.map Connection.con).filter p := by
  induction l with
  | nil => rfl
  | cons c l ih =>
    rw [flatMap_cons, map_cons, h c (by simp), ih fun d hd => h d (by simp [hd])]
    by_cases hp : p c.con = true
    · simp [hp]
    · simp [hp]

theorem serves_eq {QMIType ClientId : UInt8} (h : ClientId ≠ 0) (p : Client) :
    serves QMIType ClientId p = true ↔ p = ⟨QMIType, ClientId⟩ := by
  obtain ⟨t, i⟩ := p
  simp only [serves, Bool.and_eq_true, Bool.or_eq_true, beq_iff_eq, h, false_or, Client.mk.injEq]
  exact ⟨fun hx => ⟨hx.1.symm, hx.2.symm⟩, fun hx => ⟨hx.1.symm, hx.2.symm⟩⟩

theorem Clients.writes_eq (h : Clients s) {QMIType ClientId : UInt8}
    (hok : ClientId = 0 →
      ∀ c ∈ s.connections, (c.clients.countP fun p => QMIType == p.QMIType) ≤ 1) :
    writes s QMIType ClientId = owners s QMIType ClientId := by
  refine flatMap_eq_filter fun c hc => ?_
  have hcount : c.clients.countP (serves QMIType ClientId) ≤ 1 := by
    by_cases hz : ClientId = 0
    · have hserves : serves QMIType ClientId = fun p : Client => QMIType == p.QMIType := by
        funext p
        simp [serves, hz]
      rw [hserves]
      exact hok hz c hc
    · have hcongr : c.clients.countP (serves QMIType ClientId) =
          c.clients.count ⟨QMIType, ClientId⟩ :=
        countP_congr fun p _ => by simpa using serves_eq hz p
      rw [hcongr]
      exact nodup_iff_count.mp (h.nodup c hc) _
  rw [map_filter_eq hcount]
  have hany : c.clients.any (serves QMIType ClientId) =
      s.held.any fun x => x.1 == c.con && serves QMIType ClientId x.2 := by
    rw [Bool.eq_iff_iff, List.any_eq_true, List.any_eq_true]
    constructor
    · rintro ⟨p, hp, hserves⟩
      exact ⟨(c.con, p), (h.held c hc p).mp hp, by simp [hserves]⟩
    · rintro ⟨⟨k, p⟩, hx, hserves⟩
      obtain ⟨rfl, hp⟩ : k = c.con ∧ serves QMIType ClientId p = true := by simpa using hserves
      exact ⟨p, (h.held c hc p).mpr hx, hp⟩
  rw [hany]

theorem Clients.service (h : Clients s) (hinv : Inv s) {QMIType ClientId : UInt8}
    (hok : ClientId = 0 →
      ∀ c ∈ s.connections, (c.clients.countP fun p => QMIType == p.QMIType) ≤ 1) :
    Clients { s with
      served := s.served ++ [(writes s QMIType ClientId, owners s QMIType ClientId)] } where
  held := h.held
  nodup := h.nodup
  once := h.once
  allocated := h.allocated
  owner := h.owner
  started := h.started
  served := fun x hx => by
    rcases mem_append.mp hx with hx | hx
    · exact h.served x hx
    · obtain rfl := mem_singleton.mp hx
      exact ⟨h.writes_eq hok, hinv.cons.filter _⟩

theorem sendHead_frame : (sendHead s).connections = s.connections ∧
    (sendHead s).allocated = s.allocated ∧ (sendHead s).held = s.held ∧
    (sendHead s).accepted = s.accepted ∧ (sendHead s).served = s.served := by
  have hfold : ∀ (l : List Connection) (q : Request) (u : State),
      (l.foldl (fun t _ => sendQmiToCdcWdm t q) u).connections = u.connections ∧
      (l.foldl (fun t _ => sendQmiToCdcWdm t q) u).allocated = u.allocated ∧
      (l.foldl (fun t _ => sendQmiToCdcWdm t q) u).held = u.held ∧
      (l.foldl (fun t _ => sendQmiToCdcWdm t q) u).accepted = u.accepted ∧
      (l.foldl (fun t _ => sendQmiToCdcWdm t q) u).served = u.served := by
    intro l q
    induction l with
    | nil => exact fun u => ⟨rfl, rfl, rfl, rfl, rfl⟩
    | cons c l ih => exact fun u => ih (sendQmiToCdcWdm u q)
  unfold sendHead
  split
  · exact ⟨rfl, rfl, rfl, rfl, rfl⟩
  · exact hfold _ _ s

theorem recvResponse_frame (q : Request) (response : Response) :
    (recvResponse s q response).allocated = s.allocated ∧
    (recvResponse s q response).held = s.held ∧
    (recvResponse s q response).accepted = s.accepted ∧
    (recvResponse s q response).served = s.served := by
  unfold recvResponse
  split <;> exact ⟨rfl, rfl, rfl, rfl⟩

def learnOf (q : Request) (response : Response) (c : Connection) : Connection :=
  if c.con = q.con then learn c response else c

@[simp] theorem learnOf_con (q : Request) (response : Response) (c : Connection) :
    (learnOf q response c).con = c.con := by
  unfold learnOf
  split <;> simp

theorem Inv.recvResponse_connections (h : Inv s) {q : Request} {rest : List Request}
    (hmodem : s.modem = q :: rest) (hconnections : t.connections = s.connections)
    (hlist : t.ctlMsg = s.ctlMsg) (response : Response) :
    (recvResponse t q response).connections = s.connections.map (learnOf q response) := by
  by_cases hnil : s.ctlMsg = []
  · rw [recvResponse_nil (hlist.trans hnil), hconnections]
    conv_lhs => rw [← List.map_id s.connections]
    refine map_congr_left fun c hc => ?_
    have hne : c.con ≠ q.con := fun heq => by
      have hopen : Open s q.con := heq ▸ List.mem_map_of_mem hc
      exact h.idle hnil q (by simp [hmodem]) hopen
    simp [learnOf, hne]
  · obtain ⟨m, rest', hm⟩ := exists_cons_of_ne_nil hnil
    obtain ⟨hone, -, -⟩ := h.busy m rest' hm
    rw [hone] at hmodem
    obtain ⟨rfl, -⟩ : m.qmi = q ∧ [] = rest := by simpa using hmodem
    obtain ⟨-, c₀, hc₀, hfd, hcon⟩ := h.msgs m (by simp [hm])
    unfold recvResponse
    rw [hlist, hm]
    simp only [hconnections]
    refine map_congr_left fun c hc => ?_
    have hiff : c.ClientFd = m.ClientFd ↔ c.con = m.qmi.con := by
      constructor
      · intro heq
        have hmem : c ∈ s.connections.filter fun d => d.ClientFd == m.ClientFd :=
          mem_filter.mpr ⟨hc, by simp [heq]⟩
        rw [h.filter_fd hc₀ hfd] at hmem
        rw [mem_singleton.mp hmem, hcon]
      · intro heq
        have hmem : c ∈ s.connections.filter fun d => d.con == c₀.con :=
          mem_filter.mpr ⟨hc, by simp [heq, hcon]⟩
        rw [filter_of_nodup h.cons hc₀] at hmem
        rw [mem_singleton.mp hmem, hfd]
    simp only [beq_iff_eq, hiff, learnOf]

section Learn

variable {q : Request} {response : Response} {p : Client}

theorem map_con_learnOf (hconnections : t.connections = s.connections.map (learnOf q response)) :
    t.connections.map Connection.con = s.connections.map Connection.con := by
  rw [hconnections, List.map_map]
  exact map_congr_left fun c _ => learnOf_con q response c

theorem Clients.grant (h : Clients s) (hq : q.con < s.accepted) (hp : p ∉ s.allocated)
    (hresponse : response = .getClientId 0 0 p)
    (hconnections : t.connections = s.connections.map (learnOf q response))
    (hallocated : t.allocated = p :: s.allocated) (hheld : t.held = (q.con, p) :: s.held)
    (haccepted : t.accepted = s.accepted) (hserved : t.served = s.served) : Clients t := by
  have hopen : ∀ k, Open t k ↔ Open s k := fun k => by
    simp only [Open, map_con_learnOf hconnections]
  have hfree : ∀ k, Open s k → (k, p) ∉ s.held := fun k hk hmem => hp (h.allocated k p hk hmem)
  have hlearn : ∀ c, c.con = q.con → (learnOf q response c).clients = c.clients ++ [p] := by
    intro c hc
    simp [learnOf, hc, hresponse, learn]
  have hother : ∀ c, c.con ≠ q.con → learnOf q response c = c := fun c hc => if_neg hc
  constructor
  case held =>
    rw [hconnections, hheld]
    intro c' hc' p'
    obtain ⟨c, hc, rfl⟩ := List.mem_map.mp hc'
    rw [learnOf_con]
    by_cases heq : c.con = q.con
    · rw [hlearn c heq, mem_append, mem_singleton, h.held c hc p']
      simp [heq, or_comm]
    · rw [hother c heq, h.held c hc p']
      simp [heq]
  case nodup =>
    rw [hconnections]
    intro c' hc'
    obtain ⟨c, hc, rfl⟩ := List.mem_map.mp hc'
    by_cases heq : c.con = q.con
    · rw [hlearn c heq]
      refine nodup_append_one (h.nodup c hc) fun hmem => ?_
      exact hfree c.con (List.mem_map_of_mem hc) ((h.held c hc p).mp hmem)
    · rw [hother c heq]
      exact h.nodup c hc
  case once =>
    rw [hheld]
    intro k p' hk
    rw [hopen] at hk
    by_cases heq : (q.con, p) = (k, p')
    · obtain ⟨rfl, rfl⟩ := Prod.mk.inj heq
      have hnone : s.held.count (q.con, p) = 0 := count_eq_zero.mpr (hfree _ hk)
      have hcons := count_cons_self (a := (q.con, p)) (l := s.held)
      omega
    · rw [count_cons_of_ne heq]
      exact h.once k p' hk
  case allocated =>
    rw [hheld, hallocated]
    intro k p' hk hmem
    rw [hopen] at hk
    rcases mem_cons.mp hmem with heq | hmem
    · obtain ⟨rfl, rfl⟩ := Prod.mk.inj heq
      exact mem_cons_self
    · exact mem_cons_of_mem _ (h.allocated k p' hk hmem)
  case owner =>
    rw [hheld]
    intro k k' p' hk hk' hmem hmem'
    rw [hopen] at hk hk'
    rcases mem_cons.mp hmem with heq | hold
    · obtain ⟨rfl, rfl⟩ := Prod.mk.inj heq
      rcases mem_cons.mp hmem' with heq' | hold'
      · exact (Prod.mk.inj heq').1.symm
      · exact absurd hold' (hfree k' hk')
    · rcases mem_cons.mp hmem' with heq' | hold'
      · obtain ⟨rfl, rfl⟩ := Prod.mk.inj heq'
        exact absurd hold (hfree k hk)
      · exact h.owner k k' p' hk hk' hold hold'
  case started =>
    rw [hheld, haccepted]
    intro x hx
    rcases mem_cons.mp hx with rfl | hx
    · exact hq
    · exact h.started x hx
  case served =>
    rw [hserved]
    exact h.served

theorem Clients.revoke (h : Clients s)
    (hok : ∀ c ∈ s.connections, c.con ≠ q.con → p ∉ c.clients)
    (hresponse : response = .releaseClientId 0 0 p)
    (hconnections : t.connections = s.connections.map (learnOf q response))
    (hallocated : t.allocated = s.allocated.erase p) (hheld : t.held = s.held.erase (q.con, p))
    (haccepted : t.accepted = s.accepted) (hserved : t.served = s.served) : Clients t := by
  have hopen : ∀ k, Open t k ↔ Open s k := fun k => by
    simp only [Open, map_con_learnOf hconnections]
  have hlearn : ∀ c, c.con = q.con → (learnOf q response c).clients = c.clients.erase p := by
    intro c hc
    simp [learnOf, hc, hresponse, learn]
  have hother : ∀ c, c.con ≠ q.con → learnOf q response c = c := fun c hc => if_neg hc
  have hsub : ∀ x ∈ t.held, x ∈ s.held := fun x hx => mem_of_mem_erase (hheld ▸ hx)
  -- The pair goes from what the connection holds.
  have hgone : Open s q.con → (q.con, p) ∉ t.held := by
    intro hk hmem
    rw [hheld, ← List.count_pos_iff, count_erase_self] at hmem
    have := h.once q.con p hk
    omega
  constructor
  case held =>
    rw [hconnections]
    intro c' hc' p'
    obtain ⟨c, hc, rfl⟩ := List.mem_map.mp hc'
    rw [learnOf_con]
    by_cases heq : c.con = q.con
    · rw [hlearn c heq, (h.nodup c hc).mem_erase_iff, h.held c hc p']
      constructor
      · rintro ⟨hne, hmem⟩
        rw [hheld, mem_erase_of_ne (by simp [hne])]
        exact hmem
      · intro hmem
        refine ⟨?_, hsub _ hmem⟩
        rintro rfl
        have hk : Open s q.con := heq ▸ List.mem_map_of_mem hc
        rw [heq] at hmem
        exact hgone hk hmem
    · rw [hother c heq, h.held c hc p', hheld, mem_erase_of_ne (by simp [heq])]
  case nodup =>
    rw [hconnections]
    intro c' hc'
    obtain ⟨c, hc, rfl⟩ := List.mem_map.mp hc'
    by_cases heq : c.con = q.con
    · rw [hlearn c heq]
      exact (h.nodup c hc).erase p
    · rw [hother c heq]
      exact h.nodup c hc
  case once =>
    rw [hheld]
    intro k p' hk
    rw [hopen] at hk
    exact Nat.le_trans (erase_sublist.count_le _) (h.once k p' hk)
  case allocated =>
    rw [hallocated]
    intro k p' hk hmem
    rw [hopen] at hk
    have hin := h.allocated k p' hk (hsub _ hmem)
    by_cases heq : p' = p
    · subst heq
      have hkq : k = q.con := by
        by_contra hne
        obtain ⟨c, hc, rfl⟩ := List.mem_map.mp hk
        exact hok c hc hne ((h.held c hc p').mpr (hsub _ hmem))
      subst hkq
      exact absurd hmem (hgone hk)
    · rwa [mem_erase_of_ne heq]
  case owner =>
    intro k k' p' hk hk' hmem hmem'
    rw [hopen] at hk hk'
    exact h.owner k k' p' hk hk' (hsub _ hmem) (hsub _ hmem')
  case started =>
    rw [haccepted]
    exact fun x hx => h.started x (hsub x hx)
  case served =>
    rw [hserved]
    exact h.served

theorem Clients.unlearned (h : Clients s) (hlearn : ∀ c, learn c response = c)
    (hconnections : t.connections = s.connections.map (learnOf q response))
    (hallocated : t.allocated = s.allocated) (hheld : t.held = s.held)
    (haccepted : t.accepted = s.accepted) (hserved : t.served = s.served) : Clients t := by
  have hsame : t.connections = s.connections := by
    rw [hconnections]
    conv_rhs => rw [← List.map_id s.connections]
    exact map_congr_left fun c _ => by simp [learnOf, hlearn]
  exact h.congr (hsame ▸ Sublist.refl _) hallocated hheld haccepted hserved

end Learn

theorem Clients.respond (h : Clients s) (hinv : Inv s) {q : Request} {rest : List Request}
    (hmodem : s.modem = q :: rest) {result error : UInt16} {ClientId : UInt8}
    {x : State × Response} (hok : result = 0 → error = 0 → ReleaseOk s)
    (hreply : reply { s with modem := rest } q result error ClientId = some x) :
    Clients (sendHead (recvResponse x.1 q x.2)) := by
  obtain ⟨allocated, held, hx⟩ := of_reply hreply
  obtain ⟨hsend, hsendAllocated, hsendHeld, hsendAccepted, hsendServed⟩ :=
    sendHead_frame (s := recvResponse x.1 q x.2)
  obtain ⟨hrecvAllocated, hrecvHeld, hrecvAccepted, hrecvServed⟩ :=
    recvResponse_frame (s := x.1) q x.2
  have hconnections : (sendHead (recvResponse x.1 q x.2)).connections =
      s.connections.map (learnOf q x.2) := by
    rw [hsend]
    exact hinv.recvResponse_connections hmodem (by rw [hx]) (by rw [hx]) x.2
  have hallocated := hsendAllocated.trans hrecvAllocated
  have hheld := hsendHeld.trans hrecvHeld
  have haccepted : (sendHead (recvResponse x.1 q x.2)).accepted = s.accepted := by
    rw [hsendAccepted, hrecvAccepted, hx]
  have hserved : (sendHead (recvResponse x.1 q x.2)).served = s.served := by
    rw [hsendServed, hrecvServed, hx]
  have hq : q.con < s.accepted := (hinv.asked q (hinv.sent q (by simp [hmodem]))).2
  unfold reply at hreply
  split at hreply
  case h_1 QMIType hctl =>
    split at hreply
    next hzero =>
      split at hreply
      next => cases hreply
      next hnew =>
        obtain rfl := some.inj hreply
        obtain ⟨rfl, rfl⟩ := hzero
        exact h.grant hq hnew rfl hconnections hallocated hheld haccepted hserved
    next hne =>
      obtain rfl := some.inj hreply
      have hlearn : ∀ c, learn c (.getClientId result error ⟨QMIType, ClientId⟩) = c :=
        fun c => if_neg hne
      exact h.unlearned hlearn hconnections hallocated hheld haccepted hserved
  case h_2 p hctl =>
    split at hreply
    next hzero =>
      obtain rfl := some.inj hreply
      obtain ⟨rfl, rfl⟩ := hzero
      have hnone : ∀ c ∈ s.connections, c.con ≠ q.con → p ∉ c.clients :=
        hok rfl rfl q (by simp [hmodem]) p (by simp [hctl, Ctl.releases])
      exact h.revoke hnone rfl hconnections hallocated hheld haccepted hserved
    next hne =>
      obtain rfl := some.inj hreply
      have hlearn : ∀ c, learn c (.releaseClientId result error p) = c := fun c => if_neg hne
      exact h.unlearned hlearn hconnections hallocated hheld haccepted hserved
  case h_3 hctl =>
    obtain rfl := some.inj hreply
    exact h.unlearned (fun c => rfl) hconnections hallocated hheld haccepted hserved

theorem clients_step {l : Label} (h : Clients s) (hinv : Inv s) (hok : ClientStep s l)
    (hstep : step s l = some t) : Clients t := by
  cases l with
  | accept fd =>
    simp only [step] at hstep
    split at hstep
    next => cases hstep
    next =>
      obtain rfl := some.inj hstep
      exact h.accept fd
  | request fd ctl =>
    simp only [step, map_eq_some_iff] at hstep
    obtain ⟨c, -, rfl⟩ := hstep
    unfold sendQmi
    split
    · exact h.congr (Sublist.refl _) rfl rfl rfl rfl
    · exact h.congr (Sublist.refl _) rfl rfl rfl rfl
  | respond result error ClientId =>
    simp only [step] at hstep
    split at hstep
    next q rest hmodem =>
      obtain ⟨x, hreply, rfl⟩ := map_eq_some_iff.mp hstep
      exact h.respond hinv hmodem hok.2 hreply
    next => cases hstep
  | indication =>
    obtain rfl : sendHead s = t := by simpa [step] using hstep
    obtain ⟨hsend, hallocated, hheld, haccepted, hserved⟩ := sendHead_frame (s := s)
    exact h.congr (hsend ▸ Sublist.refl _) hallocated hheld haccepted hserved
  | service QMIType ClientId =>
    simp only [step] at hstep
    split at hstep
    next => cases hstep
    next =>
      obtain rfl := some.inj hstep
      exact h.service hinv hok.2
  | disconnect fd =>
    simp only [step] at hstep
    split at hstep
    next =>
      obtain rfl := some.inj hstep
      exact h.congr eraseP_sublist rfl rfl rfl rfl
    next => cases hstep

/-- In every run whose steps meet `ClientStep`, client ids have one owner and frames reach it
once. -/
theorem clients_owned (h : Reaches step ClientStep init s) : Owned s := by
  have hinv : Inv s ∧ Clients s :=
    h.invariant (P := fun s => Inv s ∧ Clients s) ⟨inv_init, clients_init⟩
      fun s l t hs hok hstep => ⟨inv_step hs.1 hok.1 hstep, clients_step hs.2 hs.1 hok hstep⟩
  exact hinv.2.owned

instance (s : State) : Decidable (ReleaseOk s) :=
  inferInstanceAs (Decidable (∀ q ∈ s.modem.head?, ∀ p ∈ q.ctl.releases, ∀ c ∈ s.connections,
    c.con ≠ q.con → p ∉ c.clients))

instance (s : State) : (l : Label) → Decidable (ClientStep s l)
  | .respond result error ClientId =>
    inferInstanceAs (Decidable (InStep s (.respond result error ClientId) ∧
      (result = 0 → error = 0 → ReleaseOk s)))
  | .service QMIType ClientId =>
    inferInstanceAs (Decidable (InStep s (.service QMIType ClientId) ∧ (ClientId = 0 →
      ∀ c ∈ s.connections, (c.clients.countP fun p => QMIType == p.QMIType) ≤ 1)))
  | .accept clientfd => inferInstanceAs (Decidable (InStep s (.accept clientfd) ∧ True))
  | .request clientfd ctl => inferInstanceAs (Decidable (InStep s (.request clientfd ctl) ∧ True))
  | .indication => inferInstanceAs (Decidable (InStep s .indication ∧ True))
  | .disconnect clientfd => inferInstanceAs (Decidable (InStep s (.disconnect clientfd) ∧ True))

/-- Two clients get ids, one of them of two services; one id is released and given to the other. -/
def twoOwners : List Label :=
  [.accept 5, .accept 6, .request 5 (.getClientId 1), .request 6 (.getClientId 1),
    .respond 0 0 3, .request 5 (.getClientId 2), .respond 0 0 4, .respond 0 0 3,
    .service 1 3, .service 1 0, .service 1 9, .request 6 (.releaseClientId ⟨1, 4⟩),
    .respond 0 0 0, .request 5 (.getClientId 1), .respond 0 0 4, .service 1 4, .service 2 0]

theorem clients_owned_twoOwners :
    ∃ s, Reaches step ClientStep init s ∧ Owned s ∧
      s.connections.map (fun c => c.clients) = [[⟨1, 3⟩, ⟨2, 3⟩, ⟨1, 4⟩], []] ∧
      s.served.map (fun x => x.1) = [[0], [0, 1], [], [0], [0]] := by
  have hrun : (run (guarded step ClientStep) init twoOwners).any (fun s =>
      decide (s.connections.map (fun c => c.clients) = [[⟨1, 3⟩, ⟨2, 3⟩, ⟨1, 4⟩], []] ∧
        s.served.map (fun x => x.1) = [[0], [0, 1], [], [0], [0]])) = true := by
    decide
  obtain ⟨s, hs, hlast⟩ := exists_of_run twoOwners hrun
  exact ⟨s, hs, clients_owned hs, hlast⟩

def broadcast : List Label :=
  [.accept 5, .request 5 (.getClientId 1), .respond 0 0 3, .request 5 (.getClientId 1),
    .respond 0 0 4, .service 1 0]

def misattributed : List Label :=
  [.accept 5, .accept 6, .request 5 (.getClientId 1), .request 6 .other, .disconnect 5,
    .respond 0 0 3]

def foreign : List Label :=
  [.accept 5, .accept 6, .request 5 (.getClientId 1), .respond 0 0 3,
    .request 6 (.releaseClientId ⟨1, 3⟩), .respond 0 0 0, .request 6 (.getClientId 1),
    .respond 0 0 3]

/-- A broadcast is written twice, an id is in the list of a connection that did not ask for it,
and an id is in two lists. -/
theorem not_clients_owned :
    (¬∀ s ∈ statesOf step init broadcast, ∀ x ∈ s.served, x.1 = x.2) ∧
      (¬∀ s ∈ statesOf step init misattributed, ∀ c ∈ s.connections, ∀ p ∈ c.clients,
        (c.con, p) ∈ s.held) ∧
      ¬∀ s ∈ statesOf step init foreign, ∀ c ∈ s.connections, ∀ c' ∈ s.connections,
        c.con ≠ c'.con → ∀ p ∈ c.clients, p ∉ c'.clients := by
  refine ⟨?_, ?_, ?_⟩ <;> decide

end ModemSupport.Cm.QmiProxy
