import ModemSupport.Sipc.SmsgOpen

/-! The handshake that opens a channel, over any interleaving of the two sides.  Every record of
the channel that a side has sent is taken by the peer, in its cache, or on its way there, in the
order of sending; the first one is the open record, which the peer finds in its state or at the
head of its cache. -/

namespace ModemSupport.Sipc.SmsgOpen

open Function ModemSupport.Lib Smsg List Option

def Opener.hasSent : Opener → Bool
  | sent | notGot | loop | done | returned => true
  | idle | published | failed _ => false

def Delivery.msgs : Delivery → List Smsg
  | idle => []
  | looked msg _ | mark msg | store msg => [msg]

/-- The records of the channel that a side has taken: the open record is taken when the state or the
opener knows of it. -/
def taken (c : Config) : Opener → ChanState → List Smsg → List Smsg
  | .idle, st, _ | .published, st, _ | .sent, st, _ =>
    if st = .clientOpened then [c.openMsg] else []
  | .notGot, _, _ | .loop, _, _ | .failed _, _, _ => []
  | .done, _, _ => [c.openMsg]
  | .returned, _, received => c.openMsg :: received

def cached : Option Channel → List Smsg
  | none => []
  | some ch => ch.queued

namespace Side

variable (c : Config)

/-- The records of the channel that the side has sent, in order. -/
def stream (a : Side) : List Smsg :=
  (if a.opener.hasSent then [c.openMsg] else []) ++ a.sentAfter

def inflow (a : Side) : List Smsg :=
  taken c a.opener (a.state c) a.received ++ cached (a.channel c) ++
    (a.delivery.msgs ++ a.rx.filter c.owns)

end Side

/-- What the opener has made of the channel and its state. -/
def Shape : Opener → Option Channel → ChanState → Prop
  | .idle, ch, st => ch = none ∧ (st = .unused ∨ st = .clientOpened)
  | .published, ch, st => ch ≠ none ∧ (st = .unused ∨ st = .clientOpened)
  | .sent, ch, st => ch ≠ none ∧ (st = .unused ∨ st = .clientOpened)
  | .notGot, ch, st => ch ≠ none ∧ st = .unused
  | .loop, ch, st => ch ≠ none ∧ st = .hostOpened
  | .done, ch, st => ch ≠ none ∧ (st = .clientOpened ∨ st = .hostOpened)
  | .returned, ch, st => ch ≠ none ∧ st = .opened
  | .failed _, _, _ => False

/-- What the handler relies on between two of its steps. -/
def DeliveryOk (c : Config) (o : Opener) (ch : Option Channel) (st : ChanState) : Delivery → Prop
  | .idle => True
  | .looked _ found => found = ch.isSome
  | .mark msg => o = .idle ∧ st = .unused ∧ msg = c.openMsg
  | .store _ => ∃ ch', ch = some ch' ∧ Ring.fill ch'.rdptr ch'.wrptr < cacheNr

structure SideInv (c : Config) (a : Side) : Prop where
  shape : Shape a.opener (a.channel c) (a.state c)
  fill : ∀ ch, a.channel c = some ch → Ring.fill ch.rdptr ch.wrptr ≤ cacheNr
  delivery : DeliveryOk c a.opener (a.channel c) (a.state c) a.delivery
  dropped : a.dropped = []
  valid : ∀ msg ∈ a.sentAfter, ¬typeNr ≤ msg.type
  after : a.opener ≠ .returned → a.sentAfter = [] ∧ a.received = []

/-- Two sides: nothing that one has sent is lost to the other. -/
structure PairInv (c : Config) (a b : Side) : Prop where
  left : SideInv c a
  right : SideInv c b
  toLeft : a.inflow c = b.stream c
  toRight : b.inflow c = a.stream c

def Inv (c : Config) (s : State) : Prop := ∀ p, PairInv c (s p) (s p.peer)

theorem PairInv.symm {c : Config} {a b : Side} (h : PairInv c a b) : PairInv c b a :=
  ⟨h.right, h.left, h.toRight, h.toLeft⟩

def Delivery.found : Delivery → Bool
  | looked _ found => found
  | _ => false

/-- The opener does not publish the channel while a record of it is being dispatched, no record
finds the receive cache full, and no record of an invalid type is sent. -/
def Quiet (c : Config) (s : State) (l : Party × Act) : Prop :=
  match l.2 with
  | .opener => (s l.1).opener = .idle → (s l.1).delivery = .idle
  | .deliver => (s l.1).delivery.found = true → ((s l.1).channel c).any Channel.isFull = false
  | .send msg => c.owns msg = true → msg.type < typeNr
  | _ => True

instance (c : Config) (s : State) (l : Party × Act) : Decidable (Quiet c s l) :=
  match l with
  | (p, .opener) => inferInstanceAs (Decidable ((s p).opener = .idle → (s p).delivery = .idle))
  | (p, .deliver) => inferInstanceAs
      (Decidable ((s p).delivery.found = true → ((s p).channel c).any Channel.isFull = false))
  | (_, .send msg) => inferInstanceAs (Decidable (c.owns msg = true → msg.type < typeNr))
  | (_, .recv) => inferInstanceAs (Decidable True)
  | (_, .other _) => inferInstanceAs (Decidable True)

section

variable {c : Config} {a b a' b' : Side} {msg : Smsg} {ch : Channel}

theorem SideInv.isSome (h : SideInv c a) (ho : a.opener ≠ .idle) :
    ∃ ch, a.channel c = some ch := by
  have hshape := h.shape
  cases hch : a.channel c with
  | some ch => exact ⟨ch, rfl⟩
  | none =>
    cases ho' : a.opener <;> simp [ho', hch, Shape] at hshape ho

theorem SideInv.state_ne_free (h : SideInv c a) : a.state c ≠ .free := by
  intro hfree
  have hshape := h.shape
  cases ho : a.opener <;> simp [ho, hfree, Shape] at hshape

theorem SideInv.stream_head (h : SideInv c b) {l : List Smsg} (he : msg :: l = b.stream c) :
    msg = c.openMsg := by
  unfold Side.stream at he
  cases hs : b.opener.hasSent with
  | true =>
    rw [hs] at he
    exact (List.cons.inj he).1
  | false =>
    have hnone := (h.after (by rintro ho; simp [ho, Opener.hasSent] at hs)).1
    simp [hs, hnone] at he

theorem PairInv.stream_valid (h : PairInv c a b) (hmem : msg ∈ b.stream c) :
    ¬typeNr ≤ msg.type := by
  unfold Side.stream at hmem
  rcases mem_append.mp hmem with hopen | hafter
  · obtain rfl : msg = c.openMsg := by
      split at hopen
      · exact mem_singleton.mp hopen
      · cases hopen
    exact fun hle => absurd hle (by decide : ¬typeNr ≤ typeOpen)
  · exact h.right.valid msg hafter

theorem PairInv.stream_of_idle (h : PairInv c a b) (ho : a.opener = .idle) :
    b.sentAfter = [] := by
  have hnone : a.stream c = [] := by
    have := (h.left.after (by simp [ho])).1
    simp [Side.stream, ho, Opener.hasSent, this]
  by_cases hb : b.opener = .returned
  · have hflow := h.toRight
    rw [hnone] at hflow
    simp [Side.inflow, taken, hb] at hflow
  · exact (h.right.after hb).1

theorem PairInv.first_of_idle (h : PairInv c a b) (ho : a.opener = .idle) {l : List Smsg}
    (hpending : a.delivery.msgs ++ a.rx.filter c.owns = msg :: l) :
    msg = c.openMsg ∧ a.state c = .unused := by
  have hflow := h.toLeft
  have hshape := h.left.shape
  rw [ho] at hshape
  have hcached : cached (a.channel c) = [] := by rw [hshape.1]; rfl
  rw [Side.inflow, hcached, hpending, append_nil, Side.stream, h.stream_of_idle ho,
    append_nil, ho] at hflow
  rcases hshape.2 with hst | hst
  · refine ⟨?_, hst⟩
    simp only [taken, hst, reduceCtorEq, if_false, nil_append] at hflow
    cases hs : b.opener.hasSent <;> simp [hs] at hflow
    exact hflow.1
  · cases hs : b.opener.hasSent <;> simp [taken, hst, hs] at hflow

theorem PairInv.of_kept (h : PairInv c a b) (hside : SideInv c a')
    (hin : a'.inflow c = a.inflow c) (hout : a'.stream c = a.stream c) : PairInv c a' b :=
  ⟨hside, h.right, hin.trans h.toLeft, h.toRight.trans hout.symm⟩

theorem smsgSend_ok {ipc : SmsgIpc} {ring rx : List Smsg} (h : smsgSend ipc ring msg = .ok rx) :
    rx = ring ++ [msg] := by
  simp only [smsgSend] at h
  split at h
  · cases h
  · split at h
    · cases h
    · split at h
      · cases h
      · exact (Except.ok.inj h).symm

theorem smsgRecv_ok {ipc : SmsgIpc} (h : smsgRecv a.ipc c.channel = some (.ok (msg, ipc))) :
    ∃ ch, a.channel c = some ch ∧ ch.isEmpty = false ∧ msg = ch.front ∧
      ipc = a.ipc.setChannel c.chIndex (some ch.pop) := by
  simp only [smsgRecv] at h
  split at h
  · cases h
  · split at h
    · cases h
    next ch hch =>
      split at h
      · cases h
      · cases hempty : ch.isEmpty with
        | true => simp [hempty] at h
        | false =>
          simp only [hempty, Bool.false_eq_true, if_false, some.injEq, Except.ok.injEq,
            Prod.mk.injEq] at h
          exact ⟨ch, hch, hempty, h.1.symm, h.2.symm⟩

theorem smsgSend_openMsg (hch : a.channel c = some ch) (ring : List Smsg) :
    smsgSend a.ipc ring c.openMsg = .ok (ring ++ [c.openMsg]) := by
  have hch' : a.ipc.channels (channel2index c.openMsg.channel) = some ch := hch
  have htype : c.openMsg.type = typeOpen := rfl
  have hconf : channel2index c.openMsg.channel ≠ invalidChanelIndex := c.configured
  unfold smsgSend
  simp [hconf, hch', htype]

theorem smsgRecv_ne_error (hch : a.channel c = some ch) (hfree : a.state c ≠ .free) (err : Errno) :
    smsgRecv a.ipc c.channel ≠ some (.error err) := by
  have hch' : a.ipc.channels (channel2index c.channel) = some ch := hch
  have hstate : a.ipc.states (channel2index c.channel) ≠ .free := hfree
  unfold smsgRecv
  rw [if_neg c.configured, hch']
  simp only [if_neg hstate]
  split <;> simp

theorem DeliveryOk.of_ne_idle {o o' : Opener} {st st' : ChanState} {och : Option Channel}
    {d : Delivery} (h : DeliveryOk c o och st d) (ho : o ≠ .idle) : DeliveryOk c o' och st' d := by
  cases d with
  | idle => trivial
  | looked msg found => exact h
  | mark msg => exact absurd h.1 ho
  | store msg => exact h

theorem DeliveryOk.pop {o o' : Opener} {st : ChanState} {d : Delivery}
    (h : DeliveryOk c o (some ch) st d) (ho : o ≠ .idle) (hempty : ch.isEmpty = false) :
    DeliveryOk c o' (some ch.pop) st d := by
  cases d with
  | idle => trivial
  | looked msg found => exact h
  | mark msg => exact absurd h.1 ho
  | store msg =>
    obtain ⟨ch', hch, hroom⟩ := h
    obtain rfl := some.inj hch
    have hpop := Ring.fill_pop (Channel.rdptr_ne hempty)
    refine ⟨_, rfl, ?_⟩
    simp only [Channel.pop]
    omega

theorem PairInv.front_of_loop (h : PairInv c a b) (ho : a.opener = .loop)
    (hch : a.channel c = some ch) (hempty : ch.isEmpty = false) : ch.front = c.openMsg := by
  have hflow := h.toLeft
  rw [Side.inflow, ho, hch] at hflow
  simp only [taken, cached, Channel.queued_of_not_isEmpty hempty, nil_append,
    cons_append] at hflow
  exact h.right.stream_head hflow

theorem opener_inv (h : PairInv c a b) (hquiet : a.opener = .idle → a.delivery = .idle)
    (hmove : Move c a b .opener a' b') : PairInv c a' b' := by
  obtain ⟨hshape, hfill, hdelivery, hdropped, hvalid, hafter⟩ := h.left
  have hnone : a.opener ≠ .returned → a.sentAfter = [] := fun ho => (hafter ho).1
  cases hmove with
  | publish ho =>
    rw [ho] at hshape
    have hchannel : update a.ipc.channels c.chIndex (some Channel.zero) c.chIndex = some .zero :=
      update_self ..
    refine h.of_kept ⟨⟨?_, hshape.2⟩, ?_, ?_, hdropped, hvalid, fun _ => hafter (by simp [ho])⟩
      ?_ ?_
    · intro he
      exact some_ne_none _ (hchannel.symm.trans he)
    · intro ch hch
      obtain rfl := some.inj (hchannel.symm.trans hch)
      exact Nat.zero_le _
    · simp only [hquiet ho]
      trivial
    · have hcached : cached (a.channel c) = [] := by rw [hshape.1]; rfl
      have hcached' : cached (update a.ipc.channels c.chIndex (some Channel.zero) c.chIndex) =
          [] := by
        rw [hchannel]
        exact Channel.zero_queued
      simp only [Side.inflow, ho, hcached]
      exact congrArg (taken c .idle (a.state c) a.received ++ · ++ _) hcached'
    · simp [Side.stream, ho, Opener.hasSent]
  | sendOpen ho hsend =>
    rw [ho] at hshape
    have hne : a.opener ≠ .idle := by simp [ho]
    obtain rfl := smsgSend_ok hsend
    have hown : c.owns c.openMsg = true := by simp [Config.owns, Config.openMsg, Config.chIndex]
    refine ⟨⟨hshape, hfill, hdelivery.of_ne_idle hne, hdropped, hvalid,
      fun _ => hafter (by simp [ho])⟩, ⟨h.right.shape, h.right.fill, h.right.delivery,
      h.right.dropped, h.right.valid, h.right.after⟩, ?_, ?_⟩
    · have hin := h.toLeft
      rw [Side.inflow, ho] at hin
      exact hin
    · have hout := h.toRight
      simp only [Side.stream, ho, Opener.hasSent, hnone (by simp [ho])] at hout
      simp only [Side.stream, Opener.hasSent, hnone (by simp [ho])]
      calc Side.inflow c { b with rx := b.rx ++ [c.openMsg] }
          = b.inflow c ++ [c.openMsg] := by simp [Side.inflow, hown]; rfl
        _ = [c.openMsg] := by rw [hout]; rfl
  | sendFail ho hsend =>
    obtain ⟨ch, hch⟩ := h.left.isSome (by simp [ho])
    rw [smsgSend_openMsg hch] at hsend
    cases hsend
  | gotBefore ho hstate =>
    rw [ho] at hshape
    refine h.of_kept ⟨⟨hshape.1, .inl hstate⟩, hfill, hdelivery.of_ne_idle (by simp [ho]), hdropped,
      hvalid, fun _ => hafter (by simp [ho])⟩ ?_ ?_
    · have htaken : taken c a.opener (a.state c) a.received = [c.openMsg] := by
        simp [taken, ho, hstate]
      rw [Side.inflow, Side.inflow, htaken]
      rfl
    · simp [Side.stream, ho, Opener.hasSent]
  | notGot ho hstate =>
    rw [ho] at hshape
    refine h.of_kept ⟨⟨hshape.1, hshape.2.resolve_right hstate⟩, hfill,
      hdelivery.of_ne_idle (by simp [ho]), hdropped, hvalid, fun _ => hafter (by simp [ho])⟩ ?_ ?_
    · have htaken : taken c a.opener (a.state c) a.received = [] := by simp [taken, ho, hstate]
      rw [Side.inflow, Side.inflow, htaken]
      rfl
    · simp [Side.stream, ho, Opener.hasSent]
  | hostOpen ho =>
    rw [ho] at hshape
    have hstate : update a.ipc.states c.chIndex ChanState.hostOpened c.chIndex = .hostOpened :=
      update_self ..
    refine h.of_kept ⟨⟨hshape.1, hstate⟩, hfill, hdelivery.of_ne_idle (by simp [ho]), hdropped,
      hvalid, fun _ => hafter (by simp [ho])⟩ ?_ ?_
    · rw [Side.inflow, Side.inflow, ho]
      rfl
    · simp [Side.stream, ho, Opener.hasSent]
  | recvOpen ho hrecv hopen =>
    rw [ho] at hshape
    obtain ⟨ch, hch, hempty, rfl, rfl⟩ := smsgRecv_ok hrecv
    have hchannel : update a.ipc.channels c.chIndex (some ch.pop) c.chIndex = some ch.pop :=
      update_self ..
    rw [hch] at hdelivery
    refine h.of_kept ⟨⟨?_, .inr hshape.2⟩, ?_, ?_, hdropped, hvalid,
      fun _ => hafter (by simp [ho])⟩ ?_ ?_
    · intro he
      exact some_ne_none _ (hchannel.symm.trans he)
    · intro ch' hch'
      obtain rfl := some.inj (hchannel.symm.trans hch')
      exact Channel.pop_fill hempty (hfill ch hch)
    · have hpop : DeliveryOk c .done (some ch.pop) (a.state c) a.delivery :=
        hdelivery.pop (by simp [ho]) hempty
      rwa [← hchannel] at hpop
    · have hfront := h.front_of_loop ho hch hempty
      have hqueued := Channel.queued_of_not_isEmpty hempty
      rw [hfront] at hqueued
      simp only [Side.inflow, ho, hch, taken, cached, hqueued]
      exact congrArg (fun q => [c.openMsg] ++ cached q ++ _) hchannel
    · simp [Side.stream, ho, Opener.hasSent]
  | recvOther ho hrecv hopen =>
    obtain ⟨ch, hch, hempty, rfl, rfl⟩ := smsgRecv_ok hrecv
    rw [h.front_of_loop ho hch hempty] at hopen
    cases hopen
  | recvFail ho hrecv =>
    obtain ⟨ch, hch⟩ := h.left.isSome (by simp [ho])
    exact absurd hrecv (smsgRecv_ne_error hch h.left.state_ne_free _)
  | finish ho =>
    rw [ho] at hshape
    have hstate : update a.ipc.states c.chIndex ChanState.opened c.chIndex = .opened :=
      update_self ..
    have hnew := hafter (by simp [ho])
    refine h.of_kept ⟨⟨hshape.1, hstate⟩, hfill, hdelivery.of_ne_idle (by simp [ho]), hdropped,
      hvalid, fun _ => hnew⟩ ?_ ?_
    · rw [Side.inflow, Side.inflow, ho]
      simp only [hnew.2]
      rfl
    · simp [Side.stream, ho, Opener.hasSent]

theorem PairInv.of_agree (h : PairInv c a b) {ipc : SmsgIpc} {rx : List Smsg}
    (hagree : SmsgIpc.Agree ipc a.ipc c.chIndex)
    (hrx : rx.filter c.owns = a.rx.filter c.owns) :
    PairInv c { a with ipc := ipc, rx := rx } b := by
  obtain ⟨hshape, hfill, hdelivery, hdropped, hvalid, hafter⟩ := h.left
  obtain ⟨_, hch, hst⟩ := hagree
  have hch' : Side.channel c { a with ipc := ipc, rx := rx } = a.channel c := hch
  have hst' : Side.state c { a with ipc := ipc, rx := rx } = a.state c := hst
  refine h.of_kept ⟨?_, ?_, ?_, hdropped, hvalid, hafter⟩ ?_ rfl
  · rwa [hch', hst']
  · rwa [hch']
  · rwa [hch', hst']
  · rw [Side.inflow, hch', hst', hrx]
    rfl

theorem deliver_inv (h : PairInv c a b)
    (hquiet : a.delivery.found = true → (a.channel c).any Channel.isFull = false)
    (hmove : Move c a b .deliver a' b') : PairInv c a' b' := by
  obtain ⟨hshape, hfill, hdelivery, hdropped, hvalid, hafter⟩ := h.left
  have hidle : ∀ msg, a.delivery = .looked msg false → a.opener = .idle := by
    intro msg hd
    rw [hd] at hdelivery
    by_contra ho
    obtain ⟨ch, hch⟩ := h.left.isSome ho
    rw [hch] at hdelivery
    cases hdelivery
  cases hmove with
  | @invalid msg rx hd hrx hown htype =>
    have hmem : msg ∈ a.inflow c := by simp [Side.inflow, hrx, hown]
    rw [h.toLeft] at hmem
    exact absurd htype (h.stream_valid hmem)
  | look hd hrx hown htype =>
    refine h.of_kept ⟨hshape, hfill, rfl, hdropped, hvalid, hafter⟩ ?_ rfl
    simp only [Side.inflow, hd, hrx, Delivery.msgs, filter_cons, hown, if_true]
    rfl
  | @pass msg rx ipc hd hrx hown hprocess =>
    have hne : c.chIndex ≠ channel2index msg.channel := by
      intro he
      simp [Config.owns, ← he] at hown
    exact h.of_agree (smsgMsgProcess_agree hprocess hne) (by simp [hrx, hown])
  | @accept msg hd hstate hopen =>
    have ho := hidle msg hd
    have hfirst := h.first_of_idle ho (l := a.rx.filter c.owns) (by rw [hd]; rfl)
    refine h.of_kept ⟨hshape, hfill, ⟨ho, hstate, hfirst.1⟩, hdropped, hvalid, hafter⟩ ?_ rfl
    simp only [Side.inflow, hd]
    rfl
  | @dropUnopened msg hd hdrop =>
    have ho := hidle msg hd
    obtain ⟨rfl, hst⟩ := h.first_of_idle ho (l := a.rx.filter c.owns) (by rw [hd]; rfl)
    exact absurd ⟨hst, rfl⟩ hdrop
  | dropDetached hd hch =>
    rcases hd with hd | hd
    · rw [hd, hch] at hdelivery
      cases hdelivery
    · rw [hd, hch] at hdelivery
      obtain ⟨ch, hnone, _⟩ := hdelivery
      cases hnone
  | dropFull hd hch hfull =>
    have hroom := hquiet (by rw [hd]; rfl)
    rw [hch, any_some, hfull] at hroom
    cases hroom
  | room hd hch hfull =>
    refine h.of_kept ⟨hshape, hfill, ⟨_, hch, Channel.fill_of_not_isFull (hfill _ hch) hfull⟩,
      hdropped, hvalid, hafter⟩ ?_ rfl
    simp only [Side.inflow, hd]
    rfl
  | mark hd =>
    rw [hd] at hdelivery
    obtain ⟨ho, hst, rfl⟩ := hdelivery
    rw [ho] at hshape
    have hstate : update a.ipc.states c.chIndex ChanState.clientOpened c.chIndex = .clientOpened :=
      update_self ..
    refine h.of_kept ⟨?_, hfill, trivial, hdropped, hvalid, hafter⟩ ?_ rfl
    · simp only [Side.exitMsgProc, ho]
      exact ⟨hshape.1, .inr hstate⟩
    · have hnone : cached (a.channel c) = [] := by rw [hshape.1]; rfl
      calc _ = taken c a.opener (update a.ipc.states c.chIndex ChanState.clientOpened c.chIndex)
              a.received ++ cached (a.channel c) ++ ([] ++ a.rx.filter c.owns) := rfl
        _ = a.inflow c := by simp [Side.inflow, hnone, ho, hst, hd, taken, Delivery.msgs]
  | @store msg ch hd hch =>
    rw [hd] at hdelivery
    obtain ⟨ch', hch', hroom⟩ := hdelivery
    obtain rfl := some.inj (hch.symm.trans hch')
    have hchannel : update a.ipc.channels c.chIndex (some (ch.push msg)) c.chIndex =
        some (ch.push msg) := update_self ..
    have hne : a.opener ≠ .idle := by
      intro ho
      rw [ho, hch] at hshape
      exact some_ne_none _ hshape.1
    refine h.of_kept ⟨?_, ?_, trivial, hdropped, hvalid, hafter⟩ ?_ rfl
    · have hshape' : Shape a.opener (some (ch.push msg)) (a.state c) := by
        rw [hch] at hshape
        cases ho : a.opener <;> simp_all [Shape]
      rwa [← hchannel] at hshape'
    · intro ch' hch'
      obtain rfl := some.inj (hchannel.symm.trans hch')
      exact Channel.push_fill hroom
    · calc _ = taken c a.opener (a.state c) a.received ++
              cached (update a.ipc.channels c.chIndex (some (ch.push msg)) c.chIndex) ++
              ([] ++ a.rx.filter c.owns) := rfl
        _ = a.inflow c := by
          simp [Side.inflow, hch, hd, cached, Channel.push_queued hroom, Delivery.msgs]

theorem send_inv (h : PairInv c a b) (hquiet : c.owns msg = true → msg.type < typeNr)
    (hmove : Move c a b (.send msg) a' b') : PairInv c a' b' := by
  obtain ⟨hshape, hfill, hdelivery, hdropped, hvalid, hafter⟩ := h.left
  cases hmove with
  | send hsend hown ho =>
    obtain rfl := smsgSend_ok hsend
    have htype : ¬typeNr ≤ msg.type := UInt8.not_le.mpr (hquiet hown)
    refine ⟨⟨hshape, hfill, hdelivery, hdropped, ?_, fun hne => absurd ho hne⟩,
      ⟨h.right.shape, h.right.fill, h.right.delivery, h.right.dropped, h.right.valid,
        h.right.after⟩, h.toLeft, ?_⟩
    · intro m hm
      rcases mem_append.mp hm with hm | hm
      · exact hvalid m hm
      · rwa [mem_singleton.mp hm]
    · calc Side.inflow c { b with rx := b.rx ++ [msg] }
          = b.inflow c ++ [msg] := by simp [Side.inflow, hown]; rfl
        _ = a.stream c ++ [msg] := by rw [h.toRight]
        _ = Side.stream c { a with sentAfter := a.sentAfter ++ [msg] } := by simp [Side.stream]
  | sendOther hsend hown =>
    obtain rfl := smsgSend_ok hsend
    have hagree : SmsgIpc.Agree b.ipc b.ipc c.chIndex := ⟨rfl, rfl, rfl⟩
    exact (h.symm.of_agree hagree (by simp [hown])).symm

theorem recv_inv (h : PairInv c a b) (hmove : Move c a b .recv a' b') : PairInv c a' b' := by
  obtain ⟨hshape, hfill, hdelivery, hdropped, hvalid, hafter⟩ := h.left
  cases hmove with
  | recv ho hrecv =>
    obtain ⟨ch, hch, hempty, rfl, rfl⟩ := smsgRecv_ok hrecv
    have hchannel : update a.ipc.channels c.chIndex (some ch.pop) c.chIndex = some ch.pop :=
      update_self ..
    rw [ho] at hshape
    rw [hch] at hdelivery
    refine h.of_kept ⟨?_, ?_, ?_, hdropped, hvalid, fun hne => absurd ho hne⟩ ?_ rfl
    · simp only [ho]
      refine ⟨?_, hshape.2⟩
      intro he
      exact some_ne_none _ (hchannel.symm.trans he)
    · intro ch' hch'
      obtain rfl := some.inj (hchannel.symm.trans hch')
      exact Channel.pop_fill hempty (hfill ch hch)
    · have hpop : DeliveryOk c a.opener (some ch.pop) (a.state c) a.delivery :=
        hdelivery.pop (by simp [ho]) hempty
      rwa [← hchannel] at hpop
    · calc _ = taken c a.opener (a.state c) (a.received ++ [ch.front]) ++
              cached (update a.ipc.channels c.chIndex (some ch.pop) c.chIndex) ++
              (a.delivery.msgs ++ a.rx.filter c.owns) := rfl
        _ = a.inflow c := by
          simp [Side.inflow, ho, hch, cached, taken, Channel.queued_of_not_isEmpty hempty]

theorem other_inv (h : PairInv c a b) {ipc : SmsgIpc} (hmove : Move c a b (.other ipc) a' b') :
    PairInv c a' b' := by
  cases hmove with
  | other hagree => exact h.of_agree hagree rfl

theorem act_inv (h : PairInv c a b) {s : State} {p : Party} {l : Act} (ha : s p = a)
    (hquiet : Quiet c s (p, l)) (hact : act c a b l = some (a', b')) : PairInv c a' b' := by
  have hmove := act_move hact
  subst ha
  cases l with
  | opener => exact opener_inv h hquiet hmove
  | deliver => exact deliver_inv h hquiet hmove
  | send msg => exact send_inv h hquiet hmove
  | recv => exact recv_inv h hmove
  | other ipc => exact other_inv h hmove

end

theorem inv_step {c : Config} {s t : State} {l : Party × Act} (h : Inv c s) (hquiet : Quiet c s l)
    (hstep : step c s l = some t) : Inv c t := by
  obtain ⟨p, l⟩ := l
  obtain ⟨⟨a, b⟩, hact, rfl⟩ := map_eq_some_iff.mp hstep
  have hpair := act_inv (h p) rfl hquiet hact
  intro q
  rcases Party.eq_or_eq_peer p q with rfl | rfl
  · simpa [update_of_ne] using hpair
  · simpa [update_of_ne] using hpair.symm

theorem inv_init {c : Config} {s : State} (hfresh : ∀ p, (s p).Fresh c) : Inv c s := by
  have hside : ∀ p, SideInv c (s p) := by
    intro p
    obtain ⟨hrx, hd, ho, hdropped, hsent, hreceived, hch, hst⟩ := hfresh p
    refine ⟨?_, ?_, ?_, hdropped, ?_, fun _ => ⟨hsent, hreceived⟩⟩
    · rw [ho]
      exact ⟨hch, .inl hst⟩
    · intro ch hch'
      rw [hch] at hch'
      cases hch'
    · rw [hd]
      trivial
    · simp [hsent]
  have hflow : ∀ p, (s p).inflow c = [] := by
    intro p
    obtain ⟨hrx, hd, ho, hdropped, hsent, hreceived, hch, hst⟩ := hfresh p
    simp [Side.inflow, hrx, hd, ho, hch, hst, taken, cached, Delivery.msgs]
  have hstream : ∀ p, (s p).stream c = [] := by
    intro p
    simp [Side.stream, (hfresh p).opener, Opener.hasSent, (hfresh p).sentAfter]
  exact fun p => ⟨hside p, hside p.peer, (hflow p).trans (hstream _).symm,
    (hflow p.peer).trans (hstream p).symm⟩

def Side.queued (c : Config) (a : Side) : List Smsg :=
  cached (a.channel c) ++ (a.delivery.msgs ++ a.rx.filter c.owns)

structure Handshake (c : Config) (s : State) : Prop where
  dropped : ∀ p, (s p).dropped = []
  succeeds : ∀ p err, (s p).opener ≠ .failed err
  opened : (∀ p, (s p).opener = .returned) → ∀ p, (s p).state c = .opened
  noLeftover : (∀ p, (s p).opener = .returned) →
    ∀ p, (∀ msg ∈ (s p.peer).sentAfter, msg.isOpen = false) →
      ∀ msg ∈ cached ((s p).channel c), msg.isOpen = false
  inOrder : (∀ p, (s p).opener = .returned) →
    ∀ p, (s p).received ++ (s p).queued c = (s p.peer).sentAfter

theorem Inv.inOrder {c : Config} {s : State} (h : Inv c s)
    (hreturned : ∀ p, (s p).opener = .returned) (p : Party) :
    (s p).received ++ (s p).queued c = (s p.peer).sentAfter := by
  have hflow := (h p).toLeft
  simp only [Side.inflow, Side.stream, hreturned, taken, Opener.hasSent, if_true] at hflow
  simpa [Side.queued] using hflow

theorem Inv.handshake {c : Config} {s : State} (h : Inv c s) : Handshake c s where
  dropped p := (h p).left.dropped
  succeeds p err ho := by
    have hshape := (h p).left.shape
    rw [ho] at hshape
    exact hshape
  opened hreturned p := by
    have hshape := (h p).left.shape
    rw [hreturned p] at hshape
    exact hshape.2
  noLeftover hreturned p hplain msg hmsg := by
    have hflow := h.inOrder hreturned p
    refine hplain msg ?_
    rw [← hflow]
    exact mem_append_right _ (mem_append_left _ hmsg)
  inOrder hreturned := h.inOrder hreturned

theorem handshake_of_quiet {c : Config} {s₀ s : State} (hfresh : ∀ p, (s₀ p).Fresh c)
    (h : Transition.Reaches (step c) (Quiet c) s₀ s) : Handshake c s :=
  (h.invariant (inv_init hfresh) fun _ _ _ hinv hquiet hstep =>
    inv_step hinv hquiet hstep).handshake

def pipe : Config := ⟨4, false, by decide⟩

def unopened : State := fun _ =>
  ⟨⟨fun _ => 0, fun _ => none, fun _ => .unused⟩, [], .idle, .idle, [], [], []⟩

/-- The host opens first; the client finds its state `CHAN_STATE_CLIENT_OPENED`, and the host the
open record in its cache. -/
def openRun : List (Party × Act) :=
  replicate 4 (.host, .opener) ++ replicate 3 (.client, .deliver) ++
    replicate 4 (.client, .opener) ++ replicate 3 (.host, .deliver) ++
    replicate 2 (.host, .opener)

theorem unopened_fresh (p : Party) : (unopened p).Fresh pipe := by
  constructor <;> rfl

/-- Both calls of the run return. -/
theorem handshake_openRun :
    ∃ s, (∀ p, (s p).opener = .returned) ∧ Handshake pipe s := by
  have hrun : ((Transition.run (Transition.guarded (step pipe) (Quiet pipe)) unopened openRun).any
      fun s => decide ((s .host).opener = .returned ∧ (s .client).opener = .returned)) = true := by
    decide
  obtain ⟨s, hreaches, hhost, hclient⟩ := Transition.exists_of_run openRun hrun
  exact ⟨s, fun p => by cases p <;> assumption, handshake_of_quiet unopened_fresh hreaches⟩

/-- The open record of the host is dispatched on the client while the client opens: the dispatch
finds no channel, and then a state that is no longer `CHAN_STATE_UNUSED`. -/
def overlapRun : List (Party × Act) :=
  replicate 2 (.host, .opener) ++ [(.client, .deliver)] ++
    replicate 4 (.client, .opener) ++
    [(.client, .deliver)]

def sendRun (msg : Smsg) (n : Nat) : List (Party × Act) :=
  (replicate n
    [(.client, .send msg), (.host, .deliver), (.host, .deliver), (.host, .deliver)]).flatten

/-- A record on the host is not queued for `smsg_recv` although both calls have returned. -/
def Lost (c : Config) (s : State) : Prop :=
  ((s .host).opener = .returned ∧ (s .client).opener = .returned) ∧
    (s .host).received ++ (s .host).queued c ≠ (s .client).sentAfter

instance (c : Config) (s : State) : Decidable (Lost c s) := instDecidableAnd

/-- Without the conditions the handshake fails: when a dispatch overlaps the open, the open record
is dropped; of 257 records sent before the first `smsg_recv` the last one is dropped; and so is a
record whose type is not below `SMSG_TYPE_NR`. -/
theorem not_handshake_pipe :
    (∃ s, Transition.Reachable (step pipe) unopened s ∧ pipe.openMsg ∈ (s .client).dropped) ∧
    (∃ s, Transition.Reachable (step pipe) unopened s ∧ Lost pipe s ∧
      (s .client).sentAfter = replicate 257 ⟨4, 3, 0, 0⟩) ∧
    (∃ s, Transition.Reachable (step pipe) unopened s ∧ Lost pipe s ∧
      (s .client).sentAfter = [⟨4, typeNr, 0, 0⟩]) := by
  have hoverlap : ((Transition.run (Transition.guarded (step pipe) fun _ _ => True) unopened
      overlapRun).any fun s => decide (pipe.openMsg ∈ (s .client).dropped)) = true := by
    decide
  have hfull : ((Transition.run (Transition.guarded (step pipe) fun _ _ => True) unopened
      (openRun ++ sendRun ⟨4, 3, 0, 0⟩ 256 ++
        [(.client, .send ⟨4, 3, 0, 0⟩), (.host, .deliver), (.host, .deliver)])).any fun s =>
      decide (Lost pipe s ∧ (s .client).sentAfter = replicate 257 ⟨4, 3, 0, 0⟩)) = true := by
    decide +kernel
  have hinvalid : ((Transition.run (Transition.guarded (step pipe) fun _ _ => True) unopened
      (openRun ++ [(.client, .send ⟨4, typeNr, 0, 0⟩), (.host, .deliver)])).any fun s =>
      decide (Lost pipe s ∧ (s .client).sentAfter = [⟨4, typeNr, 0, 0⟩])) = true := by
    decide
  exact ⟨Transition.exists_of_run _ hoverlap, Transition.exists_of_run _ hfull,
    Transition.exists_of_run _ hinvalid⟩

end ModemSupport.Sipc.SmsgOpen
