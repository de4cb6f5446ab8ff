import ModemSupport.Lib.Transition
import ModemSupport.Sipc.Smsg

/-! The opening of a channel by two peers (`smsg_ch_open` on both sides, without a timeout).  On
each side the opener, the interrupt handler that dispatches the records of the peer, and the tasks
of other channels run in any order; a step reads or writes one of the entries that they share.
The rings are reliable and in order, and no signal ends a wait. -/

namespace ModemSupport.Sipc.SmsgOpen

open Function ModemSupport.Lib Smsg

/-- A configured channel, and the parameter `debug_enable`. -/
structure Config where
  channel : UInt8
  debugEnable : Bool
  configured : channel2index channel ≠ invalidChanelIndex

namespace Config

def chIndex (c : Config) : Nat := channel2index c.channel

def owns (c : Config) (msg : Smsg) : Bool := channel2index msg.channel == c.chIndex

def openMsg (c : Config) : Smsg := ⟨c.channel, typeOpen, openMagic, 0⟩

end Config

/-- Where `smsg_msg_process` stands with a record of the channel: it has read `channels[ch_index]`,
or is about to write the state, or is about to write the cache. -/
inductive Delivery where
  | idle
  | looked (msg : Smsg) (found : Bool)
  | mark (msg : Smsg)
  | store (msg : Smsg)
  deriving DecidableEq

/-- Where `smsg_ch_open` stands: the channel is published, the open record sent, the state found not
`CHAN_STATE_CLIENT_OPENED`, the loop entered, the open record of the peer got, the call over. -/
inductive Opener where
  | idle
  | published
  | sent
  | notGot
  | loop
  | done
  | returned
  | failed (err : Errno)
  deriving DecidableEq

/-- One side: its IPC, the records that the peer has sent and it has not read, the ones of the
channel that it dropped, those that it sent on the channel after its open returned, and those that
`smsg_recv` returned to it after that. -/
structure Side where
  ipc : SmsgIpc
  rx : List Smsg
  delivery : Delivery
  opener : Opener
  dropped : List Smsg
  sentAfter : List Smsg
  received : List Smsg

namespace Side

variable (c : Config)

def channel (a : Side) : Option Channel := a.ipc.channels c.chIndex

def state (a : Side) : ChanState := a.ipc.states c.chIndex

/-- The exits of `smsg_ch_open` with an error. -/
def fail (a : Side) (err : Errno) : Side :=
  let ipc := (a.ipc.setState c.chIndex .unused).setChannel c.chIndex none
  { a with ipc := ipc.addBusy c.chIndex (-1), opener := .failed err }

/-- The exit of `smsg_msg_process`, with the IPC that it leaves. -/
def exitMsgProc (a : Side) (ipc : SmsgIpc) : Side :=
  { a with ipc := ipc.addBusy c.chIndex (-1), delivery := .idle }

def drop (a : Side) (msg : Smsg) : Side :=
  { a.exitMsgProc c a.ipc with dropped := a.dropped ++ [msg] }

end Side

inductive Act where
  | opener
  | deliver
  /-- A task calls `smsg_send`. -/
  | send (msg : Smsg)
  /-- A task calls `smsg_recv` on the channel. -/
  | recv
  /-- The tasks of other channels change the entries of their channels. -/
  | other (ipc : SmsgIpc)

def openerStep (c : Config) (a b : Side) : Option (Side × Side) :=
  let i := c.chIndex
  match a.opener with
  | .idle =>
    let ipc := { a.ipc with busy := update a.ipc.busy i 1 }
    some ({ a with ipc := ipc.setChannel i (some .zero), opener := .published }, b)
  | .published =>
    match smsgSend a.ipc b.rx c.openMsg with
    | .ok rx => some ({ a with opener := .sent }, { b with rx := rx })
    | .error err => some (a.fail c err, b)
  | .sent =>
    some ({ a with opener := if a.state c = .clientOpened then .done else .notGot }, b)
  | .notGot => some ({ a with ipc := a.ipc.setState i .hostOpened, opener := .loop }, b)
  | .loop =>
    match smsgRecv a.ipc c.channel with
    | none => none
    | some (.ok (msg, ipc)) =>
      some ({ a with ipc := ipc, opener := if msg.isOpen then .done else .loop }, b)
    | some (.error err) => some (a.fail c err, b)
  | .done =>
    let ipc := a.ipc.setState i .opened
    some ({ a with ipc := ipc.addBusy i (-1), opener := .returned }, b)
  | .returned => none
  | .failed _ => none

/-- The next step of `smsg_msg_process`.  A record of another channel is dispatched in one step,
since it touches no entry of this one. -/
def deliverStep (c : Config) (a : Side) : Option Side :=
  let i := c.chIndex
  match a.delivery with
  | .idle =>
    match a.rx with
    | [] => none
    | msg :: rx =>
      if c.owns msg then
        if msg.type = typeDie ∧ c.debugEnable then none
        else
          let a := { a with rx := rx, ipc := a.ipc.addBusy i 1 }
          if typeNr ≤ msg.type then some (a.drop c msg)
          else some { a with delivery := .looked msg (a.channel c).isSome }
      else
        match smsgMsgProcess c.debugEnable a.ipc msg with
        | .ok ipc => some { a with rx := rx, ipc := ipc }
        | .error _ => none
  | .looked msg false =>
    if a.state c = .unused ∧ msg.isOpen then some { a with delivery := .mark msg }
    else some (a.drop c msg)
  | .looked msg true =>
    match a.channel c with
    | none => some (a.drop c msg)
    | some ch =>
      if ch.isFull then some (a.drop c msg) else some { a with delivery := .store msg }
  | .mark _ => some (a.exitMsgProc c (a.ipc.setState i .clientOpened))
  | .store msg =>
    match a.channel c with
    | none => some (a.drop c msg)
    | some ch => some (a.exitMsgProc c (a.ipc.setChannel i (some (ch.push msg))))

/-- A step of the side `a` with the peer `b`.  On the channel itself the tasks send and receive only
after their open returned. -/
def act (c : Config) (a b : Side) : Act → Option (Side × Side)
  | .opener => openerStep c a b
  | .deliver => (deliverStep c a).map fun a => (a, b)
  | .send msg =>
    match smsgSend a.ipc b.rx msg with
    | .error _ => none
    | .ok rx =>
      if c.owns msg then
        if a.opener = .returned then
          some ({ a with sentAfter := a.sentAfter ++ [msg] }, { b with rx := rx })
        else none
      else some (a, { b with rx := rx })
  | .recv =>
    if a.opener = .returned then
      match smsgRecv a.ipc c.channel with
      | some (.ok (msg, ipc)) => some ({ a with ipc := ipc, received := a.received ++ [msg] }, b)
      | _ => none
    else none
  | .other ipc =>
    let i := c.chIndex
    let ipc : SmsgIpc :=
      ⟨update ipc.busy i (a.ipc.busy i), update ipc.channels i (a.ipc.channels i),
        update ipc.states i (a.ipc.states i)⟩
    some ({ a with ipc := ipc }, b)

abbrev State := Party → Side

def step (c : Config) (s : State) (l : Party × Act) : Option State :=
  (act c (s l.1) (s l.1.peer) l.2).map fun sides =>
    update (update s l.1 sides.1) l.1.peer sides.2

/-- A side on which the channel is not in use: `CHAN_STATE_UNUSED`, and no `smsg_channel`. -/
structure Side.Fresh (c : Config) (a : Side) : Prop where
  rx : a.rx = []
  delivery : a.delivery = .idle
  opener : a.opener = .idle
  dropped : a.dropped = []
  sentAfter : a.sentAfter = []
  received : a.received = []
  channel : a.channel c = none
  state : a.state c = .unused

/-- The steps of a side, each with what it found. -/
inductive Move (c : Config) (a b : Side) : Act → Side → Side → Prop
  | publish (ho : a.opener = .idle) :
    Move c a b .opener
      { a with
        ipc := SmsgIpc.setChannel { a.ipc with busy := update a.ipc.busy c.chIndex 1 } c.chIndex
          (some .zero)
        opener := .published }
      b
  | sendOpen {rx : List Smsg} (ho : a.opener = .published)
      (hsend : smsgSend a.ipc b.rx c.openMsg = .ok rx) :
    Move c a b .opener { a with opener := .sent } { b with rx := rx }
  | sendFail {err : Errno} (ho : a.opener = .published)
      (hsend : smsgSend a.ipc b.rx c.openMsg = .error err) :
    Move c a b .opener (a.fail c err) b
  | gotBefore (ho : a.opener = .sent) (hstate : a.state c = .clientOpened) :
    Move c a b .opener { a with opener := .done } b
  | notGot (ho : a.opener = .sent) (hstate : a.state c ≠ .clientOpened) :
    Move c a b .opener { a with opener := .notGot } b
  | hostOpen (ho : a.opener = .notGot) :
    Move c a b .opener
      { a with ipc := a.ipc.setState c.chIndex .hostOpened, opener := .loop } b
  | recvOpen {msg : Smsg} {ipc : SmsgIpc} (ho : a.opener = .loop)
      (hrecv : smsgRecv a.ipc c.channel = some (.ok (msg, ipc))) (hopen : msg.isOpen = true) :
    Move c a b .opener { a with ipc := ipc, opener := .done } b
  | recvOther {msg : Smsg} {ipc : SmsgIpc} (ho : a.opener = .loop)
      (hrecv : smsgRecv a.ipc c.channel = some (.ok (msg, ipc))) (hopen : msg.isOpen = false) :
    Move c a b .opener { a with ipc := ipc, opener := .loop } b
  | recvFail {err : Errno} (ho : a.opener = .loop)
      (hrecv : smsgRecv a.ipc c.channel = some (.error err)) :
    Move c a b .opener (a.fail c err) b
  | finish (ho : a.opener = .done) :
    Move c a b .opener
      { a with
        ipc := (a.ipc.setState c.chIndex .opened).addBusy c.chIndex (-1)
        opener := .returned }
      b
  | invalid {msg : Smsg} {rx : List Smsg} (hd : a.delivery = .idle) (hrx : a.rx = msg :: rx)
      (hown : c.owns msg = true) (htype : typeNr ≤ msg.type) :
    Move c a b .deliver
      (Side.drop c { a with rx := rx, ipc := a.ipc.addBusy c.chIndex 1 } msg) b
  | look {msg : Smsg} {rx : List Smsg} (hd : a.delivery = .idle) (hrx : a.rx = msg :: rx)
      (hown : c.owns msg = true) (htype : ¬typeNr ≤ msg.type) :
    Move c a b .deliver
      { a with
        rx := rx
        ipc := a.ipc.addBusy c.chIndex 1
        delivery := .looked msg (a.channel c).isSome }
      b
  | pass {msg : Smsg} {rx : List Smsg} {ipc : SmsgIpc} (hd : a.delivery = .idle)
      (hrx : a.rx = msg :: rx) (hown : c.owns msg = false)
      (hprocess : smsgMsgProcess c.debugEnable a.ipc msg = .ok ipc) :
    Move c a b .deliver { a with rx := rx, ipc := ipc } b
  | accept {msg : Smsg} (hd : a.delivery = .looked msg false) (hstate : a.state c = .unused)
      (hopen : msg.isOpen = true) : Move c a b .deliver { a with delivery := .mark msg } b
  | dropUnopened {msg : Smsg} (hd : a.delivery = .looked msg false)
      (hdrop : ¬(a.state c = .unused ∧ msg.isOpen = true)) :
    Move c a b .deliver (a.drop c msg) b
  | dropDetached {msg : Smsg} (hd : a.delivery = .looked msg true ∨ a.delivery = .store msg)
      (hch : a.channel c = none) : Move c a b .deliver (a.drop c msg) b
  | dropFull {msg : Smsg} {ch : Channel} (hd : a.delivery = .looked msg true)
      (hch : a.channel c = some ch) (hfull : ch.isFull = true) :
    Move c a b .deliver (a.drop c msg) b
  | room {msg : Smsg} {ch : Channel} (hd : a.delivery = .looked msg true)
      (hch : a.channel c = some ch) (hfull : ch.isFull = false) :
    Move c a b .deliver { a with delivery := .store msg } b
  | mark {msg : Smsg} (hd : a.delivery = .mark msg) :
    Move c a b .deliver (a.exitMsgProc c (a.ipc.setState c.chIndex .clientOpened)) b
  | store {msg : Smsg} {ch : Channel} (hd : a.delivery = .store msg) (hch : a.channel c = some ch) :
    Move c a b .deliver
      (a.exitMsgProc c (a.ipc.setChannel c.chIndex (some (ch.push msg)))) b
  | send {msg : Smsg} {rx : List Smsg} (hsend : smsgSend a.ipc b.rx msg = .ok rx)
      (hown : c.owns msg = true) (ho : a.opener = .returned) :
    Move c a b (.send msg) { a with sentAfter := a.sentAfter ++ [msg] } { b with rx := rx }
  | sendOther {msg : Smsg} {rx : List Smsg} (hsend : smsgSend a.ipc b.rx msg = .ok rx)
      (hown : c.owns msg = false) : Move c a b (.send msg) a { b with rx := rx }
  | recv {msg : Smsg} {ipc : SmsgIpc} (ho : a.opener = .returned)
      (hrecv : smsgRecv a.ipc c.channel = some (.ok (msg, ipc))) :
    Move c a b .recv { a with ipc := ipc, received := a.received ++ [msg] } b
  | other {ipc ipc' : SmsgIpc} (hagree : SmsgIpc.Agree ipc' a.ipc c.chIndex) :
    Move c a b (.other ipc) { a with ipc := ipc' } b

theorem openerStep_move {c : Config} {a b a' b' : Side}
    (hstep : openerStep c a b = some (a', b')) : Move c a b .opener a' b' := by
  unfold openerStep at hstep
  split at hstep
  next ho =>
    cases hstep
    exact .publish ho
  next ho =>
    split at hstep
    next rx hsend =>
      cases hstep
      exact .sendOpen ho hsend
    next err hsend =>
      cases hstep
      exact .sendFail ho hsend
  next ho =>
    by_cases hstate : a.state c = .clientOpened
    · rw [if_pos hstate] at hstep
      cases hstep
      exact .gotBefore ho hstate
    · rw [if_neg hstate] at hstep
      cases hstep
      exact .notGot ho hstate
  next ho =>
    cases hstep
    exact .hostOpen ho
  next ho =>
    split at hstep
    next => cases hstep
    next msg ipc hrecv =>
      cases hopen : msg.isOpen with
      | true =>
        rw [hopen] at hstep
        cases hstep
        exact .recvOpen ho hrecv hopen
      | false =>
        rw [hopen] at hstep
        cases hstep
        exact .recvOther ho hrecv hopen
    next err hrecv =>
      cases hstep
      exact .recvFail ho hrecv
  next ho =>
    cases hstep
    exact .finish ho
  next => cases hstep
  next => cases hstep

theorem deliverStep_move {c : Config} {a b a' : Side} (hstep : deliverStep c a = some a') :
    Move c a b .deliver a' b := by
  unfold deliverStep at hstep
  split at hstep
  next hd =>
    split at hstep
    next => cases hstep
    next msg rx hrx =>
      cases hown : c.owns msg with
      | true =>
        rw [hown, if_pos rfl] at hstep
        split at hstep
        next => cases hstep
        next =>
          split at hstep
          next htype =>
            cases hstep
            exact .invalid hd hrx hown htype
          next htype =>
            cases hstep
            exact .look hd hrx hown htype
      | false =>
        rw [hown, if_neg (by simp)] at hstep
        split at hstep
        next ipc hprocess =>
          cases hstep
          exact .pass hd hrx hown hprocess
        next => cases hstep
  next msg hd =>
    split at hstep
    next h =>
      cases hstep
      exact .accept hd h.1 h.2
    next h =>
      cases hstep
      exact .dropUnopened hd h
  next msg hd =>
    split at hstep
    next hch =>
      cases hstep
      exact .dropDetached (.inl hd) hch
    next ch hch =>
      cases hfull : ch.isFull with
      | true =>
        rw [hfull] at hstep
        cases hstep
        exact .dropFull hd hch hfull
      | false =>
        rw [hfull] at hstep
        cases hstep
        exact .room hd hch hfull
  next msg hd =>
    cases hstep
    exact .mark hd
  next msg hd =>
    split at hstep
    next hch =>
      cases hstep
      exact .dropDetached (.inr hd) hch
    next ch hch =>
      cases hstep
      exact .store hd hch

theorem act_move {c : Config} {a b a' b' : Side} {l : Act}
    (hstep : act c a b l = some (a', b')) : Move c a b l a' b' := by
  unfold act at hstep
  split at hstep
  next => exact openerStep_move hstep
  next =>
    obtain ⟨a'', hdeliver, he⟩ := Option.map_eq_some_iff.mp hstep
    cases he
    exact deliverStep_move hdeliver
  next msg =>
    split at hstep
    next => cases hstep
    next rx hsend =>
      cases hown : c.owns msg with
      | true =>
        rw [hown, if_pos rfl] at hstep
        split at hstep
        next ho =>
          cases hstep
          exact .send hsend hown ho
        next => cases hstep
      | false =>
        rw [hown, if_neg (by simp)] at hstep
        cases hstep
        exact .sendOther hsend hown
  next =>
    split at hstep
    next ho =>
      split at hstep
      next msg ipc hrecv =>
        cases hstep
        exact .recv ho hrecv
      next => cases hstep
    next => cases hstep
  next ipc =>
    cases hstep
    exact .other ⟨update_self .., update_self .., update_self ..⟩

section

variable {c : Config} {a : Side} {msg : Smsg} {rx : List Smsg}

end

end ModemSupport.Sipc.SmsgOpen
