import ModemSupport.Lib.Ring
import ModemSupport.Sipc.Basic
import Mathlib.Data.List.TakeWhile

/-! The message layer (`smsg.c`): the table of configured channels, the receive caches, and the
functions that send, receive and dispatch the records of the message ring.  An access to an array of
the IPC or of a channel is checked against the length of the array. -/

namespace ModemSupport.Sipc

open Function ModemSupport.Lib

structure Smsg where
  channel : UInt8
  type : UInt8
  flag : UInt16
  value : UInt32
  deriving DecidableEq

namespace Smsg

/-! The values of `SMSG_TYPE_*` that the code tests, and the magic number of an open record. -/

def typeOpen : UInt8 := 1
def typeClose : UInt8 := 2
def typeDie : UInt8 := 12
def typeNr : UInt8 := 17
def openMagic : UInt16 := 0xBEEE

def isOpen (msg : Smsg) : Bool := msg.type == typeOpen && msg.flag == openMagic

def sipcCfg : List UInt8 :=
  [0, 1, 22, 100, 23, 4, 5, 21, 6, 7, 8, 9, 18, 19, 20, 24, 25, 26, 27, 28, 29, 30, 31, 10, 11, 12,
    13, 130, 14, 15, 16, 17, 131, 2, 3, 151, 41, 120, 40]

def validChNr : Nat := sipcCfg.length

def invalidChanelIndex : Nat := 255

/-- The table that `smsg_init_channel2index` fills in: the first entry of `sipc_cfg` for the
channel. -/
def channel2index (channel : UInt8) : Nat :=
  let j := sipcCfg.findIdx (· == channel)
  if j = validChNr then invalidChanelIndex else j

theorem channel2index_lt_iff {channel : UInt8} :
    channel2index channel < validChNr ↔ channel2index channel ≠ invalidChanelIndex := by
  have hle : sipcCfg.findIdx (· == channel) ≤ validChNr := List.findIdx_le_length
  have hnr : validChNr < invalidChanelIndex := by decide
  unfold channel2index
  by_cases hj : sipcCfg.findIdx (· == channel) = validChNr
  · simp only [hj, if_true]
    omega
  · simp only [hj, if_false]
    omega

def cacheNr : Nat := 256

structure Channel where
  wrptr : UInt32
  rdptr : UInt32
  caches : Nat → Smsg

/-- A channel as `kzalloc` leaves it. -/
def Channel.zero : Channel := ⟨0, 0, fun _ => ⟨0, 0, 0, 0⟩⟩

/-- The slot of a counter: `ptr & (SMSG_CACHE_NR - 1)`. -/
def cacheSlot (ptr : UInt32) : Nat := (ptr &&& UInt32.ofNat (cacheNr - 1)).toNat

theorem cacheSlot_eq (ptr : UInt32) : cacheSlot ptr = Ring.modSlot cacheNr ptr := by
  rw [cacheSlot, Ring.modSlot, UInt32.toNat_and]
  exact Nat.and_two_pow_sub_one_eq_mod ptr.toNat 8

theorem cacheSlot_lt (ptr : UInt32) : cacheSlot ptr < cacheNr := by
  rw [cacheSlot_eq]
  exact Nat.mod_lt _ (by decide)

namespace Channel

def isFull (ch : Channel) : Bool := decide ((cacheNr : Int) ≤ int (ch.wrptr - ch.rdptr))

def isEmpty (ch : Channel) : Bool := ch.wrptr == ch.rdptr

def push (ch : Channel) (msg : Smsg) : Channel :=
  { ch with caches := update ch.caches (cacheSlot ch.wrptr) msg, wrptr := ch.wrptr + 1 }

def front (ch : Channel) : Smsg := ch.caches (cacheSlot ch.rdptr)

def pop (ch : Channel) : Channel := { ch with rdptr := ch.rdptr + 1 }

def queued (ch : Channel) : List Smsg := Ring.window cacheSlot ch.caches ch.rdptr ch.wrptr

@[simp] theorem zero_queued : zero.queued = [] := Ring.window_self

theorem fill_of_not_isFull {ch : Channel} (hfill : Ring.fill ch.rdptr ch.wrptr ≤ cacheNr)
    (hfull : ch.isFull = false) : Ring.fill ch.rdptr ch.wrptr < cacheNr := by
  have hlt : (ch.wrptr - ch.rdptr).toNat < 2 ^ 31 :=
    lt_of_le_of_lt hfill (by decide)
  unfold isFull at hfull
  rw [decide_eq_false_iff_not, int_of_lt hlt, not_le] at hfull
  exact Int.ofNat_lt.mp hfull

theorem push_fill {ch : Channel} {msg : Smsg}
    (hroom : Ring.fill ch.rdptr ch.wrptr < cacheNr) :
    Ring.fill (ch.push msg).rdptr (ch.push msg).wrptr ≤ cacheNr := by
  have hsmall : cacheNr < 2 ^ 32 := by decide
  have hpush : Ring.fill ch.rdptr (ch.wrptr + 1) = Ring.fill ch.rdptr ch.wrptr + 1 :=
    Ring.fill_push (by omega)
  simp only [push]
  omega

theorem push_queued {ch : Channel} {msg : Smsg}
    (hroom : Ring.fill ch.rdptr ch.wrptr < cacheNr) :
    (ch.push msg).queued = ch.queued ++ [msg] := by
  have hsmall : cacheNr < 2 ^ 32 := by decide
  have hslot : cacheSlot = Ring.modSlot cacheNr := funext cacheSlot_eq
  have hcoh : Ring.Coherent cacheNr ch.rdptr (Ring.fill ch.rdptr ch.wrptr + 1) := .inl (by decide)
  have hspace : Ring.fill ch.rdptr ch.wrptr + 1 < 2 ^ 32 := by omega
  unfold queued push
  rw [hslot]
  exact Ring.window_push hspace (hcoh.fresh_wrptr hroom)

theorem rdptr_ne {ch : Channel} (h : ch.isEmpty = false) : ch.rdptr ≠ ch.wrptr :=
  fun he => by simp [isEmpty, he] at h

theorem queued_of_not_isEmpty {ch : Channel} (h : ch.isEmpty = false) :
    ch.queued = ch.front :: ch.pop.queued := Ring.window_pop (rdptr_ne h)

theorem pop_fill {ch : Channel} (h : ch.isEmpty = false)
    (hfill : Ring.fill ch.rdptr ch.wrptr ≤ cacheNr) :
    Ring.fill ch.pop.rdptr ch.pop.wrptr ≤ cacheNr := by
  have := Ring.fill_pop (rdptr_ne h)
  simp only [pop]
  omega

end Channel

inductive ChanState where
  | unused
  | clientOpened
  | hostOpened
  | opened
  | free
  deriving DecidableEq

structure SmsgIpc where
  busy : Nat → Int
  channels : Nat → Option Channel
  states : Nat → ChanState

/-- The arrays that the dispatch of a record indexes. -/
inductive Arr where
  | busy
  | channels
  | states
  | caches

def Arr.length : Arr → Nat
  | busy => validChNr
  | channels => validChNr
  | states => validChNr
  | caches => cacheNr

/-- Why the dispatch of a record does not return. -/
inductive Fault where
  | outOfBounds (array : Arr) (index : Nat)
  | panic

def access (array : Arr) (i : Nat) : Except Fault Unit :=
  if i < array.length then .ok () else .error (.outOfBounds array i)

theorem access_of_lt {array : Arr} {i : Nat} (h : i < array.length) : access array i = .ok () :=
  if_pos h

theorem access_of_not_lt {array : Arr} {i : Nat} (h : ¬i < array.length) :
    access array i = .error (.outOfBounds array i) := if_neg h

namespace SmsgIpc

def addBusy (ipc : SmsgIpc) (i : Nat) (d : Int) : SmsgIpc :=
  { ipc with busy := update ipc.busy i (ipc.busy i + d) }

def setState (ipc : SmsgIpc) (i : Nat) (state : ChanState) : SmsgIpc :=
  { ipc with states := update ipc.states i state }

def setChannel (ipc : SmsgIpc) (i : Nat) (ch : Option Channel) : SmsgIpc :=
  { ipc with channels := update ipc.channels i ch }

def Agree (ipc ipc' : SmsgIpc) (i : Nat) : Prop :=
  ipc.busy i = ipc'.busy i ∧ ipc.channels i = ipc'.channels i ∧ ipc.states i = ipc'.states i

theorem setState_agree {ipc : SmsgIpc} {i j : Nat} {state : ChanState} (h : j ≠ i) :
    Agree (ipc.setState i state) ipc j := ⟨rfl, rfl, update_of_ne h _ _⟩

theorem setChannel_agree {ipc : SmsgIpc} {i j : Nat} {ch : Option Channel} (h : j ≠ i) :
    Agree (ipc.setChannel i ch) ipc j := ⟨rfl, update_of_ne h _ _, rfl⟩

theorem addBusy_cancel (ipc : SmsgIpc) (i : Nat) : (ipc.addBusy i 1).addBusy i (-1) = ipc := by
  simp [addBusy]

end SmsgIpc

def smsgDieProcess (debugEnable : Bool) (msg : Smsg) : Except Fault Unit :=
  if msg.type = typeDie ∧ debugEnable then .error .panic else .ok ()

def smsgMsgTake (ipc : SmsgIpc) (chIndex : Nat) (msg : Smsg) : Except Fault SmsgIpc :=
  if typeNr ≤ msg.type then .ok ipc
  else do
    access .channels chIndex
    match ipc.channels chIndex with
    | none =>
      access .states chIndex
      if ipc.states chIndex = .unused ∧ msg.isOpen then
        return ipc.setState chIndex .clientOpened
      else
        return ipc
    | some ch =>
      if ch.isFull then
        return ipc
      else
        access .caches (cacheSlot ch.wrptr)
        return ipc.setChannel chIndex (some (ch.push msg))

def smsgMsgProcess (debugEnable : Bool) (ipc : SmsgIpc) (msg : Smsg) : Except Fault SmsgIpc := do
  smsgDieProcess debugEnable msg
  let chIndex := channel2index msg.channel
  access .busy chIndex
  let ipc ← smsgMsgTake (ipc.addBusy chIndex 1) chIndex msg
  access .busy chIndex
  return ipc.addBusy chIndex (-1)

/-- What `smsg_msg_process` makes of the IPC when the index of the channel is in bounds. -/
def SmsgIpc.take (ipc : SmsgIpc) (i : Nat) (msg : Smsg) : SmsgIpc :=
  if typeNr ≤ msg.type then ipc
  else
    match ipc.channels i with
    | none => if ipc.states i = .unused ∧ msg.isOpen then ipc.setState i .clientOpened else ipc
    | some ch => if ch.isFull then ipc else ipc.setChannel i (some (ch.push msg))

theorem SmsgIpc.take_agree {ipc : SmsgIpc} {i j : Nat} {msg : Smsg} (h : j ≠ i) :
    SmsgIpc.Agree (ipc.take i msg) ipc j := by
  unfold SmsgIpc.take
  split
  · exact ⟨rfl, rfl, rfl⟩
  · split
    · split
      · exact setState_agree h
      · exact ⟨rfl, rfl, rfl⟩
    · split
      · exact ⟨rfl, rfl, rfl⟩
      · exact setChannel_agree h

theorem SmsgIpc.take_addBusy (ipc : SmsgIpc) (i : Nat) (msg : Smsg) (d : Int) :
    (ipc.addBusy i d).take i msg = (ipc.take i msg).addBusy i d := by
  have hch : (ipc.addBusy i d).channels i = ipc.channels i := rfl
  have hstate : (ipc.addBusy i d).states i = ipc.states i := rfl
  unfold SmsgIpc.take
  rw [hch, hstate]
  split
  · rfl
  · split <;> split <;> rfl

theorem smsgMsgTake_of_lt {ipc : SmsgIpc} {i : Nat} {msg : Smsg} (h : i < validChNr) :
    smsgMsgTake ipc i msg = .ok (ipc.take i msg) := by
  unfold smsgMsgTake SmsgIpc.take
  split
  · rfl
  · rw [access_of_lt (show i < Arr.channels.length from h)]
    split
    · rw [access_of_lt (show i < Arr.states.length from h)]
      simp only [bind, Except.bind, pure, Except.pure]
      split <;> rfl
    next ch _ =>
      rw [access_of_lt (show cacheSlot ch.wrptr < Arr.caches.length from cacheSlot_lt _)]
      simp only [bind, Except.bind, pure, Except.pure]
      split <;> rfl

theorem smsgMsgProcess_of_panic {debugEnable : Bool} {ipc : SmsgIpc} {msg : Smsg}
    (h : msg.type = typeDie ∧ debugEnable) :
    smsgMsgProcess debugEnable ipc msg = .error .panic := by
  unfold smsgMsgProcess smsgDieProcess
  rw [if_pos h]
  rfl

theorem smsgMsgProcess_of_configured {debugEnable : Bool} {ipc : SmsgIpc} {msg : Smsg}
    (hdie : ¬(msg.type = typeDie ∧ debugEnable))
    (h : channel2index msg.channel ≠ invalidChanelIndex) :
    smsgMsgProcess debugEnable ipc msg = .ok (ipc.take (channel2index msg.channel) msg) := by
  have hlt := channel2index_lt_iff.mpr h
  have haccess : access .busy (channel2index msg.channel) = .ok () := access_of_lt hlt
  simp only [smsgMsgProcess, smsgDieProcess, if_neg hdie, haccess, smsgMsgTake_of_lt hlt,
    SmsgIpc.take_addBusy, bind, Except.bind, pure, Except.pure, SmsgIpc.addBusy_cancel]

theorem smsgMsgProcess_of_not_configured {debugEnable : Bool} {ipc : SmsgIpc} {msg : Smsg}
    (hdie : ¬(msg.type = typeDie ∧ debugEnable))
    (h : channel2index msg.channel = invalidChanelIndex) :
    smsgMsgProcess debugEnable ipc msg = .error (.outOfBounds .busy invalidChanelIndex) := by
  have haccess : access .busy invalidChanelIndex = .error (.outOfBounds .busy invalidChanelIndex) :=
    access_of_not_lt (by decide)
  simp only [smsgMsgProcess, smsgDieProcess, if_neg hdie, h, haccess, bind, Except.bind]

theorem smsgMsgProcess_agree {debugEnable : Bool} {ipc ipc' : SmsgIpc} {msg : Smsg}
    (h : smsgMsgProcess debugEnable ipc msg = .ok ipc') {j : Nat}
    (hj : j ≠ channel2index msg.channel) : SmsgIpc.Agree ipc' ipc j := by
  by_cases hdie : msg.type = typeDie ∧ debugEnable
  · rw [smsgMsgProcess_of_panic hdie] at h
    cases h
  · by_cases hvalid : channel2index msg.channel = invalidChanelIndex
    · rw [smsgMsgProcess_of_not_configured hdie hvalid] at h
      cases h
    · rw [smsgMsgProcess_of_configured hdie hvalid] at h
      obtain rfl := Except.ok.inj h
      exact SmsgIpc.take_agree hj

/-- `smsg_send` of a record, up to the ring: the record is written behind those that the peer has
not read. -/
def smsgSend (ipc : SmsgIpc) (ring : List Smsg) (msg : Smsg) : Except Errno (List Smsg) :=
  let chIndex := channel2index msg.channel
  if chIndex = invalidChanelIndex then .error .einval
  else
    match ipc.channels chIndex with
    | none => .error .enodev
    | some _ =>
      if ipc.states chIndex ≠ .opened ∧ msg.type ≠ typeOpen ∧ msg.type ≠ typeClose then
        .error .einval
      else .ok (ring ++ [msg])

/-- `smsg_recv` without a timeout; `none` is a call that waits. -/
def smsgRecv (ipc : SmsgIpc) (channel : UInt8) : Option (Except Errno (Smsg × SmsgIpc)) :=
  let chIndex := channel2index channel
  if chIndex = invalidChanelIndex then some (.error .einval)
  else
    match ipc.channels chIndex with
    | none => some (.error .enodev)
    | some ch =>
      if ipc.states chIndex = .free then some (.error .eio)
      else if ch.isEmpty then none
      else some (.ok (ch.front, ipc.setChannel chIndex (some ch.pop)))

end ModemSupport.Sipc.Smsg
