import ModemSupport.Mhi.Event

/-! The inbound side of a UCI device (`mhi_uci.c`): `mhi_queue_inbound`, `mhi_dl_xfer_cb` and
`mhi_uci_read` on the pages of `uci_buf`.  A step is a section under `dl_chan.lock`, or what runs in
front of one. -/

namespace ModemSupport.Mhi.Uci

open Event

def clientMbimIn : Nat := 13

def clientQmiIn : Nat := 15

def clientDunIn : Nat := 33

/-- The device, with the address of the page of every `uci_buf` and what the memory holds at first.
`mtu` is at most the `driver_data` of the match table. -/
structure Config where
  chan : ChanCfg
  dlChanId : Nat
  mtu : Nat
  page : Nat → Nat
  mem : Nat → List UInt8
  mtu_le : mtu ≤ 0x4000
  page_inj : ∀ i < chan.elements, ∀ j < chan.elements, page i = page j → i = j

def Config.recycles (c : Config) : Bool :=
  c.dlChanId = clientDunIn ∨ c.dlChanId = clientQmiIn ∨ c.dlChanId = clientMbimIn

structure UciBuf where
  data : Nat
  len : Nat
  nrTrb : Nat

/-- A buffer to read: `uci_buf[i]`, which has a page, or `tmp_buf`, which has none. -/
inductive Buf where
  | page (i : Nat)
  | tmp (data : List UInt8)
  deriving DecidableEq

inductive ReadErrno where
  | einval
  | eagain
  | erestartsys
  | eio
  | queue (e : Errno)

/-- Where the read that holds `r_mutex` stands. -/
inductive Reader where
  | idle
  | entered (count : Nat) (nonblock : Bool)
  | waiting (count : Nat)
  | woken (count : Nat)
  | copying (count : Nat) (buf : Buf)
  | finished (buf : Buf) (bytes : List UInt8)
  deriving DecidableEq

/-- `struct uci_dev` with its inbound channel, and the memory by pages.  `callback` is the index
and `bytes_xferd` of a callback in front of its lock section, `payloads` what the device wrote,
and `reads` what the reads returned. -/
structure State where
  chan : EvChan
  mem : Nat → List UInt8
  uciBuf : Nat → UciBuf
  nrTrb : Nat
  nrTrbs : Nat
  rxError : Nat
  refCount : Nat
  pending : List Buf
  curBuf : Option Buf
  rxSize : Nat
  callback : Option (Nat × Nat)
  reader : Reader
  payloads : List UInt8
  reads : List (Except ReadErrno (List UInt8))

/-- `mhi_queue_transfer`, which is `mhi_queue_buf` on these channels. -/
def queueTransfer (ch : EvChan) (buf : Nat) : Option Errno × EvChan :=
  if ch.treRing.isRingFull then (some .enomem, ch) else (none, enqueue ch buf)

/-- The loop of `mhi_queue_inbound`, up to the first buffer that cannot be queued. -/
def queueAll : List Nat → EvChan → Option Errno × EvChan
  | [], ch => (none, ch)
  | buf :: bufs, ch =>
    match queueTransfer ch buf with
    | (none, ch) => queueAll bufs ch
    | (some e, ch) => (some e, ch)

def queueInbound (c : Config) (ch : EvChan) : Option Errno × State :=
  let nrTrbs := ch.treRing.getNrAvailRingElements.toNat
  let queued := queueAll ((List.range nrTrbs).map c.page) ch
  (queued.1,
    { chan := queued.2, mem := c.mem, uciBuf := fun i => ⟨c.page i, 0, i⟩, nrTrb := 0
      nrTrbs := nrTrbs + 1, rxError := 0, refCount := 2, pending := [], curBuf := none, rxSize := 0
      callback := none, reader := .idle, payloads := [], reads := [] })

/-- The index of the buffer that is queued when `uci_buf[i]` is done. -/
def State.before (s : State) (i : Nat) : Nat := if i ≠ 0 then i - 1 else s.nrTrbs - 1

def dlXferCb (c : Config) (s : State) (result : Result) : State :=
  let nrTrb := s.nrTrb
  let buf := s.uciBuf nrTrb
  if buf.nrTrb ≠ nrTrb ∨ buf.data ≠ result.bufAddr then { s with rxError := s.rxError + 1 }
  else
    let s := { s with nrTrb := if nrTrb + 1 = s.nrTrbs then 0 else nrTrb + 1 }
    if result.transactionStatus = some .enotconn then s
    else if c.mtu < result.bytesXferd ∨ result.bytesXferd = 0 then s
    else { s with callback := some (nrTrb, result.bytesXferd) }

def dlXferCbLocked (c : Config) (s : State) (nrTrb bytesXferd : Nat) : State :=
  let buf := { s.uciBuf nrTrb with len := bytesXferd }
  let s := { s with uciBuf := Function.update s.uciBuf nrTrb buf, callback := none }
  if c.recycles then
    let tmpBuf := Buf.tmp ((s.mem buf.data).take buf.len)
    let queued := queueTransfer s.chan (s.uciBuf (s.before buf.nrTrb)).data
    let s := { s with chan := queued.2 }
    if s.refCount = 1 then s else { s with pending := s.pending ++ [tmpBuf] }
  else { s with pending := s.pending ++ [.page nrTrb] }

/-- An element completes with the bytes of `payload`, which the device has written to its buffer,
and `parse_xfer_event` takes it off the rings. -/
def complete (c : Config) (s : State) (code : UInt32) (payload : List UInt8) : State :=
  let addr := (s.chan.infos (s.chan.treRing.index s.chan.treRing.rp)).cbBuf
  let result : Result :=
    ⟨if code = evCcOverflow then some .eoverflow else none, payload.length % 2 ^ 16,
      (s.chan.infos (s.chan.bufRing.index s.chan.bufRing.rp)).cbBuf⟩
  let left := { s.chan with
    treRing := s.chan.treRing.delRingElement, bufRing := s.chan.bufRing.delRingElement }
  dlXferCb c { s with
    chan := left
    mem := Function.update s.mem addr (payload ++ (s.mem addr).drop payload.length)
    payloads := s.payloads ++ payload } result

def State.bufLen (s : State) : Buf → Nat
  | .page i => (s.uciBuf i).len
  | .tmp data => data.length

def State.bufData (s : State) : Buf → List UInt8
  | .page i => s.mem (s.uciBuf i).data
  | .tmp data => data

def State.ret (s : State) (r : Except ReadErrno (List UInt8)) : State :=
  { s with reader := .idle, reads := s.reads ++ [r] }

def readEnter (s : State) (count : Nat) (nonblock : Bool) : State :=
  if s.rxError ≠ 0 then s.ret (.error .einval) else { s with reader := .entered count nonblock }

/-- The buffer to read from: `cur_buf`, or else the first of `pending`. -/
def takeBuf (s : State) (count : Nat) : State :=
  match s.curBuf, s.pending with
  | some buf, _ => { s with reader := .copying count buf }
  | none, [] => s.ret (.error .eio)
  | none, buf :: pending =>
    { s with
      pending := pending
      curBuf := some buf
      rxSize := s.bufLen buf
      reader := .copying count buf }

def readTake (s : State) (count : Nat) (nonblock : Bool) : State :=
  if s.curBuf = none ∧ s.pending = [] then
    if nonblock then s.ret (.error .eagain) else { s with reader := .waiting count }
  else takeBuf s count

def readCopy (s : State) (count : Nat) (buf : Buf) : State :=
  let toCopy := min count s.rxSize
  let bytes := ((s.bufData buf).drop (s.bufLen buf - s.rxSize)).take toCopy
  let s := { s with rxSize := s.rxSize - toCopy }
  if s.rxSize = 0 then { s with reader := .finished buf bytes } else s.ret (.ok bytes)

/-- The last lock section, which gives the buffer back. -/
def readFinish (s : State) (buf : Buf) (bytes : List UInt8) : State :=
  let s := { s with curBuf := none }
  match buf with
  | .page i =>
    let queued := queueTransfer s.chan (s.uciBuf (s.before (s.uciBuf i).nrTrb)).data
    let s := { s with chan := queued.2 }
    match queued.1 with
    | none => s.ret (.ok bytes)
    | some e => s.ret (.error (.queue e))
  | .tmp _ => s.ret (.ok bytes)

inductive Label where
  | complete (code : UInt32) (payload : List UInt8)
  | callback
  | openFile
  | releaseFile
  | readEnter (count : Nat) (nonblock : Bool)
  | read
  | readSignal

/-- The callbacks of the channel run one after another, and so do the reads.  One file stays
open. -/
def step (c : Config) (s : State) : Label → Option State
  | .complete code payload =>
    if s.callback = none ∧ s.chan.treRing.rp ≠ s.chan.treRing.wp ∧ code ∈ xferCodes ∧
        payload.length ≤ c.mtu then
      some (complete c s code payload)
    else none
  | .callback => s.callback.map fun x => dlXferCbLocked c s x.1 x.2
  | .openFile => some { s with refCount := s.refCount + 1 }
  | .releaseFile => if 2 < s.refCount then some { s with refCount := s.refCount - 1 } else none
  | .readEnter count nonblock =>
    if s.reader = .idle then some (readEnter s count nonblock) else none
  | .read =>
    match s.reader with
    | .idle => none
    | .entered count nonblock => some (readTake s count nonblock)
    | .waiting count => if s.pending ≠ [] then some { s with reader := .woken count } else none
    | .woken count => some (takeBuf s count)
    | .copying count buf => some (readCopy s count buf)
    | .finished buf bytes => some (readFinish s buf bytes)
  | .readSignal =>
    match s.reader with
    | .waiting _ => some (s.ret (.error .erestartsys))
    | _ => none

def startChan (c : Config) : EvChan where
  rsc := false
  treRing := (chanInit c.chan).treRing
  bufRing := (chanInit c.chan).bufRing
  infos _ := default
  chState := .enabled
  ccs := 0
  completion := 0

def init (c : Config) : State := (queueInbound c (startChan c)).2

def State.returned (s : State) : List UInt8 :=
  s.reads.flatMap fun r => match r with
    | .ok bytes => bytes
    | .error _ => []

/-- The element in every slot is that of its own `uci_buf`, none that is queued is to be read, and
no element is lost.  One whose callback has not come to its lock section counts as queued. -/
structure Delivers (c : Config) (s : State) : Prop where
  slots : ∀ k, Outstanding s.chan k → (s.chan.infos k).cbBuf = (s.uciBuf k).data
  rxError : s.rxError = 0
  apart : ∀ k, Outstanding s.chan k → ∀ i < c.chan.elements,
    (s.chan.infos k).cbBuf = (s.uciBuf i).data → .page i ∉ s.pending ∧ s.curBuf ≠ some (.page i)
  number : s.chan.treRing.outstanding + s.callback.toList.length +
    (if c.recycles then 0 else s.curBuf.toList.length + s.pending.length) = c.chan.elements - 1
  stream : s.returned <+: s.payloads

end ModemSupport.Mhi.Uci
