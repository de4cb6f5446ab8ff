import ModemSupport.Mhi.Chan

/-! `__mhi_prepare_channel`, `__mhi_unprepare_channel` and `mhi_dtr_tiocmset`, each under its
channel's mutex, with the command ring and the DTR channel, which the device works through in ring
order.  A channel has one `struct completion` and one `ccs` for all of them. -/

namespace ModemSupport.Mhi.Command

variable {ι δ : Type}

inductive MhiCmd where
  | resetChan
  | startChan

/-- An element of the command ring.  `id` tells the commands and messages apart that were ever
queued. -/
structure Cmd (ι : Type) where
  id : Nat
  cmd : MhiCmd
  chan : ι

structure DtrCtrlMsg where
  preamble : UInt32
  msgId : UInt32
  destId : UInt32
  size : UInt32
  msg : UInt32
  deriving DecidableEq

/-- An element of the DTR ring, which `id` names as the allocation of its message. -/
structure Elem where
  id : Nat
  msg : DtrCtrlMsg
  deriving DecidableEq

def ctrlMagic : UInt32 := 0x4C525443

def ctrlMsgDtr : UInt32 := 1

def ctrlMsgRts : UInt32 := 2

def ctrlMsgDcd : UInt32 := 1

def ctrlMsgDsr : UInt32 := 2

def ctrlMsgRi : UInt32 := 8

def ctrlHostState : UInt32 := 0x10

def tiocmDtr : UInt32 := 0x002

def tiocmRts : UInt32 := 0x004

def tiocmCd : UInt32 := 0x040

def tiocmRi : UInt32 := 0x080

def tiocmDsr : UInt32 := 0x100

def dtrMsg (ulChanId tiocm : UInt32) : DtrCtrlMsg where
  preamble := ctrlMagic
  msgId := ctrlHostState
  destId := ulChanId
  size := 4
  msg :=
    (if tiocm &&& tiocmDtr ≠ 0 then ctrlMsgDtr else 0) |||
      (if tiocm &&& tiocmRts ≠ 0 then ctrlMsgRts else 0)

/-- The controller: `dtr_dev->ul_chan`, the `ul_chan_id` of the devices, and the sizes of the
rings. -/
structure Config (ι δ : Type) where
  dtrChan : ι
  ulChanId : δ → UInt32
  cmdElements : Nat
  dtrElements : Nat

/-- A call of one of the three functions.  `msg` is the allocation of `dtr_msg`. -/
inductive Op (δ : Type) where
  | prepare
  | unprepare
  | tiocmset (dev : δ) (tiocm : UInt32) (msg : Nat)
  deriving DecidableEq

/-- Where the call that holds the mutex of the channel stands.  `id` is of what it has queued, and
`answer` of what made the completion that its wait has consumed. -/
inductive Call (δ : Type) where
  | idle
  | locked (op : Op δ)
  | armed (op : Op δ)
  | waiting (op : Op δ) (id : Nat)
  | woken (op : Op δ) (id answer : Nat)
  | enabling (id : Nat)
  | resetting
  | tiocmExit (dev : δ) (tiocm : UInt32) (msg : Nat) (ret : Option Errno)
  deriving DecidableEq

/-- The fields of `struct mhi_chan`.  The list stands for the counter of `completion`, with what
made each of its completions, and `ccsOf` is the command whose code `ccs` has. -/
structure Chan (δ : Type) where
  chState : ChState
  completion : List Nat
  ccs : UInt32
  ccsOf : Option Nat
  call : Call δ

/-- What a call of `mhi_dtr_tiocmset` has returned, with the message that it had allocated. -/
structure Ret (δ : Type) where
  dev : δ
  tiocm : UInt32
  msg : Option Nat
  ret : Option Errno

/-- `cmdRing` has the commands that the device has not executed and `cmdEvents` the answers that
the host has not processed.  `dtrRing` has the elements between `rp` and `wp`, and `dtrTodo` those
of them that the device has not transferred.  `executed` and `transferred` have what the device
did, the last first, and `requests` the calls of `mhi_dtr_tiocmset` in front of the mutex. -/
structure State (ι δ : Type) where
  chan : ι → Chan δ
  cmdRing : List (Cmd ι)
  cmdEvents : List (Cmd ι × UInt32)
  executed : List (Cmd ι × UInt32)
  dtrRing : List Elem
  dtrTodo : List Elem
  dtrEvents : List (Elem × UInt32)
  transferred : List (Elem × UInt32)
  freed : List Nat
  tiocm : δ → UInt32
  requests : List (δ × UInt32)
  rets : List (Ret δ)
  next : Nat

variable [DecidableEq ι] [DecidableEq δ]

def State.setChan (s : State ι δ) (ch : ι) (x : Chan δ) : State ι δ :=
  { s with chan := Function.update s.chan ch x }

def State.setCall (s : State ι δ) (ch : ι) (call : Call δ) : State ι δ :=
  s.setChan ch { s.chan ch with call := call }

def sendCmd (c : Config ι δ) (s : State ι δ) (ch : ι) (cmd : MhiCmd) :
    Except Errno Nat × State ι δ :=
  if s.cmdRing.length + s.cmdEvents.length + 1 = c.cmdElements then (.error .enomem, s)
  else (.ok s.next, { s with cmdRing := s.cmdRing ++ [⟨s.next, cmd, ch⟩], next := s.next + 1 })

def queueTransfer (c : Config ι δ) (s : State ι δ) (e : Elem) : Except Errno Nat × State ι δ :=
  if s.dtrRing.length + 1 = c.dtrElements then (.error .enomem, s)
  else (.ok e.id, { s with dtrRing := s.dtrRing ++ [e], dtrTodo := s.dtrTodo ++ [e] })

/-- What a call queues, which fails in the error states of the power state machine. -/
def queue (c : Config ι δ) (s : State ι δ) (ch : ι) (pmError : Bool) (op : Op δ) :
    Except Errno Nat × State ι δ :=
  if pmError then (.error .eio, s)
  else match op with
    | .prepare => sendCmd c s ch .startChan
    | .unprepare => sendCmd c s ch .resetChan
    | .tiocmset dev tiocm msg => queueTransfer c s ⟨msg, dtrMsg (c.ulChanId dev) tiocm⟩

def Op.fail : Op δ → Errno → Call δ
  | .prepare, _ => .idle
  | .unprepare, _ => .resetting
  | .tiocmset dev tiocm msg, ret => .tiocmExit dev tiocm msg (some ret)

/-- From `reinit_completion` up to the wait. -/
def send (c : Config ι δ) (s : State ι δ) (ch : ι) (pmError : Bool) (op : Op δ) : State ι δ :=
  match queue c s ch pmError op with
  | (.ok id, s) => s.setCall ch (.waiting op id)
  | (.error e, s) => s.setCall ch (op.fail e)

/-- `__mhi_prepare_channel` up to `reinit_completion`, with the outcome of `mhi_init_chan_ctxt`. -/
def prepareChannel (s : State ι δ) (ch : ι) (inited : Bool) : State ι δ :=
  if (s.chan ch).chState ≠ .disabled then s
  else if inited then s.setCall ch (.locked .prepare)
  else s

/-- `__mhi_unprepare_channel` up to `reinit_completion`. -/
def unprepareChannel (s : State ι δ) (ch : ι) : State ι δ :=
  if (s.chan ch).chState ≠ .enabled then s
  else s.setChan ch { s.chan ch with chState := .disabled, call := .locked .unprepare }

def tiocmset (s : State ι δ) (dev : δ) (tiocm : UInt32) : State ι δ :=
  let curTiocm := s.tiocm dev &&& ~~~(tiocmCd ||| tiocmDsr ||| tiocmRi)
  let tiocm := tiocm &&& (tiocmDtr ||| tiocmRts)
  if curTiocm = tiocm then { s with rets := s.rets ++ [⟨dev, tiocm, none, none⟩] }
  else { s with requests := s.requests ++ [(dev, tiocm)] }

/-- `mhi_dtr_tiocmset` from the mutex up to `reinit_completion`, with the outcome of `kzalloc`. -/
def tiocmsetLocked (c : Config ι δ) (s : State ι δ) (dev : δ) (tiocm : UInt32) (alloc : Bool) :
    State ι δ :=
  if alloc then
    { s.setCall c.dtrChan (.locked (.tiocmset dev tiocm s.next)) with next := s.next + 1 }
  else { s with rets := s.rets ++ [⟨dev, tiocm, none, some .enomem⟩] }

/-- A wait is over: what follows it in the three functions. -/
def afterWait (s : State ι δ) (ch : ι) (id : Nat) : Op δ → State ι δ
  | .prepare =>
    if (s.chan ch).ccs = evCcSuccess then s.setCall ch (.enabling id) else s.setCall ch .idle
  | .unprepare => s.setCall ch .resetting
  | .tiocmset dev tiocm msg =>
    { s.setCall ch (.tiocmExit dev tiocm msg none) with
      tiocm := Function.update s.tiocm dev
        (s.tiocm dev &&& ~~~(tiocmDtr ||| tiocmRts) ||| tiocm) }

/-- `mhi_reset_chan` and the unlock.  The callbacks of the DTR elements get `-ENOTCONN`, on which
`mhi_dtr_ul_xfer_cb` does nothing, and the events of the channel are marked as stale. -/
def resetChan (c : Config ι δ) (s : State ι δ) (ch : ι) : State ι δ :=
  let s := s.setCall ch .idle
  if ch = c.dtrChan then { s with dtrRing := [], dtrTodo := [], dtrEvents := [] } else s

def finish (c : Config ι δ) (s : State ι δ) (ch : ι) : Call δ → Option (State ι δ)
  | .enabling _ => some (s.setChan ch { s.chan ch with chState := .enabled, call := .idle })
  | .resetting => some (resetChan c s ch)
  | .tiocmExit dev tiocm msg ret =>
    some { s.setCall ch .idle with
      freed := s.freed ++ [msg], rets := s.rets ++ [⟨dev, tiocm, some msg, ret⟩] }
  | _ => none

def complete (s : State ι δ) (ch : ι) (id : Nat) : State ι δ :=
  s.setChan ch { s.chan ch with completion := (s.chan ch).completion ++ [id] }

def processCmdCompletion (s : State ι δ) (cmd : Cmd ι) (code : UInt32) : State ι δ :=
  let x := s.chan cmd.chan
  complete (s.setChan cmd.chan { x with ccs := code, ccsOf := some cmd.id }) cmd.chan cmd.id

def dtrUlXferCb (c : Config ι δ) (s : State ι δ) (id : Nat) (code : UInt32) : State ι δ :=
  if code = evCcOverflow then s else complete s c.dtrChan id

/-- `parse_xfer_event` on the DTR channel, one turn of its loop: it takes the elements off the
ring up to the one that the event is for. -/
def parseXferEvent (c : Config ι δ) (s : State ι δ) (e : Elem) (code : UInt32)
    (events : List (Elem × UInt32)) : State ι δ :=
  if (s.chan c.dtrChan).chState ≠ .enabled then { s with dtrEvents := events }
  else if code ∈ xferCodes then
    match s.dtrRing with
    | [] => { s with dtrEvents := events }
    | h :: ring =>
      let left := if h = e then events else s.dtrEvents
      dtrUlXferCb c { s with dtrRing := ring, dtrEvents := left } h.id code
  else { s with dtrEvents := events }

def dtrDlXferCb (s : State ι δ) (dev : δ) (msg : UInt32) : State ι δ :=
  { s with
    tiocm := Function.update s.tiocm dev
      (s.tiocm dev &&& ~~~(tiocmCd ||| tiocmDsr ||| tiocmRi) |||
        (if msg &&& ctrlMsgDcd ≠ 0 then tiocmCd else 0) |||
        (if msg &&& ctrlMsgDsr ≠ 0 then tiocmDsr else 0) |||
        (if msg &&& ctrlMsgRi ≠ 0 then tiocmRi else 0)) }

inductive Label (ι δ : Type) where
  | prepare (ch : ι) (inited : Bool)
  | unprepare (ch : ι)
  | tiocmset (dev : δ) (tiocm : UInt32)
  | tiocmsetLocked (i : Nat) (alloc : Bool)
  | reinit (ch : ι)
  | send (ch : ι) (pmError : Bool)
  | wake (ch : ι)
  | timeout (ch : ι)
  | afterWait (ch : ι)
  | finish (ch : ι)
  | execute (code : UInt32)
  | transfer (code : UInt32)
  | cmdEvent
  | dtrEvent
  | dtrDlXferCb (dev : δ) (msg : UInt32)

/-- One step.  `execute` and `transfer` are the device's.  The rings of the DTR channel exist
while it is enabled. -/
def step (c : Config ι δ) (s : State ι δ) : Label ι δ → Option (State ι δ)
  | .prepare ch inited =>
    if (s.chan ch).call = .idle then some (prepareChannel s ch inited) else none
  | .unprepare ch => if (s.chan ch).call = .idle then some (unprepareChannel s ch) else none
  | .tiocmset dev tiocm => some (tiocmset s dev tiocm)
  | .tiocmsetLocked i alloc =>
    match s.requests[i]? with
    | some (dev, tiocm) =>
      if (s.chan c.dtrChan).call = .idle ∧ (s.chan c.dtrChan).chState = .enabled then
        some (tiocmsetLocked c { s with requests := s.requests.eraseIdx i } dev tiocm alloc)
      else none
    | none => none
  | .reinit ch =>
    match (s.chan ch).call with
    | .locked op => some (s.setChan ch { s.chan ch with completion := [], call := .armed op })
    | _ => none
  | .send ch pmError =>
    match (s.chan ch).call with
    | .armed op => some (send c s ch pmError op)
    | _ => none
  | .wake ch =>
    match (s.chan ch).call, (s.chan ch).completion with
    | .waiting op id, answer :: rest =>
      some (s.setChan ch { s.chan ch with completion := rest, call := .woken op id answer })
    | _, _ => none
  | .timeout ch =>
    match (s.chan ch).call, (s.chan ch).completion with
    | .waiting op _, [] => some (s.setCall ch (op.fail .eio))
    | _, _ => none
  | .afterWait ch =>
    match (s.chan ch).call with
    | .woken op id _ => some (afterWait s ch id op)
    | _ => none
  | .finish ch => finish c s ch (s.chan ch).call
  | .execute code =>
    match s.cmdRing with
    | cmd :: ring =>
      some { s with
        cmdRing := ring
        cmdEvents := s.cmdEvents ++ [(cmd, code)]
        executed := (cmd, code) :: s.executed }
    | [] => none
  | .transfer code =>
    match s.dtrTodo with
    | e :: todo =>
      some { s with
        dtrTodo := todo
        dtrEvents := s.dtrEvents ++ [(e, code)]
        transferred := (e, code) :: s.transferred }
    | [] => none
  | .cmdEvent =>
    match s.cmdEvents with
    | (cmd, code) :: events => some (processCmdCompletion { s with cmdEvents := events } cmd code)
    | [] => none
  | .dtrEvent =>
    match s.dtrEvents with
    | (e, code) :: events => some (parseXferEvent c s e code events)
    | [] => none
  | .dtrDlXferCb dev msg => some (dtrDlXferCb s dev msg)

def init : State ι δ where
  chan := fun _ => ⟨.disabled, [], 0, none, .idle⟩
  cmdRing := []
  cmdEvents := []
  executed := []
  dtrRing := []
  dtrTodo := []
  dtrEvents := []
  transferred := []
  freed := []
  tiocm := fun _ => 0
  requests := []
  rets := []
  next := 0

def started (ch : ι) : List (Cmd ι × UInt32) → Option Nat
  | [] => none
  | (cmd, code) :: executed =>
    if cmd.chan ≠ ch then started ch executed
    else match cmd.cmd with
      | .resetChan => none
      | .startChan => if code = evCcSuccess then some cmd.id else started ch executed

def Sent (transferred : List (Elem × UInt32)) (e : Elem) : Prop :=
  ∃ code ∈ xferCodes, code ≠ evCcOverflow ∧ (e, code) ∈ transferred

/-- Whether a call queues a command, whose `ccs` it tests. -/
def Op.isCmd : Op δ → Bool
  | .prepare => true
  | .unprepare => true
  | .tiocmset .. => false

/-- Each call has its own answer: the first completion that a wait finds is the one of what the
call has queued, and so is the `ccs` behind it; a channel is enabled behind its START only;
`mhi_dtr_tiocmset` returns 0 behind the transfer of its message, and frees none that is on the
ring. -/
structure Answered (c : Config ι δ) (s : State ι δ) : Prop where
  ends : ∀ ch op id answer rest, (s.chan ch).call = .waiting op id →
    (s.chan ch).completion = answer :: rest → answer = id
  consumed : ∀ ch op id answer, (s.chan ch).call = .woken op id answer → answer = id
  ccs : ∀ ch op id answer, (s.chan ch).call = .woken op id answer → op.isCmd = true →
    (s.chan ch).ccsOf = some id
  enabling : ∀ ch id, (s.chan ch).call = .enabling id → started ch s.executed = some id
  enabled : ∀ ch, (s.chan ch).chState = .enabled → (started ch s.executed).isSome
  returned : ∀ r ∈ s.rets, r.ret = none → ∀ msg, r.msg = some msg →
    Sent s.transferred ⟨msg, dtrMsg (c.ulChanId r.dev) r.tiocm⟩
  allocated : ∀ e ∈ s.dtrRing, e.id ∉ s.freed

/-- No late answer meets the step: none has arrived since `reinit_completion` when a call has
queued its command, none arrives before the call's own in its wait, and an element whose wait
timed out has left the ring when `mhi_dtr_tiocmset` comes to `kfree`. -/
def OnTime (c : Config ι δ) (s : State ι δ) : Label ι δ → Prop
  | .send ch pmError => ∀ op id, (s.chan ch).call = .armed op →
    (queue c s ch pmError op).1 = .ok id → (s.chan ch).completion = []
  | .cmdEvent => ∀ cmd code events op id, s.cmdEvents = (cmd, code) :: events →
    (s.chan cmd.chan).call = .waiting op id → (s.chan cmd.chan).completion = [] → cmd.id = id
  | .finish ch => ∀ dev tiocm msg ret, (s.chan ch).call = .tiocmExit dev tiocm msg (some ret) →
    ∀ e ∈ s.dtrRing, e.id ≠ msg
  | _ => True

end ModemSupport.Mhi.Command
