import Mathlib.Data.List.Count
import ModemSupport.Lib.Transition

/-! The calls of the connection manager to the modem: `QmiThreadSendQMITimeout` in the main thread
and `QmiThreadRecvQMI` in the reader thread, with the request and the response that they share. -/

namespace ModemSupport.Cm.QmiThread

open Lib.Transition

def QMUX_TYPE_CTL : UInt8 := 0x00
def QMUX_TYPE_WDS : UInt8 := 0x01
def QMUX_TYPE_NAS : UInt8 := 0x03
def QMUX_TYPE_WDS_IPV6 : UInt8 := 0x11

def QMICTL_FLAG_RESPONSE : UInt8 := 0x01
def QMUX_CTL_FLAG_TYPE_RSP : UInt8 := 0x02
def QMUX_CTL_FLAG_MASK_TYPE : UInt8 := 0x06

def QMIWDS_GET_PKT_SRVC_STATUS_IND : UInt16 := 0x0022
def QMINAS_SERVING_SYSTEM_IND : UInt16 := 0x0024
def QMINAS_SYS_INFO_IND : UInt16 := 0x004D

def ENODEV : Int := 19

/-- `QCQMIMSG`. The control flags are those behind the header, and the transaction id the two
bytes behind them, of which a CTL message uses the first. -/
structure QMIMsg where
  Length : UInt16
  QMIType : UInt8
  ClientId : UInt8
  CtlFlags : UInt8
  TransactionId : UInt16
  type : UInt16

def QMIMsg.isRsp (m : QMIMsg) : Bool :=
  if m.QMIType = QMUX_TYPE_CTL then m.CtlFlags == QMICTL_FLAG_RESPONSE
  else m.CtlFlags &&& QMUX_CTL_FLAG_MASK_TYPE == QMUX_CTL_FLAG_TYPE_RSP

def isResponse (request response : QMIMsg) : Bool :=
  if request.QMIType = response.QMIType ∧ request.ClientId = response.ClientId then
    if request.QMIType = QMUX_TYPE_CTL then
      request.TransactionId.toUInt8 == response.TransactionId.toUInt8
    else request.TransactionId == response.TransactionId
  else false

/-- What `QmiWwanSendQMI` finds: whether the device is open, what `poll` returns, whether the
device can be written to, and what `write` returns. -/
structure Io where
  cdcWdmFd : Bool
  poll : Int
  pollout : Bool
  write : Int

/-- `QmiWwanSendQMI`: the request as it leaves it, what it returns, and whether the whole request
has been written. -/
def qmiWwanSendQMI (request : QMIMsg) (io : Io) : QMIMsg × Int × Bool :=
  if io.cdcWdmFd = false then (request, - ENODEV, false)
  else
    let request :=
      if request.QMIType = QMUX_TYPE_WDS_IPV6 then { request with QMIType := QMUX_TYPE_WDS }
      else request
    if io.pollout then
      if io.write = request.Length.toNat + 1 then (request, 0, true) else (request, io.write, false)
    else (request, io.poll, false)

inductive Event where
  | networkStateChanged
  | dataCallListChanged

/-- A response that the reader has copied, with the requests that had been written then as a
ghost. -/
structure Copy where
  msg : QMIMsg
  written : List Nat

/-- `s_pRequest` and `s_pResponse` by the numbers of the request and of the copy, the call that
waits with whether it has a `ppResponse`, and the events for the main thread.  Ghosts: the
requests and the copies so far, the requests written to the modem and those freed, the copies
freed and those handed to a call, and whether a freed request has been read. -/
structure State where
  sPRequest : Option Nat
  sPResponse : Option Nat
  waiting : Option (Nat × Bool)
  events : List Event
  requests : List QMIMsg
  copies : List Copy
  written : List Nat
  freed : List Nat
  freedCopies : List Nat
  handed : List (Nat × Nat)
  readFreed : Bool

def init : State where
  sPRequest := none
  sPResponse := none
  waiting := none
  events := []
  requests := []
  copies := []
  written := []
  freed := []
  freedCopies := []
  handed := []
  readFreed := false

/-- `QmiThreadSendQMITimeout` up to the wait; it returns at once when `qmidev_send` fails. -/
def sendQMI (s : State) (request : QMIMsg) (ppResponse : Bool) (io : Io) : State :=
  let c := s.requests.length
  let r := qmiWwanSendQMI request io
  { s with
    sPRequest := some c
    sPResponse := none
    requests := s.requests ++ [r.1]
    written := if r.2.2 then s.written ++ [c] else s.written
    waiting := if r.2.1 = 0 then some (c, ppResponse) else none }

/-- The rest of `QmiThreadSendQMITimeout`, behind a wait that is over or has timed out. -/
def wake (s : State) (c : Nat) (ppResponse timeout : Bool) : State :=
  let t := { s with waiting := none }
  if timeout then t
  else
    match s.sPResponse with
    | some k =>
      if ppResponse then { t with handed := s.handed ++ [(c, k)] }
      else { t with freedCopies := s.freedCopies ++ [k], sPResponse := none }
    | none => t

/-- The events that `QmiThreadRecvQMI` sends for a message that is not taken for the response. -/
def unsolicited (m : QMIMsg) : List Event :=
  if m.QMIType = QMUX_TYPE_NAS ∧ m.type = QMINAS_SERVING_SYSTEM_IND then [.networkStateChanged]
  else if m.QMIType = QMUX_TYPE_WDS ∧ m.type = QMIWDS_GET_PKT_SRVC_STATUS_IND then
    [.dataCallListChanged]
  else if m.QMIType = QMUX_TYPE_NAS ∧ m.type = QMINAS_SYS_INFO_IND then [.networkStateChanged]
  else []

/-- `QmiThreadRecvQMI` without a message. -/
def recvNull (s : State) : State :=
  match s.sPRequest with
  | some r => { s with freed := s.freed ++ [r], sPRequest := none, sPResponse := none }
  | none => s

def recvQMI (s : State) (m : QMIMsg) : State :=
  match s.sPRequest with
  | some r =>
    let t := { s with readFreed := s.readFreed || decide (r ∈ s.freed) }
    if s.requests[r]?.any fun request => isResponse request m then
      { t with
        freed := s.freed ++ [r]
        sPRequest := none
        sPResponse := some s.copies.length
        copies := s.copies ++ [⟨m, s.written⟩] }
    else { t with events := s.events ++ unsolicited m }
  | none => { s with events := s.events ++ unsolicited m }

inductive Label where
  | call (request : Option QMIMsg) (ppResponse : Bool) (io : Io)
  | wake (timeout : Bool)
  | recv (response : Option QMIMsg)

/-- The threads take turns at `s_commandmutex`, which the wait gives up. -/
def step (s : State) : Label → Option State
  | .call request ppResponse io =>
    if s.waiting = none then
      match request with
      | some request => some (sendQMI s request ppResponse io)
      | none => some s
    else none
  | .wake timeout => s.waiting.map fun w => wake s w.1 w.2 timeout
  | .recv (some response) => some (recvQMI s response)
  | .recv none => some (recvNull s)

end ModemSupport.Cm.QmiThread
