import Mathlib.Data.List.Count
import ModemSupport.Lib.Transition

/-! The QMI proxy behind `qmi_start_server` (`meig-qmi-proxy.c`, and `fibo_qmimsg_server.c` with
the same functions) with its clients and the modem: `accept_qmi_connection`,
`cleanup_qmi_connection`, `send_qmi` and `recv_qmi`, a step for each event of `qmi_proxy_loop`. -/

namespace ModemSupport.Cm.QmiProxy

open Lib.Transition

structure Client where
  QMIType : UInt8
  ClientId : UInt8
  deriving DecidableEq

structure Connection where
  con : Nat
  ClientFd : UInt8
  clients : List Client

inductive Ctl where
  | getClientId (QMIType : UInt8)
  | releaseClientId (client : Client)
  | other
  deriving DecidableEq

structure Request where
  id : Nat
  con : Nat
  ctl : Ctl
  deriving DecidableEq

structure Msg where
  ClientFd : UInt8
  qmi : Request

inductive Response where
  | getClientId (QMIResult QMIError : UInt16) (client : Client)
  | releaseClientId (QMIResult QMIError : UInt16) (client : Client)
  | other

/-- The connections and the queue of the proxy, and the requests that the modem has read and not
answered with the client ids that it has allocated.  The other fields are ghosts: the connections
and requests so far, the requests written to the modem, the responses written to connections (with
the request that the modem answered), the client ids that the modem gave to a connection and whose
release to it it has not confirmed, and the connections that each service frame was written to,
with those that own a client for it. -/
structure State where
  connections : List Connection
  ctlMsg : List Msg
  modem : List Request
  allocated : List Client
  accepted : Nat
  asked : List Request
  written : List Request
  delivered : List (Nat × Request)
  held : List (Nat × Client)
  served : List (List Nat × List Nat)

def init : State where
  connections := []
  ctlMsg := []
  modem := []
  allocated := []
  accepted := 0
  asked := []
  written := []
  delivered := []
  held := []
  served := []

def acceptQmiConnection (s : State) (clientfd : UInt8) : State :=
  { s with
    connections := s.connections ++ [⟨s.accepted, clientfd, []⟩]
    accepted := s.accepted + 1 }

/-- `cleanup_qmi_connection`: the connection goes, and the first of its messages in the queue. -/
def cleanupQmiConnection (s : State) (clientfd : UInt8) : State :=
  { s with
    connections := s.connections.eraseP fun c => c.ClientFd == clientfd
    ctlMsg := s.ctlMsg.eraseP fun m => m.ClientFd == clientfd }

def sendQmiToCdcWdm (s : State) (q : Request) : State :=
  { s with modem := s.modem ++ [q], written := s.written ++ [q] }

def sendQmi (s : State) (q : Request) (clientfd : UInt8) : State :=
  let t := if s.ctlMsg.isEmpty then sendQmiToCdcWdm s q else s
  { t with ctlMsg := s.ctlMsg ++ [⟨clientfd, q⟩] }

/-- `get_client_id` and `release_client_id`. -/
def learn (c : Connection) : Response → Connection
  | .getClientId result error client =>
    if result = 0 ∧ error = 0 then { c with clients := c.clients ++ [client] } else c
  | .releaseClientId result error client =>
    if result = 0 ∧ error = 0 then { c with clients := c.clients.erase client } else c
  | .other => c

/-- The first part of `recv_qmi` for a CTL frame: a response to the request `q` goes to the
connections with the descriptor of the head of the queue. -/
def recvResponse (s : State) (q : Request) (response : Response) : State :=
  match s.ctlMsg with
  | [] => s
  | m :: rest =>
    { s with
      connections := s.connections.map fun c =>
        if c.ClientFd == m.ClientFd then learn c response else c
      delivered := s.delivered ++
        (s.connections.filter fun c => c.ClientFd == m.ClientFd).map fun c => (c.con, q)
      ctlMsg := rest }

/-- The second part of `recv_qmi` for a CTL frame: the head of the queue is sent for each
connection with its descriptor. -/
def sendHead (s : State) : State :=
  match s.ctlMsg with
  | [] => s
  | m :: _ =>
    (s.connections.filter fun c => c.ClientFd == m.ClientFd).foldl
      (fun t _ => sendQmiToCdcWdm t m.qmi) s

/-- What the modem answers: a client id that it has not allocated, or an error. -/
def reply (s : State) (q : Request) (result error : UInt16) (ClientId : UInt8) :
    Option (State × Response) :=
  match q.ctl with
  | .getClientId QMIType =>
    if result = 0 ∧ error = 0 then
      if ⟨QMIType, ClientId⟩ ∈ s.allocated then none
      else
        some ({ s with
          allocated := ⟨QMIType, ClientId⟩ :: s.allocated
          held := (q.con, ⟨QMIType, ClientId⟩) :: s.held },
          .getClientId result error ⟨QMIType, ClientId⟩)
    else some (s, .getClientId result error ⟨QMIType, ClientId⟩)
  | .releaseClientId client =>
    if result = 0 ∧ error = 0 then
      some ({ s with allocated := s.allocated.erase client, held := s.held.erase (q.con, client) },
        .releaseClientId result error client)
    else some (s, .releaseClientId result error client)
  | .other => some (s, .other)

def serves (QMIType ClientId : UInt8) (client : Client) : Bool :=
  QMIType == client.QMIType && (ClientId == 0 || ClientId == client.ClientId)

def writes (s : State) (QMIType ClientId : UInt8) : List Nat :=
  s.connections.flatMap fun c => (c.clients.filter (serves QMIType ClientId)).map fun _ => c.con

/-- The connections that own a client for the frame, in the order of the list. -/
def owners (s : State) (QMIType ClientId : UInt8) : List Nat :=
  (s.connections.map Connection.con).filter fun k =>
    s.held.any fun x => x.1 == k && serves QMIType ClientId x.2

inductive Label where
  | accept (clientfd : UInt8)
  | request (clientfd : UInt8) (ctl : Ctl)
  | respond (result error : UInt16) (ClientId : UInt8)
  | indication
  | service (QMIType ClientId : UInt8)
  | disconnect (clientfd : UInt8)

def newRequest (s : State) (c : Connection) (ctl : Ctl) : Request := ⟨s.asked.length, c.con, ctl⟩

def step (s : State) : Label → Option State
  | .accept clientfd =>
    if clientfd ∈ s.connections.map Connection.ClientFd then none
    else some (acceptQmiConnection s clientfd)
  | .request clientfd ctl =>
    (s.connections.find? fun c => c.ClientFd == clientfd).map fun c =>
      sendQmi { s with asked := s.asked ++ [newRequest s c ctl] } (newRequest s c ctl) clientfd
  | .respond result error ClientId =>
    match s.modem with
    | q :: rest =>
      (reply { s with modem := rest } q result error ClientId).map fun x =>
        sendHead (recvResponse x.1 q x.2)
    | [] => none
  | .indication => some (sendHead s)
  | .service QMIType ClientId =>
    -- QMIType 0 is that of CTL frames.
    if QMIType = 0 then none
    else
      some { s with
        served := s.served ++ [(writes s QMIType ClientId, owners s QMIType ClientId)] }
  | .disconnect clientfd =>
    if clientfd ∈ s.connections.map Connection.ClientFd then some (cleanupQmiConnection s clientfd)
    else none

end ModemSupport.Cm.QmiProxy
