import ModemSupport.Lib.Transition

/-! The votes for the PCIe link: the endpoint asks the host for the link and gives it back
(`pcie_client_resource.c`), and the host counts the endpoint among its voters and removes and
rescans the device with the votes (`pcie_host_resource.c`, with `CONFIG_SPRD_PCIE`). -/

namespace ModemSupport.Pcie.LinkVotes

open Lib.Transition

/-- `enum ep_msg`, as the host brings it about: the doorbells and the reports of the link. -/
inductive EpMsg
  | rcScanned
  | rcRemoving
  | epcUnlink
  | epcLinkup
  deriving DecidableEq

/-- `enum pcie_ep_state`, but for `SPRD_PCIE_WAIT_POWER_OFF`. -/
inductive EpState
  | waitFirstReady
  | waitScanned
  | scanned
  | waitRemoved
  | removed
  deriving DecidableEq

/-- What the client sends to the host: two MSIs, and the wakeup signal of `sprd_pci_epf_start`. -/
inductive HostMsg
  | requestRes
  | releaseRes
  | wakeup

structure Client where
  state : EpState
  msiLater : Bool
  wakeupLater : Bool

/-- `pcie_resource_client_change_state`: a message that does not fit the state is dropped. -/
def changeState : EpMsg → EpState → EpState
  | .rcScanned, .waitFirstReady => .scanned
  | .rcScanned, .waitScanned => .scanned
  | .rcRemoving, .scanned => .waitRemoved
  | .epcUnlink, .waitRemoved => .removed
  | .epcLinkup, .removed => .waitScanned
  | _, old => old

def Client.receive (c : Client) (msg : EpMsg) : Client × List HostMsg :=
  let c := { c with state := changeState msg c.state }
  match msg with
  | .rcScanned =>
    -- if has msi pending, send msi to rc
    if c.msiLater then ({ c with msiLater := false }, [.requestRes]) else (c, [])
  | .rcRemoving => (c, [])
  | .epcUnlink =>
    -- if has wakeup pending, send wakeup to rc
    if c.wakeupLater then ({ c with wakeupLater := false }, [.wakeup]) else (c, [])
  | .epcLinkup => (c, [])

def Client.requestResource (c : Client) : Client × List HostMsg :=
  match c.state with
  | .waitFirstReady => ({ c with msiLater := true }, [])
  | .waitScanned => ({ c with msiLater := true }, [])
  | .waitRemoved => ({ c with wakeupLater := true }, [])
  | .scanned => (c, [.requestRes])
  | .removed => (c, [.wakeup])

def Client.releaseResource (c : Client) : Client × List HostMsg :=
  match c.state with
  | .scanned => (c, [.releaseRes])
  | .waitFirstReady => ({ c with msiLater := false }, [])
  -- `-EPERM`
  | _ => (c, [])

/-- `enum rc_state`, but for the states that are not entered behind the first scan. -/
inductive RcState
  | scanned
  | waitRemoved
  | removed
  deriving DecidableEq

inductive Work
  | scan
  | remove
  deriving DecidableEq

/-- Where the work that the queue runs stands. -/
inductive Running
  | scan
  | remove
  | unconfigure
  | linkDown
  deriving DecidableEq

/-- `struct sprd_pcie_res` of the host, its work queue with the work that runs, whether the device
is configured, and whether the notification of its probe is still to come. -/
structure Host where
  state : RcState
  epPowerOn : Bool
  epDevProbe : Bool
  wq : List Work
  running : Option Running
  configured : Bool
  probed : Bool

/-- `queue_work`: a work that is queued already is not queued again. -/
def Host.queueWork (h : Host) (work : Work) : Host :=
  if work ∈ h.wq then h else { h with wq := h.wq ++ [work] }

def Host.startScan (h : Host) : Host :=
  if h.state = .scanned then h else h.queueWork .scan

def Host.startRemove (h : Host) : Host :=
  if h.state = .scanned then ({ h with state := .waitRemoved } : Host).queueWork .remove else h

def Host.receive (h : Host) : HostMsg → Host
  | .requestRes => { h with epPowerOn := true }
  | .releaseRes => { h with epPowerOn := false }
  | .wakeup => { h with epPowerOn := true }

def Host.notifyProbe (h : Host) : Host × List EpMsg :=
  ({ h with state := .scanned, epDevProbe := true, probed := false }, [.rcScanned])

def Host.work (h : Host) : Option (Host × List EpMsg) :=
  match h.running with
  | none =>
    match h.wq with
    | [] => none
    | .scan :: wq => some ({ h with wq := wq, running := some .scan }, [])
    | .remove :: wq => some ({ h with wq := wq, running := some .remove }, [])
  | some .scan =>
    -- A device that is configured stays as it is.
    if h.configured then some ({ h with running := none }, [])
    else some ({ h with running := none, configured := true, probed := true }, [.epcLinkup])
  | some .remove =>
    if h.epDevProbe then some ({ h with running := some .unconfigure }, [.rcRemoving])
    else some ({ h with running := none }, [])
  | some .unconfigure =>
    -- The remove of the device notifies, and cancels the notification of the probe.
    some ({ h with state := .removed, epDevProbe := false, probed := false,
                   running := some .linkDown }, [])
  | some .linkDown => some ({ h with running := none, configured := false }, [.epcUnlink])

/-- The two sides and the messages in flight, the other voters of the host, whether the power
manager's last call was a request, and the last call of the client, `some true` for a request. -/
structure State where
  client : Client
  host : Host
  toClient : List EpMsg
  toHost : List HostMsg
  others : Nat
  requested : Bool
  last : Option Bool

/-- Behind the first scan: the endpoint has its first vote, and the doorbell is on its way. -/
def init : State where
  client := ⟨.waitFirstReady, false, false⟩
  host := ⟨.scanned, true, true, [], none, true, false⟩
  toClient := [.rcScanned]
  toHost := []
  others := 0
  requested := false
  last := none

def State.voted (s : State) : Bool := s.host.epPowerOn || decide (0 < s.others)

inductive Label
  | clientRequest
  | clientRelease
  | toClient
  | toHost
  | work
  | notifyProbe
  | voteUp
  | voteDown
  | hostRequest
  | hostRelease

def State.fromClient (s : State) (x : Client × List HostMsg) : State :=
  { s with client := x.1, toHost := s.toHost ++ x.2 }

def State.fromHost (s : State) (x : Host × List EpMsg) : State :=
  { s with host := x.1, toClient := s.toClient ++ x.2 }

def step (s : State) : Label → Option State
  -- The client's calls alternate, beginning with a request.
  | .clientRequest =>
    if s.last = some true then none
    else some { s.fromClient s.client.requestResource with last := some true }
  | .clientRelease =>
    if s.last = some true then
      some { s.fromClient s.client.releaseResource with last := some false }
    else none
  | .toClient =>
    match s.toClient with
    | [] => none
    | msg :: rest => some (({ s with toClient := rest } : State).fromClient (s.client.receive msg))
  | .toHost =>
    match s.toHost with
    | [] => none
    | msg :: rest => some { s with host := s.host.receive msg, toHost := rest }
  | .work => s.host.work.map s.fromHost
  | .notifyProbe => if s.host.probed then some (s.fromHost s.host.notifyProbe) else none
  | .voteUp => some { s with others := s.others + 1 }
  | .voteDown => if 0 < s.others then some { s with others := s.others - 1 } else none
  -- The power manager calls when the number of voters has become non-zero, and zero.
  | .hostRequest =>
    if s.voted && !s.requested then some { s with host := s.host.startScan, requested := true }
    else none
  | .hostRelease =>
    if !s.voted && s.requested then some { s with host := s.host.startRemove, requested := false }
    else none

end ModemSupport.Pcie.LinkVotes
