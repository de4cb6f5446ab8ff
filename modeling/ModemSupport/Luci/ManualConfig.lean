import ModemSupport.Luci.Registry

/-! `start_service` of `etc/init.d/modem` up to the dialling: the modems are counted, and the ones
that are configured by hand are filled in from the devices of their networks.  Options that are not
there are empty. -/

namespace ModemSupport.Luci.ManualConfig

open Lib.Pattern

abbrev Str := List Char

structure Section where
  manual : Str
  network : Str
  networkInterface : Str
  path : Str
  driver : Str
  dataInterface : Str
  netDriver : Str
  ports : List Str
  atPort : Str
  name : Str
  manufacturer : Str
  platform : Str
  defineConnect : Str
  modes : List Str

/-- `uci set modem.modemK="modem-device"` where there is none. -/
def Section.empty : Section := ⟨[], [], [], [], [], [], [], [], [], [], [], [], [], []⟩

/-- A device below a modem: a network device with its driver, or a port. -/
inductive Subdevice where
  | net (driver network : Str)
  | port (name : Str)

structure Support where
  manufacturer : Str
  platform : Str
  defineConnect : Str
  modes : List Str

/-- The system: where the link of a network device leads, the modem above it and that modem's
driver, what the loops for a driver find below a modem in their order, the interface found there,
the answers to `AT+CGMM?` at a port, the names that the retries get, and the supported modems. -/
structure System where
  networkPath : Str → Str
  physicalPath : Str → Str
  driver : Str → Str
  subdevices : Str → Str → List Subdevice
  networkInterface : Str → Str
  cgmm : Str → Str
  retried : Str → Nat → Str
  support : Str → Str → Option Support

inductive Field where
  | path
  | driver
  | ports
  | network

/-- `written` is a ghost: which options of which section have been set. -/
structure State where
  sections : Nat → Option Section
  modemNumber : Nat
  manualConfiguration : Str
  cache : Option (List Str)
  written : List (Nat × Field)

def State.set (s : State) (no : Nat) (x : Section) (fields : List Field) : State :=
  { s with
    sections := fun i => if i = no then some x else s.sections i
    written := s.written ++ fields.map (no, ·) }

def State.modemInit (s : State) : State :=
  { s with
    sections := fun i => if i < s.modemNumber then none else s.sections i
    modemNumber := 0 }

/-- Whether `modem_init.sh` is run before the hardware is set. -/
def State.clears (s : State) : Bool :=
  !(s.cache.getD []).any (search Registry.processed) && s.manualConfiguration = ['0']

/-- `m_set_modem_hardware_config`: the number of the modem. -/
def setModemHardwareConfig (sys : System) (s : State) (path : Str) : State × Nat :=
  let driver := sys.driver path
  let dataInterface := if driver = ['u', 's', 'b'] then ['u', 's', 'b'] else ['p', 'c', 'i']
  let s := if s.clears then s.modemInit else s
  let s := { s with cache := Registry.setPhysicalPathStatus s.cache path Registry.processed }
  let modemNo := s.modemNumber
  let s := { s with modemNumber := modemNo + 1 }
  (s.set modemNo { (s.sections modemNo).getD .empty with dataInterface, path, driver }
    [.path, .driver], modemNo)

def modemDrivers : List Str :=
  [['u', 's', 'b'], ['m', 'h', 'i', '-', 'p', 'c', 'i', '-', 'g', 'e', 'n', 'e', 'r', 'i', 'c'],
    ['m', 'h', 'i', '_', 'q']]

/-- One turn of the loops: `m_set_network_config`, or a port. -/
def setSubdevice (sys : System) (modemNo : Nat) (s : State) (d : Subdevice) : State :=
  match s.sections modemNo with
  | none => s
  | some x =>
    match d with
    | .net driver network =>
      s.set modemNo
        { x with
          netDriver := driver
          network := network
          networkInterface := sys.networkInterface x.path } [.network]
    | .port name => s.set modemNo { x with ports := x.ports ++ [name] } [.ports]

/-- `m_set_subdevice_config` with `auto_config` 1, which leaves the AT port alone. -/
def setSubdeviceConfig (sys : System) (s : State) (modemNo : Nat) : State :=
  match s.sections modemNo with
  | none => s
  | some x =>
    if x.path = [] then s
    else
      let s := s.set modemNo { x with ports := [] } [.ports]
      if x.driver ∈ modemDrivers then
        (sys.subdevices x.driver x.path).foldl (setSubdevice sys modemNo) s
      else s

def unknown : Str := ['u', 'n', 'k', 'n', 'o', 'w', 'n']

def modem : Str := ['m', 'o', 'd', 'e', 'm']

def allModes : List Str :=
  ["qmi".toList, "gobinet".toList, "ecm".toList, "mbim".toList, "rndis".toList, "ncm".toList]

def Section.setSupport (x : Section) (name : Str) (info : Support) : Section :=
  { x with
    name := name
    manufacturer := info.manufacturer
    platform := info.platform
    defineConnect := info.defineConnect
    modes := info.modes }

/-- `retry_set_modem_config`: the first of two answers that is supported. -/
def Section.retry (sys : System) (x : Section) : Section :=
  let found (i : Nat) : Option (Str × Support) :=
    let name := sys.retried x.atPort i
    if name = [] then none else (sys.support x.dataInterface name).map (name, ·)
  match found 1 <|> found 2 with
  | none => x
  | some (name, info) => x.setSupport name info

/-- The name, for which the modem is asked when there is none or a placeholder. -/
def Section.modemName (sys : System) (x : Section) : Str :=
  let answer := sys.cgmm x.atPort
  if (x.name = [] ∨ modem <:+: x.name) ∧ answer ≠ [] then answer else x.name

def Section.setName (sys : System) (x : Section) (name : Str) : Section :=
  match sys.support x.dataInterface name with
  | some info => x.setSupport name info
  | none =>
    { x with
      name := if name = [] then unknown else name
      manufacturer := if name = [] then unknown else x.manufacturer
      platform := unknown
      defineConnect := ['1']
      modes := allModes }

def Section.moreConfig (sys : System) (x : Section) : Section :=
  let y := x.setName sys (x.modemName sys)
  if y.name = unknown ∨ modem <:+: y.name then y.retry sys else y

def setModemMoreConfig (sys : System) (s : State) (modemNo : Nat) : State :=
  match s.sections modemNo with
  | none => s
  | some x => if x.path = [] then s else s.set modemNo (x.moreConfig sys) []

def netCount : Str → Nat
  | '/' :: 'n' :: 'e' :: 't' :: s => netCount s + 1
  | _ :: s => netCount s
  | [] => 0

def Section.isManual (x : Section) : Bool := !(x.manual = [] || x.manual = ['0'])

/-- The network devices that are passed over: those above others, and `eth` ones that are not on
USB. -/
def skipped (sys : System) (network : Str) : Bool :=
  netCount (sys.networkPath network) ≥ 2 ||
    ['e', 't', 'h'] <:+: network && !(['u', 's', 'b'] <:+: sys.networkPath network)

def manualSetModemConfig (sys : System) (s : State) (x : Section) : State :=
  if !x.isManual then s
  else if skipped sys x.network then s
  else
    let path := sys.physicalPath (sys.networkPath x.network)
    let s := { s with modemNumber := s.modemNumber - 1 }
    let r := setModemHardwareConfig sys s path
    setModemMoreConfig sys (setSubdeviceConfig sys r.1 r.2) r.2

/-- `start_service` on `modem0` to `modem(n-1)`: `count_modem_number` and `manual_set_modem_config`
for each of them as it has been loaded. -/
def startService (sys : System) (n : Nat) (s : State) : State :=
  let loaded := (List.range n).filterMap s.sections
  let modemCount := loaded.foldl (fun count _ => count + 1) 0
  loaded.foldl (manualSetModemConfig sys) { s with modemNumber := modemCount }

def device (sys : System) (network : Str) : Str := sys.physicalPath (sys.networkPath network)

def Subdevice.port? : Subdevice → Option Str
  | .port name => some name
  | .net _ _ => none

def Subdevice.network? : Subdevice → Option Str
  | .port _ => none
  | .net _ network => some network

def portsOf (sys : System) (path : Str) : List Str :=
  (sys.subdevices (sys.driver path) path).filterMap Subdevice.port?

def networksOf (sys : System) (path : Str) : List Str :=
  (sys.subdevices (sys.driver path) path).filterMap Subdevice.network?

/-- The section of a modem is written from the device of the modem's own network. -/
structure FilledIn (sys : System) (s : State) (k : Nat) (device : Str) : Prop where
  written : ∀ f : Field, (k, f) ∈ s.written
  path : (s.sections k).map Section.path = some device
  driver : (s.sections k).map Section.driver = some (sys.driver device)
  ports : (s.sections k).map Section.ports = some (portsOf sys device)
  network : (s.sections k).map Section.network = (networksOf sys device).getLast?

/-- The sections `modem0` and on, when the service starts. -/
def sectionsOf (xs : List Section) (modemNumber : Nat) (manualConfiguration : Str)
    (cache : Option (List Str)) : State :=
  ⟨fun i => xs[i]?, modemNumber, manualConfiguration, cache, []⟩

/-- The number of modems is right, the sections of manual modems are filled in from their own
devices and the others keep path, network, name and AT port. -/
structure Configured (sys : System) (xs : List Section) (t : State) : Prop where
  modemNumber : t.modemNumber = xs.length
  manual : ∀ k x, xs[k]? = some x → x.isManual = true → FilledIn sys t k (device sys x.network)
  others : ∀ k x, xs[k]? = some x → x.isManual = false → ∃ y, t.sections k = some y ∧
    y.path = x.path ∧ y.network = x.network ∧ y.name = x.name ∧ y.atPort = x.atPort

/-- The network device is one the script takes, on a modem whose driver it knows, with a network
device below it. -/
def Found (sys : System) (network : Str) : Prop :=
  skipped sys network = false ∧ device sys network ≠ [] ∧
    sys.driver (device sys network) ∈ modemDrivers ∧ networksOf sys (device sys network) ≠ []

end ModemSupport.Luci.ManualConfig
