import ModemSupport.Lib.Pattern
import ModemSupport.Lib.Transition

/-! The modem registry of `modem_util.sh`, `modem_scan.sh` and `modem_init.sh`: the modem-device
sections of the uci package modem, `modem_number`, and the cache file of physical paths. -/

namespace ModemSupport.Luci.Registry

open Lib.Pattern Lib.Transition

/-- The characters of a path that stand for themselves in a pattern, and the dot. -/
def plain (c : Char) : Bool :=
  c.isAlphanum || c == '/' || c == '.' || c == '-' || c == '_' || c == ':' || c == '@'

/-- A modem of a vendor that is supported: its physical path, its driver, and whether its network
devices are those of PCI modems. -/
structure Device where
  path : List Char
  driver : List Char
  pci : Bool
  absolute : path.head? = some '/'
  plain : path.all plain = true
  deriving DecidableEq

structure Section where
  dataInterface : List Char
  path : List Char
  driver : List Char

/-- `cache` are the lines of `MODEM_PHYSICAL_DEVICE_CACHE`, when it is there.  Ghosts: the devices
that are plugged in, and which of them have been added or scanned. -/
structure State where
  sections : Nat → Option Section
  modemNumber : Nat
  cache : Option (List (List Char))
  plugged : List Device
  known : List Device

def init : State := ⟨fun _ => none, 0, none, [], []⟩

def processed : List Char := "processed".toList

def delPhysicalPathStatus (cache : Option (List (List Char))) (path : List Char) :
    Option (List (List Char)) :=
  cache.map (delete path)

def getPhysicalPathStatus (cache : Option (List (List Char))) (path : List Char) : List Char :=
  (cache.map (lookup path)).getD []

def setPhysicalPathStatus (cache : Option (List (List Char))) (path status : List Char) :
    Option (List (List Char)) :=
  some ((delPhysicalPathStatus cache path).getD [] ++ [record path status])

def State.modemInit (s : State) : State :=
  { s with
    sections := fun i => if i < s.modemNumber then none else s.sections i
    modemNumber := 0 }

def State.setModemHardwareConfig (s : State) (d : Device) : State :=
  let s := if (s.cache.getD []).any (search processed) then s else s.modemInit
  let dataInterface := if d.driver = "usb".toList then "usb".toList else "pci".toList
  { s with
    cache := setPhysicalPathStatus s.cache d.path processed
    modemNumber := s.modemNumber + 1
    sections := fun i =>
      if i = s.modemNumber then some ⟨dataInterface, d.path, d.driver⟩ else s.sections i }

def State.modemNo (s : State) (path : List Char) : Option Nat :=
  (List.range s.modemNumber).find? fun i => ((s.sections i).map Section.path).getD [] == path

def State.delModemConfig (s : State) (path : List Char) : State :=
  match s.modemNo path with
  | none => s
  | some no =>
    { s with
      sections := fun i => if i = no then none else s.sections i
      modemNumber := s.modemNumber - 1
      cache := delPhysicalPathStatus s.cache path }

def State.addPhysicalDevice (s : State) (d : Device) : State :=
  if getPhysicalPathStatus s.cache d.path = processed then s else s.setModemHardwareConfig d

/-- `modem_scan` with `usb_scan` and `pci_scan` 1, which finds the devices in some order. -/
def State.modemScan (s : State) (devices : List Device) : State :=
  devices.foldl State.setModemHardwareConfig s.modemInit

/-- The hotplug events of the modems of a fleet, and the two commands.  Modems are plugged in before
any event of theirs.  A PCI modem leaves with the remove event of its network device, an USB modem
with its USB remove event. -/
inductive Label where
  | plug (d : Device)
  | netAdd (d : Device)
  | netRemove (d : Device)
  | usbRemove (d : Device)
  | modemScan (devices : List Device)
  | modemInit

def State.remove (s : State) (d : Device) : State :=
  { s.delModemConfig d.path with
    plugged := s.plugged.filter (· ≠ d)
    known := s.known.filter (· ≠ d) }

def step (fleet : List Device) (s : State) : Label → Option State
  | .plug d =>
    if d ∈ fleet ∧ d ∉ s.plugged then some { s with plugged := s.plugged ++ [d] } else none
  | .netAdd d =>
    if d ∈ s.plugged then
      some { s.addPhysicalDevice d with known := if d ∈ s.known then s.known else s.known ++ [d] }
    else none
  | .netRemove d =>
    if d ∈ fleet then some (if d.pci then s.remove d else s) else none
  | .usbRemove d => if d ∈ fleet ∧ d.pci = false then some (s.remove d) else none
  | .modemScan devices =>
    if devices.Perm s.plugged then some { s.modemScan devices with known := devices } else none
  | .modemInit => some s.modemInit

def State.HasSection (s : State) (path : List Char) : Prop :=
  ∃ k x, s.sections k = some x ∧ x.path = path

/-- The sections are those of the modems that are plugged in and known, and the cache has their
paths. -/
structure Consistent (fleet : List Device) (s : State) : Prop where
  numbered : ∀ k, (s.sections k).isSome = true ↔ k < s.modemNumber
  distinct : ∀ j k x y, s.sections j = some x → s.sections k = some y → x.path = y.path → j = k
  known : ∀ d ∈ s.plugged, d ∈ s.known → s.HasSection d.path
  unplugged : ∀ d ∈ fleet, d ∉ s.plugged → ¬ s.HasSection d.path
  status : ∀ d ∈ fleet,
    getPhysicalPathStatus s.cache d.path = processed ↔ s.HasSection d.path

def Overwrites (s t : State) : Prop := ∃ k x, s.sections k = some x ∧ t.sections k ≠ some x

end ModemSupport.Luci.Registry
