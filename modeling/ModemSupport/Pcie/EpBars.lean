import Mathlib.Data.Fintype.Pi
import ModemSupport.Lib.Transition

/-! The BAR windows of the PCIe endpoint device (`sprd_pcie_ep_device.c`): handing out and giving
back a BAR, mapping one for the CPU or for the IPA, and the copy of all windows that is taken
before the device is removed and put back when it is probed again. There is one endpoint, and its
BARs are all present. -/

namespace ModemSupport.Pcie.EpBars

open Lib.Transition

/-- `BAR_MAX`: the BARs from it on are not handed out. -/
def barMax : Nat := 4

abbrev Bar := Fin barMax

/-- `BAR_MIN`: the BARs below it are the IPA's. -/
def barMin : Bar := ⟨2, by decide⟩

inductive IpaType
  | mem
  | reg

def IpaType.bar : IpaType → Bar
  | .mem => ⟨0, by decide⟩
  | .reg => ⟨1, by decide⟩

structure Resource where
  start : UInt64
  size : UInt64
  start_pos : 0 < start.toNat
  size_pos : 0 < size.toNat
  fits : start.toNat + size.toNat ≤ 2 ^ 64

structure Mapping where
  bar : Bar
  nr : Nat
  deriving DecidableEq

/-- An address in the range that `ioremap` returned for a mapping. -/
structure Ptr where
  mapping : Mapping
  offset : UInt64
  deriving DecidableEq

/-- What `struct sprd_pci_ep_dev` and its saved copy hold of a BAR. `made` is the mapping that the
fields were filled in for; the code has no such field. -/
structure Window where
  barVir : Option Mapping := none
  cpuVir : Option Ptr := none
  srcAddr : UInt64 := 0
  targetAddr : UInt64 := 0
  mapSize : UInt64 := 0
  made : Option Mapping := none
  deriving DecidableEq

structure SprdPciEpDev where
  barRes : Bar → Bool := fun _ => false
  windows : Bar → Window := fun _ => {}
  needBackup : Bool := false
  legacyAddr : Option Ptr := none

structure SprdPciEpDevSave where
  barRes : Bar → Bool := fun _ => false
  windows : Bar → Window := fun _ => {}

/-- The globals, with what the properties are about: the mappings that were made and not undone,
and, from a remove that made a backup to the next probe, what the windows were for the mappings that
outlived it. -/
structure State where
  gEpDev : Option SprdPciEpDev
  gEpSave : SprdPciEpDevSave
  live : List Mapping
  next : Nat
  before : Option (Bar → Window)

def init : State := ⟨none, {}, [], 0, none⟩

variable (res : Bar → Resource)

def SprdPciEpDev.getBar (d : SprdPciEpDev) : Option Bar :=
  (List.finRange barMax).find? fun bar => decide (barMin ≤ bar) && !d.barRes bar

def State.sprdEpDevGetBar (s : State) : Option (Bar × State) :=
  s.gEpDev.bind fun d =>
    d.getBar.map fun bar =>
      (bar, { s with gEpDev := some { d with barRes := Function.update d.barRes bar true } })

def State.sprdEpDevPutBar (s : State) (bar : Bar) : State :=
  { s with gEpDev := s.gEpDev.map fun d =>
      { d with barRes := Function.update d.barRes bar false } }

def pageAlign (n : UInt64) : UInt64 := (n + 4095) / 4096 * 4096

/-- The base, the size and the offset of a region, when it fits in the BAR. -/
def sprdEpDevAdjustRegion (r : Resource) (cpuAddr size : UInt64) :
    Option (UInt64 × UInt64 × UInt64) :=
  let base := cpuAddr / r.size * r.size
  let offset := cpuAddr - base
  let size := pageAlign size + pageAlign offset
  if size > r.size then none else some (base, size, offset)

def State.iounmap (s : State) (p : Option Mapping) : State :=
  { s with live := s.live.filter fun m => some m ≠ p }

/-- Whether `ioremap` and the address translation step succeed. -/
structure Io where
  ioremap : Bool
  translation : Bool

def State.sprdEpDevMapBar (s : State) (bar : Bar) (cpuAddr size : UInt64) (io : Io) :
    Option Ptr × State :=
  match s.gEpDev with
  | none => (none, s)
  | some d =>
    -- bar is be used
    if (d.windows bar).barVir.isSome then (none, s)
    else
      match sprdEpDevAdjustRegion (res bar) cpuAddr size with
      | none => (none, s)
      | some (base, size, offset) =>
        if io.ioremap then
          let m : Mapping := ⟨bar, s.next⟩
          let s := { s with live := m :: s.live, next := s.next + 1 }
          if io.translation then
            let w : Window := ⟨some m, some ⟨m, offset⟩,
              (res bar).start + offset, base, size, some m⟩
            (some ⟨m, offset⟩,
              { s with gEpDev := some { d with windows := Function.update d.windows bar w } })
          else
            -- The field is unmapped, not the address that `ioremap` returned.
            (none, s.iounmap (d.windows bar).barVir)
        else (none, s)

def State.sprdEpDevUnmapBar (s : State) (bar : Bar) : State :=
  match s.gEpDev with
  | none => s
  | some d =>
    if (d.windows bar).barVir.isSome then
      { s.iounmap (d.windows bar).barVir with
        gEpDev := some { d with windows := Function.update d.windows bar {} } }
    else s

def State.sprdEpMapMemory (s : State) (cpuAddr size : UInt64) (io : Io) : Option Ptr × State :=
  match s.sprdEpDevGetBar with
  | none => (none, s)
  | some (bar, t) =>
    match t.sprdEpDevMapBar res bar cpuAddr size io with
    | (none, t) => (none, t.sprdEpDevPutBar bar)
    | (some p, t) => (some p, t)

def State.sprdEpUnmapMemory (s : State) (barAddr : Option Ptr) : State :=
  match s.gEpDev with
  | none => s
  | some d =>
    match (List.finRange barMax).find? fun bar => barAddr = (d.windows bar).cpuVir with
    | none => s
    | some bar => (s.sprdEpDevUnmapBar bar).sprdEpDevPutBar bar

def State.sprdEpIpaMap (s : State) (type : IpaType) (targetAddr size : UInt64)
    (translation : Bool) : UInt64 × State :=
  match s.gEpDev with
  | none => (0, s)
  | some d =>
    match sprdEpDevAdjustRegion (res type.bar) targetAddr size with
    | none => (0, s)
    | some (base, size, offset) =>
      if translation then
        let m : Mapping := ⟨type.bar, s.next⟩
        let w := d.windows type.bar
        let s := s.iounmap w.made
        let w := { w with
          srcAddr := (res type.bar).start + offset
          targetAddr := base
          mapSize := size
          made := some m }
        (w.srcAddr, { s with
          gEpDev := some { d with windows := Function.update d.windows type.bar w }
          live := m :: s.live
          next := s.next + 1 })
      else (0, s)

/-- What unmapping leaves of an IPA's window: the source address stays. -/
def Window.ipaUnmapped (w : Window) : Window := { w with targetAddr := 0, mapSize := 0 }

def State.sprdEpIpaUnmap (s : State) (type : IpaType) (cpuAddr : UInt64) : State :=
  match s.gEpDev with
  | none => s
  | some d =>
    if (d.windows type.bar).srcAddr = cpuAddr then
      let w := (d.windows type.bar).ipaUnmapped
      { s.iounmap (d.windows type.bar).made with
        gEpDev := some { d with windows := Function.update d.windows type.bar w } }
    else s

/-- `sprd_pci_ep_dev_backup`: what is saved of a BAR without a source address stays. -/
def SprdPciEpDev.backup (d : SprdPciEpDev) (save : SprdPciEpDevSave) : SprdPciEpDevSave where
  barRes := d.barRes
  windows := fun i => if (d.windows i).srcAddr = 0 then save.windows i else d.windows i

def SprdPciEpDev.restore (d : SprdPciEpDev) (save : SprdPciEpDevSave) : SprdPciEpDev :=
  { d with
    barRes := save.barRes
    windows := fun i => if (save.windows i).srcAddr = 0 then d.windows i else save.windows i }

def State.sprdEpDevSetBackup (s : State) : State :=
  match s.gEpDev with
  | none => s
  | some d =>
    { s with gEpDev := some { d with needBackup := true }, gEpSave := d.backup s.gEpSave }

def State.sprdEpDevClearBackup (s : State) : State :=
  { s with gEpDev := s.gEpDev.map fun d => { d with needBackup := false } }

def pcieLegacyClearBase : UInt64 := 0x29000000

def State.restored (s : State) : State :=
  { s with gEpDev := some (({} : SprdPciEpDev).restore s.gEpSave), before := none }

def State.mapLegacy (s : State) (io : Io) : State :=
  { (s.sprdEpMapMemory res pcieLegacyClearBase 0x4000 io).2 with
    gEpDev := (s.sprdEpMapMemory res pcieLegacyClearBase 0x4000 io).2.gEpDev.map fun d =>
      { d with legacyAddr := (s.sprdEpMapMemory res pcieLegacyClearBase 0x4000 io).1 } }

def State.sprdPciEpDevProbe (s : State) (msi : Bool) (io : Io) : State :=
  if msi then s.restored else s.restored.mapLegacy res io

/-- A BAR holds a mapping that was made and not undone. -/
def State.Holds (s : State) (d : SprdPciEpDev) (bar : Bar) : Prop :=
  ∃ m ∈ s.live, (d.windows bar).made = some m

instance (s : State) (d : SprdPciEpDev) (bar : Bar) : Decidable (s.Holds d bar) :=
  inferInstanceAs (Decidable (∃ m ∈ s.live, (d.windows bar).made = some m))

/-- The mapping for the legacy interrupt, which the probe made and the remove undoes. -/
def SprdPciEpDev.Legacy (d : SprdPciEpDev) (bar : Bar) : Prop :=
  d.legacyAddr.isSome ∧ (d.windows bar).cpuVir = d.legacyAddr

instance (d : SprdPciEpDev) (bar : Bar) : Decidable (d.Legacy bar) :=
  inferInstanceAs (Decidable (_ ∧ _))

/-- What the windows are for the mappings that are live and that the remove does not undo. -/
def State.outliving (s : State) (d : SprdPciEpDev) (bar : Bar) : Window :=
  if s.Holds d bar ∧ ¬d.Legacy bar then d.windows bar else {}

/-- The saved copy behind the backup that a remove makes when it has to. -/
def SprdPciEpDev.saved (d : SprdPciEpDev) (save : SprdPciEpDevSave) : SprdPciEpDevSave :=
  if d.needBackup then d.backup save else save

def State.unmapLegacy (s : State) (d : SprdPciEpDev) : State :=
  if d.legacyAddr.isSome then s.sprdEpUnmapMemory d.legacyAddr else s

/-- The backup comes before the legacy mapping is undone. -/
def State.sprdPciEpDevRemove (s : State) (d : SprdPciEpDev) : State :=
  { ({ s with gEpSave := d.saved s.gEpSave } : State).unmapLegacy d with
    gEpDev := none
    before := if d.needBackup then some (s.outliving d) else none }

inductive Label
  | mapMemory (cpuAddr size : UInt64) (io : Io)
  | unmapMemory (barAddr : Option Ptr)
  | ipaMap (type : IpaType) (targetAddr size : UInt64) (translation : Bool)
  | ipaUnmap (type : IpaType) (cpuAddr : UInt64)
  | setBackup
  | clearBackup
  | remove
  | probe (msi : Bool) (io : Io)

def step (s : State) : Label → Option State
  | .mapMemory cpuAddr size io => some (s.sprdEpMapMemory res cpuAddr size io).2
  | .unmapMemory barAddr => some (s.sprdEpUnmapMemory barAddr)
  | .ipaMap type targetAddr size translation =>
    some (s.sprdEpIpaMap res type targetAddr size translation).2
  | .ipaUnmap type cpuAddr => some (s.sprdEpIpaUnmap type cpuAddr)
  | .setBackup => some s.sprdEpDevSetBackup
  | .clearBackup => some s.sprdEpDevClearBackup
  | .remove => s.gEpDev.map s.sprdPciEpDevRemove
  | .probe msi io => if s.gEpDev.isNone then some (s.sprdPciEpDevProbe res msi io) else none

end ModemSupport.Pcie.EpBars
