import ModemSupport.Lib.Text
import ModemSupport.Lib.Transition

/-! The uci slots of the modems and the variables that `modeswitch.sh` saves, over the hotplug
events of USB devices. -/

namespace ModemSupport.Rooter.Modeswitch

open Lib.Text Lib.Transition

/-- `MODCNT` of `modeswitch.sh`; an `add` takes `MODCNTX` of `/tmp/modcnt` instead. -/
def modCnt : Nat := 6

structure Slot where
  empty : Bool
  active : Bool
  device : List Char
  uVid : List Char
  uPid : List Char
  idV : List Char
  idP : List Char
  baseport : Nat
  maxport : Nat
  wwan : List Char
  wdm : List Char

/-- A section with nothing but `empty` set. -/
def Slot.vacant : Slot := ⟨true, false, [], [], [], [], [], 0, 0, [], []⟩

structure Variables where
  modStart : Nat
  wwan : List Char
  wdmn : List Char
  basePort : Nat
  deriving DecidableEq

def Variables.start : Variables := ⟨1, "0".toList, "0".toList, 0⟩

/-- A USB device as its attributes show it when its event comes. -/
structure Device where
  name : List Char
  uVid : List Char
  uPid : List Char
  uMa : List Char
  uPr : List Char

/-- What `add` learns from elsewhere: the two results of `proto.sh`, whether `usb-mode.json` lists
the device and the two other services are installed, the ids after the switch and `PORTN` of
`/tmp/drv`. -/
structure Detection where
  first : Nat
  listed : Bool
  mjpgStreamer : Bool
  p910nd : Bool
  idV : List Char
  idP : List Char
  proto : Nat
  portn : Option Nat

/-- `plugged` is a ghost: the devices that have been added and not removed, with the `CURRMODEM`
that their connection script was started with, if one was. -/
structure State where
  slots : Nat → Slot
  vars : Variables
  plugged : List (List Char × Option Nat)

def init : State := ⟨fun _ => .vacant, .start, []⟩

namespace State

variable (s : State)

def findDevice (cnt : Nat) (devn : List Char) : Option Nat :=
  (List.range' 1 cnt).find? fun k => !(s.slots k).empty && (s.slots k).device == devn

def checkAllEmpty : State :=
  if (List.range' 1 modCnt).any fun k => !(s.slots k).empty && (s.slots k).active then s
  else
    { s with
      slots := fun k => if 1 ≤ k ∧ k ≤ modCnt then .vacant else s.slots k
      vars := .start }

end State

def adapters : List (List Char × List Char) :=
  [("13b1".toList, "0041".toList), ("2357".toList, "0601".toList), ("0b95".toList, "772b".toList),
    ("0b95".toList, "1790".toList), ("0bda".toList, "8152".toList)]

def Device.ignored (d : Device) : Bool :=
  d.name.contains ':' || d.uMa.isEmpty || (find "hub".toList (d.uPr.map Char.toLower)).isSome ||
    d.uVid == "1d6b".toList || adapters.contains (d.uVid, d.uPid)

def Detection.other (x : Detection) : Bool :=
  x.mjpgStreamer && x.first == 99 || x.p910nd && x.first == 98 || x.first == 97 && !x.listed

/-- `retval` behind the second `proto.sh`. -/
def Detection.retval (x : Detection) : Nat :=
  if x.idV = "8087".toList ∧ x.idP = "095a".toList ∨
      x.idV = "2cb7".toList ∧ x.idP = "000b".toList then 28
  else x.proto

/-- What `add` goes on with: `reinsert`, the slot, the variables in memory and the saved ones. -/
structure Choice where
  reinsert : Bool
  slot : Nat
  memory : Variables
  saved : Variables

def Choice.take (c : Choice) (value : List Char) (set : Variables → Variables) : Choice :=
  if value = [] then c else { c with memory := set c.memory, saved := set c.memory }

/-- The reinsertion into slot `k`. -/
def Variables.reinsert (v : Variables) (k : Nat) (slot : Slot) : Choice :=
  ((⟨true, k, { v with modStart := k }, v⟩ : Choice).take slot.wwan
    fun v => { v with wwan := slot.wwan }).take slot.wdm fun v => { v with wdmn := slot.wdm }

namespace State

variable (s : State)

def reinserted (modCntX : Nat) (d : Device) : Option Nat :=
  (s.findDevice modCntX d.name).filter fun k =>
    !(s.slots k).active && d.uVid == (s.slots k).uVid && d.uPid == (s.slots k).uPid

/-- `none` is a device whose slot is active, or was that of a different modem. -/
def choose (modCntX : Nat) (d : Device) : Option Choice :=
  match s.findDevice modCntX d.name with
  | none => some ⟨false, s.vars.modStart, s.vars, s.vars⟩
  | some _ => (s.reinserted modCntX d).map fun k => s.vars.reinsert k (s.slots k)

def setSlot (k : Nat) (slot : Slot) : State :=
  { s with slots := fun j => if j = k then slot else s.slots j }

def detected (d : Device) (x : Detection) (c : Choice) : State × Option Nat :=
  if x.retval = 0 then ({ s with vars := c.saved }, none)
  else if c.reinsert then
    ({ s with vars := c.saved : State }.setSlot c.slot { s.slots c.slot with active := true },
      some c.slot)
  else
    ({ s with
        vars :=
          { c.memory with
            modStart := c.memory.modStart + 1
            basePort := x.portn.getD 0 + c.memory.basePort } : State }.setSlot c.slot
      { s.slots c.slot with
        empty := false
        active := true
        device := d.name
        uVid := d.uVid
        uPid := d.uPid
        idV := x.idV
        idP := x.idP
        baseport := c.memory.basePort
        maxport := x.portn.getD 0 + c.memory.basePort }, some c.slot)

def add (modCntX : Nat) (d : Device) (x : Detection) : State × Option Nat :=
  if d.ignored || x.other then (s, none)
  else
    match s.choose modCntX d with
    | none => (s, none)
    | some c =>
      if c.memory.modStart > modCntX then ({ s with vars := c.saved }, none)
      else s.detected d x c

def remove (d : Device) : State :=
  if d.name.contains ':' then s
  else
    match s.findDevice modCnt d.name with
    | none => s
    | some k =>
      if d.uVid = (s.slots k).idV then s
      else (s.setSlot k { s.slots k with active := false }).checkAllEmpty

end State

/-- The events: `write` is the connection script of a modem, which sets `wwan` and `wdm`. -/
inductive Label where
  | add (d : Device) (x : Detection)
  | remove (d : Device)
  | write (k : Nat) (wwan wdm : List Char)

/-- One event. A device is added when it is not plugged in, and removed when it is, without the ids
of its slot. -/
def step (modCntX : Nat) (s : State) : Label → Option State
  | .add d x =>
    if ∃ p ∈ s.plugged, p.1 = d.name then none
    else
      some { (s.add modCntX d x).1 with
        plugged := (d.name, (s.add modCntX d x).2) :: s.plugged }
  | .remove d =>
    if (∃ p ∈ s.plugged, p.1 = d.name) ∧
        (s.findDevice modCnt d.name).all (fun k => d.uVid ≠ (s.slots k).idV) then
      some { s.remove d with plugged := s.plugged.filter fun p => p.1 ≠ d.name }
    else none
  | .write k wwan wdm =>
    if some k ∈ s.plugged.map Prod.snd then
      some (s.setSlot k { s.slots k with wwan := wwan, wdm := wdm })
    else none

def Slot.Owns (slot : Slot) (port : Nat) : Prop := slot.baseport ≤ port ∧ port < slot.maxport

/-- The modems that are plugged in have slots of their own, `MODSTART` is one more than the number
of slots that are not empty, and these have serial ports of their own. -/
structure Apart (modCntX : Nat) (s : State) : Prop where
  slots : ∀ p ∈ s.plugged, ∀ q ∈ s.plugged, p.1 ≠ q.1 → ∀ k, p.2 = some k → q.2 ≠ some k
  start : s.vars.modStart =
    (List.range' 1 modCntX).countP (fun k => !(s.slots k).empty) + 1
  ports : ∀ j k, 1 ≤ j → j < k → k ≤ modCntX → (s.slots j).empty = false →
    (s.slots k).empty = false → ∀ port, (s.slots j).Owns port → ¬(s.slots k).Owns port

/-- An `add` changes no slot that is active. -/
def Kept (s : State) (l : Label) (t : State) : Prop :=
  ∀ d x, l = .add d x → ∀ k, (s.slots k).active = true → t.slots k = s.slots k

/-- A reinsertion finds no `wwan` and no `wdm` in its slot. -/
def Ok (modCntX : Nat) (s : State) : Label → Prop
  | .add d x => d.ignored = true ∨ x.other = true ∨
      (s.reinserted modCntX d).all
        (fun k => (s.slots k).wwan.isEmpty && (s.slots k).wdm.isEmpty) = true
  | _ => True

end ModemSupport.Rooter.Modeswitch
