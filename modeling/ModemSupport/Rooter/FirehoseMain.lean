import ModemSupport.Rooter.Firehose

/-! `firehose_main` from its table of commands on: the passes over the table, and what the target
answers to each command. -/

namespace ModemSupport.Rooter.FirehoseMain

open Firehose

/-- The attributes of an erase command; the parser takes zero for one that is not there. -/
structure Erase where
  sectorSizeInBytes : Option Nat
  numPartitionSectors : Option Nat
  startSector : Option Nat
  lastSector : Option Nat

/-- A program command.  For a sparse image there are its runs: the sectors of the data, and the
blocks of the holes that the table has behind it. -/
structure Program where
  numPartitionSectors : Nat
  startSector : Nat
  runs : Option (List (Nat × Nat))

inductive Cmd where
  | erase (e : Erase)
  | program (p : Program)
  | patch
  | vendor

inductive Sent where
  | configure
  | erase (x : Nat) (e : Erase)
  | vendor (x : Nat)
  | program (x startSector : Nat)
  | patch (x : Nat)
  | setbootablestoragedrive
  | reset

/-- What is seen on the wire; `image` is an image that has been sent to its end. -/
inductive Event where
  | sent (c : Sent)
  | got (r : Response)
  | image

/-- The answers that the target gives from now on, with `none` for a wait that runs out of time,
whether images can be sent, and what has been seen. -/
structure Wire where
  answers : List (Option Response)
  images : List Bool
  trace : List Event

/-- A part of `firehose_main`, without a result when it ends with `error_return`. -/
def M (α : Type) : Type := Wire → Option α × Wire

namespace M

variable {α β : Type}

def bind (m : M α) (f : α → M β) : M β := fun w =>
  match m w with
  | (none, w) => (none, w)
  | (some a, w) => f a w

instance : Monad M where
  pure a := fun w => (some a, w)
  bind := bind

end M

def errorReturn {α : Type} : M α := fun w => (none, w)

def send (c : Sent) : M Unit := fun w => (some (), { w with trace := w.trace ++ [.sent c] })

def wait : M Response := fun w =>
  match w.answers with
  | [] => (none, w)
  | none :: as => (none, { w with answers := as })
  | some r :: as => (some r, { w with answers := as, trace := w.trace ++ [.got r] })

def sendImage : M Unit := fun w =>
  match w.images with
  | true :: is => (some (), { w with images := is, trace := w.trace ++ [.image] })
  | is => (none, { w with images := is.tail })

def require (b : Bool) : M Unit := if b then pure () else errorReturn

def M.when (b : Bool) (m : M Unit) : M Unit := if b then m else pure ()

/-- `fh_process_erase`, `fh_process_patch`, and a vendor command. -/
def simple (c : Sent) : M Unit := do
  send c
  let r ← wait
  require (r.value = some .ack)

def fhProcessErase (x : Nat) (e : Erase) : M Unit := simple (.erase x e)

def fhProcessPatch (x : Nat) : M Unit := simple (.patch x)

def withImage (c : Sent) : M Unit := do
  send c
  let r ← wait
  require (r.value = some .ack)
  require r.rawmode
  sendImage
  let r ← wait
  require (r.value = some .ack)
  require !r.rawmode

def sparseLoop (x : Nat) : Nat → List (Nat × Nat) → M Nat
  | start, [] => pure start
  | start, [_] => do
    withImage (.program x start)
    pure start
  | start, (n, holes) :: run :: runs => do
    withImage (.program x start)
    sparseLoop x ((start + (n + holes * 8 % 2 ^ 32)) % 2 ^ 32) (run :: runs)

def fhProcessProgram (x : Nat) (p : Program) : M Program :=
  match p.runs with
  | none => do
    withImage (.program x p.startSector)
    pure p
  | some runs => do
    let start ← sparseLoop x p.startSector runs
    pure { p with startSector := start }

def fhSendCfgCmd : M Unit := do
  send .configure
  let r ← wait
  if r.value = some .nak ∧ r.maxPayload ≠ 0 then
    send .configure
    let r ← wait
    require (r.value = some .ack)
  else require (r.value = some .ack)

def forEach (f : Nat → Cmd → M Unit) : Nat → List Cmd → M Unit
  | _, [] => pure ()
  | x, c :: cs => do
    f x c
    forEach f (x + 1) cs

def maxSectors (n : Nat) : Cmd → Nat
  | .erase e => max n ((e.numPartitionSectors.getD 0 + e.startSector.getD 0) % 2 ^ 32)
  | _ => n

def maxNumPartitionSectors (table : List Cmd) : Nat := table.foldl maxSectors 0

/-- The text of an erase command that erases all: `fh_xml_set_value` changes what is there. -/
def Erase.all (sectors : Nat) (e : Erase) : Erase :=
  { e with
    numPartitionSectors := e.numPartitionSectors.map fun _ => sectors
    lastSector :=
      if e.lastSector.getD 0 ≠ 0 then e.lastSector.map fun _ => (sectors + (2 ^ 32 - 1)) % 2 ^ 32
      else e.lastSector }

def eraseFirst (eraseAll : Bool) (sectors x : Nat) : Cmd → M Unit
  | .erase e =>
    if e.startSector.getD 0 ≠ 0 then pure ()
    else fhProcessErase x (if eraseAll then e.all sectors else e)
  | _ => pure ()

def vendor (x : Nat) : Cmd → M Unit
  | .vendor => simple (.vendor x)
  | _ => pure ()

def eraseRest (nand : Bool) (x : Nat) : Cmd → M Unit
  | .erase e =>
    if e.sectorSizeInBytes.getD 0 = 0 then pure ()
    else if nand ∧ e.startSector.getD 0 = 0 then pure ()
    else fhProcessErase x e
  | _ => pure ()

def patch (x : Nat) : Cmd → M Unit
  | .patch => fhProcessPatch x
  | _ => pure ()

def programs (skip : Program → Bool) : Nat → List Cmd → M (List Cmd)
  | _, [] => pure []
  | x, .program p :: cs =>
    if skip p then do
      let cs ← programs skip (x + 1) cs
      pure (.program p :: cs)
    else do
      let p ← fhProcessProgram x p
      let cs ← programs skip (x + 1) cs
      pure (.program p :: cs)
  | x, c :: cs => do
    let cs ← programs skip (x + 1) cs
    pure (c :: cs)

def Cmd.fixed : Cmd → Bool
  | .program p => p.numPartitionSectors ≠ 0
  | _ => true

/-- `firehose_main`.  What was said before `<configure>` has been read, and `fh_patch_count` is zero
only in a table without patches. -/
def firehoseMain (eraseAll : Bool) (deviceType : Str) (table : List Cmd) : M Unit := do
  require (table.all Cmd.fixed)
  fhSendCfgCmd
  let nand : Bool := deviceType = "nand".toList
  M.when (nand || eraseAll) (forEach (eraseFirst eraseAll (maxNumPartitionSectors table)) 0 table)
  forEach vendor 0 table
  M.when (!eraseAll) (forEach (eraseRest nand) 0 table)
  let table' ← programs (fun p => nand && p.startSector == 0) 0 table
  M.when nand (do
    let _ ← programs (fun p => p.startSector != 0) 0 table'
    pure ())
  forEach patch 0 table
  M.when (!nand) (do
    send .setbootablestoragedrive
    let _ ← wait
    pure ())
  send .reset
  let _ ← wait
  pure ()

end ModemSupport.Rooter.FirehoseMain
