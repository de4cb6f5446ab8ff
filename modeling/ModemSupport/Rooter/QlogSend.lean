import ModemSupport.Lib.Loop
import ModemSupport.Lib.Memory

/-! `mdm_send_cmd` and `asr_send_cmd` of qlog: a buffer from the socket or a file is cut into
commands, which go to the port one by one.  What is around the buffer in memory can be read. -/

namespace ModemSupport.Rooter.QlogSend

open Lib.Loop Lib.Memory

abbrev Mem := Int → UInt8

inductive Access where
  | read (i : Int)
  | write (start count : Nat)

/-- The bytes of the memory from `a` on that are in front of `b`. -/
def slice (mem : Mem) (a b : Nat) : List UInt8 :=
  (List.range (b - a)).map fun i => mem ((a + i : Nat) : Int)

/-- Accesses to the bytes from `a` on in front of `b`. -/
def reads (a b : Nat) : List Access := (List.range (b - a)).map fun i => .read ((a + i : Nat) : Int)

def frameLen (mem : Mem) (wc : Nat) : Nat :=
  ((mem (wc + 2)).toNat + (mem (wc + 3)).toNat * 256 + 5) % 2 ^ 16

/-- `cur[0] == 0x7e && cur[1] == 0x01`. -/
def FrameHead (mem : Mem) (wc : Nat) : Prop := mem wc = 0x7E ∧ mem (wc + 1) = 0x01

instance {mem : Mem} {wc : Nat} : Decidable (FrameHead mem wc) :=
  inferInstanceAs (Decidable (_ ∧ _))

/-- The test for a frame with its length in it, whose end is looked at when it is in the buffer. -/
def IsFrame (mem : Mem) (size wc : Nat) : Prop :=
  FrameHead mem wc ∧ wc + frameLen mem wc ≤ size ∧ mem (wc + frameLen mem wc - 1) = 0x7E

instance {mem : Mem} {size wc : Nat} : Decidable (IsFrame mem size wc) :=
  inferInstanceAs (Decidable (_ ∧ _))

/-- The reads of `len` and of the test. -/
def header (mem : Mem) (size wc : Nat) : List Access :=
  [.read (wc + 2), .read (wc + 3), .read wc] ++
    (if mem wc = 0x7E then [.read (wc + 1)] else []) ++
    (if FrameHead mem wc ∧ wc + frameLen mem wc ≤ size then
      [.read (wc + frameLen mem wc - 1)] else [])

/-- The search for a mark from `flag` on, which looks at `k` bytes and the one behind them. -/
def search (mem : Mem) : (k flag : Nat) → Nat
  | 0, flag => flag
  | k + 1, flag => if mem flag ≠ 0x7E then search mem k (flag + 1) else flag

/-- The round behind the search: the write, and what is printed for a client. -/
def mdmWrite (connected : Bool) (mem : Mem) (size wc : Nat) (flag : Int) :
    List Access × Option Nat :=
  ([.read flag] ++
    (if mem flag = 0x7E ∨ flag = size then
      reads wc (flag + 1).toNat ++ [.write wc (flag - wc + 1).toNat] else []) ++
    (if connected ∧ flag + 1 < size then reads wc (wc + 16) else []),
    some (flag + 1).toNat)

/-- Where the search begins: a mark at the start of the buffer is not taken for an end. -/
def searchStart (mem : Mem) (wc : Nat) : Nat := if wc = 0 ∧ mem wc = 0x7E then wc + 1 else wc

/-- A round of the loop; `connected` says whether there is a client. -/
def mdmRound (connected : Bool) (mem : Mem) (size wc : Nat) : List Access × Option Nat :=
  if wc < size then
    if IsFrame mem size wc then
      let r := mdmWrite connected mem size wc (wc + frameLen mem wc - 1)
      (header mem size wc ++ r.1, r.2)
    else
      let start := searchStart mem wc
      let flag := search mem (size - start) start
      let r := mdmWrite connected mem size wc flag
      (header mem size wc ++ (if wc = 0 then [.read wc] else []) ++ reads start (flag + 1) ++ r.1,
        r.2)
  else ([], none)

def cmdLen (mem : Mem) (wc : Nat) : Nat := ofLE (slice mem wc (wc + 4))

/-- A round of the loop; `port` gives what `write` returns at a place for a number of bytes. -/
def asrRound (port : Nat → Nat → Int) (mem : Mem) (size wc : Nat) : List Access × Option Nat :=
  if wc < size then
    let cmd := cmdLen mem wc
    if cmd > size - wc then (reads wc (wc + 4), none)
    else
      (reads wc (wc + 4) ++ reads wc (wc + cmd) ++ [.write wc (port wc cmd).toNat],
        if port wc cmd ≠ cmd then none else some (wc + cmd))
  else ([], none)

def written (mem : Mem) : List Access → List UInt8
  | [] => []
  | .read _ :: as => written mem as
  | .write start count :: as => slice mem start (start + count) ++ written mem as

def marked (mem : Mem) : List Access → Prop
  | [] => True
  | .read _ :: as => marked mem as
  | .write start count :: as =>
    ((∃ s k, Access.write s k ∈ as) → mem ((start : Int) + count - 1) = 0x7E) ∧ marked mem as

/-- No byte is read that is more than `slack` bytes outside of the buffer. -/
def Inside (slack size : Nat) (as : List Access) : Prop :=
  ∀ i, Access.read i ∈ as → -(slack : Int) ≤ i ∧ i < size + slack

def MdmForwards (slack : Nat) (connected : Bool) (mem : Mem) (size : Nat) : Prop :=
  ∃ as, Ends (mdmRound connected mem size) 0 as ∧ Inside slack size as ∧
    written mem as = slice mem 0 size ∧ marked mem as

/-- A row of commands, each of which begins with its length. -/
inductive Whole : List UInt8 → Prop
  | nil : Whole []
  | cons {cmd rest : List UInt8} : 4 ≤ cmd.length → ofLE (cmd.take 4) = cmd.length → Whole rest →
      Whole (cmd ++ rest)

/-- `asr_send_cmd` ends and stays in the buffer whatever the port accepts, and writes the longest
row of commands that the buffer begins with when the port accepts all. -/
def AsrForwards (slack : Nat) (mem : Mem) (size : Nat) : Prop :=
  (∀ port, ∃ as, Ends (asrRound port mem size) 0 as ∧ Inside slack size as) ∧
    ∀ as, Ends (asrRound (fun _ k => k) mem size) 0 as →
      written mem as <+: slice mem 0 size ∧ Whole (written mem as) ∧
        ∀ bs, bs <+: slice mem 0 size → Whole bs → bs <+: written mem as

end ModemSupport.Rooter.QlogSend
