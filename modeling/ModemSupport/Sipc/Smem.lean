import ModemSupport.Lib.Chunks
import ModemSupport.Lib.Transition

/-! The pools of shared memory of `smem.c`: registering them, and allocating from them and freeing.
`gen_pool` is an allocator of runs of chunks. -/

namespace ModemSupport.Sipc.Smem

open Lib.Chunks Lib.Transition

structure Config where
  pageShift : Nat
  long64 : Bool
  page : 3 ≤ pageShift ∧ pageShift < 32

def minOrder (c : Config) : Nat := if c.long64 then 3 else 2

def alignPoolsz : Nat := 0x40000

def order (c : Config) (size : Nat) : Nat := if size ≥ alignPoolsz then c.pageShift else minOrder c

def align (order x : Nat) : Nat := (x + (2 ^ order - 1)) % 2 ^ 32 / 2 ^ order * 2 ^ order

/-- `start` is a ghost, the first chunk of the block, and so is `request`, the size that was asked
for. -/
structure Record where
  size : Nat
  addr : Nat
  start : Nat
  request : Nat
  deriving DecidableEq

/-- `gen` is not there when `gen_pool_create` failed. -/
structure Pool where
  addr : Nat
  size : Nat
  dst : Nat
  used : Nat
  gen : Option Lib.Chunks.Pool
  records : List Record

abbrev State := List Pool

def findPool (dst : Nat) (s : State) : Option Pool := s.find? fun p => p.dst == dst % 2 ^ 8

def onPool (dst : Nat) (f : Pool → Option Pool) : State → Option State
  | [] => some []
  | p :: ps =>
    if p.dst = dst % 2 ^ 8 then (f p).map (· :: ps) else (onPool dst f ps).map (p :: ·)

/-- How far `smem_init` comes with a pool that is not there yet. -/
inductive Created where
  | noPool
  | noGen
  | noChunk
  | done
  deriving DecidableEq

def newGen (c : Config) (size : Nat) : Created → Option Lib.Chunks.Pool
  | .done => some ⟨size / 2 ^ order c size, ∅⟩
  | .noChunk => some ⟨0, ∅⟩
  | .noPool | .noGen => none

def smemInit (c : Config) (addr size dst : Nat) (created : Created) (s : State) : State :=
  if (findPool dst s).isSome ∨ created = .noPool then s
  else
    s ++ [{ addr := addr
            size := align (order c size) size
            dst := dst
            used := 0
            gen := newGen c (align (order c size) size) created
            records := [] }]

/-- `smem_alloc`: `start` is the choice of `gen_pool_alloc`, and `none` when it or `kzalloc`
fails. -/
def Pool.smemAlloc (c : Config) (size : Nat) (start : Option Nat) (p : Pool) : Option Pool :=
  match start with
  | none => some p
  | some k =>
    p.gen.bind fun gen =>
      (gen.alloc (k, chunks (2 ^ order c p.size) (align (order c p.size) size))).map fun gen =>
        if (p.addr + k * 2 ^ order c p.size) % 2 ^ 32 = 0 then { p with gen := some gen }
        else
          { p with
            gen := some gen
            used := (p.used + align (order c p.size) size) % 2 ^ 32
            records := p.records ++ [⟨align (order c p.size) size,
              (p.addr + k * 2 ^ order c p.size) % 2 ^ 32, k, size⟩] }

/-- `smem_free`, up to an address that `gen_pool_free` does not take. -/
def Pool.smemFree (c : Config) (addr size : Nat) (p : Pool) : Option Pool :=
  p.gen.bind fun gen =>
    if addr < p.addr then none
    else
      (gen.free ((addr - p.addr) / 2 ^ order c p.size,
        chunks (2 ^ order c p.size) (align (order c size) size))).map fun gen =>
        { p with
          gen := some gen
          used := (p.used + 2 ^ 32 - align (order c size) size) % 2 ^ 32
          records := p.records.eraseP fun r => r.addr == addr }

inductive Label where
  | init (addr size dst : Nat) (created : Created)
  | alloc (dst size : Nat) (start : Option Nat)
  | free (dst addr size : Nat)

/-- The address is out, with the size that it was asked for with. -/
def Live (p : Pool) (addr size : Nat) : Prop :=
  ∃ r ∈ p.records, r.addr = addr ∧ r.request = size

instance (p : Pool) (addr size : Nat) : Decidable (Live p addr size) :=
  inferInstanceAs (Decidable (∃ r ∈ p.records, r.addr = addr ∧ r.request = size))

def step (c : Config) (s : State) : Label → Option State
  | .init addr size dst created =>
    if addr < 2 ^ 32 ∧ size < 2 ^ 32 ∧ dst < 2 ^ 32 then some (smemInit c addr size dst created s)
    else none
  | .alloc dst size start =>
    if size < 2 ^ 32 then onPool dst (Pool.smemAlloc c size start) s else none
  | .free dst addr size =>
    if ∀ p ∈ findPool dst s, Live p addr size then onPool dst (Pool.smemFree c addr size) s
    else none

/-- The counter says what the records say, and no more than there is. -/
structure Accounted (p : Pool) : Prop where
  used : p.used = (p.records.map Record.size).sum
  empty : p.records = [] → p.used = 0
  room : p.used ≤ p.size

/-- The pool is small, or the size is not, or whole pages are no more than the size rounded up. -/
def Ok (c : Config) (s : State) : Label → Prop
  | .free dst _ size => ∀ p ∈ findPool dst s, p.size < alignPoolsz ∨ size ≥ alignPoolsz ∨
      align (minOrder c) size = align c.pageShift size
  | _ => True

end ModemSupport.Sipc.Smem
