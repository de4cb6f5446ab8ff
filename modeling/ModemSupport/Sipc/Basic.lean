import Mathlib.Algebra.Group.Nat.Defs
import Mathlib.Algebra.Ring.Int.Defs

/-! The two ends of a SIPC channel, the error numbers that its functions return, and the conversion
that their comparisons of counters make. -/

namespace ModemSupport.Sipc

/-- The end that allocates the shared memory, and the end that maps it. -/
inductive Party where
  | host
  | client
  deriving DecidableEq

def Party.peer : Party → Party
  | host => client
  | client => host

@[simp] theorem Party.peer_peer (p : Party) : p.peer.peer = p := by cases p <;> rfl

@[simp] theorem Party.peer_ne (p : Party) : p.peer ≠ p := by cases p <;> decide

@[simp] theorem Party.ne_peer (p : Party) : p ≠ p.peer := by cases p <;> decide

theorem Party.eq_or_eq_peer (p q : Party) : q = p ∨ q = p.peer := by
  cases p <;> cases q <;> simp [Party.peer]

inductive Errno where
  | einval
  | enodev
  | eio
  | eagain
  | enodata
  | eproto
  deriving DecidableEq

def int (x : UInt32) : Int := if x.toNat < 2 ^ 31 then x.toNat else x.toNat - 2 ^ 32

theorem int_le (x : UInt32) : int x ≤ x.toNat := by
  unfold int
  split <;> omega

theorem int_of_lt {x : UInt32} (h : x.toNat < 2 ^ 31) : int x = x.toNat := if_pos h

end ModemSupport.Sipc
