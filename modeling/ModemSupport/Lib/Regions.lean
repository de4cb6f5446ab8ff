import Mathlib.Algebra.GroupWithZero.Nat
import Mathlib.Algebra.BigOperators.Group.List.Basic

/-! Regions of a memory, and regions that lie one behind the other. -/

namespace ModemSupport.Lib.Regions

open List

structure Region where
  start : Nat
  size : Nat

variable {r r' : Region} {a b n k : Nat} {ns ms : List Nat}

def Apart (r r' : Region) : Prop := r.start + r.size ≤ r'.start ∨ r'.start + r'.size ≤ r.start

instance (r r' : Region) : Decidable (Apart r r') := inferInstanceAs (Decidable (_ ∨ _))

structure Within (a b : Nat) (r : Region) : Prop where
  start : a ≤ r.start
  stop : r.start + r.size ≤ b

/-- The regions of these sizes, one behind the other. -/
def stack : Nat → List Nat → List Region
  | _, [] => []
  | a, n :: ns => ⟨a, n⟩ :: stack (a + n) ns

end ModemSupport.Lib.Regions
