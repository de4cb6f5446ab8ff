import Mathlib.Tactic.Ring
import ModemSupport.Lib.Memory

/-! Structures of bit fields. A compiler lays the fields out in the order of their declaration: on
a little-endian machine from the lowest bit of the first byte on, the low bits of each field first,
and on a big-endian machine from the highest bit of the first byte on, the high bits first. -/

namespace ModemSupport.Lib.BitFields

open Memory

structure Field where
  width : Nat
  value : BitVec width

variable {fs gs : List Field} {m n x y : Nat}

def width : List Field → Nat
  | [] => 0
  | f :: fs => f.width + width fs

def lsbFirst : List Field → Nat
  | [] => 0
  | f :: fs => f.value.toNat + 2 ^ f.width * lsbFirst fs

def msbFirst : List Field → Nat
  | [] => 0
  | f :: fs => f.value.toNat * 2 ^ width fs + msbFirst fs

def littleEndian (fs : List Field) : List UInt8 := toLE (width fs / 8) (lsbFirst fs)

def bigEndian (fs : List Field) : List UInt8 := (toLE (width fs / 8) (msbFirst fs)).reverse

theorem width_append : width (fs ++ gs) = width fs + width gs := by
  induction fs with
  | nil => rw [List.nil_append, width, Nat.zero_add]
  | cons f fs ih => rw [List.cons_append, width, width, ih, Nat.add_assoc]

theorem lsbFirst_lt (fs : List Field) : lsbFirst fs < 2 ^ width fs := by
  induction fs with
  | nil => exact Nat.one_pos
  | cons f fs ih =>
    have hmul := Nat.mul_le_mul_left (2 ^ f.width) (Nat.succ_le_of_lt ih)
    have hvalue := f.value.isLt
    rw [lsbFirst, width, Nat.pow_add]
    rw [Nat.mul_succ] at hmul
    omega

theorem msbFirst_lt (fs : List Field) : msbFirst fs < 2 ^ width fs := by
  induction fs with
  | nil => exact Nat.one_pos
  | cons f fs ih =>
    have hmul := Nat.mul_le_mul_right (2 ^ width fs) (Nat.succ_le_of_lt f.value.isLt)
    rw [msbFirst, width, Nat.pow_add]
    rw [Nat.succ_mul] at hmul
    omega

theorem lsbFirst_append : lsbFirst (fs ++ gs) = lsbFirst fs + 2 ^ width fs * lsbFirst gs := by
  induction fs with
  | nil => simp [lsbFirst, width]
  | cons f fs ih =>
    rw [List.cons_append, lsbFirst, lsbFirst, ih, width, Nat.pow_add]
    ring

theorem msbFirst_append : msbFirst (fs ++ gs) = msbFirst gs + 2 ^ width gs * msbFirst fs := by
  induction fs with
  | nil => simp [msbFirst]
  | cons f fs ih =>
    rw [List.cons_append, msbFirst, msbFirst, ih, width_append, Nat.pow_add]
    ring

theorem toLE_add (hx : x < 256 ^ m) :
    toLE (m + n) (x + 256 ^ m * y) = toLE m x ++ toLE n y := by
  induction m generalizing x with
  | zero =>
    obtain rfl : x = 0 := by omega
    simp [toLE]
  | succ m ih =>
    have hdiv : x / 256 < 256 ^ m := by
      rw [Nat.div_lt_iff_lt_mul (by omega)]
      exact hx
    have hsplit : x + 256 ^ (m + 1) * y = x + 256 * (256 ^ m * y) := by
      rw [Nat.pow_succ]
      ring
    have hbyte : UInt8.ofNat (x + 256 * (256 ^ m * y)) = UInt8.ofNat x := by
      apply UInt8.toNat_inj.mp
      rw [UInt8.toNat_ofNat', UInt8.toNat_ofNat']
      omega
    rw [show m + 1 + n = m + n + 1 by omega, toLE, toLE, List.cons_append, hsplit, hbyte,
      Nat.add_mul_div_left x _ (by omega), ih hdiv]

theorem littleEndian_eq (h : width fs = 8 * n) : littleEndian fs = toLE n (lsbFirst fs) := by
  rw [littleEndian, h, Nat.mul_div_cancel_left n (by omega)]

theorem bigEndian_eq (h : width fs = 8 * n) : bigEndian fs = (toLE n (msbFirst fs)).reverse := by
  rw [bigEndian, h, Nat.mul_div_cancel_left n (by omega)]

theorem two_pow_eq {w : Nat} (h : 8 ∣ w) : 2 ^ w = 256 ^ (w / 8) := by
  obtain ⟨k, rfl⟩ := h
  rw [Nat.mul_div_cancel_left k (by omega), Nat.pow_mul]

/-- Fields that fill their bytes lie in front of the others. -/
theorem littleEndian_append (h : 8 ∣ width fs) :
    littleEndian (fs ++ gs) = littleEndian fs ++ littleEndian gs := by
  have hlt := lsbFirst_lt fs
  rw [two_pow_eq h] at hlt
  have hdiv : (width fs + width gs) / 8 = width fs / 8 + width gs / 8 := by omega
  rw [littleEndian, width_append, lsbFirst_append, two_pow_eq h, hdiv, toLE_add hlt]
  rfl

theorem bigEndian_append (h : 8 ∣ width gs) :
    bigEndian (fs ++ gs) = bigEndian fs ++ bigEndian gs := by
  have hlt := msbFirst_lt gs
  rw [two_pow_eq h] at hlt
  have hdiv : (width fs + width gs) / 8 = width gs / 8 + width fs / 8 := by omega
  rw [bigEndian, width_append, msbFirst_append, two_pow_eq h, hdiv, toLE_add hlt,
    List.reverse_append]
  rfl

theorem ofNat_congr (h : x % 256 = y % 256) : UInt8.ofNat x = UInt8.ofNat y := by
  apply UInt8.toNat_inj.mp
  rw [UInt8.toNat_ofNat', UInt8.toNat_ofNat']
  exact h

theorem and_mask (k w : Nat) (h : m = 2 ^ k * (2 ^ w - 1)) (x : Nat) :
    x &&& m = 2 ^ k * (x / 2 ^ k % 2 ^ w) := by
  apply Nat.eq_of_testBit_eq
  intro i
  rw [h, Nat.testBit_and, Nat.testBit_two_pow_mul, Nat.testBit_two_pow_mul,
    Nat.testBit_two_pow_sub_one, Nat.testBit_mod_two_pow, Nat.testBit_div_two_pow]
  by_cases hle : k ≤ i
  · rw [Nat.sub_add_cancel hle, Bool.and_comm, decide_eq_true hle, Bool.true_and, Bool.true_and]
  · rw [decide_eq_false hle, Bool.false_and, Bool.false_and, Bool.and_false]

theorem ofNat_mask (mask : UInt8) (k w : Nat) (h : mask.toNat = 2 ^ k * (2 ^ w - 1))
    (hw : k + w ≤ 8) (x : Nat) :
    UInt8.ofNat x &&& mask = UInt8.ofNat (2 ^ k * (x / 2 ^ k % 2 ^ w)) := by
  apply UInt8.toNat_inj.mp
  have hmod : x % 2 ^ 8 / 2 ^ k % 2 ^ w = x / 2 ^ k % 2 ^ w := by
    apply Nat.eq_of_testBit_eq
    intro i
    rw [Nat.testBit_mod_two_pow, Nat.testBit_mod_two_pow, Nat.testBit_div_two_pow,
      Nat.testBit_div_two_pow, Nat.testBit_mod_two_pow]
    by_cases hi : i < w
    · rw [decide_eq_true (show i + k < 8 by omega), Bool.true_and]
    · rw [decide_eq_false hi, Bool.false_and, Bool.false_and]
  have hlt : 2 ^ k * (x / 2 ^ k % 2 ^ w) < 2 ^ 8 := by
    calc 2 ^ k * (x / 2 ^ k % 2 ^ w) < 2 ^ k * 2 ^ w :=
          Nat.mul_lt_mul_of_pos_left (Nat.mod_lt _ (Nat.two_pow_pos w)) (Nat.two_pow_pos k)
      _ = 2 ^ (k + w) := (Nat.pow_add 2 k w).symm
      _ ≤ 2 ^ 8 := Nat.pow_le_pow_right Nat.two_pos hw
  rw [UInt8.toNat_and, and_mask k w h, UInt8.toNat_ofNat', UInt8.toNat_ofNat', hmod,
    Nat.mod_eq_of_lt hlt]

theorem ofNat_shl (n : UInt8) (hn : n.toNat < 8) (x : Nat) :
    UInt8.ofNat x <<< n = UInt8.ofNat (x * 2 ^ n.toNat) := by
  apply UInt8.toNat_inj.mp
  rw [UInt8.toNat_shiftLeft, Nat.mod_eq_of_lt hn, Nat.shiftLeft_eq, UInt8.toNat_ofNat',
    UInt8.toNat_ofNat', Nat.mod_mul_mod]

theorem ofNat_shr (n : UInt8) (hn : n.toNat < 8) {x : Nat} (hx : x < 256) :
    UInt8.ofNat x >>> n = UInt8.ofNat (x / 2 ^ n.toNat) := by
  apply UInt8.toNat_inj.mp
  have hle := Nat.div_le_self x (2 ^ n.toNat)
  rw [UInt8.toNat_shiftRight, Nat.mod_eq_of_lt hn, Nat.shiftRight_eq_div_pow, UInt8.toNat_ofNat',
    UInt8.toNat_ofNat', Nat.mod_eq_of_lt hx, Nat.mod_eq_of_lt (by omega)]

end ModemSupport.Lib.BitFields
