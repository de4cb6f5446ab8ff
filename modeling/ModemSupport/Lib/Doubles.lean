import Mathlib.Data.Int.Log
import Mathlib.Data.Rat.Floor
import Mathlib.Tactic.Linarith
import ModemSupport.Lib.Text

/-! The numbers of a language that computes with doubles, as far as they are not negative, and
their text in the format `%.14g`. -/

namespace ModemSupport.Lib.Doubles

open Text List

def nearest (x : ℚ) : ℕ :=
  if x - ⌊x⌋₊ < 1 / 2 ∨ x - ⌊x⌋₊ = 1 / 2 ∧ ⌊x⌋₊ % 2 = 0 then ⌊x⌋₊ else ⌊x⌋₊ + 1

theorem nearest_bounds {x : ℚ} (hx : 0 ≤ x) :
    x - 1 / 2 ≤ nearest x ∧ (nearest x : ℚ) ≤ x + 1 / 2 := by
  have hle := Nat.floor_le hx
  have hlt := Nat.lt_floor_add_one x
  unfold nearest
  split
  · next h =>
    have hhalf : x - ⌊x⌋₊ ≤ 1 / 2 := h.elim le_of_lt fun h => h.1.le
    constructor <;> linarith
  · next h =>
    have hhalf : 1 / 2 ≤ x - ⌊x⌋₊ := not_lt.mp fun hlt => h (.inl hlt)
    push_cast
    constructor <;> linarith

inductive Number where
  | fin (x : ℚ)
  | inf
  | nan

def double (x : ℚ) : Number :=
  let unit : ℚ := 2 ^ max (Int.log 2 x - 52) (-1074)
  let y := nearest (x / unit) * unit
  if y < 2 ^ 1024 then .fin y else .inf

namespace Number

def add : Number → Number → Number
  | .fin x, .fin y => double (x + y)
  | .nan, _ | _, .nan => .nan
  | _, _ => .inf

def div : Number → ℕ → Number
  | .fin x, n => if n = 0 then if x = 0 then .nan else .inf else double (x / n)
  | a, _ => a

/-- `n` is not zero. -/
def mul : Number → ℕ → Number
  | .fin x, n => double (x * n)
  | a, _ => a

def Nonneg : Number → Prop
  | .fin x => 0 ≤ x
  | _ => True

theorem nonneg_double (x : ℚ) : (double x).Nonneg := by
  unfold double
  dsimp only
  split
  · exact mul_nonneg (Nat.cast_nonneg _) (zpow_nonneg (by norm_num) _)
  · trivial

theorem nonneg_add (a b : Number) : (a.add b).Nonneg := by
  cases a <;> cases b <;> first | exact nonneg_double _ | trivial

theorem nonneg_mul (a : Number) (n : ℕ) : (a.mul n).Nonneg := by
  cases a <;> first | exact nonneg_double _ | trivial

end Number

/-- The digits of `q / 10 ^ k`, without zeros at the end of the fraction. -/
def decimal : ℕ → ℕ → List Char
  | q, 0 => dec q
  | q, k + 1 =>
    if q % 10 = 0 then decimal (q / 10) k
    else
      let fraction := dec (q % 10 ^ (k + 1))
      dec (q / 10 ^ (k + 1)) ++ '.' :: (replicate (k + 1 - fraction.length) '0' ++ fraction)

def exponent (e : ℤ) : List Char :=
  'e' :: (if e < 0 then '-' else '+') :: ((if e.natAbs < 10 then ['0'] else []) ++ dec e.natAbs)

def digits (x : ℚ) : ℕ × ℤ :=
  let q := nearest (x * 10 ^ (13 - Int.log 10 x))
  if q = 10 ^ 14 then (10 ^ 13, Int.log 10 x + 1) else (q, Int.log 10 x)

def tostring : Number → List Char
  | .fin x =>
    if x = 0 then ['0']
    else if -4 ≤ (digits x).2 ∧ (digits x).2 < 14 then
      decimal (digits x).1 (13 - (digits x).2).toNat
    else decimal (digits x).1 13 ++ exponent (digits x).2
  | .inf => ['i', 'n', 'f']
  | .nan => ['n', 'a', 'n']

/-- Without a point the digits are those of a whole number. -/
theorem exists_whole {q k : ℕ} (h : (decimal q k).all Char.isDigit = true) :
    ∃ n, decimal q k = dec n ∧ q = n * 10 ^ k := by
  induction k generalizing q with
  | zero => exact ⟨q, rfl, (Nat.mul_one q).symm⟩
  | succ k ih =>
    rw [decimal] at h ⊢
    split
    · next hq =>
      rw [if_pos hq] at h
      obtain ⟨n, hn, hdiv⟩ := ih h
      refine ⟨n, hn, ?_⟩
      rw [pow_succ, ← Nat.mul_assoc, ← hdiv]
      omega
    · next hq =>
      rw [if_neg hq] at h
      exact absurd (List.all_eq_true.mp h '.' (by simp)) (by decide)

/-- A text of digits is that of a whole number next to the number. -/
theorem tostring_whole {a : Number} (ha : a.Nonneg) (h : (tostring a).all Char.isDigit = true) :
    ∃ x n, a = .fin x ∧ tostring a = dec n ∧ (n : ℚ) - 1 < x ∧ x < n + 1 := by
  cases a with
  | inf => exact absurd h (by decide)
  | nan => exact absurd h (by decide)
  | fin x =>
    have hx : 0 ≤ x := ha
    by_cases hzero : x = 0
    · subst hzero
      exact ⟨0, 0, rfl, rfl, by norm_num, by norm_num⟩
    rw [tostring, if_neg hzero] at h ⊢
    by_cases he : -4 ≤ (digits x).2 ∧ (digits x).2 < 14
    · rw [if_pos he] at h ⊢
      obtain ⟨n, hn, hq⟩ := exists_whole h
      -- the digits are those of the next number with `k` places behind the point
      obtain ⟨k, hk, hnear⟩ : ∃ k : ℕ, (k : ℤ) = 13 - Int.log 10 x ∧
          nearest (x * 10 ^ (13 - Int.log 10 x)) = n * 10 ^ k := by
        unfold digits at hq he
        dsimp only at hq he
        split at hq
        · next hcarry =>
          rw [if_pos hcarry] at he
          refine ⟨(13 - (Int.log 10 x + 1)).toNat + 1, by omega, ?_⟩
          rw [hcarry]
          exact (congrArg (· * 10) hq).trans (Nat.mul_assoc _ _ 10)
        · next hcarry =>
          rw [if_neg hcarry] at he
          exact ⟨(13 - Int.log 10 x).toNat, by omega, hq⟩
      have hpow : (1 : ℚ) ≤ 10 ^ k := one_le_pow₀ (by norm_num)
      rw [← hk, zpow_natCast] at hnear
      have hbounds := nearest_bounds (mul_nonneg hx (zero_le_one.trans hpow))
      rw [hnear] at hbounds
      push_cast at hbounds
      refine ⟨x, n, rfl, hn, ?_, ?_⟩
      · by_contra hle
        have := mul_le_mul_of_nonneg_right (not_lt.mp hle) (zero_le_one.trans hpow)
        linarith
      · by_contra hle
        have := mul_le_mul_of_nonneg_right (not_lt.mp hle) (zero_le_one.trans hpow)
        linarith
    · rw [if_neg he] at h
      exact absurd (List.all_eq_true.mp h 'e' (by simp [exponent])) (by decide)

end ModemSupport.Lib.Doubles
