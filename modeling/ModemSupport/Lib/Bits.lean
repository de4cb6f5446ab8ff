import Mathlib.Algebra.Order.Ring.GeomSum
import Mathlib.Data.Nat.Digits.Lemmas

/-! Numbers that are sums of powers of two, and the text of a number in base two.  Sequences of
numbers of a fixed width as streams of bits, the lowest bit of each number first: numbers that are
put together from two neighbours of another sequence, and sequences of different widths with the
same bits. -/

namespace ModemSupport.Lib.Bits

open List

def powers (l : List ℕ) : ℕ := (l.map (2 ^ ·)).sum

variable {l : List ℕ} {i n : ℕ}

theorem powers_append {l' : List ℕ} : powers (l ++ l') = powers l + powers l' := by
  rw [powers, map_append, sum_append, ← powers, ← powers]

theorem powers_lt (hl : l.Nodup) (h : ∀ j ∈ l, j < i) : powers l < 2 ^ i := by
  rw [powers, ← List.sum_toFinset _ hl]
  exact Nat.geomSum_lt le_rfl fun j hj => h j (mem_toFinset.mp hj)

/-- What is above `i` is a multiple of twice the power of `i`. -/
theorem exists_powers (l : List ℕ) (i : ℕ) :
    ∃ k, powers l = powers (l.filter (· < i)) + 2 ^ i * (l.count i + 2 * k) := by
  induction l with
  | nil => exact ⟨0, rfl⟩
  | cons a l ih =>
    obtain ⟨k, hk⟩ := ih
    have hcons : ∀ l, powers (a :: l) = 2 ^ a + powers l := fun l => by
      rw [powers, map_cons, sum_cons, ← powers]
    rcases lt_trichotomy a i with hlt | rfl | hgt
    · refine ⟨k, ?_⟩
      rw [hcons, filter_cons_of_pos (by simpa using hlt), count_cons_of_ne hlt.ne, hcons, hk,
        Nat.add_assoc]
    · refine ⟨k, ?_⟩
      rw [hcons, filter_cons_of_neg (by simp), count_cons_self, hk]
      ring
    · refine ⟨k + 2 ^ (a - i - 1), ?_⟩
      have hpow : 2 ^ a = 2 ^ i * (2 * 2 ^ (a - i - 1)) := by
        rw [← pow_succ', ← pow_add]
        congr 1
        omega
      rw [hcons, filter_cons_of_neg (by simp; omega), count_cons_of_ne hgt.ne', hk, hpow]
      ring

/-- A carry comes from below only. -/
theorem testBit_powers (h : ∀ j < i, l.count j ≤ 1) :
    (powers l).testBit i = decide (l.count i % 2 = 1) := by
  obtain ⟨k, hk⟩ := exists_powers l i
  have hlow : powers (l.filter (· < i)) < 2 ^ i := by
    refine powers_lt (nodup_iff_count_le_one.mpr fun j => ?_)
      fun j hj => of_decide_eq_true (mem_filter.mp hj).2
    by_cases hj : j < i
    · exact (filter_sublist.count_le j).trans (h j hj)
    · have hout : j ∉ l.filter (· < i) := fun hmem => hj (of_decide_eq_true (mem_filter.mp hmem).2)
      rw [count_eq_zero_of_not_mem hout]
      exact Nat.zero_le 1
  rw [Nat.testBit_eq_decide_div_mod_eq, hk, Nat.add_mul_div_left _ _ (Nat.two_pow_pos i),
    Nat.div_eq_of_lt hlow, Nat.zero_add, Nat.add_mul_mod_self_left]

theorem testBit_powers_append {l' : List ℕ} (hl : l.Nodup) (hl' : l'.Nodup)
    (h : ∀ j < i, ¬(j ∈ l ∧ j ∈ l')) :
    (powers (l ++ l')).testBit i = true ↔ ¬(i ∈ l ↔ i ∈ l') := by
  have hcount : ∀ {l : List ℕ}, l.Nodup → ∀ j, l.count j = if j ∈ l then 1 else 0 := by
    intro l hl j
    split
    · exact count_eq_one_of_mem hl ‹_›
    · exact count_eq_zero_of_not_mem ‹_›
  have hbelow : ∀ j < i, (l ++ l').count j ≤ 1 := by
    intro j hj
    have hj := h j hj
    rw [count_append, hcount hl, hcount hl']
    split <;> split <;> simp_all
  rw [testBit_powers hbelow, count_append, hcount hl, hcount hl', decide_eq_true_iff]
  by_cases hi : i ∈ l <;> by_cases hi' : i ∈ l' <;> simp [hi, hi']

def binary (n : ℕ) : List Char :=
  if n = 0 then ['0'] else (Nat.digits 2 n).reverse.map Nat.digitChar

theorem length_binary_le (h : n < 2 ^ i) (hi : 0 < i) : (binary n).length ≤ i := by
  unfold binary
  split
  · exact hi
  · rw [length_map, length_reverse]
    exact (Nat.digits_length_le_iff Nat.one_lt_two n).mpr h

theorem length_binary (hlow : 2 ^ i ≤ n) (hhigh : n < 2 ^ (i + 1)) :
    (binary n).length = i + 1 := by
  have hn : n ≠ 0 := (Nat.lt_of_lt_of_le (Nat.two_pow_pos i) hlow).ne'
  refine Nat.le_antisymm (length_binary_le hhigh i.succ_pos) ?_
  rw [binary, if_neg hn, length_map, length_reverse]
  refine Nat.lt_of_not_le fun h => ?_
  exact absurd ((Nat.digits_length_le_iff Nat.one_lt_two n).mp h) (Nat.not_lt.mpr hlow)

/-- The digit at a place from the end. -/
theorem getElem?_reverse_binary :
    (binary n).reverse[i]? = some '1' ↔ n.testBit i = true := by
  rw [Nat.testBit_eq_decide_div_mod_eq, decide_eq_true_iff]
  by_cases hn : n = 0
  · subst hn
    rw [binary, if_pos rfl, Nat.zero_div]
    cases i with
    | zero => decide
    | succ i => exact iff_of_false (by simp) (by decide)
  · rw [binary, if_neg hn, ← map_reverse, reverse_reverse, getElem?_map,
      ← Nat.getD_digits n i le_rfl, getD_eq_getElem?_getD]
    cases hd : (Nat.digits 2 n)[i]? with
    | none => exact iff_of_false (by simp) (by simp)
    | some d =>
      have hlt : d < 2 := Nat.digits_lt_base Nat.one_lt_two (mem_of_getElem? hd)
      interval_cases d <;> simp

end ModemSupport.Lib.Bits

namespace ModemSupport.Lib.Packing

variable {w w' r n i j k : Nat} {a b c : Nat → Nat}

def streamBit (w : Nat) (a : Nat → Nat) (k : Nat) : Bool := (a (k / w)).testBit (k % w)

def SameBits (w : Nat) (a : Nat → Nat) (w' : Nat) (b : Nat → Nat) (n : Nat) : Prop :=
  ∀ k < n, streamBit w a k = streamBit w' b k

theorem SameBits.trans {w'' : Nat} (h : SameBits w a w' b n) (h' : SameBits w' b w'' c n) :
    SameBits w a w'' c n :=
  fun k hk => (h k hk).trans (h' k hk)

theorem streamBit_add (h : r < w) : streamBit w a (w * j + r) = (a j).testBit r := by
  have hpos : 0 < w := by omega
  rw [streamBit, Nat.mul_add_div hpos, Nat.div_eq_of_lt h, Nat.mul_add_mod, Nat.mod_eq_of_lt h,
    Nat.add_zero]

theorem sameBits_of_forall (hw : 0 < w)
    (h : ∀ j r, r < w → w * j + r < n → (a j).testBit r = streamBit w' b (w * j + r)) :
    SameBits w a w' b n := by
  intro k hk
  have hr := Nat.mod_lt k hw
  have hk' := Nat.div_add_mod k w
  rw [← hk', streamBit_add hr]
  exact h _ _ hr (by omega)

theorem SameBits.eq (h : SameBits w a w b n) (hj : w * (j + 1) ≤ n) (ha : a j < 2 ^ w)
    (hb : b j < 2 ^ w) : a j = b j := by
  apply Nat.eq_of_testBit_eq
  intro r
  by_cases hr : r < w
  · have hbit := h (w * j + r) (by rw [Nat.mul_succ] at hj; omega)
    rwa [streamBit_add hr, streamBit_add hr] at hbit
  · have hle := Nat.pow_le_pow_right Nat.two_pos (Nat.not_lt.mp hr)
    rw [Nat.testBit_lt_two_pow (by omega), Nat.testBit_lt_two_pow (by omega)]

theorem testBit_merge {x y : Nat} (hx : x < 2 ^ w) (hr : r ≤ w) :
    (x >>> r ||| y <<< (w - r)).testBit k =
      if k < w - r then x.testBit (r + k) else y.testBit (k - (w - r)) := by
  rw [Nat.testBit_or, Nat.testBit_shiftRight, Nat.testBit_shiftLeft]
  split
  next hk =>
    have hge : ¬k ≥ w - r := by omega
    simp [hge]
  next hk =>
    have hge : k ≥ w - r := by omega
    have hhigh : x.testBit (r + k) = false := by
      apply Nat.testBit_lt_two_pow
      exact lt_of_lt_of_le hx (Nat.pow_le_pow_right Nat.two_pos (by omega))
    simp [hge, hhigh]

theorem testBit_neighbours (ha : a i < 2 ^ w) (hr : r ≤ w) (hk : r + k < 2 * w) :
    (a i >>> r ||| a (i + 1) <<< (w - r)).testBit k = streamBit w a (w * i + r + k) := by
  rw [testBit_merge ha hr]
  split
  next hlow =>
    have hadd : w * i + r + k = w * i + (r + k) := by omega
    rw [hadd, streamBit_add (by omega)]
  next hhigh =>
    have hadd : w * i + r + k = w * (i + 1) + (k - (w - r)) := by
      rw [Nat.mul_succ]
      omega
    rw [hadd, streamBit_add (by omega)]

end ModemSupport.Lib.Packing
