import Mathlib.Data.UInt

/-! Windows of ring buffers with free-running 32-bit counters.  A window is read through a slot
function, which takes a counter to an index of the buffer.  Pushing at either end keeps the other
entries when the slot that it writes holds none of them, and slots taken modulo the number of
slots are distinct as long as the window is coherent: the count divides `2^32`, or no counter of
the window wraps. -/

namespace ModemSupport.Lib.Ring

open Function List

variable {α : Type} {slot : UInt32 → Nat} {buf : Nat → α} {rd wr : UInt32} {n k : Nat}

theorem toNat_add_one {n : UInt32} (h : n.toNat + 1 < 2 ^ 32) : (n + 1).toNat = n.toNat + 1 := by
  rw [UInt32.toNat_add, UInt32.toNat_one]
  omega

theorem toNat_sub_one {n : UInt32} (h : n.toNat ≠ 0) : (n - 1).toNat = n.toNat - 1 := by
  have := n.toNat_lt
  rw [UInt32.toNat_sub, UInt32.toNat_one]
  omega

def ahead (c : UInt32) (i : Nat) : UInt32 := c + UInt32.ofNat i

theorem ahead_toNat (c : UInt32) (i : Nat) : (ahead c i).toNat = (c.toNat + i) % 2 ^ 32 := by
  simp [ahead, UInt32.toNat_add, UInt32.toNat_ofNat']

@[simp] theorem ahead_zero (c : UInt32) : ahead c 0 = c := by
  apply UInt32.toNat_inj.mp
  rw [ahead_toNat, Nat.add_zero, Nat.mod_eq_of_lt c.toNat_lt]

theorem ahead_succ (c : UInt32) (i : Nat) : ahead c (i + 1) = ahead (c + 1) i := by
  apply UInt32.toNat_inj.mp
  rw [ahead_toNat, ahead_toNat, UInt32.toNat_add, UInt32.toNat_one]
  omega

/-- The number of entries from the read counter `rd` to the write counter `wr`. -/
def fill (rd wr : UInt32) : Nat := (wr - rd).toNat

theorem fill_toNat (rd wr : UInt32) :
    fill rd wr = (2 ^ 32 - rd.toNat + wr.toNat) % 2 ^ 32 := UInt32.toNat_sub wr rd

@[simp] theorem fill_self (c : UInt32) : fill c c = 0 := by simp [fill]

@[simp] theorem ahead_fill (rd wr : UInt32) : ahead rd (fill rd wr) = wr := by
  apply UInt32.toNat_inj.mp
  have h1 := rd.toNat_lt_size
  have h2 := wr.toNat_lt_size
  simp only [UInt32.size] at h1 h2
  rw [ahead_toNat, fill_toNat]
  omega

theorem fill_ahead (rd : UInt32) (h : k < 2 ^ 32) : fill rd (ahead rd k) = k := by
  have h1 := rd.toNat_lt
  rw [fill_toNat, ahead_toNat]
  omega

theorem fill_of_le (h : rd.toNat ≤ wr.toNat) : fill rd wr = wr.toNat - rd.toNat := by
  have h1 := wr.toNat_lt
  rw [fill_toNat]
  omega

theorem fill_push (h : fill rd wr + 1 < 2 ^ 32) : fill rd (wr + 1) = fill rd wr + 1 := by
  rw [fill_toNat] at h ⊢
  rw [fill_toNat, UInt32.toNat_add, UInt32.toNat_one]
  omega

theorem fill_unshift (h : fill rd wr + 1 < 2 ^ 32) : fill (rd - 1) wr = fill rd wr + 1 := by
  have h1 := rd.toNat_lt_size
  simp only [UInt32.size] at h1
  rw [fill_toNat] at h ⊢
  rw [fill_toNat, UInt32.toNat_sub, UInt32.toNat_one]
  omega

theorem fill_pop (h : rd ≠ wr) : fill (rd + 1) wr + 1 = fill rd wr := by
  have h1 := rd.toNat_lt_size
  have h2 := wr.toNat_lt_size
  have h3 : rd.toNat ≠ wr.toNat := fun he => h (UInt32.toNat_inj.mp he)
  simp only [UInt32.size] at h1 h2
  rw [fill_toNat, fill_toNat, UInt32.toNat_add, UInt32.toNat_one]
  omega

def slots (slot : UInt32 → Nat) (rd : UInt32) (k : Nat) : List Nat :=
  (List.range k).map fun i => slot (ahead rd i)

/-- The entries from the read counter to the write counter, each read at the slot of its
counter. -/
def window (slot : UInt32 → Nat) (buf : Nat → α) (rd wr : UInt32) : List α :=
  (slots slot rd (fill rd wr)).map buf

@[simp] theorem slots_length : (slots slot rd k).length = k := by simp [slots]

@[simp] theorem window_length : (window slot buf rd wr).length = fill rd wr := by simp [window]

@[simp] theorem window_self : window slot buf rd rd = [] := by simp [window, slots]

theorem mem_slots {i : Nat} : i ∈ slots slot rd k ↔ ∃ j < k, slot (ahead rd j) = i := by
  simp [slots]

theorem slots_succ : slots slot rd (k + 1) = slots slot rd k ++ [slot (ahead rd k)] := by
  simp [slots, range_succ]

theorem slots_cons : slots slot rd (k + 1) = slot rd :: slots slot (rd + 1) k := by
  simp [slots, range_succ_eq_map, Function.comp_def, ahead_succ]

theorem map_update_of_not_mem {x : α} {i : Nat} {l : List Nat} (h : i ∉ l) :
    l.map (update buf i x) = l.map buf :=
  map_congr_left fun _ hj => update_of_ne (ne_of_mem_of_not_mem hj h) x buf

/-- A push at the write counter appends its entry and keeps the others. -/
theorem window_push {x : α} (hroom : fill rd wr + 1 < 2 ^ 32)
    (hfresh : slot wr ∉ slots slot rd (fill rd wr)) :
    window slot (update buf (slot wr) x) rd (wr + 1) = window slot buf rd wr ++ [x] := by
  rw [window, fill_push hroom, slots_succ, ahead_fill, map_append,
    map_update_of_not_mem hfresh]
  simp [window]

/-- A push at the read counter puts its entry in front and keeps the others. -/
theorem window_unshift {x : α} (hroom : fill rd wr + 1 < 2 ^ 32)
    (hfresh : slot (rd - 1) ∉ slots slot rd (fill rd wr)) :
    window slot (update buf (slot (rd - 1)) x) (rd - 1) wr = x :: window slot buf rd wr := by
  have hrd : rd - 1 + 1 = rd := by simp
  rw [window, fill_unshift hroom, slots_cons, hrd, map_cons, map_update_of_not_mem hfresh]
  simp [window]

theorem window_pop (h : rd ≠ wr) :
    window slot buf rd wr = buf (slot rd) :: window slot buf (rd + 1) wr := by
  rw [window, ← fill_pop h, slots_cons, map_cons, window]

def modSlot (n : Nat) (c : UInt32) : Nat := c.toNat % n

/-- Consecutive counters among the `k` from `rd` on have consecutive slots of `n`: `n` divides
`2^32`, or none of the counters wraps. -/
def Coherent (n : Nat) (rd : UInt32) (k : Nat) : Prop := n ∣ 2 ^ 32 ∨ rd.toNat + k ≤ 2 ^ 32

theorem Coherent.modSlot_ahead (h : Coherent n rd k) {i : Nat} (hi : i < k) :
    modSlot n (ahead rd i) = (rd.toNat + i) % n := by
  rw [modSlot, ahead_toNat]
  rcases h with hdvd | hle
  · exact Nat.mod_mod_of_dvd _ hdvd
  · rw [Nat.mod_eq_of_lt (show rd.toNat + i < 2 ^ 32 by omega)]

theorem mod_ne_of_lt {x y : Nat} (hlt : x < y) (hle : y < x + n) : x % n ≠ y % n := by
  intro he
  have hdvd : n ∣ y - x := Nat.dvd_of_mod_eq_zero (Nat.sub_mod_eq_zero_of_mod_eq he.symm)
  have := Nat.le_of_dvd (by omega) hdvd
  omega

theorem add_mod_ne {c i j : Nat} (hij : i < j) (hj : j - i < n) : (c + i) % n ≠ (c + j) % n :=
  mod_ne_of_lt (by omega) (by omega)

theorem mod_eq_iff {x y : Nat} (hle : x ≤ y) (hlt : y < x + n) : y % n = x % n ↔ x = y := by
  constructor
  · intro heq
    rcases Nat.eq_or_lt_of_le hle with hsame | hless
    · exact hsame
    · exact absurd heq.symm (mod_ne_of_lt hless hlt)
  · rintro rfl
    rfl

theorem mod_inj {a x y : Nat} (hx : a ≤ x) (hy : a ≤ y) (hxn : x < a + n) (hyn : y < a + n)
    (h : x % n = y % n) : x = y := by
  rcases Nat.le_total x y with hle | hle
  · exact (mod_eq_iff hle (by omega)).mp h.symm
  · exact ((mod_eq_iff hle (by omega)).mp h).symm

theorem Coherent.slots_nodup (h : Coherent n rd k) (hk : k ≤ n) :
    (slots (modSlot n) rd k).Nodup := by
  refine Nodup.map_on (fun i hi j hj he => ?_) nodup_range
  simp only [mem_range] at hi hj
  rw [h.modSlot_ahead hi, h.modSlot_ahead hj] at he
  rcases Nat.lt_trichotomy i j with hlt | heq | hgt
  · exact absurd he (add_mod_ne hlt (by omega))
  · exact heq
  · exact absurd he.symm (add_mod_ne hgt (by omega))

/-- In a coherent window with room for one more entry, the slot of the next counter is free. -/
theorem Coherent.fresh_push (h : Coherent n rd (k + 1)) (hk : k < n) :
    modSlot n (ahead rd k) ∉ slots (modSlot n) rd k := by
  have hnodup := h.slots_nodup hk
  rw [slots_succ, nodup_append] at hnodup
  exact fun hmem => hnodup.2.2 _ hmem _ (by simp) rfl

theorem Coherent.fresh_wrptr (h : Coherent n rd (fill rd wr + 1)) (hk : fill rd wr < n) :
    modSlot n wr ∉ slots (modSlot n) rd (fill rd wr) := by
  have hfresh := h.fresh_push hk
  rwa [ahead_fill] at hfresh

/-- In a coherent window with room for one more entry, the slot before the oldest is free. -/
theorem Coherent.fresh_unshift (h : Coherent n (rd - 1) (k + 1)) (hk : k < n) :
    modSlot n (rd - 1) ∉ slots (modSlot n) rd k := by
  have hnodup := h.slots_nodup hk
  rw [slots_cons, show rd - 1 + 1 = rd by simp, nodup_cons] at hnodup
  exact hnodup.1

section

variable {buf' : Nat → α}

/-- The `len` entries from place `p` on, going round a buffer of `n` places. -/
def span (n : Nat) (buf : Nat → α) (p len : Nat) : List α :=
  (List.range len).map fun i => buf ((p + i) % n)

@[simp] theorem span_length (p len : Nat) : (span n buf p len).length = len := by simp [span]

@[simp] theorem span_zero (p : Nat) : span n buf p 0 = [] := rfl

theorem span_add (p k m : Nat) :
    span n buf p (k + m) = span n buf p k ++ span n buf (p + k) m := by
  simp [span, range_add, Function.comp_def, Nat.add_assoc]

theorem span_mod {p q : Nat} (h : p % n = q % n) (len : Nat) :
    span n buf p len = span n buf q len :=
  map_congr_left fun i _ => by rw [Nat.add_mod, h, ← Nat.add_mod]

theorem span_congr {p len : Nat} (h : ∀ i < len, buf ((p + i) % n) = buf' ((p + i) % n)) :
    span n buf p len = span n buf' p len :=
  map_congr_left fun i hi => h i (mem_range.mp hi)

end

def Holds (n : Nat) (buf : Nat → α) (hist : List α) (rd : Nat) : Prop :=
  ∀ j, rd ≤ j → ∀ h : j < hist.length, buf (j % n) = hist[j]

theorem Holds.advance {hist : List α} {c d : Nat} (h : Holds n buf hist c) (hle : c ≤ d) :
    Holds n buf hist d :=
  fun j hj hlt => h j (by omega) hlt

theorem Holds.take {hist : List α} {c : Nat} (h : Holds n buf hist c) (m : Nat) :
    Holds n buf (hist.take m) c := by
  intro j hj hlt
  rw [length_take] at hlt
  rw [h j hj (by omega), getElem_take]

/-- A push at the end of the history overwrites none of the fewer than `n` entries held. -/
theorem Holds.push {hist : List α} {c : Nat} {x : α} (h : Holds n buf hist c)
    (hroom : hist.length < c + n) :
    Holds n (update buf (hist.length % n) x) (hist ++ [x]) c := by
  intro j hj hlt
  rw [length_append, length_singleton] at hlt
  rcases Nat.lt_or_ge j hist.length with hold | hnew
  · have hne : j % n ≠ hist.length % n := mod_ne_of_lt hold (by omega)
    rw [update_of_ne hne, h j hj hold, getElem_append_left hold]
  · obtain rfl : j = hist.length := by omega
    simp

theorem Holds.span_eq {hist : List α} {c d : Nat} (h : Holds n buf hist c) (hle : c ≤ d) :
    span n buf d (hist.length - d) = hist.drop d := by
  apply ext_getElem
  · rw [span_length, length_drop]
  · intro i hi hi'
    rw [length_drop] at hi'
    rw [getElem_drop]
    simp only [span, getElem_map, getElem_range]
    exact h (d + i) (by omega) (by omega)

/-- The distance between two counters taken modulo `m`, less than `m` apart. -/
theorem mod_distance {m a b : Nat} (hle : b ≤ a) (hlt : a < b + m) :
    (a % m + m - b % m) % m = a - b := by
  obtain ⟨d, rfl⟩ := Nat.exists_eq_add_of_le hle
  have hb := Nat.mod_lt b (show 0 < m by omega)
  rw [Nat.add_mod b d, Nat.mod_eq_of_lt (a := d) (by omega)]
  rcases Nat.lt_or_ge (b % m + d) m with h | h
  · rw [Nat.mod_eq_of_lt h, show b % m + d + m - b % m = d + m by omega, Nat.add_mod_right,
      Nat.mod_eq_of_lt (by omega)]
    omega
  · have hwrap : (b % m + d) % m = b % m + d - m := by
      rw [Nat.mod_eq_sub_mod h, Nat.mod_eq_of_lt (by omega)]
    rw [hwrap, show b % m + d - m + m - b % m = d by omega, Nat.mod_eq_of_lt (by omega)]
    omega

theorem filterMap_range_getElem? (l : List α) :
    ((List.range l.length).filterMap fun i => l[i]?) = l := by
  induction l with
  | nil => rfl
  | cons a l ih =>
    rw [length_cons, range_succ_eq_map, filterMap_cons]
    simp [filterMap_map, ih]

/-- Reading the slots `w` of a buffer whose first places are written over by `D` gives entries of
`D` and, past them, old entries. -/
theorem map_overwrite (D : List α) (old : Nat → α) (w : List Nat) :
    (w.map fun i => D[i]?.getD (old i)).Perm
      (((w.filter fun i => i < D.length).filterMap fun i => D[i]?) ++
        (w.filter fun i => D.length ≤ i).map old) := by
  induction w with
  | nil => simp
  | cons i w ih =>
    by_cases h : i < D.length
    · have hle : ¬D.length ≤ i := by omega
      simpa [h, hle] using ih
    · have hle : D.length ≤ i := by omega
      simp only [map_cons, filter_cons, h, hle, decide_false, decide_true,
        Bool.false_eq_true, if_false, if_true, List.getElem?_eq_none hle, Option.getD_none]
      exact (ih.cons _).trans perm_middle.symm

/-- The slots `w` list the new entries exactly when they differ, and the old entries among them are
the new ones that were written elsewhere. -/
theorem overwrite_perm_iff {D : List α} (hD : D.Nodup) (old : Nat → α) (w : List Nat) :
    (w.map fun i => D[i]?.getD (old i)).Perm D ↔
      w.Nodup ∧ ((w.filter fun i => D.length ≤ i).map old).Perm
        (((List.range D.length).filter fun i => i ∉ w).filterMap fun i => D[i]?) := by
  have hsplit : w.Nodup → ((w.map fun i => D[i]?.getD (old i)).Perm D ↔
      ((w.filter fun i => D.length ≤ i).map old).Perm
        (((List.range D.length).filter fun i => i ∉ w).filterMap fun i => D[i]?)) := by
    intro hw
    have hlow : (w.filter fun i => i < D.length).Perm
        ((List.range D.length).filter fun i => i ∈ w) := by
      rw [perm_ext_iff_of_nodup (hw.filter _) (nodup_range.filter _)]
      intro i
      simp [and_comm]
    have hrange := (filter_append_perm (fun i => decide (i ∈ w))
      (List.range D.length)).filterMap fun i => D[i]?
    rw [filterMap_range_getElem?, filterMap_append] at hrange
    have hwin := (map_overwrite D old w).trans ((hlow.filterMap fun i => D[i]?).append_right _)
    rw [hwin.congr_left, ← hrange.congr_right, perm_append_left_iff]
    simp
  constructor
  · intro h
    have hw : w.Nodup := (h.nodup_iff.mpr hD).of_map _
    exact ⟨hw, (hsplit hw).mp h⟩
  · rintro ⟨hw, hstale⟩
    exact (hsplit hw).mpr hstale

end ModemSupport.Lib.Ring
