import Mathlib.Tactic.NormNum

/-! Numbers as bytes, bytes put into a memory, and bytes put over those of a buffer. -/

namespace ModemSupport.Lib.Memory

open List

/-- The lowest `w` bytes of a number, the lowest first. -/
def toLE : Nat → Nat → List UInt8
  | 0, _ => []
  | w + 1, n => UInt8.ofNat n :: toLE w (n / 256)

def ofLE : List UInt8 → Nat
  | [] => 0
  | b :: bs => b.toNat + 256 * ofLE bs

@[simp] theorem length_toLE {w n : Nat} : (toLE w n).length = w := by
  induction w generalizing n with
  | zero => rfl
  | succ w ih => rw [toLE, length_cons, ih]

theorem ofLE_toLE {w n : Nat} (h : n < 256 ^ w) : ofLE (toLE w n) = n := by
  induction w generalizing n with
  | zero =>
    have hn : n = 0 := by simpa using h
    simp [toLE, ofLE, hn]
  | succ w ih =>
    have hdiv : n / 256 < 256 ^ w := by
      rw [Nat.div_lt_iff_lt_mul (by norm_num)]
      exact h
    have hmod := Nat.div_add_mod n 256
    rw [toLE, ofLE, ih hdiv, UInt8.toNat_ofNat']
    omega

/-- An `int`, which wraps around. -/
def int32 (x : Int) : Int := (Int32.ofInt x).toInt

theorem int32_eq {x : Int} : int32 x = x.bmod (2 ^ 32) := Int32.toInt_ofInt

theorem int32_le {x : Int} (h : 0 ≤ x) : int32 x ≤ x := by
  rw [int32_eq, Int.bmod_def]
  split <;> omega

theorem int32_of_lt {n : Nat} (h : n < 2 ^ 31) : int32 n = n := by
  rw [int32_eq, Int.bmod_def]
  split <;> omega

theorem int32_add_left {x y : Int} : int32 (int32 x + y) = int32 (x + y) := by
  rw [int32_eq, int32_eq, int32_eq, Int.bmod_add_bmod]

abbrev Mem := Nat → UInt8

variable {m : Mem} {a : Nat} {xs ys : List (Option UInt8)}

/-- A memory with bytes put into it from an address on; where there is none it is as before. -/
def put (m : Mem) (a : Nat) (bs : List (Option UInt8)) : Mem := fun i =>
  if a ≤ i then (bs[i - a]?.join).getD (m i) else m i

@[simp] theorem put_nil : put m a [] = m := by
  funext i
  simp [put]

theorem put_append : put m a (xs ++ ys) = put (put m a xs) (a + xs.length) ys := by
  funext i
  unfold put
  by_cases ha : a ≤ i
  · rw [if_pos ha, if_pos ha]
    by_cases hx : a + xs.length ≤ i
    · have hout : xs[i - a]? = none := List.getElem?_eq_none (by omega)
      rw [if_pos hx, List.getElem?_append_right (by omega), hout, Nat.sub_sub]
      rfl
    · rw [if_neg hx, List.getElem?_append_left (by omega)]
  · rw [if_neg ha, if_neg ha, if_neg (by omega)]

@[simp] theorem put_none {n : Nat} : put m a (replicate n none) = m := by
  funext i
  unfold put
  split
  · cases h : (replicate n (none : Option UInt8))[i - a]? with
    | none => rfl
    | some b =>
      have hb := eq_of_mem_replicate (mem_of_getElem? h)
      rw [hb]
      rfl
  · rfl

variable {m' : Mem} {b i k n : Nat} {bs : List UInt8}

def slice (m : Mem) (a n : Nat) : List UInt8 := (List.range n).map fun i => m (a + i)

@[simp] theorem length_slice : (slice m a n).length = n := by
  simp [slice]

theorem slice_congr (h : ∀ i, a ≤ i → i < a + n → m i = m' i) : slice m a n = slice m' a n := by
  apply map_congr_left
  intro i hi
  have hlt := mem_range.mp hi
  exact h _ (by omega) (by omega)

theorem slice_append : slice m a (k + n) = slice m a k ++ slice m (a + k) n := by
  simp only [slice, range_add, map_append, List.map_map, Nat.add_assoc]
  rfl

theorem put_of_not_mem (h : i < a ∨ a + bs.length ≤ i) : put m a (bs.map some) i = m i := by
  unfold put
  split
  · rw [List.getElem?_eq_none (by rw [length_map]; omega)]
    rfl
  · rfl

theorem slice_put_of_apart (h : b + n ≤ a ∨ a + bs.length ≤ b) :
    slice (put m a (bs.map some)) b n = slice m b n :=
  slice_congr fun i _ _ => put_of_not_mem (by omega)

theorem slice_put_self : slice (put m a (bs.map some)) a bs.length = bs := by
  apply ext_getElem
  · exact length_slice
  · intro i h h'
    simp [slice, put, h']

theorem ofLE_slice_put {w n : Nat} (h : n < 256 ^ w) :
    ofLE (slice (put m a ((toLE w n).map some)) a w) = n := by
  have hself : slice (put m a ((toLE w n).map some)) a (toLE w n).length = toLE w n :=
    slice_put_self
  rw [length_toLE] at hself
  rw [hself, ofLE_toLE h]

/-- Bytes and where they are written. -/
abbrev Writes := List (Nat × List UInt8)

def written (m : Mem) (writes : Writes) : Mem :=
  writes.foldl (fun m w => put m w.1 (w.2.map some)) m

def Inside (writes : Writes) (size : Int) : Prop := ∀ w ∈ writes, (w.1 + w.2.length : Int) ≤ size

variable {writes writes' : Writes} {w : Nat × List UInt8} {size : Int}

theorem written_append : written m (writes ++ writes') = written (written m writes) writes' :=
  foldl_append

theorem written_of_lt (h : ∀ w ∈ writes, i < w.1) : written m writes i = m i := by
  induction writes generalizing m with
  | nil => rfl
  | cons w writes ih =>
    obtain ⟨hw, hrest⟩ := forall_mem_cons.mp h
    exact (ih hrest).trans (put_of_not_mem (.inl hw))

theorem inside_append :
    Inside (writes ++ writes') size ↔ Inside writes size ∧ Inside writes' size :=
  forall_mem_append

theorem inside_cons :
    Inside (w :: writes) size ↔ (w.1 + w.2.length : Int) ≤ size ∧ Inside writes size :=
  forall_mem_cons

theorem inside_nil : Inside [] size := nofun

end ModemSupport.Lib.Memory

namespace ModemSupport.Lib.Buffer

open Memory List

abbrev Bytes := List UInt8

/-- Bytes are put over those of a buffer from a place on. -/
def store (buf : Bytes) (start : Nat) (bs : Bytes) : Bytes :=
  buf.take start ++ (bs ++ buf.drop (start + bs.length))

def field (buf : Bytes) (offset size : Nat) : Nat := ofLE ((buf.drop offset).take size)

variable {buf bs more received rx : Bytes} {offset size n : Nat}

theorem store_zero : store buf 0 bs = bs ++ buf.drop bs.length := by
  rw [store, Nat.zero_add, take_zero, nil_append]

theorem prefix_store_zero (buf bs : Bytes) : bs <+: store buf 0 bs := by
  rw [store_zero]
  exact List.prefix_append ..

theorem prefix_store (more : Bytes) (h : bs <+: buf) (hn : bs.length = n) :
    bs ++ more <+: store buf n more := by
  obtain ⟨rest, rfl⟩ := h
  rw [store, ← hn, take_left, ← append_assoc]
  exact List.prefix_append ..

theorem field_prefix_eq (h : received <+: rx) (hle : offset + size ≤ received.length) :
    field rx offset size = field received offset size := by
  obtain ⟨more, rfl⟩ := h
  rw [field, field, drop_append_of_le_length (by omega),
    take_append_of_le_length (by rw [length_drop]; omega)]

theorem ofLE_lt (bs : Bytes) : ofLE bs < 256 ^ bs.length := by
  induction bs with
  | nil => decide
  | cons b bs ih =>
    have hb := b.toNat_lt
    rw [ofLE, length_cons, Nat.pow_succ]
    omega

theorem field_lt (buf : Bytes) (offset size : Nat) : field buf offset size < 256 ^ size := by
  have hlen : ((buf.drop offset).take size).length ≤ size := length_take_le ..
  exact lt_of_lt_of_le (ofLE_lt _) (Nat.pow_le_pow_right (by decide) hlen)

end ModemSupport.Lib.Buffer
