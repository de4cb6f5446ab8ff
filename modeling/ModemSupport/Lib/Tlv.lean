import ModemSupport.Lib.Memory

/-! Values with a byte for their type and two for their length in front of them, one behind the
other in a memory, and the search for the first value of a type. -/

namespace ModemSupport.Lib.Tlv

open Memory List

abbrev Item := UInt8 × List UInt8

def headerSize : Nat := 3

def encode : List Item → List UInt8
  | [] => []
  | x :: xs => x.1 :: (toLE 2 x.2.length ++ (x.2 ++ encode xs))

def size (m : Mem) (p : Nat) : Nat := ofLE (slice m (p + 1) 2)

/-- The values stand one behind the other from an address on. -/
def Holds (m : Mem) : Nat → List Item → Prop
  | _, [] => True
  | p, x :: xs => m p = x.1 ∧ size m p = x.2.length ∧ slice m (p + headerSize) x.2.length = x.2 ∧
    Holds m (p + headerSize + x.2.length) xs

def first (t : UInt8) (xs : List Item) : Option (List UInt8) :=
  (xs.find? fun x => x.1 = t).map Prod.snd

def items (table : List (UInt8 × Option (List UInt8))) : List Item :=
  table.filterMap fun x => x.2.map (x.1, ·)

variable {m m' : Mem} {p n : Nat} {t : UInt8} {v : List UInt8} {x : Item} {xs ys : List Item}
  {table table' : List (UInt8 × Option (List UInt8))}

theorem size_lt : size m p < 2 ^ 16 := by
  have h0 := (m (p + 1)).toNat_lt
  have h1 := (m (p + 1 + 1)).toNat_lt
  show (m (p + 1)).toNat + 256 * ((m (p + 1 + 1)).toNat + 256 * 0) < 2 ^ 16
  omega

theorem length_encode_cons :
    (encode (x :: xs)).length = headerSize + x.2.length + (encode xs).length := by
  simp only [encode, length_cons, length_append, length_toLE, headerSize]
  omega

theorem encode_append : encode (xs ++ ys) = encode xs ++ encode ys := by
  induction xs with
  | nil => rfl
  | cons x xs ih => simp only [cons_append, encode, ih, append_assoc]

theorem length_encode_append :
    (encode (xs ++ ys)).length = (encode xs).length + (encode ys).length := by
  rw [encode_append, length_append]

theorem length_le_of_mem (h : x ∈ xs) : x.2.length + headerSize ≤ (encode xs).length := by
  obtain ⟨as, bs, rfl⟩ := append_of_mem h
  rw [length_encode_append, length_encode_cons]
  omega

theorem length_encode_perm (h : xs.Perm ys) : (encode xs).length = (encode ys).length := by
  induction h with
  | nil => rfl
  | cons x _ ih => rw [length_encode_cons, length_encode_cons, ih]
  | swap x y _ => simp only [length_encode_cons]; omega
  | trans _ _ ih ih' => exact ih.trans ih'

theorem slice_append_inj {a b : List UInt8} (h : slice m p n = a ++ b) :
    slice m p a.length = a ∧ slice m (p + a.length) b.length = b := by
  have hn : n = a.length + b.length := by
    have hlen := congrArg List.length h
    rwa [length_slice, length_append] at hlen
  rw [hn, slice_append] at h
  exact append_inj h length_slice

/-- A memory that has the bytes of values whose lengths fit holds the values. -/
theorem holds_of_slice (hfit : ∀ x ∈ xs, x.2.length < 2 ^ 16) (h : slice m p n = encode xs) :
    Holds m p xs := by
  induction xs generalizing p n with
  | nil => trivial
  | cons x xs ih =>
    rw [forall_mem_cons] at hfit
    obtain ⟨htype, hrest⟩ := slice_append_inj (a := [x.1]) h
    obtain ⟨hsize, hrest⟩ := slice_append_inj (a := toLE 2 x.2.length) hrest
    obtain ⟨hvalue, hrest⟩ := slice_append_inj hrest
    rw [length_toLE] at hsize hvalue hrest
    refine ⟨(List.cons.inj htype).1, ?_, hvalue, ih hfit.2 hrest⟩
    have hread : size m p = ofLE (toLE 2 x.2.length) := congrArg ofLE hsize
    rw [hread, ofLE_toLE hfit.1]

theorem getElem_of_slice {b : List UInt8} {i : Nat} (h : slice m p n = b) (hi : i < b.length) :
    m (p + i) = b.getD i 0 := by
  subst h
  rw [length_slice] at hi
  simp [slice, hi]

theorem first_eq_some_iff :
    first t xs = some v ↔ ∃ as bs, xs = as ++ (t, v) :: bs ∧ ∀ x ∈ as, x.1 ≠ t := by
  rw [first, Option.map_eq_some_iff]
  constructor
  · rintro ⟨⟨t', v'⟩, hfind, rfl⟩
    obtain ⟨ht, as, bs, rfl, hne⟩ := List.find?_eq_some_iff_append.mp hfind
    obtain rfl : t' = t := by simpa using ht
    exact ⟨as, bs, rfl, fun x hx => by simpa using hne x hx⟩
  · rintro ⟨as, bs, rfl, hne⟩
    refine ⟨(t, v), List.find?_eq_some_iff_append.mpr ⟨by simp, as, bs, rfl, ?_⟩, rfl⟩
    intro x hx
    simpa using hne x hx

theorem first_eq_none_iff : first t xs = none ↔ ∀ x ∈ xs, x.1 ≠ t := by
  simp [first]

theorem first_cons : first t (x :: xs) = if x.1 = t then some x.2 else first t xs := by
  rw [first, List.find?_cons]
  by_cases hx : x.1 = t
  · simp [hx]
  · simp [hx, first]

theorem items_append : items (table ++ table') = items table ++ items table' :=
  filterMap_append

theorem length_items_le (table table' : List (UInt8 × Option (List UInt8))) :
    (encode (items table)).length ≤ (encode (items (table ++ table'))).length := by
  rw [items_append, length_encode_append]
  exact Nat.le_add_right _ _

theorem first_items (h : (table.map Prod.fst).Nodup) :
    first t (items table) = (table.lookup t).join := by
  induction table with
  | nil => rfl
  | cons x table ih =>
    rw [map_cons, nodup_cons] at h
    obtain ⟨hnot, hrest⟩ := h
    obtain ⟨u, o⟩ := x
    by_cases hu : u = t
    · subst hu
      have hnone : first u (items table) = none := by
        rw [first_eq_none_iff]
        intro y hy
        obtain ⟨z, hz, hmap⟩ := mem_filterMap.mp hy
        obtain ⟨v, -, rfl⟩ := Option.map_eq_some_iff.mp hmap
        rintro rfl
        exact hnot (List.mem_map.mpr ⟨z, hz, rfl⟩)
      rw [lookup_cons_self]
      cases o with
      | none => exact hnone
      | some v =>
        refine first_cons.trans ?_
        rw [if_pos rfl]
        rfl
    · have hbeq : (t == u) = false := beq_false_of_ne (Ne.symm hu)
      rw [List.lookup_cons, hbeq, ← ih hrest]
      cases o with
      | none => rfl
      | some v =>
        refine first_cons.trans ?_
        rw [if_neg hu]
        rfl

end ModemSupport.Lib.Tlv
