import ModemSupport.Lib.Ring

/-! The rings of the MHI host driver (`mhi_main.c`): `struct mhi_ring` with its pointers as
addresses, and the functions that move and compare them.  The pointers of a ring in use are those
of two counters that do not wrap. -/

namespace ModemSupport.Mhi

structure MhiRing where
  iommuBase : Nat
  base : Nat
  rp : Nat
  wp : Nat
  elSize : Nat
  len : Nat

namespace MhiRing

/-- The pointer behind the element at `p`, at the start of the ring again behind the last. -/
def next (r : MhiRing) (p : Nat) : Nat :=
  let p := p + r.elSize
  if p ≥ r.base + r.len then r.base else p

def addRingElement (r : MhiRing) : MhiRing := { r with wp := r.next r.wp }

def delRingElement (r : MhiRing) : MhiRing := { r with rp := r.next r.rp }

def getNrAvailRingElements (r : MhiRing) : Int :=
  if r.wp < r.rp then ((r.rp - r.wp) / r.elSize : Nat) - 1
  else ((r.rp - r.base) / r.elSize : Nat) + (((r.base + r.len - r.wp) / r.elSize : Nat) - 1)

def isRingFull (r : MhiRing) : Bool := r.next r.wp = r.rp

def toVirtual (r : MhiRing) (addr : Nat) : Nat := (addr + 2 ^ 64 - r.iommuBase + r.base) % 2 ^ 64

def toPhysical (r : MhiRing) (addr : Nat) : Nat := (addr + 2 ^ 64 - r.base + r.iommuBase) % 2 ^ 64

def index (r : MhiRing) (p : Nat) : Nat := (p - r.base) / r.elSize

/-- The number of elements from `rp` up to `wp`. -/
def outstanding (r : MhiRing) : Nat := (r.wp + r.len - r.rp) % r.len / r.elSize

/-- The address `addr` of the device is that of an element from `rp` up to `wp`. -/
def Names (r : MhiRing) (addr : Nat) : Prop :=
  ∃ k < r.outstanding, addr = r.toPhysical (r.next^[k] r.rp)

instance (r : MhiRing) (addr : Nat) : Decidable (r.Names addr) :=
  inferInstanceAs (Decidable (∃ k < r.outstanding, addr = r.toPhysical (r.next^[k] r.rp)))

/-- The ring of `n` elements whose pointers are at the counters `rd` and `wr`. -/
structure At (r : MhiRing) (n rd wr : Nat) : Prop where
  elSize_pos : 0 < r.elSize
  n_pos : 0 < n
  len : r.len = n * r.elSize
  rp : r.rp = r.base + rd % n * r.elSize
  wp : r.wp = r.base + wr % n * r.elSize

namespace At

variable {r : MhiRing} {n rd wr : Nat}

theorem next_mod (h : r.At n rd wr) (x : Nat) :
    r.next (r.base + x % n * r.elSize) = r.base + (x + 1) % n * r.elSize := by
  have hlt := Nat.mod_lt x h.n_pos
  have hmod : (x + 1) % n = (x % n + 1) % n := (Nat.mod_add_mod x n 1).symm
  unfold next
  rw [h.len, hmod]
  rcases Nat.lt_or_ge (x % n + 1) n with hin | hend
  · have hle := Nat.mul_le_mul_right r.elSize hin
    have hpos := h.elSize_pos
    rw [Nat.mod_eq_of_lt hin]
    rw [Nat.succ_mul] at hle
    rw [Nat.add_one_mul] at hle ⊢
    rw [if_neg (by omega)]
    omega
  · have heq : x % n + 1 = n := by omega
    have hmul : n * r.elSize = x % n * r.elSize + r.elSize := by
      rw [← Nat.succ_mul, Nat.succ_eq_add_one, heq]
    rw [heq, Nat.mod_self, Nat.zero_mul, hmul, if_pos (by omega)]
    rfl

theorem add (h : r.At n rd wr) : r.addRingElement.At n rd (wr + 1) :=
  { h with wp := by rw [addRingElement, h.wp, h.next_mod] }

theorem del (h : r.At n rd wr) : r.delRingElement.At n (rd + 1) wr :=
  { h with rp := by rw [delRingElement, h.rp, h.next_mod] }

theorem index_mod (h : r.At n rd wr) (x : Nat) :
    r.index (r.base + x % n * r.elSize) = x % n := by
  rw [index, Nat.add_sub_cancel_left, Nat.mul_div_cancel _ h.elSize_pos]

theorem index_rp (h : r.At n rd wr) : r.index r.rp = rd % n := by rw [h.rp, h.index_mod]

theorem index_wp (h : r.At n rd wr) : r.index r.wp = wr % n := by rw [h.wp, h.index_mod]

theorem ptr_inj (h : r.At n rd wr) {x y : Nat} :
    r.base + x % n * r.elSize = r.base + y % n * r.elSize ↔ x % n = y % n := by
  constructor
  · intro heq
    exact Nat.eq_of_mul_eq_mul_right h.elSize_pos (Nat.add_left_cancel heq)
  · intro heq
    rw [heq]

end At

namespace At

variable {r : MhiRing} {n rd wr : Nat}

theorem isRingFull_iff (h : r.At n rd wr) (hle : rd ≤ wr) (hlt : wr < rd + n) :
    r.isRingFull = true ↔ wr + 1 = rd + n := by
  unfold isRingFull
  rw [decide_eq_true_iff, h.wp, h.next_mod, h.rp, h.ptr_inj]
  rcases Nat.lt_or_ge (wr + 1) (rd + n) with hroom | hfull
  · rw [Lib.Ring.mod_eq_iff (by omega) hroom]
    omega
  · have heq : wr + 1 = rd + n := by omega
    rw [heq, Nat.add_mod_right]
    exact iff_of_true rfl rfl

theorem rp_eq_wp_iff (h : r.At n rd wr) (hle : rd ≤ wr) (hlt : wr < rd + n) :
    r.rp = r.wp ↔ rd = wr := by
  rw [h.rp, h.wp, h.ptr_inj, eq_comm, Lib.Ring.mod_eq_iff hle hlt]

theorem outstanding_eq (h : r.At n rd wr) (hle : rd ≤ wr) (hlt : wr < rd + n) :
    r.outstanding = wr - rd := by
  have hrd := Nat.mod_lt rd h.n_pos
  have hdist : r.wp + r.len - r.rp = (wr % n + n - rd % n) * r.elSize := by
    rw [h.wp, h.rp, h.len, Nat.add_assoc, Nat.add_sub_add_left, ← Nat.add_mul, ← Nat.sub_mul]
  unfold outstanding
  rw [hdist, h.len, Nat.mul_mod_mul_right, Nat.mul_div_cancel _ h.elSize_pos]
  exact Lib.Ring.mod_distance hle hlt

theorem iterate_next (h : r.At n rd wr) (k : Nat) :
    r.next^[k] r.rp = r.base + (rd + k) % n * r.elSize := by
  induction k with
  | zero => exact h.rp
  | succ k ih => rw [Function.iterate_succ_apply', ih, h.next_mod, Nat.add_assoc]

theorem toVirtual_of_names (h : r.At n rd wr) (hle : rd ≤ wr) (hlt : wr < rd + n)
    (hbase : r.base + r.len ≤ 2 ^ 64) (hiommu : r.iommuBase + r.len ≤ 2 ^ 64) {addr : Nat}
    (hnames : r.Names addr) :
    ∃ x, rd ≤ x ∧ x < wr ∧ r.toVirtual addr = r.base + x % n * r.elSize := by
  obtain ⟨k, hk, rfl⟩ := hnames
  rw [h.outstanding_eq hle hlt] at hk
  refine ⟨rd + k, by omega, by omega, ?_⟩
  rw [h.iterate_next]
  have hin : (rd + k) % n * r.elSize < r.len := by
    rw [h.len]
    exact Nat.mul_lt_mul_of_pos_right (Nat.mod_lt _ h.n_pos) h.elSize_pos
  unfold toPhysical toVirtual
  omega

theorem getNrAvailRingElements_eq (h : r.At n rd wr) (hle : rd ≤ wr) (hlt : wr < rd + n) :
    r.getNrAvailRingElements + (wr - rd : Nat) = n - 1 := by
  have hrd := Nat.mod_lt rd h.n_pos
  have hwr := Nat.mod_lt wr h.n_pos
  have hdist := Lib.Ring.mod_distance hle hlt
  have hlen : r.base + n * r.elSize - r.wp = (n - wr % n) * r.elSize := by
    rw [h.wp, Nat.add_sub_add_left, Nat.sub_mul]
  have hrp : r.rp - r.base = rd % n * r.elSize := by rw [h.rp, Nat.add_sub_cancel_left]
  have hsub : r.rp - r.wp = (rd % n - wr % n) * r.elSize := by
    rw [h.rp, h.wp, Nat.add_sub_add_left, Nat.sub_mul]
  have hiff : r.wp < r.rp ↔ wr % n < rd % n := by
    rw [h.rp, h.wp, Nat.add_lt_add_iff_left]
    exact Nat.mul_lt_mul_right h.elSize_pos
  unfold getNrAvailRingElements
  rw [h.len, hlen, hrp, hsub, Nat.mul_div_cancel _ h.elSize_pos, Nat.mul_div_cancel _ h.elSize_pos,
    Nat.mul_div_cancel _ h.elSize_pos]
  by_cases hlt' : wr % n < rd % n
  · rw [if_pos (hiff.mpr hlt')]
    rw [Nat.mod_eq_of_lt (by omega)] at hdist
    omega
  · rw [if_neg (mt hiff.mp hlt')]
    rw [show wr % n + n - rd % n = (wr % n - rd % n) + n by omega, Nat.add_mod_right,
      Nat.mod_eq_of_lt (by omega)] at hdist
    omega

end At

end MhiRing

end ModemSupport.Mhi
