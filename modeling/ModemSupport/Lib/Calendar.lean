import Mathlib.Logic.Basic

/-! Dates, and the passing of one day of every month. -/

namespace ModemSupport.Lib.Calendar

/-- February of a leap year; months are counted from January of the year 0. -/
def isLeap (year : Nat) : Bool := year % 4 = 0 && (year % 100 ≠ 0 || year % 400 = 0)

def daysIn (month : Nat) : Nat :=
  if month % 12 = 1 then (if isLeap (month / 12) then 29 else 28)
  else if month % 12 = 3 ∨ month % 12 = 5 ∨ month % 12 = 8 ∨ month % 12 = 10 then 30
  else 31

theorem daysIn_bounds (month : Nat) : 28 ≤ daysIn month ∧ daysIn month ≤ 31 := by
  unfold daysIn
  split
  · split <;> omega
  · split <;> omega

structure Date where
  month : Nat
  day : Nat
  valid : 1 ≤ day ∧ day ≤ daysIn month
  deriving DecidableEq

namespace Date

variable {d e f : Date}

instance : LT Date := ⟨fun d e => d.month < e.month ∨ d.month = e.month ∧ d.day < e.day⟩

instance : LE Date := ⟨fun d e => d.month < e.month ∨ d.month = e.month ∧ d.day ≤ e.day⟩

instance (d e : Date) : Decidable (d < e) :=
  inferInstanceAs (Decidable (d.month < e.month ∨ d.month = e.month ∧ d.day < e.day))

instance (d e : Date) : Decidable (d ≤ e) :=
  inferInstanceAs (Decidable (d.month < e.month ∨ d.month = e.month ∧ d.day ≤ e.day))

theorem lt_def : d < e ↔ d.month < e.month ∨ d.month = e.month ∧ d.day < e.day := .rfl

theorem le_def : d ≤ e ↔ d.month < e.month ∨ d.month = e.month ∧ d.day ≤ e.day := .rfl

theorem le_refl : d ≤ d := le_def.mpr (by omega)

theorem le_of_lt (h : d < e) : d ≤ e := by
  rw [lt_def] at h
  rw [le_def]
  omega

theorem le_trans (h : d ≤ e) (h' : e ≤ f) : d ≤ f := by
  rw [le_def] at h h' ⊢
  omega

theorem lt_of_le_of_lt (h : d ≤ e) (h' : e < f) : d < f := by
  rw [le_def] at h
  rw [lt_def] at h' ⊢
  omega

theorem not_lt_self : ¬d < d := by
  rw [lt_def]
  omega

theorem month_le (h : d ≤ e) : d.month ≤ e.month := by
  rw [le_def] at h
  omega

theorem eq_or_lt_of_le (h : d ≤ e) : d = e ∨ d < e := by
  rw [le_def] at h
  rw [lt_def]
  rcases d with ⟨m, n, hd⟩
  rcases e with ⟨m', n', he⟩
  simp only [Date.mk.injEq]
  simp only at h
  omega

def next (d : Date) : Date :=
  if h : d.day < daysIn d.month then ⟨d.month, d.day + 1, by have := d.valid; omega⟩
  else ⟨d.month + 1, 1, by have := daysIn_bounds (d.month + 1); omega⟩

theorem lt_next : d < d.next := by
  rw [lt_def, next]
  split
  · exact .inr ⟨rfl, Nat.lt_succ_self _⟩
  · exact .inl (Nat.lt_succ_self _)

theorem month_next : d.next.month = d.month ∨ d.next.month = d.month + 1 := by
  rw [next]
  split
  · exact .inl rfl
  · exact .inr rfl

def Soon (d e : Date) : Prop := e.month = d.month ∨ e.month = d.month + 1 ∧ e.day < d.day

instance (d e : Date) : Decidable (Soon d e) :=
  inferInstanceAs (Decidable (e.month = d.month ∨ e.month = d.month + 1 ∧ e.day < d.day))

/-- Day `r` of a month comes after `d` and not after `e`. -/
def Passes (r : Nat) (d e : Date) : Prop :=
  ∃ m, (d.month < m ∨ d.month = m ∧ d.day < r) ∧ (m < e.month ∨ m = e.month ∧ r ≤ e.day)

variable {r : Nat}

theorem passes_iff : Passes r d e ↔
    d.month + 1 < e.month ∨ d.month < e.month ∧ (d.day < r ∨ r ≤ e.day) ∨
      d.month = e.month ∧ d.day < r ∧ r ≤ e.day := by
  constructor
  · rintro ⟨m, hafter, hbefore⟩
    omega
  · rintro (h | ⟨h, hday | hday⟩ | ⟨h, hday⟩)
    · exact ⟨d.month + 1, by omega, by omega⟩
    · exact ⟨d.month, by omega, by omega⟩
    · exact ⟨e.month, by omega, by omega⟩
    · exact ⟨d.month, by omega, by omega⟩

instance (r : Nat) (d e : Date) : Decidable (Passes r d e) := decidable_of_iff' _ passes_iff

theorem not_passes_self : ¬Passes r d d := by
  rw [passes_iff]
  omega

/-- A day of the month does not come back before every other one has passed. -/
theorem passes_of_day_eq (h : d < e) (hday : d.day = e.day) : Passes r d e := by
  rw [lt_def] at h
  rw [passes_iff]
  omega

theorem passes_trans (hde : d ≤ e) (hef : e ≤ f) :
    Passes r d f ↔ Passes r d e ∨ Passes r e f := by
  rw [le_def] at hde hef
  rw [passes_iff, passes_iff, passes_iff]
  omega

theorem passes_next (hr : 1 ≤ r ∧ r ≤ 28) : Passes r d d.next ↔ d.next.day = r := by
  have hbounds := daysIn_bounds d.month
  have hvalid := d.valid
  rw [passes_iff, next]
  by_cases h : d.day < daysIn d.month
  · simp only [dif_pos h, true_and]
    omega
  · simp only [dif_neg h]
    omega

end Date

end ModemSupport.Lib.Calendar
