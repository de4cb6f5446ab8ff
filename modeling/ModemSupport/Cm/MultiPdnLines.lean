import ModemSupport.Cm.MultiPdn
import Mathlib.Data.List.TakeWhile

/-! Where the two readers of `multi-pdn-manager.c` find a key, and that they agree on it. -/

namespace ModemSupport.Cm.MultiPdn

open Lib.Text Lib.Gets Lib.Memory List

def lineAt (lines : List Str) (k : Nat) : Str := lines.getD k []

/-- Where a key is found in the lines behind its section's: no line of the section has the name of
the key in front but this one. -/
structure Found (F : Nat → Str) (key : Str) (k : Nat) : Prop where
  body : ∀ j < k, ¬ key <+: F j ∧ (F j).head? ≠ some '['
  line : key ++ ['='] <+: F k
  once : ∀ j, k < j → (∀ j', k < j' → j' ≤ j → (F j').head? ≠ some '[') → ¬ key <+: F j

/-- A key in line `k`, of a section that starts in line `h`, the first of its name. -/
structure Located (F : Nat → Str) (sect key : Str) (h k : Nat) : Prop where
  first : ∀ j < h, ¬ sect <+: F j
  header : sect <+: F h
  lt : h < k
  found : Found (fun j => F (h + 1 + j)) key (k - (h + 1))

theorem lineAt_zero {l : Str} {lines : List Str} : lineAt (l :: lines) 0 = l := rfl

variable {F G : Nat → Str} {sect key val l text : Str} {h h' k i j : Nat}
  {lines rest : List Str}

theorem Located.body (hloc : Located F sect key h k) (hj : h < j) (hk : j < k) :
    ¬ key <+: F j ∧ (F j).head? ≠ some '[' := by
  have hbody := hloc.found.body (j - (h + 1)) (by omega)
  rwa [show h + 1 + (j - (h + 1)) = j by omega] at hbody

theorem Located.line (hloc : Located F sect key h k) : key ++ ['='] <+: F k := by
  have hline := hloc.found.line
  have hlt := hloc.lt
  rwa [show h + 1 + (k - (h + 1)) = k by omega] at hline

/-- What the loops ask of a line. -/
structure Alike (l l' : Str) : Prop where
  sect : ∀ s : Str, s.head? = some '[' → (s <+: l ↔ s <+: l')
  key : ∀ key : Key, (key.name <+: l ↔ key.name <+: l') ∧
    (key.name ++ ['='] <+: l ↔ key.name ++ ['='] <+: l')
  head : l.head? = some '[' ↔ l'.head? = some '['

theorem Alike.refl (l : Str) : Alike l l :=
  ⟨fun _ _ => Iff.rfl, fun _ => ⟨Iff.rfl, Iff.rfl⟩, Iff.rfl⟩

theorem Located.congr {key : Key} (hs : sect.head? = some '[') (hFG : ∀ j, Alike (F j) (G j))
    (hloc : Located F sect key.name h k) : Located G sect key.name h k := by
  refine ⟨fun j hj => (not_congr ((hFG j).sect sect hs)).mp (hloc.first j hj),
    ((hFG h).sect sect hs).mp hloc.header, hloc.lt, fun j hj => ?_, ?_, fun j hj hall => ?_⟩
  · obtain ⟨hkey, hhead⟩ := hloc.found.body j hj
    exact ⟨(not_congr ((hFG _).key key).1).mp hkey, (not_congr (hFG _).head).mp hhead⟩
  · exact (((hFG _).key key).2).mp hloc.found.line
  · refine (not_congr ((hFG _).key key).1).mp (hloc.found.once j hj fun j' hj' hle => ?_)
    exact (not_congr (hFG _).head).mpr (hall j' hj' hle)

theorem name_ne_nil (key : Key) : key.name ≠ [] := by
  cases key <;> decide

theorem notMem_name {c : Char} (key : Key) (hc : c.isAlpha = false) : c ∉ key.name := by
  intro hmem
  have hall : key.name.all Char.isAlpha = true := by
    cases key <;> rfl
  rw [List.all_eq_true.mp hall c hmem] at hc
  cases hc

theorem name_isPrefix_iff {key key' : Key} (hline : key.name ++ ['='] <+: l) :
    key'.name <+: l ↔ key' = key := by
  obtain ⟨v, rfl⟩ := hline
  constructor
  · intro h
    by_contra hne
    have hpre : key'.name <+: key.name ++ ['='] := by
      refine prefix_of_prefix_length_le h (prefix_append ..) ?_
      by_contra hlong
      have hle : key.name ++ ['='] <+: key'.name :=
        prefix_of_prefix_length_le (prefix_append ..) h (by omega)
      exact notMem_name key' (by decide) (hle.subset (by simp) : '=' ∈ key'.name)
    revert hpre hne
    cases key <;> cases key' <;> decide
  · rintro rfl
    rw [append_assoc]
    exact prefix_append ..

theorem line_isPrefix_iff {key key' : Key} (hline : key.name ++ ['='] <+: l) :
    key'.name ++ ['='] <+: l ↔ key' = key := by
  constructor
  · intro h
    exact (name_isPrefix_iff hline).mp ((prefix_append ..).trans h)
  · rintro rfl
    exact hline

theorem head_of_isPrefix {s : Str} (hs : s ≠ []) (hline : s <+: l) : l.head? = s.head? := by
  obtain ⟨t, rfl⟩ := hline
  rw [List.head?_append_of_ne_nil _ hs]

theorem head_line_ne {key : Key} (hline : key.name ++ ['='] <+: l) :
    l.head? ≠ some '[' := by
  rw [head_of_isPrefix (by simp) hline]
  cases key <;> decide

theorem alike_of_line {key : Key} {l l' : Str} (hl : key.name ++ ['='] <+: l)
    (hl' : key.name ++ ['='] <+: l') : Alike l l' := by
  have hnot : ∀ {l s : Str}, key.name ++ ['='] <+: l → s.head? = some '[' → ¬ s <+: l := by
    intro l s hline hs hpre
    have hne : s ≠ [] := by
      rintro rfl
      cases hs
    rw [← head_of_isPrefix hne hpre] at hs
    exact head_line_ne hline hs
  refine ⟨fun s hs => iff_of_false (hnot hl hs) (hnot hl' hs), fun key' => ⟨?_, ?_⟩,
    iff_of_false (head_line_ne hl) (head_line_ne hl')⟩
  · rw [name_isPrefix_iff hl, name_isPrefix_iff hl']
  · rw [line_isPrefix_iff hl, line_isPrefix_iff hl']

theorem head_sectOf (i : Nat) : (sectOf i).head? = some '[' := rfl

theorem sectOf_injective (hi : sectOf i <+: l) (hj : sectOf j <+: l) : i = j := by
  obtain ⟨t, rfl⟩ := hi
  obtain ⟨t', heq⟩ := hj
  have hdec : ∀ n : Nat, ']' ∉ dec n := fun n => notMem_dec (by decide)
  rw [sectOf, sectOf, append_assoc, append_assoc, append_assoc, append_assoc,
    append_cancel_left_eq, singleton_append, singleton_append] at heq
  have hfind := congrArg (find [']']) heq
  rw [find_singleton (hdec _), find_singleton (hdec _), Option.some.injEq, Prod.mk.injEq] at hfind
  have hij := dec_injective hfind.1
  omega

theorem Located.unique {i i' : Nat} {key key' : Key}
    (hloc : Located F (sectOf i) key.name h k) (hloc' : Located F (sectOf i') key'.name h' k) :
    i = i' ∧ key = key' := by
  have hkey : key = key' := (line_isPrefix_iff hloc'.line).mp hloc.line
  have hhead : ∀ {i h}, sectOf i <+: F h → (F h).head? = some '[' := fun hpre =>
    head_of_isPrefix (cons_ne_nil _ _) hpre
  have hle : h' ≤ h := by
    by_contra hlt
    exact (hloc.body (not_le.mp hlt) hloc'.lt).2 (hhead hloc'.header)
  have hge : h ≤ h' := by
    by_contra hlt
    exact (hloc'.body (not_le.mp hlt) hloc.lt).2 (hhead hloc.header)
  obtain rfl := Nat.le_antisymm hle hge
  exact ⟨sectOf_injective hloc.header hloc'.header, hkey⟩

def valueOf (key l : Str) : Str :=
  (l.drop (key.length + 1)).takeWhile fun c => c ≠ '\r' ∧ c ≠ '\n'

theorem isPrefixOf_eq_false {s : Str} (h : ¬ s <+: l) : s.isPrefixOf l = false := by
  rw [Bool.eq_false_iff, Ne, isPrefixOf_iff_prefix]
  exact h

theorem not_name_isPrefix {key : Key} (hhead : l.head? = some '[') : ¬ key.name <+: l := by
  intro hpre
  rw [head_of_isPrefix (name_ne_nil key) hpre] at hhead
  revert hhead
  cases key <;> decide

theorem readKey_of_once {key : Key} (h : ∀ j, (∀ j' ≤ j, (lineAt rest j').head? ≠ some '[') →
    ¬ key.name <+: lineAt rest j) : readKey key.name val rest = val := by
  induction rest with
  | nil => rfl
  | cons l rest ih =>
    rw [readKey]
    by_cases hhead : l.head? = some '['
    · rw [isPrefixOf_eq_false (not_name_isPrefix hhead), if_neg Bool.false_ne_true, if_pos hhead]
    · have hkey : ¬ key.name <+: l := h 0 fun j' hj' => by
        rw [Nat.le_zero.mp hj']
        exact hhead
      rw [isPrefixOf_eq_false hkey, if_neg Bool.false_ne_true, if_neg hhead]
      refine ih fun j hall => h (j + 1) fun j' hj' => ?_
      cases j' with
      | zero => exact hhead
      | succ j' => exact hall j' (by omega)

theorem storeValue_nil (hnull : '\x00' ∉ text) :
    (storeValue [] text).takeWhile (· ≠ '\x00') =
      text.takeWhile fun c => c ≠ '\r' ∧ c ≠ '\n' := by
  have hall : text.takeWhile (· ≠ '\x00') = text := by
    rw [takeWhile_eq_self_iff]
    intro c hc
    simpa using fun heq : c = '\x00' => hnull (heq ▸ hc)
  simp only [storeValue, drop_nil, append_nil, hall, List.take_length, drop_length]
  clear hall
  induction text with
  | nil => rfl
  | cons c text ih =>
    rw [mem_cons, not_or] at hnull
    rw [map_cons, takeWhile_cons, takeWhile_cons, ih hnull.2]
    by_cases hc : c = '\r' ∨ c = '\n'
    · simp [hc]
      rcases hc with rfl | rfl <;> decide
    · rw [not_or] at hc
      simp [hc, Ne.symm hnull.1]

theorem readKey_of_found {key : Key} (hfound : Found (lineAt lines) key.name k)
    (hnull : '\x00' ∉ lineAt lines k) :
    (readKey key.name [] lines).takeWhile (· ≠ '\x00') = valueOf key.name (lineAt lines k) := by
  induction lines generalizing k with
  | nil =>
    have hline := hfound.line
    rw [lineAt, getD_nil] at hline
    exact absurd (prefix_nil.mp hline) (by simp)
  | cons l lines ih =>
    cases k with
    | zero =>
      obtain ⟨v, hv⟩ := hfound.line
      obtain rfl : key.name ++ '=' :: v = l := by
        rw [append_cons]
        exact hv
      have hdrop : (key.name ++ '=' :: v).drop key.name.length = '=' :: v := drop_left
      have hdrop' : (key.name ++ '=' :: v).drop (key.name.length + 1) = v := by
        rw [← drop_drop, hdrop, drop_one, tail_cons]
      have hpre : key.name.isPrefixOf (key.name ++ '=' :: v) = true := by
        rw [List.isPrefixOf_iff_prefix]
        exact prefix_append ..
      have hv : '\x00' ∉ v := fun hmem =>
        hnull (mem_append_right _ (mem_cons_of_mem _ hmem))
      have hfind := find_singleton (c := '=') (a := []) (b := v) not_mem_nil
      rw [nil_append] at hfind
      rw [readKey, if_pos hpre, hdrop, hfind]
      simp only
      rw [readKey_of_once, storeValue_nil hv]
      · exact (congrArg _ hdrop').symm
      · intro j hall
        refine hfound.once (j + 1) (Nat.succ_pos j) fun j' hj' hle => ?_
        obtain ⟨j', rfl⟩ := Nat.exists_eq_succ_of_ne_zero hj'.ne'
        exact hall j' (by omega)
    | succ k =>
      obtain ⟨hkey, hhead⟩ := hfound.body 0 (Nat.succ_pos k)
      rw [lineAt_zero] at hkey hhead
      rw [readKey, isPrefixOf_eq_false hkey, if_neg Bool.false_ne_true, if_neg hhead]
      refine ih ⟨fun j hj => hfound.body (j + 1) (by omega), hfound.line, fun j hj hall => ?_⟩ hnull
      refine hfound.once (j + 1) (by omega) fun j' hj' hle => ?_
      cases j' with
      | zero => exact hhead
      | succ j' => exact hall j' (by omega) (by omega)

theorem iniReadValue_cons (h : ¬ sect <+: l) :
    iniReadValue sect key (l :: lines) = iniReadValue sect key lines := by
  rw [iniReadValue, isPrefixOf_eq_false h, if_neg Bool.false_ne_true]
  exact ite_self _

theorem iniReadValue_sect (hs : sect.head? = some '[') (h : sect <+: l) :
    iniReadValue sect key (l :: lines) = readKey key [] lines := by
  have hpre := isPrefixOf_iff_prefix.mpr h
  have hskipped : skipped l = false := by
    obtain ⟨t, rfl⟩ := h
    cases sect with
    | nil => cases hs
    | cons c sect =>
      cases hs
      rfl
  rw [iniReadValue, hskipped, hpre]
  rfl

theorem Located.tail (hloc : Located F sect key (h + 1) (k + 1)) :
    Located (fun j => F (j + 1)) sect key h k := by
  refine ⟨fun j hj => hloc.first (j + 1) (by omega), hloc.header,
    Nat.lt_of_succ_lt_succ hloc.lt, ?_⟩
  have hfound := hloc.found
  simp only [Nat.add_sub_add_right] at hfound
  simpa only [Nat.add_right_comm _ _ 1] using hfound

theorem iniReadValue_of_located {key : Key} (hs : sect.head? = some '[')
    (hloc : Located (lineAt lines) sect key.name h k) (hnull : '\x00' ∉ lineAt lines k) :
    (iniReadValue sect key.name lines).takeWhile (· ≠ '\x00') =
      valueOf key.name (lineAt lines k) := by
  induction lines generalizing h k with
  | nil =>
    have hline := hloc.line
    rw [lineAt, getD_nil] at hline
    exact absurd (prefix_nil.mp hline) (by simp)
  | cons l lines ih =>
    obtain ⟨k, rfl⟩ := Nat.exists_eq_succ_of_ne_zero (Nat.ne_zero_of_lt hloc.lt)
    cases h with
    | zero =>
      have hheader := hloc.header
      rw [lineAt_zero] at hheader
      rw [iniReadValue_sect hs hheader]
      have hfound := hloc.found
      simp only [Nat.zero_add, Nat.add_comm 1, Nat.succ_sub_one] at hfound
      exact readKey_of_found hfound hnull
    | succ h =>
      have hnot : ¬ sect <+: l := hloc.first 0 (Nat.succ_pos h)
      rw [iniReadValue_cons hnot]
      exact ih hloc.tail hnull

theorem findKey_of_found {key : Key} (hfound : Found (lineAt lines) key.name k) :
    findKey key.name lines = (some k, k + 1) := by
  induction lines generalizing k with
  | nil =>
    have hline := hfound.line
    rw [lineAt, getD_nil] at hline
    exact absurd (prefix_nil.mp hline) (by simp)
  | cons l lines ih =>
    cases k with
    | zero =>
      have hpre : key.name.isPrefixOf l = true :=
        isPrefixOf_iff_prefix.mpr ((prefix_append ..).trans hfound.line)
      rw [findKey, if_pos hpre]
    | succ k =>
      obtain ⟨hkey, hhead⟩ := hfound.body 0 (Nat.succ_pos k)
      rw [lineAt_zero] at hkey hhead
      rw [findKey, isPrefixOf_eq_false hkey, if_neg Bool.false_ne_true, if_neg hhead, ih (k := k)]
      · rfl
      · refine ⟨fun j hj => hfound.body (j + 1) (by omega), hfound.line, fun j hj hall => ?_⟩
        refine hfound.once (j + 1) (by omega) fun j' hj' hle => ?_
        cases j' with
        | zero => exact hhead
        | succ j' => exact hall j' (by omega) (by omega)

theorem findLine_of_located {key : Key} (hs : sect.head? = some '[')
    (hloc : Located (lineAt lines) sect key.name h k) :
    findLine sect key.name lines = (some k, k + 1) := by
  induction lines generalizing h k with
  | nil =>
    have hline := hloc.line
    rw [lineAt, getD_nil] at hline
    exact absurd (prefix_nil.mp hline) (by simp)
  | cons l lines ih =>
    obtain ⟨k, rfl⟩ := Nat.exists_eq_succ_of_ne_zero (Nat.ne_zero_of_lt hloc.lt)
    cases h with
    | zero =>
      have hfound := hloc.found
      simp only [Nat.zero_add, Nat.add_comm 1, Nat.succ_sub_one] at hfound
      have hskipped : skipped l = false := by
        obtain ⟨t, ht⟩ := hloc.header
        have hl : sect ++ t = l := ht
        rw [← hl]
        cases sect with
        | nil => cases hs
        | cons c sect =>
          cases hs
          rfl
      have hpre := isPrefixOf_iff_prefix.mpr (show sect <+: l from hloc.header)
      have hkey : findKey key.name lines = (some k, k + 1) := findKey_of_found hfound
      rw [findLine, hskipped, hpre, if_neg Bool.false_ne_true, if_pos rfl, hkey]
      rfl
    | succ h =>
      have hnot : ¬ sect <+: l := hloc.first 0 (Nat.succ_pos h)
      rw [findLine, isPrefixOf_eq_false hnot, if_neg Bool.false_ne_true, ite_self, ih hloc.tail]
      rfl

end ModemSupport.Cm.MultiPdn
