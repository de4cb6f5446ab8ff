import Mathlib.Data.List.Find
import ModemSupport.Lib.Classes
import ModemSupport.Rooter.SmsFileMerge

/-! The part of `merge.lua` that writes the records of `overall`: it puts those of one number
together. -/

namespace ModemSupport.Rooter.SmsMerge

open Lib.Text Lib.Classes SmsFile List Option

structure Place where
  msgnum : Nat
  msgord : Nat
  msgmax : Nat
  ord_pos : 1 ≤ msgord
  ord_le : msgord ≤ 255
  max_pos : 1 ≤ msgmax
  max_le : msgmax ≤ 255
  deriving DecidableEq

structure Entry where
  slot : Nat
  phone : Str
  nline : Str
  place : Option Place
  msg : Str
  short : Str
  deriving DecidableEq

/-- `message`, as it is put into `overall`. -/
def Entry.record (e : Entry) : Record where
  slot := dec e.slot
  phone := e.phone
  nline := e.nline
  msgnum := (e.place.map fun p => dec p.msgnum).getD xxx
  msgord := (e.place.map fun p => dec p.msgord).getD xxx
  msgmax := (e.place.map fun p => dec p.msgmax).getD xxx
  msg := e.msg
  short := e.short

structure Inbox where
  entries : List Entry
  sorted : entries.Pairwise (·.slot < ·.slot)

def store (o : Overall × Rat) (e : Entry) : Overall × Rat :=
  (o.1.insert e.record, max o.2 e.slot)

/-- `overall` and `maxslot` when the records have been read. -/
def stored (l : List Entry) : Overall × Rat := l.foldl store (fun _ => none, -1)

/-- What is written behind the two counts; `none` is a runtime error. -/
def outputPart (o : Overall × Rat) : Option (List Output) :=
  writeSlots ⌊o.2⌋.toNat (if o.2 < 0 then [] else List.range (⌊o.2⌋.toNat + 1)) o.1

variable {e e' : Entry} {l l' : List Entry} {i j n maxslot : Nat} {o : Overall} {c : List Entry}

theorem stored_append : stored (l ++ [e]) = store (stored l) e := foldl_concat ..

theorem stored_lookup (hl : (l.map (·.slot)).Nodup) (key : Str) :
    (stored l).1 key = (l.find? fun e => dec e.slot = key).map Entry.record := by
  induction l using reverseRecOn with
  | nil => rfl
  | append_singleton l e ih =>
    rw [map_append, nodup_append] at hl
    rw [stored_append, List.find?_append]
    simp only [store, Overall.insert]
    split
    case isTrue hkey =>
      have hnone : l.find? (fun e => dec e.slot = key) = none := by
        rw [List.find?_eq_none]
        intro e' he' heq
        have hslot : dec e'.slot = dec e.slot := (of_decide_eq_true heq).trans hkey
        exact hl.2.2 e'.slot (List.mem_map_of_mem he') e.slot (by simp) (dec_injective hslot)
      have hsome : dec e.slot = key := hkey.symm
      simp [hnone, hsome]
    case isFalse hkey =>
      have hne : ¬ dec e.slot = key := fun heq => hkey heq.symm
      rw [ih hl.1]
      simp [hne]

theorem stored_maxslot (hl : l ≠ []) :
    ∃ e ∈ l, (stored l).2 = e.slot ∧ ∀ e' ∈ l, e'.slot ≤ e.slot := by
  induction l using reverseRecOn with
  | nil => exact absurd rfl hl
  | append_singleton l e ih =>
    rw [stored_append]
    simp only [store]
    by_cases hnil : l = []
    · subst hnil
      refine ⟨e, by simp, ?_, by simp⟩
      have hpos : (0 : Rat) ≤ e.slot := Nat.cast_nonneg _
      exact max_eq_right (by simp [stored]; linarith)
    · obtain ⟨e', he', hmax, hle⟩ := ih hnil
      rw [hmax]
      rcases le_total e'.slot e.slot with hlt | hlt
      · refine ⟨e, by simp, max_eq_right (by exact_mod_cast hlt), fun d hd => ?_⟩
        rcases mem_append.mp hd with hd | hd
        · exact (hle d hd).trans hlt
        · rw [mem_singleton.mp hd]
      · refine ⟨e', mem_append_left _ he', max_eq_left (by exact_mod_cast hlt), fun d hd => ?_⟩
        rcases mem_append.mp hd with hd | hd
        · exact hle d hd
        · rw [mem_singleton.mp hd]
          exact hlt

theorem Inbox.nodup (s : Inbox) : (s.entries.map (·.slot)).Nodup := by
  rw [nodup_iff_pairwise_ne, pairwise_map]
  exact s.sorted.imp fun hlt => hlt.ne

def joins (e e' : Entry) : Bool :=
  match e.place, e'.place with
  | some p, some p' => p.msgnum == p'.msgnum
  | _, _ => false

theorem joins_iff : joins e e' = true ↔
    ∃ p p', e.place = some p ∧ e'.place = some p' ∧ p.msgnum = p'.msgnum := by
  rw [joins]
  split
  · next p p' hp hp' => simp [hp, hp']
  · next hne => simpa using fun p hp p' hp' => absurd hp' (hne p p' hp)

theorem joins_symm (h : joins e e' = true) : joins e' e = true := by
  obtain ⟨p, p', hp, hp', heq⟩ := joins_iff.mp h
  exact joins_iff.mpr ⟨p', p, hp', hp, heq.symm⟩

theorem joins_trans {d : Entry} (h : joins e e' = true) (h' : joins e' d = true) :
    joins e d = true := by
  obtain ⟨p, p', hp, hp', heq⟩ := joins_iff.mp h
  obtain ⟨q, q', hq, hq', heq'⟩ := joins_iff.mp h'
  rw [hp', some.injEq] at hq
  subst hq
  exact joins_iff.mpr ⟨p, q', hp, hq', heq.trans heq'⟩

theorem msgnum_eq_iff {p : Place} (hp : e.place = some p) :
    e'.record.msgnum = e.record.msgnum ↔ joins e e' = true := by
  rw [joins_iff]
  simp only [Entry.record, hp, map_some, getD_some]
  cases hp' : e'.place with
  | none =>
    have hx : xxx ≠ dec p.msgnum := fun heq =>
      notMem_dec (k := p.msgnum) (by decide) (heq ▸ mem_cons_self : 'x' ∈ dec p.msgnum)
    simpa using hx
  | some p' =>
    simp only [map_some, getD_some, some.injEq]
    constructor
    · intro heq
      exact ⟨p, p', rfl, rfl, (dec_injective heq).symm⟩
    · rintro ⟨q, q', rfl, rfl, heq⟩
      rw [heq]

theorem msgnum_ne {p : Place} (hp : e.place = some p) : e.record.msgnum ≠ xxx := by
  intro heq
  have hmem : 'x' ∈ dec p.msgnum := by
    simp only [Entry.record, hp, map_some, getD_some] at heq
    rw [heq]
    exact mem_cons_self
  exact notMem_dec (by decide) hmem

/-- What is written for records that are put together, the first of which has the lowest slot. -/
def put : List Entry → Option Output
  | [] => none
  | e :: c =>
    match e.place with
    | none => some ⟨[dec e.slot], e.phone, e.nline, e.msg, e.short⟩
    | some _ => build e.record ((e :: c).map Entry.record)

structure Holds (o : Overall) (i n : Nat) (l : List Entry) : Prop where
  sorted : l.Pairwise (·.slot < ·.slot)
  slots : ∀ e ∈ l, i ≤ e.slot ∧ e.slot < i + n
  lookup : ∀ j, i ≤ j → j < i + n →
    o (dec j) = (l.find? fun e => e.slot = j).map Entry.record

theorem filterMap_slots (hsorted : l.Pairwise (·.slot < ·.slot))
    (hslots : ∀ e ∈ l, i ≤ e.slot ∧ e.slot < i + n) :
    (List.range' i n).filterMap (fun j => l.find? fun e => e.slot = j) = l := by
  induction n generalizing i l with
  | zero =>
    cases l with
    | nil => rfl
    | cons e l =>
      have hslot := hslots e mem_cons_self
      omega
  | succ n ih =>
    rw [List.range'_succ, filterMap_cons]
    cases l with
    | nil =>
      simp
    | cons e l =>
      obtain ⟨hlt, hsorted'⟩ := pairwise_cons.mp hsorted
      obtain ⟨hle, hslots'⟩ := forall_mem_cons.mp hslots
      by_cases heq : e.slot = i
      · have hrest : ∀ j ∈ List.range' (i + 1) n,
            (e :: l).find? (fun e => e.slot = j) = l.find? fun e => e.slot = j := by
          intro j hj
          have hj := mem_range'_1.mp hj
          rw [List.find?_cons_of_neg (by simp; omega)]
        rw [List.find?_cons_of_pos (by simp [heq]), filterMap_congr hrest]
        simp only
        rw [ih hsorted' fun d hd => by
          have hd' := hlt d hd
          have hd'' := hslots' d hd
          omega]
      · have hnone : (e :: l).find? (fun e => e.slot = i) = none := by
          rw [List.find?_eq_none]
          intro d hd
          rcases mem_cons.mp hd with rfl | hd
          · simpa using heq
          · have hd' := hlt d hd
            simpa using by omega
        rw [hnone]
        simp only
        refine ih hsorted fun d hd => ?_
        rcases mem_cons.mp hd with rfl | hd
        · omega
        · have hd' := hlt d hd
          have hd'' := hslots' d hd
          omega

theorem Holds.skip (h : Holds o i (n + 1) l) (hi : i < 10 ^ 14) (hnone : o (tostring i) = none) :
    Holds o (i + 1) n l := by
  rw [tostring_eq hi, h.lookup i le_rfl (by omega), map_eq_none_iff,
    List.find?_eq_none] at hnone
  refine ⟨h.sorted, fun e he => ?_, fun j hj hlt => h.lookup j (by omega) (by omega)⟩
  have hslot := h.slots e he
  have hne : e.slot ≠ i := by simpa using hnone e he
  omega

theorem Holds.head (h : Holds o i (n + 1) l) (hi : i < 10 ^ 14) {r : Record}
    (hr : o (tostring i) = some r) : ∃ e l', l = e :: l' ∧ e.slot = i ∧ r = e.record := by
  rw [tostring_eq hi, h.lookup i le_rfl (by omega), map_eq_some_iff] at hr
  obtain ⟨e, hfind, rfl⟩ := hr
  have heq : e.slot = i := by simpa using List.find?_some hfind
  obtain ⟨d, l', rfl⟩ :=
    exists_cons_of_ne_nil (ne_nil_of_mem (List.mem_of_find?_eq_some hfind))
  by_cases hd : d.slot = i
  · rw [List.find?_cons_of_pos (by simp [hd]), some.injEq] at hfind
    exact ⟨d, l', rfl, hd, by rw [hfind]⟩
  · rw [List.find?_cons_of_neg (by simpa using hd)] at hfind
    have hlt := (pairwise_cons.mp h.sorted).1 e (List.mem_of_find?_eq_some hfind)
    have hle := (h.slots d mem_cons_self).1
    omega

theorem Holds.rest {r : Entry → Entry → Bool} (taken : List Str)
    (h : Holds o i (n + 1) (e :: l)) (hi : e.slot = i)
    (htaken : ∀ j, i < j → j < i + (n + 1) →
      (dec j ∈ taken ↔ ∃ d ∈ l, d.slot = j ∧ r e d = true)) :
    Holds (fun key => if key ∈ taken then none else o key) (i + 1) n (others r e l) := by
  obtain ⟨hlt, hsorted⟩ := pairwise_cons.mp h.sorted
  have hslots := (forall_mem_cons.mp h.slots).2
  refine ⟨hsorted.filter _, fun d hd => ?_, fun j hj hjn => ?_⟩
  · have hd := mem_of_mem_filter hd
    have hd' := hlt d hd
    have hd'' := hslots d hd
    omega
  · have hunique : ∀ d ∈ l, ∀ d' ∈ l, d.slot = d'.slot → d = d' := by
      have hnodup : (l.map (·.slot)).Nodup := by
        rw [nodup_iff_pairwise_ne, pairwise_map]
        exact hsorted.imp fun hlt => hlt.ne
      exact fun d hd d' hd' heq => inj_on_of_nodup_map hnodup hd hd' heq
    have hlookup := h.lookup j (by omega) (by omega)
    rw [List.find?_cons_of_neg (by simp; omega)] at hlookup
    split
    case isTrue hmem =>
      obtain ⟨d, hd, hdj, hrd⟩ := (htaken j (by omega) (by omega)).mp hmem
      have hnone : (others r e l).find? (fun e => e.slot = j) = none := by
        rw [List.find?_eq_none]
        intro d' hd' heq
        obtain ⟨hd', hr'⟩ := mem_filter.mp hd'
        rw [hunique d' hd' d hd ((of_decide_eq_true heq).trans hdj.symm), hrd] at hr'
        cases hr'
      rw [hnone]
      rfl
    case isFalse hmem =>
      rw [hlookup]
      congr 1
      rw [others, List.find?_filter]
      refine List.find?_congr fun d hd => ?_
      by_cases hdj : d.slot = j
      · have hrd : r e d = false := by
          rw [Bool.eq_false_iff]
          exact fun hrd => hmem ((htaken j (by omega) (by omega)).mpr ⟨d, hd, hdj, hrd⟩)
        simp [hdj, hrd]
      · simp [hdj]

section Round

variable {p : Place}

theorem Holds.parts (h : Holds o i (n + 1) (e :: l)) (hi : e.slot = i) (hp : e.place = some p)
    (hlt : i + (n + 1) ≤ 10 ^ 14) : (List.range' (i + 1) n).filterMap (o.part e.record.msgnum) =
      (l.filter (joins e)).map Entry.record := by
  obtain ⟨hslot, hsorted⟩ := pairwise_cons.mp h.sorted
  have hslots := (forall_mem_cons.mp h.slots).2
  have hpart : ∀ j ∈ List.range' (i + 1) n, o.part e.record.msgnum j =
      ((l.find? fun e => e.slot = j).filter (joins e)).map Entry.record := by
    intro j hj
    have hj := mem_range'_1.mp hj
    rw [Overall.part, tostring_eq (by omega), h.lookup j (by omega) (by omega),
      List.find?_cons_of_neg (by simp; omega)]
    cases l.find? fun e => e.slot = j with
    | none => rfl
    | some d =>
      have hiff : d.record.msgnum = e.record.msgnum ↔ joins e d = true := msgnum_eq_iff hp
      by_cases hjoins : joins e d = true
      · simp [Option.filter, hiff.mpr hjoins, hjoins]
      · simp [Option.filter, mt hiff.mp hjoins, hjoins]
  rw [filterMap_congr hpart, ← List.map_filterMap, ← filter_filterMap,
    filterMap_slots hsorted fun d hd => ?_]
  have hd' := hslot d hd
  have hd'' := hslots d hd
  omega

theorem Holds.mem_taken (h : Holds o i (n + 1) (e :: l)) (hi : e.slot = i) (hp : e.place = some p)
    (hlt : i + (n + 1) ≤ 10 ^ 14) (hj : i < j) (hjn : j < i + (n + 1)) :
    dec j ∈ o.taken e.record.msgnum (List.range' (i + 1) n) ↔
      ∃ d ∈ l, d.slot = j ∧ joins e d = true := by
  have hbound : ∀ j ∈ List.range' (i + 1) n, j < 10 ^ 14 := by
    intro j hj
    have hj := mem_range'_1.mp hj
    omega
  rw [SmsFile.mem_taken hbound (by omega), mem_range'_1, Overall.part, tostring_eq (by omega),
    h.lookup j (by omega) (by omega), List.find?_cons_of_neg (by simp; omega)]
  constructor
  · rintro ⟨-, hsome⟩
    obtain ⟨r, hr⟩ := isSome_iff_exists.mp hsome
    obtain ⟨hfind, hnum⟩ := filter_eq_some_iff.mp hr
    obtain ⟨d, hd, rfl⟩ := map_eq_some_iff.mp hfind
    exact ⟨d, List.mem_of_find?_eq_some hd, by simpa using List.find?_some hd,
      (msgnum_eq_iff hp).mp (by simpa using hnum)⟩
  · rintro ⟨d, hd, hslot, hjoins⟩
    refine ⟨by omega, ?_⟩
    have hsome : (l.find? fun e => e.slot = j).isSome = true :=
      List.find?_isSome.mpr ⟨d, hd, by simp [hslot]⟩
    obtain ⟨d', hd'⟩ := isSome_iff_exists.mp hsome
    have hnodup : (l.map (·.slot)).Nodup := by
      rw [nodup_iff_pairwise_ne, pairwise_map]
      exact (pairwise_cons.mp h.sorted).2.imp fun hlt => hlt.ne
    have heq : d' = d := inj_on_of_nodup_map hnodup (List.mem_of_find?_eq_some hd') hd
      ((by simpa using List.find?_some hd' : d'.slot = j).trans hslot.symm)
    rw [hd', heq]
    simp [Option.filter, (msgnum_eq_iff hp).mpr hjoins]

end Round

theorem writeSlots_eq (h : Holds o i n l) (hlt : i + n ≤ 10 ^ 14) (hmax : i + n = maxslot + 1) :
    writeSlots maxslot (List.range' i n) o = (classes joins l).mapM put := by
  induction n generalizing i l o with
  | zero =>
    cases l with
    | nil => simp [writeSlots]
    | cons e l =>
      have hslot := h.slots e mem_cons_self
      omega
  | succ n ih =>
    rw [List.range'_succ, writeSlots]
    have hi : i < 10 ^ 14 := by omega
    cases hr : o (tostring i) with
    | none =>
      rw [writeSlot, hr]
      simp [ih (h.skip hi hr) (by omega) (by omega)]
    | some r =>
      obtain ⟨e, l', rfl, hslot, rfl⟩ := h.head hi hr
      cases hp : e.place with
      | none =>
        have hjoins : ∀ d, joins e d = false := fun d => by simp [joins, hp]
        have hrest := h.rest (r := joins) [] hslot (fun j _ _ => by simp [hjoins])
        have hxxx : e.record.msgnum = xxx := by simp [Entry.record, hp]
        have hothers : others joins e l' = l' := by simp [others, hjoins]
        simp only [not_mem_nil, if_false, hothers] at hrest
        have hput : put [e] = some ⟨[dec e.slot], e.phone, e.nline, e.msg, e.short⟩ := by
          rw [put, hp]
        rw [writeSlot, hr, classes_cons_of_false hjoins, mapM_cons, hput]
        simp only [hxxx, if_true, bind_eq_bind, bind_some,
          ih hrest (by omega) (by omega)]
        rfl
      | some p =>
        have hrest := h.rest (r := joins) (o.taken e.record.msgnum (List.range' (i + 1) n))
          hslot (fun j hj hjn => h.mem_taken hslot hp hlt hj hjn)
        have hbehind : behind maxslot i = List.range' (i + 1) n := by
          rw [behind, show maxslot - i = n by omega]
        have hput : put (e :: l'.filter (joins e)) =
            build e.record (e.record :: (l'.filter (joins e)).map Entry.record) := by
          rw [put, hp]
          rfl
        rw [writeSlot_eq hr (msgnum_ne hp), hbehind, h.parts hslot hp hlt, classes_cons,
          mapM_cons, hput]
        cases build e.record (e.record :: (l'.filter (joins e)).map Entry.record) with
        | none => rfl
        | some out =>
          simp only [map_some, bind_eq_bind, bind_some,
            ih hrest (by omega) (by omega)]
          rfl

end ModemSupport.Rooter.SmsMerge
