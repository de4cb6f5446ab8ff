import ModemSupport.Lib.Lists
import ModemSupport.Rooter.SmsMerge

/-! Which sets of records `merge.lua` writes whole: each slot once, messages apart, and of a long
message all the parts. -/

namespace ModemSupport.Rooter.SmsMerge

open Lib.Text Lib.Classes SmsFile List

/-- Whether a record is the part for place `j`. -/
def Entry.at (e : Entry) (j : Nat) : Bool := (e.place.map (·.msgord)) == some j

def textOf (c : List Entry) : Str :=
  (List.range' 1 255).flatMap fun j => (c.filter (·.at j)).flatMap (·.msg)

def complete (c : List Entry) (msgmax : Nat) : Bool :=
  (List.range' 1 msgmax).all fun j => c.any (·.at j)

/-- What is written in front of a message of which a part is missing. -/
def mark (c : List Entry) (msgmax : Nat) : Str :=
  if complete c msgmax then [] else notice ++ [':', ' ']

/-- Parts of one message: the sender, the number and the count are the same. -/
def Same (e e' : Entry) : Prop :=
  e.phone = e'.phone ∧ ∃ p p', e.place = some p ∧ e'.place = some p' ∧ p.msgnum = p'.msgnum ∧
    p.msgmax = p'.msgmax

attribute [local instance] lawfulBEqStr

def Inbox.members (s : Inbox) (out : Output) : List Entry :=
  s.entries.filter fun e => dec e.slot ∈ out.slots

/-- What is to be written for a set of records. -/
structure Apart (s : Inbox) (outs : List Output) : Prop where
  once : (outs.flatMap (·.slots)).Perm (s.entries.map fun e => dec e.slot)
  apart : ∀ out ∈ outs, ∀ e ∈ s.members out, ∀ e' ∈ s.members out, e ≠ e' → Same e e'
  plain : ∀ out ∈ outs, ∀ e ∈ s.members out, e.place = none → out.msg = e.msg
  text : ∀ out ∈ outs, ∀ e ∈ s.members out, ∀ p, e.place = some p →
    out.msg = mark (s.members out) p.msgmax ++ textOf (s.members out)

/-- The records of one number are parts of one message, some part of which has a place in it; a part
with a text has one too and is the last one with it; and the text does not end in two newlines. -/
structure Clean (s : Inbox) : Prop where
  low : ∀ e ∈ s.entries, e.slot < 10 ^ 14
  same : ∀ e ∈ s.entries, ∀ e' ∈ s.entries, joins e e' → Same e e'
  found : ∀ e ∈ s.entries, ∀ p, e.place = some p → ∃ e' ∈ s.entries, joins e e' ∧
    ∃ j ≤ p.msgmax, e'.at j
  kept : ∀ e ∈ s.entries, ∀ p, e.place = some p → e.msg ≠ [] → p.msgord ≤ p.msgmax ∧
    ∀ e' ∈ s.entries, joins e e' → e'.at p.msgord → e'.slot ≤ e.slot
  ends : ∀ e ∈ s.entries, e.place ≠ none → ¬ ['\n', '\n'] <:+ textOf (s.entries.filter (joins e))

variable {s : Inbox} {e e' : Entry} {l c : List Entry} {cs : List (List Entry)} {out : Output}
  {outs : List Output} {i j n max : Nat} {p : Place} {o : Overall}

def lastPart (c : List Entry) (j : Nat) : Option Entry := c.reverse.find? (·.at j)

/-- The parts of `msgbuild` up to the count. -/
def merged (c : List Entry) (max : Nat) : Str :=
  (List.range' 1 max).flatMap fun j => ((lastPart c j).map (·.msg)).getD []

theorem at_iff (hp : e.place = some p) : e.at j = true ↔ p.msgord = j := by
  simp [Entry.at, hp]

theorem lastPart_eq : lastPart c j = (c.filter (·.at j)).getLast? := by
  rw [getLast?_filter, lastPart]

theorem lastPart_isSome : (lastPart c j).isSome = c.any (·.at j) := by
  rw [lastPart, List.isSome_find?, any_reverse]

theorem partAt_record (hj : j ≤ 255) :
    partAt (c.map Entry.record) j = (lastPart c j).map Entry.record := by
  rw [partAt, ← map_reverse, List.find?_map, lastPart]
  congr 1
  refine List.find?_congr fun e _ => ?_
  rw [Function.comp_apply, tostring_eq (by omega), Bool.eq_iff_iff, decide_eq_true_eq]
  cases hp : e.place with
  | none =>
    have hx : xxx ≠ dec j := fun heq =>
      notMem_dec (k := j) (by decide) (heq ▸ mem_cons_self : 'x' ∈ dec j)
    simp [Entry.record, Entry.at, hp, hx]
  | some p =>
    simp only [Entry.record, Entry.at, hp, Option.map_some, Option.getD_some, beq_iff_eq,
      Option.some.injEq]
    exact ⟨dec_injective, congrArg dec⟩

theorem length_cutEnd_le (msg : Str) : (cutEnd msg).length ≤ msg.length := by
  rw [cutEnd]
  split
  · exact length_take_le' ..
  · exact le_rfl

theorem cutEnd_eq_iff {msg : Str} : cutEnd msg = msg ↔ ¬ ['\n', '\n'] <:+ msg := by
  rw [cutEnd]
  split
  case isTrue h =>
    have hsuffix := isSuffixOf_iff_suffix.mp h
    have hle := hsuffix.length_le
    refine iff_of_false (fun heq => ?_) (not_not.mpr hsuffix)
    have hlen := congrArg List.length heq
    rw [length_take] at hlen
    simp only [length_cons, length_nil] at hle
    omega
  case isFalse h =>
    exact iff_of_true rfl fun hsuffix => h (isSuffixOf_iff_suffix.mpr hsuffix)

theorem put_cons (hp : e.place = some p) : put (e :: c) =
    (((List.range' 1 p.msgmax).filterMap (lastPart (e :: c))).head?.map fun first => {
      slots := (e :: c).map fun e => dec e.slot
      phone := e.phone
      nline := dec (ocount (cutEnd (mark (e :: c) p.msgmax ++ merged (e :: c) p.msgmax)) + 1)
      msg := cutEnd (mark (e :: c) p.msgmax ++ merged (e :: c) p.msgmax)
      short := if complete (e :: c) p.msgmax then first.short
        else notice ++ squeeze first.short }) := by
  have hmax : e.record.msgmax = dec p.msgmax := by simp [Entry.record, hp]
  have hfound : (List.range' 1 p.msgmax).map (partAt ((e :: c).map Entry.record)) =
      (List.range' 1 p.msgmax).map fun j => (lastPart (e :: c) j).map Entry.record := by
    refine map_congr_left fun j hj => partAt_record ?_
    have hj := mem_range'_1.mp hj
    have hle := p.max_le
    omega
  have hreduce : ((List.range' 1 p.msgmax).map fun j =>
        (lastPart (e :: c) j).map Entry.record).reduceOption =
      ((List.range' 1 p.msgmax).filterMap (lastPart (e :: c))).map Entry.record := by
    rw [reduceOption, filterMap_map, List.map_filterMap]
    rfl
  have hmissing : ((List.range' 1 p.msgmax).map fun j =>
      (lastPart (e :: c) j).map Entry.record).any Option.isNone = !complete (e :: c) p.msgmax := by
    rw [List.any_map, complete, not_all_eq_any_not]
    refine congrArg _ (funext fun j => ?_)
    rw [Function.comp_apply, Option.isNone_map, ← lastPart_isSome, Option.not_isSome]
  have hmerged : (((List.range' 1 p.msgmax).filterMap (lastPart (e :: c))).map
      Entry.record).flatMap (·.msg) = merged (e :: c) p.msgmax := by
    rw [flatMap_map, merged]
    induction List.range' 1 p.msgmax with
    | nil => rfl
    | cons j js ih =>
      rw [filterMap_cons, flatMap_cons, ← ih]
      cases lastPart (e :: c) j with
      | none => rfl
      | some d => rfl
  rw [put, hp]
  simp only [build, hmax, tonumber_dec, Option.bind_eq_bind, Option.bind_some, Int.floor_natCast,
    Int.toNat_natCast, hfound, hreduce, hmissing, hmerged, mark]
  cases (List.range' 1 p.msgmax).filterMap (lastPart (e :: c)) with
  | nil => rfl
  | cons d ds => cases complete (e :: c) p.msgmax <;> simp [Entry.record, Function.comp_def]

theorem put_isSome (hp : e.place = some p) :
    (put (e :: c)).isSome ↔ ∃ j ≤ p.msgmax, ∃ d ∈ e :: c, d.at j := by
  rw [put_cons hp, Option.isSome_map]
  have hiff : ((List.range' 1 p.msgmax).filterMap (lastPart (e :: c))).head?.isSome ↔
      ∃ d, d ∈ (List.range' 1 p.msgmax).filterMap (lastPart (e :: c)) := by
    cases (List.range' 1 p.msgmax).filterMap (lastPart (e :: c)) with
    | nil => simp
    | cons d ds => exact iff_of_true rfl ⟨d, mem_cons_self⟩
  rw [hiff]
  constructor
  · rintro ⟨d, hd⟩
    obtain ⟨j, hj, hlast⟩ := mem_filterMap.mp hd
    have hj := mem_range'_1.mp hj
    exact ⟨j, by omega, d, mem_reverse.mp (List.mem_of_find?_eq_some hlast),
      List.find?_some (p := fun e : Entry => e.at j) hlast⟩
  · rintro ⟨j, hj, d, hd, hat⟩
    have hpos : 1 ≤ j := by
      cases hq : d.place with
      | none => simp [Entry.at, hq] at hat
      | some q =>
        rw [at_iff hq] at hat
        exact hat ▸ q.ord_pos
    have hsome : (lastPart (e :: c) j).isSome := by
      rw [lastPart_isSome, List.any_eq_true]
      exact ⟨d, hd, hat⟩
    obtain ⟨d', hd'⟩ := Option.isSome_iff_exists.mp hsome
    exact ⟨d', mem_filterMap.mpr ⟨j, mem_range'_1.mpr ⟨hpos, by omega⟩, hd'⟩⟩

/-- A part with a text has a place, and is the last one with it. -/
def Kept (c : List Entry) (max : Nat) : Prop :=
  ∀ e ∈ c, ∀ j, e.at j → e.msg ≠ [] → j ≤ max ∧ ∀ e' ∈ c, e'.at j → e'.slot ≤ e.slot

theorem flatMap_msg_eq_iff (hc : c.Pairwise (·.slot < ·.slot)) :
    (c.getLast?.map (·.msg)).getD [] = c.flatMap (·.msg) ↔
      ∀ e ∈ c, e.msg ≠ [] → ∀ e' ∈ c, e'.slot ≤ e.slot := by
  rcases eq_nil_or_concat c with rfl | ⟨c, d, rfl⟩
  · simp
  · rw [concat_eq_append, getLast?_concat, flatMap_append, flatMap_singleton,
      Option.map_some, Option.getD_some, self_eq_append_left, flatMap_eq_nil_iff]
    rw [concat_eq_append] at hc
    have hlt : ∀ e ∈ c, e.slot < d.slot := fun e he =>
      (pairwise_append.mp hc).2.2 e he d (mem_singleton_self d)
    constructor
    · intro hnil e he hne e' he'
      rcases mem_append.mp he with he | he
      · exact absurd (hnil e he) hne
      · rw [mem_singleton.mp he]
        rcases mem_append.mp he' with he' | he'
        · exact (hlt e' he').le
        · rw [mem_singleton.mp he']
    · intro h e he
      by_contra hne
      have hle := h e (mem_append_left _ he) hne d (by simp)
      have hlt := hlt e he
      omega

theorem merged_eq (hmax : max ≤ 255) : merged c max = (List.range' 1 255).flatMap fun j =>
    if j ≤ max then ((c.filter (·.at j)).getLast?.map (·.msg)).getD [] else [] := by
  have hsplit : List.range' 1 255 = List.range' 1 max ++ List.range' (1 + max) (255 - max) := by
    rw [List.range'_append_1]
    congr 1
    omega
  have hbehind : (List.range' (1 + max) (255 - max)).flatMap (fun j =>
      if j ≤ max then ((c.filter (·.at j)).getLast?.map (·.msg)).getD [] else []) = [] := by
    rw [flatMap_eq_nil_iff]
    intro j hj
    have hj := mem_range'_1.mp hj
    rw [if_neg (by omega)]
  rw [hsplit, flatMap_append, hbehind, append_nil, merged]
  refine flatMap_congr fun j hj => ?_
  have hj := mem_range'_1.mp hj
  rw [if_pos (by omega), lastPart_eq]

theorem length_place_le (j : Nat) :
    (if j ≤ max then ((c.filter (·.at j)).getLast?.map (·.msg)).getD [] else []).length ≤
      ((c.filter (·.at j)).flatMap (·.msg)).length := by
  split
  · rcases eq_nil_or_concat (c.filter (·.at j)) with hnil | ⟨ds, d, heq⟩
    · rw [hnil]
      exact le_rfl
    · rw [heq, concat_eq_append, getLast?_concat, flatMap_append,
        length_append, flatMap_singleton]
      exact Nat.le_add_left ..
  · exact Nat.zero_le _

theorem length_merged_le (hmax : max ≤ 255) : (merged c max).length ≤ (textOf c).length := by
  rw [merged_eq hmax]
  exact length_flatMap_le fun j _ => length_place_le j

theorem merged_eq_iff (hmax : max ≤ 255) (hc : c.Pairwise (·.slot < ·.slot)) :
    merged c max = textOf c ↔ Kept c max := by
  rw [merged_eq hmax, textOf, flatMap_eq_iff fun j _ => length_place_le j]
  have hplace : ∀ j, (if j ≤ max then ((c.filter (·.at j)).getLast?.map (·.msg)).getD [] else []) =
      (c.filter (·.at j)).flatMap (·.msg) ↔ ∀ e ∈ c, e.at j → e.msg ≠ [] →
        j ≤ max ∧ ∀ e' ∈ c, e'.at j → e'.slot ≤ e.slot := by
    intro j
    split
    case isTrue hj =>
      rw [flatMap_msg_eq_iff (hc.filter _)]
      simp only [mem_filter, and_imp, hj, true_and]
    case isFalse hj =>
      rw [eq_comm, flatMap_eq_nil_iff]
      simp [mem_filter, and_imp, hj]
  constructor
  · intro h e he j hat
    have hj : j ∈ List.range' 1 255 := by
      cases hp : e.place with
      | none => simp [Entry.at, hp] at hat
      | some p =>
        rw [at_iff hp] at hat
        have hpos := p.ord_pos
        have hle := p.ord_le
        exact mem_range'_1.mpr ⟨by omega, by omega⟩
    exact (hplace j).mp (h j hj) e he hat
  · intro h j _
    exact (hplace j).mpr fun e he hat => h e he j hat

theorem suffix_mark {t : Str} : ['\n', '\n'] <:+ mark c max ++ t ↔ ['\n', '\n'] <:+ t := by
  refine ⟨fun h => ?_, fun h => h.trans (suffix_append ..)⟩
  rw [mark] at h
  split at h
  · exact h
  · rcases suffix_or_suffix_of_suffix h (suffix_append _ t) with ht | ht
    · exact ht
    · have hcases : t = [] ∨ t = ['\n'] ∨ t = ['\n', '\n'] := by
        simpa [suffix_cons_iff, or_comm, or_assoc, or_left_comm] using ht
      rcases hcases with rfl | rfl | rfl
      · revert h
        decide
      · revert h
        decide
      · exact suffix_refl _

theorem msg_eq_iff (hc : (e :: c).Pairwise (·.slot < ·.slot)) (hp : e.place = some p)
    (hput : put (e :: c) = some out) :
    out.msg = mark (e :: c) p.msgmax ++ textOf (e :: c) ↔
      Kept (e :: c) p.msgmax ∧ ¬ ['\n', '\n'] <:+ textOf (e :: c) := by
  rw [put_cons hp, Option.map_eq_some_iff] at hput
  obtain ⟨first, -, rfl⟩ := hput
  simp only
  constructor
  · intro heq
    have hlen := congrArg List.length heq
    have hcut := length_cutEnd_le (mark (e :: c) p.msgmax ++ merged (e :: c) p.msgmax)
    have hle := length_merged_le (c := e :: c) p.max_le
    rw [length_append] at hlen hcut
    have hwhole : cutEnd (mark (e :: c) p.msgmax ++ merged (e :: c) p.msgmax) =
        mark (e :: c) p.msgmax ++ merged (e :: c) p.msgmax := by
      rw [cutEnd] at hlen hcut ⊢
      split
      case isTrue h =>
        have hsuffix := (isSuffixOf_iff_suffix.mp h).length_le
        rw [if_pos h, length_take] at hlen
        simp only [length_append, length_cons, length_nil] at hlen hsuffix
        omega
      case isFalse => rfl
    have hmerged : merged (e :: c) p.msgmax = textOf (e :: c) := by
      rw [hwhole] at heq
      exact append_cancel_left heq
    refine ⟨(merged_eq_iff p.max_le hc).mp hmerged, ?_⟩
    rw [cutEnd_eq_iff, suffix_mark, hmerged] at hwhole
    exact hwhole
  · rintro ⟨hkept, hends⟩
    have hmerged := (merged_eq_iff p.max_le hc).mpr hkept
    rw [hmerged, cutEnd_eq_iff, suffix_mark]
    exact hends

theorem joins_self (hp : e.place = some p) : joins e e = true :=
  joins_iff.mpr ⟨p, p, hp, hp, rfl⟩

theorem class_cases (hc : c ∈ classes joins l) : (∃ e ∈ l, e.place = none ∧ c = [e]) ∨
    ∃ e ∈ l, ∃ d p, e.place = some p ∧ c = e :: d ∧ c = l.filter (joins e) := by
  obtain ⟨e, he, hhead, hrefl, hirrefl⟩ :=
    class_eq (r := joins) (fun _ _ => joins_symm) (fun _ _ _ => joins_trans) hc
  cases hp : e.place with
  | none => exact .inl ⟨e, he, hp, hirrefl (by simp [joins, hp])⟩
  | some p =>
    cases c with
    | nil => cases hhead
    | cons e' d =>
      rw [List.head?_cons, Option.some.injEq] at hhead
      subst hhead
      exact .inr ⟨e', he, d, p, hp, rfl, hrefl (joins_self hp)⟩

theorem slots_put (hc : c ∈ classes joins l) (h : put c = some out) :
    out.slots = c.map fun e => dec e.slot := by
  rcases class_cases hc with ⟨e, -, hp, rfl⟩ | ⟨e, -, d, p, hp, rfl, -⟩
  · rw [put, hp, Option.some.injEq] at h
    rw [← h]
    rfl
  · rw [put_cons hp, Option.map_eq_some_iff] at h
    obtain ⟨first, -, rfl⟩ := h
    rfl

theorem members_eq (hc : c ∈ classes joins s.entries) (h : put c = some out) :
    s.members out = c := by
  have hmem : ∀ e ∈ s.entries, (dec e.slot ∈ out.slots ↔ e ∈ c) := by
    intro e he
    rw [slots_put hc h, List.mem_map]
    constructor
    · rintro ⟨d, hd, heq⟩
      have hd' := (perm_flatten_classes (r := joins)).mem_iff.mp (mem_flatten.mpr ⟨c, hc, hd⟩)
      rwa [← inj_on_of_nodup_map s.nodup hd' he (dec_injective heq)]
    · exact fun he => ⟨e, he, rfl⟩
  rcases class_cases hc with ⟨e, he, -, rfl⟩ | ⟨e, -, d, p, -, -, heq⟩
  · rw [Inbox.members, ← Lib.Lists.filter_of_nodup s.nodup he]
    refine filter_congr fun e' he' => ?_
    rw [Bool.eq_iff_iff, decide_eq_true_eq, hmem e' he', mem_singleton, beq_iff_eq]
    exact ⟨fun heq => heq ▸ rfl, fun heq => inj_on_of_nodup_map s.nodup he' he heq⟩
  · rw [heq, Inbox.members]
    refine filter_congr fun e' he' => ?_
    rw [Bool.eq_iff_iff, decide_eq_true_eq, hmem e' he', heq, mem_filter]
    exact and_iff_right he'

theorem pairwise_class (hc : c ∈ classes joins s.entries) : c.Pairwise (·.slot < ·.slot) := by
  rcases class_cases hc with ⟨e, -, -, rfl⟩ | ⟨e, -, d, p, -, -, heq⟩
  · exact pairwise_singleton ..
  · rw [heq]
    exact s.sorted.filter _

theorem outputPart_eq (hlow : ∀ e ∈ s.entries, e.slot < 10 ^ 14) :
    outputPart (stored s.entries) = (classes joins s.entries).mapM put := by
  by_cases hnil : s.entries = []
  · rw [hnil, classes_nil]
    rfl
  · obtain ⟨e, he, hmax, hle⟩ := stored_maxslot hnil
    have hneg : ¬ ((e.slot : Rat) < 0) := not_lt.mpr (Nat.cast_nonneg _)
    rw [outputPart, hmax, if_neg hneg, Int.floor_natCast, Int.toNat_natCast,
      List.range_eq_range']
    refine writeSlots_eq ⟨s.sorted, fun e' he' => ⟨Nat.zero_le _, ?_⟩, fun j _ _ => ?_⟩ ?_ ?_
    · have hle := hle e' he'
      omega
    · rw [stored_lookup s.nodup]
      congr 1
      refine List.find?_congr fun e' _ => ?_
      rw [Bool.eq_iff_iff, decide_eq_true_eq, decide_eq_true_eq]
      exact ⟨fun heq => dec_injective heq, fun heq => heq ▸ rfl⟩
    · have hlt := hlow e he
      omega
    · omega

theorem slots_build {r : Record} {parts : List Record} (h : build r parts = some out) :
    out.slots = parts.map (·.slot) := by
  simp only [build, Option.bind_eq_bind, Option.bind_eq_some_iff, Option.map_eq_some_iff] at h
  obtain ⟨_, -, _, -, hout⟩ := h
  exact (Option.some.inj hout) ▸ rfl

theorem writeSlot_slots {o' : Overall} (h : writeSlot n i o = some (o', outs)) :
    (∀ key ∈ outs.flatMap (·.slots), ∃ j r, o (tostring j) = some r ∧ r.slot = key) ∧
      ∀ key r, o' key = some r → o key = some r := by
  cases hr : o (tostring i) with
  | none =>
    rw [writeSlot, hr] at h
    cases h
    exact ⟨forall_mem_nil _, fun _ _ h => h⟩
  | some r =>
    by_cases hnum : r.msgnum = xxx
    · rw [writeSlot, hr] at h
      simp only [if_pos hnum] at h
      cases h
      refine ⟨fun key hkey => ⟨i, r, hr, ?_⟩, fun _ _ h => h⟩
      simpa [eq_comm] using hkey
    · rw [writeSlot_eq hr hnum, Option.map_eq_some_iff] at h
      obtain ⟨out, hbuild, heq⟩ := h
      cases heq
      refine ⟨fun key hkey => ?_, fun key r hkey => ?_⟩
      · rw [flatMap_singleton, slots_build hbuild, List.mem_map] at hkey
        obtain ⟨q, hq, rfl⟩ := hkey
        rcases mem_cons.mp hq with rfl | hq
        · exact ⟨i, q, hr, rfl⟩
        · obtain ⟨j, -, hj⟩ := mem_filterMap.mp hq
          exact ⟨j, q, (Option.filter_eq_some_iff.mp hj).1, rfl⟩
      · dsimp only at hkey
        split at hkey
        · cases hkey
        · exact hkey

theorem writeSlots_slots {is : List Nat} (h : writeSlots n is o = some outs) :
    ∀ key ∈ outs.flatMap (·.slots), ∃ j r, o (tostring j) = some r ∧ r.slot = key := by
  induction is generalizing o outs with
  | nil =>
    cases h
    exact forall_mem_nil _
  | cons i is ih =>
    simp only [writeSlots, Option.bind_eq_bind, Option.bind_eq_some_iff] at h
    obtain ⟨⟨o', out⟩, hround, outs', hrest, heq⟩ := h
    cases heq
    obtain ⟨hslots, hleft⟩ := writeSlot_slots hround
    rw [flatMap_append]
    intro key hkey
    rcases mem_append.mp hkey with hkey | hkey
    · exact hslots key hkey
    · obtain ⟨j, r, hr, hslot⟩ := ih hrest key hkey
      exact ⟨j, r, hleft _ r hr, hslot⟩

theorem tostring_ne (hi : 10 ^ 14 ≤ i) : tostring j ≠ dec i := by
  intro heq
  by_cases hj : j < 10 ^ 14
  · rw [tostring_eq hj] at heq
    have hji := dec_injective heq
    omega
  · have hmem : 'e' ∈ tostring j := by
      rw [tostring, if_neg hj]
      simp
    rw [heq] at hmem
    exact notMem_dec (by decide) hmem

theorem low_of_once (h : outputPart (stored s.entries) = some outs)
    (honce : (outs.flatMap (·.slots)).Perm (s.entries.map fun e => dec e.slot)) :
    ∀ e ∈ s.entries, e.slot < 10 ^ 14 := by
  intro e he
  by_contra hle
  have hmem := honce.mem_iff.mpr (List.mem_map_of_mem (f := fun e : Entry => dec e.slot) he)
  obtain ⟨j, r, hr, hslot⟩ := writeSlots_slots h _ hmem
  rw [stored_lookup s.nodup, Option.map_eq_some_iff] at hr
  obtain ⟨d, hd, rfl⟩ := hr
  have hkey : dec d.slot = tostring j := by simpa using List.find?_some hd
  exact tostring_ne (not_lt.mp hle) (hkey.symm.trans hslot)

theorem put_of_outputPart (hlow : ∀ e ∈ s.entries, e.slot < 10 ^ 14)
    (h : outputPart (stored s.entries) = some outs) :
    (∀ out ∈ outs, ∃ c ∈ classes joins s.entries, put c = some out) ∧
      (∀ c ∈ classes joins s.entries, ∃ out ∈ outs, put c = some out) ∧
      outs.flatMap (·.slots) = (classes joins s.entries).flatten.map fun e => dec e.slot := by
  rw [outputPart_eq hlow, Lib.Lists.mapM_eq_some_iff] at h
  have hslots : ∀ c ∈ classes joins s.entries, ∀ out, put c = some out →
      out.slots = c.map fun e => dec e.slot := fun c hc out => slots_put hc
  generalize classes joins s.entries = cs at h hslots
  induction h with
  | nil => exact ⟨forall_mem_nil _, forall_mem_nil _, rfl⟩
  | @cons c out cs outs hput _ ih =>
    obtain ⟨hslot, hslots⟩ := forall_mem_cons.mp hslots
    obtain ⟨hfrom, hto, heq⟩ := ih hslots
    refine ⟨forall_mem_cons.mpr ⟨⟨c, mem_cons_self, hput⟩, fun out hout => ?_⟩,
      forall_mem_cons.mpr ⟨⟨out, mem_cons_self, hput⟩, fun c hc => ?_⟩, ?_⟩
    · obtain ⟨c, hc, hput⟩ := hfrom out hout
      exact ⟨c, mem_cons_of_mem _ hc, hput⟩
    · obtain ⟨out, hout, hput⟩ := hto c hc
      exact ⟨out, mem_cons_of_mem _ hout, hput⟩
    · rw [flatMap_cons, flatten_cons, map_append, heq, hslot out hput]

theorem mem_class (hc : c ∈ classes joins s.entries) (he : e ∈ c) (he' : e' ∈ s.entries)
    (hjoins : joins e e' = true) : e' ∈ c := by
  rcases class_cases hc with ⟨d, -, hp, rfl⟩ | ⟨d, -, _, p, -, -, heq⟩
  · rw [mem_singleton.mp he, joins, hp] at hjoins
    cases hjoins
  · rw [heq, mem_filter] at he ⊢
    exact ⟨he', joins_trans he.2 hjoins⟩

theorem filter_joins (hc : c ∈ classes joins s.entries) (he : e ∈ c) (hp : e.place = some p) :
    s.entries.filter (joins e) = c := by
  rcases class_cases hc with ⟨d, -, hq, rfl⟩ | ⟨d, -, _, q, -, -, heq⟩
  · rw [mem_singleton.mp he, hq] at hp
    cases hp
  · rw [heq] at he ⊢
    have hjoins := (mem_filter.mp he).2
    refine filter_congr fun b _ => Bool.eq_iff_iff.mpr ⟨fun h => ?_, fun h => ?_⟩
    · exact joins_trans hjoins h
    · exact joins_trans (joins_symm hjoins) h

theorem Same.max_eq (h : Same e e') (hp : e.place = some p) :
    ∃ q, e'.place = some q ∧ q.msgnum = p.msgnum ∧ q.msgmax = p.msgmax := by
  obtain ⟨-, p', q, hp', hq, hnum, hmax⟩ := h
  rw [hp, Option.some.injEq] at hp'
  subst hp'
  exact ⟨q, hq, hnum.symm, hmax.symm⟩

theorem Same.refl (hp : e.place = some p) : Same e e := ⟨rfl, p, p, hp, hp, rfl, rfl⟩

structure CleanClass (c : List Entry) (max : Nat) : Prop where
  same : ∀ e ∈ c, ∀ e' ∈ c, Same e e'
  found : ∃ j ≤ max, ∃ e ∈ c, e.at j
  kept : Kept c max
  ends : ¬ ['\n', '\n'] <:+ textOf c

theorem mem_entries (hc : c ∈ classes joins s.entries) (he : e ∈ c) : e ∈ s.entries :=
  (perm_flatten_classes (r := joins)).mem_iff.mp (mem_flatten.mpr ⟨c, hc, he⟩)

theorem joins_of_class (hc : e :: c ∈ classes joins s.entries) (hp : e.place = some p) :
    ∀ d ∈ e :: c, ∀ d' ∈ e :: c, joins d d' = true := by
  have hfilter := filter_joins hc mem_cons_self hp
  intro d hd d' hd'
  rw [← hfilter] at hd hd'
  exact joins_trans (joins_symm (mem_filter.mp hd).2) (mem_filter.mp hd').2

theorem exists_head (he : e ∈ s.entries) (hp : e.place = some p) : ∃ d c q,
    d :: c ∈ classes joins s.entries ∧ d.place = some q ∧ e ∈ d :: c := by
  obtain ⟨c, hc, hec⟩ := exists_class (r := joins) he
  rcases class_cases hc with ⟨d, -, hq, rfl⟩ | ⟨d, -, c', q, hq, rfl, -⟩
  · rw [mem_singleton.mp hec, hq] at hp
    cases hp
  · exact ⟨d, c', q, hc, hq, hec⟩

theorem Clean.cleanClass (h : Clean s) (hc : e :: c ∈ classes joins s.entries)
    (hp : e.place = some p) : CleanClass (e :: c) p.msgmax := by
  have hjoins := joins_of_class hc hp
  have he := mem_entries hc mem_cons_self
  have hsame : ∀ d ∈ e :: c, ∀ d' ∈ e :: c, Same d d' := fun d hd d' hd' =>
    h.same d (mem_entries hc hd) d' (mem_entries hc hd') (hjoins d hd d' hd')
  refine ⟨hsame, ?_, fun d hd j hat hne => ?_, ?_⟩
  · obtain ⟨e', he', hj, j, hle, hat⟩ := h.found e he p hp
    exact ⟨j, hle, e', mem_class hc mem_cons_self he' hj, hat⟩
  · obtain ⟨q, hq, -, hmax⟩ := (hsame e mem_cons_self d hd).max_eq hp
    obtain ⟨hle, hlast⟩ := h.kept d (mem_entries hc hd) q hq hne
    rw [at_iff hq] at hat
    rw [hmax, hat] at hle
    exact ⟨hle, fun e' he' hat' =>
      hlast e' (mem_entries hc he') (hjoins d hd e' he') (hat ▸ hat')⟩
  · rw [← filter_joins hc mem_cons_self hp]
    exact h.ends e he (by simp [hp])

theorem clean_of_classes (hlow : ∀ e ∈ s.entries, e.slot < 10 ^ 14)
    (h : ∀ e c p, e :: c ∈ classes joins s.entries → e.place = some p →
      CleanClass (e :: c) p.msgmax) : Clean s := by
  refine ⟨hlow, fun e he e' he' hjoins => ?_, fun e he p hp => ?_, fun e he p hp hne => ?_,
    fun e he hplace => ?_⟩
  · obtain ⟨p, -, hp, -, -⟩ := joins_iff.mp hjoins
    obtain ⟨d, c, q, hc, hq, hec⟩ := exists_head he hp
    exact (h d c q hc hq).same e hec e' (mem_class hc hec he' hjoins)
  · obtain ⟨d, c, q, hc, hq, hec⟩ := exists_head he hp
    obtain ⟨j, hle, e', he', hat⟩ := (h d c q hc hq).found
    obtain ⟨r, hr, -, hmax⟩ := ((h d c q hc hq).same e hec d mem_cons_self).max_eq hp
    rw [hq, Option.some.injEq] at hr
    subst hr
    exact ⟨e', mem_entries hc he', joins_of_class hc hq e hec e' he', j, hmax ▸ hle, hat⟩
  · obtain ⟨d, c, q, hc, hq, hec⟩ := exists_head he hp
    obtain ⟨r, hr, -, hmax⟩ := ((h d c q hc hq).same e hec d mem_cons_self).max_eq hp
    rw [hq, Option.some.injEq] at hr
    subst hr
    obtain ⟨hle, hlast⟩ := (h d c q hc hq).kept e hec p.msgord ((at_iff hp).mpr rfl) hne
    exact ⟨hmax ▸ hle, fun e' he' hjoins hat => hlast e' (mem_class hc hec he' hjoins) hat⟩
  · obtain ⟨p, hp⟩ := Option.ne_none_iff_exists'.mp hplace
    obtain ⟨d, c, q, hc, hq, hec⟩ := exists_head he hp
    rw [filter_joins hc hec hp]
    exact (h d c q hc hq).ends

theorem Apart.clean (h : outputPart (stored s.entries) = some outs) (hapart : Apart s outs) :
    Clean s := by
  have hlow := low_of_once h hapart.once
  obtain ⟨-, hputs, -⟩ := put_of_outputPart hlow h
  refine clean_of_classes hlow fun e c p hc hp => ?_
  obtain ⟨out, hout, hput⟩ := hputs _ hc
  have hmembers := members_eq hc hput
  have htext := hapart.text out hout e (hmembers ▸ mem_cons_self) p hp
  rw [hmembers, msg_eq_iff (pairwise_class hc) hp hput] at htext
  refine ⟨fun d hd d' hd' => ?_, (put_isSome hp).mp (by rw [hput]; rfl), htext.1, htext.2⟩
  by_cases heq : d = d'
  · obtain ⟨q, -, hq, -, -⟩ := joins_iff.mp (joins_of_class hc hp d hd d hd)
    exact heq ▸ Same.refl hq
  · exact hapart.apart out hout d (hmembers ▸ hd) d' (hmembers ▸ hd') heq

theorem exists_put (h : Clean s) (hc : c ∈ classes joins s.entries) : ∃ out, put c = some out := by
  rcases class_cases hc with ⟨e, -, hp, rfl⟩ | ⟨e, -, d, p, hp, rfl, -⟩
  · exact ⟨_, by rw [put, hp]⟩
  · exact Option.isSome_iff_exists.mp ((put_isSome hp).mpr (h.cleanClass hc hp).found)

theorem exists_outputPart (h : Clean s) : ∃ outs, outputPart (stored s.entries) = some outs := by
  rw [outputPart_eq h.low]
  have hput : ∀ c ∈ classes joins s.entries, ∃ out, put c = some out := fun c hc => exists_put h hc
  generalize classes joins s.entries = cs at hput
  induction cs with
  | nil => exact ⟨[], rfl⟩
  | cons c cs ih =>
    obtain ⟨⟨out, hout⟩, hcs⟩ := forall_mem_cons.mp hput
    obtain ⟨outs, houts⟩ := ih hcs
    exact ⟨out :: outs, by rw [mapM_cons, hout, houts]; rfl⟩

theorem Clean.apart (h : Clean s) (houts : outputPart (stored s.entries) = some outs) :
    Apart s outs := by
  obtain ⟨hfrom, -, hslots⟩ := put_of_outputPart h.low houts
  refine ⟨?_, fun out hout e he e' he' hne => ?_, fun out hout e he hp => ?_,
    fun out hout e he p hp => ?_⟩
  · rw [hslots]
    exact perm_flatten_classes.map _
  · obtain ⟨c, hc, hput⟩ := hfrom out hout
    rw [members_eq hc hput] at he he'
    rcases class_cases hc with ⟨d, -, -, rfl⟩ | ⟨d, -, c', q, hq, rfl, -⟩
    · exact absurd ((mem_singleton.mp he).trans (mem_singleton.mp he').symm) hne
    · exact (h.cleanClass hc hq).same e he e' he'
  · obtain ⟨c, hc, hput⟩ := hfrom out hout
    rw [members_eq hc hput] at he
    rcases class_cases hc with ⟨d, -, hq, rfl⟩ | ⟨d, -, c', q, hq, rfl, -⟩
    · rw [mem_singleton.mp he]
      rw [put, hq, Option.some.injEq] at hput
      rw [← hput]
    · obtain ⟨r, -, hr, -, -⟩ := joins_iff.mp (joins_of_class hc hq e he e he)
      rw [hp] at hr
      cases hr
  · obtain ⟨c, hc, hput⟩ := hfrom out hout
    rw [members_eq hc hput] at he ⊢
    rcases class_cases hc with ⟨d, -, hq, rfl⟩ | ⟨d, -, c', q, hq, rfl, -⟩
    · rw [mem_singleton.mp he, hq] at hp
      cases hp
    · have hclean := h.cleanClass hc hq
      obtain ⟨r, hr, -, hmax⟩ := (hclean.same e he d mem_cons_self).max_eq hp
      rw [hq, Option.some.injEq] at hr
      subst hr
      rw [← hmax]
      exact (msg_eq_iff (pairwise_class hc) hq hput).mpr ⟨hclean.kept, hclean.ends⟩

/-- The messages are written apart and whole for just the clean sets of records. -/
theorem outputPart_apart_iff (s : Inbox) :
    (∃ outs, outputPart (stored s.entries) = some outs ∧ Apart s outs) ↔ Clean s := by
  constructor
  · rintro ⟨outs, houts, hapart⟩
    exact hapart.clean houts
  · intro h
    obtain ⟨outs, houts⟩ := exists_outputPart h
    exact ⟨outs, houts, h.apart houts⟩

def placeOf (msgnum msgord msgmax : Nat)
    (h : 1 ≤ msgord ∧ msgord ≤ 255 ∧ 1 ≤ msgmax ∧ msgmax ≤ 255) : Place :=
  ⟨msgnum, msgord, msgmax, h.1, h.2.1, h.2.2.1, h.2.2.2⟩

theorem first_in_range : 1 ≤ 1 ∧ 1 ≤ 255 ∧ 1 ≤ 2 ∧ 2 ≤ 255 := by decide

theorem second_in_range : 1 ≤ 2 ∧ 2 ≤ 255 ∧ 1 ≤ 2 ∧ 2 ≤ 255 := by decide

/-- The two parts of a message, the numbers of which two senders may choose. -/
def twoParts (phone phone' : Str) : Inbox where
  entries := [
    ⟨1, phone, ['2'], some (placeOf 7 1 2 first_in_range), ['a'], ['a']⟩,
    ⟨2, phone', ['2'], some (placeOf 7 2 2 second_in_range), ['b'], ['b']⟩]
  sorted := by simp

/-- Parts of two senders are written as one message. -/
theorem outputPart_not_apart :
    ¬ ∀ s : Inbox, ∃ outs, outputPart (stored s.entries) = some outs ∧ Apart s outs := by
  intro h
  obtain ⟨outs, houts, hapart⟩ := h (twoParts ['1'] ['2'])
  have hclean := hapart.clean houts
  have hsame := hclean.same _ mem_cons_self _ (mem_cons_of_mem _ mem_cons_self) rfl
  exact absurd hsame.1 (by decide)

/-- Of one sender they are one message. -/
example : outputPart (stored (twoParts ['1'] ['1']).entries) =
    some [⟨[['1'], ['2']], ['1'], ['1'], ['a', 'b'], ['a']⟩] := by
  rw [outputPart_eq (by simp [twoParts])]
  decide +kernel

end ModemSupport.Rooter.SmsMerge
