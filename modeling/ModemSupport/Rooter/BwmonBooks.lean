import ModemSupport.Lib.Calendar
import ModemSupport.Rooter.Bwmon

/-! The days of a month file under their dates: what the hosts have used according to it, how `sed`
takes a day out of it, and what the scripts keep of it. -/

namespace ModemSupport.Rooter.Bwmon

open Lib.Text Lib.Fields Lib.Calendar List

inductive Way where
  | down
  | up

def Host.amount (h : Host) : Way → Nat
  | .down => h.down
  | .up => h.up

def usage (w : Way) (mac : List Char) : List Host → Nat
  | [] => 0
  | h :: hosts => (if h.mac = mac then h.amount w else 0) + usage w mac hosts

attribute [grind =] usage

variable {w : Way} {mac : List Char} {h : Host} {hs hs' bw : List Host}

theorem usage_append : usage w mac (hs ++ hs') = usage w mac hs + usage w mac hs' := by
  induction hs with
  | nil => exact (Nat.zero_add _).symm
  | cons h hs ih =>
    rw [cons_append, usage, usage, ih, Nat.add_assoc]

theorem usage_add : usage w mac (add bw h) = usage w mac bw + usage w mac [h] := by
  induction bw with
  | nil => exact (Nat.zero_add _).symm
  | cons g bw ih =>
    rw [add]
    split
    next hmac =>
      have hplus : (g.plus h).amount w = g.amount w + h.amount w := by cases w <;> rfl
      have hmac' : (g.plus h).mac = g.mac := rfl
      rw [usage, usage, usage, usage, hplus, hmac', hmac]
      split <;> omega
    next =>
      rw [usage, usage, ih]
      omega

theorem usage_foldl_add :
    usage w mac (hs.foldl add bw) = usage w mac bw + usage w mac hs := by
  induction hs generalizing bw with
  | nil => rfl
  | cons h hs ih =>
    rw [foldl_cons, ih, usage_add, usage, usage, usage]
    omega

theorem usage_map_written : usage w mac (hs.map Host.written) = usage w mac hs := by
  induction hs with
  | nil => rfl
  | cons h hs ih =>
    have hamount : h.written.amount w = h.amount w := by cases w <;> rfl
    have hmac : h.written.mac = h.mac := rfl
    rw [map_cons, usage, usage, ih, hamount, hmac]

theorem usage_compact : usage w mac (compact hs) = usage w mac hs := by
  rw [compact, usage_map_written, usage_foldl_add, usage, Nat.zero_add]

/-- A host that does not look like the beginning of a day either. -/
structure Host.Named (h : Host) : Prop extends h.WellFormed where
  macStart : find "start day".toList h.mac = none
  ipStart : find "start day".toList h.ip = none
  nameStart : find "start day".toList h.name = none

/-- `sed "/a/,/b/d"`: `inside` is set from a line with `a` to the next one with `b`. -/
def sed (a b : Line) (inside : Bool) : List Line → List Line
  | [] => []
  | l :: ls =>
    if inside then sed a b (find b l).isNone ls
    else if (find a l).isSome then sed a b true ls
    else l :: sed a b false ls

def cDay (d : Date) : List Char :=
  [Nat.digitChar (d.day / 10), Nat.digitChar (d.day % 10)]

abbrev Book := List (Date × List Host)

def Book.hosts (b : Book) : List Host := b.flatMap Prod.snd

def entry (x : Date × List Host) : Day := ⟨cDay x.1, x.2⟩

def Book.lines (b : Book) : List Line := (b.map entry).flatMap Day.lines

def Book.Named (b : Book) : Prop := ∀ x ∈ b, ∀ h ∈ x.2, h.Named

def Book.compact (b : Book) : Book := b.map fun x => (x.1, Bwmon.compact x.2)

theorem find_longer {n m s : List Char} (hn : n ≠ []) (h : find n s = none) :
    find (n ++ m) s = none := by
  cases hfind : find (n ++ m) s with
  | none => rfl
  | some r =>
    obtain ⟨p, q⟩ := r
    obtain ⟨p', q', hfind', -⟩ := exists_find (a := p) (b := m ++ q) hn
    rw [append_of_find hfind, append_assoc, hfind'] at h
    cases h

theorem find_of_length {n s : List Char} (h : s.length ≤ n.length) (hne : n ≠ s) :
    find n s = none := by
  cases hfind : find n s with
  | none => rfl
  | some r =>
    obtain ⟨p, q⟩ := r
    have hs := append_of_find hfind
    have hlen := congrArg List.length hs
    simp only [length_append] at hlen
    obtain rfl : p = [] := eq_nil_of_length_eq_zero (by omega)
    obtain rfl : q = [] := eq_nil_of_length_eq_zero (by omega)
    exact absurd (by simpa using hs.symm) hne

theorem find_self {n : List Char} : find n n = some ([], []) := by
  have hfind := find_append_self (n := n) (b := [])
  rwa [append_nil] at hfind

theorem cDay_length {d : Date} : (cDay d).length = 2 := rfl

theorem cDay_inj {d e : Date} (h : cDay d = cDay e) : d.day = e.day := by
  have hd := d.valid
  have he := e.valid
  have hd' := daysIn_bounds d.month
  have he' := daysIn_bounds e.month
  have hinj : ∀ a ≤ 31, ∀ b ≤ 31, [Nat.digitChar (a / 10), Nat.digitChar (a % 10)] =
      [Nat.digitChar (b / 10), Nat.digitChar (b % 10)] → a = b := by decide
  exact hinj d.day (by omega) e.day (by omega) h

section

variable {d e : Date} {ls rest : List Line}

theorem length_startDay {c : List Char} : (startDay c).length = 10 + c.length := by
  have hnine : "start day".toList.length = 9 := rfl
  unfold startDay
  rw [length_append, length_cons, hnine]
  omega

theorem length_endDay {c : List Char} : (endDay c).length = 8 + c.length := by
  have hseven : "end day".toList.length = 7 := rfl
  unfold endDay
  rw [length_append, length_cons, hseven]
  omega

theorem find_startDay_ne (h : d.day ≠ e.day) :
    find (startDay (cDay d)) (startDay (cDay e)) = none := by
  have hne : startDay (cDay d) ≠ startDay (cDay e) := by
    intro heq
    unfold startDay at heq
    exact h (cDay_inj (List.cons.inj (append_cancel_left heq)).2)
  refine find_of_length ?_ hne
  rw [length_startDay, length_startDay, cDay_length, cDay_length]

theorem find_startDay_end : find (startDay (cDay d)) (endDay (cDay e)) = none := by
  have hne : startDay (cDay d) ≠ endDay (cDay e) := by
    intro heq
    have hlen := congrArg List.length heq
    rw [length_startDay, length_endDay, cDay_length, cDay_length] at hlen
    omega
  refine find_of_length ?_ hne
  rw [length_startDay, length_endDay, cDay_length, cDay_length]
  omega

theorem find_startDay_line (hh : h.Named) : find (startDay (cDay d)) h.line = none := by
  apply find_longer (by decide)
  apply find_text (n := "start day".toList) ⟨by decide, by decide, by decide⟩ (by decide)
  have hdec : ∀ n : Nat, find "start day".toList (dec n) = none := by
    intro n
    cases hfind : find "start day".toList (dec n) with
    | none => rfl
    | some r =>
      have hmem : 's' ∈ dec n := by
        rw [append_of_find hfind]
        apply mem_append_right
        exact mem_cons_self
      exact absurd (isDigit_of_mem_dec hmem) (by decide)
  simp only [Host.fields, forall_mem_cons, not_mem_nil, IsEmpty.forall_iff,
    implies_true, and_true, hdec, hh.macStart, hh.ipStart, hh.nameStart]
  decide

theorem find_endDay_line (hh : h.Named) : find (endDay (cDay d)) h.line = none := by
  apply find_longer (by decide)
  have hend := isEnd_line hh.toWellFormed
  rwa [isEnd, Option.isSome_eq_false_iff, Option.isNone_iff_eq_none] at hend

theorem sed_keep {a b : Line} {hs : List Host} (h : ∀ h ∈ hs, find a h.line = none) :
    sed a b false (hs.map Host.line ++ rest) = hs.map Host.line ++ sed a b false rest := by
  induction hs with
  | nil => rfl
  | cons h hs ih =>
    rw [forall_mem_cons] at h
    rw [map_cons, cons_append, sed, if_neg (by decide), h.1, if_neg (by simp), ih h.2,
      cons_append]

theorem sed_drop {a b : Line} {hs : List Host} (h : ∀ h ∈ hs, find b h.line = none) :
    sed a b true (hs.map Host.line ++ rest) = sed a b true rest := by
  induction hs with
  | nil => rfl
  | cons h hs ih =>
    rw [forall_mem_cons] at h
    rw [map_cons, cons_append, sed, if_pos rfl, h.1]
    exact ih h.2

theorem Book.lines_cons {x : Date × List Host} {b : Book} : Book.lines (x :: b) =
    startDay (cDay x.1) :: (x.2.map Host.line ++ endDay (cDay x.1) :: b.lines) := by
  rw [Book.lines, map_cons, flatMap_cons, Day.lines, cons_append,
    append_assoc]
  rfl

theorem sed_lines {b : Book} (hb : b.Named) :
    sed (startDay (cDay d)) (endDay (cDay d)) false b.lines =
      Book.lines (b.filter fun x => x.1.day ≠ d.day) := by
  induction b with
  | nil => rfl
  | cons x b ih =>
    obtain ⟨hx, hb⟩ := forall_mem_cons.mp hb
    by_cases hday : x.1.day = d.day
    · have hcDay : cDay x.1 = cDay d := by rw [cDay, hday, cDay]
      rw [Book.lines_cons, sed, if_neg (by decide), hcDay, find_self, Option.isSome_some,
        if_pos rfl, sed_drop fun h hh => find_endDay_line (hx h hh), sed, if_pos rfl, find_self,
        filter_cons_of_neg (by simpa using hday)]
      exact ih hb
    · rw [Book.lines_cons, sed, if_neg (by decide), find_startDay_ne (Ne.symm hday),
        if_neg (by simp), sed_keep fun h hh => find_startDay_line (hx h hh), sed,
        if_neg (by decide), find_startDay_end, if_neg (by simp), ih hb,
        filter_cons_of_pos (by simpa using hday), Book.lines_cons]

end

variable {b b' : Book}

theorem Book.lines_append : Book.lines (b ++ b') = b.lines ++ b'.lines := by
  rw [Book.lines, map_append, flatMap_append, Book.lines, Book.lines]

theorem Book.lines_singleton {d : Date} {hs : List Host} : Book.lines [(d, hs)] =
    startDay (cDay d) :: (hs.map Host.line ++ [endDay (cDay d)]) := by
  rw [Book.lines, map_singleton, flatMap_singleton]
  rfl

theorem Book.hosts_append : Book.hosts (b ++ b') = b.hosts ++ b'.hosts := flatMap_append

theorem named_compact {hs : List Host} (h : ∀ h ∈ hs, h.Named) : ∀ h ∈ Bwmon.compact hs, h.Named :=
  forall_compact
    (fun _ _ hg hh => ⟨hg.toWellFormed.plus hh.toWellFormed, hg.macStart, hh.ipStart, hh.nameStart⟩)
    (fun _ hh => ⟨hh.toWellFormed.written, hh.macStart, hh.ipStart, hh.nameStart⟩) h

theorem Book.Named.compact (hb : b.Named) : b.compact.Named := by
  intro x hx
  obtain ⟨y, hy, rfl⟩ := List.mem_map.mp hx
  exact named_compact (hb y hy)

theorem Book.Named.wellFormed (hb : b.Named) : ∀ d ∈ b.map entry, d.WellFormed := by
  intro d hd
  obtain ⟨x, hx, rfl⟩ := List.mem_map.mp hd
  refine ⟨?_, fun h hh => (hb x hx h hh).toWellFormed⟩
  have hvalid := x.1.valid
  have hbounds := daysIn_bounds x.1.month
  have hdigits : ∀ a ≤ 31, '\n' ∉ [Nat.digitChar (a / 10), Nat.digitChar (a % 10)] := by decide
  exact hdigits x.1.day (by omega)

theorem backupMon_book (hb : b.Named) :
    (backupMon none none b.lines).flatten = b.compact.lines := by
  rw [Book.lines, backupMon_lines hb.wellFormed, Book.lines, Book.compact, List.map_map,
    ← flatMap_def, flatMap_map, flatMap_map]
  rfl

theorem usage_compact_hosts : usage w mac b.compact.hosts = usage w mac b.hosts := by
  induction b with
  | nil => rfl
  | cons x b ih =>
    have hcons : ∀ (y : Date × List Host) (c : Book), Book.hosts (y :: c) = y.2 ++ Book.hosts c :=
      fun _ _ => flatMap_cons
    rw [Book.compact, map_cons, hcons, hcons, usage_append, usage_append, usage_compact]
    exact congrArg _ ih

theorem monthly_book (hb : b.Named) :
    ∃ r, monthly b.lines = some r ∧ ∀ w mac, usage w mac r.bw = usage w mac b.hosts := by
  refine ⟨_, monthly_month hb.wellFormed, fun w mac => ?_⟩
  rw [usage_foldl_add, usage, Nat.zero_add, flatMap_map]
  rfl

end ModemSupport.Rooter.Bwmon
