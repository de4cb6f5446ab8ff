import ModemSupport.Lib.Doubles
import ModemSupport.Rooter.Bwmon

/-! The throttle of bwmon: the sums that `create_data.lua` hands to `excede.sh` as texts, and the
speed that the script chooses among the throttle sections.  The sums are doubles, as Lua adds and
divides them. -/

namespace ModemSupport.Rooter.BwmonThrottle

open Lib.Doubles Lib.Text Bwmon List

abbrev Str := List Char

structure Usage where
  mac : Str
  down : Number
  up : Number

def addUsage (h : Host) : List Usage → List Usage
  | [] => [⟨h.mac, (Number.fin 0).add (double h.down), (Number.fin 0).add (double h.up)⟩]
  | u :: bw =>
    if u.mac = h.mac then
      { u with down := u.down.add (double h.down), up := u.up.add (double h.up) } :: bw
    else u :: addUsage h bw

structure Month where
  inDay : Bool
  dayx : ℕ
  bw : List Usage

def Month.line (m : Month) (l : Line) : Option Month :=
  if m.inDay then
    if isEnd l then some { m with inDay := false }
    else (parse l).map fun h => { m with bw := addUsage h m.bw }
  else if isStart l then some { m with inDay := true, dayx := m.dayx + 1 }
  else some m

def monthly (datafile : List Line) : Option Month :=
  (datafile.foldlM Month.line ⟨false, 0, []⟩).bind fun m => if m.inDay then none else some m

def Month.total (m : Month) : Number :=
  (m.bw.foldl (fun (total : Number) u => total.add u.up) (.fin 0)).add
    (m.bw.foldl (fun (total : Number) u => total.add u.down) (.fin 0))

def Month.ptotal (m : Month) : Number := (m.total.div m.dayx).mul 30

def decimalValue (s : Str) : Option ℚ :=
  match find ['.'] s with
  | none => (tonumber s).map Nat.cast
  | some (a, b) => (tonumber (a ++ b)).map fun n => n / 10 ^ b.length

structure Speed where
  text : Str
  value : ℚ
  eq : decimalValue text = some value
  ne : value ≠ 0

structure Section where
  name : Str
  limit : ℕ
  throttle : Speed
  pos : 0 < limit

/-- The options of `custom.bwallocate`, and which programs are there. -/
structure Config where
  lock : Option Str
  enabled : Option Str
  action : Option Str
  meth : Option Str
  down : Option Str
  up : Option Str
  throttleSh : Bool
  nodogsplash : Bool
  sections : List Section

inductive Command where
  | block (arg : ℕ)
  | control (block : Bool)
  | start (down up : Str)
  | stop
  deriving DecidableEq

/-- A number of `test`, which has no sign here. -/
def getn (s : Str) : Option ℤ := ((tonumber s).filter fun n => n < 2 ^ 63).map Nat.cast

def gt (a b : Option ℤ) : Bool :=
  match a, b with
  | some a, some b => b < a
  | _, _ => false

def kamt (limit : ℕ) : ℤ := Int.bmod ((min limit (2 ^ 64 - 1) : ℕ) * 1000000) (2 ^ 64)

structure Choice where
  speed : Str
  baselimit : ℕ

def doThrottle (amt : Str) (t : Choice) (s : Section) : Choice :=
  if gt (getn amt) (some (kamt s.limit)) then
    if gt (getn (dec s.limit)) (getn (dec t.baselimit)) then ⟨s.throttle.text, s.limit⟩ else t
  else t

/-- `float.lua`, and `SPEED` when the file is read: 1000 times the number. -/
def float (val : Str) : Str :=
  match decimalValue val with
  | none => []
  | some x => tostring ((double x).mul 1000)

def excede (c : Config) (total allocate ptotal : Str) : List Command :=
  if c.lock = some ['1'] ∧ c.enabled = some ['1'] then
    let action := if c.throttleSh then c.action.getD ['0'] else ['0']
    .block 0 ::
      if action ≠ ['2'] then
        if gt (getn total) (getn allocate) then
          if action = ['0'] then if c.nodogsplash then [.control true] else [.block 1]
          else [.start (c.down.getD ['5']) (c.up.getD ['2'])]
        else
          (if c.throttleSh then [.stop] else []) ++
            ((if c.nodogsplash then [.control false] else []) ++ [.block 0])
      else
        let amt := if c.meth.getD ['0'] = ['0'] then total else ptotal
        let t := c.sections.foldl (doThrottle amt) ⟨['0'], 0⟩
        if t.speed ≠ ['0'] then [.start (float t.speed) (float t.speed)]
        else if c.throttleSh then [.stop] else []
  else []

def Config.throttling (c : Config) (sections : List Section) : Config :=
  { c with
    lock := some ['1']
    enabled := some ['1']
    action := some ['2']
    throttleSh := true
    sections := sections }

def Config.amount (c : Config) (m : Month) : Number :=
  if c.meth.getD ['0'] = ['0'] then m.total else m.ptotal

def Over : Number → ℕ → Prop
  | .fin x, limit => (limit * 1000000 : ℚ) < x
  | .inf, _ => True
  | .nan, _ => False

structure Follows (a : Number) (sections : List Section) (commands : List Command) : Prop where
  start : (∃ s ∈ sections, Over a s.limit) → ∃ s ∈ sections, Over a s.limit ∧
    (∀ t ∈ sections, Over a t.limit → t.limit ≤ s.limit) ∧
    .start (float s.throttle.text) (float s.throttle.text) ∈ commands
  stop : .stop ∈ commands ↔ ∀ s ∈ sections, ¬Over a s.limit

/-- No limit is so large that its product leaves the 64 bits and comes back below the amount; and
when a limit is smaller than the amount, the amount is printed as a whole number, which is not the
product of a limit below it. -/
structure Fits (a : Number) (sections : List Section) : Prop where
  wrap : ∀ s ∈ sections, s.limit < 2 ^ 63 → 2 ^ 63 ≤ s.limit * 1000000 →
    ∀ n, getn (tostring a) = some n → n ≤ kamt s.limit
  whole : (∃ s ∈ sections, Over a s.limit) → ∃ n, getn (tostring a) = some n ∧
    ∀ s ∈ sections, (s.limit * 1000000 : ℤ) = n → ¬Over a s.limit

/-- A section passes both tests, with a smaller limit before. -/
def Taken (amt : Str) (limit : ℕ) : Prop :=
  limit < 2 ^ 63 ∧ ∃ n, getn amt = some n ∧ kamt limit < n

variable {a : Number} {amt : Str} {limit : ℕ} {n : ℤ} {sections : List Section} {c : Config}

theorem getn_dec : getn (dec limit) = if limit < 2 ^ 63 then some (limit : ℤ) else none := by
  rw [getn, tonumber_dec, Option.filter_some]
  split <;> simp_all

theorem doThrottle_eq (amt : Str) {t : Choice} (s : Section) (ht : t.baselimit < 2 ^ 63) :
    (Taken amt s.limit ∧ t.baselimit < s.limit ∧
      doThrottle amt t s = ⟨s.throttle.text, s.limit⟩) ∨
    ((Taken amt s.limit → s.limit ≤ t.baselimit) ∧ doThrottle amt t s = t) := by
  rw [doThrottle, getn_dec, getn_dec, if_pos ht]
  cases hamt : getn amt with
  | none => exact .inr ⟨fun h => by obtain ⟨-, n, hn, -⟩ := h; simp [hamt] at hn, by simp [gt]⟩
  | some n =>
    by_cases hk : kamt s.limit < n
    · by_cases hl : s.limit < 2 ^ 63
      · rw [if_pos hl]
        by_cases hlt : t.baselimit < s.limit
        · exact .inl ⟨⟨hl, n, hamt, hk⟩, hlt, by simp [gt, hk, hlt]⟩
        · exact .inr ⟨fun _ => Nat.not_lt.mp hlt, by simp [gt, hlt]⟩
      · rw [if_neg hl]
        exact .inr ⟨fun h => absurd h.1 hl, by simp [gt]⟩
    · refine .inr ⟨fun h => ?_, by simp [gt, hk]⟩
      obtain ⟨-, m, hm, hlt⟩ := h
      exact absurd (Option.some.inj (hamt.symm.trans hm) ▸ hlt) hk

theorem foldl_doThrottle (amt : Str) (sections : List Section) :
    (sections.foldl (doThrottle amt) ⟨['0'], 0⟩ = ⟨['0'], 0⟩ ∧
      ∀ s ∈ sections, ¬Taken amt s.limit) ∨
    ∃ s ∈ sections, Taken amt s.limit ∧ (∀ q ∈ sections, Taken amt q.limit → q.limit ≤ s.limit) ∧
      sections.foldl (doThrottle amt) ⟨['0'], 0⟩ = ⟨s.throttle.text, s.limit⟩ := by
  induction sections using List.reverseRecOn with
  | nil => exact .inl ⟨rfl, nofun⟩
  | append_singleton sections s ih =>
    rw [foldl_append, foldl_cons, foldl_nil]
    rcases ih with ⟨ht, hnone⟩ | ⟨p, hp, htaken, hmax, ht⟩
    · rw [ht]
      rcases doThrottle_eq amt (t := ⟨['0'], 0⟩) s (by decide) with
        ⟨htaken, -, h⟩ | ⟨hnot, h⟩
      · refine .inr ⟨s, mem_append_right _ mem_cons_self, htaken, fun q hq hqt => ?_, h⟩
        rcases mem_append.mp hq with hq | hq
        · exact absurd hqt (hnone q hq)
        · rw [mem_singleton.mp hq]
      · refine .inl ⟨h, fun q hq hqt => ?_⟩
        rcases mem_append.mp hq with hq | hq
        · exact hnone q hq hqt
        · rw [mem_singleton.mp hq] at hqt
          exact absurd (hnot hqt) (Nat.not_le.mpr s.pos)
    · rw [ht]
      rcases doThrottle_eq amt (t := ⟨p.throttle.text, p.limit⟩) s htaken.1 with
        ⟨hstaken, hlt, h⟩ | ⟨hnot, h⟩
      · refine .inr ⟨s, mem_append_right _ mem_cons_self, hstaken, fun q hq hqt => ?_, h⟩
        rcases mem_append.mp hq with hq | hq
        · exact (hmax q hq hqt).trans hlt.le
        · rw [mem_singleton.mp hq]
      · refine .inr ⟨p, mem_append_left _ hp, htaken, fun q hq hqt => ?_, h⟩
        rcases mem_append.mp hq with hq | hq
        · exact hmax q hq hqt
        · rw [mem_singleton.mp hq] at hqt ⊢
          exact hnot hqt

theorem Speed.text_ne (v : Speed) : v.text ≠ ['0'] := by
  intro h
  have hv := v.eq
  rw [h] at hv
  exact v.ne (Option.some.inj hv).symm

theorem excede_eq (c : Config) (m : Month) (allocate : Str) (sections : List Section) :
    (excede (c.throttling sections) (tostring m.total) allocate (tostring m.ptotal) =
        [.block 0, .stop] ∧ ∀ s ∈ sections, ¬Taken (tostring (c.amount m)) s.limit) ∨
    ∃ s ∈ sections, Taken (tostring (c.amount m)) s.limit ∧
      (∀ q ∈ sections, Taken (tostring (c.amount m)) q.limit → q.limit ≤ s.limit) ∧
      excede (c.throttling sections) (tostring m.total) allocate (tostring m.ptotal) =
        [.block 0, .start (float s.throttle.text) (float s.throttle.text)] := by
  have hamt : (if c.meth.getD ['0'] = ['0'] then tostring m.total else tostring m.ptotal) =
      tostring (c.amount m) := by
    unfold Config.amount
    split <;> rfl
  have hrun : excede (c.throttling sections) (tostring m.total) allocate (tostring m.ptotal) =
      .block 0 ::
        if (sections.foldl (doThrottle (tostring (c.amount m))) ⟨['0'], 0⟩).speed ≠ ['0'] then
          [.start (float (sections.foldl (doThrottle (tostring (c.amount m))) ⟨['0'], 0⟩).speed)
            (float (sections.foldl (doThrottle (tostring (c.amount m))) ⟨['0'], 0⟩).speed)]
        else [.stop] := by
    rw [← hamt]
    rfl
  rw [hrun]
  rcases foldl_doThrottle (tostring (c.amount m)) sections with ⟨ht, hnone⟩ | ⟨s, hs, hp, hmax, ht⟩
  · exact .inl ⟨by rw [ht]; rfl, hnone⟩
  · exact .inr ⟨s, hs, hp, hmax, by rw [ht, if_pos s.throttle.text_ne]⟩

theorem nonneg_amount (c : Config) (m : Month) : (c.amount m).Nonneg := by
  unfold Config.amount
  split
  · exact Number.nonneg_add _ _
  · exact Number.nonneg_mul _ _

theorem exists_amount (ha : a.Nonneg) (h : getn (tostring a) = some n) :
    ∃ x : ℚ, a = .fin x ∧ (n : ℚ) - 1 < x ∧ x < n + 1 ∧ n < 2 ^ 63 := by
  obtain ⟨k, hk, rfl⟩ := Option.map_eq_some_iff.mp h
  obtain ⟨hk, hlt⟩ := Option.filter_eq_some_iff.mp hk
  have hall : tostring a ≠ [] ∧ (tostring a).all Char.isDigit = true := by
    by_contra hnot
    rw [tonumber, if_neg hnot] at hk
    cases hk
  obtain ⟨x, j, rfl, htext, hlow, hhigh⟩ := tostring_whole ha hall.2
  rw [htext, tonumber_dec] at hk
  obtain rfl := Option.some.inj hk
  have hlt := of_decide_eq_true hlt
  exact ⟨x, rfl, mod_cast hlow, mod_cast hhigh, by omega⟩

theorem le_of_over (ha : a.Nonneg) (hn : getn (tostring a) = some n) (h : Over a limit) :
    (limit * 1000000 : ℤ) ≤ n := by
  obtain ⟨x, rfl, -, hhigh, -⟩ := exists_amount ha hn
  have hlt : (limit * 1000000 : ℚ) < n + 1 := lt_trans h hhigh
  exact Int.lt_add_one_iff.mp (by exact_mod_cast hlt)

theorem over_of_lt (ha : a.Nonneg) (hn : getn (tostring a) = some n)
    (h : (limit * 1000000 : ℤ) < n) : Over a limit := by
  obtain ⟨x, rfl, hlow, -, -⟩ := exists_amount ha hn
  have hle : (limit * 1000000 : ℚ) ≤ n - 1 := by exact_mod_cast Int.le_sub_one_iff.mpr h
  exact lt_of_le_of_lt hle hlow

theorem kamt_eq (h : limit * 1000000 < 2 ^ 63) : kamt limit = limit * 1000000 := by
  unfold kamt
  rw [Nat.min_eq_left (by omega), Int.bmod_def]
  split <;> omega

theorem Fits.follows {m : Month} (allocate : Str) (h : Fits (c.amount m) sections) :
    Follows (c.amount m) sections
      (excede (c.throttling sections) (tostring m.total) allocate (tostring m.ptotal)) := by
  have ha := nonneg_amount c m
  have htaken : ∀ s ∈ sections,
      Taken (tostring (c.amount m)) s.limit ↔ Over (c.amount m) s.limit := by
    refine fun s hs => ⟨fun ⟨hl, n, hn, hlt⟩ => ?_, fun hover => ?_⟩
    · by_cases hbig : 2 ^ 63 ≤ s.limit * 1000000
      · exact absurd (h.wrap s hs hl hbig n hn) (not_le.mpr hlt)
      · rw [kamt_eq (Nat.lt_of_not_le hbig)] at hlt
        exact over_of_lt ha hn hlt
    · obtain ⟨n, hn, hne⟩ := h.whole ⟨s, hs, hover⟩
      obtain ⟨x, -, -, -, hn63⟩ := exists_amount ha hn
      have hle := le_of_over ha hn hover
      have hlt := lt_of_le_of_ne hle fun heq => hne s hs heq hover
      exact ⟨by omega, n, hn, by rw [kamt_eq (by omega)]; exact hlt⟩
  rcases excede_eq c m allocate sections with ⟨heq, hnone⟩ | ⟨s, hs, hp, hmax, heq⟩ <;> rw [heq]
  · have hnot : ∀ s ∈ sections, ¬Over (c.amount m) s.limit :=
      fun s hs hover => hnone s hs ((htaken s hs).mpr hover)
    exact ⟨fun ⟨s, hs, hover⟩ => absurd hover (hnot s hs), iff_of_true (by simp) hnot⟩
  · have hover := (htaken s hs).mp hp
    refine ⟨fun _ => ⟨s, hs, hover, fun q hq hqover => ?_, by simp⟩,
      iff_of_false (by simp) fun hnot => hnot s hs hover⟩
    exact hmax q hq ((htaken q hq).mpr hqover)

def Section.respeed (speed : Section → Speed) (s : Section) : Section :=
  { s with throttle := speed s }

theorem Fits.respeed (speed : Section → Speed) (h : Fits a sections) :
    Fits a (sections.map (Section.respeed speed)) where
  wrap s' hs' := by
    obtain ⟨s, hs, rfl⟩ := mem_map.mp hs'
    exact h.wrap s hs
  whole hex := by
    obtain ⟨s', hs', hover⟩ := hex
    obtain ⟨s, hs, rfl⟩ := mem_map.mp hs'
    obtain ⟨n, hn, hne⟩ := h.whole ⟨s, hs, hover⟩
    refine ⟨n, hn, fun t' ht' => ?_⟩
    obtain ⟨t, ht, rfl⟩ := mem_map.mp ht'
    exact hne t ht

def one : Speed := ⟨['1'], 1, by decide +kernel, by decide +kernel⟩

def two : Speed := ⟨['2'], 2, by decide +kernel, by decide +kernel⟩

theorem float_one_ne : float one.text ≠ float two.text := by decide +kernel

/-- With one speed for the limits of a kind and another for the rest: a limit that passes and is
of the other kind than the largest one below the amount makes the script go wrong. -/
theorem fits_of_follows {m : Month} {allocate : Str}
    (hall : ∀ speed : Section → Speed, Follows (c.amount m) (sections.map (Section.respeed speed))
      (excede (c.throttling (sections.map (Section.respeed speed))) (tostring m.total) allocate
        (tostring m.ptotal))) : Fits (c.amount m) sections := by
  classical
  have ha := nonneg_amount c m
  -- the kind `P` of the limit that passes is that of the largest limit below the amount
  have hkind : ∀ P : ℕ → Prop, (∃ s ∈ sections, Over (c.amount m) s.limit) →
      ∃ p ∈ sections, Taken (tostring (c.amount m)) p.limit ∧
        (∀ q ∈ sections, Taken (tostring (c.amount m)) q.limit → q.limit ≤ p.limit) ∧
        ∃ q ∈ sections, Over (c.amount m) q.limit ∧
          (∀ t ∈ sections, Over (c.amount m) t.limit → t.limit ≤ q.limit) ∧
          (P q.limit ↔ P p.limit) := by
    rintro P ⟨s, hs, hover⟩
    let speed : Section → Speed := fun s => if P s.limit then one else two
    have hmap : ∀ t ∈ sections, t.respeed speed ∈ sections.map (Section.respeed speed) :=
      fun t ht => mem_map_of_mem ht
    have h := hall speed
    rcases excede_eq c m allocate (sections.map (Section.respeed speed)) with
      ⟨heq, -⟩ | ⟨p', hp', htaken, hmax, heq⟩ <;> rw [heq] at h
    · exact absurd hover (h.stop.mp (by simp) (s.respeed speed) (hmap s hs))
    · obtain ⟨p, hp, rfl⟩ := mem_map.mp hp'
      obtain ⟨q', hq', hqover, hqmax, hmem⟩ := h.start ⟨_, hmap s hs, hover⟩
      obtain ⟨q, hq, rfl⟩ := mem_map.mp hq'
      refine ⟨p, hp, htaken, fun t ht => hmax (t.respeed speed) (hmap t ht), q, hq, hqover,
        fun t ht => hqmax (t.respeed speed) (hmap t ht), ?_⟩
      have hspeed : float (if P q.limit then one else two).text =
          float (if P p.limit then one else two).text := by
        simpa [Section.respeed, speed] using hmem
      by_cases hPq : P q.limit <;> by_cases hPp : P p.limit <;>
        simp only [hPq, hPp, if_true, if_false] at hspeed ⊢
      · exact absurd hspeed float_one_ne
      · exact absurd hspeed float_one_ne.symm
  constructor
  · intro s hs hl hbig n hn
    by_contra hlt
    have htaken : Taken (tostring (c.amount m)) s.limit := ⟨hl, n, hn, not_le.mp hlt⟩
    obtain ⟨-, -, -, -, hn63⟩ := exists_amount ha hn
    have hnot : ∀ l, s.limit ≤ l → ¬Over (c.amount m) l := fun l hle hover => by
      have := le_of_over ha hn hover
      omega
    by_cases hover : ∃ s ∈ sections, Over (c.amount m) s.limit
    · obtain ⟨p, -, -, hmax, q, -, hqover, -, hiff⟩ := hkind (Over (c.amount m)) hover
      exact hnot p.limit (hmax s hs htaken) (hiff.mp hqover)
    · have h := hall fun _ => one
      rcases excede_eq c m allocate (sections.map (Section.respeed fun _ => one)) with
        ⟨-, hnone⟩ | ⟨p, -, -, -, heq⟩
      · exact hnone _ (mem_map_of_mem hs) htaken
      · rw [heq] at h
        have hstop := h.stop.mpr fun t' ht' hover' => by
          obtain ⟨t, ht, rfl⟩ := mem_map.mp ht'
          exact hover ⟨t, ht, hover'⟩
        simp at hstop
  · intro hover
    obtain ⟨p, hp, ⟨-, n, hn, -⟩, -⟩ := hkind (fun _ => True) hover
    refine ⟨n, hn, fun s hs heq hsover => ?_⟩
    obtain ⟨p, -, ⟨-, n', hn', hlt⟩, -, q, -, hqover, hqmax, hiff⟩ := hkind (· = s.limit) hover
    obtain rfl := Option.some.inj (hn.symm.trans hn')
    obtain ⟨-, -, -, -, hn63⟩ := exists_amount ha hn
    have hle := le_of_over ha hn hqover
    have hq : q.limit = s.limit := by
      have := hqmax s hs hsover
      omega
    have hp := hiff.mp hq
    rw [kamt_eq (by omega), hp] at hlt
    omega

/-- The throttle follows the limits of a list, whatever the speeds are, if and only if every amount
of the file fits them. -/
theorem throttle_iff (f : List Line) (c : Config) (allocate : Str) (sections : List Section) :
    (∀ m, monthly f = some m → ∀ speed : Section → Speed,
      Follows (c.amount m) (sections.map (Section.respeed speed))
        (excede (c.throttling (sections.map (Section.respeed speed))) (tostring m.total) allocate
          (tostring m.ptotal))) ↔
      ∀ m, monthly f = some m → Fits (c.amount m) sections :=
  forall₂_congr fun _ _ => ⟨fits_of_follows, fun h speed => (h.respeed speed).follows allocate⟩

instance decidableOver : (a : Number) → (limit : ℕ) → Decidable (Over a limit)
  | .fin _, _ => inferInstanceAs (Decidable (_ < _))
  | .inf, _ => inferInstanceAs (Decidable True)
  | .nan, _ => inferInstanceAs (Decidable False)

/-- Four days with 1000003 KB, of which 30 days are 7500022.5 KB, and a limit of 1 GB. -/
theorem not_throttle : ¬∀ (f : List Line) (m : Month) (c : Config) (allocate : Str)
    (sections : List Section), monthly f = some m →
    Follows (c.amount m) sections
      (excede (c.throttling sections) (tostring m.total) allocate (tostring m.ptotal)) := by
  intro hall
  let f : List Line :=
    Day.lines ⟨[], [⟨[], 1000003, 0, 0, 0, [], []⟩]⟩ ++ (replicate 3 (Day.lines ⟨[], []⟩)).flatten
  let c : Config := ⟨none, none, none, some ['1'], none, none, true, false, []⟩
  let s : Section := ⟨[], 1, one, by decide⟩
  have hrun : (monthly f).any (fun m => decide (Over (c.amount m) s.limit ∧ .stop ∈ excede
      (c.throttling [s]) (tostring m.total) (dec 1000000) (tostring m.ptotal))) = true := by
    decide +kernel
  obtain ⟨m, hm, hwrong⟩ := (Option.any_eq_true _ _).mp hrun
  obtain ⟨hover, hstop⟩ := of_decide_eq_true hwrong
  exact (hall f m c (dec 1000000) [s] hm).stop.mp hstop s mem_cons_self hover

end ModemSupport.Rooter.BwmonThrottle
