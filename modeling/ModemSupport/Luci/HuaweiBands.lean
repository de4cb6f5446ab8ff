import ModemSupport.Lib.Bits
import ModemSupport.Lib.Text

/-! The bands of a Huawei modem in `huawei.sh`: the masks that `huawei_set_band_prefer` adds up from
the bands that are selected, and what `huawei_get_network_prefer` reads from them.  A mask is a
number, as `bc` writes it in base 16 and reads it back. -/

namespace ModemSupport.Luci.HuaweiBands

open Lib.Bits Lib.Text List

inductive Generation where
  | g5
  | g4
  | g3
  | g2
  deriving DecidableEq

inductive Band where
  | gsm (name : List Char)
  | number (n : ℕ)
  deriving DecidableEq

def names : List (List Char) :=
  ["DCS_1800".toList, "E-GSM_900".toList, "P-GSM_900".toList, "GSM_850".toList, "R-GSM_900".toList,
    "PCS_1900".toList]

def numbers : Generation → List ℕ
  | .g5 => [1, 2, 3, 5, 7, 8, 12, 20, 25, 28, 38, 40, 41, 78, 79]
  | .g4 => [1, 2, 3, 4, 5, 6, 7, 8, 9, 10, 11, 12, 13, 14, 17, 18, 19, 20, 21, 25, 26, 28, 33, 34,
      35, 36, 37, 38, 39, 40, 41, 42, 43]
  | .g3 => [1, 2, 5, 6, 8, 9, 19]
  | .g2 => []

def supportBand (g : Generation) : List Band :=
  if g = .g2 then names.map .gsm else (numbers g).map .number

def huaweiGetBit (bandName : List Char) : ℕ :=
  if bandName = "DCS_1800".toList then 8
  else if bandName = "E-GSM_900".toList ∨ bandName = "E_GSM_900".toList then 9
  else if bandName = "P-GSM_900".toList ∨ bandName = "P_GSM_900".toList then 10
  else if bandName = "GSM_450".toList then 17
  else if bandName = "GSM_480".toList then 18
  else if bandName = "GSM_750".toList then 19
  else if bandName = "GSM_850".toList then 20
  else if bandName = "R-GSM_900".toList ∨ bandName = "R_GSM_900".toList then 21
  else if bandName = "PCS_1900".toList then 22
  else 0

def bandPrefix : Generation → List Char
  | .g5 => "NR5G_N".toList
  | .g4 => "LTE_BC".toList
  | .g3 => "WCDMA_B".toList
  | .g2 => []

def key (g : Generation) : Band → List Char
  | .gsm name => name
  | .number n => bandPrefix g ++ dec n

/-- The bit that is set for a band, counted from 1; `sed` takes the prefix off the key. -/
def bit (g : Generation) : Band → ℕ
  | .gsm name => huaweiGetBit name
  | .number n => if g = .g3 then n + 22 else n

/-- Which generations are enabled, and which of the supported bands have the value 1. -/
structure Prefer where
  enable : Generation → Bool
  selected : Generation → Band → Bool

/-- `jq` reads `.band[i].E-GSM_900` as a difference and reports an error. -/
def path (key : List Char) : Bool := key.all fun c => c.isAlphanum || c == '_'

def Prefer.value (p : Prefer) (g : Generation) (b : Band) : Bool :=
  path (key g b) && p.selected g b

/-- One of the four blocks of `huawei_set_band_prefer`; `mask` is the word of the generation. -/
def setBands (p : Prefer) (mask : ℕ) (g : Generation) : ℕ :=
  if p.enable g then
    (supportBand g).foldl
      (fun mask b => if p.value g b then mask + 2 ^ (bit g b - 1) else mask) mask
  else mask

def networkMode : Generation → List Char
  | .g5 => ['0', '8']
  | .g4 => ['0', '3']
  | .g3 => ['0', '2']
  | .g2 => ['0', '1']

structure Syscfgex where
  networkPreferConfig : List Char
  bandHex2g3g : ℕ
  bandHex4g5g : ℕ

def huaweiSetBandPrefer (p : Prefer) : Syscfgex where
  networkPreferConfig :=
    let config := ([Generation.g5, .g4, .g3, .g2].filter p.enable).flatMap networkMode
    if config = [] then ['9', '9'] else config
  bandHex2g3g := [Generation.g3, .g2].foldl (setBands p) 0
  bandHex4g5g := [Generation.g5, .g4].foldl (setBands p) 0

def pair : Generation → Generation × Generation
  | .g5 | .g4 => (.g5, .g4)
  | .g3 | .g2 => (.g3, .g2)

def Syscfgex.mask (s : Syscfgex) (g : Generation) : ℕ :=
  if pair g = (.g5, .g4) then s.bandHex4g5g else s.bandHex2g3g

/-- The characters that `bc` puts out when `col` stand in the line. -/
def outChars : ℕ → List Char → List Char
  | _, [] => []
  | col, c :: s =>
    if col = 68 then '\\' :: '\n' :: c :: outChars 1 s else c :: outChars (col + 1) s

def bc (n : ℕ) : List Char :=
  if (binary n).length ≤ 69 then binary n else outChars 0 (binary n)

/-- `${s: -p:1}`. -/
def fromEnd (s : List Char) (p : ℕ) : List Char := s.reverse[p - 1]?.toList

/-- `start_bit`, which 2G has not. -/
def startBit (g : Generation) : ℕ := if g = .g3 then 23 else 1

def position (g : Generation) : Band → ℕ
  | .gsm name => huaweiGetBit name
  | .number n => n + startBit g - 1

/-- The value of a band in `huawei_get_band_info`. -/
def enable (s : Syscfgex) (g : Generation) (b : Band) : List Char :=
  let enable := fromEnd (bc (s.mask g)) (position g b)
  if enable = [] then ['0'] else enable

def Prefer.On (p : Prefer) (g : Generation) (b : Band) : Prop :=
  b ∈ supportBand g ∧ p.enable g = true ∧ p.selected g b = true

structure ReadsBack (p : Prefer) : Prop where
  set : ∀ g, ∀ b ∈ supportBand g,
    ((huaweiSetBandPrefer p).mask g).testBit (bit g b - 1) = true ↔
      p.On (pair g).1 b ∨ p.On (pair g).2 b
  get : ∀ g, ∀ b ∈ supportBand g,
    enable (huaweiSetBandPrefer p) g b = ['1'] ↔
      ((huaweiSetBandPrefer p).mask g).testBit (bit g b - 1) = true

/-- No 2G band is selected whose name has a hyphen, no band for both LTE and NR, and no NR band
whose bit needs a second line of `bc`. -/
structure Plain (p : Prefer) : Prop where
  gsm : ∀ name, p.On .g2 (.gsm name) → '-' ∉ name
  apart : ∀ b, ¬(p.On .g5 b ∧ p.On .g4 b)
  short : ∀ n, p.On .g5 (.number n) → n ≤ 69

variable {p : Prefer} {g g' : Generation} {b b' : Band} {i n : ℕ}

theorem pair_cases (h : pair g' = pair g) : g' = (pair g).1 ∨ g' = (pair g).2 := by
  cases g <;> cases g' <;> first | exact .inl rfl | exact .inr rfl | cases h

theorem pair_fst : pair (pair g).1 = pair g := by cases g <;> rfl

theorem pair_snd : pair (pair g).2 = pair g := by cases g <;> rfl

theorem numbers_bounds (h : n ∈ numbers g) :
    0 < n ∧ (g ≠ .g5 → n ≤ 43) ∧ (g = .g5 → n ≤ 41 ∨ n = 78 ∨ n = 79) ∧ (g = .g3 → n ≤ 19) := by
  have hall : ∀ g : Generation, (numbers g).all (fun n => decide (0 < n ∧ (g ≠ .g5 → n ≤ 43) ∧
      (g = .g5 → n ≤ 41 ∨ n = 78 ∨ n = 79) ∧ (g = .g3 → n ≤ 19))) = true := by
    intro g
    cases g <;> decide
  exact of_decide_eq_true (List.all_eq_true.mp (hall g) n h)

theorem names_bits {name : List Char} (h : name ∈ names) :
    (0 < huaweiGetBit name ∧ huaweiGetBit name ≤ 22) ∧ (path name = true ↔ '-' ∉ name) ∧
      ∀ name' ∈ names, huaweiGetBit name' = huaweiGetBit name → name' = name := by
  have hall : names.all (fun name => decide ((0 < huaweiGetBit name ∧ huaweiGetBit name ≤ 22) ∧
      (path name = true ↔ '-' ∉ name)) && names.all fun name' =>
      decide (huaweiGetBit name' = huaweiGetBit name → name' = name)) = true := by
    decide
  obtain ⟨h1, h2⟩ := Bool.and_eq_true _ _ ▸ List.all_eq_true.mp hall name h
  obtain ⟨hbit, hpath⟩ := of_decide_eq_true h1
  exact ⟨hbit, hpath, fun name' hname' => of_decide_eq_true (List.all_eq_true.mp h2 name' hname')⟩

theorem mem_supportBand : b ∈ supportBand g ↔
    (g = .g2 ∧ ∃ name ∈ names, b = .gsm name) ∨ (g ≠ .g2 ∧ ∃ n ∈ numbers g, b = .number n) := by
  unfold supportBand
  split <;> simp [*, eq_comm]

theorem bit_pos (hb : b ∈ supportBand g) : 0 < bit g b := by
  obtain ⟨-, name, hname, rfl⟩ | ⟨-, n, hn, rfl⟩ := mem_supportBand.mp hb
  · exact (names_bits hname).1.1
  · have hpos := (numbers_bounds hn).1
    simp only [bit]
    split <;> omega

theorem position_eq (hb : b ∈ supportBand g) : position g b = bit g b := by
  obtain ⟨-, name, -, rfl⟩ | ⟨-, n, -, rfl⟩ := mem_supportBand.mp hb
  · rfl
  · simp only [position, bit, startBit]
    split <;> rfl

theorem bit_inj (hb : b ∈ supportBand g) (hb' : b' ∈ supportBand g') (hpair : pair g' = pair g) :
    bit g' b' = bit g b ↔ b' = b := by
  obtain ⟨rfl, name, hname, rfl⟩ | ⟨hg, n, hn, rfl⟩ := mem_supportBand.mp hb <;>
    obtain ⟨rfl, name', hname', rfl⟩ | ⟨hg', n', hn', rfl⟩ := mem_supportBand.mp hb'
  · exact ⟨fun h => congrArg _ ((names_bits hname).2.2 name' hname' h), fun h => h ▸ rfl⟩
  · obtain rfl : g' = .g3 := by cases g' <;> simp_all [pair]
    have hle := (names_bits hname).1.2
    have hpos := (numbers_bounds hn').1
    exact iff_of_false (by simp [bit]; omega) nofun
  · obtain rfl : g = .g3 := by cases g <;> simp_all [pair]
    have hle := (names_bits hname').1.2
    have hpos := (numbers_bounds hn).1
    exact iff_of_false (by simp [bit]; omega) nofun
  · have h3 : g' = .g3 ↔ g = .g3 := by cases g <;> cases g' <;> simp_all [pair]
    simp only [bit, h3, Band.number.injEq]
    split <;> omega

def Prefer.places (p : Prefer) (g : Generation) : List ℕ :=
  if p.enable g then ((supportBand g).filter (p.value g)).map fun b => bit g b - 1 else []

theorem setBands_eq {mask : ℕ} : setBands p mask g = mask + powers (p.places g) := by
  unfold setBands Prefer.places
  split
  · generalize supportBand g = bands
    induction bands generalizing mask with
    | nil => rfl
    | cons b bands ih =>
      rw [foldl_cons, ih]
      by_cases hv : p.value g b = true
      · rw [if_pos hv, filter_cons_of_pos hv]
        simp [powers, Nat.add_assoc]
      · rw [if_neg hv, filter_cons_of_neg hv]
  · rfl

theorem mask_eq : (huaweiSetBandPrefer p).mask g =
    powers (p.places (pair g).1 ++ p.places (pair g).2) := by
  cases g <;> simp [Syscfgex.mask, huaweiSetBandPrefer, setBands_eq, pair, powers_append]

theorem mem_places : i ∈ p.places g ↔
    ∃ b, (p.On g b ∧ path (key g b) = true) ∧ bit g b - 1 = i := by
  unfold Prefer.places
  split
  · simp [Prefer.On, Prefer.value, *]
    grind
  · simp [Prefer.On, *]

theorem nodup_places : (p.places g).Nodup := by
  unfold Prefer.places
  split
  · refine (Nodup.filter _ ?_).map_on fun b hb b' hb' h => ?_
    · unfold supportBand
      split
      · exact Nodup.map (fun _ _ h => Band.gsm.inj h) (by decide)
      · refine Nodup.map (fun _ _ h => Band.number.inj h) ?_
        cases g <;> decide
    · have hb := mem_of_mem_filter hb
      have hb' := mem_of_mem_filter hb'
      have := bit_pos hb
      have := bit_pos hb'
      exact (bit_inj hb' hb rfl).mp (by omega)
  · exact nodup_nil

theorem place_mem (hb : b ∈ supportBand g) (hpair : pair g' = pair g) :
    bit g b - 1 ∈ p.places g' ↔ p.On g' b ∧ path (key g' b) = true := by
  rw [mem_places]
  have hpos := bit_pos hb
  constructor
  · rintro ⟨b', hb', hbit⟩
    have hpos' := bit_pos hb'.1.1
    obtain rfl := (bit_inj hb hb'.1.1 hpair).mp (by omega)
    exact hb'
  · exact fun h => ⟨b, h, by rw [(bit_inj hb h.1.1 hpair).mpr rfl]⟩

theorem path_of_on (hgsm : ∀ name, p.On .g2 (.gsm name) → '-' ∉ name) (h : p.On g b) :
    path (key g b) = true := by
  obtain ⟨rfl, name, hname, rfl⟩ | ⟨hg, n, hn, rfl⟩ := mem_supportBand.mp h.1
  · exact (names_bits hname).2.1.mpr (hgsm name h)
  · refine List.all_eq_true.mpr fun c hc => ?_
    rcases mem_append.mp hc with hc | hc
    · exact List.all_eq_true.mp (show path (bandPrefix g) = true by cases g <;> decide) c hc
    · rw [Char.isAlphanum, isDigit_of_mem_dec hc, Bool.or_true]
      rfl

theorem testBit_mask (h : ∀ j < i, ¬(j ∈ p.places (pair g).1 ∧ j ∈ p.places (pair g).2)) :
    ((huaweiSetBandPrefer p).mask g).testBit i = true ↔
      ¬(i ∈ p.places (pair g).1 ↔ i ∈ p.places (pair g).2) := by
  rw [mask_eq]
  exact testBit_powers_append nodup_places nodup_places h

theorem exists_on (h : i ∈ p.places (pair g).1 ∧ i ∈ p.places (pair g).2) :
    ∃ b, (p.On (pair g).1 b ∧ p.On (pair g).2 b) ∧ bit (pair g).1 b - 1 = i := by
  obtain ⟨b, hb, hbit⟩ := mem_places.mp h.1
  have hmem := h.2
  rw [← hbit, place_mem hb.1.1 (pair_snd.trans pair_fst.symm)] at hmem
  exact ⟨b, ⟨hb.1, hmem.1⟩, hbit⟩

theorem not_on_gsm : ¬(p.On .g3 b ∧ p.On .g2 b) := by
  rintro ⟨h3, h2⟩
  obtain ⟨-, name, -, rfl⟩ | ⟨h, -⟩ := mem_supportBand.mp h2.1
  · obtain ⟨h, -⟩ | ⟨-, n, -, h⟩ := mem_supportBand.mp h3.1 <;> cases h
  · exact h rfl

theorem apart_places (h : ∀ b, ¬(p.On .g5 b ∧ p.On .g4 b)) (g : Generation) (i : ℕ) :
    ¬(i ∈ p.places (pair g).1 ∧ i ∈ p.places (pair g).2) := by
  intro hi
  obtain ⟨b, hb, -⟩ := exists_on hi
  cases g
  · exact h b hb
  · exact h b hb
  · exact not_on_gsm hb
  · exact not_on_gsm hb

theorem enable_iff (hb : b ∈ supportBand g) {s : Syscfgex} (h : s.mask g < 2 ^ 69) :
    enable s g b = ['1'] ↔ (s.mask g).testBit (bit g b - 1) = true := by
  have hbc : bc (s.mask g) = binary (s.mask g) := if_pos (length_binary_le h (by decide))
  rw [← getElem?_reverse_binary, enable, hbc, position_eq hb, fromEnd]
  cases (binary (s.mask g)).reverse[bit g b - 1]? <;> simp

theorem place_lt (hshort : ∀ n, p.On .g5 (.number n) → n ≤ 69) (h : i ∈ p.places g) : i < 69 := by
  obtain ⟨b, ⟨hb, -⟩, rfl⟩ := mem_places.mp h
  have hpos := bit_pos hb.1
  obtain ⟨rfl, name, hname, rfl⟩ | ⟨hg, n, hn, rfl⟩ := mem_supportBand.mp hb.1
  · have hle := (names_bits hname).1.2
    simp only [bit]
    omega
  · obtain ⟨hn0, h43, -, h19⟩ := numbers_bounds hn
    have hle : g = .g5 → n ≤ 69 := fun h => hshort n (h ▸ hb)
    simp only [bit]
    grind

theorem Plain.readsBack (h : Plain p) : ReadsBack p := by
  have hapart := apart_places h.apart
  constructor
  · intro g b hb
    rw [testBit_mask fun j _ => hapart g j, place_mem hb pair_fst, place_mem hb pair_snd]
    have h1 := path_of_on (b := b) (g := (pair g).1) h.gsm
    have h2 := path_of_on (b := b) (g := (pair g).2) h.gsm
    have hnot := hapart g (bit g b - 1)
    rw [place_mem hb pair_fst, place_mem hb pair_snd] at hnot
    grind
  · intro g b hb
    refine enable_iff hb (Nat.lt_pow_two_of_testBit _ fun i hi => ?_)
    rw [Bool.eq_false_iff, Ne, testBit_mask fun j _ => hapart g j, not_not]
    exact iff_of_false (fun hmem => Nat.not_lt.mpr hi (place_lt h.short hmem))
      fun hmem => Nat.not_lt.mpr hi (place_lt h.short hmem)

theorem outChars_append {col : ℕ} {s : List Char} (s' : List Char) (h : col + s.length ≤ 68) :
    outChars col (s ++ s') = s ++ outChars (col + s.length) s' := by
  induction s generalizing col with
  | nil => rfl
  | cons c s ih =>
    rw [length_cons] at h
    rw [cons_append, outChars, if_neg (by omega), ih (by omega), length_cons, Nat.add_right_comm,
      Nat.add_assoc]
    rfl

theorem outChars_long {s : List Char} (h : 68 < s.length) (hle : s.length ≤ 136) :
    (outChars 0 s).length = s.length + 2 ∧ (outChars 0 s)[2]? = s[2]? := by
  have hlen : (s.take 68).length = 68 := length_take_of_le h.le
  obtain ⟨c, t, hdrop⟩ := exists_cons_of_length_pos (l := s.drop 68) (by rw [length_drop]; omega)
  have hlent : t.length + 1 = s.length - 68 := by
    rw [← length_cons (a := c), ← hdrop, length_drop]
  have hrest : outChars 1 t = t := by
    have hline := outChars_append [] (show 1 + t.length ≤ 68 by omega)
    rwa [append_nil, outChars, append_nil] at hline
  have hout : outChars 0 s = s.take 68 ++ '\\' :: '\n' :: c :: t := by
    rw [← take_append_drop 68 s, outChars_append _ (by omega), hdrop, hlen, outChars, if_pos rfl,
      hrest, take_append_of_le_length hlen.ge, take_of_length_le hlen.le]
  constructor
  · rw [hout, length_append, hlen]
    simp only [length_cons]
    omega
  · rw [hout, getElem?_append_left (by omega), getElem?_take_of_lt (by decide)]

theorem enable_long {s : Syscfgex} (hb : b ∈ supportBand g) (hn : bit g b = n + 3) (h69 : 66 < n)
    (h136 : n ≤ 133) (hlow : 2 ^ (n + 2) ≤ s.mask g) (hhigh : s.mask g < 2 ^ (n + 3))
    (h : enable s g b = ['1']) : (s.mask g).testBit n = true := by
  have hlen := length_binary hlow hhigh
  obtain ⟨hout, htwo⟩ := outChars_long (s := binary (s.mask g)) (by omega) (by omega)
  have hbc : bc (s.mask g) = outChars 0 (binary (s.mask g)) := if_neg (by omega)
  rw [enable, hbc, position_eq hb, hn, fromEnd, getElem?_reverse (by omega), hout, hlen] at h
  rw [← getElem?_reverse_binary, getElem?_reverse (by omega), hlen]
  rw [show n + 2 + 1 + 2 - 1 - (n + 3 - 1) = 2 by omega, htwo] at h
  rw [show n + 2 + 1 - 1 - n = 2 by omega]
  generalize (binary (s.mask g))[2]? = c at h ⊢
  cases c <;> simp_all

theorem place_le {m : ℕ} (hm : 43 ≤ m) (hle : ∀ n, p.On .g5 (.number n) → n ≤ m)
    (h : i ∈ p.places .g5 ∨ i ∈ p.places .g4) : i < m := by
  obtain h | h := h <;> obtain ⟨b, ⟨hb, -⟩, rfl⟩ := mem_places.mp h <;>
    obtain ⟨hg, -⟩ | ⟨-, n, hn, rfl⟩ := mem_supportBand.mp hb.1 <;> try cases hg
  · have hpos := (numbers_bounds hn).1
    have := hle n hb
    simp only [bit, if_neg (show Generation.g5 ≠ .g3 by decide)]
    omega
  · obtain ⟨hpos, h43, -⟩ := numbers_bounds hn
    have := h43 (by decide)
    simp only [bit, if_neg (show Generation.g4 ≠ .g3 by decide)]
    omega

theorem not_place (h : i = 75 ∨ i = 76) : ¬(i ∈ p.places .g5 ∨ i ∈ p.places .g4) := by
  intro hi
  obtain hi | hi := hi <;> obtain ⟨b, ⟨hb, -⟩, hbit⟩ := mem_places.mp hi <;>
    obtain ⟨hg, -⟩ | ⟨-, n, hn, rfl⟩ := mem_supportBand.mp hb.1 <;> try cases hg
  · have := (numbers_bounds hn).2.2.1 rfl
    simp only [bit, if_neg (show Generation.g5 ≠ .g3 by decide)] at hbit
    omega
  · have := (numbers_bounds hn).2.1 (by decide)
    simp only [bit, if_neg (show Generation.g4 ≠ .g3 by decide)] at hbit
    omega

theorem ReadsBack.plain (h : ReadsBack p) : Plain p := by
  have hgsm : ∀ name, p.On .g2 (.gsm name) → '-' ∉ name := by
    intro name hon
    have hset := (h.set .g2 _ hon.1).mpr (.inr hon)
    rw [testBit_mask fun j _ hj => by obtain ⟨b, hb, -⟩ := exists_on hj; exact not_on_gsm hb,
      place_mem hon.1 pair_fst, place_mem hon.1 pair_snd] at hset
    obtain ⟨-, name', hname, hb⟩ | ⟨hg, -⟩ := mem_supportBand.mp hon.1
    · cases hb
      refine (names_bits hname).2.1.mp (by_contra fun hpath => hset ?_)
      exact iff_of_false (fun h3 => not_on_gsm ⟨h3.1, hon⟩) fun h2 => hpath h2.2
    · exact absurd rfl hg
  have hapart : ∀ i, ¬(i ∈ p.places .g5 ∧ i ∈ p.places .g4) := by
    intro i
    -- the lowest common bit gets no carry, and is lost
    induction i using Nat.strong_induction_on with
    | _ i ih =>
      intro hi
      obtain ⟨b, hb, rfl⟩ := exists_on (g := .g5) hi
      have hset := (h.set .g5 b hb.1.1).mpr (.inl hb.1)
      exact (testBit_mask ih).mp hset (iff_of_true hi.1 hi.2)
  refine ⟨hgsm, fun b hb => ?_, fun n hon => by_contra fun hn => ?_⟩
  · exact hapart (bit .g5 b - 1) ⟨(place_mem hb.1.1 rfl).mpr ⟨hb.1, path_of_on hgsm hb.1⟩,
      (place_mem hb.1.1 (by decide : pair .g4 = pair .g5)).mpr
        ⟨hb.2, path_of_on hgsm hb.2⟩⟩
  · obtain ⟨m, hm, hmon, hmax⟩ : ∃ m, (m = 75 ∨ m = 76) ∧ p.On .g5 (.number (m + 3)) ∧
        ∀ n, p.On .g5 (.number n) → n ≤ m + 3 := by
      have hnumbers : ∀ n, p.On .g5 (.number n) → n ≤ 41 ∨ n = 78 ∨ n = 79 := by
        intro n hon
        obtain ⟨hg, -⟩ | ⟨-, n, hn, h⟩ := mem_supportBand.mp hon.1
        · cases hg
        · cases h
          exact (numbers_bounds hn).2.2.1 rfl
      by_cases h79 : p.On .g5 (.number 79)
      · exact ⟨76, .inr rfl, h79, fun n hon => by have := hnumbers n hon; omega⟩
      · obtain rfl : n = 78 := by
          have hne : n ≠ 79 := fun h => h79 (h ▸ hon)
          have := hnumbers n hon
          omega
        refine ⟨75, .inl rfl, hon, fun n hon => ?_⟩
        have hne : n ≠ 79 := fun h => h79 (h ▸ hon)
        have := hnumbers n hon
        omega
    have hset := (h.set .g5 _ hmon.1).mpr (.inl hmon)
    have hhigh : (huaweiSetBandPrefer p).mask .g5 < 2 ^ (m + 3) := by
      refine Nat.lt_pow_two_of_testBit _ fun i hi => ?_
      rw [Bool.eq_false_iff, Ne, testBit_mask fun j _ => hapart j, not_not]
      have hout := mt (place_le (by omega) hmax) (Nat.not_lt.mpr hi)
      exact iff_of_false (fun h5 => hout (.inl h5)) fun h4 => hout (.inr h4)
    have hlast := enable_long hmon.1 rfl (by omega) (by omega) (Nat.ge_two_pow_of_testBit hset)
      hhigh ((h.get .g5 _ hmon.1).mpr hset)
    rw [testBit_mask fun j _ => hapart j] at hlast
    have hout := not_place (p := p) hm
    exact hlast (iff_of_false (fun h5 => hout (.inl h5)) fun h4 => hout (.inr h4))

/-- A selection is set and read back if and only if it is plain. -/
theorem readsBack_iff (p : Prefer) : ReadsBack p ↔ Plain p := ⟨ReadsBack.plain, Plain.readsBack⟩

/-- NR band 78 alone. -/
theorem not_readsBack : ¬∀ p, ReadsBack p := by
  intro h
  have hplain := (h ⟨fun _ => true, fun g b => g = .g5 && b = .number 78⟩).plain
  exact absurd (hplain.short 78 ⟨by decide, rfl, rfl⟩) (by decide)

end ModemSupport.Luci.HuaweiBands
