import ModemSupport.Lib.Bits
import ModemSupport.Rooter.SmsDecodeText

/-! The bands of ROOter: what `bandmask` stores of the lists that the modems report, the string of
bits that `mask.sh` makes of it, and what `lock.sh` makes of such a string. -/

namespace ModemSupport.Rooter.BandMask

open Lib.Bits Lib.Text SmsFile SmsRead List

/-- A round of `encodemask`, for a band that is not zero. -/
def addBand (mtab : ℕ → ℕ) (band : ℕ) : ℕ → ℕ :=
  if band ≤ 128 then
    let idx := (band - 1) / 4 + 1
    let idxr := 33 - idx
    let val := [1, 2, 4, 8].getD (band - (idx - 1) * 4 - 1) 0
    Function.update mtab idxr (mtab idxr + val)
  else mtab

def encodemask (bands : List ℕ) : Str :=
  (range 32).flatMap fun i => formatX 1 (bands.foldl addBand (fun _ => 0) (i + 1))

def number (s : Str) : ℕ := s.foldl (fun n c => 16 * n + xdigit c) 0

/-- The loop of `reverse` and of `fibdecode`, from the last digit on. -/
def bits (jx : Str) : Str := jx.reverse.flatMap fun c => (leftpad 4 '0' (binary (xdigit c))).reverse

def reverse (lx : Str) : Str := bits (lx.drop 2) ++ replicate 94 '0'

/-- The places of the ones, counted from `i`. -/
def ones : ℕ → Str → List ℕ
  | _, [] => []
  | i, c :: s => if c = '1' then i :: ones (i + 1) s else ones (i + 1) s

def encode (maskz : Str) : Str := (encodemask (ones 1 maskz)).dropWhile (· = '0')

def fibdecode (j : Str) (tdec mod : ℕ) : Str :=
  let sep := if mod = 1 then ':' else ','
  let hun := if mod = 1 ∨ mod = 2 then 1 else 101
  let jj := fun ii => if tdec = 1 then ii + hun else if ii < 9 then ii + 501 else ii + 5001
  let lst := [sep].intercalate ((ones 0 (bits j)).map fun ii => dec (jj ii))
  if lst = [] then ['0'] else lst

def mask64 (maskx : Str) : Str :=
  let mask64 := encode ((maskx.take 64).takeWhile (· ≠ ','))
  if mask64 = [] then ['0'] else mask64

def maskl2 (maskx : Str) : Str :=
  let maskz := encode ((maskx.drop 64).takeWhile (· ≠ ','))
  if maskz = [] then ['0'] else maskz

/-- How many characters `fixed[0-9]\{lo,hi\}` matches at the beginning of `s`. -/
def matched (fixed : Str) (lo hi : ℕ) (s : Str) : ℕ :=
  let digits := (((s.drop fixed.length).take hi).takeWhile Char.isDigit).length
  if fixed.isPrefixOf s ∧ lo ≤ digits then fixed.length + digits else 0

/-- `grep -o`, with `k` characters of a match left. -/
def grepO (fixed : Str) (lo hi : ℕ) : ℕ → Str → List Str
  | _, [] => []
  | k + 1, _ :: s => grepO fixed lo hi k s
  | 0, c :: s =>
    let n := matched fixed lo hi (c :: s)
    if n = 0 then grepO fixed lo hi 0 s else take n (c :: s) :: grepO fixed lo hi (n - 1) s

def lteBands (text : Str) : List ℕ :=
  (grepO ['1'] 2 2 0 text).map fun bandval => Nat.ofDigitChars 10 bandval 0 - 100

def nrBands (text : Str) : List ℕ :=
  (grepO ['5', '0'] 1 3 0 text).map fun bandval => Nat.ofDigitChars 10 (bandval.drop 2) 0

/-- A number of `AT+GTACT?`. -/
inductive Code where
  | lte (band : ℕ)
  | nr (band : ℕ)

def Code.text : Code → Str
  | .lte band => dec (100 + band)
  | .nr band => '5' :: '0' :: dec band

def Code.lteBand : Code → Option ℕ
  | .lte b => some b
  | .nr _ => none

def Code.nrBand : Code → Option ℕ
  | .lte _ => none
  | .nr b => some b

def Code.Valid : Code → Prop
  | .lte band => 1 ≤ band ∧ band ≤ 128
  | .nr band => 1 ≤ band ∧ band ≤ 99

def reply (codes : List Code) : Str := codes.flatMap fun c => c.text ++ [',']

/-- What a modem reports: a list of `AT+QNWPREFCFG`, that of `AT^SLBAND`, and the two of `AT+GTACT`
or `AT+XACT`. -/
inductive Report where
  | quectel (bands : List ℕ)
  | t77 (bands : List ℕ)
  | lte (codes : List Code)
  | nr (codes : List Code) (support : Bool)

def Report.bands : Report → List ℕ
  | .quectel bands | .t77 bands => bands
  | .lte codes => codes.filterMap Code.lteBand
  | .nr codes _ => codes.filterMap Code.nrBand

def Report.Valid : Report → Prop
  | .quectel bands | .t77 bands => ∀ b ∈ bands, 1 ≤ b ∧ b ≤ 128
  | .lte codes | .nr codes _ => ∀ c ∈ codes, c.Valid

/-- `L1`, `L5` or `L6`. -/
def Report.stored : Report → Str
  | .quectel bands => encodemask bands
  | .t77 bands => '0' :: 'x' :: encodemask bands
  | .lte codes =>
    let msk := lteBands (reply codes)
    '0' :: 'x' :: if msk = [] then ['0'] else encodemask msk
  | .nr codes support =>
    let msk := nrBands (reply codes)
    if msk = [] then if support then ['0', 'x', '0'] else [] else '0' :: 'x' :: encodemask msk

/-- The setting that `lock.sh` sends to an FM150. -/
def gtact (mask mask5g : Str) : Str :=
  let lte := if mask = [] then [] else ',' :: fibdecode mask 1 0
  if mask5g = [] then ['4', ',', '3', ','] ++ lte
  else ['1', '7', ',', '6', ','] ++ lte ++ ',' :: fibdecode mask5g 5 0

/-- The answer in which a modem reports a setting, as `fibomask` searches it. -/
def gtactReply (setting : Str) : Str :=
  ['+', 'G', 'T', 'A', 'C', 'T', ':', ','] ++ setting ++ [',', ',', 'O', 'K', ',']

/-- The bands in increasing order. -/
def names (sep : Char) (name : ℕ → Str) (bands : List ℕ) : Str :=
  if bands = [] then ['0']
  else [sep].intercalate (((range 129).filter fun b => b ∈ bands).map name)

structure Agrees (r : Report) : Prop where
  length : (encodemask r.bands).length = 32
  number : ∀ p, (number (encodemask r.bands)).testBit p = true ↔ p + 1 ∈ r.bands
  reverse : ∀ p, (reverse r.stored)[p]? = some '1' ↔ p + 1 ∈ r.bands
  colons : fibdecode (encode (BandMask.reverse r.stored)) 1 1 = names ':' dec r.bands
  commas : fibdecode (encode (BandMask.reverse r.stored)) 1 2 = names ',' dec r.bands
  lte : ∀ codes, r = .lte codes → fibdecode (encode (BandMask.reverse r.stored)) 1 0 =
    names ',' (fun b => (Code.lte b).text) r.bands
  nr : ∀ codes support, r = .nr codes support →
    fibdecode (encode (BandMask.reverse r.stored)) 5 0 =
      names ',' (fun b => (Code.nr b).text) r.bands
  mask64 : BandMask.number (mask64 (BandMask.reverse r.stored)) =
    BandMask.number (encodemask r.bands) % 2 ^ 64
  maskl2 : BandMask.number (maskl2 (BandMask.reverse r.stored)) =
    BandMask.number (encodemask r.bands) / 2 ^ 64

/-- `reverse` drops the two topmost digits of a list of `AT+QNWPREFCFG`, and the bands above 99 have
no code that begins with 1. -/
def Report.limit : Report → ℕ
  | .quectel _ => 120
  | .t77 _ => 128
  | .lte _ | .nr _ _ => 99

/-- What is found in a text is found between its commas, and nothing in the fixed parts. -/
structure Finds (f : Str → List ℕ) : Prop where
  append : ∀ u t, f (u ++ ',' :: t) = f u ++ f t
  fixed : ∀ u ∈ [[], ['0'], ['4'], ['3'], ['1', '7'], ['6'], ['O', 'K'],
    ['+', 'G', 'T', 'A', 'C', 'T', ':']], f u = []

variable {bands l : List ℕ} {s t : Str} {c : Char} {k n p : ℕ} {f : Str → List ℕ}
  {name : ℕ → Str}

/-- Digits as `%X` prints them. -/
def IsHex (s : Str) : Prop := ∀ c ∈ s, ∃ v < 16, c = hexDigit v

theorem isHex_encodemask : IsHex (encodemask bands) := by
  intro c hc
  obtain ⟨i, -, hc⟩ := mem_flatMap.mp hc
  obtain ⟨j, -, rfl⟩ := mem_map.mp hc
  exact ⟨_, Nat.mod_lt _ (by decide), rfl⟩

theorem isHex_encode : IsHex (encode s) := fun c hc =>
  isHex_encodemask c ((dropWhile_sublist _).mem hc)

theorem number_concat : number (t ++ [c]) = 2 ^ 4 * number t + xdigit c := by
  simp [number]

theorem nibble_bits : ∀ v < 16, (leftpad 4 '0' (binary (xdigit (hexDigit v)))).reverse =
    (range 4).map fun i => if v.testBit i then '1' else '0' := by
  decide

theorem getElem?_bits (ht : IsHex t) :
    (bits t)[p]? = some '1' ↔ (number t).testBit p = true := by
  induction t using List.reverseRecOn generalizing p with
  | nil => simp [bits, number]
  | append_singleton t c ih =>
    obtain ⟨v, hv, rfl⟩ := ht c (mem_append_right _ mem_cons_self)
    have hbits : bits (t ++ [hexDigit v]) =
        ((range 4).map fun i => if v.testBit i then '1' else '0') ++ bits t := by
      rw [← nibble_bits v hv]
      simp [bits]
    rw [hbits, number_concat, (hexDigit_spec v hv).2.2.1, Nat.testBit_two_pow_mul_add _ hv]
    by_cases hp : p < 4
    · rw [if_pos hp, getElem?_append_left (by simpa using hp), getElem?_map,
        getElem?_range hp, Option.map_some]
      cases v.testBit p <;> simp
    · rw [if_neg hp, getElem?_append_right (by simpa using Nat.not_lt.mp hp), length_map,
        length_range]
      exact ih fun c hc => ht c (mem_append_left _ hc)

theorem getElem?_padded : (s ++ replicate n '0')[p]? = some '1' ↔ s[p]? = some '1' := by
  by_cases hp : p < s.length
  · rw [getElem?_append_left hp]
  · rw [getElem?_append_right (Nat.not_lt.mp hp), getElem?_eq_none (Nat.not_lt.mp hp),
      getElem?_replicate]
    split <;> simp

theorem number_append : number (s ++ t) = number s * 16 ^ t.length + number t := by
  induction t using List.reverseRecOn with
  | nil => simp [number]
  | append_singleton t c ih =>
    rw [← append_assoc, number_concat, ih, number_concat, length_append, length_singleton, pow_succ]
    ring

theorem number_lt (ht : IsHex t) : number t < 16 ^ t.length := by
  induction t using List.reverseRecOn with
  | nil => decide
  | append_singleton t c ih =>
    obtain ⟨v, hv, rfl⟩ := ht c (mem_append_right _ mem_cons_self)
    have hlt := ih fun c hc => ht c (mem_append_left _ hc)
    rw [number_concat, (hexDigit_spec v hv).2.2.1, length_append, length_singleton, pow_succ]
    omega

theorem IsHex.drop (ht : IsHex t) : IsHex (t.drop n) := fun c hc => ht c (mem_of_mem_drop hc)

theorem number_drop (ht : IsHex t) : number (t.drop n) = number t % 16 ^ (t.length - n) := by
  have hlt := number_lt (ht.drop (n := n))
  have happ := number_append (s := t.take n) (t := t.drop n)
  rw [length_drop] at hlt
  rw [take_append_drop, length_drop] at happ
  rw [happ, Nat.mul_add_mod_self_right, Nat.mod_eq_of_lt hlt]

theorem number_dropWhile : number (t.dropWhile (· = '0')) = number t := by
  induction t with
  | nil => rfl
  | cons c t ih =>
    by_cases hc : c = '0'
    · subst hc
      rw [dropWhile_cons_of_pos (by rfl), ih]
      rfl
    · rw [dropWhile_cons_of_neg (by simpa using hc)]

/-- The powers that are added up in a digit. -/
def cell (bands : List ℕ) (idxr : ℕ) : List ℕ :=
  (bands.filter fun b => 32 - (b - 1) / 4 = idxr).map fun b => (b - 1) % 4

theorem foldl_addBand (hb : ∀ b ∈ bands, 1 ≤ b ∧ b ≤ 128) (mtab : ℕ → ℕ) (idxr : ℕ) :
    bands.foldl addBand mtab idxr = mtab idxr + powers (cell bands idxr) := by
  induction bands generalizing mtab with
  | nil => rfl
  | cons b bands ih =>
    obtain ⟨hpos, hle⟩ := hb b mem_cons_self
    have hval : ∀ i < 4, [1, 2, 4, 8].getD i 0 = 2 ^ i := by decide
    have hplace : b - ((b - 1) / 4 + 1 - 1) * 4 - 1 = (b - 1) % 4 := by omega
    have hidxr : 33 - ((b - 1) / 4 + 1) = 32 - (b - 1) / 4 := by omega
    rw [foldl_cons, ih fun b' hb' => hb b' (mem_cons_of_mem _ hb'), addBand, if_pos hle,
      hplace, hval _ (Nat.mod_lt _ (by decide)), hidxr, cell, cell]
    by_cases hj : 32 - (b - 1) / 4 = idxr
    · subst hj
      rw [Function.update_self, filter_cons_of_pos (by simp), map_cons, powers, powers, map_cons,
        sum_cons, Nat.add_assoc]
    · rw [Function.update_of_ne (Ne.symm hj), filter_cons_of_neg (by simpa using hj)]

theorem mem_cell (hb : ∀ b ∈ bands, 1 ≤ b ∧ b ≤ 128) (hk : k < 32) :
    n ∈ cell bands (32 - k) ↔ n < 4 ∧ 4 * k + n + 1 ∈ bands := by
  rw [cell, mem_map]
  constructor
  · rintro ⟨b, hmem, rfl⟩
    obtain ⟨hmem, heq⟩ := mem_filter.mp hmem
    have heq := of_decide_eq_true heq
    have := hb b hmem
    refine ⟨Nat.mod_lt _ (by decide), ?_⟩
    rwa [show 4 * k + (b - 1) % 4 + 1 = b by omega]
  · rintro ⟨hlt, hmem⟩
    exact ⟨_, mem_filter.mpr ⟨hmem, decide_eq_true (by omega)⟩, by omega⟩

theorem nodup_cell (hb : ∀ b ∈ bands, 1 ≤ b ∧ b ≤ 128) (h : bands.Nodup) :
    (cell bands n).Nodup := by
  refine (h.filter _).map_on fun a ha b hb' heq => ?_
  obtain ⟨ha, hia⟩ := mem_filter.mp ha
  obtain ⟨hb', hib⟩ := mem_filter.mp hb'
  have hia := of_decide_eq_true hia
  have hib := of_decide_eq_true hib
  have := hb a ha
  have := hb b hb'
  omega

theorem testBit_powers_of_nodup (hl : l.Nodup) : (powers l).testBit n = true ↔ n ∈ l := by
  have h := testBit_powers_append (i := n) hl nodup_nil (by simp)
  rwa [append_nil, iff_false_right not_mem_nil, not_not] at h

theorem formatX_one (h : n < 16) : formatX 1 n = [hexDigit n] := by
  rw [formatX_of_lt Nat.one_pos h]
  simp [range_succ, Nat.mod_eq_of_lt h]

theorem testBit_number (f : ℕ → ℕ) (hf : ∀ i < n, f i < 16) :
    (number ((range n).map fun i => hexDigit (f i))).testBit p = true ↔
      p < 4 * n ∧ (f (n - 1 - p / 4)).testBit (p % 4) = true := by
  induction n generalizing p with
  | zero => simp [number]
  | succ n ih =>
    have hlast := hf n n.lt_succ_self
    rw [range_succ, map_append, map_singleton, number_concat, (hexDigit_spec _ hlast).2.2.1,
      Nat.testBit_two_pow_mul_add _ hlast]
    by_cases hp : p < 4
    · rw [if_pos hp, Nat.div_eq_of_lt hp, Nat.mod_eq_of_lt hp]
      simp [show p < 4 * (n + 1) by omega]
    · rw [if_neg hp, ih fun i hi => hf i (Nat.lt_succ_of_lt hi),
        show n - 1 - (p - 4) / 4 = n + 1 - 1 - p / 4 by omega, show (p - 4) % 4 = p % 4 by omega]
      exact and_congr_left' (by omega)

/-- The digits, when no sum carries. -/
theorem testBit_encodemask (hb : ∀ b ∈ bands, 1 ≤ b ∧ b ≤ 128)
    (hlt : ∀ k < 32, powers (cell bands (32 - k)) < 16) :
    (encodemask bands).length = 32 ∧ ∀ p, (number (encodemask bands)).testBit p = true ↔
      p < 128 ∧ (powers (cell bands (32 - p / 4))).testBit (p % 4) = true := by
  have hf : ∀ i < 32, powers (cell bands (i + 1)) < 16 := fun i hi => by
    have := hlt (31 - i) (by omega)
    rwa [show 32 - (31 - i) = i + 1 by omega] at this
  have heq : encodemask bands = (range 32).map fun i => hexDigit (powers (cell bands (i + 1))) := by
    rw [encodemask, map_eq_flatMap]
    refine flatMap_congr fun i hi => ?_
    rw [foldl_addBand hb, Nat.zero_add, formatX_one (hf i (mem_range.mp hi))]
  refine ⟨by rw [heq, length_map, length_range], fun p => ?_⟩
  rw [heq, testBit_number _ hf]
  refine and_congr_right fun hp => ?_
  rw [show 32 - 1 - p / 4 + 1 = 32 - p / 4 by omega]

theorem encodemask_of_nodup (hb : ∀ b ∈ bands, 1 ≤ b ∧ b ≤ 128) (h : bands.Nodup) :
    (encodemask bands).length = 32 ∧
      ∀ p, (number (encodemask bands)).testBit p = true ↔ p + 1 ∈ bands := by
  have hlt : ∀ k < 32, powers (cell bands (32 - k)) < 16 := fun k hk =>
    powers_lt (i := 4) (nodup_cell hb h) fun j hj => ((mem_cell hb hk).mp hj).1
  obtain ⟨hlen, htest⟩ := testBit_encodemask hb hlt
  refine ⟨hlen, fun p => (htest p).trans ?_⟩
  rw [testBit_powers_of_nodup (nodup_cell hb h)]
  constructor
  · rintro ⟨hp, hmem⟩
    have := ((mem_cell hb (by omega)).mp hmem).2
    rwa [show 4 * (p / 4) + p % 4 + 1 = p + 1 by omega] at this
  · intro hmem
    have := hb _ hmem
    refine ⟨by omega, (mem_cell hb (by omega)).mpr ⟨Nat.mod_lt _ (by decide), ?_⟩⟩
    rwa [show 4 * (p / 4) + p % 4 + 1 = p + 1 by omega]

theorem nodup_of_powers_dedup (h : powers l ≤ powers l.dedup) : l.Nodup := by
  have hsub : ∀ l : List ℕ, powers l.dedup ≤ powers l := fun l =>
    ((dedup_sublist l).map _).sum_le_sum fun _ _ => Nat.zero_le _
  have hcons : ∀ a l, powers (a :: l) = 2 ^ a + powers l := fun a l => by
    rw [powers, map_cons, sum_cons, ← powers]
  induction l with
  | nil => exact nodup_nil
  | cons a l ih =>
    by_cases ha : a ∈ l
    · rw [dedup_cons_of_mem ha, hcons] at h
      have := hsub l
      have := Nat.two_pow_pos a
      omega
    · rw [dedup_cons_of_notMem ha, hcons, hcons] at h
      exact nodup_cons.mpr ⟨ha, ih (Nat.le_of_add_le_add_left h)⟩

theorem length_of_flatMap (f : ℕ → Str) (hf : ∀ i, 1 ≤ (f i).length) :
    n ≤ ((range n).flatMap f).length ∧
      (((range n).flatMap f).length = n → ∀ i < n, (f i).length = 1) := by
  induction n with
  | zero => exact ⟨Nat.le_refl _, fun _ _ => nofun⟩
  | succ n ih =>
    have := hf n
    rw [range_succ, flatMap_append, length_append, flatMap_singleton]
    refine ⟨by omega, fun h i hi => ?_⟩
    rcases Nat.lt_succ_iff_lt_or_eq.mp hi with hi | rfl
    · exact ih.2 (by omega) i hi
    · omega

theorem nodup_of_encodemask (hb : ∀ b ∈ bands, 1 ≤ b ∧ b ≤ 128)
    (hlen : (encodemask bands).length = 32)
    (htest : ∀ p, (number (encodemask bands)).testBit p = true ↔ p + 1 ∈ bands) :
    bands.Nodup := by
  have hlength : ∀ n, (formatX 1 n).length = max 1 (Nat.toDigits 16 n).length := fun n => by
    rw [formatX, length_map, length_range]
  have hone := (length_of_flatMap _ fun i => (Nat.le_max_left _ _).trans (hlength _).ge).2 hlen
  have hlt : ∀ k < 32, powers (cell bands (32 - k)) < 16 := fun k hk => by
    have hdigits := hone (31 - k) (by omega)
    rw [hlength, foldl_addBand hb, Nat.zero_add, show 31 - k + 1 = 32 - k by omega] at hdigits
    refine (Nat.length_toDigits_le_iff (b := 16) (k := 1) (by decide) Nat.one_pos).mp ?_
    omega
  have htest' := (testBit_encodemask hb hlt).2
  -- a digit has the bits of its set of bands, so nothing is added twice
  have hcell : ∀ k < 32, (cell bands (32 - k)).Nodup := fun k hk => by
    refine nodup_of_powers_dedup (Nat.le_of_eq (Nat.eq_of_testBit_eq fun i => ?_))
    refine Bool.eq_iff_iff.mpr ?_
    rw [testBit_powers_of_nodup (nodup_dedup _), mem_dedup, mem_cell hb hk]
    by_cases hi : i < 4
    · have h := (htest' (4 * k + i)).symm.trans (htest _)
      rw [show (4 * k + i) / 4 = k by omega, show (4 * k + i) % 4 = i by omega] at h
      rw [and_iff_right hi, ← h]
      exact (and_iff_right (by omega)).symm
    · refine iff_of_false ?_ fun h => hi h.1
      rw [Nat.testBit_lt_two_pow ((hlt k hk).trans_le
        (Nat.pow_le_pow_right (n := 2) (i := 4) (by decide) (Nat.not_lt.mp hi)))]
      decide
  refine nodup_iff_count_le_one.mpr fun b => ?_
  by_cases hmem : b ∈ bands
  · have := hb b hmem
    have hcount := nodup_iff_count_le_one.mp (hcell ((b - 1) / 4) (by omega)) ((b - 1) % 4)
    refine le_trans ?_ hcount
    rw [cell, ← count_filter (p := fun c => 32 - (c - 1) / 4 = 32 - (b - 1) / 4) (by simp)]
    exact count_le_count_map (f := fun b => (b - 1) % 4)
  · rw [count_eq_zero_of_not_mem hmem]
    exact Nat.zero_le 1

theorem ones_cons : ones k (c :: s) = if c = '1' then k :: ones (k + 1) s else ones (k + 1) s :=
  rfl

theorem mem_ones : n ∈ ones k s ↔ ∃ p, s[p]? = some '1' ∧ n = k + p := by
  induction s generalizing k with
  | nil => exact iff_of_false not_mem_nil fun ⟨_, hp, _⟩ => nomatch hp
  | cons c s ih =>
    have hcons : n ∈ ones k (c :: s) ↔ (c = '1' ∧ n = k) ∨ n ∈ ones (k + 1) s := by
      rw [ones_cons]
      split <;> simp_all
    rw [hcons, ih]
    constructor
    · rintro (⟨rfl, rfl⟩ | ⟨p, hp, rfl⟩)
      · exact ⟨0, rfl, rfl⟩
      · exact ⟨p + 1, hp, by omega⟩
    · rintro ⟨p, hp, rfl⟩
      cases p with
      | zero => exact .inl ⟨by simpa using hp, rfl⟩
      | succ p => exact .inr ⟨p, hp, by omega⟩

theorem pairwise_ones : (ones k s).Pairwise (· < ·) := by
  induction s generalizing k with
  | nil => exact .nil
  | cons c s ih =>
    rw [ones_cons]
    split
    · refine .cons (fun n hn => ?_) ih
      obtain ⟨p, -, rfl⟩ := mem_ones.mp hn
      omega
    · exact ih

theorem ones_succ : ones (k + 1) s = (ones k s).map (· + 1) := by
  induction s generalizing k with
  | nil => rfl
  | cons c s ih =>
    rw [ones_cons, ones_cons, ih]
    split <;> rfl

/-- The text has a one for every band. -/
def Marks (s : Str) (bands : List ℕ) : Prop := ∀ p, s[p]? = some '1' ↔ p + 1 ∈ bands

theorem Marks.mem_ones (h : Marks s bands) (hb : ∀ b ∈ bands, 1 ≤ b ∧ b ≤ 128) :
    n ∈ ones 1 s ↔ n ∈ bands := by
  rw [BandMask.mem_ones]
  constructor
  · rintro ⟨p, hp, rfl⟩
    rw [Nat.add_comm]
    exact (h p).mp hp
  · intro hmem
    have := hb n hmem
    refine ⟨n - 1, (h _).mpr ?_, by omega⟩
    rwa [Nat.sub_add_cancel this.1]

theorem Marks.ones_eq (h : Marks s bands) (hb : ∀ b ∈ bands, 1 ≤ b ∧ b ≤ 128) :
    ones 1 s = (range 129).filter fun b => b ∈ bands := by
  refine pairwise_ones.eq_of_mem_iff (pairwise_lt_range.filter _) fun n => ?_
  rw [h.mem_ones hb, mem_filter, mem_range, decide_eq_true_iff]
  exact ⟨fun hn => ⟨Nat.lt_succ_of_le (hb n hn).2, hn⟩, And.right⟩

theorem testBit_encode (h : Marks s bands) (hb : ∀ b ∈ bands, 1 ≤ b ∧ b ≤ 128) :
    (number (encode s)).testBit p = true ↔ p + 1 ∈ bands := by
  have hones : ∀ b ∈ ones 1 s, 1 ≤ b ∧ b ≤ 128 := fun b hmem => hb b ((h.mem_ones hb).mp hmem)
  rw [encode, number_dropWhile, (encodemask_of_nodup hones pairwise_ones.nodup).2 p,
    h.mem_ones hb]

theorem Marks.bits_encode (h : Marks s bands) (hb : ∀ b ∈ bands, 1 ≤ b ∧ b ≤ 128) :
    Marks (bits (encode s)) bands := fun _ =>
  (getElem?_bits isHex_encode).trans (testBit_encode h hb)

theorem intercalate_ne_nil {sep : Str} {texts : List Str} (hne : texts ≠ [])
    (h : ∀ t ∈ texts, t ≠ []) : sep.intercalate texts ≠ [] := by
  obtain ⟨t, texts, rfl⟩ := exists_cons_of_ne_nil hne
  have ht := h t mem_cons_self
  cases texts <;> simp [intercalate, ht]

/-- What a string of bits is locked with. -/
theorem lock_eq {tdec mod : ℕ} {name : ℕ → Str} (h : Marks s bands)
    (hb : ∀ b ∈ bands, 1 ≤ b ∧ b ≤ 128)
    (hname : ∀ ii, ii + 1 ∈ bands → name (ii + 1) = dec (if tdec = 1 then
      ii + (if mod = 1 ∨ mod = 2 then 1 else 101) else if ii < 9 then ii + 501 else ii + 5001)) :
    fibdecode (encode s) tdec mod = names (if mod = 1 then ':' else ',') name bands := by
  replace h := h.bits_encode hb
  have hmap : ((range 129).filter fun b => b ∈ bands).map name =
      (ones 0 (bits (encode s))).map fun ii => dec (if tdec = 1 then
        ii + (if mod = 1 ∨ mod = 2 then 1 else 101)
        else if ii < 9 then ii + 501 else ii + 5001) := by
    rw [← h.ones_eq hb, ones_succ, map_map]
    refine map_congr_left fun ii hii => hname ii ?_
    obtain ⟨p, hp, rfl⟩ := mem_ones.mp hii
    rw [Nat.zero_add]
    exact (h p).mp hp
  rw [fibdecode, names, hmap]
  by_cases hnil : bands = []
  · have hones : ones 0 (bits (encode s)) = [] := eq_nil_iff_forall_not_mem.mpr fun ii hii => by
      obtain ⟨p, hp, -⟩ := mem_ones.mp hii
      exact not_mem_nil (hnil ▸ (h p).mp hp)
    rw [if_pos hnil, hones]
    rfl
  · rw [if_neg hnil]
    refine if_neg (intercalate_ne_nil ?_ fun t ht => ?_)
    · obtain ⟨b, hmem⟩ := exists_mem_of_ne_nil bands hnil
      have hone := (h (b - 1)).mpr (by rwa [Nat.sub_add_cancel (hb b hmem).1])
      exact ne_nil_of_mem (mem_map_of_mem (mem_ones.mpr ⟨b - 1, hone, rfl⟩))
    · obtain ⟨ii, -, rfl⟩ := mem_map.mp ht
      exact dec_ne_nil

theorem number_or_zero : number (if s = [] then ['0'] else s) = number s := by
  split
  · next h => rw [h]; rfl
  · rfl

theorem notMem_bits : ',' ∉ bits s := by
  intro h
  obtain ⟨c, -, hc⟩ := mem_flatMap.mp h
  have hbinary : ',' ∉ binary (xdigit c) := by
    unfold binary
    split
    · decide
    · intro hc
      obtain ⟨d, hd, heq⟩ := mem_map.mp hc
      have hlt := Nat.digits_lt_base Nat.one_lt_two (mem_reverse.mp hd)
      interval_cases d <;> cases heq
  rw [mem_reverse, leftpad, mem_append] at hc
  exact hc.elim (fun hc => absurd (eq_of_mem_replicate hc) (by decide)) hbinary

theorem takeWhile_reverse {u : Str} (hu : u ⊆ reverse s) : u.takeWhile (· ≠ ',') = u := by
  refine takeWhile_eq_self_iff.mpr fun c hc => decide_eq_true ?_
  rintro rfl
  rcases mem_append.mp (hu hc) with hc | hc
  · exact notMem_bits hc
  · exact absurd (eq_of_mem_replicate hc) (by decide)

theorem reverse_iff (ht : IsHex (t.drop 2)) :
    (reverse t)[p]? = some '1' ↔ (number (t.drop 2)).testBit p = true :=
  getElem?_padded.trans (getElem?_bits ht)

/-- `encodemask` passes over what is no band. -/
theorem encodemask_filter : encodemask (bands.filter (· ≤ 128)) = encodemask bands := by
  have hfold : ∀ mtab, (bands.filter (· ≤ 128)).foldl addBand mtab = bands.foldl addBand mtab := by
    intro mtab
    rw [foldl_filter]
    congr with mtab band
    by_cases hband : band ≤ 128 <;> simp [addBand, hband]
  simp only [encodemask, hfold]

/-- What is locked is what the page shows: the string of bits that `encode` was given, as far as the
digits go. -/
theorem reverse_encode (s : Str) (p : ℕ) :
    (reverse ('0' :: 'x' :: encode s))[p]? = some '1' ↔ p < 128 ∧ s[p]? = some '1' := by
  have hb : ∀ b ∈ (ones 1 s).filter (· ≤ 128), 1 ≤ b ∧ b ≤ 128 := by
    intro b hmem
    obtain ⟨hmem, hle⟩ := mem_filter.mp hmem
    obtain ⟨p, -, rfl⟩ := mem_ones.mp hmem
    exact ⟨Nat.le_add_right 1 p, of_decide_eq_true hle⟩
  refine (reverse_iff (t := '0' :: 'x' :: encode s) isHex_encode).trans ?_
  rw [drop_succ_cons, drop_succ_cons, drop_zero, encode, number_dropWhile, ← encodemask_filter,
    (encodemask_of_nodup hb (pairwise_ones.nodup.filter _)).2 p, mem_filter, decide_eq_true_iff,
    mem_ones]
  constructor
  · rintro ⟨⟨q, hq, heq⟩, hle⟩
    obtain rfl : p = q := by omega
    exact ⟨hle, hq⟩
  · rintro ⟨hlt, hp⟩
    exact ⟨⟨p, hp, Nat.add_comm p 1⟩, hlt⟩

theorem number_mask64 (h : Marks (reverse s) bands) (hb : ∀ b ∈ bands, 1 ≤ b ∧ b ≤ 128)
    (ht : ∀ p, (number t).testBit p = true ↔ p + 1 ∈ bands) :
    number (mask64 (reverse s)) = number t % 2 ^ 64 := by
  have hlow : Marks ((reverse s).take 64) (bands.filter (· ≤ 64)) := fun p => by
    rw [getElem?_take, mem_filter, decide_eq_true_iff]
    by_cases hp : p < 64
    · rw [if_pos hp, h p]
      exact (and_iff_left (by omega)).symm
    · rw [if_neg hp]
      exact iff_of_false nofun fun h => absurd h.2 (by omega)
  rw [mask64, takeWhile_reverse (take_subset _ _)]
  refine number_or_zero.trans (Nat.eq_of_testBit_eq fun p => Bool.eq_iff_iff.mpr ?_)
  rw [testBit_encode hlow fun b hmem => hb b (mem_of_mem_filter hmem), Nat.testBit_mod_two_pow,
    Bool.and_eq_true, ht, mem_filter, decide_eq_true_iff, decide_eq_true_iff]
  exact and_comm.trans (and_congr_left' (by omega))

theorem number_maskl2 (h : Marks (reverse s) bands) (hb : ∀ b ∈ bands, 1 ≤ b ∧ b ≤ 128)
    (ht : ∀ p, (number t).testBit p = true ↔ p + 1 ∈ bands) :
    number (maskl2 (reverse s)) = number t / 2 ^ 64 := by
  have hmem : ∀ p, p + 1 ∈ (bands.filter (64 < ·)).map (· - 64) ↔ 64 + p + 1 ∈ bands := fun p => by
    rw [mem_map]
    constructor
    · rintro ⟨b, hmem, heq⟩
      obtain ⟨hmem, hlt⟩ := mem_filter.mp hmem
      have hlt := of_decide_eq_true hlt
      rwa [show 64 + p + 1 = b by omega]
    · exact fun hmem => ⟨_, mem_filter.mpr ⟨hmem, decide_eq_true (by omega)⟩, by omega⟩
  have hrest : Marks ((reverse s).drop 64) ((bands.filter (64 < ·)).map (· - 64)) := fun p => by
    rw [getElem?_drop, h, hmem]
  have hbrest : ∀ b ∈ (bands.filter (64 < ·)).map (· - 64), 1 ≤ b ∧ b ≤ 128 := by
    intro b' hb'
    obtain ⟨b, hmem, rfl⟩ := mem_map.mp hb'
    obtain ⟨hmem, hlt⟩ := mem_filter.mp hmem
    have := hb b hmem
    have := of_decide_eq_true hlt
    constructor <;> omega
  rw [maskl2, takeWhile_reverse (drop_subset _ _)]
  refine number_or_zero.trans (Nat.eq_of_testBit_eq fun p => Bool.eq_iff_iff.mpr ?_)
  rw [testBit_encode hrest hbrest, Nat.testBit_div_two_pow, ht, hmem, Nat.add_comm p]

theorem takeWhile_take {u : Str} :
    ((u ++ ',' :: t).take n).takeWhile Char.isDigit = (u.take n).takeWhile Char.isDigit := by
  induction u generalizing n with
  | nil => cases n <;> rfl
  | cons c u ih =>
    cases n with
    | zero => rfl
    | succ n =>
      rw [cons_append, take_succ_cons, take_succ_cons, takeWhile_cons, takeWhile_cons, ih]

/-- A match does not reach over a comma. -/
theorem matched_append {fixed u : Str} {lo hi : ℕ} (hfixed : ',' ∉ fixed) :
    matched fixed lo hi (u ++ ',' :: t) = matched fixed lo hi u := by
  have hiff : fixed <+: u ++ ',' :: t ↔ fixed <+: u := by
    refine ⟨fun h => ?_, fun h => h.trans (List.prefix_append _ _)⟩
    rcases prefix_or_prefix_of_prefix h (List.prefix_append u _) with h' | ⟨v, rfl⟩
    · exact h'
    · cases v with
      | nil => rw [append_nil]
      | cons c v =>
        obtain ⟨w, hw⟩ := h
        rw [append_assoc] at hw
        obtain ⟨rfl, -⟩ := cons.inj (append_cancel_left hw)
        exact absurd (mem_append_right _ mem_cons_self) hfixed
  simp only [matched, isPrefixOf_iff_prefix, hiff]
  by_cases h : fixed <+: u
  · rw [drop_append_of_le_length h.length_le, takeWhile_take]
  · simp [h]

theorem matched_le {fixed u : Str} {lo hi : ℕ} : matched fixed lo hi u ≤ u.length := by
  rw [matched]
  split
  · next h =>
    have hle := (List.isPrefixOf_iff_prefix.mp h.1).length_le
    have htake := (takeWhile_sublist (l := (u.drop fixed.length).take hi) Char.isDigit).length_le
    rw [length_take, length_drop] at htake
    omega
  · exact Nat.zero_le _

theorem grepO_append {fixed u : Str} {lo hi : ℕ} (hfixed : ',' ∉ fixed)
    (hk : k ≤ u.length) :
    grepO fixed lo hi k (u ++ ',' :: t) = grepO fixed lo hi k u ++ grepO fixed lo hi 0 t := by
  induction u generalizing k with
  | nil =>
    obtain rfl := Nat.le_zero.mp hk
    have hcomma : matched fixed lo hi (',' :: t) = 0 := by
      rw [← nil_append (',' :: t), matched_append hfixed]
      exact Nat.le_zero.mp matched_le
    rw [nil_append, grepO]
    simp [hcomma, grepO]
  | cons c u ih =>
    cases k with
    | succ k => exact ih (Nat.le_of_succ_le_succ hk)
    | zero =>
      have heq : matched fixed lo hi (c :: u ++ ',' :: t) = matched fixed lo hi (c :: u) :=
        matched_append hfixed
      have hle : matched fixed lo hi (c :: u) ≤ (c :: u).length := matched_le
      rw [cons_append] at heq ⊢
      rw [grepO, grepO, heq]
      split
      · exact ih (Nat.zero_le _)
      · rw [ih (by rw [length_cons] at hle; omega), cons_append]
        exact congrArg (· :: _) (take_append_of_le_length hle)

theorem finds_lteBands : Finds lteBands where
  append u t := by
    rw [lteBands, grepO_append (by decide) (Nat.zero_le _), map_append]
    rfl
  fixed := by decide

theorem finds_nrBands : Finds nrBands where
  append u t := by
    rw [nrBands, grepO_append (by decide) (Nat.zero_le _), map_append]
    rfl
  fixed := by decide

theorem lteBands_text : (c : Code) → c.Valid →
    lteBands c.text = (c.lteBand.filter (· ≤ 99)).toList
  | .lte b, h => by
    have : ∀ b < 129, lteBands (Code.lte b).text = if b ≤ 99 then [b] else [] := by decide
    rw [this b (Nat.lt_succ_of_le h.2), Code.lteBand, Option.filter_some]
    split <;> simp_all
  | .nr b, h => by
    have : ∀ b < 100, 1 ≤ b → lteBands (Code.nr b).text = [] := by decide
    exact this b (Nat.lt_succ_of_le h.2) h.1

theorem nrBands_text : (c : Code) → c.Valid → nrBands c.text = c.nrBand.toList
  | .lte b, h => by
    have : ∀ b < 129, nrBands (Code.lte b).text = [] := by decide
    exact this b (Nat.lt_succ_of_le h.2)
  | .nr b, h => by
    have : ∀ b < 100, 1 ≤ b → nrBands (Code.nr b).text = [b] := by decide
    exact this b (Nat.lt_succ_of_le h.2) h.1

theorem Finds.reply (hf : Finds f) (codes : List Code) :
    f (reply codes) = codes.flatMap fun c => f c.text := by
  induction codes with
  | nil => exact hf.fixed [] (by simp)
  | cons c codes ih =>
    have hcons : BandMask.reply (c :: codes) = c.text ++ ',' :: BandMask.reply codes := by
      simp [BandMask.reply]
    rw [hcons, hf.append, ih]
    rfl

theorem lteBands_reply {codes : List Code} (h : ∀ c ∈ codes, c.Valid) :
    lteBands (reply codes) = (codes.filterMap Code.lteBand).filter (· ≤ 99) := by
  rw [finds_lteBands.reply, flatMap_congr fun c hc => lteBands_text c (h c hc),
    ← filterMap_eq_flatMap_toList, filter_filterMap]

theorem nrBands_reply {codes : List Code} (h : ∀ c ∈ codes, c.Valid) :
    nrBands (reply codes) = codes.filterMap Code.nrBand := by
  rw [finds_nrBands.reply, flatMap_congr fun c hc => nrBands_text c (h c hc),
    ← filterMap_eq_flatMap_toList]

theorem Report.bands_bounds {r : Report} (h : r.Valid) : ∀ b ∈ r.bands, 1 ≤ b ∧ b ≤ 128 := by
  cases r with
  | quectel | t77 => exact h
  | lte codes =>
    intro b hb
    obtain ⟨c, hc, hcb⟩ := mem_filterMap.mp hb
    cases c <;> cases hcb
    exact h _ hc
  | nr codes support =>
    intro b hb
    obtain ⟨c, hc, hcb⟩ := mem_filterMap.mp hb
    cases c <;> cases hcb
    exact ⟨(h _ hc).1, (h _ hc).2.trans (by decide)⟩

theorem marks_encodemask (hb : ∀ b ∈ bands, 1 ≤ b ∧ b ≤ 128) (hnodup : bands.Nodup)
    (ht : t.drop 2 = encodemask bands) : Marks (reverse t) bands := fun p => by
  rw [reverse_iff (by rw [ht]; exact isHex_encodemask), ht]
  exact (encodemask_of_nodup hb hnodup).2 p

theorem marks_nil (ht : t.drop 2 = ['0'] ∨ t.drop 2 = []) : Marks (reverse t) [] := fun p => by
  have hnumber : number (t.drop 2) = 0 := by
    rcases ht with ht | ht <;> rw [ht] <;> rfl
  have hhex : IsHex (t.drop 2) := by
    rcases ht with ht | ht <;> rw [ht]
    · intro c hc
      exact ⟨0, by decide, mem_singleton.mp hc⟩
    · exact fun _ => nofun
  rw [reverse_iff hhex, hnumber, Nat.zero_testBit]
  exact iff_of_false nofun not_mem_nil

/-- The bands up to the limit come through. -/
theorem Report.marks {r : Report} (h : r.Valid) (hnodup : r.bands.Nodup) :
    Marks (BandMask.reverse r.stored) (r.bands.filter (· ≤ r.limit)) := by
  have hb := bands_bounds h
  cases r with
  | quectel bands =>
    intro p
    have hb' : ∀ b ∈ bands, 1 ≤ b ∧ b ≤ 128 := hb
    obtain ⟨hlen, htest⟩ := encodemask_of_nodup hb' hnodup
    refine (reverse_iff isHex_encodemask.drop).trans ?_
    rw [number_drop isHex_encodemask, hlen, show 16 ^ (32 - 2) = 2 ^ 120 from rfl,
      Nat.testBit_mod_two_pow, Bool.and_eq_true, htest, mem_filter, decide_eq_true_iff,
      decide_eq_true_iff]
    exact and_comm
  | t77 bands =>
    rw [show (t77 bands).limit = 128 from rfl,
      filter_eq_self.mpr fun b hmem => decide_eq_true (hb b hmem).2]
    exact marks_encodemask hb hnodup rfl
  | lte codes =>
    have hmsk := lteBands_reply h
    by_cases hnil : lteBands (reply codes) = []
    · rw [bands, limit, ← hmsk, hnil]
      exact marks_nil (.inl (by rw [stored, if_pos hnil]; rfl))
    · rw [bands, limit, ← hmsk]
      refine marks_encodemask ?_ ?_ (by rw [stored, if_neg hnil]; rfl)
      · rw [hmsk]
        exact fun b hmem => hb b (mem_of_mem_filter hmem)
      · rw [hmsk]
        exact hnodup.filter _
  | nr codes support =>
    have hmsk := nrBands_reply h
    rw [filter_eq_self.mpr fun b hmem => by
      obtain ⟨c, hc, hcb⟩ := mem_filterMap.mp hmem
      cases c <;> cases hcb
      exact decide_eq_true (h _ hc).2]
    by_cases hnil : nrBands (reply codes) = []
    · rw [bands, ← hmsk, hnil]
      refine marks_nil ?_
      rw [stored, if_pos hnil]
      cases support
      · exact .inr rfl
      · exact .inl rfl
    · exact marks_encodemask hb hnodup (by rw [stored, if_neg hnil, hmsk]; rfl)

theorem nr_name : ∀ ii < 99, (Code.nr (ii + 1)).text =
    dec (if ii < 9 then ii + 501 else ii + 5001) := by
  decide

theorem Finds.names (hf : Finds f) :
    f (names ',' name bands) = ((range 129).filter fun b => b ∈ bands).flatMap (f ∘ name) := by
  have hjoin : ∀ texts : List Str, f ([','].intercalate texts) = texts.flatMap f := by
    intro texts
    induction texts with
    | nil => exact hf.fixed _ (by simp)
    | cons u texts ih =>
      cases texts with
      | nil => simp
      | cons v texts =>
        rw [intercalate_cons_cons, append_assoc, singleton_append, hf.append, ih]
        rfl
  rw [BandMask.names]
  split
  · next hnil =>
    rw [hnil, filter_eq_nil_iff.mpr (by simp)]
    exact hf.fixed _ (by simp)
  · rw [hjoin, flatMap_map]
    rfl

theorem marks_ones : Marks s (ones 1 s) := by
  intro p
  rw [mem_ones]
  constructor
  · exact fun h => ⟨p, h, Nat.add_comm p 1⟩
  · rintro ⟨q, hq, heq⟩
    rwa [show p = q by omega]

theorem bounds_ones (h : ∀ b ∈ ones 1 s, b ≤ 99) : ∀ b ∈ ones 1 s, 1 ≤ b ∧ b ≤ 128 := by
  intro b hmem
  obtain ⟨p, -, rfl⟩ := mem_ones.mp hmem
  have := h _ hmem
  omega

theorem ones_of_encode_nil (h : ∀ b ∈ ones 1 s, b ≤ 99) (hnil : encode s = []) : ones 1 s = [] := by
  refine eq_nil_iff_forall_not_mem.mpr fun b hmem => ?_
  have hpos := (bounds_ones h b hmem).1
  have hbit := (testBit_encode (p := b - 1) marks_ones (bounds_ones h)).mpr
    (by rwa [Nat.sub_add_cancel hpos])
  simp [hnil, number] at hbit

theorem Finds.fibdecode (hf : Finds f) {tdec : ℕ} (h : ∀ b ∈ ones 1 s, b ≤ 99)
    (hname : ∀ ii, ii + 1 ∈ ones 1 s → name (ii + 1) = dec (if tdec = 1 then ii + 101 else
      if ii < 9 then ii + 501 else ii + 5001)) :
    f (fibdecode (encode s) tdec 0 ++ ',' :: t) = (ones 1 s).flatMap (f ∘ name) ++ f t := by
  rw [lock_eq marks_ones (bounds_ones h) hname, if_neg (by decide), hf.append, hf.names,
    ← marks_ones.ones_eq (bounds_ones h)]

theorem Finds.gtactReply (hf : Finds f) {s5 : Str} (h : ∀ b ∈ ones 1 s, b ≤ 99)
    (h5 : ∀ b ∈ ones 1 s5, b ≤ 99) :
    f (gtactReply (gtact (encode s) (encode s5))) =
      (ones 1 s).flatMap (fun b => f (Code.lte b).text) ++
        (ones 1 s5).flatMap (fun b => f (Code.nr b).text) := by
  have hempty : f [] = [] := hf.fixed _ (by simp)
  have hlte : ∀ t, f ((if encode s = [] then [] else ',' :: BandMask.fibdecode (encode s) 1 0) ++
      ',' :: t) = (ones 1 s).flatMap (fun b => f (Code.lte b).text) ++ f t := by
    intro t
    split
    · next hnil =>
      rw [ones_of_encode_nil h hnil, hf.append, hempty]
      rfl
    · rw [cons_append, ← nil_append (',' :: _), hf.append, hempty, nil_append]
      exact hf.fibdecode h fun ii _ => congrArg dec (show 100 + (ii + 1) = ii + 101 by omega)
  have hend : f [',', 'O', 'K', ','] = [] := by
    refine (hf.append [] (['O', 'K'] ++ [','])).trans ?_
    rw [hempty, hf.append, hempty, hf.fixed _ (by simp)]
    rfl
  have hhead : ∀ u v t, f u = [] → f v = [] →
      f (['+', 'G', 'T', 'A', 'C', 'T', ':'] ++ ',' :: (u ++ ',' :: (v ++ ',' :: t))) = f t := by
    intro u v t hu hv
    rw [hf.append, hf.append, hf.append, hf.fixed _ (by simp), hu, hv]
    rfl
  by_cases hnil : encode s5 = []
  · rw [BandMask.gtactReply, gtact, if_pos hnil, append_assoc, append_assoc,
      ones_of_encode_nil h5 hnil, flatMap_nil]
    refine (hhead ['4'] ['3'] _ (hf.fixed _ (by simp)) (hf.fixed _ (by simp))).trans ?_
    exact (hlte _).trans (by rw [hend])
  · have hlst : f (BandMask.fibdecode (encode s5) 5 0 ++ [',', ',', 'O', 'K', ',']) =
        (ones 1 s5).flatMap (fun b => f (Code.nr b).text) ++ f [',', 'O', 'K', ','] :=
      hf.fibdecode h5 fun ii hii => nr_name ii (h5 _ hii)
    rw [BandMask.gtactReply, gtact, if_neg hnil, append_assoc, append_assoc, append_assoc]
    refine (hhead ['1', '7'] ['6'] _ (hf.fixed _ (by simp)) (hf.fixed _ (by simp))).trans ?_
    exact (hlte _).trans (congrArg _ (hlst.trans (by rw [hend, append_nil])))

/-- What `lock.sh` sets for bands up to 99 is what `bandmask` reads when the modem reports the
setting. -/
theorem reads_back (s s5 : Str) (h : ∀ b ∈ ones 1 s, b ≤ 99) (h5 : ∀ b ∈ ones 1 s5, b ≤ 99) :
    lteBands (gtactReply (gtact (encode s) (encode s5))) = ones 1 s ∧
      nrBands (gtactReply (gtact (encode s) (encode s5))) = ones 1 s5 := by
  have hvalid : ∀ {s : Str}, (∀ b ∈ ones 1 s, b ≤ 99) → ∀ b ∈ ones 1 s,
      (Code.lte b).Valid ∧ (Code.nr b).Valid := fun h b hmem =>
    ⟨bounds_ones h b hmem, (bounds_ones h b hmem).1, h b hmem⟩
  rw [finds_lteBands.gtactReply h h5, finds_nrBands.gtactReply h h5,
    flatMap_congr fun b hmem => lteBands_text _ (hvalid h b hmem).1,
    flatMap_congr fun b hmem => lteBands_text _ (hvalid h5 b hmem).2,
    flatMap_congr fun b hmem => nrBands_text _ (hvalid h b hmem).1,
    flatMap_congr fun b hmem => nrBands_text _ (hvalid h5 b hmem).2]
  have hlte : (ones 1 s).flatMap (fun b => ((Code.lte b).lteBand.filter (· ≤ 99)).toList) =
      ones 1 s := by
    refine (flatMap_congr fun b hmem => ?_).trans (flatMap_singleton' _)
    rw [Code.lteBand, Option.filter_some_pos (by simpa using h b hmem), Option.toList_some]
  constructor
  · rw [hlte]
    simp [Code.lteBand]
  · simp [Code.nrBand]

theorem reads_back_three :
    lteBands (gtactReply (gtact (encode ['0', '0', '1']) (encode ['1']))) =
        ones 1 ['0', '0', '1'] ∧
      nrBands (gtactReply (gtact (encode ['0', '0', '1']) (encode ['1']))) = ones 1 ['1'] :=
  reads_back _ _ (by decide) (by decide)

/-- The conversions agree just when no band is reported twice and none is above the limit. -/
theorem agrees_iff (r : Report) (h : r.Valid) :
    Agrees r ↔ r.bands.Nodup ∧ ∀ b ∈ r.bands, b ≤ r.limit := by
  have hb := Report.bands_bounds h
  constructor
  · intro ha
    have hnodup := nodup_of_encodemask hb ha.length ha.number
    refine ⟨hnodup, fun b hmem => ?_⟩
    have hread := (Report.marks h hnodup (b - 1)).mp ((ha.reverse (b - 1)).mpr (by
      rwa [Nat.sub_add_cancel (hb b hmem).1]))
    rw [Nat.sub_add_cancel (hb b hmem).1] at hread
    exact of_decide_eq_true (mem_filter.mp hread).2
  · rintro ⟨hnodup, hlimit⟩
    have hmarks := Report.marks h hnodup
    rw [filter_eq_self.mpr fun b hmem => decide_eq_true (hlimit b hmem)] at hmarks
    obtain ⟨hlen, htest⟩ := encodemask_of_nodup hb hnodup
    refine ⟨hlen, htest, hmarks, lock_eq hmarks hb fun _ _ => rfl, lock_eq hmarks hb fun _ _ => rfl,
      fun codes hr => lock_eq hmarks hb fun ii _ => ?_, fun codes support hr =>
        lock_eq hmarks hb fun ii hii => ?_, number_mask64 hmarks hb htest,
      number_maskl2 hmarks hb htest⟩
    · exact congrArg dec (show 100 + (ii + 1) = ii + 101 by omega)
    · subst hr
      exact nr_name ii (hlimit _ hii)

theorem agrees_reports : Agrees (.lte [.lte 3, .nr 78, .lte 20]) :=
  (agrees_iff _ (by simp [Report.Valid, Code.Valid])).mpr ⟨by decide, by decide⟩

/-- Band 125 of a list of `AT+QNWPREFCFG` is lost. -/
theorem not_agrees : ¬∀ r : Report, r.Valid → Agrees r := by
  intro h
  have hlost := (h (.quectel [125]) (by simp [Report.Valid])).reverse 124
  exact absurd (hlost.mpr (by decide)) (by decide)

end ModemSupport.Rooter.BandMask
