import ModemSupport.Rooter.SmsDecode
import ModemSupport.Rooter.SmsFileMerge
import Mathlib.Data.Nat.Bitwise
import Mathlib.Data.Nat.Digits.Defs

/-! What `pdu2text` and `pdu2binary` of `smsread.lua` make of the octets of a text. -/

namespace ModemSupport.Rooter.SmsRead

open Lib.Text SmsFile List Option

variable {x y k n i j limit z : Nat} {s t rest : Str}

theorem hasbit_two_pow : hasbit x (2 ^ k) = x.testBit k := by
  have hsum : 2 ^ k + 2 ^ k = 2 ^ (k + 1) := by omega
  have hlt := Nat.mod_lt x (Nat.two_pow_pos k)
  rw [hasbit, hsum, Nat.mod_pow_succ, ← Nat.toNat_testBit]
  cases x.testBit k with
  | false => simpa using hlt
  | true => simp

theorem bitLoop_eq (op : Bool → Bool → Bool) (hop : op false false = false) (hx : x ≤ limit)
    (hy : y ≤ limit) (hz : z = Nat.bitwise op x y % 2 ^ k) :
    bitLoop op x y limit (2 ^ k) z = Nat.bitwise op x y := by
  induction hd : limit + 1 - 2 ^ k using Nat.strong_induction_on generalizing k z with
  | _ d ih =>
    have hpos := Nat.two_pow_pos k
    rw [bitLoop]
    split
    case isTrue hle =>
      have hsum : 2 ^ k + 2 ^ k = 2 ^ (k + 1) := by omega
      rw [hsum]
      refine ih _ (by omega) ?_ rfl
      rw [Nat.mod_pow_succ, ← Nat.toNat_testBit, Nat.testBit_bitwise hop, hasbit_two_pow,
        hasbit_two_pow, hz]
      split
      case isTrue h => simp [h]
      case isFalse h => simp [h]
    case isFalse hle =>
      rw [hz, Nat.mod_eq_of_lt]
      exact Nat.bitwise_lt_two_pow (by omega) (by omega)

theorem bitand_eq : bitand x y = x &&& y := by
  have hle : x ≤ (if x > y then x else y) ∧ y ≤ (if x > y then x else y) := by
    split <;> omega
  exact bitLoop_eq (k := 0) and rfl hle.1 hle.2 (Nat.mod_one _).symm

theorem bitor_eq : bitor x y = x ||| y := by
  have hle : x ≤ (if x > y then x else y) ∧ y ≤ (if x > y then x else y) := by
    split <;> omega
  exact bitLoop_eq (k := 0) or rfl hle.1 hle.2 (Nat.mod_one _).symm

theorem bitand_two_pow_sub_one : bitand x (2 ^ k - 1) = x % 2 ^ k := by
  rw [bitand_eq, Nat.and_two_pow_sub_one_eq_mod]

theorem bitright_bitand : bitright (bitand x ((2 ^ k - 1) * 2 ^ i)) i = x / 2 ^ i % 2 ^ k := by
  rw [bitright, bitand_eq, ← Nat.shiftRight_eq_div_pow, ← Nat.shiftRight_eq_div_pow,
    Nat.shiftRight_and_distrib, Nat.shiftRight_eq_div_pow (_ * _), Nat.mul_div_cancel _
      (Nat.two_pow_pos i), Nat.and_two_pow_sub_one_eq_mod]

theorem bitor_mul (h : y < 2 ^ k) : bitor (2 ^ k * x) y = 2 ^ k * x + y := by
  rw [bitor_eq, Nat.two_pow_add_eq_or_of_lt h]

theorem formatX_of_lt (hk : 0 < k) (h : n < 16 ^ k) :
    formatX k n = (List.range k).map fun j => hexDigit (n / 16 ^ (k - 1 - j) % 16) := by
  have hlen := (Nat.length_toDigits_le_iff (b := 16) (by decide) hk).mpr h
  rw [formatX, max_eq_left hlen]

theorem formatX_two (h : n < 256) : formatX 2 n = [hexDigit (n / 16), hexDigit (n % 16)] := by
  have hdiv : n / 16 % 16 = n / 16 := Nat.mod_eq_of_lt (by omega)
  rw [formatX_of_lt (by decide) h]
  simp [range_succ, hdiv]

theorem hexDigit_toNat : ∀ a < 16, (hexDigit a).toNat ≠ 0 ∧
    isxdigit (some (hexDigit a).toNat) ≠ 0 ∧ nibble (hexDigit a).toNat = a := by
  decide

theorem octet2binCheck_digits (h : n < 256) :
    octet2binCheck [hexDigit (n / 16), hexDigit (n % 16)] = n := by
  obtain ⟨hnull, hdigit, hhigh⟩ := hexDigit_toNat (n / 16) (by omega)
  obtain ⟨hnull', hdigit', hlow⟩ := hexDigit_toNat (n % 16) (Nat.mod_lt _ (by decide))
  have hfirst : byte [hexDigit (n / 16), hexDigit (n % 16)] 1 =
      some (hexDigit (n / 16)).toNat := rfl
  have hsecond : byte [hexDigit (n / 16), hexDigit (n % 16)] 2 =
      some (hexDigit (n % 16)).toNat := rfl
  have hsum : n / 16 * 16 + n % 16 = n := by omega
  rw [octet2binCheck, hfirst, hsecond, if_neg (mt some.inj hnull),
    if_neg (mt some.inj hnull'), if_neg hdigit, if_neg hdigit', getD_some,
    getD_some, octet2bin, hhigh, hlow, hsum]

theorem octet2binCheck_formatX (h : n < 256) : octet2binCheck (formatX 2 n ++ rest) = n := by
  rw [formatX_two h]
  exact octet2binCheck_digits h

theorem hexDigit_spec : ∀ n < 16, isspace (hexDigit n) = false ∧
    SmsFile.isxdigit (hexDigit n) = true ∧ xdigit (hexDigit n) = n ∧
      hexDigit n ∉ ['x', 'X', '-', '+'] := by
  decide

theorem tonumber16_digits {digits : List Nat} (hne : digits ≠ []) (h : ∀ n ∈ digits, n < 16) :
    tonumber16 (digits.map hexDigit) = some (digits.foldl (fun v n => 16 * v + n) 0) := by
  have hall : ∀ c ∈ digits.map hexDigit, SmsFile.isxdigit c := by
    intro c hc
    obtain ⟨n, hn, rfl⟩ := List.mem_map.mp hc
    exact (hexDigit_spec n (h n hn)).2.1
  have hnone : ∀ c ∈ digits.map hexDigit, c ∉ ['x', 'X', '-', '+'] := by
    intro c hc
    obtain ⟨n, hn, rfl⟩ := List.mem_map.mp hc
    exact (hexDigit_spec n (h n hn)).2.2.2
  have hunsigned : unsigned16 (digits.map hexDigit) =
      some (digits.foldl (fun v n => 16 * v + n) 0) := by
    have hprefix : withoutX (digits.map hexDigit) = digits.map hexDigit := by
      unfold withoutX
      split
      case h_1 x hs heq =>
        refine if_neg fun hx => ?_
        have hmem := hnone x (by rw [heq]; exact mem_cons_of_mem _ mem_cons_self)
        rcases hx.1 with rfl | rfl <;> exact absurd hmem (by decide)
      case h_2 => rfl
    have hvalue : (digits.map hexDigit).foldl (fun n c => 16 * n + xdigit c) 0 =
        digits.foldl (fun v n => 16 * v + n) 0 := by
      rw [foldl_map]
      exact foldl_ext _ _ _ fun v n hn => by rw [(hexDigit_spec n (h n hn)).2.2.1]
    rw [unsigned16, hprefix, takeWhile_eq_self_iff.mpr hall,
      dropWhile_eq_nil_iff.mpr hall, if_pos ⟨by simpa using hne, rfl⟩, hvalue]
  have hspace : (digits.map hexDigit).dropWhile isspace = digits.map hexDigit := by
    cases digits with
    | nil => rfl
    | cons n digits =>
      rw [map_cons, dropWhile_cons_of_neg]
      rw [(hexDigit_spec n (h n mem_cons_self)).1]
      exact Bool.false_ne_true
  rw [tonumber16, hspace]
  split
  case h_1 heq => exact absurd (hnone '-' (by rw [heq]; exact mem_cons_self)) (by decide)
  case h_2 heq => exact absurd (hnone '+' (by rw [heq]; exact mem_cons_self)) (by decide)
  case h_3 => exact hunsigned

theorem tonumber16_formatX (h : n < 256) : tonumber16 (formatX 2 n) = some n := by
  have hdigits := tonumber16_digits (cons_ne_nil (n / 16) [n % 16]) (by
    simp
    omega)
  rw [formatX_two h]
  refine hdigits.trans (congrArg some ?_)
  simp only [foldl_cons, foldl_nil]
  omega

def hexes (octets : List Nat) : Str := octets.flatMap (formatX 2)

theorem length_hexes {octets : List Nat} (h : ∀ a ∈ octets, a < 256) :
    (hexes octets).length = 2 * octets.length := by
  induction octets with
  | nil => rfl
  | cons a octets ih =>
    obtain ⟨ha, hrest⟩ := forall_mem_cons.mp h
    rw [hexes, flatMap_cons, ← hexes, length_append, formatX_two ha, ih hrest,
      length_cons]
    simp only [length_cons, length_nil]
    omega

theorem drop_hexes {octets : List Nat} (h : ∀ a ∈ octets, a < 256) (j : Nat) :
    (hexes octets).drop (2 * j) = hexes (octets.drop j) := by
  induction j generalizing octets with
  | zero => rfl
  | succ j ih =>
    cases octets with
    | nil => simp [hexes]
    | cons a octets =>
      obtain ⟨ha, hrest⟩ := forall_mem_cons.mp h
      rw [drop_succ_cons, ← ih hrest, hexes, flatMap_cons, formatX_two ha]
      rfl

theorem octet2binCheck_hexes {octets : List Nat} (h : ∀ a ∈ octets, a < 256) (hn : n < 256)
    (hj : j < octets.length) :
    octet2binCheck (sub (formatX 2 n ++ hexes octets ++ rest) (j * 2 + 3)) = octets[j] := by
  have hplace : j * 2 + 3 - 1 = 2 + 2 * j := by omega
  have hlen : 2 * j ≤ (hexes octets).length := by
    rw [length_hexes h]
    omega
  rw [sub, hplace, ← drop_drop, append_assoc, formatX_two hn]
  rw [drop_append_of_le_length (by simp)]
  simp only [drop_succ_cons, drop_zero, nil_append]
  rw [drop_append_of_le_length hlen, drop_hexes h, drop_eq_getElem_cons hj, hexes,
    flatMap_cons, append_assoc]
  exact octet2binCheck_formatX (h _ (getElem_mem hj))

theorem getElem_ofDigits {b : Nat} {l : List Nat} (h : ∀ a ∈ l, a < b) (hj : j < l.length) :
    l[j] = Nat.ofDigits b l / b ^ j % b := by
  induction l generalizing j with
  | nil => cases hj
  | cons a l ih =>
    obtain ⟨ha, hl⟩ := forall_mem_cons.mp h
    have hpos : 0 < b := by omega
    cases j with
    | zero => simp [Nat.ofDigits_cons, Nat.mod_eq_of_lt ha]
    | succ j =>
      rw [getElem_cons_succ, ih hl, Nat.ofDigits_cons, Nat.pow_succ, Nat.mul_comm (b ^ j),
        ← Nat.div_div_eq_div_mul, Nat.add_mul_div_left _ _ hpos, Nat.div_eq_of_lt ha, Nat.zero_add]

/-- The octets behind the length are those of `V`. -/
def Reads (pdu : Str) (octets V : Nat) : Prop :=
  ∀ j < octets, octet2binCheck (sub pdu (j * 2 + 3)) = ((V / 256 ^ j % 256 : Nat) : Int)

/-- What has been read in front of bit `p`. -/
def Ready (V p octetcounter binary : Nat) : Prop :=
  if p % 8 = 0 then octetcounter = p / 8
  else octetcounter = p / 8 + 1 ∧ binary = V / 256 ^ (p / 8) % 256

variable {pdu : Str} {octets V p m octetcounter binary c : Nat}

theorem fetch_ready (hreads : Reads pdu octets V) (hready : Ready V p octetcounter binary)
    (hp : p / 8 < octets) :
    fetch pdu octets (p / 8) octetcounter binary = some (p / 8 + 1, V / 256 ^ (p / 8) % 256) := by
  rw [Ready] at hready
  split at hready
  case isTrue h =>
    rw [hready, fetch, if_pos ⟨le_rfl, hp⟩, hreads _ hp]
    simp only
    rw [if_neg (by omega), fetch, if_neg (by omega), Int.toNat_natCast]
  case isFalse h =>
    rw [fetch, if_neg (by omega), hready.1, hready.2]

theorem ready_succ : Ready V (p + 1) (p / 8 + 1) (V / 256 ^ (p / 8) % 256) := by
  rw [Ready]
  split
  case isTrue h => omega
  case isFalse h =>
    have hdiv : (p + 1) / 8 = p / 8 := by omega
    rw [hdiv]
    exact ⟨rfl, rfl⟩

theorem bitand_octet : bitand (V / 256 ^ (p / 8) % 256) (2 ^ (p % 8)) > 0 ↔ V.testBit p := by
  have hpow : 256 ^ (p / 8) = 2 ^ (8 * (p / 8)) := by
    rw [Nat.pow_mul]
  have hbit : (V / 256 ^ (p / 8) % 256).testBit (p % 8) = V.testBit p := by
    have h256 : (256 : Nat) = 2 ^ 8 := rfl
    rw [hpow, h256, Nat.testBit_mod_two_pow, Nat.testBit_div_two_pow, Nat.add_comm,
      Nat.div_add_mod]
    simp [Nat.mod_lt]
  rw [bitand_eq, ← hbit, Nat.and_two_pow]
  cases (V / 256 ^ (p / 8) % 256).testBit (p % 8) <;> simp

theorem shift_bit {b : Bool} (hc : c < 128) :
    bitand ((if b then bitor c 128 else c) / 2) 127 = (c + 128 * b.toNat) / 2 := by
  have hmask : bitand ((if b then bitor c 128 else c) / 2) 127 =
      (if b then bitor c 128 else c) / 2 % 128 := bitand_two_pow_sub_one (k := 7)
  rw [hmask]
  cases b with
  | false =>
    simp only [Bool.false_eq_true, if_false, Bool.toNat_false]
    omega
  | true =>
    have hor : bitor c 128 = 128 + c := by
      have h := bitor_mul (x := 1) (k := 7) hc
      rw [bitor_eq, Nat.or_comm, ← bitor_eq]
      exact h
    simp only [if_true, Bool.toNat_true, hor]
    omega

theorem bitsLoop_ready (hreads : Reads pdu octets V) (hn : m + n = 7)
    (hp : p + 7 ≤ 8 * octets) (hready : Ready V (p + m) octetcounter binary)
    (hc : c = V / 2 ^ p % 2 ^ m * 2 ^ n) :
    ∃ octetcounter' binary', bitsLoop pdu octets n (p + m) c octetcounter binary =
      some (V / 2 ^ p % 128, octetcounter', binary') ∧
        Ready V (p + 7) octetcounter' binary' := by
  induction n generalizing m c octetcounter binary with
  | zero =>
    obtain rfl : m = 7 := hn
    exact ⟨octetcounter, binary, by rw [bitsLoop, hc, Nat.pow_zero, Nat.mul_one]; rfl, hready⟩
  | succ n ih =>
    rw [bitsLoop, fetch_ready hreads hready (by omega)]
    have hlt : c < 128 := by
      have hmod := Nat.mod_lt (V / 2 ^ p) (Nat.two_pow_pos m)
      have hpow : 2 ^ m * 2 ^ (n + 1) = 128 := by
        rw [← Nat.pow_add, hn]
      rw [hc, ← hpow]
      exact Nat.mul_lt_mul_of_pos_right hmod (Nat.two_pow_pos _)
    have hbit : (if bitand (V / 256 ^ ((p + m) / 8) % 256) (2 ^ ((p + m) % 8)) > 0
        then bitor c 128 else c) = if V.testBit (p + m) then bitor c 128 else c := by
      simp only [bitand_octet]
    have hnext : (c + 128 * (V.testBit (p + m)).toNat) / 2 = V / 2 ^ p % 2 ^ (m + 1) * 2 ^ n := by
      have hpow : 128 = 2 ^ m * 2 ^ n * 2 := by
        rw [← Nat.pow_add, ← Nat.pow_succ, Nat.succ_eq_add_one, Nat.add_assoc, hn]
      have hmod : V / 2 ^ p % 2 ^ (m + 1) =
          V / 2 ^ p % 2 ^ m + 2 ^ m * (V.testBit (p + m)).toNat := by
        rw [Nat.mod_pow_succ, ← Nat.toNat_testBit, Nat.testBit_div_two_pow, Nat.add_comm m p]
      rw [hmod, hc, hpow, Nat.pow_succ]
      have hfactor : V / 2 ^ p % 2 ^ m * (2 ^ n * 2) +
          2 ^ m * 2 ^ n * 2 * (V.testBit (p + m)).toNat =
            (V / 2 ^ p % 2 ^ m + 2 ^ m * (V.testBit (p + m)).toNat) * 2 ^ n * 2 := by
        ring
      rw [hfactor, Nat.mul_div_cancel _ Nat.two_pos]
    simp only [bind_eq_bind, bind_some, hbit, shift_bit hlt, Nat.add_assoc p m 1]
    exact ih (by omega) ready_succ hnext

/-- The characters that are added to a text, of which those before `skip` are left out. -/
def addChars (skip : Int) (V : Nat) (ks : List Nat) (r : Str × Decoder) : Str × Decoder :=
  ks.foldl (fun r (k : Nat) => addChar (k < skip) (V / 128 ^ k % 128) r.1 r.2) r

theorem addChars_cons {skip : Int} {ks : List Nat} {r : Str × Decoder} :
    addChars skip V (k :: ks) r =
      addChars skip V ks (addChar (k < skip) (V / 128 ^ k % 128) r.1 r.2) := rfl

theorem charLoop_ready {skip : Int} {mText : Str} {d : Decoder} (hreads : Reads pdu octets V)
    (hn : 7 * (m + n) ≤ 8 * octets) (hready : Ready V (7 * m) octetcounter binary) :
    charLoop pdu octets skip n m octetcounter binary mText d =
      (true, addChars skip V (List.range' m n) (mText, d)) := by
  induction n generalizing m octetcounter binary mText d with
  | zero => rfl
  | succ n ih =>
    have hpow : 128 ^ m = 2 ^ (7 * m) := by
      rw [Nat.pow_mul]
    obtain ⟨octetcounter', binary', hbits, hready'⟩ :=
      bitsLoop_ready (c := 0) (m := 0) (n := 7) (p := 7 * m) hreads rfl (by omega) hready
        (by rw [Nat.pow_zero, Nat.mod_one, Nat.zero_mul])
    rw [Nat.add_zero] at hbits
    rw [charLoop, Nat.mul_comm m 7, hbits]
    simp only
    rw [ih (by omega) hready', List.range'_succ, addChars_cons, hpow]

def addSeptets (septets : List Nat) (r : Str × Decoder) : Str × Decoder :=
  septets.foldl (fun r c => addChar false c r.1 r.2) r

theorem reads_hexes {a : Nat} {octets : List Nat} (h : ∀ a ∈ octets, a < 256) (ha : a < 256) :
    Reads (formatX 2 a ++ hexes octets ++ rest) octets.length (Nat.ofDigits 256 octets) := by
  intro j hj
  rw [octet2binCheck_hexes h ha hj, getElem_ofDigits h hj]

theorem addChars_of_getElem {septets : List Nat} {skip : Int} {start : Nat} {r : Str × Decoder}
    (hskip : skip ≤ start) (h : ∀ i, (hi : i < septets.length) →
      V / 128 ^ (start + i) % 128 = septets[i]) :
    addChars skip V (List.range' start septets.length) r = addSeptets septets r := by
  induction septets generalizing start r with
  | nil => rfl
  | cons c septets ih =>
    have hc : V / 128 ^ start % 128 = c := h 0 (Nat.succ_pos _)
    have hoff : decide ((start : Int) < skip) = false := decide_eq_false (not_lt.mpr hskip)
    rw [length_cons, List.range'_succ, addChars_cons, hc, hoff]
    refine ih (by omega) fun i hi => ?_
    have hi' := h (i + 1) (Nat.succ_lt_succ hi)
    rwa [getElem_cons_succ, ← Nat.add_assoc, Nat.add_right_comm] at hi'

theorem addChars_septets (skip low : Nat) {septets : List Nat} {r : Str × Decoder}
    (h : ∀ c ∈ septets, c < 128) (hlow : low < 128 ^ skip) :
    addChars skip (low + 128 ^ skip * Nat.ofDigits 128 septets)
      (List.range' skip septets.length) r = addSeptets septets r := by
  have hpos : 0 < 128 ^ skip := Nat.pow_pos (by decide)
  refine addChars_of_getElem le_rfl fun i hi => ?_
  rw [Nat.pow_add, ← Nat.div_div_eq_div_mul, Nat.add_mul_div_left _ _ hpos,
    Nat.div_eq_of_lt hlow, Nat.zero_add, getElem_ofDigits h hi]

theorem pdu2text_plain {septets octets : List Nat} (hs : ∀ c ∈ septets, c < 128)
    (ho : ∀ a ∈ octets, a < 256) (hlen : septets.length < 256)
    (hsame : Nat.ofDigits 256 octets = Nat.ofDigits 128 septets)
    (hroom : (septets.length * 7 + 7) / 8 = octets.length) (mConcat : Option Str) (d : Decoder) :
    pdu2text (formatX 2 septets.length ++ hexes octets) 0 mConcat d =
      some (1, ⟨(addSeptets septets ([], d)).1, mConcat, (addSeptets septets ([], d)).2⟩) := by
  have hcount : octet2binCheck (formatX 2 septets.length ++ hexes octets) = septets.length :=
    octet2binCheck_formatX hlen
  have hreads : Reads (formatX 2 septets.length ++ hexes octets ++ []) octets.length
      (Nat.ofDigits 256 octets) := reads_hexes ho hlen
  rw [append_nil, hsame] at hreads
  have hchars := addChars_septets 0 0 (r := ([], d)) hs (by decide)
  rw [Nat.pow_zero, Nat.one_mul, Nat.zero_add, Int.natCast_zero] at hchars
  have hloop : charLoop (formatX 2 septets.length ++ hexes octets) octets.length 0 septets.length 0
      0 0 [] d = (true, addChars 0 _ (List.range' 0 septets.length) ([], d)) :=
    charLoop_ready hreads (by omega) rfl
  rw [hchars] at hloop
  rw [pdu2text, hcount]
  simp only [Int.toNat_natCast, hroom, hloop]
  rw [if_neg (by omega), if_neg (by omega)]
  rfl

def utf8 (c : Char) : Str := (String.utf8EncodeChar c).map fun b => char b.toNat

theorem utf8_eq (c : Char) : utf8 c =
    if c.toNat ≤ 0x7f then [char c.toNat]
    else if c.toNat ≤ 0x7ff then [char (0xC0 + c.toNat / 64 % 32), char (0x80 + c.toNat % 64)]
    else if c.toNat ≤ 0xffff then
      [char (0xE0 + c.toNat / 4096 % 16), char (0x80 + c.toNat / 64 % 64),
        char (0x80 + c.toNat % 64)]
    else
      [char (0xF0 + c.toNat / 262144 % 8), char (0x80 + c.toNat / 4096 % 64),
        char (0x80 + c.toNat / 64 % 64), char (0x80 + c.toNat % 64)] := by
  have hbyte : ∀ n < 256, char (UInt8.ofNat n).toNat = char n := by
    intro n hn
    rw [UInt8.toNat_ofNat', Nat.mod_eq_of_lt hn]
  have hval : c.val.toNat = c.toNat := rfl
  rw [utf8, String.utf8EncodeChar]
  simp only [hval]
  split
  · rw [map_singleton, hbyte _ (by omega)]
  · split
    · simp only [map_cons, map_nil]
      rw [hbyte _ (by omega), hbyte _ (by omega), Nat.add_comm, Nat.add_comm (c.toNat % 64)]
    · split
      · simp only [map_cons, map_nil]
        rw [hbyte _ (by omega), hbyte _ (by omega), hbyte _ (by omega), Nat.add_comm,
          Nat.add_comm (c.toNat / 64 % 64), Nat.add_comm (c.toNat % 64)]
      · simp only [map_cons, map_nil]
        rw [hbyte _ (by omega), hbyte _ (by omega), hbyte _ (by omega), hbyte _ (by omega),
          Nat.add_comm, Nat.add_comm (c.toNat / 4096 % 64), Nat.add_comm (c.toNat / 64 % 64),
          Nat.add_comm (c.toNat % 64)]

theorem bitor_low : bitor 0x80 (bitand x 0x3F) = 0x80 + x % 64 := by
  have hmask : bitand x 0x3F = x % 64 := bitand_two_pow_sub_one (k := 6)
  have hor := bitor_mul (x := 2) (k := 6) (Nat.mod_lt x (by decide) : x % 64 < 2 ^ 6)
  rw [hmask]
  exact hor

theorem bitor_middle (i : Nat) :
    bitor 0x80 (bitright (bitand x (0x3F * 2 ^ i)) i) = 0x80 + x / 2 ^ i % 64 := by
  have hmask : bitright (bitand x (0x3F * 2 ^ i)) i = x / 2 ^ i % 64 := bitright_bitand (k := 6)
  have hor := bitor_mul (x := 2) (k := 6) (Nat.mod_lt (x / 2 ^ i) (by decide) : _ % 64 < 2 ^ 6)
  rw [hmask]
  exact hor

theorem word2utf8_char {c : Char} (hc : c.toNat < 0x10000) (hsep : c.toNat ≠ 0x2029) :
    word2utf8 c.toNat t 0 = (t ++ utf8 c, 0) := by
  have hvalid : c.toNat < 0xD800 ∨ 0xDFFF < c.toNat := by
    have h := c.valid
    simp only [UInt32.isValidChar, Nat.isValidChar] at h
    have hval : c.val.toNat = c.toNat := rfl
    omega
  rw [word2utf8, if_neg (by decide), if_neg (by omega), if_neg (by omega), utf8_eq]
  by_cases h1 : c.toNat < 0x80
  · rw [if_pos h1, if_pos (by omega)]
  · have h1' : ¬ c.toNat ≤ 0x7f := by omega
    rw [if_neg h1, if_neg h1']
    by_cases h2 : c.toNat < 0x800
    · have hhigh : bitor 0xC0 (bitright (bitand c.toNat 0x7C0) 6) = 0xC0 + c.toNat / 64 % 32 := by
        have hmask : bitright (bitand c.toNat 0x7C0) 6 = c.toNat / 64 % 32 :=
          bitright_bitand (k := 5) (i := 6)
        rw [hmask]
        exact bitor_mul (x := 3) (k := 6) (by omega)
      have h2' : c.toNat ≤ 0x7ff := by omega
      rw [if_pos h2, if_pos h2', hhigh, bitor_low]
    · have hhigh : bitor 0xE0 (bitright (bitand c.toNat 0xF000) 12) =
          0xE0 + c.toNat / 4096 % 16 := by
        have hmask : bitright (bitand c.toNat 0xF000) 12 = c.toNat / 4096 % 16 :=
          bitright_bitand (k := 4) (i := 12)
        rw [hmask]
        exact bitor_mul (x := 7) (k := 5) (by omega)
      have h2' : ¬ c.toNat ≤ 0x7ff := by omega
      have h3 : c.toNat ≤ 0xffff := by omega
      rw [if_neg h2, if_neg hsep, if_neg h2', if_pos h3, hhigh, bitor_low]
      exact congrArg (fun x => (t ++ [_, char x, _], 0)) (bitor_middle 6)

theorem word2utf8_pair {c : Char} (hc : 0x10000 ≤ c.toNat) :
    word2utf8 (0xD800 + (c.toNat - 0x10000) / 1024) t 0 =
        (t, 0xD800 + (c.toNat - 0x10000) / 1024) ∧
      word2utf8 (0xDC00 + (c.toNat - 0x10000) % 1024) t
        (0xD800 + (c.toNat - 0x10000) / 1024) = (t ++ utf8 c, 0) := by
  have hvalid : c.toNat < 0x110000 := by
    have h := c.valid
    simp only [UInt32.isValidChar, Nat.isValidChar] at h
    have hval : c.val.toNat = c.toNat := rfl
    omega
  have hmask : ∀ x, bitand x 0x3FF = x % 1024 := fun x => bitand_two_pow_sub_one (k := 10)
  have hhigh :
      bitor 0xF0 (bitright (bitand c.toNat 0x1C0000) 18) = 0xF0 + c.toNat / 262144 % 8 := by
    have hmask : bitright (bitand c.toNat 0x1C0000) 18 = c.toNat / 262144 % 8 :=
      bitright_bitand (k := 3) (i := 18)
    rw [hmask]
    exact bitor_mul (x := 15) (k := 4) (by omega)
  have hii : 0x10000 + bitand (0xDC00 + (c.toNat - 0x10000) % 1024) 0x3FF +
      bitleft (bitand (0xD800 + (c.toNat - 0x10000) / 1024) 0x3FF) 10 = c.toNat := by
    rw [hmask, hmask, bitleft]
    omega
  constructor
  · rw [word2utf8, if_neg (by decide), if_pos (by omega)]
  · have h1 : ¬ c.toNat ≤ 0x7f := by omega
    have h2 : ¬ c.toNat ≤ 0x7ff := by omega
    have h3 : ¬ c.toNat ≤ 0xffff := by omega
    rw [word2utf8, if_pos (by omega), if_pos (by omega)]
    simp only [hii]
    rw [utf8_eq, if_neg h1, if_neg h2, if_neg h3, hhigh, bitor_low]
    exact congrArg₂ (fun x y => (t ++ [_, char x, char y, _], 0)) (bitor_middle 12) (bitor_middle 6)

end ModemSupport.Rooter.SmsRead
