import ModemSupport.Rooter.SmsRoundTrip

/-! The text behind a user-data header. -/

namespace ModemSupport.Rooter.SmsRead

open Lib.Text SmsFile List

structure Element where
  iei : Nat
  data : List Nat
  iei_lt : iei < 256
  data_lt : ∀ a ∈ data, a < 256
  length_lt : data.length < 256

def Element.octets (e : Element) : List Nat := e.iei :: e.data.length :: e.data

def Cut : List Nat → Prop
  | _ :: len :: data => data.length < len
  | _ => True

/-- The octets behind the length of the header: elements, and what is cut off. -/
structure Header where
  elements : List Element
  tail : List Nat
  tail_lt : ∀ a ∈ tail, a < 256
  cut : Cut tail

def Header.octets (h : Header) : List Nat := h.elements.flatMap Element.octets ++ h.tail

def Element.concat (e : Element) : Option (Nat × Nat × Nat) :=
  match e.iei, e.data with
  | 0, [ref, max, ord] => some (ref, ord, max)
  | 8, [high, low, max, ord] => some (256 * high + low, ord, max)
  | _, _ => none

def partOf (part : Nat × Nat × Nat) (mConcat : Option Str) : Option Str :=
  if part.2.2 = 1 ∧ part.2.1 = 1 then mConcat
  else some (['M', 's', 'g', '#', ' '] ++ tostring part.1 ++ [','] ++ tostring part.2.1 ++ ['/'] ++
    tostring part.2.2)

def Header.concat (h : Header) (mConcat : Option Str) : Option Str :=
  match h.elements.findSome? Element.concat with
  | none => mConcat
  | some part => partOf part mConcat

/-- The last octet of an element for a long message is missing, and there is no such element in
front of it. -/
def Header.Torn (h : Header) : Prop :=
  h.tail.take 2 = [8, 4] ∧ h.tail.length = 5 ∧ h.elements.findSome? Element.concat = none

instance (h : Header) : Decidable h.Torn := inferInstanceAs (Decidable (_ ∧ _ ∧ _))

def Header.skip (h : Header) : Nat := (8 * (h.octets.length + 1) + 6) / 7

def Header.fillBits (h : Header) : Nat := 7 * h.skip - 8 * (h.octets.length + 1)

structure Behind (h : Header) where
  fill : Nat
  septets : List Nat
  fill_lt : fill < 2 ^ h.fillBits
  septet_lt : ∀ c ∈ septets, c < 128
  fits : h.skip + septets.length ≤ 160

def octetsOf (n V : Nat) : List Nat := (List.range n).map fun j => V / 256 ^ j % 256

def plainOctets (septets : List Nat) : List Nat :=
  octetsOf ((7 * septets.length + 7) / 8) (Nat.ofDigits 128 septets)

def plainPdu (septets : List Nat) : Str :=
  formatX 2 septets.length ++ hexes (plainOctets septets)

def Behind.octets {h : Header} (b : Behind h) : List Nat :=
  octetsOf ((7 * (h.skip + b.septets.length) + 7) / 8 - (h.octets.length + 1))
    (b.fill + 2 ^ h.fillBits * Nat.ofDigits 128 b.septets)

def Behind.pdu {h : Header} (b : Behind h) : Str :=
  formatX 2 (h.skip + b.septets.length) ++
    hexes (h.octets.length :: h.octets ++ b.octets)

def escapes (septets : List Nat) : Nat := (septets.reverse.takeWhile fun c => c = 27).length

def Opens (opened : Prop) [Decidable opened] (septets : List Nat) : Prop :=
  (escapes septets + if escapes septets = septets.length ∧ opened then 1 else 0) % 2 = 1

instance (opened : Prop) [Decidable opened] (septets : List Nat) :
    Decidable (Opens opened septets) := inferInstanceAs (Decidable (_ = _))

def Behind.headerSeptets {h : Header} (b : Behind h) : List Nat :=
  (List.range h.skip).map fun k =>
    (Nat.ofDigits 256 (h.octets.length :: h.octets) + 256 ^ (h.octets.length + 1) * b.fill) /
      128 ^ k % 128

/-- Whether an escape is open in front of these septets makes no difference. -/
def Blind : List Nat → Prop
  | [] => True
  | 27 :: 27 :: septets => Blind septets
  | c :: _ => c = 10 ∨ c = 63

/-- The header does not change the text, and the place among the parts is taken from it. -/
def KeepsText (h : Header) (b : Behind h) (mConcat : Option Str) (d : Decoder) : Prop :=
  ∃ r r', pdu2text (plainPdu b.septets) 0 mConcat d = some (1, r) ∧
    pdu2text b.pdu 1 mConcat d = some (1, r') ∧ r'.mText = r.mText ∧
      r'.mConcat = h.concat mConcat

variable {h : Header} {b : Behind h} {x y : Str} {mConcat : Option Str} {d : Decoder} {m n V : Nat}
  {octets septets tail : List Nat} {e : Element}

theorem exists_header (octets : List Nat) (hlt : ∀ a ∈ octets, a < 256) :
    ∃ h : Header, h.octets = octets := by
  induction hn : octets.length using Nat.strong_induction_on generalizing octets with
  | _ n ih =>
    match octets, hlt with
    | [], hlt => exact ⟨⟨[], [], hlt, trivial⟩, rfl⟩
    | [a], hlt => exact ⟨⟨[], [a], hlt, trivial⟩, rfl⟩
    | iei :: len :: data, hlt =>
      by_cases hcut : data.length < len
      · exact ⟨⟨[], iei :: len :: data, hlt, hcut⟩, rfl⟩
      · obtain ⟨hiei, hrest⟩ := forall_mem_cons.mp hlt
        obtain ⟨hlen, hdata⟩ := forall_mem_cons.mp hrest
        have htake : (data.take len).length = len := length_take_of_le (by omega)
        obtain ⟨h, hh⟩ := ih (data.drop len).length
          (by rw [← hn, length_drop, length_cons, length_cons]; omega)
          (data.drop len) (fun a ha => hdata a (mem_of_mem_drop ha)) rfl
        refine ⟨⟨⟨iei, data.take len, hiei, fun a ha => hdata a (mem_of_mem_take ha),
          by omega⟩ :: h.elements, h.tail, h.tail_lt, h.cut⟩, ?_⟩
        rw [Header.octets] at hh ⊢
        rw [flatMap_cons, append_assoc, hh, Element.octets]
        simp only [htake, cons_append, take_append_drop]

theorem length_octetsOf : (octetsOf n V).length = n := by
  rw [octetsOf, length_map, length_range]

theorem octetsOf_lt : ∀ a ∈ octetsOf n V, a < 256 := by
  intro a ha
  obtain ⟨j, -, rfl⟩ := List.mem_map.mp ha
  exact Nat.mod_lt _ (by decide)

theorem ofDigits_octetsOf : Nat.ofDigits 256 (octetsOf n V) = V % 256 ^ n := by
  induction n with
  | zero => rw [Nat.pow_zero, Nat.mod_one]; rfl
  | succ n ih =>
    rw [octetsOf, range_succ, map_append, ← octetsOf, Nat.ofDigits_append, ih,
      length_octetsOf, map_singleton, Nat.ofDigits_singleton, Nat.mod_pow_succ]

theorem ofDigits_lt (hs : ∀ c ∈ septets, c < 128) :
    Nat.ofDigits 128 septets < 128 ^ septets.length :=
  Nat.ofDigits_lt_base_pow_length (by decide) fun {_} hc => hs _ hc

theorem ofDigits_plainOctets (hs : ∀ c ∈ septets, c < 128) :
    Nat.ofDigits 256 (plainOctets septets) = Nat.ofDigits 128 septets := by
  rw [plainOctets, ofDigits_octetsOf]
  refine Nat.mod_eq_of_lt ((ofDigits_lt hs).trans_le ?_)
  calc
    128 ^ septets.length = 2 ^ (7 * septets.length) := by rw [Nat.pow_mul]
    _ ≤ 2 ^ (8 * ((7 * septets.length + 7) / 8)) := Nat.pow_le_pow_right (by decide) (by omega)
    _ = 256 ^ ((7 * septets.length + 7) / 8) := by rw [Nat.pow_mul]

theorem pdu2text_plainPdu (hs : ∀ c ∈ septets, c < 128) (hlen : septets.length < 256)
    (mConcat : Option Str) (d : Decoder) :
    pdu2text (plainPdu septets) 0 mConcat d =
      some (1, ⟨(addSeptets septets ([], d)).1, mConcat, (addSeptets septets ([], d)).2⟩) :=
  pdu2text_plain hs octetsOf_lt hlen (ofDigits_plainOctets hs)
    (by rw [length_octetsOf]; omega) mConcat d

theorem tonumber16_four (hx : m < 256) (hy : n < 256) :
    tonumber16 (formatX 2 m ++ formatX 2 n) = some (256 * m + n) := by
  have hdigits := tonumber16_digits (cons_ne_nil (m / 16) [m % 16, n / 16, n % 16]) (by
    simp
    omega)
  rw [formatX_two hx, formatX_two hy]
  refine hdigits.trans (congrArg some ?_)
  simp only [foldl_cons, foldl_nil]
  omega

theorem formatX_inj (hm : m < 256) (hn : n < 256) (h : formatX 2 m = formatX 2 n) : m = n := by
  have hval := congrArg octet2binCheck h
  rw [formatX_two hm, formatX_two hn, octet2binCheck_digits hm, octet2binCheck_digits hn] at hval
  exact Int.ofNat.inj hval

theorem formatX_append_iff {a b c e : Nat} (ha : a < 256) (hb : b < 256) (hc : c < 256)
    (he : e < 256) : formatX 2 a ++ formatX 2 b = formatX 2 c ++ formatX 2 e ↔ a = c ∧ b = e := by
  constructor
  · intro h
    obtain ⟨hfirst, hsecond⟩ := append_inj h (by rw [formatX_two ha, formatX_two hc]; rfl)
    exact ⟨formatX_inj ha hc hfirst, formatX_inj hb he hsecond⟩
  · rintro ⟨rfl, rfl⟩
    rfl

theorem concatinfo_short (h : x.length ≤ 9) : concatinfo x mConcat = some mConcat := by
  rw [concatinfo, if_neg (by omega)]

theorem hexes_append {l l' : List Nat} : hexes (l ++ l') = hexes l ++ hexes l' :=
  flatMap_append

theorem concatinfo_three {ref max ord : Nat} {rest : List Nat} (href : ref < 256) (hmax : max < 256)
    (hord : ord < 256) :
    concatinfo (hexes (0 :: 3 :: ref :: max :: ord :: rest)) mConcat =
      some (partOf (ref, ord, max) mConcat) := by
  have htext : formatX 2 max ++ formatX 2 ord = ['0', '1', '0', '1'] ↔ max = 1 ∧ ord = 1 :=
    formatX_append_iff (c := 1) (e := 1) hmax hord (by decide) (by decide)
  have hx : hexes (0 :: 3 :: ref :: max :: ord :: rest) =
      ['0', '0', '0', '3'] ++ (formatX 2 ref ++ (formatX 2 max ++ (formatX 2 ord ++ hexes rest))) :=
    rfl
  rw [formatX_two href, formatX_two hmax, formatX_two hord] at hx
  have hlen : 9 < (hexes (0 :: 3 :: ref :: max :: ord :: rest)).length := by simp [hx]
  have h56 : subTo (hexes (0 :: 3 :: ref :: max :: ord :: rest)) 5 6 = formatX 2 ref := by
    rw [hx, formatX_two href]
    rfl
  have h78 : subTo (hexes (0 :: 3 :: ref :: max :: ord :: rest)) 7 8 = formatX 2 max := by
    rw [hx, formatX_two hmax]
    rfl
  have h90 : subTo (hexes (0 :: 3 :: ref :: max :: ord :: rest)) 9 10 = formatX 2 ord := by
    rw [hx, formatX_two hord]
    rfl
  have h70 : subTo (hexes (0 :: 3 :: ref :: max :: ord :: rest)) 7 10 =
      formatX 2 max ++ formatX 2 ord := by
    rw [hx, formatX_two hmax, formatX_two hord]
    rfl
  have hfirst : subTo (hexes (0 :: 3 :: ref :: max :: ord :: rest)) 1 4 =
      ['0', '0', '0', '3'] := rfl
  rw [concatinfo, if_pos hlen, hfirst, if_pos rfl, h70, h56, h78, h90, concatText,
    tonumber16_formatX href, tonumber16_formatX hmax, tonumber16_formatX hord, partOf]
  by_cases hone : max = 1 ∧ ord = 1
  · rw [if_pos hone, if_neg (not_not.mpr (htext.mpr hone))]
  · rw [if_neg hone, if_pos (mt htext.mp hone)]
    rfl

theorem concatinfo_four {high low max ord : Nat} {rest : List Nat} (hhigh : high < 256)
    (hlow : low < 256) (hmax : max < 256) (hord : ord < 256) :
    concatinfo (hexes (8 :: 4 :: high :: low :: max :: ord :: rest)) mConcat =
      some (partOf (256 * high + low, ord, max) mConcat) := by
  have htext : formatX 2 max ++ formatX 2 ord = ['0', '1', '0', '1'] ↔ max = 1 ∧ ord = 1 :=
    formatX_append_iff (c := 1) (e := 1) hmax hord (by decide) (by decide)
  have hx : hexes (8 :: 4 :: high :: low :: max :: ord :: rest) = ['0', '8', '0', '4'] ++
      (formatX 2 high ++ (formatX 2 low ++ (formatX 2 max ++ (formatX 2 ord ++ hexes rest)))) :=
    rfl
  rw [formatX_two hhigh, formatX_two hlow, formatX_two hmax, formatX_two hord] at hx
  have hlen : 9 < (hexes (8 :: 4 :: high :: low :: max :: ord :: rest)).length := by simp [hx]
  have h58 : subTo (hexes (8 :: 4 :: high :: low :: max :: ord :: rest)) 5 8 =
      formatX 2 high ++ formatX 2 low := by
    rw [hx, formatX_two hhigh, formatX_two hlow]
    rfl
  have h90 : subTo (hexes (8 :: 4 :: high :: low :: max :: ord :: rest)) 9 10 = formatX 2 max := by
    rw [hx, formatX_two hmax]
    rfl
  have h12 : subTo (hexes (8 :: 4 :: high :: low :: max :: ord :: rest)) 11 12 =
      formatX 2 ord := by
    rw [hx, formatX_two hord]
    rfl
  have h92 : subTo (hexes (8 :: 4 :: high :: low :: max :: ord :: rest)) 9 12 =
      formatX 2 max ++ formatX 2 ord := by
    rw [hx, formatX_two hmax, formatX_two hord]
    rfl
  have hfirst : subTo (hexes (8 :: 4 :: high :: low :: max :: ord :: rest)) 1 4 =
      ['0', '8', '0', '4'] := rfl
  rw [concatinfo, if_pos hlen, hfirst, if_neg (by decide), if_pos rfl, h92, h58, h90, h12,
    concatText, tonumber16_four hhigh hlow, tonumber16_formatX hmax, tonumber16_formatX hord,
    partOf]
  by_cases hone : max = 1 ∧ ord = 1
  · rw [if_pos hone, if_neg (not_not.mpr (htext.mpr hone))]
  · rw [if_neg hone, if_pos (mt htext.mp hone)]
    rfl

theorem concatinfo_skip {iei len : Nat} {octets : List Nat} (hiei : iei < 256) (hlen : len < 256)
    (hthree : ¬ (iei = 0 ∧ len = 3)) (hfour : ¬ (iei = 8 ∧ len = 4))
    (hlong : 9 < (hexes (iei :: len :: octets)).length) :
    concatinfo (hexes (iei :: len :: octets)) mConcat =
      concatinfo ((hexes octets).drop (2 * len)) mConcat := by
  have hx : hexes (iei :: len :: octets) = formatX 2 iei ++ (formatX 2 len ++ hexes octets) := rfl
  have h14 : subTo (hexes (iei :: len :: octets)) 1 4 = formatX 2 iei ++ formatX 2 len := by
    rw [hx, formatX_two hiei, formatX_two hlen]
    rfl
  have h34 : subTo (hexes (iei :: len :: octets)) 3 4 = formatX 2 len := by
    rw [hx, formatX_two hiei, formatX_two hlen]
    rfl
  have hthree' : formatX 2 iei ++ formatX 2 len ≠ ['0', '0', '0', '3'] :=
    mt (formatX_append_iff (c := 0) (e := 3) hiei hlen (by decide) (by decide)).mp hthree
  have hfour' : formatX 2 iei ++ formatX 2 len ≠ ['0', '8', '0', '4'] :=
    mt (formatX_append_iff (c := 8) (e := 4) hiei hlen (by decide) (by decide)).mp hfour
  have hdrop : sub (hexes (iei :: len :: octets)) (5 + len * 2) =
      (hexes octets).drop (2 * len) := by
    rw [sub, show 5 + len * 2 - 1 = 2 * len + 4 by omega, hx, formatX_two hiei, formatX_two hlen]
    rfl
  rw [concatinfo, if_pos hlong, h14, if_neg hthree', if_neg hfour', h34, tonumber16_formatX hlen]
  simp only
  rw [hdrop]

theorem Element.octets_lt : ∀ a ∈ e.octets, a < 256 :=
  forall_mem_cons.mpr ⟨e.iei_lt, forall_mem_cons.mpr ⟨e.length_lt, e.data_lt⟩⟩

theorem Header.octets_lt : ∀ a ∈ h.octets, a < 256 := by
  refine forall_mem_append.mpr ⟨fun a ha => ?_, h.tail_lt⟩
  obtain ⟨e, -, he⟩ := mem_flatMap.mp ha
  exact e.octets_lt a he

theorem Element.concat_cases (e : Element) :
    (∃ ref max ord, e.iei = 0 ∧ e.data = [ref, max, ord] ∧ e.concat = some (ref, ord, max)) ∨
      (∃ high low max ord, e.iei = 8 ∧ e.data = [high, low, max, ord] ∧
        e.concat = some (256 * high + low, ord, max)) ∨
      ¬ (e.iei = 0 ∧ e.data.length = 3) ∧ ¬ (e.iei = 8 ∧ e.data.length = 4) ∧
        e.concat = none := by
  unfold Element.concat
  split
  case h_1 ref max ord hiei hdata => exact .inl ⟨ref, max, ord, hiei, hdata, rfl⟩
  case h_2 high low max ord hiei hdata =>
    exact .inr (.inl ⟨high, low, max, ord, hiei, hdata, rfl⟩)
  case h_3 hthree hfour =>
    refine .inr (.inr ⟨?_, ?_, rfl⟩)
    · rintro ⟨hiei, hlen⟩
      obtain ⟨ref, max, ord, hdata⟩ := length_eq_three.mp hlen
      exact hthree ref max ord hiei hdata
    · rintro ⟨hiei, hlen⟩
      match hdata : e.data, hlen with
      | [high, low, max, ord], _ => exact hfour high low max ord hiei hdata

theorem concatinfo_element (hconcat : ¬ (e.iei = 0 ∧ e.data.length = 3))
    (hconcat' : ¬ (e.iei = 8 ∧ e.data.length = 4)) (hoctets : ∀ a ∈ octets, a < 256) :
    concatinfo (hexes (e.octets ++ octets)) mConcat = concatinfo (hexes octets) mConcat := by
  have hall : ∀ a ∈ e.octets ++ octets, a < 256 :=
    forall_mem_append.mpr ⟨e.octets_lt, hoctets⟩
  by_cases hlong : 9 < (hexes (e.octets ++ octets)).length
  · have hdrop : (hexes (e.data ++ octets)).drop (2 * e.data.length) = hexes octets := by
      rw [drop_hexes (forall_mem_append.mpr ⟨e.data_lt, hoctets⟩), drop_left]
    have hskip : concatinfo (hexes (e.iei :: e.data.length :: (e.data ++ octets))) mConcat =
        concatinfo ((hexes (e.data ++ octets)).drop (2 * e.data.length)) mConcat :=
      concatinfo_skip e.iei_lt e.length_lt hconcat hconcat' hlong
    rw [hdrop] at hskip
    exact hskip
  · rw [length_hexes hall, length_append] at hlong
    rw [concatinfo_short (by rw [length_hexes hall, length_append]; omega),
      concatinfo_short (by rw [length_hexes hoctets]; omega)]

theorem concatinfo_tail (hcut : Cut tail) (htail : ∀ a ∈ tail, a < 256) :
    concatinfo (hexes tail) mConcat =
      if tail.take 2 = [8, 4] ∧ tail.length = 5 then none else some mConcat := by
  by_cases hlong : 9 < (hexes tail).length
  · rw [length_hexes htail] at hlong
    match tail, hcut, htail, hlong with
    | iei :: len :: data, hcut, htail, hlong =>
      have hdata : data.length < len := hcut
      obtain ⟨hiei, hrest⟩ := forall_mem_cons.mp htail
      obtain ⟨hlen, hlt⟩ := forall_mem_cons.mp hrest
      have hlong' : 9 < (hexes (iei :: len :: data)).length := by
        rw [length_hexes htail]
        exact hlong
      rw [length_cons, length_cons] at hlong
      by_cases htorn : iei = 8 ∧ len = 4
      · obtain ⟨rfl, rfl⟩ := htorn
        have hthree : data.length = 3 := by omega
        obtain ⟨a, b, c, rfl⟩ := length_eq_three.mp hthree
        rw [if_pos ⟨rfl, rfl⟩]
        simp only [forall_mem_cons] at hlt
        have hx : hexes [8, 4, a, b, c] =
            ['0', '8', '0', '4'] ++ (formatX 2 a ++ (formatX 2 b ++ (formatX 2 c ++ []))) := rfl
        have hfirst : subTo (hexes [8, 4, a, b, c]) 1 4 = ['0', '8', '0', '4'] := rfl
        have hlast : subTo (hexes [8, 4, a, b, c]) 9 12 = formatX 2 c := by
          rw [hx, formatX_two hlt.1, formatX_two hlt.2.1, formatX_two hlt.2.2.1]
          rfl
        have hbehind : subTo (hexes [8, 4, a, b, c]) 11 12 = [] := by
          rw [hx, formatX_two hlt.1, formatX_two hlt.2.1, formatX_two hlt.2.2.1]
          rfl
        have hne : formatX 2 c ≠ ['0', '1', '0', '1'] := by
          rw [formatX_two hlt.2.2.1]
          simp
        have hnumber : tonumber16 [] = none := rfl
        rw [concatinfo, if_pos hlong', hfirst, if_neg (by decide), if_pos rfl, hlast, if_pos hne,
          hbehind, concatText, hnumber]
        cases tonumber16 (subTo (hexes [8, 4, a, b, c]) 5 8) <;> rfl
      · have hnot : ¬ ((iei :: len :: data).take 2 = [8, 4] ∧ (iei :: len :: data).length = 5) := by
          rintro ⟨htake, -⟩
          exact htorn (by simpa using htake)
        rw [if_neg hnot, concatinfo_skip hiei hlen (by omega) htorn hlong',
          drop_eq_nil_of_le (by rw [length_hexes hlt]; omega), concatinfo_short (by simp)]
  · rw [concatinfo_short (by omega), if_neg]
    rintro ⟨-, hfive⟩
    rw [length_hexes htail] at hlong
    omega

theorem concatinfo_header :
    concatinfo (hexes h.octets) mConcat = if h.Torn then none else some (h.concat mConcat) := by
  have hwalk : ∀ es : List Element,
      concatinfo (hexes (es.flatMap Element.octets ++ h.tail)) mConcat =
        match es.findSome? Element.concat with
        | none => if h.tail.take 2 = [8, 4] ∧ h.tail.length = 5 then none else some mConcat
        | some part => some (partOf part mConcat) := by
    intro es
    induction es with
    | nil => exact concatinfo_tail h.cut h.tail_lt
    | cons e es ih =>
      have hrest : ∀ a ∈ es.flatMap Element.octets ++ h.tail, a < 256 := by
        refine forall_mem_append.mpr ⟨fun a ha => ?_, h.tail_lt⟩
        obtain ⟨e, -, he⟩ := mem_flatMap.mp ha
        exact e.octets_lt a he
      have hdata := e.data_lt
      rw [flatMap_cons, append_assoc, List.findSome?_cons]
      rcases e.concat_cases with ⟨ref, max, ord, hiei, heq, hconcat⟩ |
        ⟨high, low, max, ord, hiei, heq, hconcat⟩ | ⟨hthree, hfour, hconcat⟩
      · rw [heq] at hdata
        simp only [forall_mem_cons] at hdata
        rw [hconcat, Element.octets, hiei, heq]
        exact concatinfo_three hdata.1 hdata.2.1 hdata.2.2.1
      · rw [heq] at hdata
        simp only [forall_mem_cons] at hdata
        rw [hconcat, Element.octets, hiei, heq]
        exact concatinfo_four hdata.1 hdata.2.1 hdata.2.2.1 hdata.2.2.2.1
      · rw [hconcat, concatinfo_element hthree hfour hrest, ih]
  rw [Header.octets, hwalk, Header.concat]
  by_cases htorn : h.Torn
  · rw [if_pos htorn, htorn.2.2]
    exact if_pos ⟨htorn.1, htorn.2.1⟩
  · rw [if_neg htorn]
    cases hfind : h.elements.findSome? Element.concat with
    | none => exact if_neg fun htail => htorn ⟨htail.1, htail.2, hfind⟩
    | some part => rfl

end ModemSupport.Rooter.SmsRead
