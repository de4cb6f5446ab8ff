import ModemSupport.Rooter.SmsHeader

/-! A header changes the text exactly by the escape that its last septets leave open. -/

namespace ModemSupport.Rooter.SmsRead

open Lib.Text SmsFile List Option

variable {h : Header} {b : Behind h} {mText : Str} {mConcat : Option Str} {d : Decoder}
  {g : Option Nat} {V k n c : Nat} {septets : List Nat}

/-- What the characters of the header leave in `g_table_nbr`. -/
def escapeAfter (septets : List Nat) (g : Option Nat) : Option Nat :=
  septets.foldl (fun g c => (gsm2byte c g).2) g

theorem addChar_skipped :
    addChar true c mText d = (mText, { d with gTableNbr := (gsm2byte c d.gTableNbr).2 }) := rfl

theorem addChars_skipped {skip : Int} (ks : List Nat) (hskip : ∀ k ∈ ks, (k : Int) < skip) :
    addChars skip V ks (mText, d) = (mText,
      { d with gTableNbr := escapeAfter (ks.map fun k => V / 128 ^ k % 128) d.gTableNbr }) := by
  induction ks generalizing d with
  | nil => rfl
  | cons k ks ih =>
    obtain ⟨hk, hrest⟩ := forall_mem_cons.mp hskip
    rw [addChars_cons, decide_eq_true hk, addChar_skipped, ih hrest]
    rfl

theorem div_pow_mod {low X : Nat} (hk : k < n) :
    (low + 128 ^ n * X) / 128 ^ k % 128 = low / 128 ^ k % 128 := by
  obtain ⟨m, rfl⟩ : ∃ m, n = k + m + 1 := ⟨n - k - 1, by omega⟩
  rw [show 128 ^ (k + m + 1) * X = 128 ^ k * (128 * (128 ^ m * X)) by ring,
    Nat.add_mul_div_left _ _ (Nat.pow_pos (by decide)), Nat.add_mul_mod_self_left]

def Behind.low (b : Behind h) : Nat :=
  Nat.ofDigits 256 (h.octets.length :: h.octets) + 256 ^ (h.octets.length + 1) * b.fill

theorem Behind.headerSeptets_eq :
    b.headerSeptets = (List.range h.skip).map fun k => b.low / 128 ^ k % 128 := rfl

theorem Behind.length_lt (b : Behind h) : h.octets.length + 1 ≤ 140 := by
  have hfits := b.fits
  rw [Header.skip] at hfits
  omega

theorem two_pow_fillBits : 256 ^ (h.octets.length + 1) * 2 ^ h.fillBits = 128 ^ h.skip := by
  have hpow : (256 : Nat) ^ (h.octets.length + 1) = 2 ^ (8 * (h.octets.length + 1)) := by
    rw [Nat.pow_mul]
  have hpow' : (128 : Nat) ^ h.skip = 2 ^ (7 * h.skip) := by
    rw [Nat.pow_mul]
  rw [hpow, hpow', ← Nat.pow_add, Header.fillBits, Header.skip]
  congr 1
  omega

theorem Behind.octets_lt (b : Behind h) : ∀ a ∈ h.octets.length :: h.octets, a < 256 := by
  have hlen := b.length_lt
  exact forall_mem_cons.mpr ⟨by omega, Header.octets_lt⟩

theorem Behind.low_lt (b : Behind h) : b.low < 128 ^ h.skip := by
  have hheader : Nat.ofDigits 256 (h.octets.length :: h.octets) <
      256 ^ (h.octets.length :: h.octets).length :=
    Nat.ofDigits_lt_base_pow_length (by decide) fun {_} ha => b.octets_lt _ ha
  rw [length_cons] at hheader
  calc
    b.low < 256 ^ (h.octets.length + 1) + 256 ^ (h.octets.length + 1) * b.fill :=
      Nat.add_lt_add_right hheader _
    _ = 256 ^ (h.octets.length + 1) * (b.fill + 1) := by ring
    _ ≤ 256 ^ (h.octets.length + 1) * 2 ^ h.fillBits := Nat.mul_le_mul_left _ b.fill_lt
    _ = 128 ^ h.skip := two_pow_fillBits

theorem Behind.ofDigits_octets (b : Behind h) :
    Nat.ofDigits 256 (h.octets.length :: h.octets ++ b.octets) =
      b.low + 128 ^ h.skip * Nat.ofDigits 128 b.septets := by
  have hroom : h.fillBits + 7 * b.septets.length ≤
      8 * ((7 * (h.skip + b.septets.length) + 7) / 8 - (h.octets.length + 1)) := by
    rw [Header.fillBits, Header.skip]
    omega
  have hsize : b.fill + 2 ^ h.fillBits * Nat.ofDigits 128 b.septets <
      256 ^ ((7 * (h.skip + b.septets.length) + 7) / 8 - (h.octets.length + 1)) := by
    calc
      b.fill + 2 ^ h.fillBits * Nat.ofDigits 128 b.septets <
          2 ^ h.fillBits + 2 ^ h.fillBits * Nat.ofDigits 128 b.septets :=
        Nat.add_lt_add_right b.fill_lt _
      _ = 2 ^ h.fillBits * (Nat.ofDigits 128 b.septets + 1) := by ring
      _ ≤ 2 ^ h.fillBits * 128 ^ b.septets.length :=
        Nat.mul_le_mul_left _ (ofDigits_lt b.septet_lt)
      _ = 2 ^ (h.fillBits + 7 * b.septets.length) := by
        rw [Nat.pow_add, Nat.pow_mul]
      _ ≤ 2 ^ (8 * ((7 * (h.skip + b.septets.length) + 7) / 8 - (h.octets.length + 1))) :=
        Nat.pow_le_pow_right (by decide) hroom
      _ = 256 ^ ((7 * (h.skip + b.septets.length) + 7) / 8 - (h.octets.length + 1)) := by
        rw [Nat.pow_mul]
  rw [Nat.ofDigits_append, Behind.octets, ofDigits_octetsOf, Nat.mod_eq_of_lt hsize,
    length_cons, Behind.low, ← two_pow_fillBits]
  ring

theorem pdu2text_pdu (b : Behind h) (mConcat : Option Str) (d : Decoder) :
    pdu2text b.pdu 1 mConcat d =
      if h.Torn then none
      else
        let r := addSeptets b.septets
          ([], { d with gTableNbr := escapeAfter b.headerSeptets d.gTableNbr })
        some (1, ⟨r.1, h.concat mConcat, r.2⟩) := by
  have hlength := b.length_lt
  have hfits := b.fits
  have hall : ∀ a ∈ h.octets.length :: h.octets ++ b.octets, a < 256 :=
    forall_mem_append.mpr ⟨b.octets_lt, octetsOf_lt⟩
  have hcount : octet2binCheck b.pdu = (h.skip + b.septets.length : Nat) :=
    octet2binCheck_formatX (by omega)
  have hpdu2 : sub b.pdu 3 = hexes (h.octets.length :: h.octets ++ b.octets) := by
    rw [sub, Behind.pdu, formatX_two (by omega)]
    rfl
  have hudhl : subTo (hexes (h.octets.length :: h.octets ++ b.octets)) 1 2 =
      formatX 2 h.octets.length := by
    rw [cons_append, hexes_cons, formatX_two (by omega)]
    rfl
  have hheader : subTo (hexes (h.octets.length :: h.octets ++ b.octets)) 3
      ((h.octets.length + 1) * 2) = hexes h.octets := by
    have hlen := length_hexes (@Header.octets_lt h)
    rw [subTo, cons_append, hexes_cons, hexes_append, formatX_two (by omega)]
    simp only [cons_append, nil_append]
    rw [show (h.octets.length + 1) * 2 = 2 * h.octets.length + 1 + 1 by omega, take_succ_cons,
      take_succ_cons, take_left' hlen]
    rfl
  have hsize : octet2binCheck (hexes (h.octets.length :: h.octets ++ b.octets)) =
      h.octets.length := by
    rw [cons_append, hexes_cons]
    exact octet2binCheck_formatX (by omega)
  have hskip : ((((h.octets.length : Nat) : Int) + 1) * 8 + 6) / 7 = (h.skip : Nat) := by
    rw [Header.skip]
    omega
  have hoctets : ((h.skip + b.septets.length) * 7 + 7) / 8 =
      (h.octets.length :: h.octets ++ b.octets).length := by
    rw [length_append, length_cons, Behind.octets, length_octetsOf]
    rw [Header.skip] at hfits ⊢
    omega
  have hreads : Reads b.pdu (h.octets.length :: h.octets ++ b.octets).length
      (b.low + 128 ^ h.skip * Nat.ofDigits 128 b.septets) := by
    have hreads' : Reads (formatX 2 (h.skip + b.septets.length) ++
        hexes (h.octets.length :: h.octets ++ b.octets) ++ [])
        (h.octets.length :: h.octets ++ b.octets).length
        (Nat.ofDigits 256 (h.octets.length :: h.octets ++ b.octets)) := reads_hexes hall (by omega)
    rwa [append_nil, b.ofDigits_octets] at hreads'
  have hloop : charLoop b.pdu (h.octets.length :: h.octets ++ b.octets).length (h.skip : Nat)
      (h.skip + b.septets.length) 0 0 0 [] d =
        (true, addSeptets b.septets
          ([], { d with gTableNbr := escapeAfter b.headerSeptets d.gTableNbr })) := by
    have hheaderSeptets : (List.range' 0 h.skip).map (fun k =>
        (b.low + 128 ^ h.skip * Nat.ofDigits 128 b.septets) / 128 ^ k % 128) = b.headerSeptets := by
      rw [← List.range_eq_range', Behind.headerSeptets_eq]
      exact map_congr_left fun k hk => div_pow_mod (mem_range.mp hk)
    have hsplit : List.range' 0 (h.skip + b.septets.length) =
        List.range' 0 h.skip ++ List.range' h.skip b.septets.length := by
      rw [← List.range'_append, Nat.one_mul, Nat.zero_add]
    refine (charLoop_ready (m := 0) hreads (by omega) rfl).trans (congrArg (Prod.mk true) ?_)
    rw [hsplit, addChars, foldl_append, ← addChars, ← addChars,
      addChars_skipped (List.range' 0 h.skip) (fun k hk => by rw [mem_range'_1] at hk; omega),
      hheaderSeptets]
    exact addChars_septets h.skip b.low b.septet_lt b.low_lt
  have hnumber : tonumber16 (formatX 2 h.octets.length) = some h.octets.length :=
    tonumber16_formatX (by omega)
  rw [pdu2text, hcount, hpdu2]
  simp only [hudhl, hnumber, hheader, hsize, concatinfo_header, bind_eq_bind,
    bind_some, Int.toNat_natCast]
  rw [if_neg (by omega), if_pos (by decide)]
  split
  case isTrue => rfl
  case isFalse =>
    simp only [bind_some, hskip, hoctets, hloop]
    rfl

theorem gsm2byte_opens : (gsm2byte c g).2 = some 2 ↔ c = 27 ∧ g ≠ some 2 := by
  rw [gsm2byte]
  split
  case isTrue hopen => simp [hopen]
  case isFalse hopen =>
    split
    case isTrue hesc => simp [hesc, hopen]
    case isFalse hesc => simp [hesc, hopen]

theorem escapes_append :
    escapes (septets ++ [c]) = if c = 27 then escapes septets + 1 else 0 := by
  rw [escapes, reverse_append, reverse_singleton, singleton_append,
    takeWhile_cons]
  by_cases hesc : c = 27
  · simp [hesc, escapes]
  · simp [hesc]

theorem escapeAfter_iff :
    escapeAfter septets g = some 2 ↔ Opens (g = some 2) septets := by
  induction septets using reverseRecOn with
  | nil =>
    by_cases hopen : g = some 2
    · simp [escapeAfter, Opens, escapes, hopen]
    · simp [escapeAfter, Opens, escapes, hopen]
  | append_singleton septets c ih =>
    have hstep : escapeAfter (septets ++ [c]) g = (gsm2byte c (escapeAfter septets g)).2 := by
      rw [escapeAfter, foldl_append]
      rfl
    rw [hstep, gsm2byte_opens, Opens, escapes_append, Ne, ih, Opens, length_append,
      length_singleton]
    by_cases hesc : c = 27
    · simp only [hesc, if_true, true_and, Nat.add_right_cancel_iff]
      split <;> omega
    · simp [hesc]

/-- The text of septets behind an open escape, or behind none. -/
def textOf : Bool → List Nat → Str
  | _, [] => []
  | true, c :: septets => utf8 (char ((gTable2 c).getD 63)) ++ textOf false septets
  | false, c :: septets =>
    if c = 27 then textOf true septets
    else utf8 (char ((gTable1 c).getD c)) ++ textOf false septets

theorem table_spec : ∀ c < 128, ∀ n ∈ [(gTable1 c).getD c, (gTable2 c).getD 63],
    n.isValidChar ∧ n < 0x10000 ∧ n ≠ 0x2029 ∧ (n = 27 → c = 27) := by
  decide

theorem word2utf8_table (hc : c < 128) (hn : n ∈ [(gTable1 c).getD c, (gTable2 c).getD 63]) :
    word2utf8 n mText 0 = (mText ++ utf8 (char n), 0) := by
  obtain ⟨hvalid, hword, hsep, -⟩ := table_spec c hc n hn
  have hnat : (char n).toNat = n := by
    rw [char, Char.ofNat, dif_pos hvalid]
    rfl
  have htext := word2utf8_char (t := mText) (c := char n) (by omega) (by omega)
  rwa [hnat] at htext

theorem addSeptets_text (hs : ∀ c ∈ septets, c < 128) :
    (addSeptets septets (mText, ⟨g, 0⟩)).1 = mText ++ textOf (decide (g = some 2)) septets := by
  induction septets generalizing mText g with
  | nil => simp [addSeptets, textOf]
  | cons c septets ih =>
    obtain ⟨hc, hrest⟩ := forall_mem_cons.mp hs
    have hesc : gTable2 27 = none := rfl
    rw [addSeptets, foldl_cons, ← addSeptets]
    by_cases hopen : g = some 2
    · have hbyte : gsm2byte c g = ((gTable2 c).getD 63, some 1) := if_pos hopen
      have hne : (gTable2 c).getD 63 ≠ 27 := by
        intro h
        have hc := (table_spec c hc _ (mem_cons_of_mem _ mem_cons_self)).2.2.2 h
        rw [hc, hesc] at h
        exact absurd h (by decide)
      have hadd : addChar false c mText ⟨g, 0⟩ =
          (mText ++ utf8 (char ((gTable2 c).getD 63)), ⟨some 1, 0⟩) := by
        rw [addChar, hbyte]
        simp [hne, word2utf8_table hc (mem_cons_of_mem _ mem_cons_self)]
      rw [hadd, ih hrest, decide_eq_true hopen, textOf, append_assoc]
      rfl
    · rw [decide_eq_false hopen]
      by_cases hc27 : c = 27
      · have hadd : addChar false c mText ⟨g, 0⟩ = (mText, ⟨some 2, 0⟩) := by
          rw [addChar, gsm2byte, if_neg hopen, if_pos hc27, hc27]
          rfl
        rw [hadd, ih hrest, textOf, if_pos hc27]
        rfl
      · have hbyte : gsm2byte c g = ((gTable1 c).getD c, g) := by
          rw [gsm2byte, if_neg hopen, if_neg hc27]
        have hne : (gTable1 c).getD c ≠ 27 := fun h =>
          hc27 ((table_spec c hc _ mem_cons_self).2.2.2 h)
        have hadd : addChar false c mText ⟨g, 0⟩ =
            (mText ++ utf8 (char ((gTable1 c).getD c)), ⟨g, 0⟩) := by
          rw [addChar, hbyte]
          simp [hne, word2utf8_table hc mem_cons_self]
        rw [hadd, ih hrest, decide_eq_false hopen, textOf, if_neg hc27, append_assoc]

theorem tables_agree_iff : ∀ c < 128, c ≠ 27 →
    (utf8 (char ((gTable2 c).getD 63)) = utf8 (char ((gTable1 c).getD c)) ↔
      c = 10 ∨ c = 63) := by
  decide +kernel

theorem tables_differ : ∀ c < 128, utf8 (char 63) ++ utf8 (char ((gTable1 c).getD c)) ≠
    utf8 (char ((gTable2 c).getD 63)) := by
  decide +kernel

theorem textOf_eq_iff (hs : ∀ c ∈ septets, c < 128) :
    textOf true septets = textOf false septets ↔ Blind septets := by
  induction septets using Blind.induct with
  | case1 => simp [textOf, Blind]
  | case2 septets ih =>
    have hrest := (forall_mem_cons.mp (forall_mem_cons.mp hs).2).2
    have hesc : (gTable2 27).getD 63 = 63 := rfl
    rw [Blind, ← ih hrest, textOf, textOf, textOf, if_pos rfl, if_pos rfl, textOf, hesc,
      append_cancel_left_eq]
  | case3 c septets hnot =>
    obtain ⟨hc, hrest⟩ := forall_mem_cons.mp hs
    have hblind : Blind (c :: septets) ↔ c = 10 ∨ c = 63 := by
      rw [Blind]
      exact hnot
    rw [hblind]
    by_cases hc27 : c = 27
    · subst hc27
      refine iff_of_false ?_ (by decide)
      rw [textOf, textOf, if_pos rfl, show (gTable2 27).getD 63 = 63 from rfl]
      cases septets with
      | nil => decide
      | cons c' septets =>
        have hc' : c' ≠ 27 := fun h => hnot septets rfl (by rw [h])
        have hclosed : textOf false (c' :: septets) =
            utf8 (char ((gTable1 c').getD c')) ++ textOf false septets := by
          rw [textOf, if_neg hc']
        rw [hclosed, textOf, ← append_assoc, append_left_inj]
        exact tables_differ c' (forall_mem_cons.mp hrest).1
    · rw [textOf, textOf, if_neg hc27, append_left_inj]
      exact tables_agree_iff c hc hc27

theorem textOf_decide_iff (hs : ∀ c ∈ septets, c < 128) {p q : Prop} [Decidable p] [Decidable q] :
    textOf (decide p) septets = textOf (decide q) septets ↔ (p ↔ q) ∨ Blind septets := by
  have hblind := textOf_eq_iff hs
  by_cases hp : p
  · by_cases hq : q
    · simp [hp, hq]
    · simp [hp, hq, hblind]
  · by_cases hq : q
    · simp [hp, hq, ← hblind, eq_comm]
    · simp [hp, hq]

theorem keepsText_iff_text (b : Behind h) (mConcat : Option Str) (d : Decoder) :
    KeepsText h b mConcat d.reset ↔ ¬ h.Torn ∧
      textOf (decide (Opens (d.gTableNbr = some 2) b.headerSeptets)) b.septets =
        textOf (decide (d.gTableNbr = some 2)) b.septets := by
  have hfits := b.fits
  have hplain := pdu2text_plainPdu b.septet_lt (by omega) mConcat d.reset
  have hpdu := pdu2text_pdu b mConcat d.reset
  have htext : ∀ g, (addSeptets b.septets ([], ⟨g, 0⟩)).1 =
      textOf (decide (g = some 2)) b.septets := fun g => addSeptets_text b.septet_lt
  have hopen : decide (escapeAfter b.headerSeptets d.gTableNbr = some 2) =
      decide (Opens (d.gTableNbr = some 2) b.headerSeptets) :=
    decide_eq_decide.mpr escapeAfter_iff
  rw [← hopen, ← htext, ← htext]
  constructor
  · rintro ⟨r, r', hr, hr', htexts, -⟩
    rw [hplain] at hr
    rw [hpdu] at hr'
    split at hr'
    case isTrue => cases hr'
    case isFalse htorn =>
      simp only [some.injEq, Prod.mk.injEq, true_and] at hr hr'
      rw [← hr, ← hr'] at htexts
      exact ⟨htorn, htexts⟩
  · rintro ⟨htorn, htexts⟩
    rw [if_neg htorn] at hpdu
    exact ⟨_, _, hplain, hpdu, htexts, rfl⟩

/-- The text is kept exactly when the header does not end in an element that is torn, and leaves an
escape open as it found one, or the septets hide the difference. -/
theorem keepsText_iff (h : Header) (b : Behind h) (mConcat : Option Str) (d : Decoder) :
    KeepsText h b mConcat d.reset ↔ ¬ h.Torn ∧
      ((Opens (d.gTableNbr = some 2) b.headerSeptets ↔ d.gTableNbr = some 2) ∨
        Blind b.septets) := by
  rw [keepsText_iff_text, textOf_decide_iff b.septet_lt]

def portHeader : Header where
  elements := [⟨5, [0x15, 0x84, 0, 0x37], by decide, by decide, by decide⟩]
  tail := []
  tail_lt := forall_mem_nil _
  cut := trivial

def portBehind : Behind portHeader where
  fill := 0
  septets := [65]
  fill_lt := by decide
  septet_lt := by decide
  fits := by decide

/-- The first character behind a header is another one. -/
theorem not_keepsText : ¬ ∀ (h : Header) (b : Behind h) (mConcat : Option Str) (d : Decoder),
    KeepsText h b mConcat d.reset := by
  intro h
  have htexts := ((keepsText_iff_text portBehind none ⟨none, 0⟩).mp (h ..)).2
  have hopens : Opens ((none : Option Nat) = some 2) portBehind.headerSeptets := by
    decide
  rw [decide_eq_true hopens] at htexts
  exact absurd htexts (by decide)

end ModemSupport.Rooter.SmsRead
