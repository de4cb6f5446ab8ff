import ModemSupport.Rooter.SmsEncodeText
import ModemSupport.Rooter.SmsPack

/-! A text that `sys2sms.lua` sends is the text that `smsread.lua` shows. -/

namespace ModemSupport.Rooter.SmsRead

open Lib.Text SmsFile List Option

variable {c : Char} {text : List Char} {code mText : Str} {d : Decoder} {r : Checked}

def Decoder.reset (d : Decoder) : Decoder := { d with surrogate := 0 }

def Plain (c : Char) : Prop := c.toNat = 10 ∨ 32 ≤ c.toNat ∧ ¬ (0x7F ≤ c.toNat ∧ c.toNat ≤ 0x9F)

def shown (c : Char) : Char := if c.toNat = 0x2029 then '\n' else c

def IsCode (ch : Nat) (code : Str) : Prop :=
  (∃ v < 128, v ≠ 27 ∧ (gTable1 v).getD v = ch ∧ code = hexes [v]) ∨
    ∃ v < 128, (gTable2 v).getD 63 = ch ∧ code = hexes [27, v]

def septetsOf : Str → List Nat
  | a :: b :: code => (16 * xdigit a + xdigit b) :: septetsOf code
  | _ => []

/-- The septet, or the one behind an escape, is that of the character. -/
def readsAs (ch : Nat) (code : Str) : Bool :=
  match septetsOf code with
  | [v] => v < 128 && v ≠ 27 && (gTable1 v).getD v = ch && code = hexes [v]
  | [esc, v] => esc = 27 && v < 128 && (gTable2 v).getD 63 = ch && code = hexes [27, v]
  | _ => false

theorem isCode_of_readsAs {ch : Nat} (h : readsAs ch code) : IsCode ch code := by
  rw [readsAs] at h
  split at h
  case h_1 v _ =>
    simp only [Bool.and_eq_true, decide_eq_true_eq] at h
    exact .inl ⟨v, h.1.1.1, h.1.1.2, h.1.2, h.2⟩
  case h_2 esc v _ =>
    simp only [Bool.and_eq_true, decide_eq_true_eq] at h
    exact .inr ⟨v, h.1.1.2, h.1.2, h.2⟩
  case h_3 => cases h

theorem isCode_of_mem : ∀ e ∈ g7tTable, IsCode e.1 e.2 := by
  have hall : ∀ e ∈ g7tTable, readsAs e.1 e.2 := by decide
  exact fun e he => isCode_of_readsAs (hall e he)

theorem isCode_formatX {n : Nat} (hn : n < 0x7F) (hquote : n ≠ 0x60) (hplain : n = 10 ∨ 32 ≤ n) :
    IsCode n ((g7t n).getD (formatX 2 n)) := by
  cases hg : g7t n with
  | some code => exact isCode_of_mem _ (g7t_eq_some hg)
  | none =>
    have hall : ∀ n < 0x7F, n ≠ 0x60 → n = 10 ∨ 32 ≤ n → g7t n = none →
        (gTable1 n).getD n = n := by
      decide
    refine .inl ⟨n, by omega, by omega, hall n hn hquote hplain hg, ?_⟩
    rw [getD_none, hexes, flatMap_singleton]

theorem isCode_of_g7hexOf (hc : Plain c) (h : g7hexOf c.toNat = some code) :
    IsCode c.toNat code := by
  rw [g7hexOf] at h
  split at h
  case isTrue => cases h
  case isFalse hquote =>
    split at h
    case isTrue hle =>
      rw [← some.inj h]
      rw [Plain] at hc
      exact isCode_formatX (by omega) hquote (by omega)
    case isFalse hle => exact isCode_of_mem _ (g7t_eq_some h)

theorem IsCode.word (h : IsCode c.toNat code) : c.toNat < 0x10000 ∧ c.toNat ≠ 0x2029 := by
  have hfirst : ∀ v < 128, (gTable1 v).getD v < 0x10000 ∧ (gTable1 v).getD v ≠ 0x2029 := by
    decide
  have hsecond : ∀ v < 128, (gTable2 v).getD 63 < 0x10000 ∧ (gTable2 v).getD 63 ≠ 0x2029 := by
    decide
  rcases h with ⟨v, hv, -, hch, -⟩ | ⟨v, hv, hch, -⟩
  · rw [← hch]
    exact hfirst v hv
  · rw [← hch]
    exact hsecond v hv

theorem IsCode.exists_septets (h : IsCode c.toNat code) (hc : Plain c) :
    ∃ septets, (∀ v ∈ septets, v < 128) ∧ code = hexes septets ∧
      ∀ mText g, g ≠ some 2 → ∃ g', g' ≠ some 2 ∧
        addSeptets septets (mText, ⟨g, 0⟩) = (mText ++ utf8 c, ⟨g', 0⟩) := by
  have hesc : c.toNat ≠ 27 := by
    rw [Plain] at hc
    omega
  have hadd : ∀ v mText g g', gsm2byte v g = (c.toNat, g') →
      addChar false v mText ⟨g, 0⟩ = (mText ++ utf8 c, ⟨g', 0⟩) := by
    intro v mText g g' hbyte
    rw [addChar, hbyte]
    simp [hesc, word2utf8_char h.word.1 h.word.2]
  rcases h with ⟨v, hv, hne, hch, hcode⟩ | ⟨v, hv, hch, hcode⟩
  · refine ⟨[v], forall_mem_singleton.mpr hv, hcode, fun mText g hg => ⟨g, hg, ?_⟩⟩
    refine hadd v mText g g ?_
    rw [gsm2byte, if_neg hg, if_neg hne, hch]
  · refine ⟨[27, v], forall_mem_cons.mpr ⟨by decide, forall_mem_singleton.mpr hv⟩,
      hcode, fun mText g hg => ⟨some 1, by decide, ?_⟩⟩
    have hopen : addChar false 27 mText ⟨g, 0⟩ = (mText, ⟨some 2, 0⟩) := by
      rw [addChar, gsm2byte, if_neg hg, if_pos rfl]
      rfl
    have hclose := hadd v mText (some 2) (some 1) (by rw [gsm2byte, if_pos rfl, hch])
    rw [← hclose, addSeptets, foldl_cons, hopen]
    rfl

theorem exists_septets (hplain : ∀ c ∈ text, Plain c)
    (hok : text.all fun c => (g7hexOf c.toNat).isSome) :
    ∃ septets, (∀ v ∈ septets, v < 128) ∧
      (text.flatMap fun c => (g7hexOf c.toNat).getD []) = hexes septets ∧
      ∀ mText g, g ≠ some 2 → ∃ g',
        addSeptets septets (mText, ⟨g, 0⟩) = (mText ++ (text.map shown).flatMap utf8, ⟨g', 0⟩) := by
  induction text with
  | nil => exact ⟨[], forall_mem_nil _, rfl, fun mText g _ => ⟨g, by simp [addSeptets]⟩⟩
  | cons c text ih =>
    obtain ⟨hc, hplain⟩ := forall_mem_cons.mp hplain
    rw [all_cons, Bool.and_eq_true] at hok
    obtain ⟨code, hcode⟩ := isSome_iff_exists.mp hok.1
    obtain ⟨rest, hrest, hhexes, hread⟩ := ih hplain hok.2
    have hword := (isCode_of_g7hexOf hc hcode).word
    obtain ⟨septets, hs, rfl, hfirst⟩ := (isCode_of_g7hexOf hc hcode).exists_septets hc
    refine ⟨septets ++ rest, forall_mem_append.mpr ⟨hs, hrest⟩, ?_, fun mText g hg => ?_⟩
    · rw [flatMap_cons, hcode, hhexes, hexes, hexes, hexes, flatMap_append]
      rfl
    · obtain ⟨g', hg', hadd⟩ := hfirst mText g hg
      obtain ⟨g'', hadd'⟩ := hread (mText ++ utf8 c) g' hg'
      rw [addSeptets] at hadd hadd'
      refine ⟨g'', ?_⟩
      rw [addSeptets, foldl_append, hadd, hadd', map_cons, shown, if_neg hword.2,
        flatMap_cons, append_assoc]

/-- The text behind a word, and `surrogate`. -/
def addWord (r : Str × Nat) (w : Nat) : Str × Nat := word2utf8 w r.1 r.2

theorem foldl_addWord_units :
    (units c).foldl addWord (mText, 0) = (mText ++ utf8 (shown c), 0) := by
  rw [units]
  split
  case isTrue h =>
    rw [foldl_cons, foldl_nil, addWord, shown]
    split
    case isTrue hsep =>
      rw [hsep]
      rfl
    case isFalse hsep => exact word2utf8_char h hsep
  case isFalse h =>
    have hsep : c.toNat ≠ 0x2029 := by omega
    obtain ⟨hfirst, hsecond⟩ := word2utf8_pair (t := mText) (c := c) (by omega)
    rw [foldl_cons, foldl_cons, foldl_nil, addWord, addWord, hfirst, hsecond, shown,
      if_neg hsep]

theorem foldl_addWord_text :
    (text.flatMap units).foldl addWord (mText, 0) =
      (mText ++ (text.map shown).flatMap utf8, 0) := by
  induction text generalizing mText with
  | nil => simp
  | cons c text ih =>
    rw [flatMap_cons, foldl_append, foldl_addWord_units, ih, map_cons,
      flatMap_cons, append_assoc]

theorem units_lt : ∀ w ∈ units c, w < 65536 := by
  have hvalid : c.toNat < 0x110000 := by
    have h := c.valid
    simp only [UInt32.isValidChar, Nat.isValidChar] at h
    have hval : c.val.toNat = c.toNat := rfl
    omega
  rw [units]
  split
  case isTrue h => exact forall_mem_singleton.mpr h
  case isFalse h =>
    exact forall_mem_cons.mpr ⟨by omega, forall_mem_singleton.mpr (by omega)⟩

theorem formatX_four {w : Nat} (h : w < 65536) :
    formatX 4 w = formatX 2 (w / 256) ++ formatX 2 (w % 256) := by
  have h0 : w / 16 ^ 3 % 16 = w / 256 / 16 := by omega
  have h1 : w / 16 ^ 2 % 16 = w / 256 % 16 := by omega
  have h2 : w / 16 ^ 1 % 16 = w % 256 / 16 := by omega
  have h3 : w / 16 ^ 0 % 16 = w % 256 % 16 := by omega
  rw [formatX_of_lt (by decide) h, formatX_two (by omega), formatX_two (by omega), ← h0, ← h1, ← h2,
    ← h3]
  rfl

theorem length_words {words : List Nat} (h : ∀ w ∈ words, w < 65536) :
    (words.flatMap (formatX 4)).length = 4 * words.length := by
  induction words with
  | nil => rfl
  | cons w words ih =>
    obtain ⟨hw, hrest⟩ := forall_mem_cons.mp h
    rw [flatMap_cons, length_append, ih hrest, formatX_four hw, formatX_two (by omega),
      formatX_two (by omega), length_cons]
    simp only [length_append, length_cons, length_nil]
    omega

theorem octetLoop_words {words : List Nat} {pdu : Str} {m lastI : Nat}
    (h : ∀ w ∈ words, w < 65536) (hpdu : pdu.drop (4 * m + 2) = words.flatMap (formatX 4)) :
    octetLoop 2 pdu 0 (2 * words.length) (2 * m) lastI mText d =
      (true, (words.foldl addWord (mText, d.surrogate)).1,
        { d with surrogate := (words.foldl addWord (mText, d.surrogate)).2 }) := by
  induction words generalizing m lastI mText d with
  | nil => rfl
  | cons w words ih =>
    obtain ⟨hw, hrest⟩ := forall_mem_cons.mp h
    rw [flatMap_cons, formatX_four hw, append_assoc] at hpdu
    have hfirst : octet2binCheck (sub pdu (2 * m * 2 + 3 + 0 * 2)) = (w / 256 : Nat) := by
      rw [sub, show 2 * m * 2 + 3 + 0 * 2 - 1 = 4 * m + 2 by omega, hpdu]
      exact octet2binCheck_formatX (by omega)
    have htail : pdu.drop (4 * m + 4) = formatX 2 (w % 256) ++ words.flatMap (formatX 4) := by
      rw [show 4 * m + 4 = 4 * m + 2 + 2 by omega, ← drop_drop, hpdu, formatX_two (by omega)]
      rfl
    have hsecond : octet2binCheck (sub pdu ((2 * m + 1) * 2 + 3 + 0 * 2)) = (w % 256 : Nat) := by
      rw [sub, show (2 * m + 1) * 2 + 3 + 0 * 2 - 1 = 4 * m + 4 by omega, htail]
      exact octet2binCheck_formatX (by omega)
    have hnext : pdu.drop (4 * (m + 1) + 2) = words.flatMap (formatX 4) := by
      rw [show 4 * (m + 1) + 2 = 4 * m + 4 + 2 by omega, ← drop_drop, htail,
        formatX_two (by omega)]
      rfl
    have hword : bitor (bitleft (w / 256) 8) (w % 256) = w := by
      rw [bitleft, Nat.mul_comm]
      exact (bitor_mul (k := 8) (Nat.mod_lt _ (by decide))).trans (Nat.div_add_mod w 256)
    rw [length_cons, show 2 * (words.length + 1) = 2 * words.length + 1 + 1 by omega,
      octetLoop, hfirst]
    simp only
    rw [if_neg (by omega), if_pos trivial, if_pos (by omega), octetLoop, hsecond]
    simp only
    rw [if_neg (by omega), if_pos trivial, if_neg (by omega), Int.toNat_natCast, Int.toNat_natCast,
      hword, show 2 * m + 1 + 1 = 2 * (m + 1) by omega, ih hrest hnext]
    rfl

theorem pdu2binary_words {words : List Nat} (h : ∀ w ∈ words, w < 65536)
    (hlen : 2 * words.length < 256) (mConcat : Option Str) :
    pdu2binary 2 (formatX 2 (2 * words.length) ++ words.flatMap (formatX 4)) 0 mConcat d =
      some (((2 * words.length : Nat) : Int), ⟨(words.foldl addWord ([], d.surrogate)).1, mConcat,
        { d with surrogate := (words.foldl addWord ([], d.surrogate)).2 }⟩) := by
  have hoctets : octet2binCheck (formatX 2 (2 * words.length) ++ words.flatMap (formatX 4)) =
      (2 * words.length : Nat) := octet2binCheck_formatX hlen
  have hpdu : (formatX 2 (2 * words.length) ++ words.flatMap (formatX 4)).drop (4 * 0 + 2) =
      words.flatMap (formatX 4) := by
    rw [formatX_two hlen]
    rfl
  have hloop : octetLoop 2 (formatX 2 (2 * words.length) ++ words.flatMap (formatX 4)) 0
      (2 * words.length) 0 0 [] d = (true, (words.foldl addWord ([], d.surrogate)).1,
        { d with surrogate := (words.foldl addWord ([], d.surrogate)).2 }) :=
    octetLoop_words (m := 0) h hpdu
  rw [pdu2binary, hoctets]
  simp only
  rw [if_neg (by omega), if_neg (by omega)]
  simp only [Nat.cast_zero, Int.sub_zero, Int.toNat_natCast]
  rw [hloop]
  rfl

def codes (text : List Char) : Codes := text.foldl Codes.add ⟨[], [], true⟩

theorem codes_unicode : (codes text).unicode = (text.flatMap units).flatMap (formatX 4) := by
  rw [codes, foldl_add_unicode, nil_append]

theorem codes_g7hex :
    (codes text).g7hex = text.flatMap fun c => (g7hexOf c.toNat).getD [] := by
  rw [codes, foldl_add_g7hex, nil_append]

theorem codes_g7isok : (codes text).g7isok = text.all fun c => (g7hexOf c.toNat).isSome := by
  rw [codes, foldl_add_g7isok, Bool.true_and]

theorem chktxt_accepts (h : chktxt (text.flatMap utf8) = some r) (hmsg : r.msg = none) :
    (codes text).g7isok ∧ (codes text).g7hex.length ≤ 320 ∧
        r = ⟨none, ['0', '0'], (codes text).g7hex⟩ ∨
      (codes text).unicode.length ≤ 280 ∧ r = ⟨none, ['0', '8'], (codes text).unicode⟩ := by
  rw [chktxt] at h
  split at h
  case isTrue => cases h
  case isFalse =>
    rw [chkLoop_text, map_some, ← codes] at h
    have hr := some.inj h
    split at hr
    case isTrue hseptets => exact .inl ⟨hseptets.1, hseptets.2, hr.symm⟩
    case isFalse =>
      split at hr
      case isTrue =>
        rw [← hr] at hmsg
        cases hmsg
      case isFalse =>
        split at hr
        case isTrue hwords => exact .inr ⟨hwords, hr.symm⟩
        case isFalse =>
          rw [← hr] at hmsg
          cases hmsg

theorem readUserData_words (hlen : (codes text).unicode.length ≤ 280) (mConcat : Option Str)
    (d : Decoder) :
    ∃ u n, userData ⟨none, ['0', '8'], (codes text).unicode⟩ = some u ∧
      readUserData u mConcat d.reset =
        some (n, ⟨(text.map shown).flatMap utf8, mConcat, d.reset⟩) := by
  have hwords : ∀ w ∈ text.flatMap units, w < 65536 := by
    intro w hw
    obtain ⟨c, -, hc⟩ := mem_flatMap.mp hw
    exact units_lt w hc
  have hunicode := length_words hwords
  rw [← codes_unicode] at hunicode
  have hread := pdu2binary_words (d := d.reset) hwords (by omega) mConcat
  rw [show d.reset.surrogate = 0 from rfl, foldl_addWord_text, nil_append, ← codes_unicode]
    at hread
  refine ⟨_, ((2 * (text.flatMap units).length : Nat) : Int), rfl, ?_⟩
  rw [readUserData, if_pos rfl, hunicode,
    show 4 * (text.flatMap units).length / 2 = 2 * (text.flatMap units).length by omega, hread]
  rfl

theorem readUserData_septets (hplain : ∀ c ∈ text, Plain c) (hok : (codes text).g7isok)
    (hlen : (codes text).g7hex.length ≤ 320) (mConcat : Option Str) (hopen : d.gTableNbr ≠ some 2) :
    ∃ u n d', userData ⟨none, ['0', '0'], (codes text).g7hex⟩ = some u ∧
      readUserData u mConcat d.reset = some (n, ⟨(text.map shown).flatMap utf8, mConcat, d'⟩) := by
  rw [codes_g7isok] at hok
  obtain ⟨septets, hs, hhexes, hread⟩ := exists_septets hplain hok
  have hs256 : ∀ v ∈ septets, v < 256 := fun v hv => (hs v hv).trans (by decide)
  rw [codes_g7hex, hhexes] at hlen ⊢
  rw [length_hexes hs256] at hlen
  obtain ⟨octets, hpack, hpacked⟩ := pack_hexes hs (by omega)
  have hroom := hpacked.length
  have htext := pdu2text_plain hs hpacked.octet (by omega) hpacked.same (by omega) mConcat d.reset
  obtain ⟨g', hadd⟩ := hread [] d.gTableNbr hopen
  rw [show d.reset = ⟨d.gTableNbr, 0⟩ from rfl, hadd, nil_append] at htext
  refine ⟨⟨['0', '0'], formatX 2 septets.length, hexes octets⟩, 1, ⟨g', 0⟩, ?_, htext⟩
  rw [userData, if_pos ⟨rfl, rfl⟩]
  simp only
  rw [length_hexes hs256, Nat.mul_div_cancel_left _ Nat.two_pos, hpack]
  rfl

/-- A text is read as it was sent, where a paragraph separator is a newline. -/
theorem readUserData_userData (hplain : ∀ c ∈ text, Plain c)
    (h : chktxt (text.flatMap utf8) = some r) (hmsg : r.msg = none) (mConcat : Option Str)
    (hopen : r.dcs = ['0', '0'] → d.gTableNbr ≠ some 2) :
    ∃ u n d', userData r = some u ∧
      readUserData u mConcat d.reset =
        some (n, ⟨(text.map shown).flatMap utf8, mConcat, d'⟩) := by
  rcases chktxt_accepts h hmsg with ⟨hok, hlen, rfl⟩ | ⟨hlen, rfl⟩
  · exact readUserData_septets hplain hok hlen mConcat (hopen rfl)
  · obtain ⟨u, n, hdata, hread⟩ := readUserData_words hlen mConcat d
    exact ⟨u, n, d.reset, hdata, hread⟩

/-- A text with an escape, behind a message that was read to its end. -/
theorem readUserData_userData_euro : ∃ u n d',
    userData ⟨none, ['0', '0'], ['4', '1', '1', 'B', '6', '5']⟩ = some u ∧
      readUserData u none (Decoder.reset ⟨some 1, 0⟩) =
        some (n, ⟨(['A', '€'].map shown).flatMap utf8, none, d'⟩) := by
  refine readUserData_userData (by simp [Plain]) ?_ rfl none (fun _ => by decide)
  rw [chktxt, if_neg (by decide), chkLoop_text]
  rfl

/-- The paragraph separator is sent, and a newline is read. -/
theorem readUserData_separator : ¬ ∀ (text : List Char) (r : Checked) (mConcat : Option Str)
    (d : Decoder), (∀ c ∈ text, Plain c) → chktxt (text.flatMap utf8) = some r → r.msg = none →
      ∃ u n d', userData r = some u ∧
        readUserData u mConcat d.reset = some (n, ⟨text.flatMap utf8, mConcat, d'⟩) := by
  intro h
  have hlen : (codes ['\u2029']).unicode.length ≤ 280 := by decide
  obtain ⟨u, n, d', hdata, hread⟩ := h ['\u2029'] ⟨none, ['0', '8'], (codes ['\u2029']).unicode⟩
    none ⟨none, 0⟩ (by simp [Plain]) (by
      rw [chktxt, if_neg (by decide), chkLoop_text]
      rfl) rfl
  obtain ⟨u', n', hdata', hread'⟩ := readUserData_words hlen none ⟨none, 0⟩
  rw [some.inj (hdata.symm.trans hdata'), hread'] at hread
  simp only [some.injEq, Prod.mk.injEq, Decoded.mk.injEq] at hread
  exact absurd hread.2.1 (by decide)

end ModemSupport.Rooter.SmsRead
