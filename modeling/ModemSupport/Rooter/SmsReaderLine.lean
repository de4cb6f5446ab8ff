import ModemSupport.Rooter.SmsReaderFields

/-! The reader of `smsread.lua` comes to the end of a line unless that is one of those that end
it. -/

namespace ModemSupport.Rooter.SmsRead

open Lib.Text SmsFile List Option

variable {s pdu line mIndex mRead : Str} {n messageid : Nat} {m : Message} {c : Deletes}
  {r : Reader}

/-- How a number of septets is written in front of letters. -/
structure Counts (format : Nat → Str) (count : Nat → Nat) : Prop where
  length : ∀ k ≤ 36, (format k).length = 2
  octet : ∀ k ≤ 36, ∀ s, octet2binCheck (format k ++ s) = count k

theorem counts_upperHex : Counts upperHex id where
  length k hk := by
    rw [upperHex, formatX_two (by omega)]
    rfl
  octet _ hk _ := octet2binCheck_formatX (by omega)

theorem octet2binCheck_pair {a b : Char} : octet2binCheck (a :: b :: s) = octet2binCheck [a, b] :=
  rfl

theorem counts_lowerHex : Counts lowerHex lowerCount where
  length k hk := by
    rw [lowerHex, formatX_two (by omega)]
    rfl
  octet k hk s := by
    have hall : ∀ k ≤ 36, octet2binCheck ([hexDigit (k / 16), hexDigit (k % 16)].map Char.toLower) =
        lowerCount k := by
      decide
    rw [lowerHex, formatX_two (by omega)]
    exact octet2binCheck_pair.trans (hall k hk)

theorem not_addressCrash {count : Nat → Nat} (h : AddressRead count pdu n) :
    ¬ AddressCrash pdu := by
  rintro ⟨-, hplain, hlen⟩
  have hread := h.2
  rw [if_neg hplain] at hread
  omega

theorem address_cases {format : Nat → Str} {count : Nat → Nat} (plain : Str → Str) (plus : Bool)
    (h : Counts format count) (pdu : Str) (m : Message) (hpos : 1 ≤ n) (hn : n ≤ 64) :
    (AddressCrash pdu ∧ address format plain plus pdu n m = none) ∨
      (¬ AddressCrash pdu ∧ ¬ AddressRead count pdu n ∧
        ∃ m', address format plain plus pdu n m = some (none, m')) ∨
      (AddressRead count pdu n ∧ ∃ m', address format plain plus pdu n m =
        some (some (pdu.drop (4 + n + n % 2)), m') ∧ m'.mNumber.isSome ∧
          m'.mWithUdh = m.mWithUdh) := by
  have hrest : 4 + (n + n % 2) = 4 + n + n % 2 := by omega
  rw [address]
  simp only [sub_succ, drop_drop, ← octetAt_zero, octetAt_drop, Nat.reduceAdd, hrest]
  by_cases htype : octetAt pdu 2 < 0x80
  · rw [if_pos htype]
    exact .inr (.inl ⟨fun h => by have := h.1; omega, fun h => by have := h.1; omega, m, rfl⟩)
  rw [if_neg htype]
  by_cases hletters : bitand (octetAt pdu 2).toNat 112 = 80
  · have hno : ¬ AddressCrash pdu := fun h => h.2.1 hletters
    have hread : AddressRead count pdu n ↔
        n + n % 2 + 4 ≤ pdu.length ∧ OctetsAt pdu 4 ((count (n * 4 / 7) * 7 + 7) / 8) := by
      rw [AddressRead, if_pos hletters, and_iff_right (not_lt.mp htype)]
    rw [if_pos hletters, length_drop]
    by_cases hlen : pdu.length - 4 < n + n % 2
    · rw [if_pos hlen]
      exact .inr (.inl ⟨hno, fun h => by have := (hread.mp h).1; omega, m, rfl⟩)
    rw [if_neg hlen]
    have hfirst : octetAt (format (n * 4 / 7) ++ pdu.drop 4) 0 = count (n * 4 / 7) :=
      h.octet _ (by omega) _
    have hoctets : OctetsAt (format (n * 4 / 7) ++ pdu.drop 4) 2 ((count (n * 4 / 7) * 7 + 7) / 8) ↔
        OctetsAt pdu 4 ((count (n * 4 / 7) * 7 + 7) / 8) := by
      refine forall₂_congr fun j _ => ?_
      have hdrop : (format (n * 4 / 7) ++ pdu.drop 4).drop (2 + 2 * j) = pdu.drop (4 + 2 * j) := by
        rw [← h.length (n * 4 / 7) (by omega), ← drop_drop, drop_left, drop_drop]
      rw [octetAt, hdrop, octetAt]
    rcases pdu2text_cases (format (n * 4 / 7) ++ pdu.drop 4) 0 m.mConcat m.decoder with
      ⟨hudh, -⟩ | ⟨-, r, res, hres, hsign, hone⟩
    · exact absurd hudh (Nat.lt_irrefl 0)
    · rw [hfirst, and_iff_right (Int.natCast_nonneg _), Int.toNat_natCast, hoctets] at hone
      rw [hres, map_some]
      rcases hsign with hsign | hsign
      · rw [if_neg (by omega)]
        exact .inr (.inr ⟨hread.mpr ⟨by omega, hone.mp hsign⟩, _, rfl, rfl, rfl⟩)
      · rw [if_pos hsign]
        exact .inr (.inl ⟨hno, fun h => by have := hone.mpr (hread.mp h).2; omega, _, rfl⟩)
  · have hread : AddressRead count pdu n ↔ 6 ≤ pdu.length := by
      rw [AddressRead, if_neg hletters, and_iff_right (not_lt.mp htype)]
    have hcrash : AddressCrash pdu ↔ pdu.length < 6 := by
      rw [AddressCrash, and_iff_right (not_lt.mp htype), and_iff_right hletters]
    have hlen : (subTo (pdu.drop 4) 1 (n + n % 2 + 1)).length =
        min (n + n % 2 + 1) (pdu.length - 4) := by
      rw [subTo_succ, drop_zero, length_take, length_drop, Nat.sub_zero]
    rw [if_neg hletters]
    cases hswap : swapchars (subTo (pdu.drop 4) 1 (n + n % 2 + 1)) with
    | none =>
      have hshort := swapchars_eq_none_iff.mp hswap
      exact .inl ⟨hcrash.mpr (by omega), rfl⟩
    | some number =>
      have hlong : ¬ (subTo (pdu.drop 4) 1 (n + n % 2 + 1)).length < 2 := fun hlt =>
        some_ne_none _ (hswap.symm.trans (swapchars_eq_none_iff.mpr hlt))
      exact .inr (.inr ⟨hread.mpr (by omega), _, rfl, rfl, rfl⟩)

theorem timezone_eq_none_iff : timezone s = none ↔ ¬ ZoneAt s 6 := by
  have hhigh : tonumber16 (subTo s 8 8) = none ↔ ¬ HexAt s 7 := tonumber16_subTo
  have hlow : tonumber16 (subTo s 7 7) = none ↔ ¬ HexAt s 6 := tonumber16_subTo
  rw [timezone, ZoneAt]
  cases h : tonumber16 (subTo s 8 8) with
  | none => exact iff_of_true rfl fun hzone => hhigh.mp h hzone.2
  | some _ =>
    have hhigh' : HexAt s 7 := not_not.mp fun hn => some_ne_none _ (h ▸ hhigh.mpr hn)
    cases h' : tonumber16 (subTo s 7 7) with
    | none => exact iff_of_true rfl fun hzone => hlow.mp h' hzone.1
    | some _ =>
      have hlow' : HexAt s 6 := not_not.mp fun hn => some_ne_none _ (h' ▸ hlow.mpr hn)
      exact iff_of_false (some_ne_none _) fun h => h ⟨hlow', hhigh'⟩

theorem parseText_cases (ptr : Str) (m : Message) :
    (m.mWithUdh > 0 ∧ HeaderCrash ptr ∧ parseText ptr m = none) ∨
      ((m.mWithUdh > 0 → ¬ HeaderCrash ptr) ∧ ∃ r m', parseText ptr m = some (r, m') ∧
        (1 ≤ r ↔ TextRead m.mAlphabet (m.mWithUdh > 0) ptr) ∧ m'.mNumber = m.mNumber ∧
          m'.mText.isSome) := by
  rw [parseText]
  by_cases halphabet : m.mAlphabet ≤ 0
  · rw [if_pos halphabet]
    rcases pdu2text_cases ptr m.mWithUdh m.mConcat m.decoder with
      ⟨hudh, hcrash, hnone⟩ | ⟨hno, r, res, hres, -, hone⟩
    · exact .inl ⟨hudh, hcrash, by rw [hnone]; rfl⟩
    · refine .inr ⟨hno, r, m.decoded res, by rw [hres]; rfl, ?_, rfl, rfl⟩
      rw [hone, TextRead, if_pos halphabet]
      exact and_congr_right fun _ => (and_iff_right hno).symm
  · rw [if_neg halphabet]
    rcases pdu2binary_cases m.mAlphabet ptr m.mWithUdh m.mConcat m.decoder with
      ⟨hudh, hcrash, hnone⟩ | ⟨hno, r, res, hres, hone⟩
    · exact .inl ⟨hudh, hcrash, by rw [hnone]; rfl⟩
    · refine .inr ⟨hno, r, m.decoded res, by rw [hres]; rfl, ?_, rfl, rfl⟩
      rw [hone, TextRead, if_neg halphabet]
      exact and_congr_right fun _ => (and_iff_right hno).symm

theorem parseDeliverBody_cases (pdu : Str) (m : Message) :
    (BodyCrash (m.mWithUdh > 0) pdu ∧ parseDeliverBody pdu m = none) ∨
      (¬ BodyCrash (m.mWithUdh > 0) pdu ∧ ∃ r m', parseDeliverBody pdu m = some (r, m') ∧
        (1 ≤ r ↔ BodyRead (m.mWithUdh > 0) pdu) ∧ m'.mNumber = m.mNumber ∧
          (1 ≤ r → m'.mText.isSome)) := by
  have hrejected : ∀ m' : Message, m'.mNumber = m.mNumber → ¬ Dated pdu →
      ¬ BodyCrash (m.mWithUdh > 0) pdu ∧ ∃ r m'', some ((0 : Int), m') = some (r, m'') ∧
        (1 ≤ r ↔ BodyRead (m.mWithUdh > 0) pdu) ∧ m''.mNumber = m.mNumber ∧
          (1 ≤ r → m''.mText.isSome) :=
    fun m' hnumber h => ⟨fun hc => h hc.1, 0, m', rfl, iff_of_false (by decide) fun hr => h hr.1,
      hnumber, fun h => absurd h (by decide)⟩
  rw [parseDeliverBody]
  simp only [sub_succ, drop_drop, ← octetAt_zero, octetAt_drop, Nat.reduceAdd]
  by_cases hlen : pdu.length < 20
  · rw [if_pos hlen]
    exact .inr (hrejected m rfl fun h => by have := h.1; omega)
  rw [if_neg hlen]
  by_cases hfirst : octetAt pdu 0 < 0
  · rw [if_pos hfirst]
    exact .inr (hrejected m rfl fun h => by have := h.2.1; omega)
  rw [if_neg hfirst]
  by_cases hsecond : octetAt pdu 2 < 0
  · rw [if_pos hsecond]
    exact .inr (hrejected m rfl fun h => by have := h.2.2.1; omega)
  rw [if_neg hsecond]
  by_cases halphabet : bitand (octetAt pdu 2).toNat 0x0C / 4 = 3
  · rw [if_pos halphabet]
    exact .inr (hrejected _ rfl fun h => h.2.2.2 halphabet)
  have hdated : Dated pdu :=
    ⟨not_lt.mp hlen, not_lt.mp hfirst, not_lt.mp hsecond, halphabet⟩
  have hdate : noDigits (pdu.drop 4) = some false := by
    rw [noDigits_eq, if_pos (by rw [length_drop]; omega)]
  have htime : noDigits (pdu.drop 10) = some false := by
    rw [noDigits_eq, if_pos (by rw [length_drop]; omega)]
  have hzone : timezone (pdu.drop 10) = none ↔ ¬ ZoneAt pdu 16 := by
    rw [timezone_eq_none_iff, ZoneAt, ZoneAt, HexAt, HexAt, List.getElem?_drop, List.getElem?_drop,
      HexAt, HexAt]
  rw [if_neg halphabet, hdate, bind_some, if_neg Bool.false_ne_true, htime,
    bind_some, if_neg Bool.false_ne_true]
  cases hz : timezone (pdu.drop 10) with
  | none => exact .inl ⟨⟨hdated, fun h => absurd h (hzone.mp hz)⟩, rfl⟩
  | some zone =>
    have hzone' : ZoneAt pdu 16 := not_not.mp fun h => some_ne_none _ (hz ▸ hzone.mpr h)
    have hoctet : ¬ octetAt pdu 16 < 0 := not_lt.mpr (octetAt_nonneg_iff.mpr hzone')
    rw [bind_some, if_neg hoctet]
    obtain ⟨m', hm', hnumber, hudh, halph⟩ : ∃ m' : Message, parseText (pdu.drop 18) m' =
        parseText (pdu.drop 18)
          { m with
            mAlphabet := alphabet pdu
            mDcs := some (octetAt pdu 2).toNat
            mDate := some (swapped (pdu.drop 4) '-')
            mTime := some (swapped (pdu.drop 10) ':' ++ ' ' :: zone ++ ['h']) } ∧
        m'.mNumber = m.mNumber ∧ m'.mWithUdh = m.mWithUdh ∧ m'.mAlphabet = alphabet pdu :=
      ⟨_, rfl, rfl, rfl, rfl⟩
    have hcases := parseText_cases (pdu.drop 18) m'
    rw [hm', hnumber, hudh, halph] at hcases
    rcases hcases with ⟨hpos, hcrash, hnone⟩ | ⟨hno, r, m'', hres, hone, hkept, htext⟩
    · exact .inl ⟨⟨hdated, fun _ => ⟨hpos, hcrash⟩⟩, hnone⟩
    · refine .inr ⟨fun h => hno (h.2 hzone').1 (h.2 hzone').2, r, m'', hres, ?_, hkept,
        fun _ => htext⟩
      rw [hone, BodyRead, and_iff_right hdated, and_iff_right hzone']

theorem parseDeliver_cases (pdu : Str) (m : Message) (hnumber : m.mNumber = none) :
    (DeliverCrash (m.mWithUdh > 0) pdu ∧ (parseDeliver pdu m = none ∨ ∃ r m',
        parseDeliver pdu m = some (r, m') ∧ 1 ≤ r ∧ m'.mNumber = none)) ∨
      (¬ DeliverCrash (m.mWithUdh > 0) pdu ∧ ∃ r m', parseDeliver pdu m = some (r, m') ∧
        (1 ≤ r → m'.mNumber.isSome ∧ m'.mText.isSome)) := by
  rw [parseDeliver]
  simp only [sub_succ]
  rw [show maxNumber = 64 from rfl, ← octetAt_zero]
  by_cases hlen : pdu.length < 4
  · rw [if_pos hlen]
    exact .inr ⟨fun h => by have := h.1; omega, 0, m, rfl, fun h => absurd h (by decide)⟩
  rw [if_neg hlen]
  by_cases hrange : octetAt pdu 0 < 0 ∨ octetAt pdu 0 > 64
  · rw [if_pos hrange]
    refine .inr ⟨?_, 0, m, rfl, fun h => absurd h (by decide)⟩
    rintro ⟨-, ⟨hzero, -⟩ | ⟨n, hn, -, hle, -⟩⟩
    · omega
    · omega
  rw [if_neg hrange]
  by_cases hzero : octetAt pdu 0 = 0
  · -- a message without an address, whose number stays nil
    have hcrash : DeliverCrash (m.mWithUdh > 0) pdu ↔
        BodyCrash (m.mWithUdh > 0) (pdu.drop 4) ∨ BodyRead (m.mWithUdh > 0) (pdu.drop 4) := by
      rw [DeliverCrash, and_iff_right (not_lt.mp hlen), and_iff_right hzero]
      refine or_iff_left ?_
      rintro ⟨n, hn, hpos, -⟩
      omega
    rw [if_pos hzero, hcrash]
    rcases parseDeliverBody_cases (pdu.drop 4) m with
      ⟨hbody, hnone⟩ | ⟨hbody, r, m', hres, hread, hkept, -⟩
    · exact .inl ⟨.inl hbody, .inl hnone⟩
    · by_cases hpos : 1 ≤ r
      · exact .inl ⟨.inr (hread.mp hpos), .inr ⟨r, m', hres, hpos, hkept.trans hnumber⟩⟩
      · exact .inr ⟨fun h => h.elim hbody fun h => hpos (hread.mpr h), r, m', hres,
          fun h => absurd h hpos⟩
  · obtain ⟨n, hn⟩ := Int.eq_ofNat_of_zero_le (show 0 ≤ octetAt pdu 0 by omega)
    have hcrash : DeliverCrash (m.mWithUdh > 0) pdu ↔ AddressCrash pdu ∨
        AddressRead id pdu n ∧ BodyCrash (m.mWithUdh > 0) (pdu.drop (4 + n + n % 2)) := by
      rw [DeliverCrash, and_iff_right (not_lt.mp hlen), or_iff_right fun h => hzero h.1]
      constructor
      · rintro ⟨n', hn', -, -, h⟩
        obtain rfl : n = n' := by omega
        exact h
      · exact fun h => ⟨n, hn, by omega, by omega, h⟩
    have htoNat : (octetAt pdu 0).toNat = n := by rw [hn, Int.toNat_natCast]
    rw [if_neg hzero, htoNat, hcrash]
    rcases address_cases withoutNewlines true counts_upperHex pdu m (n := n) (by omega)
        (by omega) with ⟨haddress, hnone⟩ | ⟨hno, hread, m', hres⟩ | ⟨hread, m', hres, hsome, hudh⟩
    · exact .inl ⟨.inl haddress, .inl (by rw [hnone]; rfl)⟩
    · refine .inr ⟨fun h => h.elim hno fun h => hread h.1, 0, m', by rw [hres]; rfl,
        fun h => absurd h (by decide)⟩
    · rw [hres, bind_some, or_iff_right (not_addressCrash hread), and_iff_right hread]
      rcases parseDeliverBody_cases (pdu.drop (4 + n + n % 2)) m' with
        ⟨hbody, hnone⟩ | ⟨hbody, r, m'', hres', -, hkept, htext⟩
      · rw [hudh] at hbody
        exact .inl ⟨hbody, .inl hnone⟩
      · rw [hudh] at hbody
        exact .inr ⟨hbody, r, m'', hres', fun hpos => ⟨by rwa [hkept], htext hpos⟩⟩

theorem timestamp_cases (s : Str) :
    (s.length < 12 ∧ timestamp s = none) ∨
      (12 ≤ s.length ∧ octetAt s 12 < 0 ∧ ∃ a b, timestamp s = some (a, b, none)) ∨
      (12 ≤ s.length ∧ 0 ≤ octetAt s 12 ∧
        ∃ a b, timestamp s = some (a, b, some (s.drop 14))) := by
  rw [timestamp]
  simp only [sub_succ, drop_drop, ← octetAt_zero, octetAt_drop, Nat.reduceAdd]
  rw [noDigits_eq, noDigits_eq, length_drop]
  by_cases hdate : 6 ≤ s.length
  · rw [if_pos hdate, bind_some, if_neg Bool.false_ne_true]
    by_cases htime : 6 ≤ s.length - 6
    · rw [if_pos htime, map_some, if_neg Bool.false_ne_true]
      by_cases hzone : octetAt s 12 < 0
      · rw [if_pos hzone]
        exact .inr (.inl ⟨by omega, hzone, _, _, rfl⟩)
      · rw [if_neg hzone]
        exact .inr (.inr ⟨by omega, not_lt.mp hzone, _, _, rfl⟩)
    · rw [if_neg htime]
      exact .inl ⟨by omega, rfl⟩
  · rw [if_neg hdate]
    exact .inl ⟨by omega, rfl⟩

theorem parseReportBody_cases (messageid : Nat) (pdu : Str) (m : Message) :
    (14 ≤ pdu.length ∧ 0 ≤ octetAt pdu 12 ∧ pdu.length < 26 ∧
        parseReportBody messageid pdu m = none) ∨
      (¬ (14 ≤ pdu.length ∧ 0 ≤ octetAt pdu 12 ∧ pdu.length < 26) ∧ ∃ r m',
        parseReportBody messageid pdu m = some (r, m') ∧ m'.mNumber = m.mNumber ∧
          (1 ≤ r → m'.mText.isSome)) := by
  have hrejected : ∀ m' : Message, m'.mNumber = m.mNumber → ∃ r m'',
      some ((0 : Int), m') = some (r, m'') ∧ m''.mNumber = m.mNumber ∧
        (1 ≤ r → m''.mText.isSome) :=
    fun m' hnumber => ⟨0, m', rfl, hnumber, fun h => absurd h (by decide)⟩
  rw [parseReportBody]
  by_cases hlen : pdu.length < 14
  · rw [if_pos hlen]
    exact .inr ⟨fun h => by omega, hrejected m rfl⟩
  rw [if_neg hlen]
  rcases timestamp_cases pdu with ⟨hshort, -⟩ | ⟨-, hzone, a, b, hres⟩ | ⟨-, hzone, a, b, hres⟩
  · omega
  · rw [hres]
    exact .inr ⟨fun h => by omega, hrejected _ rfl⟩
  · rw [hres, bind_some]
    rcases timestamp_cases (pdu.drop 14) with
      ⟨hshort, hnone⟩ | ⟨hlong, -, a', b', hres'⟩ | ⟨hlong, -, a', b', hres'⟩
    · rw [length_drop] at hshort
      exact .inl ⟨by omega, hzone, by omega, by simp only [hnone, map_none]⟩
    · rw [length_drop] at hlong
      simp only [hres', map_some]
      exact .inr ⟨fun h => by omega, hrejected _ rfl⟩
    · rw [length_drop] at hlong
      simp only [hres', map_some]
      refine .inr ⟨fun h => by omega, ?_⟩
      by_cases hstatus : octet2binCheck ((pdu.drop 14).drop 14) < 0
      · rw [if_pos hstatus]
        exact hrejected _ rfl
      · rw [if_neg hstatus]
        exact ⟨_, _, rfl, rfl, fun _ => rfl⟩

theorem parseStatusReport_cases (pdu : Str) (m : Message) :
    (ReportCrash pdu ∧ parseStatusReport pdu m = none) ∨
      (¬ ReportCrash pdu ∧ ∃ r m', parseStatusReport pdu m = some (r, m') ∧
        (1 ≤ r → m'.mNumber.isSome ∧ m'.mText.isSome)) := by
  rw [parseStatusReport]
  simp only [← octetAt_zero, sub_succ, octetAt_drop, maxNumber, Nat.add_zero]
  by_cases hlen : pdu.length < 6
  · rw [if_pos hlen]
    exact .inr ⟨fun h => by have := h.1; omega, 0, m, rfl, fun h => absurd h (by decide)⟩
  rw [if_neg hlen]
  by_cases hid : octetAt pdu 0 < 0
  · rw [if_pos hid]
    exact .inr ⟨fun h => by have := h.2.1; omega, 0, m, rfl, fun h => absurd h (by decide)⟩
  rw [if_neg hid]
  by_cases hrange : octetAt pdu 2 < 1 ∨ octetAt pdu 2 > 64
  · rw [if_pos hrange]
    refine .inr ⟨?_, 0, m, rfl, fun h => absurd h (by decide)⟩
    rintro ⟨-, -, n, hn, hpos, hle, -⟩
    omega
  rw [if_neg hrange]
  obtain ⟨n, hn⟩ := Int.eq_ofNat_of_zero_le (show 0 ≤ octetAt pdu 2 by omega)
  have hcrash : ReportCrash pdu ↔ AddressCrash (pdu.drop 2) ∨
      AddressRead lowerCount (pdu.drop 2) n ∧ 6 + n + n % 2 + 14 ≤ pdu.length ∧
        0 ≤ octetAt pdu (6 + n + n % 2 + 12) ∧ pdu.length < 6 + n + n % 2 + 26 := by
    rw [ReportCrash, and_iff_right (not_lt.mp hlen), and_iff_right (not_lt.mp hid)]
    constructor
    · rintro ⟨n', hn', -, -, h⟩
      obtain rfl : n = n' := by omega
      exact h
    · exact fun h => ⟨n, hn, by omega, by omega, h⟩
  have htoNat : (octetAt pdu 2).toNat = n := by rw [hn, Int.toNat_natCast]
  rw [htoNat, hcrash]
  rcases address_cases id false counts_lowerHex (pdu.drop 2) m (n := n) (by omega)
      (by omega) with ⟨haddress, hnone⟩ | ⟨hno, hread, m', hres⟩ | ⟨hread, m', hres, hsome, -⟩
  · exact .inl ⟨.inl haddress, by rw [hnone]; rfl⟩
  · exact .inr ⟨fun h => h.elim hno fun h => hread h.1, 0, m', by rw [hres]; rfl,
      fun h => absurd h (by decide)⟩
  · have hdrop : (pdu.drop 2).drop (4 + n + n % 2) = pdu.drop (6 + n + n % 2) := by
      rw [drop_drop, show 2 + (4 + n + n % 2) = 6 + n + n % 2 by omega]
    have hshort : (14 ≤ (pdu.drop (6 + n + n % 2)).length ∧
        0 ≤ octetAt (pdu.drop (6 + n + n % 2)) 12 ∧ (pdu.drop (6 + n + n % 2)).length < 26) ↔
          6 + n + n % 2 + 14 ≤ pdu.length ∧ 0 ≤ octetAt pdu (6 + n + n % 2 + 12) ∧
            pdu.length < 6 + n + n % 2 + 26 := by
      rw [octetAt_drop, length_drop]
      constructor
      · rintro ⟨h1, h2, h3⟩
        exact ⟨by omega, h2, by omega⟩
      · rintro ⟨h1, h2, h3⟩
        exact ⟨by omega, h2, by omega⟩
    rw [hres, bind_some, hdrop, or_iff_right (not_addressCrash hread),
      and_iff_right hread, ← hshort]
    rcases parseReportBody_cases (octetAt pdu 0).toNat (pdu.drop (6 + n + n % 2)) m' with
      ⟨h1, h2, h3, hnone⟩ | ⟨hno, r, m'', hres', hkept, htext⟩
    · exact .inl ⟨⟨h1, h2, h3⟩, hnone⟩
    · exact .inr ⟨hno, r, m'', hres', fun hpos => ⟨by rwa [hkept], htext hpos⟩⟩

theorem parse_cases (line : Str) (m : Message) (hnumber : m.mNumber = none)
    (hudh : m.mWithUdh = 0) :
    (Crash line ∧ (parse line m = none ∨ ∃ r m', parse line m = some (r, m') ∧ 0 < r ∧
        m'.mNumber = none)) ∨
      (¬ Crash line ∧ ∃ r m', parse line m = some (r, m') ∧
        (0 < r → m'.mNumber.isSome ∧ m'.mText.isSome)) := by
  rw [parse]
  rcases parseSMSC_cases line with ⟨n, hsmsc, hres⟩ | ⟨hno, hres⟩
  case inr =>
    rw [hres]
    refine .inr ⟨?_, 0, m, rfl, fun h => absurd h (by decide)⟩
    rintro ⟨n, -, hsmsc, -⟩
    exact hno n hsmsc
  rw [hres, bind_some]
  simp only [← octetAt_zero, octetAt_drop, sub_succ, drop_drop, Nat.add_zero]
  have hfirst : ∀ n' : Nat, SmscRead line n' → n' = n := by
    intro n' h'
    have h1 := h'.1
    have h2 := hsmsc.1
    omega
  by_cases hneg : octetAt line (2 * n + 2) < 0
  · rw [if_pos hneg]
    refine .inr ⟨?_, 0, m, rfl, fun h => absurd h (by decide)⟩
    rintro ⟨n', first, hsmsc', hoctet, -⟩
    rw [hfirst n' hsmsc'] at hoctet
    omega
  rw [if_neg hneg]
  obtain ⟨first, hoctet⟩ := Int.eq_ofNat_of_zero_le (not_lt.mp hneg)
  have hcrash : Crash line ↔
      bitand first 3 = 0 ∧ DeliverCrash (bitand first 0x40 > 0) (line.drop (2 * n + 4)) ∨
        bitand first 3 = 2 ∧ ReportCrash (line.drop (2 * n + 4)) := by
    constructor
    · rintro ⟨n', first', hsmsc', hoctet', h⟩
      obtain rfl := hfirst n' hsmsc'
      obtain rfl : first = first' := by omega
      exact h
    · exact fun h => ⟨n, first, hsmsc, hoctet, h⟩
  have htoNat : (octetAt line (2 * n + 2)).toNat = first := by rw [hoctet, Int.toNat_natCast]
  rw [htoNat, hcrash]
  obtain ⟨m', hm', hnumber', hudh'⟩ : ∃ m' : Message,
      (if bitand first 0x40 > 0 then { m with mWithUdh := 1 } else m) = m' ∧ m'.mNumber = none ∧
        (m'.mWithUdh > 0) = (bitand first 0x40 > 0) := by
    refine ⟨_, rfl, ?_, ?_⟩
    · split
      · exact hnumber
      · exact hnumber
    · split
      case isTrue h => exact propext (iff_of_true Nat.one_pos h)
      case isFalse h => exact propext (iff_of_false (by rw [hudh]; decide) h)
  rw [hm']
  by_cases hdeliver : bitand first 3 = 0
  · have hline : (bitand first 3 = 0 ∧
        DeliverCrash (bitand first 0x40 > 0) (line.drop (2 * n + 4)) ∨
          bitand first 3 = 2 ∧ ReportCrash (line.drop (2 * n + 4))) ↔
          DeliverCrash (bitand first 0x40 > 0) (line.drop (2 * n + 4)) :=
      ⟨fun h => h.elim And.right fun h => absurd (hdeliver.symm.trans h.1) (by decide),
        fun h => .inl ⟨hdeliver, h⟩⟩
    rw [if_pos hdeliver, hline]
    have hcases := parseDeliver_cases (line.drop (2 * n + 4)) m' hnumber'
    rw [hudh'] at hcases
    rcases hcases with ⟨hc, hnone | ⟨r, m'', hres', hpos, hkept⟩⟩ | ⟨hc, r, m'', hres', hset⟩
    · exact .inl ⟨hc, .inl (by rw [hnone]; rfl)⟩
    · refine .inl ⟨hc, .inr ⟨1, m'', ?_, by decide, hkept⟩⟩
      rw [hres', map_some, if_neg (by omega)]
    · refine .inr ⟨hc, _, m'', by rw [hres', map_some], fun hpos => hset ?_⟩
      by_contra hlt
      rw [if_pos (by omega)] at hpos
      exact absurd hpos (by decide)
  by_cases hreport : bitand first 3 = 2
  · have hline : (bitand first 3 = 0 ∧
        DeliverCrash (bitand first 0x40 > 0) (line.drop (2 * n + 4)) ∨
          bitand first 3 = 2 ∧ ReportCrash (line.drop (2 * n + 4))) ↔
          ReportCrash (line.drop (2 * n + 4)) :=
      ⟨fun h => h.elim (fun h => absurd h.1 hdeliver) And.right, fun h => .inr ⟨hreport, h⟩⟩
    rw [if_neg hdeliver, if_pos hreport, hline]
    rcases parseStatusReport_cases (line.drop (2 * n + 4)) m' with
      ⟨hc, hnone⟩ | ⟨hc, r, m'', hres', hset⟩
    · exact .inl ⟨hc, .inl hnone⟩
    · exact .inr ⟨hc, r, m'', hres', hset⟩
  · rw [if_neg hdeliver, if_neg hreport]
    refine .inr ⟨?_, 0, m', rfl, fun h => absurd h (by decide)⟩
    rintro (⟨h, -⟩ | ⟨h, -⟩)
    · exact hdeliver h
    · exact hreport h

/-- The line is read without an error, and one that is rejected leaves the table and the slots as
they are. -/
def Handled (c : Deletes) (mIndex mRead pdu : Str) (r : Reader) : Prop :=
  ∃ r', readpdu c mIndex mRead pdu r = some r' ∧
    ∀ flag m, parse pdu r.message.reset = some (flag, m) → flag ≤ 0 →
      r'.t = r.t ∧ r'.tptr = r.tptr ∧ r'.delslots = r.delslots

theorem store_isSome (c : Deletes) (mIndex mRead : Str) (r : Reader) (hnumber : m.mNumber.isSome)
    (htext : m.mText.isSome) : (store c mIndex mRead r m).isSome := by
  obtain ⟨number, hnumber⟩ := isSome_iff_exists.mp hnumber
  obtain ⟨text, htext⟩ := isSome_iff_exists.mp htext
  rw [store, hnumber, htext]
  cases m.mConcat with
  | none => rfl
  | some _ => rfl

theorem not_handled_of_crash (hcrash : Crash pdu) : ¬ Handled c mIndex mRead pdu r := by
  rintro ⟨r', hr', -⟩
  rw [readpdu] at hr'
  rcases parse_cases pdu r.message.reset rfl rfl with
    ⟨-, hnone | ⟨flag, m, hres, hpos, hnumber⟩⟩ | ⟨hnot, -⟩
  · rw [hnone] at hr'
    cases hr'
  · -- the message has no number to store
    rw [hres, bind_some, if_pos hpos, store, hnumber] at hr'
    cases hr'
  · exact hnot hcrash

theorem handled_of_not_crash (hcrash : ¬ Crash pdu) : Handled c mIndex mRead pdu r := by
  rw [Handled, readpdu]
  rcases parse_cases pdu r.message.reset rfl rfl with ⟨h, -⟩ | ⟨-, flag, m, hres, hset⟩
  · exact absurd h hcrash
  rw [hres, bind_some]
  by_cases hpos : flag > 0
  · obtain ⟨r', hr'⟩ := isSome_iff_exists.mp
      (store_isSome c mIndex mRead r (hset hpos).1 (hset hpos).2)
    refine ⟨r', by rw [if_pos hpos, hr'], fun flag' m' hsome hle => ?_⟩
    cases hsome
    exact absurd hpos (not_lt.mpr hle)
  · exact ⟨{ r with message := m }, by rw [if_neg hpos], fun _ _ _ _ => ⟨rfl, rfl, rfl⟩⟩

/-- The reader handles every line but those that end it, in whatever state it is. -/
theorem handled_iff (c : Deletes) (mIndex mRead pdu : Str) (r : Reader) :
    Handled c mIndex mRead pdu r ↔ ¬ Crash pdu :=
  ⟨fun h hcrash => not_handled_of_crash hcrash h, handled_of_not_crash⟩

/-- An empty message whose sender has an empty address. -/
theorem not_handled : ¬ Handled ⟨[], false⟩ ['1'] ['0'] (['0', '0', '0', '4'] ++
    replicate 24 '0') ⟨fun _ => none, 1, [], ⟨0, none, -1, none, none, none, none, none,
      ⟨none, 0⟩⟩⟩ := by
  have hand : bitand 4 3 = 0 ∧ bitand 0 0x0C = 0 ∧ bitand 4 0x40 = 0 := by
    rw [bitand_eq, bitand_eq, bitand_eq]
    decide
  have halphabet : alphabet (replicate 20 '0') = -1 := if_pos (by
    rw [show (octetAt (replicate 20 '0') 2).toNat = 0 from rfl, hand.2.1])
  have hdated : Dated (replicate 20 '0') := by
    refine ⟨by decide, by decide, by decide, ?_⟩
    rw [show (octetAt (replicate 20 '0') 2).toNat = 0 from rfl, hand.2.1]
    decide
  have hzone : ZoneAt (replicate 20 '0') 16 := ⟨⟨'0', rfl, rfl⟩, ⟨'0', rfl, rfl⟩⟩
  have htext : TextRead (-1) (bitand 4 0x40 > 0) ((replicate 20 '0').drop 18) := by
    refine ⟨by decide, fun h => ?_, ?_⟩
    · rw [hand.2.2] at h
      exact absurd h (Nat.lt_irrefl 0)
    · rw [if_pos (by decide)]
      exact fun j hj => absurd hj (Nat.not_lt_zero j)
  have hbody : BodyRead (bitand 4 0x40 > 0) (replicate 20 '0') :=
    ⟨hdated, hzone, by rwa [halphabet]⟩
  exact not_handled_of_crash ⟨0, 4, ⟨rfl, .inl rfl⟩, rfl, .inl ⟨hand.1, by decide,
    .inl ⟨rfl, .inr hbody⟩⟩⟩

end ModemSupport.Rooter.SmsRead
