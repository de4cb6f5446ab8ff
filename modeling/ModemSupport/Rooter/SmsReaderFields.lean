import ModemSupport.Rooter.SmsReaderCrash

/-! What `smsread.lua` makes of each field of a line. -/

namespace ModemSupport.Rooter.SmsRead

open Lib.Text SmsFile List Option

variable {s text pdu line ptr : Str} {withUdh k n p oc binary c octets : Nat}
  {mConcat : Option Str} {d : Decoder} {m : Message} {mAlphabet : Int}

def Valid (text : Str) (j : Nat) : Prop := 0 ≤ octetAt text (2 + 2 * j)

theorem octet2binCheck_sub {j : Nat} (hk : k = 2 * j + 3) :
    octet2binCheck (sub text k) = octetAt text (2 + 2 * j) := by
  rw [sub, octetAt, hk, show 2 * j + 3 - 1 = 2 + 2 * j by omega]

theorem fetch_cases (text : Str) (binary : Nat) (hoc : oc = (p + 7) / 8) (hp : p / 8 < octets) :
    (fetch text octets (p / 8) oc binary = none ∧ p % 8 = 0 ∧ ¬ Valid text (p / 8)) ∨
      ∃ binary', fetch text octets (p / 8) oc binary = some ((p + 8) / 8, binary') ∧
        (p % 8 = 0 → Valid text (p / 8)) := by
  have hoctet : octet2binCheck (sub text (oc * 2 + 3)) = octetAt text (2 + 2 * oc) :=
    octet2binCheck_sub (by omega)
  by_cases hmod : p % 8 = 0
  · have hoc' : oc = p / 8 := by omega
    subst hoc'
    rw [fetch, if_pos ⟨le_rfl, hp⟩, hoctet]
    simp only
    by_cases hvalid : 0 ≤ octetAt text (2 + 2 * (p / 8))
    · refine .inr ⟨(octetAt text (2 + 2 * (p / 8))).toNat, ?_, fun _ => hvalid⟩
      rw [if_neg (by omega), fetch, if_neg (by omega), show (p + 8) / 8 = p / 8 + 1 by omega]
    · rw [if_pos (by omega)]
      exact .inl ⟨rfl, hmod, hvalid⟩
  · refine .inr ⟨binary, ?_, fun h => absurd h hmod⟩
    rw [fetch, if_neg (by omega), show (p + 8) / 8 = oc by omega]

theorem bitsLoop_cases (text : Str) (n c binary : Nat) (hoc : oc = (p + 7) / 8)
    (hp : p + n ≤ 8 * octets) :
    (bitsLoop text octets n p c oc binary = none ∧
        ∃ j, (p + 7) / 8 ≤ j ∧ j < (p + n + 7) / 8 ∧ ¬ Valid text j) ∨
      ∃ c' binary', bitsLoop text octets n p c oc binary = some (c', (p + n + 7) / 8, binary') ∧
        ∀ j, (p + 7) / 8 ≤ j → j < (p + n + 7) / 8 → Valid text j := by
  induction n generalizing p c oc binary with
  | zero =>
    refine .inr ⟨c, binary, ?_, fun j _ _ => by omega⟩
    rw [bitsLoop, hoc, Nat.add_zero]
  | succ n ih =>
    rw [bitsLoop]
    rcases fetch_cases text binary hoc (show p / 8 < octets by omega) with
      ⟨hfetch, hmod, hvalid⟩ | ⟨binary', hfetch, hvalid⟩
    · rw [hfetch]
      exact .inl ⟨rfl, p / 8, by omega, by omega, hvalid⟩
    · have hfirst : ∀ j, (p + 7) / 8 ≤ j → j < (p + 1 + 7) / 8 → Valid text j := by
        intro j hj hj'
        obtain rfl : j = p / 8 := by omega
        exact hvalid (by omega)
      rw [hfetch]
      simp only [bind_eq_bind, bind_some]
      rcases ih _ _ (show (p + 8) / 8 = (p + 1 + 7) / 8 from rfl) (by omega) with
        ⟨hloop, j, hj, hj', hnot⟩ | ⟨c', binary'', hloop, hall⟩
      · exact .inl ⟨hloop, j, by omega, by omega, hnot⟩
      · refine .inr ⟨c', binary'', ?_, fun j hj hj' => ?_⟩
        · rw [hloop, Nat.add_right_comm p 1 n, Nat.add_assoc p n 1]
        · by_cases hlt : j < (p + 1 + 7) / 8
          · exact hfirst j hj hlt
          · exact hall j (by omega) (by omega)

theorem charLoop_fst {skip : Int} {mText : Str} (hoc : oc = (7 * k + 7) / 8)
    (hn : 7 * (k + n) ≤ 8 * octets) :
    (charLoop text octets skip n k oc binary mText d).1 = true ↔
      ∀ j, (7 * k + 7) / 8 ≤ j → j < (7 * (k + n) + 7) / 8 → Valid text j := by
  induction n generalizing k oc binary mText d with
  | zero => exact iff_of_true rfl fun j hj hj' => by omega
  | succ n ih =>
    rw [charLoop]
    rcases bitsLoop_cases text 7 0 binary (show oc = (k * 7 + 7) / 8 by omega)
        (show k * 7 + 7 ≤ 8 * octets by omega) with
      ⟨hbits, j, hj, hj', hnot⟩ | ⟨c, binary', hbits, hall⟩
    · rw [hbits]
      exact iff_of_false Bool.false_ne_true fun h => hnot (h j (by omega) (by omega))
    · rw [hbits]
      simp only
      rw [ih (k := k + 1) (by omega) (by omega)]
      constructor
      · intro h j hj hj'
        by_cases hlt : j < (k * 7 + 7 + 7) / 8
        · exact hall j (by omega) hlt
        · exact h j (by omega) (by omega)
      · exact fun h j hj hj' => h j (by omega) (by omega)

theorem octetLoop_fst {skip lastI : Nat} {mText : Str} :
    (octetLoop mAlphabet text skip n oc lastI mText d).1 = true ↔
      ∀ j < n, 0 ≤ octetAt text (2 + 2 * (skip + oc + j)) := by
  induction n generalizing oc lastI mText d with
  | zero => exact iff_of_true rfl fun j hj => absurd hj (Nat.not_lt_zero j)
  | succ n ih =>
    have hoctet : octet2binCheck (sub text (oc * 2 + 3 + skip * 2)) =
        octetAt text (2 + 2 * (skip + oc)) := octet2binCheck_sub (by omega)
    have hnext : ∀ j, skip + (oc + 1) + j = skip + oc + (j + 1) := fun j => by omega
    rw [octetLoop, hoctet, Nat.forall_lt_succ_left']
    simp only
    by_cases hvalid : 0 ≤ octetAt text (2 + 2 * (skip + oc))
    · rw [if_neg (by omega)]
      have hrest : ∀ {lastI mText d}, (octetLoop mAlphabet text skip n (oc + 1) lastI mText d).1 =
          true ↔ (0 ≤ octetAt text (2 + 2 * (skip + oc + 0)) ∧
            ∀ j < n, 0 ≤ octetAt text (2 + 2 * (skip + oc + (j + 1)))) := by
        intro lastI mText d
        rw [ih]
        simp only [hnext]
        exact (and_iff_right hvalid).symm
      split
      · split
        · exact hrest
        · exact hrest
      · exact hrest
    · rw [if_pos (by omega)]
      exact iff_of_false Bool.false_ne_true fun h => hvalid h.1

theorem headerCrash_iff (mConcat : Option Str) (hoctets : 0 ≤ octetAt text 0) :
    HeaderCrash text ↔ ((do
      let udhl ← tonumber16 (subTo (sub text 3) 1 2)
      concatinfo (subTo (sub text 3) 3 ((udhl + 1) * 2)) mConcat) = none) := by
  have hfield : subTo (sub text 3) 1 2 = (text.drop 2).take 2 := rfl
  have helements : ∀ udhl : Nat, subTo (sub text 3) 3 ((udhl + 1) * 2) =
      (text.drop 4).take (2 * udhl) := by
    intro udhl
    rw [subTo_succ, sub_succ, drop_drop, show (udhl + 1) * 2 - 2 = 2 * udhl by omega]
  rw [HeaderCrash, and_iff_right hoctets, hfield]
  cases tonumber16 ((text.drop 2).take 2) with
  | none => exact iff_of_true (fun _ h => by cases h) rfl
  | some udhl =>
    simp only [bind_eq_bind, bind_some, helements]
    rw [concatinfo_eq_none_iff]
    exact ⟨fun h => h udhl rfl, fun h x hx => by rwa [← some.inj hx]⟩

theorem pdu2text_cases (text : Str) (withUdh : Nat) (mConcat : Option Str) (d : Decoder) :
    (withUdh > 0 ∧ HeaderCrash text ∧ pdu2text text withUdh mConcat d = none) ∨
      ((withUdh > 0 → ¬ HeaderCrash text) ∧ ∃ r res, pdu2text text withUdh mConcat d =
        some (r, res) ∧ (1 ≤ r ∨ r < 0) ∧ (1 ≤ r ↔ 0 ≤ octetAt text 0 ∧
          OctetsAt text 2 (((octetAt text 0).toNat * 7 + 7) / 8))) := by
  rw [pdu2text]
  by_cases hoctets : 0 ≤ octetAt text 0
  · have hloop : ∀ skip, (charLoop text (((octet2binCheck text).toNat * 7 + 7) / 8) skip
        (octet2binCheck text).toNat 0 0 0 [] d).1 = true ↔
          OctetsAt text 2 (((octetAt text 0).toNat * 7 + 7) / 8) := by
      intro skip
      rw [charLoop_fst rfl (by omega), octetAt_zero]
      constructor
      · exact fun h j hj => h j (by omega) (by omega)
      · exact fun h j _ hj => h j (by omega)
    have htext : ∀ skip, (1 : Int) ≤ (if (charLoop text (((octet2binCheck text).toNat * 7 + 7) / 8)
        skip (octet2binCheck text).toNat 0 0 0 [] d).1 = true then 1 else -2) ↔
          OctetsAt text 2 (((octetAt text 0).toNat * 7 + 7) / 8) := by
      intro skip
      rw [← hloop skip]
      split
      case isTrue h => exact iff_of_true le_rfl h
      case isFalse h => exact iff_of_false (by decide) h
    have hsign : ∀ skip, (1 : Int) ≤ (if (charLoop text (((octet2binCheck text).toNat * 7 + 7) / 8)
        skip (octet2binCheck text).toNat 0 0 0 [] d).1 = true then 1 else -2) ∨
          (if (charLoop text (((octet2binCheck text).toNat * 7 + 7) / 8)
            skip (octet2binCheck text).toNat 0 0 0 [] d).1 = true then (1 : Int) else -2) < 0 := by
      intro skip
      split
      · exact .inl le_rfl
      · exact .inr (by decide)
    have hnonneg : ¬ octet2binCheck text < 0 := not_lt.mpr hoctets
    simp only
    rw [if_neg hnonneg]
    by_cases hudh : withUdh > 0
    · rw [if_pos hudh]
      have hcrash := headerCrash_iff mConcat hoctets
      cases hudhl : tonumber16 (subTo (sub text 3) 1 2) with
      | none =>
        rw [hudhl] at hcrash
        exact .inl ⟨hudh, hcrash.mpr rfl, rfl⟩
      | some udhl =>
        rw [hudhl] at hcrash
        simp only [bind_eq_bind, bind_some] at hcrash ⊢
        cases hconcat : concatinfo (subTo (sub text 3) 3 ((udhl + 1) * 2)) mConcat with
        | none => exact .inl ⟨hudh, hcrash.mpr hconcat, rfl⟩
        | some mConcat' =>
          rw [hconcat] at hcrash
          exact .inr ⟨fun _ h => some_ne_none _ (hcrash.mp h), _, _, rfl, hsign _,
            (htext _).trans (and_iff_right hoctets).symm⟩
    · rw [if_neg hudh]
      exact .inr ⟨fun h => absurd h hudh, _, _, rfl, hsign _,
        (htext _).trans (and_iff_right hoctets).symm⟩
  · have hneg : octet2binCheck text < 0 := lt_of_not_ge hoctets
    simp only
    rw [if_pos hneg]
    refine .inr ⟨fun _ h => hoctets h.1, _, _, rfl, .inr (by decide), ?_⟩
    exact iff_of_false (by decide) fun h => hoctets h.1

theorem pdu2binary_cases (mAlphabet : Int) (text : Str) (withUdh : Nat) (mConcat : Option Str)
    (d : Decoder) :
    (withUdh > 0 ∧ HeaderCrash text ∧ pdu2binary mAlphabet text withUdh mConcat d = none) ∨
      ((withUdh > 0 → ¬ HeaderCrash text) ∧ ∃ r res, pdu2binary mAlphabet text withUdh mConcat d =
        some (r, res) ∧ (1 ≤ r ↔ 0 ≤ octetAt text 0 ∧
          ∃ skip : Nat, (withUdh > 0 → (skip : Int) = octetAt text 2 + 1 ∧ 0 ≤ octetAt text 2) ∧
            (¬ withUdh > 0 → skip = 0) ∧ (skip : Int) < octetAt text 0 ∧
              OctetsAt text (2 + 2 * skip) ((octetAt text 0).toNat - skip))) := by
  rw [pdu2binary]
  by_cases hoctets : 0 ≤ octetAt text 0
  · have hloop : ∀ skip : Nat, (octetLoop mAlphabet text skip
        (octet2binCheck text - (skip : Int)).toNat 0 0 [] d).1 = true ↔
          OctetsAt text (2 + 2 * skip) ((octetAt text 0).toNat - skip) := by
      intro skip
      rw [octetLoop_fst, octetAt_zero, show (octet2binCheck text - (skip : Int)).toNat =
        (octet2binCheck text).toNat - skip by omega]
      exact forall₂_congr fun j _ => by rw [show 2 + 2 * (skip + 0 + j) = 2 + 2 * skip + 2 * j by
        omega]
    have htext : ∀ skip : Nat, (1 : Int) ≤ (if (octetLoop mAlphabet text skip
        (octet2binCheck text - (skip : Int)).toNat 0 0 [] d).1 = true
          then octet2binCheck text - (skip : Int) else -1) ↔ (skip : Int) < octetAt text 0 ∧
            OctetsAt text (2 + 2 * skip) ((octetAt text 0).toNat - skip) := by
      intro skip
      rw [← hloop skip, octetAt_zero]
      split
      case isTrue h => exact ⟨fun hle => ⟨by omega, h⟩, fun hlt => by omega⟩
      case isFalse h => exact iff_of_false (by decide) fun hlt => h hlt.2
    have hnonneg : ¬ octet2binCheck text < 0 := not_lt.mpr hoctets
    simp only
    rw [if_neg hnonneg]
    by_cases hudh : withUdh > 0
    · rw [if_pos hudh]
      have hcrash := headerCrash_iff mConcat hoctets
      have hsize : octet2binCheck (sub text 3) = octetAt text 2 := rfl
      cases hudhl : tonumber16 (subTo (sub text 3) 1 2) with
      | none =>
        rw [hudhl] at hcrash
        exact .inl ⟨hudh, hcrash.mpr rfl, rfl⟩
      | some udhl =>
        rw [hudhl] at hcrash
        simp only [bind_eq_bind, bind_some, hsize] at hcrash ⊢
        cases hconcat : concatinfo (subTo (sub text 3) 3 ((udhl + 1) * 2)) mConcat with
        | none => exact .inl ⟨hudh, hcrash.mpr hconcat, rfl⟩
        | some mConcat' =>
          rw [hconcat] at hcrash
          refine .inr ⟨fun _ h => some_ne_none _ (hcrash.mp h), ?_⟩
          rw [bind_some]
          by_cases hsign : octetAt text 2 < 0
          · rw [if_pos hsign]
            exact ⟨_, _, rfl, iff_of_false (by decide) fun h => by
              obtain ⟨skip, hskip, -⟩ := h.2
              exact absurd (hskip hudh).2 (by omega)⟩
          · rw [if_neg hsign]
            refine ⟨_, _, rfl, (htext _).trans ?_⟩
            constructor
            · exact fun h => ⟨hoctets, (octetAt text 2).toNat + 1, fun _ => ⟨by omega, by omega⟩,
                fun h => absurd hudh h, h⟩
            · rintro ⟨-, skip, hskip, -, h⟩
              obtain rfl : skip = (octetAt text 2).toNat + 1 := by
                have := (hskip hudh).1
                omega
              exact h
    · rw [if_neg hudh]
      refine .inr ⟨fun h => absurd h hudh, _, _, rfl, (htext 0).trans ?_⟩
      constructor
      · exact fun h => ⟨hoctets, 0, fun h => absurd h hudh, fun _ => rfl, h⟩
      · rintro ⟨-, skip, -, hskip, h⟩
        rwa [hskip hudh] at h
  · have hneg : octet2binCheck text < 0 := lt_of_not_ge hoctets
    simp only
    rw [if_pos hneg]
    refine .inr ⟨fun _ h => hoctets h.1, _, _, rfl, ?_⟩
    exact iff_of_false (by decide) fun h => hoctets h.1

theorem swapchars_append {c1 c2 : Char} : ∀ {front : Str}, front.length % 2 = 0 →
    swapchars (front ++ [c1, c2]) = some ((swapchars front).getD [] ++ [c2, c1])
  | [], _ => rfl
  | [_], heven => absurd heven Nat.one_ne_zero
  | a :: b :: front, heven => by
    have hrest : front.length % 2 = 0 := by
      rw [length_cons, length_cons] at heven
      omega
    rw [cons_append, cons_append, swapchars, swapchars_append hrest]
    rfl

theorem mem_swapchars {a : Char} : ∀ {front : Str}, front.length % 2 = 0 →
    (a ∈ (swapchars front).getD [] ↔ a ∈ front)
  | [], _ => Iff.rfl
  | [_], heven => absurd heven Nat.one_ne_zero
  | b :: c :: front, heven => by
    have hrest : front.length % 2 = 0 := by
      rw [length_cons, length_cons] at heven
      omega
    rw [swapchars, getD_some, mem_cons, mem_cons, mem_cons, mem_cons,
      mem_swapchars hrest, or_left_comm]

theorem length_swapchars : ∀ {front : Str}, front.length % 2 = 0 →
    ((swapchars front).getD []).length = front.length
  | [], _ => rfl
  | [_], heven => absurd heven Nat.one_ne_zero
  | b :: c :: front, heven => by
    have hrest : front.length % 2 = 0 := by
      rw [length_cons, length_cons] at heven
      omega
    rw [swapchars, getD_some, length_cons, length_cons, length_swapchars hrest]
    rfl

theorem any_byte (test : Option Nat → Bool) :
    (List.range' 1 s.length).any (fun j => test (byte s j)) =
      s.any fun c => test (some c.toNat) := by
  rw [Bool.eq_iff_iff, List.any_eq_true, List.any_eq_true]
  constructor
  · rintro ⟨j, hj, htest⟩
    rw [mem_range'_1] at hj
    have hlt : j - 1 < s.length := by omega
    refine ⟨s[j - 1], getElem_mem hlt, ?_⟩
    rwa [byte, List.getElem?_eq_getElem hlt] at htest
  · rintro ⟨c, hc, htest⟩
    obtain ⟨j, hj, rfl⟩ := mem_iff_getElem.mp hc
    refine ⟨j + 1, mem_range'_1.mpr (by omega), ?_⟩
    rwa [byte, Nat.add_sub_cancel, List.getElem?_eq_getElem hj]

theorem anyM_isdigit : (List.range' 1 s.length).anyM (fun j => (isdigit (byte s j)).map (· = 0)) =
    some (s.any fun c => !c.isDigit) := by
  have hdigit : ∀ c : Char, (isdigit (some c.toNat)).map (fun v => decide (v = 0)) =
      some !c.isDigit := by
    intro c
    have hiff : c.isDigit = true ↔ 48 ≤ c.toNat ∧ c.toNat ≤ 57 := by
      rw [Char.isDigit, Bool.and_eq_true, decide_eq_true_eq, decide_eq_true_eq]
      exact Iff.rfl
    rw [isdigit, map_some, map_some]
    by_cases hc : c.isDigit = true
    · rw [if_pos (hiff.mp hc), hc]
      rfl
    · rw [if_neg fun h => hc (hiff.mpr h), Bool.not_eq_true _ |>.mp hc]
      rfl
  have hall : ∀ j ∈ List.range' 1 s.length, (isdigit (byte s j)).map (fun v => decide (v = 0)) =
      some (((isdigit (byte s j)).map fun v => decide (v = 0)).getD false) := by
    intro j hj
    rw [mem_range'_1] at hj
    have hlt : j - 1 < s.length := by omega
    rw [byte, List.getElem?_eq_getElem hlt, map_some, hdigit, getD_some]
  rw [anyM_eq_some hall, any_byte fun b => ((isdigit b).map fun v => decide (v = 0)).getD false]
  refine congrArg some (congrArg s.any (funext fun c => ?_))
  rw [hdigit, getD_some]

theorem smscDigits_iff {addrType : Int} {front : Str} {c1 c2 : Char} (hplain : ¬ addrType < 0x90) :
    SmscDigits addrType (front ++ [c1, c2]) ↔
      (∀ a ∈ front, a.isDigit = true) ∧ (c1.isDigit = true ∨ c1 = 'F') ∧ c2.isDigit = true := by
  have hlen : (front ++ [c1, c2]).length = front.length + 2 := length_append
  rw [SmscDigits]
  simp only [if_neg hplain, hlen]
  constructor
  · intro h
    refine ⟨fun a ha => ?_, ?_, ?_⟩
    · obtain ⟨j, hj, rfl⟩ := mem_iff_getElem.mp ha
      have hj' : (front ++ [c1, c2])[j]? = some front[j] := by
        rw [List.getElem?_append_left hj, List.getElem?_eq_getElem hj]
      exact (h j _ hj').resolve_right fun hlast => by omega
    · exact (h front.length c1 (by rw [List.getElem?_append_right le_rfl]; simp)).imp_right
        And.right
    · exact (h (front.length + 1) c2 (by rw [List.getElem?_append_right (by omega)]; simp)
        ).resolve_right fun hlast => by omega
  · rintro ⟨hfront, hc1, hc2⟩ j a ha
    by_cases hj : j < front.length
    · rw [List.getElem?_append_left hj] at ha
      exact .inl (hfront a (mem_of_getElem? ha))
    · rw [List.getElem?_append_right (by omega)] at ha
      obtain ⟨i, rfl⟩ := Nat.exists_eq_add_of_le (Nat.le_of_not_lt hj)
      rw [Nat.add_sub_cancel_left] at ha
      match i, ha with
      | 0, ha =>
        obtain rfl : c1 = a := some.inj ha
        exact hc1.imp_right fun h => ⟨rfl, h⟩
      | 1, ha =>
        obtain rfl : c2 = a := some.inj ha
        exact .inl hc2
      | i + 2, ha => cases ha

theorem smscDigits_hex_iff {addrType : Int} {digits : Str} (hhex : addrType < 0x90) :
    SmscDigits addrType digits ↔ ∀ a ∈ digits, SmsFile.isxdigit a = true := by
  rw [SmscDigits]
  simp only [if_pos hhex]
  constructor
  · intro h a ha
    obtain ⟨j, hj⟩ := mem_iff_getElem?.mp ha
    exact h j a hj
  · exact fun h j a hj => h a (mem_of_getElem? hj)

theorem swapchars_some {digits : Str} (heven : digits.length % 2 = 0) (hlong : 2 ≤ digits.length) :
    ∃ front c1 c2, digits = front ++ [c1, c2] ∧ front.length % 2 = 0 ∧
      swapchars digits = some ((swapchars front).getD [] ++ [c2, c1]) := by
  obtain ⟨front, c2, rfl⟩ := eq_nil_or_concat digits |>.resolve_left fun h => by
    rw [h] at hlong
    exact absurd hlong (by decide)
  rw [concat_eq_append, length_append, length_singleton] at heven hlong
  obtain ⟨front, c1, rfl⟩ := eq_nil_or_concat front |>.resolve_left fun h => by
    rw [h] at hlong
    exact absurd hlong (by decide)
  rw [concat_eq_append, length_append, length_singleton] at heven
  have hfront : front.length % 2 = 0 := by omega
  have hdigits : (front.concat c1).concat c2 = front ++ [c1, c2] := by
    rw [concat_eq_append, concat_eq_append, append_assoc]
    rfl
  exact ⟨front, c1, c2, hdigits, hfront, by rw [hdigits, swapchars_append hfront]⟩

theorem any_isxdigit {digits mSmsc : Str} {addrType : Int} (hhex : addrType < 0x90)
    (heven : digits.length % 2 = 0) (hswap : swapchars digits = some mSmsc) :
    ((List.range' 1 digits.length).any fun j => isxdigit (byte mSmsc j) = 0) = false ↔
      SmscDigits addrType digits := by
  have hmSmsc : (swapchars digits).getD [] = mSmsc := by rw [hswap, getD_some]
  have hlen : digits.length = mSmsc.length := by rw [← hmSmsc, length_swapchars heven]
  have hmem : ∀ a, a ∈ mSmsc ↔ a ∈ digits := fun a => by rw [← hmSmsc, mem_swapchars heven]
  rw [hlen, any_byte fun b => isxdigit b = 0, List.any_eq_false, smscDigits_hex_iff hhex]
  simp only [decide_eq_true_eq, hmem]
  exact forall₂_congr fun a _ => isxdigit_some

theorem any_isDigit {digits mSmsc : Str} {addrType : Int} (hplain : ¬ addrType < 0x90)
    (heven : digits.length % 2 = 0) (hlong : 2 ≤ digits.length)
    (hswap : swapchars digits = some mSmsc) :
    ((if byte mSmsc digits.length = some 70 then subTo mSmsc 1 (digits.length - 1)
      else mSmsc).any fun c => !c.isDigit) = false ↔ SmscDigits addrType digits := by
  obtain ⟨front, c1, c2, rfl, hfront, hsome⟩ := swapchars_some heven hlong
  have hlen : (front ++ [c1, c2]).length = ((swapchars front).getD []).length + 2 := by
    rw [length_swapchars hfront]
    exact length_append
  have hfiller : byte ((swapchars front).getD [] ++ [c2, c1])
      (((swapchars front).getD []).length + 2) = some c1.toNat := by
    rw [byte, List.getElem?_append_right (by omega)]
    simp
  have hF : c1.toNat = 70 ↔ c1 = 'F' :=
    ⟨fun h => Char.toNat_inj.mp h, fun h => by rw [h]; rfl⟩
  have hshort : subTo ((swapchars front).getD [] ++ [c2, c1]) 1
      (((swapchars front).getD []).length + 2 - 1) = (swapchars front).getD [] ++ [c2] := by
    rw [subTo]
    simp [take_append]
  obtain rfl : (swapchars front).getD [] ++ [c2, c1] = mSmsc := some.inj (hsome ▸ hswap)
  rw [hlen, hfiller, hshort, smscDigits_iff hplain, List.any_eq_false]
  simp only [Bool.not_eq_true', Bool.not_eq_false]
  by_cases hc1 : c1 = 'F'
  · rw [if_pos (congrArg some (hF.mpr hc1))]
    simp only [mem_append, mem_swapchars hfront, mem_singleton, or_imp, forall_and,
      forall_eq]
    exact and_congr_right fun _ => (and_iff_right (.inr hc1)).symm
  · rw [if_neg fun h => hc1 (hF.mp (some.inj h))]
    simp only [mem_append, mem_swapchars hfront, mem_cons, not_mem_nil, or_false,
      or_imp, forall_and, forall_eq, hc1]
    exact and_congr_right fun _ => and_comm

theorem parseSMSC_cases (line : Str) :
    (∃ n, SmscRead line n ∧ parseSMSC line = some (some (line.drop (2 * n + 2)))) ∨
      ((∀ n, ¬ SmscRead line n) ∧ parseSMSC line = some none) := by
  have hrejected : (∀ n : Nat, octetAt line 0 = n → n = 0 → False) →
      (∀ n : Nat, octetAt line 0 = n → 2 ≤ n → n ≤ 64 → 2 * n + 2 ≤ line.length →
        0x80 ≤ octetAt line 2 → ¬ SmscDigits (octetAt line 2) ((line.drop 4).take (2 * n - 2))) →
      ∀ n, ¬ SmscRead line n := by
    rintro h0 h n ⟨hn, hzero | ⟨hge, hle, hlen, htype, hdigits⟩⟩
    · exact h0 n hn hzero
    · exact h n hn hge hle hlen htype hdigits
  rw [parseSMSC]
  simp only [← octetAt_zero, sub_succ, drop_drop, octetAt_drop, Nat.reduceAdd, maxSmsc]
  by_cases hneg : octetAt line 0 < 0
  · rw [if_pos hneg]
    exact .inr ⟨hrejected (fun n hn _ => by omega) fun n hn => by omega, rfl⟩
  rw [if_neg hneg]
  by_cases hzero : octetAt line 0 = 0
  · rw [if_pos hzero]
    exact .inl ⟨0, ⟨hzero, .inl rfl⟩, rfl⟩
  rw [if_neg hzero]
  by_cases hrange : octetAt line 0 < 2 ∨ octetAt line 0 > 64
  · rw [if_pos hrange]
    exact .inr ⟨hrejected (fun n hn _ => by omega) fun n hn => by omega, rfl⟩
  rw [if_neg hrange]
  obtain ⟨n, hn⟩ := Int.eq_ofNat_of_zero_le (not_lt.mp hneg)
  have htoNat : (octetAt line 0).toNat = n := by rw [hn, Int.toNat_natCast]
  simp only [htoNat]
  by_cases hlen : line.length < n * 2 - 2 + 4
  · rw [if_pos hlen]
    exact .inr ⟨hrejected (fun n hn _ => by omega) fun n' hn' => by omega, rfl⟩
  rw [if_neg hlen]
  by_cases htype : octetAt line 2 < 0x80
  · rw [if_pos htype]
    exact .inr ⟨hrejected (fun n hn _ => by omega) fun n' hn' => by omega, rfl⟩
  rw [if_neg htype]
  have hdigits : ((line.drop 4).take (n * 2 - 2)).length = n * 2 - 2 := by
    rw [length_take, length_drop]
    omega
  have heven : ((line.drop 4).take (n * 2 - 2)).length % 2 = 0 := by omega
  have hlong : 2 ≤ ((line.drop 4).take (n * 2 - 2)).length := by omega
  obtain ⟨front, c1, c2, -, -, hswap⟩ := swapchars_some heven hlong
  have hread : SmscDigits (octetAt line 2) ((line.drop 4).take (n * 2 - 2)) → SmscRead line n := by
    rw [Nat.mul_comm n 2]
    exact fun h => ⟨hn, .inr ⟨by omega, by omega, by omega, by omega, h⟩⟩
  have hnot : ¬ SmscDigits (octetAt line 2) ((line.drop 4).take (n * 2 - 2)) →
      ∀ n, ¬ SmscRead line n := by
    refine fun h => hrejected (fun n hn _ => by omega) fun n' hn' _ _ _ _ => ?_
    obtain rfl : n = n' := by omega
    rwa [Nat.mul_comm 2 n]
  rw [hswap, bind_some, show 4 + (n * 2 - 2) = 2 * n + 2 by omega]
  by_cases hhex : octetAt line 2 < 0x90
  · rw [if_pos hhex]
    have hall := any_isxdigit hhex heven hswap
    rw [hdigits] at hall
    cases hany : (List.range' 1 (n * 2 - 2)).any fun j =>
        isxdigit (byte ((swapchars front).getD [] ++ [c2, c1]) j) = 0 with
    | true => exact .inr ⟨hnot fun h => Bool.noConfusion (hany.symm.trans (hall.mpr h)), rfl⟩
    | false => exact .inl ⟨n, hread (hall.mp hany), rfl⟩
  · rw [if_neg hhex, anyM_isdigit]
    have hall := any_isDigit hhex heven hlong hswap
    rw [hdigits] at hall
    cases hany : (if byte ((swapchars front).getD [] ++ [c2, c1]) (n * 2 - 2) = some 70 then
        subTo ((swapchars front).getD [] ++ [c2, c1]) 1 (n * 2 - 2 - 1)
      else (swapchars front).getD [] ++ [c2, c1]).any fun c => !c.isDigit with
    | true => exact .inr ⟨hnot fun h => Bool.noConfusion (hany.symm.trans (hall.mpr h)), rfl⟩
    | false => exact .inl ⟨n, hread (hall.mp hany), rfl⟩

end ModemSupport.Rooter.SmsRead
