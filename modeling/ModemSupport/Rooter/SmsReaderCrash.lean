import ModemSupport.Rooter.SmsReader
import ModemSupport.Rooter.SmsDecodeText

/-! The lines that end `smsread.lua` with a runtime error, by their fields. -/

namespace ModemSupport.Rooter.SmsRead

open Lib.Text SmsFile

/-- The octet at a place; one that is missing or has no digits is negative. -/
def octetAt (s : Str) (k : Nat) : Int := octet2binCheck (s.drop k)

def HexAt (s : Str) (k : Nat) : Prop := ∃ c, s[k]? = some c ∧ SmsFile.isxdigit c = true

def OctetsAt (s : Str) (k n : Nat) : Prop := ∀ j < n, 0 ≤ octetAt s (k + 2 * j)

/-- The search for an element of a long message comes to a field that is no number. -/
inductive Stops : Str → Prop where
  | three {x : Str} (long : 9 < x.length) (element : x.take 4 = ['0', '0', '0', '3'])
      (parts : (x.drop 6).take 4 ≠ ['0', '1', '0', '1'])
      (field : tonumber16 ((x.drop 4).take 2) = none ∨ tonumber16 ((x.drop 6).take 2) = none ∨
        tonumber16 ((x.drop 8).take 2) = none) : Stops x
  | four {x : Str} (long : 9 < x.length) (element : x.take 4 = ['0', '8', '0', '4'])
      (parts : (x.drop 8).take 4 ≠ ['0', '1', '0', '1'])
      (field : tonumber16 ((x.drop 4).take 4) = none ∨ tonumber16 ((x.drop 8).take 2) = none ∨
        tonumber16 ((x.drop 10).take 2) = none) : Stops x
  | length {x : Str} (long : 9 < x.length) (three : x.take 4 ≠ ['0', '0', '0', '3'])
      (four : x.take 4 ≠ ['0', '8', '0', '4'])
      (field : tonumber16 ((x.drop 2).take 2) = none) : Stops x
  | next {x : Str} {iel : Nat} (long : 9 < x.length) (three : x.take 4 ≠ ['0', '0', '0', '3'])
      (four : x.take 4 ≠ ['0', '8', '0', '4']) (field : tonumber16 ((x.drop 2).take 2) = some iel)
      (rest : Stops (x.drop (4 + 2 * iel))) : Stops x

/-- The user data has a header whose length is no number, or whose elements are not read. -/
def HeaderCrash (text : Str) : Prop :=
  0 ≤ octetAt text 0 ∧
    ∀ udhl, tonumber16 ((text.drop 2).take 2) = some udhl → Stops ((text.drop 4).take (2 * udhl))

def TextRead (mAlphabet : Int) (withUdh : Prop) (text : Str) : Prop :=
  0 ≤ octetAt text 0 ∧ (withUdh → ¬ HeaderCrash text) ∧
    if mAlphabet ≤ 0 then OctetsAt text 2 (((octetAt text 0).toNat * 7 + 7) / 8)
    else
      ∃ skip : Nat, (withUdh → (skip : Int) = octetAt text 2 + 1 ∧ 0 ≤ octetAt text 2) ∧
        (¬ withUdh → skip = 0) ∧ (skip : Int) < octetAt text 0 ∧
          OctetsAt text (2 + 2 * skip) ((octetAt text 0).toNat - skip)

/-- An address that is not in letters ends behind its type. -/
def AddressCrash (pdu : Str) : Prop :=
  0x80 ≤ octetAt pdu 2 ∧ bitand (octetAt pdu 2).toNat 112 ≠ 80 ∧ pdu.length < 6

/-- An address of `n` digits is read; `count` is how its number of septets is understood. -/
def AddressRead (count : Nat → Nat) (pdu : Str) (n : Nat) : Prop :=
  0x80 ≤ octetAt pdu 2 ∧
    if bitand (octetAt pdu 2).toNat 112 = 80 then
      n + n % 2 + 4 ≤ pdu.length ∧ OctetsAt pdu 4 ((count (n * 4 / 7) * 7 + 7) / 8)
    else 6 ≤ pdu.length

def alphabet (pdu : Str) : Int :=
  if bitand (octetAt pdu 2).toNat 0x0C / 4 = 0 then -1
  else (bitand (octetAt pdu 2).toNat 0x0C / 4 : Nat)

/-- Behind its address a message has the fields up to its time. -/
def Dated (pdu : Str) : Prop :=
  20 ≤ pdu.length ∧ 0 ≤ octetAt pdu 0 ∧ 0 ≤ octetAt pdu 2 ∧
    bitand (octetAt pdu 2).toNat 0x0C / 4 ≠ 3

def ZoneAt (pdu : Str) (k : Nat) : Prop := HexAt pdu k ∧ HexAt pdu (k + 1)

/-- The time zone has another character, or the header of the text is not read. -/
def BodyCrash (withUdh : Prop) (pdu : Str) : Prop :=
  Dated pdu ∧ (ZoneAt pdu 16 → withUdh ∧ HeaderCrash (pdu.drop 18))

def BodyRead (withUdh : Prop) (pdu : Str) : Prop :=
  Dated pdu ∧ ZoneAt pdu 16 ∧ TextRead (alphabet pdu) withUdh (pdu.drop 18)

/-- A message: its address is cut off, or its body crashes, or it has no address and is read. -/
def DeliverCrash (withUdh : Prop) (pdu : Str) : Prop :=
  4 ≤ pdu.length ∧
    (octetAt pdu 0 = 0 ∧ (BodyCrash withUdh (pdu.drop 4) ∨ BodyRead withUdh (pdu.drop 4)) ∨
      ∃ n : Nat, octetAt pdu 0 = n ∧ 1 ≤ n ∧ n ≤ 64 ∧ (AddressCrash pdu ∨
        AddressRead id pdu n ∧ BodyCrash withUdh (pdu.drop (4 + n + n % 2))))

/-- A letter among two digits is taken for a larger one. -/
def lowerCount (n : Nat) : Nat := if n % 16 < 10 then n else n + 32

/-- A report: its address is cut off, or its second date. -/
def ReportCrash (pdu : Str) : Prop :=
  6 ≤ pdu.length ∧ 0 ≤ octetAt pdu 0 ∧ ∃ n : Nat, octetAt pdu 2 = n ∧ 1 ≤ n ∧ n ≤ 64 ∧
    (AddressCrash (pdu.drop 2) ∨ AddressRead lowerCount (pdu.drop 2) n ∧
      6 + n + n % 2 + 14 ≤ pdu.length ∧ 0 ≤ octetAt pdu (6 + n + n % 2 + 12) ∧
        pdu.length < 6 + n + n % 2 + 26)

/-- The digits of an address of a centre; the last is a filler, in front of the one it is swapped
with. -/
def SmscDigits (addrType : Int) (digits : Str) : Prop :=
  ∀ j c, digits[j]? = some c →
    if addrType < 0x90 then SmsFile.isxdigit c = true
    else c.isDigit = true ∨ j + 2 = digits.length ∧ c = 'F'

def SmscRead (line : Str) (n : Nat) : Prop :=
  octetAt line 0 = n ∧ (n = 0 ∨ 2 ≤ n ∧ n ≤ 64 ∧ 2 * n + 2 ≤ line.length ∧ 0x80 ≤ octetAt line 2 ∧
    SmscDigits (octetAt line 2) ((line.drop 4).take (2 * n - 2)))

def Crash (line : Str) : Prop :=
  ∃ n first : Nat, SmscRead line n ∧ octetAt line (2 * n + 2) = first ∧
    (bitand first 3 = 0 ∧ DeliverCrash (bitand first 0x40 > 0) (line.drop (2 * n + 4)) ∨
      bitand first 3 = 2 ∧ ReportCrash (line.drop (2 * n + 4)))

variable {s x text pdu rest : Str} {m : Message} {k n : Nat} {c : Char} {mConcat : Option Str}
  {d : Decoder}

theorem sub_succ : sub s (k + 1) = s.drop k := rfl

theorem subTo_succ : subTo s (k + 1) n = (s.drop k).take (n - k) := by
  rw [subTo, Nat.add_sub_cancel, List.drop_take]

theorem octetAt_drop : octetAt (s.drop k) n = octetAt s (k + n) := by
  rw [octetAt, List.drop_drop, octetAt]

theorem isxdigit_some : isxdigit (some c.toNat) ≠ 0 ↔ SmsFile.isxdigit c = true := by
  have hle : ∀ a b : Char, a ≤ b ↔ a.toNat ≤ b.toNat := fun a b => Iff.rfl
  have hdigit : c.isDigit = true ↔ 48 ≤ c.toNat ∧ c.toNat ≤ 57 := by
    rw [Char.isDigit, Bool.and_eq_true, decide_eq_true_eq, decide_eq_true_eq]
    exact Iff.rfl
  rw [isxdigit, SmsFile.isxdigit, Bool.or_eq_true, Bool.or_eq_true, Bool.and_eq_true,
    Bool.and_eq_true, decide_eq_true_eq, decide_eq_true_eq, decide_eq_true_eq, decide_eq_true_eq,
    hdigit, hle, hle, hle, hle, show 'a'.toNat = 97 from rfl, show 'f'.toNat = 102 from rfl,
    show 'A'.toNat = 65 from rfl, show 'F'.toNat = 70 from rfl]
  split
  case isTrue h => exact iff_of_true (by decide) (by omega)
  case isFalse h => exact iff_of_false (by decide) (by omega)

theorem isxdigit_byte : isxdigit (byte s (k + 1)) ≠ 0 ↔ HexAt s k := by
  rw [byte, Nat.add_sub_cancel, HexAt]
  cases s[k]? with
  | none => simp [isxdigit]
  | some c => simpa using isxdigit_some

theorem octet2binCheck_nonneg_iff :
    0 ≤ octet2binCheck s ↔ isxdigit (byte s 1) ≠ 0 ∧ isxdigit (byte s 2) ≠ 0 := by
  have hnull : isxdigit (some 0) = 0 := rfl
  rw [octet2binCheck]
  split
  case isTrue h => simp [h, hnull]
  case isFalse =>
    split
    case isTrue h => simp [h, hnull]
    case isFalse =>
      split
      case isTrue h => simp [h]
      case isFalse h =>
        split
        case isTrue h' => simp [h']
        case isFalse h' => exact iff_of_true (Int.natCast_nonneg _) ⟨h, h'⟩

theorem octetAt_nonneg_iff : 0 ≤ octetAt s k ↔ HexAt s k ∧ HexAt s (k + 1) := by
  have hdrop : ∀ j, HexAt (s.drop k) j ↔ HexAt s (k + j) := by
    intro j
    rw [HexAt, HexAt, List.getElem?_drop]
  rw [octetAt, octet2binCheck_nonneg_iff, isxdigit_byte, isxdigit_byte, hdrop, hdrop, Nat.add_zero]

theorem octetAt_zero : octetAt s 0 = octet2binCheck s := rfl

theorem tonumber16_singleton_iff : tonumber16 [c] = none ↔ ¬ SmsFile.isxdigit c = true := by
  have hnil : unsigned16 [] = none := rfl
  have hone : unsigned16 [c] = none ↔ ¬ SmsFile.isxdigit c = true := by
    have hsame : withoutX [c] = [c] := by
      unfold withoutX
      split
      case h_1 heq => cases heq
      case h_2 => rfl
    rw [unsigned16, hsame]
    by_cases hc : SmsFile.isxdigit c = true
    · simp [hc]
    · simp [hc]
  rw [tonumber16]
  by_cases hspace : isspace c = true
  · have hdrop : [c].dropWhile isspace = [] := by simp [hspace]
    rw [hdrop]
    have hnot : ¬ SmsFile.isxdigit c = true := by
      have hblank : c = ' ' ∨ c = '\t' ∨ c = '\n' ∨ c = '\x0b' ∨ c = '\x0c' ∨ c = '\r' := by
        simpa [isspace, or_assoc] using hspace
      rcases hblank with rfl | rfl | rfl | rfl | rfl | rfl <;> exact Bool.false_ne_true
    exact iff_of_true rfl hnot
  · have hdrop : [c].dropWhile isspace = [c] := by simp [hspace]
    rw [hdrop]
    split
    case h_1 heq =>
      cases heq
      exact iff_of_true rfl (by decide)
    case h_2 heq =>
      cases heq
      exact iff_of_true rfl (by decide)
    case h_3 => exact hone

theorem tonumber16_subTo : tonumber16 (subTo s (k + 1) (k + 1)) = none ↔ ¬ HexAt s k := by
  have hone : subTo s (k + 1) (k + 1) = s[k]?.toList := by
    rw [subTo_succ, Nat.add_sub_cancel_left, List.take_one, List.head?_drop]
  rw [hone, HexAt]
  cases s[k]? with
  | none => exact iff_of_true rfl (by simp)
  | some c => simpa using tonumber16_singleton_iff

theorem swapchars_eq_none_iff : swapchars s = none ↔ s.length < 2 := by
  match s with
  | [] => simp [swapchars]
  | [c] => simp [swapchars]
  | c1 :: c2 :: s => simp [swapchars]

theorem anyM_eq_some {l : List Nat} {f : Nat → Option Bool} {g : Nat → Bool}
    (h : ∀ a ∈ l, f a = some (g a)) : l.anyM f = some (l.any g) := by
  induction l with
  | nil => rfl
  | cons a l ih =>
    obtain ⟨ha, hl⟩ := List.forall_mem_cons.mp h
    rw [List.anyM, ha, List.any_cons]
    cases g a with
    | true => rfl
    | false => exact ih hl

theorem noDigits_eq : noDigits s = if 6 ≤ s.length then some false else none := by
  match s with
  | [] => rfl
  | [_] => rfl
  | [_, _] => rfl
  | [_, _, _] => rfl
  | [_, _, _, _] => rfl
  | [_, _, _, _, _] => rfl
  | _ :: _ :: _ :: _ :: _ :: _ :: s => rfl

theorem concatText_eq_none_iff {ref ord max : Str} : concatText ref ord max = none ↔
    tonumber16 ref = none ∨ tonumber16 max = none ∨ tonumber16 ord = none := by
  rw [concatText]
  cases tonumber16 ref with
  | none => simp
  | some _ =>
    cases tonumber16 ord with
    | none => simp
    | some _ =>
      cases tonumber16 max with
      | none => simp
      | some _ => simp

theorem concatinfo_eq_none_iff : concatinfo x mConcat = none ↔ Stops x := by
  induction hn : x.length using Nat.strong_induction_on generalizing x with
  | _ n ih =>
    have htake : subTo x 1 4 = x.take 4 := rfl
    by_cases hlong : 9 < x.length
    · rw [concatinfo, if_pos hlong, htake]
      by_cases hthree : x.take 4 = ['0', '0', '0', '3']
      · rw [if_pos hthree]
        by_cases hparts : (x.drop 6).take 4 = ['0', '1', '0', '1']
        · have hparts' : subTo x 7 10 = ['0', '1', '0', '1'] := by
            rw [subTo_succ]
            exact hparts
          rw [if_neg (not_not.mpr hparts')]
          refine iff_of_false (Option.some_ne_none _) fun h => ?_
          cases h with
          | three _ _ hne => exact hne hparts
          | four _ hfour => exact absurd (hthree.symm.trans hfour) (by decide)
          | length _ hne => exact hne hthree
          | next _ hne => exact hne hthree
        · have hparts' : subTo x 7 10 ≠ ['0', '1', '0', '1'] := by
            rw [subTo_succ]
            exact hparts
          rw [if_pos hparts', Option.map_eq_none_iff, concatText_eq_none_iff, subTo_succ,
            subTo_succ, subTo_succ]
          constructor
          · exact fun h => .three hlong hthree hparts h
          · intro h
            cases h with
            | three _ _ _ hfield => exact hfield
            | four _ hfour => exact absurd (hthree.symm.trans hfour) (by decide)
            | length _ hne => exact absurd hthree hne
            | next _ hne => exact absurd hthree hne
      · rw [if_neg hthree]
        by_cases hfour : x.take 4 = ['0', '8', '0', '4']
        · rw [if_pos hfour]
          by_cases hparts : (x.drop 8).take 4 = ['0', '1', '0', '1']
          · have hparts' : subTo x 9 12 = ['0', '1', '0', '1'] := by
              rw [subTo_succ]
              exact hparts
            rw [if_neg (not_not.mpr hparts')]
            refine iff_of_false (Option.some_ne_none _) fun h => ?_
            cases h with
            | three _ heq => exact hthree heq
            | four _ _ hne => exact hne hparts
            | length _ _ hne => exact hne hfour
            | next _ _ hne => exact hne hfour
          · have hparts' : subTo x 9 12 ≠ ['0', '1', '0', '1'] := by
              rw [subTo_succ]
              exact hparts
            rw [if_pos hparts', Option.map_eq_none_iff, concatText_eq_none_iff, subTo_succ,
              subTo_succ, subTo_succ]
            constructor
            · exact fun h => .four hlong hfour hparts h
            · intro h
              cases h with
              | three _ heq => exact absurd heq hthree
              | four _ _ _ hfield => exact hfield
              | length _ _ hne => exact absurd hfour hne
              | next _ _ hne => exact absurd hfour hne
        · have hfield : subTo x 3 4 = (x.drop 2).take 2 := subTo_succ
          rw [if_neg hfour, hfield]
          cases hiel : tonumber16 ((x.drop 2).take 2) with
          | none => exact iff_of_true rfl (.length hlong hthree hfour hiel)
          | some iel =>
            have hrest : sub x (5 + iel * 2) = x.drop (4 + 2 * iel) := by
              rw [sub, show 5 + iel * 2 - 1 = 4 + 2 * iel by omega]
            simp only
            rw [hrest, ih _ (by rw [List.length_drop]; omega) rfl]
            constructor
            · exact fun h => .next hlong hthree hfour hiel h
            · intro h
              cases h with
              | three _ heq => exact absurd heq hthree
              | four _ heq => exact absurd heq hfour
              | length _ _ _ hnone => rw [hiel] at hnone; cases hnone
              | next _ _ _ hsome hstop =>
                rw [hiel] at hsome
                rwa [Option.some.inj hsome]
    · rw [concatinfo, if_neg hlong]
      refine iff_of_false (Option.some_ne_none _) fun h => ?_
      cases h with
      | three hl => exact hlong hl
      | four hl => exact hlong hl
      | length hl => exact hlong hl
      | next hl => exact hlong hl

end ModemSupport.Rooter.SmsRead
