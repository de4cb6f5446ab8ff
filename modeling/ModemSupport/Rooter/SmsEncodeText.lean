import ModemSupport.Rooter.SmsDecodeText
import ModemSupport.Rooter.SmsEncode

/-! What `chktxt` makes of a text in UTF-8. -/

namespace ModemSupport.Rooter.SmsRead

open Lib.Text SmsFile List

variable {c : Char} {text : List Char} {rest mText : Str} {s : Codes} {d : Decoder}

def units (c : Char) : List Nat :=
  if c.toNat < 0x10000 then [c.toNat]
  else [0xD800 + (c.toNat - 0x10000) / 1024, 0xDC00 + (c.toNat - 0x10000) % 1024]

def g7hexOf (ch : Nat) : Option Str :=
  if ch = 0x60 then none
  else if ch ≤ 0x7F then some ((g7t ch).getD (formatX 2 ch))
  else g7t ch

def Codes.add (s : Codes) (c : Char) : Codes where
  unicode := s.unicode ++ (units c).flatMap (formatX 4)
  g7hex := s.g7hex ++ (g7hexOf c.toNat).getD []
  g7isok := s.g7isok && (g7hexOf c.toNat).isSome

theorem Codes.byte_eq (h : c.toNat ≤ 0x7F) : s.byte c.toNat = s.add c := by
  have hunits : units c = [c.toNat] := if_pos (by omega)
  rw [Codes.byte, Codes.add, g7hexOf, hunits, flatMap_singleton]
  by_cases hquote : c.toNat = 0x60
  · rw [if_pos hquote, if_pos hquote, hquote]
    simp
    rfl
  · rw [if_neg hquote, if_neg hquote, if_pos h, if_pos h]
    simp

theorem Codes.word_eq (h : 0x7F < c.toNat) (h' : c.toNat < 0x10000) :
    s.word c.toNat = s.add c := by
  have hunits : units c = [c.toNat] := if_pos h'
  have hquote : c.toNat ≠ 0x60 := by omega
  rw [Codes.word, Codes.add, g7hexOf, hunits, flatMap_singleton, if_neg hquote,
    if_neg (by omega)]

theorem g7t_eq_some {ch : Nat} {h : Str} (hg : g7t ch = some h) : (ch, h) ∈ g7tTable := by
  obtain ⟨before, after, htable, -⟩ := lookup_eq_some_iff.mp hg
  rw [htable]
  exact mem_append_right _ mem_cons_self

theorem g7t_of_le {ch : Nat} (h : 0x10000 ≤ ch) : g7t ch = none := by
  rw [Option.eq_none_iff_forall_ne_some]
  intro code hg
  have hall : ∀ e ∈ g7tTable, e.1 < 0x10000 := by decide
  exact absurd (hall _ (g7t_eq_some hg)) (by simpa using h)

theorem Codes.pair_eq (h : 0x10000 ≤ c.toNat) (h' : c.toNat < 0x110000) :
    s.pair (c.toNat - 0x10000) = s.add c := by
  have hunits : units c =
      [0xD800 + (c.toNat - 0x10000) / 1024, 0xDC00 + (c.toNat - 0x10000) % 1024] :=
    if_neg (by omega)
  have hcode : g7hexOf c.toNat = none := by
    have hquote : c.toNat ≠ 0x60 := by omega
    rw [g7hexOf, if_neg hquote, if_neg (by omega), g7t_of_le h]
  have hhigh : bitor 0xD800 (bitright (bitand (c.toNat - 0x10000) 0xFFC00) 10) =
      0xD800 + (c.toNat - 0x10000) / 1024 := by
    have hmask : bitright (bitand (c.toNat - 0x10000) 0xFFC00) 10 =
        (c.toNat - 0x10000) / 1024 % 1024 := bitright_bitand (k := 10) (i := 10)
    rw [hmask, Nat.mod_eq_of_lt (by omega)]
    exact bitor_mul (x := 54) (k := 10) (by omega)
  have hlow : bitor 0xDC00 (bitand (c.toNat - 0x10000) 0x3FF) =
      0xDC00 + (c.toNat - 0x10000) % 1024 := by
    have hmask : bitand (c.toNat - 0x10000) 0x3FF = (c.toNat - 0x10000) % 1024 :=
      bitand_two_pow_sub_one (k := 10)
    rw [hmask]
    exact bitor_mul (x := 55) (k := 10) (Nat.mod_lt _ (by decide))
  rw [Codes.pair, Codes.add, hunits, hcode, hhigh, hlow]
  simp

theorem toNat_char {n : Nat} (h : n < 256) : (char n).toNat = n := by
  have hvalid : n.isValidChar := .inl (by omega)
  rw [char, Char.ofNat, dif_pos hvalid]
  rfl

theorem bitor_bitleft {x y k : Nat} (h : y < 2 ^ k) : bitor y (bitleft x k) = 2 ^ k * x + y := by
  rw [bitleft, Nat.mul_comm, ← bitor_mul h, bitor_eq, bitor_eq, Nat.or_comm]

theorem bitand_low {n : Nat} : bitand (0x80 + n % 64) 0x3F = n % 64 := by
  have hmask : bitand (0x80 + n % 64) 0x3F = (0x80 + n % 64) % 64 :=
    bitand_two_pow_sub_one (k := 6)
  omega

section

variable {b0 b1 b2 b3 : Char} {high middle low top : Nat}

theorem chkLoop_byte (h : b0.toNat < 0xC0) :
    chkLoop (b0 :: rest) s = chkLoop rest (s.byte b0.toNat) := by
  rw [chkLoop.eq_def]
  simp only
  rw [if_neg (by omega), if_neg (by omega), if_neg (by omega)]

theorem chkLoop_two (h : 0xC0 ≤ b0.toNat) (h' : b0.toNat < 0xE0)
    (hhigh : bitand b0.toNat 0x3F = high) (hlow : bitand b1.toNat 0x3F = low) (hlt : low < 64) :
    chkLoop (b0 :: b1 :: rest) s = chkLoop rest (s.word (64 * high + low)) := by
  have hch : bitor low (bitleft high 6) = 64 * high + low := bitor_bitleft (k := 6) hlt
  rw [chkLoop.eq_def]
  simp only
  rw [if_neg (by omega), if_neg (by omega), if_pos (by omega), hhigh, hlow, hch]

theorem chkLoop_three (h : 0xE0 ≤ b0.toNat) (h' : b0.toNat < 0xF0)
    (hhigh : bitand b0.toNat 0xF = high) (hmiddle : bitand b1.toNat 0x3F = middle)
    (hlow : bitand b2.toNat 0x3F = low) (hlt : low < 64) (hlt' : middle < 64) :
    chkLoop (b0 :: b1 :: b2 :: rest) s =
      chkLoop rest (s.word (64 * (64 * high + middle) + low)) := by
  have hsecond : bitor (bitleft middle 6) (bitleft high 12) = bitleft (64 * high + middle) 6 := by
    rw [bitor_bitleft (by rw [bitleft]; omega), bitleft, bitleft]
    ring
  have hch : bitor low (bitleft (64 * high + middle) 6) = 64 * (64 * high + middle) + low :=
    bitor_bitleft (k := 6) hlt
  rw [chkLoop.eq_def]
  simp only
  rw [if_neg (by omega), if_pos (by omega), hhigh, hmiddle, hlow, hsecond, hch]

theorem chkLoop_four (h : 0xF0 ≤ b0.toNat) (htop : bitand b0.toNat 7 = top)
    (hhigh : bitand b1.toNat 0x3F = high) (hmiddle : bitand b2.toNat 0x3F = middle)
    (hlow : bitand b3.toNat 0x3F = low) (hlt : low < 64) (hlt' : middle < 64) (hlt'' : high < 64) :
    chkLoop (b0 :: b1 :: b2 :: b3 :: rest) s =
      chkLoop rest (s.pair (64 * (64 * (64 * top + high) + middle) + low - 0x10000)) := by
  have hfirst : bitor (bitleft high 12) (bitleft top 18) = bitleft (64 * top + high) 12 := by
    rw [bitor_bitleft (by rw [bitleft]; omega), bitleft, bitleft]
    ring
  have hsecond : bitor (bitleft middle 6) (bitleft (64 * top + high) 12) =
      bitleft (64 * (64 * top + high) + middle) 6 := by
    rw [bitor_bitleft (by rw [bitleft]; omega), bitleft, bitleft]
    ring
  have hch : bitor low (bitleft (64 * (64 * top + high) + middle) 6) =
      64 * (64 * (64 * top + high) + middle) + low := bitor_bitleft (k := 6) hlt
  rw [chkLoop.eq_def]
  simp only
  rw [if_pos (by omega), htop, hhigh, hmiddle, hlow, hfirst, hsecond, hch]

end

theorem chkLoop_utf8 : chkLoop (utf8 c ++ rest) s = chkLoop rest (s.add c) := by
  have hvalid : c.toNat < 0x110000 := by
    have h := c.valid
    simp only [UInt32.isValidChar, Nat.isValidChar] at h
    have hval : c.val.toNat = c.toNat := rfl
    omega
  have hlow : ∀ n, bitand (char (0x80 + n % 64)).toNat 0x3F = n % 64 := by
    intro n
    rw [toNat_char (by omega), bitand_low]
  have hmod : ∀ n : Nat, n % 64 < 64 := fun n => Nat.mod_lt n (by decide)
  rw [utf8_eq]
  by_cases h1 : c.toNat ≤ 0x7f
  · have hbyte : (char c.toNat).toNat = c.toNat := toNat_char (by omega)
    rw [if_pos h1, singleton_append, chkLoop_byte (by omega), hbyte, Codes.byte_eq h1]
  · rw [if_neg h1]
    by_cases h2 : c.toNat ≤ 0x7ff
    · have hbyte : (char (0xC0 + c.toNat / 64 % 32)).toNat = 0xC0 + c.toNat / 64 % 32 :=
        toNat_char (by omega)
      have hhigh : bitand (0xC0 + c.toNat / 64 % 32) 0x3F = c.toNat / 64 := by
        have hmask : bitand (0xC0 + c.toNat / 64 % 32) 0x3F = (0xC0 + c.toNat / 64 % 32) % 64 :=
          bitand_two_pow_sub_one (k := 6)
        omega
      rw [← hbyte] at hhigh
      rw [if_pos h2, cons_append, singleton_append,
        chkLoop_two (by omega) (by omega) hhigh (hlow _) (hmod _), Nat.div_add_mod,
        Codes.word_eq (by omega) (by omega)]
    · rw [if_neg h2]
      have hmiddle : 64 * (c.toNat / 4096) + c.toNat / 64 % 64 = c.toNat / 64 := by omega
      by_cases h3 : c.toNat ≤ 0xffff
      · have hbyte : (char (0xE0 + c.toNat / 4096 % 16)).toNat = 0xE0 + c.toNat / 4096 % 16 :=
          toNat_char (by omega)
        have hhigh : bitand (0xE0 + c.toNat / 4096 % 16) 0xF = c.toNat / 4096 := by
          have hmask : bitand (0xE0 + c.toNat / 4096 % 16) 0xF =
              (0xE0 + c.toNat / 4096 % 16) % 16 := bitand_two_pow_sub_one (k := 4)
          omega
        rw [← hbyte] at hhigh
        rw [if_pos h3, cons_append, cons_append, singleton_append,
          chkLoop_three (by omega) (by omega) hhigh (hlow _) (hlow _) (hmod _) (hmod _), hmiddle,
          Nat.div_add_mod, Codes.word_eq (by omega) (by omega)]
      · have hbyte : (char (0xF0 + c.toNat / 262144 % 8)).toNat = 0xF0 + c.toNat / 262144 % 8 :=
          toNat_char (by omega)
        have htop : bitand (0xF0 + c.toNat / 262144 % 8) 7 = c.toNat / 262144 := by
          have hmask : bitand (0xF0 + c.toNat / 262144 % 8) 7 =
              (0xF0 + c.toNat / 262144 % 8) % 8 := bitand_two_pow_sub_one (k := 3)
          omega
        have hhigh : 64 * (c.toNat / 262144) + c.toNat / 4096 % 64 = c.toNat / 4096 := by omega
        rw [← hbyte] at htop
        rw [if_neg h3, cons_append, cons_append, cons_append, singleton_append,
          chkLoop_four (by omega) htop (hlow _) (hlow _) (hlow _) (hmod _) (hmod _) (hmod _), hhigh,
          hmiddle, Nat.div_add_mod, Codes.pair_eq (by omega) hvalid]

theorem chkLoop_text : chkLoop (text.flatMap utf8) s = some (text.foldl Codes.add s) := by
  induction text generalizing s with
  | nil => rfl
  | cons c text ih => rw [flatMap_cons, chkLoop_utf8, ih, foldl_cons]

theorem foldl_add_unicode :
    (text.foldl Codes.add s).unicode = s.unicode ++ (text.flatMap units).flatMap (formatX 4) := by
  induction text generalizing s with
  | nil => simp
  | cons c text ih =>
    rw [foldl_cons, ih, Codes.add, flatMap_cons, flatMap_append, append_assoc]

theorem foldl_add_g7hex : (text.foldl Codes.add s).g7hex =
    s.g7hex ++ text.flatMap fun c => (g7hexOf c.toNat).getD [] := by
  induction text generalizing s with
  | nil => simp
  | cons c text ih => rw [foldl_cons, ih, Codes.add, flatMap_cons, append_assoc]

theorem foldl_add_g7isok : (text.foldl Codes.add s).g7isok =
    (s.g7isok && text.all fun c => (g7hexOf c.toNat).isSome) := by
  induction text generalizing s with
  | nil => simp
  | cons c text ih => rw [foldl_cons, ih, Codes.add, all_cons, Bool.and_assoc]

end ModemSupport.Rooter.SmsRead
