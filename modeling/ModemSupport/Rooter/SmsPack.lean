import ModemSupport.Rooter.SmsDecodeText
import ModemSupport.Rooter.SmsEncode
import Mathlib.Tactic.IntervalCases

/-! The octets that `pack` makes of septets. -/

namespace ModemSupport.Rooter.SmsRead

open Lib.Text SmsFile List Option

variable {septets rest udtab init : List Nat} {ch bits last k : Nat}

/-- The octets are those of the septets so far. -/
structure Packed (septets udtab : List Nat) : Prop where
  octet : ∀ a ∈ udtab, a < 256
  length : udtab.length = (7 * septets.length + 7) / 8
  same : Nat.ofDigits 256 udtab = Nat.ofDigits 128 septets

theorem packed_nil : Packed [] [] :=
  ⟨forall_mem_nil _, rfl, rfl⟩

theorem orLast_append : orLast (init ++ [last]) bits = init ++ [bitor bits last] := by
  rw [orLast, dropLast_concat, getLastD_concat]

theorem packStep_middle (hk : 1 ≤ k) (hk' : k ≤ 6) (hch : ch < 128) :
    packStep (k + 1) ch udtab = orLast udtab (2 ^ (8 - k) * (ch % 2 ^ k)) ++ [ch / 2 ^ k] := by
  have hlow : bitleft (bitand ch (2 ^ k - 1)) (8 - k) = 2 ^ (8 - k) * (ch % 2 ^ k) := by
    rw [bitleft, bitand_two_pow_sub_one, Nat.mul_comm]
  have hhigh : bitright (bitand ch ((2 ^ (7 - k) - 1) * 2 ^ k)) k = ch / 2 ^ k := by
    rw [bitright_bitand]
    refine Nat.mod_eq_of_lt (Nat.div_lt_of_lt_mul ?_)
    rwa [← Nat.pow_add, Nat.add_sub_of_le (by omega)]
  rw [← hlow, ← hhigh]
  interval_cases k <;> rfl

theorem packStep_first : packStep 1 ch udtab = udtab ++ [ch] := rfl

theorem packStep_last : packStep 8 ch udtab = orLast udtab (2 ^ 1 * ch) := by
  have hleft : bitleft ch 1 = 2 ^ 1 * ch := by
    rw [bitleft, Nat.mul_comm]
  rw [← hleft]
  rfl

theorem two_pow_seven_mul (t : Nat) : 128 ^ t = 256 ^ (7 * t / 8) * 2 ^ (7 * t % 8) := by
  have h128 : (128 : Nat) ^ t = 2 ^ (7 * t) := by
    rw [Nat.pow_mul]
  have h256 : (256 : Nat) ^ (7 * t / 8) = 2 ^ (8 * (7 * t / 8)) := by
    rw [Nat.pow_mul]
  rw [h128, h256, ← Nat.pow_add, Nat.div_add_mod]

theorem Packed.exists_last (h : Packed septets udtab) (hs : ∀ c ∈ septets, c < 128)
    (hmod : 7 * septets.length % 8 ≠ 0) :
    ∃ init last, udtab = init ++ [last] ∧ init.length = 7 * septets.length / 8 ∧
      last < 2 ^ (7 * septets.length % 8) := by
  have hlength := h.length
  have hne : udtab ≠ [] := by
    rw [← length_pos_iff]
    omega
  obtain ⟨init, last, rfl⟩ := eq_nil_or_concat udtab |>.resolve_left hne
  simp only [concat_eq_append] at h hlength ⊢
  rw [length_append, length_singleton] at hlength
  have hinit : init.length = 7 * septets.length / 8 := by omega
  refine ⟨init, last, rfl, hinit, ?_⟩
  have hsame := h.same
  rw [Nat.ofDigits_append, Nat.ofDigits_singleton, hinit] at hsame
  have hlt : Nat.ofDigits 128 septets < 128 ^ septets.length :=
    Nat.ofDigits_lt_base_pow_length (by decide) fun {_} hc => hs _ hc
  rw [two_pow_seven_mul, ← hsame] at hlt
  exact Nat.lt_of_mul_lt_mul_left ((Nat.le_add_left _ _).trans_lt hlt)

theorem Packed.step (h : Packed septets udtab) (hs : ∀ c ∈ septets, c < 128) (hch : ch < 128) :
    Packed (septets ++ [ch]) (packStep (septets.length % 8 + 1) ch udtab) := by
  have hlength := h.length
  have hsame := h.same
  have hvalue : Nat.ofDigits 128 (septets ++ [ch]) = Nat.ofDigits 128 septets +
      256 ^ (7 * septets.length / 8) * 2 ^ (7 * septets.length % 8) * ch := by
    rw [Nat.ofDigits_append, Nat.ofDigits_singleton, two_pow_seven_mul]
  have hlen : (septets ++ [ch]).length = septets.length + 1 := length_append
  by_cases hfirst : septets.length % 8 = 0
  · have hmod : 7 * septets.length % 8 = 0 := by omega
    have hudtab : udtab.length = 7 * septets.length / 8 := by omega
    rw [hfirst, packStep_first]
    refine ⟨forall_mem_append.mpr ⟨h.octet, ?_⟩, ?_, ?_⟩
    · exact forall_mem_singleton.mpr (by omega)
    · rw [length_append, length_singleton, hlen]
      omega
    · rw [hvalue, Nat.ofDigits_append, Nat.ofDigits_singleton, hsame, hudtab, hmod, Nat.pow_zero,
        Nat.mul_one]
  · obtain ⟨init, last, rfl, hinit, hlast⟩ := h.exists_last hs (by omega)
    rw [Nat.ofDigits_append, Nat.ofDigits_singleton, hinit] at hsame
    have hoctet := (forall_mem_append.mp h.octet).1
    have hmod : 7 * septets.length % 8 = 8 - septets.length % 8 := by omega
    rw [hmod] at hlast hvalue
    by_cases hmiddle : septets.length % 8 ≤ 6
    · generalize hk : septets.length % 8 = k at *
      have hpow : 2 ^ (8 - k) * 2 ^ k = 256 := by
        rw [← Nat.pow_add, Nat.sub_add_cancel (by omega)]
      have hlow : ch % 2 ^ k < 2 ^ k := Nat.mod_lt _ (Nat.two_pow_pos k)
      rw [packStep_middle (by omega) hmiddle hch, orLast_append, bitor_mul hlast]
      refine ⟨forall_mem_append.mpr ⟨forall_mem_append.mpr ⟨hoctet, ?_⟩, ?_⟩, ?_, ?_⟩
      · refine forall_mem_singleton.mpr ?_
        calc
          2 ^ (8 - k) * (ch % 2 ^ k) + last < 2 ^ (8 - k) * (ch % 2 ^ k) + 2 ^ (8 - k) :=
            Nat.add_lt_add_left hlast _
          _ = 2 ^ (8 - k) * (ch % 2 ^ k + 1) := by ring
          _ ≤ 2 ^ (8 - k) * 2 ^ k := Nat.mul_le_mul_left _ hlow
          _ = 256 := hpow
      · exact forall_mem_singleton.mpr ((Nat.div_le_self _ _).trans_lt (by omega))
      · simp only [length_append, length_singleton, hinit]
        omega
      · rw [hvalue, Nat.ofDigits_append, Nat.ofDigits_append, Nat.ofDigits_singleton,
          Nat.ofDigits_singleton, length_append, length_singleton, hinit, ← hsame,
          Nat.pow_succ, ← hpow]
        conv_rhs => rw [← Nat.mod_add_div ch (2 ^ k)]
        ring
    · have hlastPhase : septets.length % 8 = 7 := by omega
      rw [hlastPhase] at hlast hvalue ⊢
      rw [packStep_last, orLast_append, bitor_mul (hlast : last < 2 ^ 1)]
      have hlast' : last < 2 := hlast
      refine ⟨forall_mem_append.mpr ⟨hoctet, ?_⟩, ?_, ?_⟩
      · exact forall_mem_singleton.mpr (by omega)
      · simp only [length_append, length_singleton, hinit]
        omega
      · rw [hvalue, Nat.ofDigits_append, Nat.ofDigits_singleton, hinit, ← hsame]
        ring

theorem hexes_cons {octets : List Nat} : hexes (ch :: octets) = formatX 2 ch ++ hexes octets := rfl

theorem packLoop_packed (hs : ∀ c ∈ septets, c < 128) (hrest : ∀ c ∈ rest, c < 128)
    (h : Packed septets udtab) :
    ∃ octets, packLoop (hexes rest) (septets.length % 8 + 1) udtab = some octets ∧
      Packed (septets ++ rest) octets := by
  induction rest generalizing septets udtab with
  | nil => exact ⟨udtab, rfl, by rwa [append_nil]⟩
  | cons ch rest ih =>
    obtain ⟨hch, hrest⟩ := forall_mem_cons.mp hrest
    have hnext : (if septets.length % 8 + 1 = 8 then 1 else septets.length % 8 + 1 + 1) =
        (septets ++ [ch]).length % 8 + 1 := by
      rw [length_append, length_singleton]
      split <;> omega
    obtain ⟨octets, hloop, hpacked⟩ := ih
      (forall_mem_append.mpr ⟨hs, forall_mem_singleton.mpr hch⟩) hrest (h.step hs hch)
    rw [append_assoc, singleton_append] at hpacked
    refine ⟨octets, ?_, hpacked⟩
    have hnumber := tonumber16_formatX (n := ch) (by omega)
    rw [formatX_two (by omega)] at hnumber
    rw [hexes_cons, formatX_two (by omega), cons_append, cons_append, nil_append,
      packLoop, hnumber, bind_eq_bind, bind_some, hnext, hloop]

theorem pack_hexes (hs : ∀ c ∈ septets, c < 128) (hlen : septets.length < 256) :
    ∃ octets, pack (formatX 2 septets.length) (hexes septets) = some (hexes octets) ∧
      Packed septets octets := by
  obtain ⟨octets, hloop, hpacked⟩ :=
    packLoop_packed (forall_mem_nil (fun c => c < 128)) hs packed_nil
  refine ⟨octets, ?_, hpacked⟩
  have hlength := hpacked.length
  rw [nil_append] at hlength
  rw [length_nil] at hloop
  rw [pack, tonumber16_formatX hlen]
  simp only [bind_eq_bind, bind_some]
  rw [show 0 % 8 + 1 = 1 from rfl] at hloop
  rw [hloop, bind_some, if_neg (by omega), ← hlength, List.take_length, drop_length,
    flatMap_nil, append_nil]
  rfl

end ModemSupport.Rooter.SmsRead
