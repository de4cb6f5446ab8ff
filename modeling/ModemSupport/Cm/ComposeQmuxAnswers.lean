import ModemSupport.Cm.ComposeQmux

/-! A request of `ComposeQMUXMsg` that has room in its buffer gives back what it was made of. -/

namespace ModemSupport.Cm.ComposeQmux

open Lib.Memory Lib.Tlv GetTlv List Option

variable {g : Service} {profile : Profile} {k : Kind} {s : Tlvs} {xs : List Item} {m : Mem}
  {t : UInt8} {v extra : List UInt8} {o : Option (List UInt8)} {r : Request} {base nul : Nat}
  {table table' : List (UInt8 × Option (List UInt8))}

/-- The TLVs that have been written, those before `base` without `TLVLength`, and `nul` bytes behind
them. -/
structure Tlvs.Made (base : Nat) (s : Tlvs) (xs : List Item) (nul : Nat) : Prop where
  pTLV : s.pTLV = base
  le_base : tlvOffset ≤ base
  place : s.place = tlvOffset + (encode xs).length
  bytes : ∀ m, slice (written m s.writes) tlvOffset (encode xs).length = encode xs
  inside : Inside s.writes (tlvOffset + (encode xs).length + nul : Nat)
  nul_le : nul ≤ 1

theorem slice_put_prefix {a : Nat} {bs : List UInt8} :
    slice (put m a ((bs ++ extra).map some)) a bs.length = bs :=
  (slice_append_inj slice_put_self).1

theorem encode_singleton : encode [(t, v)] = t :: (toLE 2 v.length ++ (v ++ [])) := rfl

theorem Tlvs.Made.append (extra : List UInt8) (h : s.Made base xs nul) (hextra : extra.length ≤ 1)
    (hfit : tlvOffset + (encode (xs ++ [(t, v)])).length ≤ wdmDefaultBufsize) :
    Tlvs.Made base
      { s with
        writes := s.writes ++ [(s.place, t :: (toLE 2 v.length ++ (v ++ extra)))]
        tlvLength := s.tlvLength + (UInt16.ofNat v.length + 3) }
      (xs ++ [(t, v)]) extra.length := by
  have hlength : (encode [(t, v)]).length = 3 + v.length := by
    rw [length_encode_cons]
    rfl
  have hplace := h.place
  have hpTLV := h.pTLV
  have hbase := h.le_base
  have hnul := h.nul_le
  have hwrite : t :: (toLE 2 v.length ++ (v ++ extra)) = encode [(t, v)] ++ extra := by
    rw [encode_singleton, append_nil, cons_append, append_assoc]
  rw [length_encode_append, hlength] at hfit
  rw [wdmDefaultBufsize] at hfit
  rw [Tlvs.place] at hplace
  refine ⟨h.pTLV, h.le_base, ?_, fun m => ?_, ?_, hextra⟩
  · have hadd : (s.tlvLength + (UInt16.ofNat v.length + 3)).toNat =
        s.tlvLength.toNat + (v.length + 3) := by
      have hthree : (3 : UInt16) = UInt16.ofNat 3 := rfl
      have hlt : v.length + 3 < 2 ^ 16 := by omega
      rw [hthree, ← UInt16.ofNat_add, UInt16.toNat_add, UInt16.toNat_ofNat_of_lt' hlt]
      exact Nat.mod_eq_of_lt (by omega)
    show s.pTLV + _ = _
    rw [hadd, length_encode_append, hlength]
    omega
  · rw [written_append, length_encode_append, slice_append, encode_append, hwrite, h.place]
    show slice (put _ _ _) _ _ ++ slice (put _ _ _) _ _ = _
    rw [slice_put_of_apart (by omega), h.bytes, slice_put_prefix]
  · rw [length_encode_append, hlength]
    refine inside_append.mpr ⟨fun w hw => ?_, inside_cons.mpr ⟨?_, inside_nil⟩⟩
    · have hle := h.inside w hw
      omega
    · rw [hwrite, h.place, length_append, hlength]
      omega

theorem items_singleton : items [(t, o)] = (o.map (t, ·)).toList := by
  cases o <;> rfl

theorem Tlvs.Made.stringOf (h : s.Made base (items table) nul)
    (hfit : tlvOffset + (encode (items (table ++ [(t, o)]))).length ≤ wdmDefaultBufsize) :
    (s.stringOf t o).Made base (items (table ++ [(t, o)])) (if o.isSome then 1 else nul) := by
  rw [items_append, items_singleton] at hfit ⊢
  cases o with
  | none =>
    rw [map_none, toList_none, append_nil]
    exact h
  | some v => exact h.append [0] (Nat.le_refl 1) hfit

theorem Tlvs.Made.byteIf {b : UInt8} (c : Prop) [Decidable c] (h : s.Made base (items table) nul)
    (hfit : tlvOffset + (encode (items (table ++ [(t, if c then some [b] else none)]))).length ≤
      wdmDefaultBufsize) :
    (if c then s.byte t b else s).Made base (items (table ++ [(t, if c then some [b] else none)]))
      (if c then 0 else nul) := by
  rw [items_append, items_singleton] at hfit ⊢
  by_cases hc : c
  · rw [if_pos hc] at hfit ⊢
    rw [if_pos hc, if_pos hc]
    exact h.append [] (Nat.zero_le 1) hfit
  · rw [if_neg hc, if_neg hc, if_neg hc, map_none, toList_none, append_nil]
    exact h

theorem Tlvs.Made.byte {b : UInt8} (h : s.Made base (items table) nul)
    (hfit : tlvOffset + (encode (items (table ++ [(t, some [b])]))).length ≤ wdmDefaultBufsize) :
    (s.byte t b).Made base (items (table ++ [(t, some [b])])) 0 := by
  have hbyte := h.byteIf (t := t) (b := b) True (by simpa using hfit)
  simpa using hbyte

/-- What the composer of a request leaves to `ComposeQMUXMsg`. -/
structure CustomMade (custom : Writes × UInt16) (xs : List Item) : Prop where
  length : (custom.2 - 4).toNat = (encode xs).length
  bytes : ∀ m, slice (written m custom.1) tlvOffset (encode xs).length = encode xs
  inside : Inside custom.1 wdmDefaultBufsize

theorem Tlvs.Made.custom (h : s.Made base xs nul)
    (hsize : tlvOffset + (encode xs).length + nul ≤ wdmDefaultBufsize) :
    CustomMade (s.writes, UInt16.ofNat (base - tlvOffset + 4) + s.tlvLength) xs := by
  have hplace := h.place
  have hpTLV := h.pTLV
  have hbase := h.le_base
  rw [Tlvs.place] at hplace
  rw [wdmDefaultBufsize] at hsize
  refine ⟨?_, h.bytes, fun w hw => ?_⟩
  · have hlt : base - tlvOffset < 2 ^ 16 := by omega
    have hfour : UInt16.ofNat (base - tlvOffset + 4) + s.tlvLength - 4 =
        s.tlvLength + UInt16.ofNat (base - tlvOffset) := by
      have hofNat : UInt16.ofNat 4 = 4 := rfl
      rw [UInt16.ofNat_add, hofNat]
      grind
    dsimp only
    rw [hfour, UInt16.toNat_add, UInt16.toNat_ofNat_of_lt' hlt, Nat.mod_eq_of_lt (by omega)]
    omega
  · have hle := h.inside w hw
    rw [wdmDefaultBufsize]
    omega

theorem stringOf_if (c : Prop) [Decidable c] :
    (if c then s.stringOf t o else s) = s.stringOf t (if c then o else none) := by
  split <;> rfl

theorem profileIndex_eq : (if profile.pdp ≠ 0 ∧ g.sIsCdma = 0 then
      if g.sIsCdma ≠ 0 ∧ g.sHdrPersonality = 0x02 then s.byte 0x32 101
      else s.byte 0x31 (UInt8.ofInt profile.pdp)
    else s) =
    if profile.pdp ≠ 0 ∧ g.sIsCdma = 0 then s.byte 0x31 (UInt8.ofInt profile.pdp) else s := by
  by_cases h : profile.pdp ≠ 0 ∧ g.sIsCdma = 0
  · rw [if_pos h, if_pos h, if_neg fun hcdma => hcdma.1 h.2]
  · rw [if_neg h, if_neg h]

theorem Kind.Fits.le (table' : List (UInt8 × Option (List UInt8))) (h : k.Fits g profile)
    (htable : k.table g profile = table ++ table') :
    tlvOffset + (encode (items table)).length ≤ wdmDefaultBufsize := by
  have hle := length_items_le table table'
  rw [Kind.Fits, htable] at h
  omega

theorem start_init : Tlvs.Made tlvOffset ⟨tlvOffset, [(lengthOffset, [0, 0])], 0⟩ (items []) 0 :=
  ⟨rfl, Nat.le_refl _, rfl, fun _ => rfl, inside_cons.mpr ⟨by decide, inside_nil⟩, Nat.zero_le _⟩

theorem start_made (h : Kind.start.Fits g profile) :
    CustomMade (wdsStartNwInterfaceReq g profile) (items (Kind.start.table g profile)) := by
  have htech := start_init.byte (t := 0x30) (b := if g.sIsCdma = 0 then 0x01 else 0x02) (h.le _ rfl)
  have hapn := htech.stringOf (t := 0x14) (o := if g.sIsCdma = 0 then profile.apn else none)
    (h.le _ rfl)
  have huser := hapn.stringOf (t := 0x17) (o := (credentials g profile).user) (h.le _ rfl)
  have hpassword := huser.stringOf (t := 0x18) (o := (credentials g profile).password) (h.le _ rfl)
  have hauth := hpassword.byteIf (t := 0x16) (b := UInt8.ofInt (credentials g profile).auth)
    ((credentials g profile).user.isSome ∧ (credentials g profile).password.isSome) (h.le _ rfl)
  have hfamily := hauth.byte (t := 0x19) (b := UInt8.ofInt profile.curIpFamily) (h.le _ rfl)
  have hmade := hfamily.byteIf (t := 0x31) (b := UInt8.ofInt profile.pdp)
    (profile.pdp ≠ 0 ∧ g.sIsCdma = 0) (h.le [] rfl)
  have hsize : tlvOffset + (encode (items (Kind.start.table g profile))).length +
      (if profile.pdp ≠ 0 ∧ g.sIsCdma = 0 then 0 else 0) ≤ wdmDefaultBufsize := by
    rw [ite_self]
    exact h.le [] (append_nil _).symm
  rw [wdsStartNwInterfaceReq]
  simp only [profileIndex_eq, stringOf_if]
  exact hmade.custom hsize

theorem modify_init (profile : Profile) : Tlvs.Made (tlvOffset + 5)
    ⟨tlvOffset + 5, [(lengthOffset, toLE 2 (9 - 4)),
      (tlvOffset, 0x01 :: (toLE 2 2 ++ [0x00, UInt8.ofInt profile.pdp]))], 0⟩
    (items [(0x01, some [0x00, UInt8.ofInt profile.pdp])]) 0 := by
  refine ⟨rfl, Nat.le_add_right _ _, rfl, fun m => ?_, ?_, Nat.zero_le _⟩
  · exact slice_put_self
  · refine inside_cons.mpr ⟨?_, inside_cons.mpr ⟨Int.le_refl _, inside_nil⟩⟩
    show (13 : Int) ≤ 18
    decide

theorem modify_made (h : Kind.modify.Fits g profile) :
    CustomMade (wdsModifyProfileSettingsReq profile) (items (Kind.modify.table g profile)) := by
  have htype := (modify_init profile).byte (t := 0x11)
    (b := if profile.isDualIPSupported ≠ 0 then 3 else if profile.enableIpv6 ≠ 0 then 2 else 0)
    (h.le _ rfl)
  have hapn := htype.stringOf (t := 0x14) (o := profile.apn) (h.le _ rfl)
  have huser := hapn.stringOf (t := 0x1B) (o := profile.user) (h.le _ rfl)
  have hpassword := huser.stringOf (t := 0x1C) (o := profile.password) (h.le _ rfl)
  have hmade := hpassword.byteIf (t := 0x1D) (b := UInt8.ofInt profile.auth)
    (profile.user.isSome ∧ profile.password.isSome) (h.le [] rfl)
  refine hmade.custom ?_
  refine le_trans (Nat.add_le_add_left ?_ _) h
  cases hapn : profile.apn <;> cases huser : profile.user <;> cases hpassword : profile.password <;>
    simp [Kind.EndsInString, hapn, huser, hpassword]

theorem custom_made (h : k.Fits g profile) :
    CustomMade (k.custom g profile) (items (k.table g profile)) := by
  cases k with
  | start => exact start_made h
  | modify => exact modify_made h

theorem wanted_iff {i : Nat} {u : UInt8} : Wanted t.toNat i u ↔ u = t := by
  have hlt := t.toNat_lt
  rw [Wanted, if_neg (by omega), Int.natCast_inj, UInt8.toNat_inj]

theorem target_of_none {i p : Nat} (h : first t xs = none) : target t.toNat i p xs = none := by
  induction xs generalizing i p with
  | nil => rfl
  | cons x xs ih =>
    rw [first_cons] at h
    split at h
    · cases h
    · next hx =>
      rw [target_cons_of_not_wanted (wanted_iff.not.mpr hx)]
      exact ih h

theorem target_of_some {i p : Nat} (h : first t xs = some v) (hholds : Holds m p xs) :
    ∃ q, target t.toNat i p xs = some q ∧ q + headerSize + v.length ≤ p + (encode xs).length ∧
      size m q = v.length ∧ slice m (q + headerSize) v.length = v := by
  induction xs generalizing i p with
  | nil => cases h
  | cons x xs ih =>
    obtain ⟨htype, hsize, hvalue, hrest⟩ := hholds
    rw [length_encode_cons]
    rw [first_cons] at h
    split at h
    next hx =>
      obtain rfl := some.inj h
      exact ⟨p, target_cons_of_wanted (wanted_iff.mpr hx), by omega, hsize, hvalue⟩
    next hx =>
      obtain ⟨q, htarget, hle, hq⟩ := ih (i := i + 1) h hrest
      refine ⟨q, ?_, by omega, hq⟩
      rw [target_cons_of_not_wanted (wanted_iff.not.mpr hx), Nat.add_right_comm]
      exact htarget

theorem answers_of_fills (h : Fills r.mem xs)
    (hlength : tlvOffset + messageLength r.mem = r.length) : r.Answers t (first t xs) := by
  obtain ⟨as, has, hret⟩ := exists_getTLV t.toNat h
  refine ⟨as, has, ?_⟩
  rw [hret]
  cases hfirst : first t xs with
  | none => rw [target_of_none hfirst]
  | some v =>
    obtain ⟨q, htarget, hle, hq⟩ := target_of_some (i := 0) hfirst h.holds
    rw [h.length, hlength] at hle
    exact ⟨q, by rw [htarget], hle, hq⟩

theorem table_nodup : ((k.table g profile).map Prod.fst).Nodup := by
  cases k with
  | start => exact (by decide : [(0x30 : UInt8), 0x14, 0x17, 0x18, 0x16, 0x19, 0x31].Nodup)
  | modify => exact (by decide : [(0x01 : UInt8), 0x11, 0x14, 0x1B, 0x1C, 0x1D].Nodup)

variable {custom : Writes × UInt16} {qmiType : UInt8} {type transactionId : UInt16}
  {qmiclientId : Int} {malloc : Nat → Bool} {stack : Mem}

theorem lengths_written (n n' : Nat) (hn : n < 2 ^ 16) (hn' : n' < 2 ^ 16) :
    let buf := written m [(lengthOffset, toLE 2 n), (1, toLE 2 n')]
    messageLength buf = n ∧ ofLE (slice buf 1 2) = n' ∧
      ∀ p k, tlvOffset ≤ p → slice buf p k = slice m p k := by
  refine ⟨?_, ofLE_slice_put hn', fun p k hp => ?_⟩
  · rw [messageLength]
    show ofLE (slice (put (put _ _ _) 1 _) _ _) = n
    rw [slice_put_of_apart (by rw [length_toLE]; decide)]
    exact ofLE_slice_put hn
  · rw [tlvOffset] at hp
    show slice (put (put _ _ _) 1 _) _ _ = _
    rw [slice_put_of_apart (by rw [length_toLE]; omega),
      slice_put_of_apart (by rw [length_toLE, lengthOffset]; omega)]

theorem qmiLength_eq (length : UInt16) (h : length.toNat ≤ wdmDefaultBufsize) :
    (length + 4 + 3 + 6 - 1).toNat = length.toNat + 12 := by
  rw [wdmDefaultBufsize] at h
  have hsum : length + 4 + 3 + 6 - 1 = length + UInt16.ofNat 12 := by
    have htwelve : UInt16.ofNat 12 = 12 := rfl
    rw [htwelve]
    grind
  rw [hsum, UInt16.toNat_add, UInt16.toNat_ofNat_of_lt' (by decide), Nat.mod_eq_of_lt (by omega)]

theorem request_made (h : CustomMade custom (items table))
    (hfit : tlvOffset + (encode (items table)).length ≤ wdmDefaultBufsize)
    (hr : (composeQMUXMsg qmiType type (some custom) qmiclientId transactionId malloc
      stack).request = some r) :
    r.length = tlvOffset + (encode (items table)).length ∧ ofLE (slice r.mem 1 2) + 1 = r.length ∧
      Fills r.mem (items table) := by
  have hlength := h.length
  have hqmi := qmiLength_eq (custom.2 - 4) (by omega)
  rw [wdmDefaultBufsize] at hfit
  rw [composeQMUXMsg] at hr
  dsimp only [map_some, getD_some] at hr
  split at hr
  · cases hr
  split at hr
  · obtain rfl := some.inj hr
    dsimp only
    rw [written_append]
    obtain ⟨hmessage, hall, hbytes⟩ := lengths_written
      (custom.2 - 4).toNat (custom.2 - 4 + 4 + 3 + 6 - 1).toNat
      (UInt16.toNat_lt _) (UInt16.toNat_lt _)
    refine ⟨?_, ?_, ?_, ?_⟩
    · rw [hqmi, hlength, tlvOffset]
      omega
    · rw [hall]
    · rw [hmessage, hlength]
    · rw [hbytes _ _ (Nat.le_refl _), written_append, h.bytes]
  · cases hr

theorem compose_correct (h : CustomMade custom (items table))
    (hnodup : (table.map Prod.fst).Nodup)
    (hfit : tlvOffset + (encode (items table)).length ≤ wdmDefaultBufsize) :
    Correct table (composeQMUXMsg qmiType type (some custom) qmiclientId transactionId malloc
      stack) := by
  refine ⟨?_, fun r hr => ?_, fun r hr => ?_, fun r hr t => ?_⟩
  · have hhdr : Inside [(0, [0x01]), (3, [0x00]), (4, [qmiType]), (5, [UInt8.ofInt qmiclientId])]
        wdmDefaultBufsize := by
      simp [Inside, wdmDefaultBufsize]
    rw [composeQMUXMsg]
    by_cases hclient : qmiclientId = 0
    · rw [if_pos hclient]
      exact hhdr
    · rw [if_neg hclient]
      refine inside_append.mpr ⟨inside_append.mpr ⟨inside_append.mpr ⟨hhdr, ?_⟩, h.inside⟩, ?_⟩ <;>
        simp [Inside, wdmDefaultBufsize, lengthOffset]
  · obtain ⟨hlength, -, -⟩ := request_made h hfit hr
    omega
  · obtain ⟨hlength, hqmi, hfills⟩ := request_made h hfit hr
    exact ⟨hqmi, by rw [hlength, ← hfills.length], _, hfills⟩
  · obtain ⟨hlength, -, hfills⟩ := request_made h hfit hr
    rw [← first_items hnodup]
    exact answers_of_fills hfills (by rw [hlength, ← hfills.length])

theorem Request.Answers.unique {o o' : Option (List UInt8)} (h : r.Answers t o)
    (h' : r.Answers t o') : o = o' := by
  obtain ⟨as, has, hret⟩ := h
  obtain ⟨bs, hbs, hret'⟩ := h'
  obtain rfl := has.unique hbs
  cases o with
  | none =>
    cases o' with
    | none => rfl
    | some v' =>
      obtain ⟨p, hp, -⟩ := hret'
      cases hret.symm.trans hp
  | some v =>
    obtain ⟨p, hp, -, hsize, hv⟩ := hret
    cases o' with
    | none => cases hp.symm.trans hret'
    | some v' =>
      obtain ⟨q, hq, -, hsize', hv'⟩ := hret'
      cases hp.symm.trans hq
      rw [← hv, ← hv', ← hsize, ← hsize']

/-- A request that has room in the buffer stays in it and reads back: `GetTLV` finds what the
request is for, and nothing else. -/
theorem composeQMUXMsg_correct (k : Kind) (g : Service) (profile : Profile) (qmiType : UInt8)
    (type : UInt16) (qmiclientId : Int) (transactionId : UInt16) (malloc : Nat → Bool)
    (stack : Mem) (hfits : k.Fits g profile) :
    Correct (k.table g profile) (composeQMUXMsg qmiType type (some (k.custom g profile))
      qmiclientId transactionId malloc stack) :=
  compose_correct (custom_made hfits) table_nodup (hfits.le [] (append_nil _).symm)

def internet : Profile where
  apn := some [0x69, 0x6E, 0x74, 0x65, 0x72, 0x6E, 0x65, 0x74]
  user := none
  password := none
  auth := 0
  pdp := 1
  isDualIPSupported := 0
  curIpFamily := 4
  enableIpv6 := 0

theorem composeQMUXMsg_correct_internet :
    Correct (Kind.start.table ⟨0, 0⟩ internet) (composeQMUXMsg 0x01 0x0020
      (some (Kind.start.custom ⟨0, 0⟩ internet)) 1 1 (fun _ => true) fun _ => 0) :=
  composeQMUXMsg_correct .start ⟨0, 0⟩ internet 0x01 0x0020 1 1 _ _ (by decide)

theorem apn_written (apn : List UInt8) :
    (17, 0x14 :: (toLE 2 apn.length ++ (apn ++ [0]))) ∈
      (composeQMUXMsg 0x01 0x0020
        (some (Kind.start.custom ⟨0, 0⟩ { internet with apn := some apn })) 1 1 (fun _ => true)
        fun _ => 0).writes := by
  simp [composeQMUXMsg, Kind.custom, wdsStartNwInterfaceReq, Tlvs.stringOf, Tlvs.string,
    Tlvs.byte, Tlvs.place, credentials, internet, tlvOffset]

/-- For CDMA the APN is not found, and an APN of 250 characters is written behind the buffer. -/
theorem composeQMUXMsg_not_correct :
    (∃ r, (composeQMUXMsg 0x01 0x0020 (some (Kind.start.custom ⟨1, 0⟩ internet)) 1 1
        (fun _ => true) fun _ => 0).request = some r ∧ ¬r.Answers 0x14 internet.apn) ∧
    ¬Inside (composeQMUXMsg 0x01 0x0020
      (some (Kind.start.custom ⟨0, 0⟩ { internet with apn := some (replicate 250 0x61) })) 1 1
      (fun _ => true) fun _ => 0).writes wdmDefaultBufsize := by
  constructor
  · obtain ⟨r, hr⟩ : ∃ r, (composeQMUXMsg 0x01 0x0020 (some (Kind.start.custom ⟨1, 0⟩ internet)) 1 1
        (fun _ => true) fun _ => 0).request = some r := ⟨_, rfl⟩
    have hfits : Kind.start.Fits ⟨1, 0⟩ internet := by decide
    have hle := hfits.le [] (append_nil _).symm
    obtain ⟨hlength, -, hfills⟩ := request_made (custom_made hfits) hle hr
    have hnone : first 0x14 (items (Kind.start.table ⟨1, 0⟩ internet)) = none := by decide
    have hanswer := answers_of_fills (t := 0x14) hfills (by rw [hlength, ← hfills.length])
    rw [hnone] at hanswer
    refine ⟨r, hr, fun h => ?_⟩
    cases hanswer.unique h
  · intro h
    have hwrite := h _ (apn_written (replicate 250 0x61))
    rw [length_cons, length_append, length_append, length_toLE,
      length_replicate] at hwrite
    exact absurd hwrite (by decide)

end ModemSupport.Cm.ComposeQmux
