import ModemSupport.Cm.MbimCompose

/-! Which messages of `mbim_main` are as long as their allocations, and what is read back from the
one that connects. -/

namespace ModemSupport.Cm.MbimCompose

open Lib.Memory

variable {env : Env} {c : Config} {command : Command} {m m' : Mem} {message : Message}
  {s : Option (List UInt8)} {bs : List UInt8} {field offset a p n : Nat} {cid commandType : Nat}
  {info : Option Mem} {length : UInt32}

theorem slice_written_of_lt {writes : Writes} (h : ∀ w ∈ writes, p + n ≤ w.1) :
    slice (written m writes) p n = slice m p n := by
  apply slice_congr
  intro i _ hi
  exact written_of_lt fun w hw => by
    have hle := h w hw
    omega

theorem messageLength_eq (env : Env) (messageType : Nat) (writes : Writes) {k : Nat}
    (hmem : message.mem = written m (header messageType k env.transactionId ++ writes))
    (hk : k < 2 ^ 32) (hbehind : ∀ w ∈ writes, 8 ≤ w.1) : message.messageLength = k := by
  rw [Message.messageLength, hmem, written_append, slice_written_of_lt hbehind]
  show ofLE (slice (put (put (put _ 0 _) 4 _) 8 _) 4 4) = k
  rw [slice_put_of_apart (.inl (by decide))]
  exact ofLE_slice_put hk

theorem information_behind : ∀ w ∈ information info length, 8 ≤ w.1 := by
  cases info with
  | none => simp [information]
  | some info =>
    rw [information]
    split <;> simp [sizeofCommandMsg]

theorem command_length (h : sizeofCommandMsg + length.toNat < 2 ^ 32) :
    (composeBasicConnectCommand env cid commandType info length).messageLength =
      (composeBasicConnectCommand env cid commandType info length).allocated := by
  refine messageLength_eq env 3 _ (by rw [composeBasicConnectCommand, List.append_assoc]) h ?_
  rw [List.forall_mem_append]
  exact ⟨by simp, information_behind⟩

theorem utf16le_eq : utf16le s = wide (s.getD []) := by
  rw [utf16le, wide]
  congr 1
  funext c
  have hbyte : UInt8.ofNat c.toNat = c := UInt8.ofNat_toNat
  have hzero : c.toNat / 256 = 0 := Nat.div_eq_of_lt c.toNat_lt
  rw [toLE, toLE, toLE, hbyte, hzero]
  rfl

theorem length_wide : (wide bs).length = 2 * bs.length := by
  induction bs with
  | nil => rfl
  | cons b bs ih =>
    rw [wide, List.flatMap_cons, List.length_append, ← wide, ih, List.length_cons]
    simp only [List.length_cons, List.length_nil]
    omega

theorem le32_natCast (h : n < 2 ^ 32) : le32 n = toLE 4 n := by
  have hmod : ((n : Int) % 2 ^ 32).toNat = n := by omega
  rw [le32, hmod]

theorem length_le32 {x : Int} : (le32 x).length = 4 := length_toLE

/-- What the fields of a string hold, its offset at `field` and its size behind it. -/
structure Placed (m : Mem) (field offset : Nat) (bs : List UInt8) : Prop where
  offsetField : ofLE (slice m field 4) = if bs = [] then 0 else sizeofSetConnect + offset
  sizeField : ofLE (slice m (field + 4) 4) = 2 * bs.length
  bytes : slice m (sizeofSetConnect + offset) (2 * bs.length) = wide bs

/-- A memory is another one but for the fields of a string and its bytes. -/
def Frame (m m' : Mem) (field offset size : Nat) : Prop :=
  ∀ p n, p + n ≤ field ∨ field + 8 ≤ p →
    p + n ≤ sizeofSetConnect + offset ∨ sizeofSetConnect + offset + size ≤ p →
    slice m' p n = slice m p n

theorem placed_written (hfield : field ≤ 24) (hnil : bs ≠ [])
    (hlt : offset + 2 * bs.length < 2 ^ 31) :
    let m' := written m [(field + 4, toLE 4 (2 * bs.length)),
      (field, toLE 4 (sizeofSetConnect + offset)), (sizeofSetConnect + offset, wide bs)]
    Placed m' field offset bs ∧ Frame m m' field offset (2 * bs.length) := by
  have hsixty : sizeofSetConnect = 60 := rfl
  refine ⟨⟨?_, ?_, ?_⟩, fun p n hfields hbytes => ?_⟩
  · rw [if_neg hnil]
    show ofLE (slice (put (put _ field _) (sizeofSetConnect + offset) _) field 4) = _
    rw [slice_put_of_apart (by omega)]
    exact ofLE_slice_put (by omega)
  · show ofLE (slice (put (put (put _ (field + 4) _) field _) (sizeofSetConnect + offset) _)
      (field + 4) 4) = _
    rw [slice_put_of_apart (by omega), slice_put_of_apart (by rw [length_toLE]; omega)]
    exact ofLE_slice_put (by omega)
  · rw [← length_wide]
    exact slice_put_self
  · show slice (put (put (put _ (field + 4) _) field _) (sizeofSetConnect + offset) _) p n = _
    rw [slice_put_of_apart (by rw [length_wide]; omega),
      slice_put_of_apart (by rw [length_toLE]; omega),
      slice_put_of_apart (by rw [length_toLE]; omega)]

theorem putString_placed (field offset : Nat) (hfield : field ≤ 24)
    (hoffset : ofLE (slice m field 4) = 0) (hsize : ofLE (slice m (field + 4) 4) = 0)
    (hlt : offset + 2 * (s.getD []).length < 2 ^ 31) :
    ∃ m', putString field s m offset = (m', ((offset + 2 * (s.getD []).length : Nat) : Int)) ∧
      Placed m' field offset (s.getD []) ∧ Frame m m' field offset (2 * (s.getD []).length) := by
  -- the size is added as it is read back
  have hsum : ∀ {m' : Mem}, Placed m' field offset (s.getD []) →
      (m', int32 ((offset : Int) + ofLE (slice m' (field + 4) 4))) =
        (m', ((offset + 2 * (s.getD []).length : Nat) : Int)) := by
    intro m' h
    rw [h.sizeField, ← Int.natCast_add, int32_of_lt (by omega)]
  have hsixty : sizeofSetConnect = 60 := rfl
  rw [putString]
  by_cases hnil : s.getD [] = []
  · have hplaced : Placed m field offset (s.getD []) := by
      rw [hnil]
      exact ⟨hoffset, hsize, rfl⟩
    rw [if_pos hnil]
    exact ⟨m, hsum hplaced, hplaced, fun _ _ _ _ => rfl⟩
  · have hplace : ((offset : Int) + (sizeofSetConnect : Nat)).toNat =
        sizeofSetConnect + offset := by omega
    have hsizeField : le32 (2 * ((s.getD []).length : Nat)) = toLE 4 (2 * (s.getD []).length) :=
      le32_natCast (n := 2 * (s.getD []).length) (by omega)
    have hoffsetField : le32 ((offset : Int) + (sizeofSetConnect : Nat)) =
        toLE 4 (sizeofSetConnect + offset) := by
      rw [Int.add_comm]
      exact le32_natCast (n := sizeofSetConnect + offset) (by omega)
    rw [if_neg hnil, hplace, hsizeField, hoffsetField]
    obtain ⟨hplaced, hframe⟩ := placed_written (m := m) hfield hnil hlt
    exact ⟨_, hsum hplaced, hplaced, hframe⟩

theorem Placed.frame (h : Placed m field offset bs)
    (hfields : ∀ p n, field ≤ p → p + n ≤ field + 8 → slice m' p n = slice m p n)
    (hbytes : slice m' (sizeofSetConnect + offset) (2 * bs.length) =
      slice m (sizeofSetConnect + offset) (2 * bs.length)) : Placed m' field offset bs :=
  ⟨by rw [hfields _ _ (Nat.le_refl _) (by omega), h.offsetField],
    by rw [hfields _ _ (by omega) (by omega), h.sizeField], by rw [hbytes, h.bytes]⟩

theorem addLength_int32 {n : Int} :
    addLength (int32 n) s = int32 (n + 2 * (s.getD []).length) := by
  cases s with
  | none => simp [addLength]
  | some s => exact int32_add_left

theorem buflen_eq : buflen c = int32 c.size := by
  have hzero : (0 : Int) = int32 0 := by decide
  have hsize : (c.size : Int) = 0 + 2 * (c.mbimApn.getD []).length +
      2 * (c.mbimUser.getD []).length + 2 * (c.mbimPasswd.getD []).length := by
    rw [Config.size]
    omega
  rw [buflen, hzero, addLength_int32, addLength_int32, addLength_int32, hsize]

theorem buflen_lt : buflen c < 2 ^ 31 := by
  rw [buflen_eq]
  exact Int32.toInt_lt _

theorem eq_of_slice_eq {i k : Nat} (h : slice m a n = slice m' k n) (hi : i < n) :
    m (a + i) = m' (k + i) := by
  have hget := congrArg (·[i]?) h
  simpa [slice, hi] using hget

theorem size_eq (h : message.read (message.region field) = utf16le s) :
    (message.region field).size = 2 * (s.getD []).length := by
  rw [utf16le_eq] at h
  rw [← length_wide, ← h, Message.read, length_slice]

theorem command_written (env : Env) (cid commandType : Nat) (m : Mem) (h : length ≠ 0) :
    ∃ heap, (composeBasicConnectCommand env cid commandType (some m) length).mem =
      written heap [(44, toLE 4 length.toNat), (sizeofCommandMsg, slice m 0 length.toNat)] := by
  rw [composeBasicConnectCommand, information, if_neg h, written_append]
  exact ⟨_, rfl⟩

theorem info_slice (h : length ≠ 0) (hle : p + n ≤ length.toNat) :
    slice (composeBasicConnectCommand env cid commandType (some m) length).info p n =
      slice m p n := by
  obtain ⟨heap, hmem⟩ := command_written env cid commandType m h
  have hself : slice (put (put heap 44 ((toLE 4 length.toNat).map some)) sizeofCommandMsg
      ((slice m 0 length.toNat).map some)) sizeofCommandMsg (slice m 0 length.toNat).length =
      slice m 0 length.toNat := slice_put_self
  rw [length_slice] at hself
  apply List.map_congr_left
  intro i hi
  have hlt := List.mem_range.mp hi
  have hbyte := eq_of_slice_eq (i := p + i) hself (by omega)
  rw [Nat.zero_add] at hbyte
  rw [Message.info, hmem]
  exact hbyte

theorem infoLength_eq (h : length ≠ 0) :
    (composeBasicConnectCommand env cid commandType (some m) length).infoLength = length.toNat := by
  obtain ⟨heap, hmem⟩ := command_written env cid commandType m h
  rw [Message.infoLength, hmem]
  show ofLE (slice (put (put _ 44 _) sizeofCommandMsg _) 44 4) = _
  rw [slice_put_of_apart (.inl (by decide))]
  exact ofLE_slice_put length.toNat_lt

theorem setConnect_slice {sessionID : Int} {activation : Nat}
    (h : 8 ≤ p ∧ p + n ≤ 32 ∨ sizeofSetConnect ≤ p) :
    slice (written m [(0, le32 sessionID), (4, toLE 4 activation), (32, toLE 4 0),
      (36, le32 c.mbimAuth), (40, le32 c.mbimIptype), (44, uuidContextTypeInternet)]) p n =
      slice m p n := by
  have hsixty : sizeofSetConnect = 60 := rfl
  have huuid : uuidContextTypeInternet.length = 16 := rfl
  show slice (put (put (put (put (put (put _ 0 _) 4 _) 32 _) 36 _) 40 _) 44
    (uuidContextTypeInternet.map some)) p n = _
  rw [slice_put_of_apart (by rw [huuid]; omega), slice_put_of_apart (by rw [length_le32]; omega),
    slice_put_of_apart (by rw [length_le32]; omega),
    slice_put_of_apart (by rw [length_toLE]; omega),
    slice_put_of_apart (by rw [length_toLE]; omega),
    slice_put_of_apart (by rw [length_le32]; omega)]

theorem Config.size_eq : c.size = 2 * (c.mbimApn.getD []).length + 2 * (c.mbimUser.getD []).length +
    2 * (c.mbimPasswd.getD []).length := by
  rw [Config.size]
  omega

theorem ofLE_zeroed (h : p + 4 ≤ n) :
    ofLE (slice (fun i => if i < n then 0 else m i) p 4) = 0 := by
  have hslice : slice (fun i => if i < n then 0 else m i) p 4 = slice (fun _ => 0) p 4 :=
    slice_congr fun i _ hi => if_pos (by omega)
  rw [hslice]
  rfl

theorem populate (h : c.size < 2 ^ 31) (heap : Mem) :
    ∃ m, mbimPopulateConnectData c heap = some ((c.size : Int), m) ∧
      Placed m 8 0 (c.mbimApn.getD []) ∧
      Placed m 16 (2 * (c.mbimApn.getD []).length) (c.mbimUser.getD []) ∧
      Placed m 24 (2 * (c.mbimApn.getD []).length + 2 * (c.mbimUser.getD []).length)
        (c.mbimPasswd.getD []) := by
  have hsixty : sizeofSetConnect = 60 := rfl
  have hsum := Config.size_eq (c := c)
  have hbuflen : buflen c = c.size := by rw [buflen_eq, int32_of_lt h]
  have hmalloc : malloc (sizeofSetConnect + buflen c) := by
    rw [hbuflen, malloc, decide_eq_true_eq]
    omega
  have hzero : ∀ p ≤ 28, ofLE (slice (fun i =>
      if i < (sizeofSetConnect + buflen c : Int).toNat then 0 else heap i) p 4) = 0 :=
    fun p hp => ofLE_zeroed (by omega)
  obtain ⟨m₁, hput₁, hplaced₁, hframe₁⟩ := putString_placed (s := c.mbimApn) 8 0 (by decide)
    (hzero 8 (by decide)) (hzero 12 (by decide)) (by omega)
  obtain ⟨m₂, hput₂, hplaced₂, hframe₂⟩ := putString_placed (m := m₁) (s := c.mbimUser) 16
    (0 + 2 * (c.mbimApn.getD []).length) (by decide)
    (by rw [hframe₁ _ _ (by omega) (by omega)]; exact hzero 16 (by decide))
    (by rw [hframe₁ _ _ (by omega) (by omega)]; exact hzero 20 (by decide)) (by omega)
  obtain ⟨m₃, hput₃, hplaced₃, hframe₃⟩ := putString_placed (m := m₂) (s := c.mbimPasswd) 24
    (0 + 2 * (c.mbimApn.getD []).length + 2 * (c.mbimUser.getD []).length) (by decide)
    (by rw [hframe₂ _ _ (by omega) (by omega), hframe₁ _ _ (by omega) (by omega)]
        exact hzero 24 (by decide))
    (by rw [hframe₂ _ _ (by omega) (by omega), hframe₁ _ _ (by omega) (by omega)]
        exact hzero 28 (by decide)) (by omega)
  rw [Nat.zero_add] at hplaced₂ hframe₂ hplaced₃ hframe₃
  refine ⟨m₃, ?_, ?_, ?_, hplaced₃⟩
  · rw [Nat.cast_zero] at hput₁
    rw [mbimPopulateConnectData, if_pos hmalloc]
    simp only [hput₁, hput₂, hput₃]
    rw [hbuflen]
  · apply (hplaced₁.frame _ _).frame
    · intro p n _ _
      exact hframe₃ p n (by omega) (by omega)
    · exact hframe₃ _ _ (by omega) (by omega)
    · intro p n _ _
      exact hframe₂ p n (by omega) (by omega)
    · exact hframe₂ _ _ (by omega) (by omega)
  · apply hplaced₂.frame
    · intro p n _ _
      exact hframe₃ p n (by omega) (by omega)
    · exact hframe₃ _ _ (by omega) (by omega)

theorem region_eq (env : Env) (cid commandType : Nat) (length : UInt32)
    (h : Placed m field offset bs) (hfield : field ≤ 24)
    (hle : sizeofSetConnect + offset + 2 * bs.length ≤ length.toNat) :
    let message := composeBasicConnectCommand env cid commandType (some m) length
    message.region field =
      (if bs = [] then ⟨0, 0⟩ else ⟨sizeofSetConnect + offset, 2 * bs.length⟩) ∧
      message.read (message.region field) = wide bs := by
  have hsixty : sizeofSetConnect = 60 := rfl
  have hpos : length ≠ 0 := by
    rintro rfl
    rw [UInt32.toNat_zero] at hle
    omega
  have hregion : (composeBasicConnectCommand env cid commandType (some m) length).region field =
      if bs = [] then ⟨0, 0⟩ else ⟨sizeofSetConnect + offset, 2 * bs.length⟩ := by
    rw [Message.region, info_slice hpos (by omega), info_slice hpos (by omega), h.offsetField,
      h.sizeField]
    split
    case isTrue hnil => rw [hnil]; rfl
    case isFalse => rfl
  refine ⟨hregion, ?_⟩
  rw [hregion, Message.read]
  split
  case isTrue hnil => rw [hnil]; rfl
  case isFalse => rw [info_slice hpos hle, h.bytes]

theorem setConnect_eq_some {onoff sessionID : Int}
    (h : setConnect env c onoff sessionID = some message) :
    ∃ m, 0 ≤ buflen c ∧ message = composeBasicConnectCommand env 12 1 (some m)
      (UInt32.ofNat (sizeofSetConnect + buflen c).toNat) := by
  rw [setConnect, mbimPopulateConnectData] at h
  split at h
  case h_1 => cases h
  case h_2 buflen m heq =>
    split at heq
    case isFalse => cases heq
    case isTrue =>
      cases heq
      split at h
      case isTrue => cases h
      case isFalse hnonneg =>
        cases h
        exact ⟨_, by omega, rfl⟩

theorem setConnect_none {onoff sessionID : Int} (h : setConnect env c onoff sessionID = none) :
    buflen c < 0 := by
  have hsixty : sizeofSetConnect = 60 := rfl
  have hlt := buflen_lt (c := c)
  by_contra hnonneg
  have hmalloc : malloc (sizeofSetConnect + buflen c) := by
    rw [malloc, decide_eq_true_eq]
    omega
  rw [setConnect, mbimPopulateConnectData, if_pos hmalloc] at h
  simp only at h
  rw [if_neg hnonneg] at h
  cases h

theorem setConnect_length {onoff sessionID : Int}
    (h : setConnect env c onoff sessionID = some message) :
    message.messageLength = message.allocated := by
  obtain ⟨m, hnonneg, rfl⟩ := setConnect_eq_some h
  have hsixty : sizeofSetConnect = 60 := rfl
  have hforty : sizeofCommandMsg = 48 := rfl
  have hlt := buflen_lt (c := c)
  apply command_length
  rw [UInt32.toNat_ofNat']
  omega

theorem region_apart {r r' : Region} {xs ys : List UInt8} {i k : Nat}
    (hr : r = if xs = [] then ⟨0, 0⟩ else ⟨sizeofSetConnect + i, 2 * xs.length⟩)
    (hr' : r' = if ys = [] then ⟨0, 0⟩ else ⟨sizeofSetConnect + k, 2 * ys.length⟩)
    (hle : i + 2 * xs.length ≤ k) : r.Apart r' := by
  rw [Region.Apart, hr, hr']
  split <;> split <;> simp only <;> omega

theorem size_add_le {r₁ r₂ r₃ : Region} (h₁₂ : r₁.Apart r₂) (h₁₃ : r₁.Apart r₃)
    (h₂₃ : r₂.Apart r₃) (h₁ : r₁.offset + r₁.size ≤ n) (h₂ : r₂.offset + r₂.size ≤ n)
    (h₃ : r₃.offset + r₃.size ≤ n) : r₁.size + r₂.size + r₃.size ≤ n := by
  rcases h₁₂ with h | h | h | h
  · rcases h₂₃ with h' | h' | h' | h' <;> omega
  · rcases h₁₃ with h' | h' | h' | h' <;> omega
  · rcases h₂₃ with h' | h' | h' | h' <;> rcases h₁₃ with h'' | h'' | h'' | h'' <;> omega
  · rcases h₂₃ with h' | h' | h' | h' <;> rcases h₁₃ with h'' | h'' | h'' | h'' <;> omega

theorem readsBack_of_placed (happn : Placed m 8 0 (c.mbimApn.getD []))
    (huser : Placed m 16 (2 * (c.mbimApn.getD []).length) (c.mbimUser.getD []))
    (hpasswd : Placed m 24 (2 * (c.mbimApn.getD []).length + 2 * (c.mbimUser.getD []).length)
      (c.mbimPasswd.getD []))
    (hlength : length.toNat = sizeofSetConnect + c.size) :
    (composeBasicConnectCommand env cid commandType (some m) length).ReadsBack c := by
  have hsixty : sizeofSetConnect = 60 := rfl
  have hsum := Config.size_eq (c := c)
  have hpos : length ≠ 0 := by
    rintro rfl
    rw [UInt32.toNat_zero] at hlength
    omega
  obtain ⟨hregion₁, hread₁⟩ := region_eq env cid commandType length happn (by decide)
    (by omega)
  obtain ⟨hregion₂, hread₂⟩ := region_eq env cid commandType length huser (by decide)
    (by omega)
  obtain ⟨hregion₃, hread₃⟩ := region_eq env cid commandType length hpasswd (by decide)
    (by omega)
  refine ⟨?_, ?_, ?_, ?_, ?_, ?_, ?_, ?_⟩
  · rw [infoLength_eq hpos]
    rfl
  · rw [hread₁, utf16le_eq]
  · rw [hread₂, utf16le_eq]
  · rw [hread₃, utf16le_eq]
  · rw [infoLength_eq hpos, hlength]
    simp only [List.forall_mem_cons, hregion₁, hregion₂, hregion₃]
    refine ⟨?_, ?_, ?_, nofun⟩ <;> split <;> simp only <;> omega
  · exact region_apart hregion₁ hregion₂ (by omega)
  · exact region_apart hregion₁ hregion₃ (by omega)
  · exact region_apart hregion₂ hregion₃ (by omega)

theorem setConnect_readsBack {onoff sessionID : Int} (hsize : c.size < 2 ^ 31)
    (h : setConnect env c onoff sessionID = some message) : message.ReadsBack c := by
  have hsixty : sizeofSetConnect = 60 := rfl
  obtain ⟨m, hpopulate, happn, huser, hpasswd⟩ := populate hsize env.heap
  rw [setConnect, hpopulate] at h
  simp only at h
  rw [if_neg (by omega), Option.some.injEq] at h
  subst h
  -- what `mbim_set_connect` writes itself leaves the strings
  apply readsBack_of_placed
  · exact happn.frame (fun _ _ _ _ => setConnect_slice (.inl (by omega)))
      (setConnect_slice (.inr (by omega)))
  · exact huser.frame (fun _ _ _ _ => setConnect_slice (.inl (by omega)))
      (setConnect_slice (.inr (by omega)))
  · exact hpasswd.frame (fun _ _ _ _ => setConnect_slice (.inl (by omega)))
      (setConnect_slice (.inr (by omega)))
  · rw [UInt32.toNat_ofNat']
    omega

theorem counted_of_readsBack {onoff sessionID : Int}
    (hsome : setConnect env c onoff sessionID = some message) (h : message.ReadsBack c) :
    c.Counted := by
  have hsixty : sizeofSetConnect = 60 := rfl
  obtain ⟨m, hnonneg, rfl⟩ := setConnect_eq_some hsome
  have hlt := buflen_lt (c := c)
  have hlength : (UInt32.ofNat (sizeofSetConnect + buflen c).toNat).toNat =
      sizeofSetConnect + (buflen c).toNat := by
    rw [UInt32.toNat_ofNat']
    omega
  have hpos : UInt32.ofNat (sizeofSetConnect + buflen c).toNat ≠ 0 := by
    intro hzero
    rw [hzero, UInt32.toNat_zero] at hlength
    omega
  have hle : c.size ≤ sizeofSetConnect + (buflen c).toNat := by
    rw [← hlength, ← infoLength_eq hpos, Config.size_eq, ← size_eq h.accessString,
      ← size_eq h.userName, ← size_eq h.password]
    exact size_add_le h.accessString_userName h.accessString_password h.userName_password
      (h.inside 8 (by decide)) (h.inside 16 (by decide)) (h.inside 24 (by decide))
  left
  have hmod : buflen c = (c.size : Int).bmod (2 ^ 32) := by rw [buflen_eq, int32_eq]
  rw [Int.bmod_def] at hmod
  split at hmod <;> omega

theorem simple_length (hnotOpen : ∀ maxControlTransfer, command ≠ .openDevice maxControlTransfer)
    (hnotSet : ∀ onoff sessionID, command ≠ .setConnect onoff sessionID)
    (h : compose env c command = some message) : message.messageLength = message.allocated := by
  cases command with
  | openDevice maxControlTransfer => exact absurd rfl (hnotOpen _)
  | setConnect onoff sessionID => exact absurd rfl (hnotSet _ _)
  | closeDevice =>
    cases h
    have hlt : sizeofCloseMsg < 2 ^ 32 := by decide
    exact messageLength_eq env 2 [] (by rw [composeCloseCommand, List.append_nil]) hlt nofun
  | _ =>
    cases h
    exact command_length (by decide)

theorem openDevice_length (env : Env) (maxControlTransfer : UInt32) :
    (composeOpenCommand env maxControlTransfer).messageLength = sizeofCommandMsg :=
  messageLength_eq env 1 _ rfl (by decide) (by simp)

/-- Every message that is sent is its allocation, and the connect data is read back, unless the
device is opened or an `int` takes the strings for shorter than they are. -/
theorem compose_correct_iff (env : Env) (c : Config) (command : Command) :
    Correct c command (compose env c command) ↔ command.Sound c := by
  constructor
  · intro h
    refine ⟨?_, ?_⟩
    · rintro maxControlTransfer rfl
      have hlength := h.length _ rfl
      rw [openDevice_length] at hlength
      exact absurd hlength (show ¬ sizeofCommandMsg = sizeofOpenMsg by decide)
    · rintro onoff sessionID rfl
      cases hsome : setConnect env c onoff sessionID with
      | none => exact .inr (buflen_eq ▸ setConnect_none hsome)
      | some message =>
        exact counted_of_readsBack hsome (h.readsBack _ onoff sessionID hsome rfl)
  · intro h
    by_cases hset : ∃ onoff sessionID, command = .setConnect onoff sessionID
    · obtain ⟨onoff, sessionID, rfl⟩ := hset
      refine ⟨fun _ hsome => setConnect_length hsome, fun message _ _ hsome _ => ?_⟩
      rcases h.counted onoff sessionID rfl with hlt | hneg
      · exact setConnect_readsBack hlt hsome
      · obtain ⟨_, hnonneg, _⟩ := setConnect_eq_some hsome
        rw [buflen_eq] at hnonneg
        omega
    · have hnotSet : ∀ onoff sessionID, command ≠ .setConnect onoff sessionID :=
        fun onoff sessionID heq => hset ⟨onoff, sessionID, heq⟩
      exact ⟨fun _ hsome => simple_length h.notOpen hnotSet hsome,
        fun _ onoff sessionID _ heq => absurd heq (hnotSet onoff sessionID)⟩

/-- 48 bytes of an allocation of 16 are sent to open the device. -/
theorem compose_not_correct : ¬ Correct ⟨none, none, none, 0, 0⟩ (.openDevice 4096)
    (compose ⟨1, fun _ => 0, fun _ => 0⟩ ⟨none, none, none, 0, 0⟩ (.openDevice 4096)) := by
  intro h
  have hlength := h.length _ rfl
  revert hlength
  decide

end ModemSupport.Cm.MbimCompose
