import ModemSupport.Lib.Memory

/-! The addresses that `mbim_ip_config` (`mbim-cm.c`) takes from the answer of the modem, and from
which answers it takes them as they are announced. -/

namespace ModemSupport.Cm.MbimIpConfig

open Lib.Memory

/-- The fields of `MBIM_IP_CONFIGURATION_INFO_T` for the addresses of one `iptype`, by their
offsets, and the size of an address. -/
structure Family where
  iptype : Nat
  size : Nat
  configurationAvailable : Nat
  addressOffset : Nat
  gatewayOffset : Nat
  dnsServerCount : Nat
  dnsServerOffset : Nat
  mtu : Nat
  deriving DecidableEq

def ipv4 : Family where
  iptype := 4
  size := 4
  configurationAvailable := 4
  addressOffset := 16
  gatewayOffset := 28
  dnsServerCount := 36
  dnsServerOffset := 40
  mtu := 52

def ipv6 : Family where
  iptype := 6
  size := 16
  configurationAvailable := 8
  addressOffset := 24
  gatewayOffset := 32
  dnsServerCount := 44
  dnsServerOffset := 48
  mtu := 56

/-- A `UINT32` of the answer, which starts at `pInfo`. -/
def word (info : Mem) (p : Nat) : UInt32 := UInt32.ofNat (ofLE (slice info p 4))

/-- A bit of the mask: 0x1 for the address, 0x2 for the gateway, 0x4 for the DNS servers and 0x8 for
the MTU. -/
def Family.available (f : Family) (info : Mem) (bit : UInt32) : Bool :=
  word info f.configurationAvailable &&& bit != 0

/-- Where `DataBuffer` has what an offset field names: the size of the fields in front of it is
taken off and added again. -/
def pointer (info : Mem) (field : Nat) : Nat := (word info field).toNat

/-- A call, with the bytes that it reads through its pointers: 4 or 16 of each, by `iptype`. -/
structure Ifconfig where
  iptype : Nat
  ipaddr : List UInt8
  gw : Option (List UInt8)
  dns1 : Option (List UInt8)
  dns2 : Option (List UInt8)
  prefixLength : UInt32
  mtu : UInt32
  deriving DecidableEq

structure Locals where
  gw : Option Nat
  dns1 : Option Nat
  dns2 : Option Nat
  mtu : UInt32

def Locals.init : Locals := ⟨none, none, none, 1500⟩

def assign (info : Mem) (f : Family) (v : Locals) : Locals where
  gw := if f.available info 0x2 then some (pointer info f.gatewayOffset) else v.gw
  dns1 := if f.available info 0x4 then some (pointer info f.dnsServerOffset) else v.dns1
  dns2 :=
    if f.available info 0x4 ∧ word info f.dnsServerCount = 2 then
      some (pointer info f.dnsServerOffset + f.size)
    else v.dns2
  mtu := if f.available info 0x8 then word info f.mtu else v.mtu

/-- `OnLinkPrefixLength` goes through a `UINT8`. -/
def mbimIfconfig (info : Mem) (f : Family) (v : Locals) : Ifconfig where
  iptype := f.iptype
  ipaddr := slice info (pointer info f.addressOffset + 4) f.size
  gw := v.gw.map fun p => slice info p f.size
  dns1 := v.dns1.map fun p => slice info p f.size
  dns2 := v.dns2.map fun p => slice info p f.size
  prefixLength := (word info (pointer info f.addressOffset)).toUInt8.toUInt32
  mtu := v.mtu

def after (info : Mem) (f : Family) (v : Locals) : Locals :=
  if f.available info 0x1 then assign info f v else v

def block (info : Mem) (f : Family) (v : Locals) : List Ifconfig :=
  if f.available info 0x1 then [mbimIfconfig info f (assign info f v)] else []

def mbimIpConfig (informationBufferLength : UInt32) (info : Mem) : List Ifconfig :=
  if informationBufferLength = 0 then []
  else block info ipv4 .init ++ block info ipv6 (after info ipv4 .init)

/-- What the answer announces for a family, whose mask says what there is and whose count how many
DNS servers. -/
def Family.announced (f : Family) (info : Mem) : Ifconfig where
  iptype := f.iptype
  ipaddr := slice info (pointer info f.addressOffset + 4) f.size
  gw :=
    if f.available info 0x2 then some (slice info (pointer info f.gatewayOffset) f.size) else none
  dns1 :=
    if f.available info 0x4 then some (slice info (pointer info f.dnsServerOffset) f.size) else none
  dns2 :=
    if f.available info 0x4 ∧ 2 ≤ word info f.dnsServerCount then
      some (slice info (pointer info f.dnsServerOffset + f.size) f.size)
    else none
  prefixLength := word info (pointer info f.addressOffset)
  mtu := if f.available info 0x8 then word info f.mtu else 1500

/-- A family is configured exactly when its mask announces an address, with what is announced for
it. -/
def Correct (info : Mem) (calls : List Ifconfig) : Prop :=
  ∀ f ∈ [ipv4, ipv6], calls.filter (fun call => call.iptype = f.iptype) =
    if f.available info 0x1 then [f.announced info] else []

def SecondLeft (info : Mem) : Prop :=
  ipv4.available info 0x1 ∧ ipv4.available info 0x4 ∧ word info ipv4.dnsServerCount = 2

/-- What the IPv4 block has found is found again by the IPv6 one, no more than two DNS servers are
announced and the lengths of the prefixes are held by a `UINT8`. -/
structure Sound (info : Mem) : Prop where
  prefixLength : ∀ f ∈ [ipv4, ipv6], f.available info 0x1 →
    word info (pointer info f.addressOffset) < 256
  ipv4Dns : ipv4.available info 0x1 → ipv4.available info 0x4 → word info ipv4.dnsServerCount ≤ 2
  gateway : ipv4.available info 0x1 → ipv6.available info 0x1 →
    ipv4.available info 0x2 → ipv6.available info 0x2
  dns : ipv4.available info 0x1 → ipv6.available info 0x1 →
    ipv4.available info 0x4 → ipv6.available info 0x4
  mtu : ipv4.available info 0x1 → ipv6.available info 0x1 →
    ipv4.available info 0x8 → ipv6.available info 0x8 ∨ word info ipv4.mtu = 1500
  -- with three and more, the second one of IPv4 can only have the bytes of the second one of IPv6
  ipv6Dns : ipv6.available info 0x1 → ipv6.available info 0x4 →
    word info ipv6.dnsServerCount = 2 ∨
    word info ipv6.dnsServerCount < 2 ∧ ¬ SecondLeft info ∨
    2 < word info ipv6.dnsServerCount ∧ SecondLeft info ∧
      slice info (pointer info ipv4.dnsServerOffset + ipv4.size) ipv6.size =
        slice info (pointer info ipv6.dnsServerOffset + ipv6.size) ipv6.size

variable {info : Mem} {f : Family} {v : Locals} {length : UInt32}

theorem toUInt8_toUInt32_eq {x : UInt32} : x.toUInt8.toUInt32 = x ↔ x < 256 := by
  rw [← UInt32.toNat_inj, UInt8.toNat_toUInt32, UInt32.toNat_toUInt8, UInt32.lt_iff_toNat_lt]
  have hlit : (256 : UInt32).toNat = 256 := rfl
  omega

theorem map_ite_eq {p : Prop} [Decidable p] {a : Option Nat} {x : Nat} {g : Nat → List UInt8} :
    (if p then some x else a).map g = (if p then some (g x) else none) ↔ p ∨ a = none := by
  by_cases hp : p
  · simp [hp]
  · simp [hp, Option.map_eq_none_iff]

/-- What has been found before is found again or is nothing. -/
structure Kept (info : Mem) (f : Family) (v : Locals) : Prop where
  prefixLength : word info (pointer info f.addressOffset) < 256
  gw : f.available info 0x2 ∨ v.gw = none
  dns1 : f.available info 0x4 ∨ v.dns1 = none
  dns2 : (assign info f v).dns2.map (fun p => slice info p f.size) = (f.announced info).dns2
  mtu : f.available info 0x8 ∨ v.mtu = 1500

theorem mbimIfconfig_eq_iff :
    mbimIfconfig info f (assign info f v) = f.announced info ↔ Kept info f v := by
  rw [mbimIfconfig, Family.announced, Ifconfig.mk.injEq]
  simp only [true_and, toUInt8_toUInt32_eq]
  constructor
  · rintro ⟨hgw, hdns1, hdns2, hlt, hmtu⟩
    exact ⟨hlt, map_ite_eq.mp hgw, map_ite_eq.mp hdns1, hdns2, by
      rw [assign] at hmtu
      by_cases havailable : f.available info 0x8
      · exact .inl havailable
      · simp only [if_neg havailable] at hmtu
        exact .inr hmtu⟩
  · intro h
    refine ⟨map_ite_eq.mpr h.gw, map_ite_eq.mpr h.dns1, h.dns2, h.prefixLength, ?_⟩
    rw [assign]
    rcases h.mtu with havailable | hmtu
    · simp only [if_pos havailable]
    · simp only [hmtu]

theorem filter_block {g : Family} (h : f.iptype ≠ g.iptype) :
    (block info g v).filter (fun call => call.iptype = f.iptype) = [] := by
  rw [block]
  split
  case isTrue => simp [mbimIfconfig, Ne.symm h]
  case isFalse => rfl

theorem filter_block_self :
    (block info f v).filter (fun call => call.iptype = f.iptype) = block info f v := by
  rw [block]
  split
  case isTrue => simp [mbimIfconfig]
  case isFalse => rfl

theorem block_eq_iff :
    block info f v = (if f.available info 0x1 then [f.announced info] else []) ↔
      (f.available info 0x1 → Kept info f v) := by
  rw [block, ← mbimIfconfig_eq_iff]
  by_cases h : f.available info 0x1
  · simp [h]
  · simp [h]

theorem correct_iff_kept (h : length ≠ 0) : Correct info (mbimIpConfig length info) ↔
    (ipv4.available info 0x1 → Kept info ipv4 .init) ∧
      (ipv6.available info 0x1 → Kept info ipv6 (after info ipv4 .init)) := by
  rw [Correct, mbimIpConfig, if_neg h, List.forall_mem_cons, List.forall_mem_singleton,
    List.filter_append, List.filter_append, filter_block_self, filter_block_self,
    filter_block (by decide), filter_block (by decide), List.append_nil, List.nil_append,
    block_eq_iff, block_eq_iff]

theorem dns2_eq_iff :
    (assign info f v).dns2.map (fun p => slice info p f.size) = (f.announced info).dns2 ↔
      (f.available info 0x4 → word info f.dnsServerCount = 2 ∨
        word info f.dnsServerCount < 2 ∧ v.dns2 = none ∨
        2 < word info f.dnsServerCount ∧ v.dns2.map (fun p => slice info p f.size) =
          some (slice info (pointer info f.dnsServerOffset + f.size) f.size)) ∧
      (¬ f.available info 0x4 → v.dns2 = none) := by
  rw [assign, Family.announced]
  by_cases havailable : f.available info 0x4
  · simp only [havailable, true_and, true_implies, not_true, false_implies, and_true]
    by_cases heq : word info f.dnsServerCount = 2
    · simp [heq]
    · by_cases hle : 2 ≤ word info f.dnsServerCount
      · have hgt : 2 < word info f.dnsServerCount := UInt32.lt_of_le_of_ne hle (Ne.symm heq)
        have hnlt : ¬ word info f.dnsServerCount < 2 := UInt32.not_lt.mpr hle
        simp [heq, hle, hgt, hnlt]
      · have hlt : word info f.dnsServerCount < 2 := UInt32.not_le.mp hle
        have hngt : ¬ 2 < word info f.dnsServerCount := UInt32.lt_asymm hlt
        simp [heq, hle, hlt, hngt]
  · simp [havailable]

theorem kept_init : Kept info f .init ↔ word info (pointer info f.addressOffset) < 256 ∧
    (f.available info 0x4 → word info f.dnsServerCount ≤ 2) := by
  constructor
  · intro h
    refine ⟨h.prefixLength, fun havailable => ?_⟩
    rcases (dns2_eq_iff.mp h.dns2).1 havailable with heq | ⟨hlt, _⟩ | ⟨_, hmap⟩
    · rw [heq]
      decide
    · exact UInt32.le_of_lt hlt
    · cases hmap
  · rintro ⟨hlt, hle⟩
    refine ⟨hlt, .inr rfl, .inr rfl, dns2_eq_iff.mpr ⟨fun havailable => ?_, fun _ => rfl⟩, .inr rfl⟩
    rcases UInt32.lt_or_eq_of_le (hle havailable) with hlt | heq
    · exact .inr (.inl ⟨hlt, rfl⟩)
    · exact .inl heq

theorem after_gw : (after info f .init).gw = none ↔
    (f.available info 0x1 → ¬ f.available info 0x2) := by
  rw [after]
  split
  case isTrue h => simp [assign, Locals.init, h]
  case isFalse h => simp [Locals.init, h]

theorem after_dns1 : (after info f .init).dns1 = none ↔
    (f.available info 0x1 → ¬ f.available info 0x4) := by
  rw [after]
  split
  case isTrue h => simp [assign, Locals.init, h]
  case isFalse h => simp [Locals.init, h]

theorem after_mtu : (after info f .init).mtu = 1500 ↔
    (f.available info 0x1 → f.available info 0x8 → word info f.mtu = 1500) := by
  rw [after]
  split
  case isTrue h => simp [assign, Locals.init, h]
  case isFalse h => simp [Locals.init, h]

theorem after_dns2 (h : SecondLeft info) :
    (after info ipv4 .init).dns2 = some (pointer info ipv4.dnsServerOffset + ipv4.size) := by
  rw [after, if_pos h.1, assign]
  exact if_pos h.2

theorem after_dns2_eq_none : (after info ipv4 .init).dns2 = none ↔ ¬ SecondLeft info := by
  constructor
  · intro hnone h
    rw [after_dns2 h] at hnone
    cases hnone
  · intro h
    rw [after]
    split
    case isTrue havailable => exact if_neg fun hsecond => h ⟨havailable, hsecond⟩
    case isFalse => rfl

theorem kept_after : Kept info ipv6 (after info ipv4 .init) ↔
    word info (pointer info ipv6.addressOffset) < 256 ∧
    (ipv4.available info 0x1 → ipv4.available info 0x2 → ipv6.available info 0x2) ∧
    (ipv4.available info 0x1 → ipv4.available info 0x4 → ipv6.available info 0x4) ∧
    (ipv4.available info 0x1 → ipv4.available info 0x8 →
      ipv6.available info 0x8 ∨ word info ipv4.mtu = 1500) ∧
    (ipv6.available info 0x4 → word info ipv6.dnsServerCount = 2 ∨
      word info ipv6.dnsServerCount < 2 ∧ ¬ SecondLeft info ∨
      2 < word info ipv6.dnsServerCount ∧ SecondLeft info ∧
        slice info (pointer info ipv4.dnsServerOffset + ipv4.size) ipv6.size =
          slice info (pointer info ipv6.dnsServerOffset + ipv6.size) ipv6.size) := by
  constructor
  · intro h
    refine ⟨h.prefixLength, ?_, ?_, ?_, fun havailable => ?_⟩
    · intro h4 hgw
      exact h.gw.resolve_right fun hnone => after_gw.mp hnone h4 hgw
    · intro h4 hdns
      exact h.dns1.resolve_right fun hnone => after_dns1.mp hnone h4 hdns
    · intro h4 hmtu
      exact h.mtu.imp_right fun hdefault => after_mtu.mp hdefault h4 hmtu
    · rcases (dns2_eq_iff.mp h.dns2).1 havailable with heq | ⟨hlt, hnone⟩ | ⟨hgt, hmap⟩
      · exact .inl heq
      · exact .inr (.inl ⟨hlt, after_dns2_eq_none.mp hnone⟩)
      · have hleft : SecondLeft info := by
          by_contra hnot
          rw [after_dns2_eq_none.mpr hnot] at hmap
          cases hmap
        rw [after_dns2 hleft, Option.map_some, Option.some.injEq] at hmap
        exact .inr (.inr ⟨hgt, hleft, hmap⟩)
  · rintro ⟨hlt, hgw, hdns, hmtu, hsecond⟩
    refine ⟨hlt, ?_, ?_, dns2_eq_iff.mpr ⟨fun havailable => ?_, fun havailable => ?_⟩, ?_⟩
    · exact Decidable.or_iff_not_imp_left.mpr fun hnot =>
        after_gw.mpr fun h4 h => hnot (hgw h4 h)
    · exact Decidable.or_iff_not_imp_left.mpr fun hnot =>
        after_dns1.mpr fun h4 h => hnot (hdns h4 h)
    · rcases hsecond havailable with heq | ⟨hcount, hnot⟩ | ⟨hgt, hleft, hbytes⟩
      · exact .inl heq
      · exact .inr (.inl ⟨hcount, after_dns2_eq_none.mpr hnot⟩)
      · rw [after_dns2 hleft]
        exact .inr (.inr ⟨hgt, congrArg some hbytes⟩)
    · exact after_dns2_eq_none.mpr fun hleft => havailable (hdns hleft.1 hleft.2.1)
    · exact Decidable.or_iff_not_imp_left.mpr fun hnot =>
        after_mtu.mpr fun h4 h => (hmtu h4 h).resolve_left hnot

/-- The addresses of each family are those that are announced for it exactly when what is found for
IPv4 is found for IPv6 again. -/
theorem mbimIpConfig_correct_iff (length : UInt32) (info : Mem) (h : length ≠ 0) :
    Correct info (mbimIpConfig length info) ↔ Sound info := by
  rw [correct_iff_kept h, kept_init, kept_after]
  constructor
  · rintro ⟨h4, h6⟩
    refine ⟨?_, fun hmask => (h4 hmask).2, fun hmask hmask' => (h6 hmask').2.1 hmask,
      fun hmask hmask' => (h6 hmask').2.2.1 hmask, fun hmask hmask' => (h6 hmask').2.2.2.1 hmask,
      fun hmask' => (h6 hmask').2.2.2.2⟩
    rw [List.forall_mem_cons, List.forall_mem_singleton]
    exact ⟨fun hmask => (h4 hmask).1, fun hmask => (h6 hmask).1⟩
  · intro h
    refine ⟨fun hmask => ⟨h.prefixLength ipv4 (by decide) hmask, h.ipv4Dns hmask⟩, fun hmask => ?_⟩
    exact ⟨h.prefixLength ipv6 (by decide) hmask, fun hmask' => h.gateway hmask' hmask,
      fun hmask' => h.dns hmask' hmask, fun hmask' => h.mtu hmask' hmask, h.ipv6Dns hmask⟩

/-- An answer with the two masks, 10.0.0.2/24 behind 10.0.0.1 and fd00::2/64 behind fd00::1. -/
def dualStack (mask4 mask6 : UInt8) : Mem := fun i =>
  ([0, 0, 0, 0, mask4, 0, 0, 0, mask6, 0, 0, 0, 1, 0, 0, 0, 60, 0, 0, 0,
    1, 0, 0, 0, 72, 0, 0, 0, 68, 0, 0, 0, 92, 0, 0, 0, 0, 0, 0, 0,
    0, 0, 0, 0, 0, 0, 0, 0, 0, 0, 0, 0, 0, 0, 0, 0, 0, 0, 0, 0,
    24, 0, 0, 0, 10, 0, 0, 2, 10, 0, 0, 1,
    64, 0, 0, 0, 0xfd, 0, 0, 0, 0, 0, 0, 0, 0, 0, 0, 0, 0, 0, 0, 2,
    0xfd, 0, 0, 0, 0, 0, 0, 0, 0, 0, 0, 0, 0, 0, 0, 1] : List UInt8).getD i 0

theorem mbimIpConfig_correct_twoGateways :
    Correct (dualStack 3 3) (mbimIpConfig 108 (dualStack 3 3)) :=
  (mbimIpConfig_correct_iff 108 _ (by decide)).mpr
    ⟨by decide, by decide, by decide, by decide, by decide,
      fun _ havailable => absurd havailable (by decide)⟩

/-- The gateway of IPv4 is given to IPv6. -/
theorem mbimIpConfig_not_correct :
    ¬ Correct (dualStack 3 1) (mbimIpConfig 108 (dualStack 3 1)) := by
  intro h
  have hcalls := h ipv6 (by decide)
  revert hcalls
  decide

end ModemSupport.Cm.MbimIpConfig
