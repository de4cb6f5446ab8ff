import Mathlib.Data.List.Nodup
import ModemSupport.Luci.Dial

/-! Runs of `start_service`: a line of `config.cache` belongs to a config that has dialled in the
run, or in the one before and is still to come. -/

namespace ModemSupport.Luci.Dial

open Lib.Pattern Lib.Transition Option

variable {modems : List (List Char)} {s t : State} {c : Config} {rest : List Config}
  {d : Dialled} {l p network id : List Char} {cache : List (List Char)} {no : Nat}

theorem notMem_id {x : Char} (h : isId id = true) (hx : x.isAlphanum = false) : x ∉ id := by
  simp only [isId, Bool.and_eq_true, List.all_eq_true] at h
  intro hmem
  rw [h.1 x hmem] at hx
  cases hx

theorem length_id (h : isId id = true) : id.length = 32 := by
  simp only [isId, Bool.and_eq_true, beq_iff_eq] at h
  exact h.2

theorem notMem_ifname {x : Char} (h : isIfname network = true) (hx : ifnameChar x = false) :
    x ∉ network := by
  simp only [isIfname, Bool.and_eq_true, List.all_eq_true] at h
  intro hmem
  rw [h.1.1 x hmem] at hx
  cases hx

theorem length_ifname (h : isIfname network = true) : network.length < 16 := by
  simp only [isIfname, Bool.and_eq_true, decide_eq_true_eq] at h
  exact h.1.2

namespace Config

theorem comma_notMem_id (c : Config) : ',' ∉ c.id := notMem_id c.id_ok rfl

theorem comma_notMem_network (c : Config) : ',' ∉ c.network := notMem_ifname c.network_ok rfl

theorem id_ne_nil (c : Config) : c.id ≠ [] := by
  intro hnil
  have hlength := length_id c.id_ok
  rw [hnil] at hlength
  cases hlength

@[simp] theorem field2_line (c : Config) : field2 c.line = c.id :=
  field2_record c.comma_notMem_network c.comma_notMem_id

theorem search_line (c : Config) : search c.network c.line = true := search_self

theorem line_inj {c x : Config} (h : c.line = x.line) : c.id = x.id ∧ c.network = x.network := by
  have hid : c.id = x.id := by
    rw [← c.field2_line, h, x.field2_line]
  unfold line record at h
  rw [hid] at h
  exact ⟨hid, List.append_cancel_right h⟩

theorem search_id_line {c x : Config} : search c.id x.line = true ↔ x.id = c.id := by
  rw [search_iff_isInfix (notMem_id c.id_ok rfl)]
  constructor
  · intro h
    rcases infix_of_infix_record c.comma_notMem_id h with hnetwork | hid
    · have hle := hnetwork.length_le
      rw [length_id c.id_ok] at hle
      have hlt := length_ifname x.network_ok
      omega
    · exact (hid.eq_of_length (by rw [length_id c.id_ok, length_id x.id_ok])).symm
  · intro h
    rw [← h]
    exact ⟨x.network ++ [','], [], by simp [line, record]⟩

theorem head?_line_ne (c : Config) : c.line.head? ≠ some '#' := by
  unfold line record
  have hhash : '#' ∉ c.network := notMem_ifname c.network_ok rfl
  cases hn : c.network with
  | nil => simp
  | cons x xs =>
    rw [hn, List.mem_cons, not_or] at hhash
    simpa using Ne.symm hhash.1

end Config

def Lined (cache : List (List Char)) : Prop := ∀ l ∈ cache, ∃ c : Config, l = c.line

namespace Lined

theorem delete_id (h : Lined cache) :
    delete c.id cache = cache.filter fun l => field2 l ≠ c.id := by
  refine List.filter_congr fun l hl => ?_
  obtain ⟨x, rfl⟩ := h l hl
  rw [Config.field2_line]
  by_cases hid : x.id = c.id
  · rw [Config.search_id_line.mpr hid, decide_eq_false (not_not.mpr hid)]
    rfl
  · rw [Bool.eq_false_iff.mpr (mt Config.search_id_line.mp hid), decide_eq_true hid]
    rfl

theorem lookup_eq_iff (h : Lined cache) :
    lookup p cache = c.id ↔ (cache.filter (search p)).map field2 = [c.id] := by
  have hfilter : (cache.filter fun l => l.head? != some '#' && search p l) =
      cache.filter (search p) := by
    refine List.filter_congr fun l hl => ?_
    obtain ⟨x, rfl⟩ := h l hl
    rw [bne_iff_ne.mpr x.head?_line_ne, Bool.true_and]
  unfold lookup
  rw [hfilter]
  refine output_eq_iff ?_ c.id_ne_nil (notMem_id c.id_ok rfl)
  intro l hl
  obtain ⟨line, hline, rfl⟩ := List.mem_map.mp hl
  obtain ⟨x, rfl⟩ := h line (List.mem_filter.mp hline).1
  rw [Config.field2_line]
  exact ⟨x.id_ne_nil, notMem_id x.id_ok rfl⟩

end Lined

theorem mem_delConfig {uci : List Config} {kept : List (List Char)} {config : List Char}
    (hl : l ∈ delConfig uci kept config) :
    ((uci.take 2).any fun c => c.id = field2 config) = true ∨ search (field2 config) l = false := by
  unfold delConfig at hl
  split at hl
  case isTrue hany => exact .inl hany
  case isFalse => exact .inr (by simpa using (List.mem_filter.mp hl).2)

theorem delConfig_sublist {uci : List Config} {kept : List (List Char)} {config : List Char} :
    (delConfig uci kept config).Sublist kept := by
  unfold delConfig
  split
  · exact List.Sublist.refl kept
  · exact List.filter_sublist

theorem foldl_delConfig (uci : List Config) (configs kept : List (List Char)) :
    (configs.foldl (delConfig uci) kept).Sublist kept ∧
      ∀ l ∈ configs.foldl (delConfig uci) kept, ∀ config ∈ configs,
        ((uci.take 2).any fun c => c.id = field2 config) = true ∨
          search (field2 config) l = false := by
  induction configs generalizing kept with
  | nil => exact ⟨List.Sublist.refl kept, fun _ _ _ h => by cases h⟩
  | cons config configs ih =>
    obtain ⟨hsub, hall⟩ := ih (delConfig uci kept config)
    rw [List.foldl_cons]
    refine ⟨hsub.trans delConfig_sublist, fun l hl x hx => ?_⟩
    rcases List.mem_cons.mp hx with rfl | hx
    · exact mem_delConfig (hsub.subset hl)
    · exact hall l hl x hx

theorem delDialConfig_sublist (uci : List Config) (cache : List (List Char)) :
    (delDialConfig uci cache).Sublist cache :=
  (foldl_delConfig uci cache cache).1

theorem mem_of_mem_delDialConfig {uci : List Config} (h : Lined cache)
    (hl : l ∈ delDialConfig uci cache) : ∃ c ∈ uci, c.id = field2 l := by
  obtain ⟨hsub, hall⟩ := foldl_delConfig uci cache cache
  obtain ⟨x, rfl⟩ := h l (hsub.subset hl)
  rcases hall _ hl _ (hsub.subset hl) with hany | hsearch
  · obtain ⟨c, hc, hid⟩ := List.any_eq_true.mp hany
    exact ⟨c, List.mem_of_mem_take hc, by simpa using hid⟩
  · rw [Config.field2_line, Bool.eq_false_iff] at hsearch
    exact absurd (Config.search_id_line.mpr rfl) hsearch

theorem meets_iff_of_disabled (henable : c.enable = false) : Meets modems s c ↔
    s.cache.any (search c.network) = true ∨ ∀ l ∈ s.cache, field2 l ≠ c.id := by
  rw [Meets, if_neg (by rw [henable]; exact Bool.false_ne_true)]

theorem meets_iff_of_mem (henable : c.enable = true) (hmodem : c.network ∈ modems) :
    Meets modems s c ↔ (∀ l ∈ s.cache, field2 l = c.id → l = c.line) ∧
      (s.cache.any (search c.network) = false ∨ lookup c.network s.cache = c.id ∨
        s.GivesWay c) := by
  rw [Meets, if_pos henable, if_pos (exists_eq_right.mpr hmodem)]

theorem meets_iff_of_notMem (henable : c.enable = true) (hmodem : c.network ∉ modems) :
    Meets modems s c ↔ (∀ l ∈ s.cache, field2 l = c.id → l = c.line) ∧
      (s.modemNo = none ∨ s.cache.any (search c.network) = true) := by
  rw [Meets, if_pos henable, if_neg (mt exists_eq_right.mp hmodem)]

/-- What holds between two steps. A line is that of a config that has dialled, or that dialled in
the run before and has a section that is still to come. -/
structure Inv (modems : List (List Char)) (s : State) : Prop where
  uci : (s.uci.map Config.id).Nodup
  ids : (s.loaded.map Config.id).Nodup
  suffix : s.rest <:+ s.loaded
  owned : ∀ l ∈ s.cache, ∃ d, l = d.config.line ∧
    (d ∈ s.dialled ∨ d ∈ s.previous ∧ ∃ c ∈ s.rest, c.id = d.config.id)
  single : (s.cache.map field2).Nodup
  line : ∀ d ∈ s.dialled, d.config.line ∈ s.cache
  passed : ∀ d ∈ s.dialled, ∀ c ∈ s.rest, c.id ≠ d.config.id
  right : ∀ d ∈ s.dialled, d.config ∈ s.loaded ∧ d.config.enable = true ∧
    modems[d.modemNo]? = some d.config.network
  once : (s.dialled.map fun d => d.config.network).Nodup
  previous : ∀ d ∈ s.previous, modems[d.modemNo]? = some d.config.network
  alone : ∀ c ∈ s.loaded, c.enable = true → c.network ∈ modems →
    (∀ x ∈ s.loaded, x.enable = true → x.network = c.network → x = c) →
    c ∈ s.rest ∨ ∃ d ∈ s.dialled, d.config = c
  kept : ∀ c ∈ s.loaded, c.enable = true →
    (∃ d ∈ s.previous, d.config.id = c.id ∧ d.config.network = c.network) →
    c ∈ s.rest ∨ ∃ d ∈ s.dialled, d.config = c

namespace Inv

theorem lined (h : Inv modems s) : Lined s.cache := fun l hl =>
  let ⟨d, hline, _⟩ := h.owned l hl
  ⟨d.config, hline⟩

theorem eq_of_field2 (h : Inv modems s) {l l' : List Char} (hl : l ∈ s.cache) (hl' : l' ∈ s.cache)
    (hid : field2 l = field2 l') : l = l' :=
  List.inj_on_of_nodup_map h.single hl hl' hid

theorem pending (h : Inv modems s) (hc : c ∈ s.rest) (hl : l ∈ s.cache) (hid : field2 l = c.id) :
    ∃ d ∈ s.previous, l = d.config.line ∧ d.config.id = c.id := by
  obtain ⟨d, rfl, hdialled | ⟨hprevious, -⟩⟩ := h.owned l hl
  · rw [Config.field2_line] at hid
    exact absurd hid.symm (h.passed d hdialled c hc)
  · exact ⟨d, hprevious, rfl, by rwa [Config.field2_line] at hid⟩

theorem ne_of_mem_rest (h : Inv modems s) (hrest : s.rest = c :: rest) {x : Config}
    (hx : x ∈ rest) : x.id ≠ c.id := by
  have hids := (h.suffix.sublist.map Config.id).nodup h.ids
  rw [hrest, List.map_cons, List.nodup_cons] at hids
  intro heq
  exact hids.1 (heq ▸ List.mem_map_of_mem hx)

theorem init : Inv modems init where
  uci := .nil
  ids := .nil
  suffix := List.suffix_refl _
  owned _ h := by cases h
  single := .nil
  line _ h := by cases h
  passed _ h := by cases h
  right _ h := by cases h
  once := .nil
  previous _ h := by cases h
  alone _ h := by cases h
  kept _ h := by cases h

theorem sound (h : Inv modems s) (hrest : s.rest = []) : Sound modems s where
  right := h.right
  once := h.once
  alone c hc henable hmodem honly := by
    rcases h.alone c hc henable hmodem honly with hmem | hdialled
    · rw [hrest] at hmem
      cases hmem
    · exact hdialled
  lines := by
    have hlines : (s.dialled.map fun d => d.config.line).Nodup :=
      List.pairwise_map.mpr ((List.pairwise_map.mp h.once).imp fun hne heq =>
        hne (Config.line_inj heq).2)
    refine (List.perm_ext_iff_of_nodup (List.Nodup.of_map field2 h.single) hlines).mpr fun l => ?_
    rw [List.mem_map]
    constructor
    · intro hl
      obtain ⟨d, rfl, hdialled | ⟨-, c, hc, -⟩⟩ := h.owned l hl
      · exact ⟨d, hdialled, rfl⟩
      · rw [hrest] at hc
        cases hc
    · rintro ⟨d, hd, rfl⟩
      exact h.line d hd
  kept c hc henable hprevious := by
    rcases h.kept c hc henable hprevious with hmem | hdialled
    · rw [hrest] at hmem
      cases hmem
    · exact hdialled

theorem start (h : Inv modems s) (hrest : s.rest = []) : Inv modems (startService s) where
  uci := h.uci
  ids := h.uci
  suffix := List.suffix_refl _
  owned l hl := by
    have hmem := (delDialConfig_sublist s.uci s.cache).subset hl
    obtain ⟨c, hc, hid⟩ := mem_of_mem_delDialConfig h.lined hl
    obtain ⟨d, rfl, hdialled | ⟨-, x, hx, -⟩⟩ := h.owned l hmem
    · exact ⟨d, rfl, .inr ⟨hdialled, c, hc, by rwa [Config.field2_line] at hid⟩⟩
    · rw [hrest] at hx
      cases hx
  single := ((delDialConfig_sublist s.uci s.cache).map field2).nodup h.single
  line _ hd := by cases hd
  passed _ hd := by cases hd
  right _ hd := by cases hd
  once := .nil
  previous d hd := (h.right d hd).2.2
  alone _ hc _ _ _ := .inl hc
  kept _ hc _ _ := .inl hc

theorem edit {uci : List Config} (h : Inv modems s) (huci : (uci.map Config.id).Nodup) :
    Inv modems { s with uci := uci } :=
  { h with uci := huci }

theorem leave {uci : List Config} {modemNo : Option Nat} (h : Inv modems s)
    (hrest : s.rest = c :: rest) (huci : (uci.map Config.id).Nodup)
    (hcache : cache = s.cache.filter fun l => field2 l ≠ c.id)
    (hway : c.enable = true → c.network ∈ modems → s.GivesWay c) :
    Inv modems { s with uci := uci, rest := rest, cache := cache, modemNo := modemNo } where
  uci := huci
  ids := h.ids
  suffix := (List.suffix_cons c rest).trans (hrest ▸ h.suffix)
  owned l hl := by
    rw [hcache, List.mem_filter, decide_eq_true_eq] at hl
    obtain ⟨d, rfl, hdialled | ⟨hprevious, x, hx, hid⟩⟩ := h.owned l hl.1
    · exact ⟨d, rfl, .inl hdialled⟩
    · rw [hrest] at hx
      rcases List.mem_cons.mp hx with rfl | hx
      · exact absurd (d.config.field2_line.trans hid.symm) hl.2
      · exact ⟨d, rfl, .inr ⟨hprevious, x, hx, hid⟩⟩
  single := by
    rw [hcache]
    exact (List.filter_sublist.map field2).nodup h.single
  line d hd := by
    rw [hcache, List.mem_filter, decide_eq_true_eq]
    refine ⟨h.line d hd, ?_⟩
    rw [Config.field2_line]
    exact (h.passed d hd c (hrest ▸ List.mem_cons_self)).symm
  passed d hd x hx := h.passed d hd x (hrest ▸ List.mem_cons_of_mem c hx)
  right := h.right
  once := h.once
  previous := h.previous
  alone x hx henable hmodem honly := by
    rcases h.alone x hx henable hmodem honly with hmem | hdialled
    · rw [hrest] at hmem
      rcases List.mem_cons.mp hmem with rfl | hmem
      · obtain ⟨⟨y, hy, hyenable, hynetwork, hne⟩, -⟩ := hway henable hmodem
        exact absurd (honly y hy hyenable hynetwork) hne
      · exact .inl hmem
    · exact .inr hdialled
  kept x hx henable hprevious := by
    rcases h.kept x hx henable hprevious with hmem | hdialled
    · rw [hrest] at hmem
      rcases List.mem_cons.mp hmem with rfl | hmem
      · obtain ⟨d, hd, hid, hnetwork⟩ := hprevious
        have hmodem : x.network ∈ modems := hnetwork ▸ List.mem_of_getElem? (h.previous d hd)
        exact absurd hnetwork ((hway henable hmodem).2 d hd hid)
      · exact .inl hmem
    · exact .inr hdialled

theorem dials {modemNo : Option Nat} (h : Inv modems s) (hrest : s.rest = c :: rest)
    (henable : c.enable = true) (hno : modems[no]? = some c.network)
    (hfree : ∀ d ∈ s.dialled, d.config.network ≠ c.network)
    (hcache : cache = s.cache ++ [c.line] ∧ (∀ l ∈ s.cache, field2 l ≠ c.id) ∨
      cache = s.cache ∧ c.line ∈ s.cache) :
    Inv modems { s with
      rest := rest, cache := cache, modemNo := modemNo, dialled := s.dialled ++ [⟨c, no⟩] } := by
  have hloaded : c ∈ s.loaded := h.suffix.subset (hrest ▸ List.mem_cons_self)
  have hmem : ∀ {d}, d ∈ s.dialled ++ [⟨c, no⟩] ↔ d ∈ s.dialled ∨ d = ⟨c, no⟩ := by
    intro d
    rw [List.mem_append, List.mem_singleton]
  have hlines : ∀ l, l ∈ cache ↔ l ∈ s.cache ∨ l = c.line := by
    intro l
    rcases hcache with ⟨rfl, -⟩ | ⟨rfl, hline⟩
    · rw [List.mem_append, List.mem_singleton]
    · exact ⟨.inl, fun hl => hl.elim id fun heq => heq ▸ hline⟩
  have hown : ∀ l ∈ s.cache, field2 l = c.id → l = c.line := by
    intro l hl hid
    rcases hcache with ⟨-, hnone⟩ | ⟨-, hline⟩
    · exact absurd hid (hnone l hl)
    · exact h.eq_of_field2 hl hline (hid.trans c.field2_line.symm)
  refine ⟨h.uci, h.ids, (List.suffix_cons c rest).trans (hrest ▸ h.suffix), ?_, ?_, ?_, ?_, ?_, ?_,
    h.previous, ?_, ?_⟩
  case refine_1 =>
    intro l hmeml
    rcases (hlines l).mp hmeml with hold | rfl
    · obtain ⟨d, rfl, hdialled | ⟨hprevious, x, hx, hid⟩⟩ := h.owned l hold
      · exact ⟨d, rfl, .inl (hmem.mpr (.inl hdialled))⟩
      · rw [hrest] at hx
        rcases List.mem_cons.mp hx with rfl | hx
        · exact ⟨⟨x, no⟩, hown _ hold (d.config.field2_line.trans hid.symm),
            .inl (hmem.mpr (.inr rfl))⟩
        · exact ⟨d, rfl, .inr ⟨hprevious, x, hx, hid⟩⟩
    · exact ⟨⟨c, no⟩, rfl, .inl (hmem.mpr (.inr rfl))⟩
  case refine_2 =>
    rcases hcache with ⟨rfl, hnone⟩ | ⟨rfl, -⟩
    · rw [List.map_append, List.map_singleton, Config.field2_line, List.nodup_append]
      refine ⟨h.single, List.nodup_singleton _, ?_⟩
      intro i hi j hj heq
      obtain ⟨l, hl, rfl⟩ := List.mem_map.mp hi
      exact hnone l hl (heq.trans (List.mem_singleton.mp hj))
    · exact h.single
  case refine_3 =>
    intro d hd
    rcases hmem.mp hd with hd | rfl
    · exact (hlines _).mpr (.inl (h.line d hd))
    · exact (hlines _).mpr (.inr rfl)
  case refine_4 =>
    intro d hd x hx
    rcases hmem.mp hd with hd | rfl
    · exact h.passed d hd x (hrest ▸ List.mem_cons_of_mem c hx)
    · exact h.ne_of_mem_rest hrest hx
  case refine_5 =>
    intro d hd
    rcases hmem.mp hd with hd | rfl
    · exact h.right d hd
    · exact ⟨hloaded, henable, hno⟩
  case refine_6 =>
    rw [List.map_append, List.map_singleton, List.nodup_append]
    refine ⟨h.once, List.nodup_singleton _, ?_⟩
    intro n hn m hm heq
    obtain ⟨d, hd, rfl⟩ := List.mem_map.mp hn
    exact hfree d hd (heq.trans (List.mem_singleton.mp hm))
  case refine_7 =>
    intro x hx hxenable hmodem honly
    rcases h.alone x hx hxenable hmodem honly with hrests | ⟨d, hd, hdx⟩
    · rw [hrest] at hrests
      rcases List.mem_cons.mp hrests with rfl | hrests
      · exact .inr ⟨⟨x, no⟩, hmem.mpr (.inr rfl), rfl⟩
      · exact .inl hrests
    · exact .inr ⟨d, hmem.mpr (.inl hd), hdx⟩
  case refine_8 =>
    intro x hx hxenable hprevious
    rcases h.kept x hx hxenable hprevious with hrests | ⟨d, hd, hdx⟩
    · rw [hrest] at hrests
      rcases List.mem_cons.mp hrests with rfl | hrests
      · exact .inr ⟨⟨x, no⟩, hmem.mpr (.inr rfl), rfl⟩
      · exact .inl hrests
    · exact .inr ⟨d, hmem.mpr (.inl hd), hdx⟩

theorem line_of_lookup (h : Inv modems s) (hlookup : lookup p s.cache = c.id) :
    ∃ l, s.cache.filter (search p) = [l] ∧ field2 l = c.id := by
  rw [h.lined.lookup_eq_iff, List.map_eq_singleton_iff] at hlookup
  exact hlookup

theorem stop (h : Inv modems s) (hrest : s.rest = c :: rest) (henable : c.enable = false)
    (hmeets : Meets modems s c) : Inv modems (stopDial modems c { s with rest := rest }) := by
  have hway : c.enable = true → c.network ∈ modems → s.GivesWay c := by
    intro htrue
    rw [henable] at htrue
    cases htrue
  unfold stopDial
  split
  case isTrue => exact h.leave hrest h.uci h.lined.delete_id hway
  case isFalse hfound =>
    rw [meets_iff_of_disabled henable] at hmeets
    refine h.leave hrest h.uci (List.filter_eq_self.mpr ?_).symm hway
    intro l hl
    rw [decide_eq_true_eq]
    exact hmeets.resolve_left hfound l hl

end Inv

theorem getModemNo_of_mem (modemNo : Option Nat) (h : network ∈ modems) :
    ∃ no, getModemNo modems network modemNo = some no ∧ modems[no]? = some network := by
  unfold getModemNo
  cases hfind : modems.findIdx? (· = network) with
  | none =>
    rw [List.findIdx?_eq_none_iff] at hfind
    have hne := hfind network h
    simp at hne
  | some no =>
    obtain ⟨hlt, hno, -⟩ := List.findIdx?_eq_some_iff_getElem.mp hfind
    refine ⟨no, rfl, ?_⟩
    rw [List.getElem?_eq_getElem hlt, of_decide_eq_true hno]

theorem getModemNo_of_notMem {modemNo : Option Nat} (h : network ∉ modems) :
    getModemNo modems network modemNo = modemNo := by
  unfold getModemNo
  have hfind : modems.findIdx? (· = network) = none := by
    rw [List.findIdx?_eq_none_iff]
    intro x hx
    rw [decide_eq_false_iff_not]
    rintro rfl
    exact h hx
  rw [hfind]

theorem ids_disable : (s.disable c).uci.map Config.id = s.uci.map Config.id := by
  simp only [State.disable, List.map_map]
  refine List.map_congr_left fun x _ => ?_
  simp only [Function.comp_apply]
  split <;> rfl

namespace Inv

theorem connect (h : Inv modems s) (hrest : s.rest = c :: rest) (henable : c.enable = true)
    (hmodem : c.network ∈ modems) (hmeets : Meets modems s c) :
    Inv modems (dial modems c { s with rest := rest }) := by
  rw [meets_iff_of_mem henable hmodem] at hmeets
  obtain ⟨hown, hmeets⟩ := hmeets
  obtain ⟨no, hget, hno⟩ := getModemNo_of_mem s.modemNo hmodem
  have hc : c ∈ s.rest := hrest ▸ List.mem_cons_self
  simp only [dial, henable, Bool.true_eq_false, if_false, hget]
  split
  case isTrue hnone =>
    -- A line of the config would be found, and so would that of its network.
    rw [List.any_eq_false] at hnone
    refine h.dials hrest henable hno (fun d hd heq => ?_) (.inl ⟨rfl, fun l hl hid => ?_⟩)
    · exact hnone _ (h.line d hd) (heq ▸ d.config.search_line)
    · rw [hown l hl hid] at hl
      exact hnone _ hl c.search_line
  case isFalse hfound =>
    split
    case isTrue hother =>
      have hway : s.GivesWay c :=
        (hmeets.resolve_left hfound).resolve_left fun hlookup => hother hlookup.symm
      refine h.leave hrest (ids_disable (s := s) ▸ h.uci) (List.filter_eq_self.mpr ?_).symm
        fun _ _ => hway
      intro l hl
      rw [decide_eq_true_eq]
      intro hid
      obtain ⟨d, hd, hline, hdid⟩ := h.pending hc hl hid
      exact hway.2 d hd hdid (Config.line_inj (hline.symm.trans (hown l hl hid))).2
    case isFalse howner =>
      obtain ⟨l, hfilter, hid⟩ := h.line_of_lookup (not_not.mp howner).symm
      have hl : l ∈ s.cache.filter (search c.network) := hfilter ▸ List.mem_singleton_self l
      have hline : l = c.line := hown l (List.mem_filter.mp hl).1 hid
      refine h.dials hrest henable hno (fun d hd heq => ?_)
        (.inr ⟨rfl, hline ▸ (List.mem_filter.mp hl).1⟩)
      have hsame : d.config.line ∈ s.cache.filter (search c.network) :=
        List.mem_filter.mpr ⟨h.line d hd, heq ▸ d.config.search_line⟩
      rw [hfilter, List.mem_singleton, hline] at hsame
      exact h.passed d hd c hc (Config.line_inj hsame).1.symm

theorem skip (h : Inv modems s) (hrest : s.rest = c :: rest) (henable : c.enable = true)
    (hmodem : c.network ∉ modems) (hmeets : Meets modems s c) :
    Inv modems (dial modems c { s with rest := rest }) := by
  rw [meets_iff_of_notMem henable hmodem] at hmeets
  obtain ⟨hown, hmeets⟩ := hmeets
  have hc : c ∈ s.rest := hrest ▸ List.mem_cons_self
  have hnone : ∀ l ∈ s.cache, field2 l ≠ c.id := by
    intro l hl hid
    obtain ⟨d, hd, hline, -⟩ := h.pending hc hl hid
    have hnetwork := (Config.line_inj (hline.symm.trans (hown l hl hid))).2
    exact hmodem (hnetwork ▸ List.mem_of_getElem? (h.previous d hd))
  have hcache : s.cache = s.cache.filter fun l => field2 l ≠ c.id :=
    (List.filter_eq_self.mpr fun l hl => decide_eq_true (hnone l hl)).symm
  have hway : c.enable = true → c.network ∈ modems → s.GivesWay c :=
    fun _ hmem => absurd hmem hmodem
  simp only [dial, henable, Bool.true_eq_false, if_false, getModemNo_of_notMem hmodem]
  split
  · exact h.leave hrest h.uci hcache hway
  case h_2 no hno =>
    have hfound := hmeets.resolve_left fun hempty => by rw [hempty] at hno; cases hno
    rw [if_neg (by simp [hfound])]
    split
    case isTrue => exact h.leave hrest (ids_disable (s := s) ▸ h.uci) hcache hway
    case isFalse howner =>
      obtain ⟨l, hfilter, hid⟩ := h.line_of_lookup (not_not.mp howner).symm
      have hl : l ∈ s.cache.filter (search c.network) := hfilter ▸ List.mem_singleton_self l
      exact absurd hid (hnone l (List.mem_filter.mp hl).1)

theorem step {label : Label} (h : Inv modems s) (hok : Ok modems s label)
    (ht : step modems s label = some t) : Inv modems t := by
  cases label with
  | edit uci =>
    simp only [Dial.step, ite_none_right_eq_some, some.injEq] at ht
    obtain ⟨⟨-, huci⟩, rfl⟩ := ht
    exact h.edit huci
  | start =>
    simp only [Dial.step, ite_none_right_eq_some, some.injEq] at ht
    obtain ⟨hrest, rfl⟩ := ht
    exact h.start hrest
  | dial =>
    simp only [Dial.step] at ht
    split at ht
    · cases ht
    case h_2 c rest hrest =>
      obtain rfl := some.inj ht
      have hmeets : Meets modems s c := hok c (by rw [hrest]; rfl)
      cases henable : c.enable with
      | false =>
        have hstop := h.stop hrest henable hmeets
        simpa only [dial, henable, if_true] using hstop
      | true =>
        by_cases hmodem : c.network ∈ modems
        · exact h.connect hrest henable hmodem hmeets
        · exact h.skip hrest henable hmodem hmeets

end Inv

structure Dials (c : Config) (s t : State) : Prop where
  loaded : t.loaded = s.loaded
  previous : t.previous = s.previous
  rest : s.rest = c :: t.rest
  dialled : t.dialled = s.dialled ∨ ∃ no, t.dialled = s.dialled ++ [⟨c, no⟩]
  cache : t.cache = s.cache ∨ t.cache = s.cache ++ [c.line] ∨
    c.enable = false ∧ t.cache = delete c.id s.cache

theorem dials_of_step (ht : step modems s .dial = some t) : ∃ c, Dials c s t := by
  simp only [step] at ht
  split at ht
  · cases ht
  case h_2 c rest hrest =>
    obtain rfl := some.inj ht
    refine ⟨c, ?_⟩
    cases henable : c.enable with
    | false =>
      simp only [dial, henable, if_true, stopDial]
      split
      · exact ⟨rfl, rfl, hrest, .inl rfl, .inr (.inr ⟨henable, rfl⟩)⟩
      · exact ⟨rfl, rfl, hrest, .inl rfl, .inl rfl⟩
    | true =>
      simp only [dial, henable, Bool.true_eq_false, if_false]
      split
      · exact ⟨rfl, rfl, hrest, .inl rfl, .inl rfl⟩
      case h_2 no hno =>
        split
        · exact ⟨rfl, rfl, hrest, .inr ⟨no, rfl⟩, .inr (.inl rfl)⟩
        · split
          · exact ⟨rfl, rfl, hrest, .inl rfl, .inl rfl⟩
          · exact ⟨rfl, rfl, hrest, .inr ⟨no, rfl⟩, .inl rfl⟩

namespace Dials

theorem lined (h : Dials c s t) (hlined : Lined s.cache) : Lined t.cache := by
  intro l hl
  rcases h.cache with heq | heq | ⟨-, heq⟩
  · exact hlined l (heq ▸ hl)
  · rw [heq, List.mem_append, List.mem_singleton] at hl
    exact hl.elim (hlined l) fun hline => ⟨c, hline⟩
  · rw [heq] at hl
    exact hlined l (List.mem_filter.mp hl).1

theorem line_mem (h : Dials c s t) (hlined : Lined s.cache) (hl : l ∈ s.cache)
    (hkept : field2 l ≠ c.id ∨ c.enable = true) : l ∈ t.cache := by
  rcases h.cache with heq | heq | ⟨henable, heq⟩
  · exact heq ▸ hl
  · exact heq ▸ List.mem_append_left _ hl
  · rw [heq, hlined.delete_id, List.mem_filter, decide_eq_true_eq]
    refine ⟨hl, hkept.resolve_right fun htrue => ?_⟩
    rw [henable] at htrue
    cases htrue

theorem mem_dialled (h : Dials c s t) (hd : d ∈ t.dialled) : d ∈ s.dialled ∨ d.config = c := by
  rcases h.dialled with heq | ⟨no, heq⟩
  · exact .inl (heq ▸ hd)
  · rw [heq, List.mem_append, List.mem_singleton] at hd
    exact hd.imp_right fun hnew => by rw [hnew]

theorem dialled_mem (h : Dials c s t) (hd : d ∈ s.dialled) : d ∈ t.dialled := by
  rcases h.dialled with heq | ⟨no, heq⟩
  · exact heq ▸ hd
  · exact heq ▸ List.mem_append_left _ hd

end Dials

/-- What the rest of a run does not mend: a line that no config can dial with, a config that has
not dialled, or a dial of another modem. -/
inductive Lost (modems : List (List Char)) (s : State) : Prop
  | line (l : List Char) (hl : l ∈ s.cache) (hpassed : ∀ c ∈ s.rest, c.id ≠ field2 l)
    (hnone : ∀ c ∈ s.loaded, c.enable = true → c.line ≠ l)
  | config (c : Config) (hc : c ∈ s.loaded) (hpassed : c ∉ s.rest) (henable : c.enable = true)
    (hmodem : c.network ∈ modems) (hway : ¬s.GivesWay c) (hnone : ∀ d ∈ s.dialled, d.config ≠ c)
  | modem (d : Dialled) (hd : d ∈ s.dialled) (hno : modems[d.modemNo]? ≠ some d.config.network)

theorem Lost.next (h : Lost modems s) (hlined : Lined s.cache) (ht : Dials c s t) :
    Lost modems t := by
  have hc : c ∈ s.rest := ht.rest ▸ List.mem_cons_self
  have hrest : ∀ x ∈ t.rest, x ∈ s.rest := fun x hx => ht.rest ▸ List.mem_cons_of_mem c hx
  cases h with
  | line l hl hpassed hnone =>
    refine .line l (ht.line_mem hlined hl (.inl (hpassed c hc).symm))
      (fun x hx => hpassed x (hrest x hx)) ?_
    rw [ht.loaded]
    exact hnone
  | config x hx hpassed henable hmodem hway hnone =>
    refine .config x (ht.loaded ▸ hx) (fun hmem => hpassed (hrest x hmem)) henable hmodem ?_ ?_
    · unfold State.GivesWay at hway ⊢
      rwa [ht.loaded, ht.previous]
    · intro d hd
      rcases ht.mem_dialled hd with hold | rfl
      · exact hnone d hold
      · rintro rfl
        exact hpassed hc
  | modem d hd hno => exact .modem d (ht.dialled_mem hd) hno

theorem Lost.not_sound (h : Lost modems s) : ¬Sound modems s := by
  intro hsound
  cases h with
  | line l hl _ hnone =>
    obtain ⟨d, hd, rfl⟩ := List.mem_map.mp (hsound.lines.subset hl)
    exact hnone d.config (hsound.right d hd).1 (hsound.right d hd).2.1 rfl
  | config c hc _ henable hmodem hway hnone =>
    have hdialled : ∃ d ∈ s.dialled, d.config = c := by
      rcases not_and_or.mp hway with hone | hprevious
      · refine hsound.alone c hc henable hmodem fun x hx hxenable hnetwork => ?_
        by_contra hne
        exact hone ⟨x, hx, hxenable, hnetwork, hne⟩
      · simp only [not_forall, not_not] at hprevious
        obtain ⟨d, hd, hid, hnetwork⟩ := hprevious
        exact hsound.kept c hc henable ⟨d, hd, hid, hnetwork⟩
    obtain ⟨d, hd, hdc⟩ := hdialled
    exact hnone d hd hdc
  | modem d hd hno => exact hno (hsound.right d hd).2.2

theorem Inv.lost_of_line (h : Inv modems s) (hdials : Dials c s t) (hl : l ∈ t.cache)
    (hid : field2 l = c.id) (hother : c.enable = true → l ≠ c.line) : Lost modems t := by
  have hloaded : c ∈ s.loaded := h.suffix.subset (hdials.rest ▸ List.mem_cons_self)
  refine .line l hl (fun x hx => hid ▸ h.ne_of_mem_rest hdials.rest hx) fun x hx henable hline => ?_
  have hxid : x.id = c.id := by rw [← hid, ← hline, Config.field2_line]
  obtain rfl : x = c := List.inj_on_of_nodup_map h.ids (hdials.loaded ▸ hx) hloaded hxid
  exact hother henable hline.symm

theorem Inv.lost (h : Inv modems s) (hrest : s.rest = c :: rest) (hnot : ¬Meets modems s c)
    (hdials : Dials c s (dial modems c { s with rest := rest })) :
    Lost modems (dial modems c { s with rest := rest }) := by
  have hc : c ∈ s.rest := hrest ▸ List.mem_cons_self
  cases henable : c.enable with
  | false =>
    rw [meets_iff_of_disabled henable, not_or] at hnot
    obtain ⟨hfound, hline⟩ := hnot
    simp only [not_forall, not_not] at hline
    obtain ⟨l, hl, hid⟩ := hline
    refine h.lost_of_line hdials ?_ hid fun htrue => by rw [henable] at htrue; cases htrue
    simp only [dial, henable, if_true, stopDial, hfound]
    exact hl
  | true =>
    by_cases hown : ∀ l ∈ s.cache, field2 l = c.id → l = c.line
    · by_cases hmodem : c.network ∈ modems
      · rw [meets_iff_of_mem henable hmodem] at hnot
        replace hnot := not_and.mp hnot hown
        simp only [not_or] at hnot
        obtain ⟨hfound, hlookup, hway⟩ := hnot
        refine .config c ?_ (fun hmem => h.ne_of_mem_rest hdials.rest hmem rfl) henable hmodem ?_ ?_
        · rw [hdials.loaded]
          exact h.suffix.subset hc
        · unfold State.GivesWay at hway ⊢
          rwa [hdials.loaded, hdials.previous]
        · intro d hd hdc
          obtain ⟨no, hget, -⟩ := getModemNo_of_mem s.modemNo hmodem
          simp only [dial, henable, Bool.true_eq_false, if_false, hget, hfound,
            Ne.symm hlookup, ne_eq, not_false_eq_true, if_true] at hd
          exact h.passed d hd c hc (hdc ▸ rfl)
      · rw [meets_iff_of_notMem henable hmodem] at hnot
        replace hnot := not_and.mp hnot hown
        simp only [not_or, Bool.not_eq_true] at hnot
        obtain ⟨hno, hfound⟩ := hnot
        obtain ⟨no, hno⟩ := ne_none_iff_exists'.mp hno
        refine .modem ⟨c, no⟩ ?_ fun heq => hmodem (List.mem_of_getElem? heq)
        simp only [dial, henable, Bool.true_eq_false, if_false, getModemNo_of_notMem hmodem, hno,
          hfound, if_true]
        exact List.mem_append_right _ (List.mem_singleton_self _)
    · simp only [not_forall] at hown
      obtain ⟨l, hl, hid, hline⟩ := hown
      exact h.lost_of_line hdials (hdials.line_mem h.lined hl (.inr henable)) hid fun _ => hline

/-- In a run whose steps meet the condition, each network has one dial, of its own modem, and
`config.cache` has the lines of the configs that have dialled. A dial that does not meet it ends in
a run of which this does not hold. -/
theorem dial_sound (modems : List (List Char)) (s : State)
    (h : Reaches (step modems) (Ok modems) init s) :
    (s.rest = [] → Sound modems s) ∧
      ∀ t u, step modems s .dial = some t → ¬Ok modems s .dial →
        Reaches (step modems) (fun _ label => label = .dial) t u → ¬Sound modems u := by
  have hinv : Inv modems s :=
    h.invariant (P := Inv modems) .init fun _ _ _ hs hok ht => hs.step hok ht
  refine ⟨hinv.sound, fun t u ht hnot hdials => ?_⟩
  have hlost : Lost modems t ∧ Lined t.cache := by
    obtain ⟨c, hc⟩ := dials_of_step ht
    refine ⟨?_, hc.lined hinv.lined⟩
    obtain ⟨rest, hrest⟩ : ∃ rest, s.rest = c :: rest := ⟨_, hc.rest⟩
    simp only [step, hrest] at ht
    obtain rfl := some.inj ht
    refine hinv.lost hrest (fun hmeets => hnot fun x hx => ?_) hc
    rw [hrest] at hx
    obtain rfl : c = x := some.inj hx
    exact hmeets
  have hend := hdials.invariant (P := fun s => Lost modems s ∧ Lined s.cache) hlost
    fun v label w hv hlabel hw => by
      subst hlabel
      obtain ⟨c, hc⟩ := dials_of_step hw
      exact ⟨hv.1.next hv.2 hc, hc.lined hv.2⟩
  exact hend.1.not_sound

def config (x : Char) (network : String) (enable : Bool) (hx : x.isAlphanum = true)
    (hnetwork : isIfname network.toList = true) : Config :=
  ⟨.replicate 32 x, enable, network.toList, by simp [isId, hx], hnetwork⟩

/-- Two configs dial, and go on in the second run, in which a third one for the network of the first
is disabled. -/
theorem dial_sound_twice : ∃ s, Reaches (step ["usb0".toList, "usb1".toList])
      (Ok ["usb0".toList, "usb1".toList]) init s ∧
    Sound ["usb0".toList, "usb1".toList] s ∧
    s.dialled = [⟨config 'a' "usb1" true rfl rfl, 1⟩, ⟨config 'b' "usb0" true rfl rfl, 0⟩] ∧
    s.previous = s.dialled ∧ s.rest = [] := by
  have hrun : (run (guarded (step ["usb0".toList, "usb1".toList])
      (Ok ["usb0".toList, "usb1".toList])) init
      [.edit [config 'a' "usb1" true rfl rfl, config 'b' "usb0" true rfl rfl], .start, .dial, .dial,
        .edit [config 'a' "usb1" true rfl rfl, config 'b' "usb0" true rfl rfl,
          config 'c' "usb1" true rfl rfl], .start, .dial, .dial, .dial]).any (fun s => decide
      (s.dialled = [⟨config 'a' "usb1" true rfl rfl, 1⟩, ⟨config 'b' "usb0" true rfl rfl, 0⟩] ∧
        s.previous = s.dialled ∧ s.rest = [])) = true := by
    decide
  obtain ⟨s, hreaches, hdialled, hprevious, hrest⟩ := exists_of_run _ hrun
  exact ⟨s, hreaches, (dial_sound _ s hreaches).1 hrest, hdialled, hprevious, hrest⟩

/-- The line of `usb10` is found for `usb1`, which does not dial. -/
theorem not_dial_sound : ¬∀ modems s, modems.Nodup → Reachable (step modems) init s →
    s.rest = [] → Sound modems s := by
  intro hall
  have hrun : (run (guarded (step ["usb10".toList, "usb1".toList]) fun _ _ => True) init
      [.edit [config 'a' "usb10" true rfl rfl, config 'b' "usb1" true rfl rfl], .start, .dial,
        .dial]).any (fun s => decide
      (s.loaded = [config 'a' "usb10" true rfl rfl, config 'b' "usb1" true rfl rfl] ∧
        s.dialled = [⟨config 'a' "usb10" true rfl rfl, 0⟩] ∧ s.rest = [])) = true := by
    decide
  obtain ⟨s, hreaches, hloaded, hdialled, hrest⟩ := exists_of_run _ hrun
  obtain ⟨d, hd, hconfig⟩ := (hall _ s (by decide) hreaches hrest).alone
    (config 'b' "usb1" true rfl rfl) (by rw [hloaded]; decide) rfl (by decide) (by
      rw [hloaded]
      decide)
  rw [hdialled, List.mem_singleton] at hd
  rw [hd] at hconfig
  cases hconfig

end ModemSupport.Luci.Dial
