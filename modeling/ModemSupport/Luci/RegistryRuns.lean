import Mathlib.Data.List.Nodup
import ModemSupport.Luci.Registry

/-! The runs of the modem registry that keep it consistent. -/

namespace ModemSupport.Luci.Registry

open Lib.Pattern Lib.Transition Option

def Device.line (d : Device) : List Char := record d.path processed

def Device.config (d : Device) : Section :=
  ⟨if d.driver = "usb".toList then "usb".toList else "pci".toList, d.path, d.driver⟩

/-- No other device of the fleet has a path that is found in the line of this one. -/
def Apart (fleet : List Device) (d : Device) : Prop :=
  ∀ e ∈ fleet, e ≠ d → search e.path d.line = false

/-- The section of a path, if there is one, is the one with the highest number. -/
def State.Last (s : State) (path : List Char) : Prop :=
  (s.modemNo path).all (· + 1 = s.modemNumber) = true

/-- The steps that keep the registry consistent: a device that is added or scanned is apart from the
others, the modem that leaves is the last one, and the sections are cleared only when there are
none. -/
def Tame (fleet : List Device) (s : State) : Label → Prop
  | .plug _ => True
  | .netAdd d => Apart fleet d
  | .netRemove d => d.pci = true → s.Last d.path
  | .usbRemove d => s.Last d.path
  | .modemScan devices => ∀ d ∈ devices, Apart fleet d
  | .modemInit => s.modemNumber = 0

instance (fleet : List Device) (d : Device) : Decidable (Apart fleet d) :=
  inferInstanceAs (Decidable (∀ e ∈ fleet, e ≠ d → search e.path d.line = false))

instance (s : State) (path : List Char) : Decidable (s.Last path) :=
  inferInstanceAs (Decidable (_ = true))

instance (fleet : List Device) (s : State) : (l : Label) → Decidable (Tame fleet s l)
  | .plug _ => isTrue trivial
  | .netAdd d => inferInstanceAs (Decidable (Apart fleet d))
  | .netRemove d => inferInstanceAs (Decidable (d.pci = true → s.Last d.path))
  | .usbRemove d => inferInstanceAs (Decidable (s.Last d.path))
  | .modemScan devices => inferInstanceAs (Decidable (∀ d ∈ devices, Apart fleet d))
  | .modemInit => inferInstanceAs (Decidable (s.modemNumber = 0))

variable {fleet devices ds old : List Device} {s t : State} {d e : Device}

theorem notMem_path {c : Char} (h : plain c = false) : c ∉ d.path := by
  intro hc
  have hplain := List.all_eq_true.mp d.plain c hc
  rw [h] at hplain
  cases hplain

theorem head?_line : d.line.head? = some '/' := by
  obtain ⟨cs, hcs⟩ : ∃ cs, d.path = '/' :: cs := by
    have habsolute := d.absolute
    cases hp : d.path with
    | nil => simp [hp] at habsolute
    | cons c cs =>
      rw [hp, List.head?_cons, some.injEq] at habsolute
      exact ⟨cs, by rw [habsolute]⟩
  rw [Device.line, record, hcs]
  rfl

theorem field2_line : field2 d.line = processed :=
  field2_record (notMem_path (by decide)) (by decide)

theorem search_line : search d.path d.line = true := search_self

theorem search_processed : search processed d.line = true := by
  have hline : d.line = (d.path ++ [',']) ++ (processed ++ []) := by
    simp [Device.line, record]
  rw [hline]
  exact search_append

theorem filter_search (hnodup : ds.Nodup) (hapart : ∀ d ∈ ds, Apart fleet d) (he : e ∈ fleet) :
    (ds.map Device.line).filter (fun l => l.head? != some '#' && search e.path l) =
      if e ∈ ds then [e.line] else [] := by
  induction ds with
  | nil => rfl
  | cons d ds ih =>
    obtain ⟨hd, hnodup⟩ := List.nodup_cons.mp hnodup
    have hrest := ih hnodup fun x hx => hapart x (List.mem_cons_of_mem _ hx)
    have hhead : (d.line.head? != some '#') = true := by rw [head?_line]; rfl
    rw [List.map_cons, List.filter_cons, hrest, hhead, Bool.true_and]
    by_cases hed : e = d
    · subst hed
      rw [search_line, if_pos rfl, if_neg hd, if_pos List.mem_cons_self]
    · rw [hapart d List.mem_cons_self e he hed]
      simp [hed]

theorem lookup_lines (hnodup : ds.Nodup) (hapart : ∀ d ∈ ds, Apart fleet d) (he : e ∈ fleet) :
    lookup e.path (ds.map Device.line) = processed ↔ e ∈ ds := by
  unfold lookup
  rw [filter_search hnodup hapart he]
  by_cases hmem : e ∈ ds
  · rw [if_pos hmem, List.map_singleton, field2_line, output_singleton (by decide)]
    simp [hmem]
  · rw [if_neg hmem]
    simp only [List.map_nil, output_nil, hmem, iff_false]
    decide

theorem delete_lines (hapart : ∀ d ∈ ds, Apart fleet d) (he : e ∈ fleet) :
    delete e.path (ds.map Device.line) = (ds.filter (· ≠ e)).map Device.line := by
  induction ds with
  | nil => rfl
  | cons d ds ih =>
    have hrest := ih fun x hx => hapart x (List.mem_cons_of_mem _ hx)
    unfold delete at hrest ⊢
    rw [List.map_cons, List.filter_cons, hrest]
    by_cases hed : e = d
    · subst hed
      rw [search_line]
      simp
    · have hde : d ≠ e := Ne.symm hed
      rw [hapart d List.mem_cons_self e he hed]
      simp [hde]

/-- The sections are those of `ds`, in this order.  The cache has the lines of `old`, which have no
section, and of `ds`. -/
structure Written (fleet : List Device) (s : State) (old ds : List Device) : Prop where
  sections : ∀ k, s.sections k = ds[k]?.map Device.config
  number : s.modemNumber = ds.length
  cache : s.cache.getD [] = (old ++ ds).map Device.line
  nodup : ds.Nodup
  mem : ∀ d ∈ old ++ ds, d ∈ fleet
  apart : ∀ d ∈ old ++ ds, Apart fleet d

structure Tidy (fleet : List Device) (s : State) (ds : List Device) : Prop
    extends Written fleet s [] ds where
  plugged : ∀ d ∈ ds, d ∈ s.plugged
  pluggedFleet : ∀ d ∈ s.plugged, d ∈ fleet
  pluggedNodup : s.plugged.Nodup
  known : ∀ d ∈ s.known, d ∈ ds

theorem path_inj (hfleet : (fleet.map Device.path).Nodup) (hd : d ∈ fleet) (he : e ∈ fleet)
    (h : d.path = e.path) : d = e :=
  List.inj_on_of_nodup_map hfleet hd he h

theorem Written.hasSection (h : Written fleet s old ds) (hfleet : (fleet.map Device.path).Nodup)
    (he : e ∈ fleet) : s.HasSection e.path ↔ e ∈ ds := by
  constructor
  · rintro ⟨k, x, hx, hpath⟩
    rw [h.sections, map_eq_some_iff] at hx
    obtain ⟨d, hd, rfl⟩ := hx
    have hmem : d ∈ ds := List.mem_of_getElem? hd
    have hde := path_inj hfleet (h.mem d (List.mem_append_right _ hmem)) he hpath
    exact hde ▸ hmem
  · intro hmem
    obtain ⟨k, hk⟩ := List.mem_iff_getElem?.mp hmem
    exact ⟨k, e.config, by rw [h.sections, hk]; rfl, rfl⟩

theorem Tidy.status (h : Tidy fleet s ds) (he : e ∈ fleet) :
    getPhysicalPathStatus s.cache e.path = processed ↔ e ∈ ds := by
  have hcache := h.cache
  rw [List.nil_append] at hcache
  have hlookup := lookup_lines h.nodup (fun d hd => h.apart d (by simpa using hd)) he
  unfold getPhysicalPathStatus
  cases hs : s.cache with
  | none =>
    rw [hs] at hcache
    have hnil : ds = [] := by simpa [eq_comm] using hcache
    rw [hnil]
    simp only [map_none, getD_none, List.not_mem_nil, iff_false]
    decide
  | some lines =>
    rw [hs] at hcache
    rw [← hlookup, ← hcache]
    rfl

theorem Tidy.consistent (h : Tidy fleet s ds) (hfleet : (fleet.map Device.path).Nodup) :
    Consistent fleet s where
  numbered := by
    intro k
    rw [h.sections, h.number, isSome_map]
    simp
  distinct := by
    intro j k x y hx hy hpath
    rw [h.sections, map_eq_some_iff] at hx hy
    obtain ⟨d, hd, rfl⟩ := hx
    obtain ⟨e, he, rfl⟩ := hy
    have hdf : d ∈ fleet := h.mem d (by simpa using List.mem_of_getElem? hd)
    have hef : e ∈ fleet := h.mem e (by simpa using List.mem_of_getElem? he)
    obtain rfl := path_inj hfleet hdf hef hpath
    have hj := (List.getElem?_eq_some_iff.mp hd).1
    exact (List.getElem?_inj hj h.nodup).mp (by rw [hd, he])
  known := by
    intro d hd hknown
    exact (h.hasSection hfleet (h.pluggedFleet d hd)).mpr (h.known d hknown)
  unplugged := by
    intro d hd hunplugged hsection
    exact hunplugged (h.plugged d ((h.hasSection hfleet hd).mp hsection))
  status := by
    intro d hd
    rw [h.status hd, h.hasSection hfleet hd]

theorem Written.modemInit (h : Written fleet s old ds) :
    Written fleet s.modemInit (old ++ ds) [] where
  sections := by
    intro k
    show (if k < s.modemNumber then none else s.sections k) = none
    split
    · rfl
    · rw [h.sections, List.getElem?_eq_none (by rw [← h.number]; omega)]
      rfl
  number := rfl
  cache := by
    rw [List.append_nil]
    exact h.cache
  nodup := .nil
  mem := by
    rw [List.append_nil]
    exact h.mem
  apart := by
    rw [List.append_nil]
    exact h.apart

theorem modemInit_of_zero (h : s.modemNumber = 0) : s.modemInit = s := by
  unfold State.modemInit
  rw [h]
  obtain ⟨sections, modemNumber, cache, plugged, known⟩ := s
  obtain rfl : modemNumber = 0 := h
  simp

theorem Written.setModemHardwareConfig (h : Written fleet s old ds) (hd : d ∈ fleet)
    (hnot : d ∉ ds) (hapart : Apart fleet d) :
    Written fleet (s.setModemHardwareConfig d) (old.filter (· ≠ d)) (ds ++ [d]) := by
  have hfilter : ds.filter (· ≠ d) = ds := by
    refine List.filter_eq_self.mpr fun x hx => ?_
    rw [decide_eq_true_eq]
    rintro rfl
    exact hnot hx
  have hinit : (if (s.cache.getD []).any (search processed) then s else s.modemInit) = s := by
    split
    · rfl
    case isFalse hnone =>
      -- A cache without a line of a section means that there are none.
      refine modemInit_of_zero ?_
      rw [h.number]
      cases hds : ds with
      | nil => rfl
      | cons x xs =>
        exfalso
        apply hnone
        rw [h.cache]
        exact List.any_eq_true.mpr ⟨x.line, List.mem_map_of_mem (by simp [hds]), search_processed⟩
  unfold State.setModemHardwareConfig
  rw [hinit]
  refine ⟨?_, ?_, ?_, ?_, ?_, ?_⟩
  · intro k
    show (if k = s.modemNumber then some d.config else s.sections k) = _
    rw [h.sections, h.number]
    by_cases hk : k = ds.length
    · subst hk
      simp
    · rw [if_neg hk]
      by_cases hlt : k < ds.length
      · rw [List.getElem?_append_left hlt]
      · rw [List.getElem?_eq_none (by omega), List.getElem?_eq_none (by simp; omega)]
  · simp [h.number]
  · have hdelete : (delPhysicalPathStatus s.cache d.path).getD [] =
        delete d.path (s.cache.getD []) := by
      cases s.cache with
      | none => rfl
      | some lines => rfl
    show (delPhysicalPathStatus s.cache d.path).getD [] ++ [d.line] = _
    rw [hdelete, h.cache, delete_lines h.apart hd, List.filter_append, hfilter]
    simp
  · exact List.nodup_append.mpr ⟨h.nodup, List.nodup_singleton d, by
      intro x hx y hy
      obtain rfl := List.mem_singleton.mp hy
      rintro rfl
      exact hnot hx⟩
  · intro x hx
    simp only [List.mem_append, List.mem_filter, List.mem_singleton] at hx
    rcases hx with ⟨hx, -⟩ | hx | rfl
    · exact h.mem x (List.mem_append_left _ hx)
    · exact h.mem x (List.mem_append_right _ hx)
    · exact hd
  · intro x hx
    simp only [List.mem_append, List.mem_filter, List.mem_singleton] at hx
    rcases hx with ⟨hx, -⟩ | hx | rfl
    · exact h.apart x (List.mem_append_left _ hx)
    · exact h.apart x (List.mem_append_right _ hx)
    · exact hapart

theorem Written.foldl (h : Written fleet s old ds) (hmem : ∀ d ∈ devices, d ∈ fleet)
    (hnodup : (ds ++ devices).Nodup) (hapart : ∀ d ∈ devices, Apart fleet d) :
    Written fleet (devices.foldl State.setModemHardwareConfig s) (old.filter (· ∉ devices))
      (ds ++ devices) := by
  induction devices generalizing s old ds with
  | nil => simpa using h
  | cons d devices ih =>
    have hnot : d ∉ ds := by
      intro hd
      exact (List.nodup_append.mp hnodup).2.2 d hd d List.mem_cons_self rfl
    have hstep := h.setModemHardwareConfig (hmem d List.mem_cons_self) hnot
      (hapart d List.mem_cons_self)
    have hsplit : ds ++ d :: devices = ds ++ [d] ++ devices := by simp
    rw [hsplit] at hnodup ⊢
    have hrest := ih hstep (fun x hx => hmem x (List.mem_cons_of_mem _ hx)) hnodup
      fun x hx => hapart x (List.mem_cons_of_mem _ hx)
    rw [List.filter_filter] at hrest
    have hfilter : (old.filter fun x => decide (x ∉ devices) && decide (x ≠ d)) =
        old.filter fun x => decide (x ∉ d :: devices) := by
      refine List.filter_congr fun x _ => ?_
      simp only [List.mem_cons, not_or, Bool.decide_and, Bool.and_comm]
    rwa [hfilter] at hrest

theorem hardware_plugged :
    (s.setModemHardwareConfig d).plugged = s.plugged ∧
      (s.setModemHardwareConfig d).known = s.known := by
  unfold State.setModemHardwareConfig
  dsimp only
  split
  · exact ⟨rfl, rfl⟩
  · exact ⟨rfl, rfl⟩

theorem Written.congr {s t : State} (h : Written fleet s old ds)
    (hsections : t.sections = s.sections)
    (hnumber : t.modemNumber = s.modemNumber) (hcache : t.cache = s.cache) :
    Written fleet t old ds := by
  refine ⟨?_, ?_, ?_, h.nodup, h.mem, h.apart⟩
  · rw [hsections]
    exact h.sections
  · rw [hnumber]
    exact h.number
  · rw [hcache]
    exact h.cache

theorem Tidy.netAdd (h : Tidy fleet s ds) (hd : d ∈ s.plugged) (hapart : Apart fleet d) :
    ∃ ds', Tidy fleet { s.addPhysicalDevice d with
      known := if d ∈ s.known then s.known else s.known ++ [d] } ds' ∧
      ∀ k x, s.sections k = some x → (s.addPhysicalDevice d).sections k = some x := by
  have hdf := h.pluggedFleet d hd
  have hknown : ∀ e ∈ (if d ∈ s.known then s.known else s.known ++ [d]), e ∈ ds ∨ e = d := by
    intro e he
    split at he
    · exact .inl (h.known e he)
    · rcases List.mem_append.mp he with he | he
      · exact .inl (h.known e he)
      · exact .inr (List.mem_singleton.mp he)
  unfold State.addPhysicalDevice
  split
  case isTrue hstatus =>
    have hmem := (h.status hdf).mp hstatus
    refine ⟨ds, ⟨h.toWritten.congr rfl rfl rfl, h.plugged, h.pluggedFleet, h.pluggedNodup, ?_⟩,
      fun _ _ hx => hx⟩
    intro e he
    exact (hknown e he).elim id fun heq => heq ▸ hmem
  case isFalse hstatus =>
    have hnot : d ∉ ds := fun hmem => hstatus ((h.status hdf).mpr hmem)
    have hwritten := h.toWritten.setModemHardwareConfig hdf hnot hapart
    have hplugged := (hardware_plugged (s := s) (d := d)).1
    refine ⟨ds ++ [d], ⟨hwritten.congr rfl rfl rfl, ?_, ?_, ?_, ?_⟩, ?_⟩
    · intro e he
      show e ∈ (s.setModemHardwareConfig d).plugged
      rw [hplugged]
      rcases List.mem_append.mp he with he | he
      · exact h.plugged e he
      · exact List.mem_singleton.mp he ▸ hd
    · show ∀ e ∈ (s.setModemHardwareConfig d).plugged, e ∈ fleet
      rw [hplugged]
      exact h.pluggedFleet
    · show (s.setModemHardwareConfig d).plugged.Nodup
      rw [hplugged]
      exact h.pluggedNodup
    · intro e he
      rcases hknown e he with he | rfl
      · exact List.mem_append_left _ he
      · exact List.mem_append_right _ (List.mem_singleton_self _)
    · intro k x hx
      rw [h.sections] at hx
      rw [hwritten.sections]
      obtain ⟨e, he, rfl⟩ := map_eq_some_iff.mp hx
      rw [List.getElem?_append_left (List.getElem?_eq_some_iff.mp he).1, he]
      rfl

theorem Tidy.modemNo (h : Tidy fleet s ds) (hfleet : (fleet.map Device.path).Nodup)
    (hd : d ∈ fleet) :
    (s.modemNo d.path = none ∧ d ∉ ds) ∨ ∃ k, s.modemNo d.path = some k ∧ ds[k]? = some d := by
  have hpath : ∀ k e, ds[k]? = some e →
      (((s.sections k).map Section.path).getD [] == d.path) = true → e = d := by
    intro k e hk hp
    rw [h.sections, hk] at hp
    exact path_inj hfleet (h.mem e (by simpa using List.mem_of_getElem? hk))
      hd (by simpa [Device.config] using hp)
  cases hno : s.modemNo d.path with
  | none =>
    refine .inl ⟨rfl, fun hmem => ?_⟩
    obtain ⟨k, hk⟩ := List.mem_iff_getElem?.mp hmem
    have hlt := (List.getElem?_eq_some_iff.mp hk).1
    have hnone := List.find?_eq_none.mp hno k (by rw [List.mem_range, h.number]; exact hlt)
    apply hnone
    rw [h.sections, hk]
    simp [Device.config]
  | some k =>
    refine .inr ⟨k, rfl, ?_⟩
    have hlt : k < ds.length := by
      have hrange := List.mem_of_find?_eq_some hno
      rwa [List.mem_range, h.number] at hrange
    have hfound := List.find?_some hno
    have hk : ds[k]? = some ds[k] := List.getElem?_eq_getElem hlt
    rw [hk, hpath k ds[k] hk hfound]

theorem Tidy.remove (h : Tidy fleet s ds) (hfleet : (fleet.map Device.path).Nodup)
    (hd : d ∈ fleet) (hlast : s.Last d.path) : ∃ ds', Tidy fleet (s.remove d) ds' := by
  have hkept : ∀ {xs : List Device} {x : Device}, x ∈ xs.filter (· ≠ d) ↔ x ∈ xs ∧ x ≠ d := by
    simp
  obtain ⟨hno, hnot⟩ | ⟨k, hno, hk⟩ := h.modemNo hfleet hd
  · have hsame : s.delModemConfig d.path = s := by
      unfold State.delModemConfig
      rw [hno]
    have hne : ∀ e ∈ ds, e ≠ d := by
      rintro e he rfl
      exact hnot he
    unfold State.remove
    rw [hsame]
    refine ⟨ds, h.toWritten.congr rfl rfl rfl, ?_, ?_, h.pluggedNodup.filter _, ?_⟩
    · exact fun e he => hkept.mpr ⟨h.plugged e he, hne e he⟩
    · exact fun e he => h.pluggedFleet e (hkept.mp he).1
    · exact fun e he => h.known e (hkept.mp he).1
  · have hnumber : k + 1 = ds.length := by
      rw [State.Last, hno] at hlast
      rw [← h.number]
      simpa using hlast
    -- The sections of the others are those in front.
    obtain ⟨front, rfl⟩ : ∃ front, ds = front ++ [d] := by
      have hne : ds ≠ [] := List.ne_nil_of_length_eq_add_one hnumber.symm
      refine ⟨ds.dropLast, ?_⟩
      have hgetLast : ds.getLast hne = d := by
        rw [List.getLast_eq_getElem]
        have hidx : ds.length - 1 = k := by omega
        simp only [hidx]
        exact (List.getElem?_eq_some_iff.mp hk).2
      rw [← hgetLast]
      exact (List.dropLast_append_getLast hne).symm
    have hlen : k = front.length := by simpa using hnumber
    have hnodup := List.nodup_append.mp h.nodup
    have hnot : d ∉ front := fun hmem => hnodup.2.2 d hmem d (List.mem_singleton_self d) rfl
    have hne : ∀ e ∈ front, e ≠ d := by
      rintro e he rfl
      exact hnot he
    have hfilter : (front ++ [d]).filter (· ≠ d) = front := by
      rw [List.filter_append, List.filter_eq_self.mpr fun e he => by simpa using hne e he]
      simp
    have hmem : ∀ e ∈ front, e ∈ [] ++ (front ++ [d]) := by
      intro e he
      simp [he]
    have hdel : s.delModemConfig d.path = { s with
        sections := fun i => if i = k then none else s.sections i
        modemNumber := s.modemNumber - 1
        cache := delPhysicalPathStatus s.cache d.path } := by
      unfold State.delModemConfig
      rw [hno]
    unfold State.remove
    rw [hdel]
    refine ⟨front, ⟨?_, ?_, ?_, hnodup.1, ?_, ?_⟩, ?_, ?_, h.pluggedNodup.filter _, ?_⟩
    · intro i
      show (if i = k then none else s.sections i) = _
      rw [h.sections, hlen]
      by_cases hi : i = front.length
      · rw [if_pos hi, List.getElem?_eq_none (by omega)]
        rfl
      · rw [if_neg hi]
        by_cases hlt : i < front.length
        · rw [List.getElem?_append_left hlt]
        · rw [List.getElem?_eq_none (by simp; omega), List.getElem?_eq_none (by omega)]
    · show s.modemNumber - 1 = front.length
      rw [h.number]
      simp
    · have hdelete : (delPhysicalPathStatus s.cache d.path).getD [] =
          delete d.path (s.cache.getD []) := by
        cases s.cache with
        | none => rfl
        | some lines => rfl
      show (delPhysicalPathStatus s.cache d.path).getD [] = _
      rw [hdelete, h.cache, delete_lines h.apart hd, List.nil_append, List.nil_append, hfilter]
    · exact fun e he => h.mem e (hmem e he)
    · exact fun e he => h.apart e (hmem e he)
    · exact fun e he => hkept.mpr ⟨h.plugged e (List.mem_append_left _ he), hne e he⟩
    · exact fun e he => h.pluggedFleet e (hkept.mp he).1
    · intro e he
      obtain ⟨he, hed⟩ := hkept.mp he
      rcases List.mem_append.mp (h.known e he) with hmem | hmem
      · exact hmem
      · exact absurd (List.mem_singleton.mp hmem) hed

theorem foldl_plugged :
    (devices.foldl State.setModemHardwareConfig s).plugged = s.plugged := by
  induction devices generalizing s with
  | nil => rfl
  | cons d devices ih => rw [List.foldl_cons, ih, hardware_plugged.1]

theorem Tidy.modemScan (h : Tidy fleet s ds) (hperm : devices.Perm s.plugged)
    (hapart : ∀ d ∈ devices, Apart fleet d) :
    Tidy fleet { s.modemScan devices with known := devices } devices := by
  have hnodup : devices.Nodup := hperm.nodup_iff.mpr h.pluggedNodup
  have hmem : ∀ d ∈ devices, d ∈ fleet := fun d hd => h.pluggedFleet d (hperm.mem_iff.mp hd)
  have hwritten := h.toWritten.modemInit.foldl hmem hnodup hapart
  have hold : ([] ++ ds).filter (· ∉ devices) = [] := by
    refine List.filter_eq_nil_iff.mpr fun d hd => ?_
    have hdev : d ∈ devices := hperm.mem_iff.mpr (h.plugged d hd)
    simpa using hdev
  rw [hold, List.nil_append] at hwritten
  have hplugged : (s.modemScan devices).plugged = s.plugged := foldl_plugged
  refine ⟨hwritten.congr rfl rfl rfl, ?_, ?_, ?_, fun d hd => hd⟩
  · show ∀ d ∈ devices, d ∈ (s.modemScan devices).plugged
    rw [hplugged]
    exact fun d hd => hperm.mem_iff.mp hd
  · show ∀ d ∈ (s.modemScan devices).plugged, d ∈ fleet
    rw [hplugged]
    exact h.pluggedFleet
  · show (s.modemScan devices).plugged.Nodup
    rw [hplugged]
    exact h.pluggedNodup

theorem step_tidy {l : Label} (hfleet : (fleet.map Device.path).Nodup) (h : Tidy fleet s ds)
    (hl : Tame fleet s l) (ht : step fleet s l = some t) : ∃ ds', Tidy fleet t ds' := by
  cases l with
  | plug d =>
    simp only [step, ite_none_right_eq_some, some.injEq] at ht
    obtain ⟨⟨hd, hnot⟩, rfl⟩ := ht
    refine ⟨ds, h.toWritten.congr rfl rfl rfl, ?_, ?_, ?_, h.known⟩
    · exact fun e he => List.mem_append_left _ (h.plugged e he)
    · intro e he
      rcases List.mem_append.mp he with he | he
      · exact h.pluggedFleet e he
      · exact List.mem_singleton.mp he ▸ hd
    · refine List.nodup_append.mpr ⟨h.pluggedNodup, List.nodup_singleton d, ?_⟩
      intro x hx y hy
      obtain rfl := List.mem_singleton.mp hy
      rintro rfl
      exact hnot hx
  | netAdd d =>
    simp only [step, ite_none_right_eq_some, some.injEq] at ht
    obtain ⟨hd, rfl⟩ := ht
    obtain ⟨ds', htidy, -⟩ := h.netAdd hd hl
    exact ⟨ds', htidy⟩
  | netRemove d =>
    simp only [step, ite_none_right_eq_some, some.injEq] at ht
    obtain ⟨hd, rfl⟩ := ht
    split
    case isTrue hpci => exact h.remove hfleet hd (hl hpci)
    case isFalse => exact ⟨ds, h⟩
  | usbRemove d =>
    simp only [step, ite_none_right_eq_some, some.injEq] at ht
    obtain ⟨⟨hd, -⟩, rfl⟩ := ht
    exact h.remove hfleet hd hl
  | modemScan devices =>
    simp only [step, ite_none_right_eq_some, some.injEq] at ht
    obtain ⟨hperm, rfl⟩ := ht
    exact ⟨devices, h.modemScan hperm hl⟩
  | modemInit =>
    obtain rfl := some.inj ht
    rw [modemInit_of_zero hl]
    exact ⟨ds, h⟩

theorem tidy_init : Tidy fleet init [] where
  sections _ := rfl
  number := rfl
  cache := rfl
  nodup := .nil
  mem _ h := absurd h List.not_mem_nil
  apart _ h := absurd h List.not_mem_nil
  plugged _ h := absurd h List.not_mem_nil
  pluggedFleet _ h := absurd h List.not_mem_nil
  pluggedNodup := .nil
  known _ h := absurd h List.not_mem_nil

/-- A run of tame steps keeps the registry consistent, and no add event overwrites a section. -/
theorem consistent_of_tame (hfleet : (fleet.map Device.path).Nodup)
    (h : Reaches (step fleet) (Tame fleet) init s) :
    Consistent fleet s ∧ ∀ d t, Tame fleet s (.netAdd d) → step fleet s (.netAdd d) = some t →
      ¬ Overwrites s t := by
  obtain ⟨ds, htidy⟩ := h.invariant (P := fun s => ∃ ds, Tidy fleet s ds) ⟨[], tidy_init⟩
    fun s l t ⟨ds, hs⟩ hl ht => step_tidy hfleet hs hl ht
  refine ⟨htidy.consistent hfleet, ?_⟩
  rintro d t hl ht ⟨k, x, hx, hne⟩
  simp only [step, ite_none_right_eq_some, some.injEq] at ht
  obtain ⟨hd, rfl⟩ := ht
  obtain ⟨ds', -, hkept⟩ := htidy.netAdd hd hl
  exact hne (hkept k x hx)

def first : Device where
  path := "/sys/devices/platform/xhci/usb2/2-1".toList
  driver := "usb".toList
  pci := false
  absolute := by decide
  plain := by decide

def second : Device where
  path := "/sys/devices/platform/xhci/usb2/2-2".toList
  driver := "usb".toList
  pci := false
  absolute := by decide
  plain := by decide

def third : Device where
  path := "/sys/devices/pci0000:00/0000:01:00.0".toList
  driver := "mhi-pci-generic".toList
  pci := true
  absolute := by decide
  plain := by decide

def threeModems : List Device := [first, second, third]

/-- Three modems are added, the last one leaves and comes back in a scan. -/
def lastFirst : List Label :=
  [.plug first, .plug third, .netAdd third, .netAdd first, .netAdd third, .usbRemove first,
    .plug second, .plug first, .netAdd second, .modemScan [second, first, third]]

theorem consistent_lastFirst : ∃ s,
    (Consistent threeModems s ∧ ∀ d t, Tame threeModems s (.netAdd d) →
      step threeModems s (.netAdd d) = some t → ¬ Overwrites s t) ∧
    s.modemNumber = 3 ∧ (s.sections 1).map Section.path = some first.path := by
  have hrun : (run (guarded (step threeModems) (Tame threeModems)) init lastFirst).any
      (fun s => decide (s.modemNumber = 3 ∧
        (s.sections 1).map Section.path = some first.path)) = true := by
    decide
  obtain ⟨s, hreaches, hs⟩ := exists_of_run _ hrun
  exact ⟨s, consistent_of_tame (by decide) hreaches, hs⟩

/-- The first one of two modems leaves, and a third one is added. -/
def firstLeaves : List Label :=
  [.plug first, .plug second, .netAdd first, .netAdd second, .usbRemove first, .plug third,
    .netAdd third]

/-- The section of the second modem becomes that of the third one. -/
theorem overwritten_firstLeaves : ¬ ∀ fleet s, (fleet.map Device.path).Nodup →
    Reachable (step fleet) init s → Consistent fleet s := by
  intro h
  have hrun : (run (guarded (step threeModems) fun _ _ => True) init firstLeaves).any
      (fun s => decide (s.sections 0 = none ∧ s.modemNumber = 2)) = true := by
    decide
  obtain ⟨s, hreaches, hnone, hnumber⟩ := exists_of_run _ hrun
  have hzero := ((h threeModems s (by decide) hreaches).numbered 0).mpr (by omega)
  rw [hnone] at hzero
  cases hzero

end ModemSupport.Luci.Registry
