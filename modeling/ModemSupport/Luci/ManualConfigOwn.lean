import ModemSupport.Luci.ManualConfig

/-! `manual_set_modem_config` fills in the last section, whichever it is called for. -/

namespace ModemSupport.Luci.ManualConfig

open Lib.Pattern List Option

variable {sys : System} {s t u : State} {m k : Nat} {x y : Section} {xs : List Section}
  {ds : List Subdevice} {fs : List Field}

/-- From `s` to `t` nothing but the section `m` has been written. -/
structure Touches (m : Nat) (s t : State) : Prop where
  modemNumber : t.modemNumber = s.modemNumber
  settled : s.clears = false → t.clears = false
  sections : ∀ i, i ≠ m → t.sections i = s.sections i
  written : ∃ ws : List Field, t.written = s.written ++ ws.map (m, ·)

theorem Touches.refl : Touches m s s := ⟨rfl, id, fun _ _ => rfl, [], by simp⟩

theorem Touches.trans (h : Touches m s t) (h' : Touches m t u) : Touches m s u := by
  obtain ⟨ws, hws⟩ := h.written
  obtain ⟨ws', hws'⟩ := h'.written
  refine ⟨h'.modemNumber.trans h.modemNumber, fun hs => h'.settled (h.settled hs),
    fun i hi => (h'.sections i hi).trans (h.sections i hi), ws ++ ws', ?_⟩
  rw [hws', hws, append_assoc, map_append]

theorem touches_set : Touches m s (s.set m x fs) :=
  ⟨rfl, id, fun _ hi => if_neg hi, fs, rfl⟩

theorem sections_set : (s.set m x fs).sections m = some x := if_pos rfl

theorem touches_setSubdevice (d : Subdevice) : Touches m s (setSubdevice sys m s d) := by
  rw [setSubdevice]
  split
  · exact .refl
  · split
    · exact touches_set
    · exact touches_set

theorem touches_subdevices : Touches m s (ds.foldl (setSubdevice sys m) s) := by
  induction ds generalizing s with
  | nil => exact .refl
  | cons d ds ih => exact (touches_setSubdevice d).trans ih

theorem touches_setSubdeviceConfig : Touches m s (setSubdeviceConfig sys s m) := by
  rw [setSubdeviceConfig]
  split
  · exact .refl
  · split
    · exact .refl
    · split
      · exact touches_set.trans touches_subdevices
      · exact touches_set

theorem touches_setModemMoreConfig : Touches m s (setModemMoreConfig sys s m) := by
  rw [setModemMoreConfig]
  split
  · exact .refl
  · split
    · exact .refl
    · exact touches_set

def target (s : State) : Nat := if s.clears then 0 else s.modemNumber - 1

theorem hardware_spec (sys : System) (s : State) (device : Str) : ∃ t, setModemHardwareConfig sys
      { s with modemNumber := s.modemNumber - 1 } device = (t, target s) ∧
    t.modemNumber = target s + 1 ∧ t.clears = false ∧
    (s.clears = false → ∀ i, i ≠ target s → t.sections i = s.sections i) ∧
    t.written = s.written ++ [(target s, .path), (target s, .driver)] ∧
    ∃ x, t.sections (target s) = some x ∧ x.path = device ∧ x.driver = sys.driver device := by
  have hclears : ({ s with modemNumber := s.modemNumber - 1 } : State).clears = s.clears := rfl
  have hprocessed : ∀ u : State, u.cache =
      Registry.setPhysicalPathStatus s.cache device Registry.processed → u.clears = false := by
    intro u hu
    have hany : ((u.cache.getD []).any (search Registry.processed)) = true := by
      rw [hu, Registry.setPhysicalPathStatus, getD_some, any_append, Bool.or_eq_true]
      refine .inr ?_
      rw [any_cons, any_nil, Bool.or_false, record]
      exact (congrArg _ (by simp)).trans (search_append (a := device ++ [',']) (b := []))
    rw [State.clears, hany]
    rfl
  rw [setModemHardwareConfig, hclears, target]
  by_cases hc : s.clears = true
  · rw [if_pos hc, if_pos hc]
    exact ⟨_, rfl, rfl, hprocessed _ rfl, fun h => (Bool.false_ne_true (h.symm.trans hc)).elim, rfl,
      _, sections_set, rfl, rfl⟩
  · rw [if_neg hc, if_neg hc]
    exact ⟨_, rfl, rfl, hprocessed _ rfl, fun _ i hi => if_neg hi, rfl, _, sections_set, rfl, rfl⟩

structure SameDevice (x y : Section) : Prop where
  path : y.path = x.path
  driver : y.driver = x.driver
  ports : y.ports = x.ports
  network : y.network = x.network

theorem sameDevice_setName (name : Str) : SameDevice x (x.setName sys name) := by
  rw [Section.setName]
  split
  · exact ⟨rfl, rfl, rfl, rfl⟩
  · exact ⟨rfl, rfl, rfl, rfl⟩

theorem sameDevice_retry : SameDevice x (x.retry sys) := by
  rw [Section.retry]
  split
  · exact ⟨rfl, rfl, rfl, rfl⟩
  · exact ⟨rfl, rfl, rfl, rfl⟩

theorem sameDevice_moreConfig : SameDevice x (x.moreConfig sys) := by
  have hname : SameDevice x (x.setName sys (x.modemName sys)) := sameDevice_setName _
  have hretry : SameDevice (x.setName sys (x.modemName sys))
      ((x.setName sys (x.modemName sys)).retry sys) := sameDevice_retry
  rw [Section.moreConfig]
  split
  · exact ⟨hretry.path.trans hname.path, hretry.driver.trans hname.driver,
      hretry.ports.trans hname.ports, hretry.network.trans hname.network⟩
  · exact hname

theorem subdevices_spec (hx : s.sections m = some x) : ∃ y,
    (ds.foldl (setSubdevice sys m) s).sections m = some y ∧ y.path = x.path ∧
      y.driver = x.driver ∧ y.ports = x.ports ++ ds.filterMap Subdevice.port? ∧
      y.network = (ds.filterMap Subdevice.network?).getLast?.getD x.network ∧
      ((m, Field.network) ∈ (ds.foldl (setSubdevice sys m) s).written ↔
        (m, Field.network) ∈ s.written ∨ ds.filterMap Subdevice.network? ≠ []) := by
  induction ds generalizing s x with
  | nil =>
    exact ⟨x, hx, rfl, rfl, (append_nil _).symm, rfl, (or_iff_left (not_not.mpr rfl)).symm⟩
  | cons d ds ih =>
    cases d with
    | net driver network =>
      have hset : setSubdevice sys m s (.net driver network) = s.set m
          { x with
            netDriver := driver
            network := network
            networkInterface := sys.networkInterface x.path } [.network] := by
        rw [setSubdevice, hx]
      obtain ⟨y, hy, hpath, hdriver, hports, hnetwork, hwritten⟩ :=
        ih (s := setSubdevice sys m s (.net driver network)) (by rw [hset]; exact sections_set)
      refine ⟨y, hy, hpath, hdriver, hports, ?_, ?_⟩
      · rw [hnetwork, filterMap_cons, Subdevice.network?, getLast?_cons,
          getD_some]
      · rw [foldl_cons, hwritten, hset]
        simp [State.set, Subdevice.network?]
    | port name =>
      have hset : setSubdevice sys m s (.port name) =
          s.set m { x with ports := x.ports ++ [name] } [.ports] := by
        rw [setSubdevice, hx]
      obtain ⟨y, hy, hpath, hdriver, hports, hnetwork, hwritten⟩ :=
        ih (s := setSubdevice sys m s (.port name)) (by rw [hset]; exact sections_set)
      refine ⟨y, hy, hpath, hdriver, ?_, hnetwork, ?_⟩
      · rw [hports, append_assoc]
        rfl
      · rw [foldl_cons, hwritten, hset]
        simp [State.set, Subdevice.network?]

theorem filled_spec (hx : s.sections m = some x) (hports : (m, Field.ports) ∉ s.written)
    (hnetwork : (m, Field.network) ∉ s.written) :
    let t := setModemMoreConfig sys (setSubdeviceConfig sys s m) m
    ((m, Field.ports) ∈ t.written → x.path ≠ []) ∧
      ((m, Field.network) ∈ t.written → x.driver ∈ modemDrivers ∧
        (sys.subdevices x.driver x.path).filterMap Subdevice.network? ≠ []) ∧
      (x.path ≠ [] → x.driver ∈ modemDrivers →
        (sys.subdevices x.driver x.path).filterMap Subdevice.network? ≠ [] →
        (m, Field.ports) ∈ t.written ∧ (m, Field.network) ∈ t.written ∧ ∃ y,
          t.sections m = some y ∧ y.path = x.path ∧ y.driver = x.driver ∧
            y.ports = (sys.subdevices x.driver x.path).filterMap Subdevice.port? ∧
            some y.network =
              ((sys.subdevices x.driver x.path).filterMap Subdevice.network?).getLast?) := by
  have hmore : ∀ u : State, (setModemMoreConfig sys u m).written = u.written := by
    intro u
    rw [setModemMoreConfig]
    split
    · rfl
    · split
      · rfl
      · simp [State.set]
  have hsub : ∀ u : State, u = setSubdeviceConfig sys s m →
      u = (if x.path = [] then s else
        if x.driver ∈ modemDrivers then (sys.subdevices x.driver x.path).foldl
          (setSubdevice sys m) (s.set m { x with ports := [] } [.ports])
        else s.set m { x with ports := [] } [.ports]) := by
    intro u hu
    rw [hu, setSubdeviceConfig, hx]
  simp only
  rw [hmore]
  generalize hu : setSubdeviceConfig sys s m = u
  have heq := hsub u hu.symm
  by_cases hpath : x.path = []
  · rw [if_pos hpath] at heq
    rw [heq]
    exact ⟨fun h => absurd h hports, fun h => absurd h hnetwork, fun h => absurd hpath h⟩
  rw [if_neg hpath] at heq
  by_cases hdriver : x.driver ∈ modemDrivers
  · rw [if_pos hdriver] at heq
    have hset : (s.set m { x with ports := [] } [.ports]).sections m =
        some { x with ports := [] } := sections_set
    have htouches : Touches m (s.set m { x with ports := [] } [.ports])
        ((sys.subdevices x.driver x.path).foldl (setSubdevice sys m)
          (s.set m { x with ports := [] } [.ports])) := touches_subdevices
    obtain ⟨y, hy, hypath, hydriver, hyports, hynetwork, hwritten⟩ :=
      @subdevices_spec sys _ _ _ (sys.subdevices x.driver x.path) hset
    rw [← heq] at hy hwritten
    have hnone : (m, Field.network) ∉ (s.set m { x with ports := [] } [.ports]).written := by
      simpa [State.set] using hnetwork
    rw [or_iff_right hnone] at hwritten
    refine ⟨fun _ => hpath, fun h => ⟨hdriver, hwritten.mp h⟩, fun _ _ hne => ⟨?_, ?_, ?_⟩⟩
    · obtain ⟨ws, hws⟩ := htouches.written
      rw [heq, hws]
      simp [State.set]
    · exact hwritten.mpr hne
    · have hyne : y.path ≠ [] := by rwa [hypath]
      refine ⟨y.moreConfig sys, ?_, sameDevice_moreConfig.path.trans hypath,
        sameDevice_moreConfig.driver.trans hydriver, sameDevice_moreConfig.ports.trans hyports, ?_⟩
      · rw [setModemMoreConfig, hy]
        simp only
        rw [if_neg hyne]
        exact sections_set
      · rw [sameDevice_moreConfig.network, hynetwork]
        cases hlast : ((sys.subdevices x.driver x.path).filterMap Subdevice.network?).getLast? with
        | none => exact absurd (getLast?_eq_none_iff.mp hlast) hne
        | some network => rfl
  · rw [if_neg hdriver] at heq
    rw [heq]
    refine ⟨fun _ => hpath, fun h => absurd h ?_, fun _ h => absurd h hdriver⟩
    simpa [State.set] using hnetwork

theorem manualSet_of_not (h : ¬ (x.isManual = true ∧ skipped sys x.network = false)) :
    manualSetModemConfig sys s x = s := by
  rw [manualSetModemConfig]
  cases hmanual : x.isManual with
  | false => rfl
  | true =>
    cases hskipped : skipped sys x.network with
    | true => rfl
    | false => exact absurd ⟨hmanual, hskipped⟩ h

theorem manualSet_spec (hmanual : x.isManual = true) (hskipped : skipped sys x.network = false)
    (s : State) : ∃ u, u.modemNumber = target s + 1 ∧ u.clears = false ∧
      (s.clears = false → ∀ i, i ≠ target s → u.sections i = s.sections i) ∧
      u.written = s.written ++ [(target s, .path), (target s, .driver)] ∧
      (∃ y, u.sections (target s) = some y ∧ y.path = device sys x.network ∧
        y.driver = sys.driver (device sys x.network)) ∧
      manualSetModemConfig sys s x =
        setModemMoreConfig sys (setSubdeviceConfig sys u (target s)) (target s) := by
  obtain ⟨u, hu, hnumber, hclears, hsections, hwritten, hsection⟩ :=
    hardware_spec sys s (device sys x.network)
  refine ⟨u, hnumber, hclears, hsections, hwritten, hsection, ?_⟩
  rw [device] at hu
  rw [manualSetModemConfig, hmanual, hskipped]
  simp only [hu]
  rfl

/-- Behind a call that is not passed over the number of modems is right for the next one, and the
section that has been written is the last. -/
theorem manualSet_touches (hmanual : x.isManual = true) (hskipped : skipped sys x.network = false) :
    (manualSetModemConfig sys s x).modemNumber = target s + 1 ∧
      (manualSetModemConfig sys s x).clears = false ∧
      (s.clears = false → ∀ i, i ≠ target s →
        (manualSetModemConfig sys s x).sections i = s.sections i) ∧
      ∃ ws : List Field, (manualSetModemConfig sys s x).written =
        s.written ++ ws.map (target s, ·) := by
  obtain ⟨u, hnumber, hclears, hsections, hwritten, -, heq⟩ := manualSet_spec hmanual hskipped s
  have htouches : Touches (target s) u (manualSetModemConfig sys s x) := by
    rw [heq]
    exact touches_setSubdeviceConfig.trans touches_setModemMoreConfig
  obtain ⟨ws, hws⟩ := htouches.written
  refine ⟨htouches.modemNumber.trans hnumber, htouches.settled hclears,
    fun hs i hi => (htouches.sections i hi).trans (hsections hs i hi), .path :: .driver :: ws, ?_⟩
  rw [hws, hwritten, append_assoc]
  rfl

theorem filledIn_iff (hmanual : x.isManual = true) (hskipped : skipped sys x.network = false)
    (hwritten : s.written = []) :
    ((∀ f, (target s, f) ∈ (manualSetModemConfig sys s x).written) → Found sys x.network) ∧
      (Found sys x.network →
        FilledIn sys (manualSetModemConfig sys s x) (target s) (device sys x.network)) := by
  obtain ⟨u, -, -, -, hu, ⟨y, hy, hpath, hdriver⟩, heq⟩ := manualSet_spec hmanual hskipped s
  rw [hwritten, nil_append] at hu
  obtain ⟨hports, hnetwork, hfilled⟩ := filled_spec hy (by simp [hu]) (by simp [hu])
  rw [← heq] at hports hnetwork hfilled
  rw [hpath] at hports
  rw [hpath, hdriver] at hnetwork hfilled
  constructor
  · exact fun h => ⟨hskipped, hports (h .ports), hnetwork (h .network)⟩
  · intro hfound
    obtain ⟨hwports, hwnetwork, z, hz, hzpath, hzdriver, hzports, hznetwork⟩ :=
      hfilled hfound.2.1 hfound.2.2.1 hfound.2.2.2
    have htouches : Touches (target s) u (manualSetModemConfig sys s x) := by
      rw [heq]
      exact touches_setSubdeviceConfig.trans touches_setModemMoreConfig
    obtain ⟨ws, hws⟩ := htouches.written
    refine ⟨fun f => ?_, ?_, ?_, ?_, ?_⟩
    · cases f with
      | path => rw [hws, hu]; simp
      | driver => rw [hws, hu]; simp
      | ports => exact hwports
      | network => exact hwnetwork
    · rw [hz, map_some, hzpath]
    · rw [hz, map_some, hzdriver]
    · rw [hz, map_some, hzports, portsOf]
    · rw [hz, map_some, hznetwork, networksOf]

theorem touches_settled (hclears : s.clears = false) (hnumber : s.modemNumber = m + 1) :
    Touches m s (xs.foldl (manualSetModemConfig sys) s) := by
  induction xs generalizing s with
  | nil => exact .refl
  | cons x xs ih =>
    rw [foldl_cons]
    by_cases h : x.isManual = true ∧ skipped sys x.network = false
    · obtain ⟨hnumber', hclears', hsections, hwritten⟩ := manualSet_touches (s := s) h.1 h.2
      have htarget : target s = m := by
        rw [target, if_neg (by rw [hclears]; exact Bool.false_ne_true), hnumber,
          Nat.add_sub_cancel]
      rw [htarget] at hnumber' hsections hwritten
      have hstep : Touches m s (manualSetModemConfig sys s x) :=
        ⟨hnumber'.trans hnumber.symm, fun _ => hclears', hsections hclears, hwritten⟩
      exact hstep.trans (ih hclears' hnumber')
    · rw [manualSet_of_not h]
      exact ih hclears hnumber

theorem foldl_cases (xs : List Section) (s : State) :
    xs.foldl (manualSetModemConfig sys) s = s ∨
      (xs.foldl (manualSetModemConfig sys) s).modemNumber = target s + 1 ∧ ∃ ws : List Field,
        (xs.foldl (manualSetModemConfig sys) s).written = s.written ++ ws.map (target s, ·) := by
  induction xs with
  | nil => exact .inl rfl
  | cons x xs ih =>
    rw [foldl_cons]
    by_cases h : x.isManual = true ∧ skipped sys x.network = false
    · obtain ⟨hnumber, hclears, -, ws, hws⟩ := manualSet_touches (s := s) h.1 h.2
      have hrest : Touches (target s) (manualSetModemConfig sys s x)
          (xs.foldl (manualSetModemConfig sys) (manualSetModemConfig sys s x)) :=
        touches_settled hclears hnumber
      obtain ⟨ws', hws'⟩ := hrest.written
      refine .inr ⟨hrest.modemNumber.trans hnumber, ws ++ ws', ?_⟩
      rw [hws', hws, append_assoc, map_append]
    · rwa [manualSet_of_not h]

theorem foldl_of_not_manual (h : ∀ x ∈ xs, x.isManual = false) :
    xs.foldl (manualSetModemConfig sys) s = s := by
  induction xs with
  | nil => rfl
  | cons x xs ih =>
    have hx := h x mem_cons_self
    rw [foldl_cons, manualSet_of_not fun hm => Bool.false_ne_true (hx.symm.trans hm.1)]
    exact ih fun y hy => h y (mem_cons_of_mem _ hy)

theorem startService_eq (xs : List Section) (modemNumber : Nat) (manualConfiguration : Str)
    (cache : Option (List Str)) :
    startService sys xs.length (sectionsOf xs modemNumber manualConfiguration cache) =
      xs.foldl (manualSetModemConfig sys)
        (sectionsOf xs xs.length manualConfiguration cache) := by
  have hloaded : (List.range xs.length).filterMap (fun i => xs[i]?) = xs := by
    induction xs with
    | nil => rfl
    | cons x xs ih =>
      rw [length_cons, range_succ_eq_map, filterMap_cons, List.getElem?_cons_zero,
        filterMap_map]
      exact congrArg _ ih
  have hcount : ∀ count, xs.foldl (fun count _ => count + 1) count = count + xs.length := by
    clear hloaded
    induction xs with
    | nil => exact fun _ => rfl
    | cons x xs ih =>
      intro count
      rw [foldl_cons, ih, length_cons, Nat.add_right_comm, Nat.add_assoc]
  rw [startService]
  simp only [sectionsOf]
  rw [hloaded, hcount, Nat.zero_add]

/-- A manual modem is the last one, with its network device in place, and when there are others they
are not cleared. -/
def OnlyLast (sys : System) (xs : List Section) (manualConfiguration : Str)
    (cache : Option (List Str)) : Prop :=
  ∀ k x, xs[k]? = some x → x.isManual = true → k + 1 = xs.length ∧ Found sys x.network ∧
    (k = 0 ∨ (sectionsOf xs xs.length manualConfiguration cache).clears = false)

theorem target_eq {manualConfiguration : Str} {cache : Option (List Str)} (hk : k + 1 = xs.length)
    (hclears : k = 0 ∨ (sectionsOf xs xs.length manualConfiguration cache).clears = false) :
    target (sectionsOf xs xs.length manualConfiguration cache) = k := by
  rw [target]
  rcases hclears with rfl | hclears
  · split
    · rfl
    · exact Nat.sub_eq_of_eq_add hk.symm
  · rw [if_neg (by rw [hclears]; exact Bool.false_ne_true)]
    exact Nat.sub_eq_of_eq_add hk.symm

theorem foldl_last {x : Section} (front : List Section)
    (h : ∀ y ∈ front, y.isManual = false) (s : State) :
    (front ++ [x]).foldl (manualSetModemConfig sys) s = manualSetModemConfig sys s x := by
  rw [foldl_append, foldl_of_not_manual h]
  rfl

theorem eq_front_append (hk : k + 1 = xs.length) (hx : xs[k]? = some x) :
    ∃ front, xs = front ++ [x] ∧ front.length = k := by
  have hne : xs ≠ [] := by
    intro h
    rw [h] at hk
    exact absurd hk (Nat.succ_ne_zero k)
  refine ⟨xs.dropLast, ?_, by rw [length_dropLast]; omega⟩
  have hlast : xs.getLast hne = x := by
    rw [getLast_eq_getElem]
    obtain ⟨hlt, hget⟩ := List.getElem?_eq_some_iff.mp hx
    rw [← hget]
    congr 1
    omega
  rw [← hlast, dropLast_append_getLast]

theorem onlyLast_of_configured {manualConfiguration : Str} {cache : Option (List Str)}
    (h : Configured sys xs (xs.foldl (manualSetModemConfig sys)
      (sectionsOf xs xs.length manualConfiguration cache))) :
    OnlyLast sys xs manualConfiguration cache := by
  -- all that is written is in one section, which is the last when the number is right
  have hlast : ∀ k x, xs[k]? = some x → x.isManual = true → k + 1 = xs.length ∧
      target (sectionsOf xs xs.length manualConfiguration cache) = k := by
    intro k x hx hmanual
    have hwritten := (h.manual k x hx hmanual).written .path
    rcases @foldl_cases sys xs (sectionsOf xs xs.length manualConfiguration cache) with
      hsame | ⟨hnumber, ws, hws⟩
    · rw [hsame] at hwritten
      exact absurd hwritten not_mem_nil
    · rw [hws, sectionsOf, nil_append, List.mem_map] at hwritten
      obtain ⟨f, -, hf⟩ := hwritten
      have htarget := congrArg Prod.fst hf
      refine ⟨?_, htarget⟩
      rw [h.modemNumber] at hnumber
      have heq : target (sectionsOf xs xs.length manualConfiguration cache) = k := htarget
      omega
  intro k x hx hmanual
  obtain ⟨hk, htarget⟩ := hlast k x hx hmanual
  obtain ⟨front, rfl, hfront⟩ := eq_front_append hk hx
  have hothers : ∀ y ∈ front, y.isManual = false := by
    intro y hy
    by_contra hmanual'
    obtain ⟨j, hj, rfl⟩ := mem_iff_getElem.mp hy
    have hget : (front ++ [x])[j]? = some front[j] := by
      rw [List.getElem?_append_left hj, List.getElem?_eq_getElem hj]
    have := (hlast j _ hget (Bool.not_eq_false _ |>.mp hmanual')).1
    omega
  have hfilled := h.manual k x hx hmanual
  rw [foldl_last front hothers] at hfilled
  have hskipped : skipped sys x.network = false := by
    by_contra hskip
    have hwritten := hfilled.written .path
    rw [manualSet_of_not fun hm => hskip hm.2] at hwritten
    exact absurd hwritten not_mem_nil
  refine ⟨hk, (filledIn_iff (s := sectionsOf (front ++ [x]) (front ++ [x]).length
    manualConfiguration cache) hmanual hskipped rfl).1 fun f => ?_, ?_⟩
  · rw [htarget]
    exact hfilled.written f
  · cases hclears : (sectionsOf (front ++ [x]) (front ++ [x]).length manualConfiguration
        cache).clears with
    | false => exact .inr rfl
    | true =>
      rw [target, if_pos hclears] at htarget
      exact .inl htarget.symm

theorem configured_of_onlyLast {manualConfiguration : Str} {cache : Option (List Str)}
    (h : OnlyLast sys xs manualConfiguration cache) :
    Configured sys xs (xs.foldl (manualSetModemConfig sys)
      (sectionsOf xs xs.length manualConfiguration cache)) := by
  by_cases hnone : ∀ x ∈ xs, x.isManual = false
  · rw [foldl_of_not_manual hnone]
    refine ⟨rfl, fun k x hx hmanual => ?_, fun k x hx _ => ⟨x, hx, rfl, rfl, rfl, rfl⟩⟩
    exact absurd hmanual (by rw [hnone x (mem_of_getElem? hx)]; exact Bool.false_ne_true)
  · simp only [not_forall, Bool.not_eq_false] at hnone
    obtain ⟨x, hmem, hmanual⟩ := hnone
    obtain ⟨k, hx⟩ := mem_iff_getElem?.mp hmem
    obtain ⟨hk, hfound, hclears⟩ := h k x hx hmanual
    have htarget := target_eq hk hclears
    obtain ⟨front, rfl, hfront⟩ := eq_front_append hk hx
    have hothers : ∀ y ∈ front, y.isManual = false := by
      intro y hy
      by_contra hmanual'
      obtain ⟨j, hj, rfl⟩ := mem_iff_getElem.mp hy
      have hget : (front ++ [x])[j]? = some front[j] := by
        rw [List.getElem?_append_left hj, List.getElem?_eq_getElem hj]
      have := (h j _ hget (Bool.not_eq_false _ |>.mp hmanual')).1
      omega
    obtain ⟨hnumber, -, hsections, -⟩ := manualSet_touches
      (s := sectionsOf (front ++ [x]) (front ++ [x]).length manualConfiguration cache) hmanual
      hfound.1
    rw [foldl_last front hothers]
    rw [htarget] at hnumber hsections
    refine ⟨hnumber.trans hk, ?_, ?_⟩
    · intro j y hy hmanual'
      obtain rfl : j = k := by
        have := (h j y hy hmanual').1
        omega
      obtain rfl : x = y := some.inj (hx.symm.trans hy)
      have hfilled := (filledIn_iff (s := sectionsOf (front ++ [x]) (front ++ [x]).length
        manualConfiguration cache) hmanual hfound.1 rfl).2 hfound
      rwa [htarget] at hfilled
    · intro j y hy hmanual'
      have hne : j ≠ k := by
        rintro rfl
        obtain rfl : x = y := some.inj (hx.symm.trans hy)
        rw [hmanual] at hmanual'
        cases hmanual'
      have hlt : j < (front ++ [x]).length := (List.getElem?_eq_some_iff.mp hy).1
      have hclears' := hclears.resolve_left (by omega)
      exact ⟨y, (hsections hclears' j hne).trans hy, rfl, rfl, rfl, rfl⟩

/-- The service configures the modems as it should when only the last one is manual. -/
theorem configured_iff (sys : System) (xs : List Section) (modemNumber : Nat)
    (manualConfiguration : Str) (cache : Option (List Str)) :
    Configured sys xs (startService sys xs.length
        (sectionsOf xs modemNumber manualConfiguration cache)) ↔
      OnlyLast sys xs manualConfiguration cache := by
  rw [startService_eq]
  exact ⟨onlyLast_of_configured, configured_of_onlyLast⟩

def usbSystem : System where
  networkPath network := '/' :: 'n' :: 'e' :: 't' :: '/' :: network
  physicalPath path := '/' :: path.drop 5
  driver _ := ['u', 's', 'b']
  subdevices _ path := [.net ['q', 'm', 'i'] (path.drop 1), .port ['/', 'd', 'e', 'v', '/', 'a']]
  networkInterface path := path.drop 1
  cgmm _ := []
  retried _ _ := []
  support _ _ := none

/-- Two manual modems, of which only the second is written. -/
theorem not_configured : ¬ Configured usbSystem
    [{ Section.empty with manual := ['1'], network := ['u', '0'] },
      { Section.empty with manual := ['1'], network := ['u', '1'] }]
    (startService usbSystem 2
      (sectionsOf [{ Section.empty with manual := ['1'], network := ['u', '0'] },
        { Section.empty with manual := ['1'], network := ['u', '1'] }] 0 ['1'] none)) := by
  intro h
  have honly := onlyLast_of_configured (startService_eq _ _ _ _ ▸ h)
  exact absurd (honly 0 _ rfl rfl).1 (by decide)

end ModemSupport.Luci.ManualConfig
