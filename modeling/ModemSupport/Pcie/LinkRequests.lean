import ModemSupport.Pcie.LinkVotes

/-! The calls for the PCIe link on the host (`pcie_host_resource.c`): requests, releases and
rescans, between which the work queue removes and scans the device. -/

namespace ModemSupport.Pcie.LinkRequests

open Lib.Transition LinkVotes List Option

inductive Call
  | request
  | release
  | rescan
  deriving DecidableEq

/-- `sprd_pcie_request_resource`, `sprd_pcie_release_resource` and `sprd_pcie_resource_rescan`,
behind the first scan. -/
def Call.run (h : Host) : Call → Host
  | .request => h.startScan
  | .release => h.startRemove
  | .rescan => h.startRemove.startScan

/-- `sprd_pcie_resource_scan_fn` and `sprd_pcie_resource_remove_fn`: configuring the device ends
with `PCIE_EP_PROBE`, and unconfiguring it with `PCIE_EP_REMOVE`. -/
def work (h : Host) : Option Host :=
  match h.running with
  | none =>
    match h.wq with
    | [] => none
    | .scan :: wq => some { h with wq := wq, running := some .scan }
    | .remove :: wq => some { h with wq := wq, running := some .remove }
  | some .scan =>
    some { h with running := none, configured := true, state := .scanned, epDevProbe := true }
  | some .remove =>
    if h.epDevProbe then some { h with running := some .unconfigure }
    else some { h with running := none }
  | some .unconfigure => some { h with running := some .linkDown, configured := false }
  | some .linkDown => some { h with running := none, state := .removed, epDevProbe := false }

structure State where
  host : Host
  last : Option Call

def init : State := ⟨⟨.scanned, true, true, [], none, true, false⟩, none⟩

inductive Label
  | call (c : Call)
  | work

def step (s : State) : Label → Option State
  | .call c => some ⟨c.run s.host, some c⟩
  | .work => (work s.host).map fun h => ⟨h, s.last⟩

def Call.wants : Call → Work
  | .request => .scan
  | .release => .remove
  | .rescan => .scan

def Idle (h : Host) : Prop := h.running = none ∧ h.wq = []

/-- What a work leaves. -/
def target : Work → RcState
  | .scan => .scanned
  | .remove => .removed

/-- The link is as the last call asks for. -/
structure Follows (h : Host) (w : Work) : Prop where
  configured : h.configured = decide (w = .scan)
  state : h.state = target w

def Sound (s : State) : Prop := Idle s.host → ∀ c, s.last = some c → Follows s.host c.wants

/-- The work that runs and what is queued behind it. -/
def works (h : Host) : List Work :=
  match h.running with
  | none => h.wq
  | some .scan => .scan :: h.wq
  | some _ => .remove :: h.wq

/-- What a call finds: a request is not passed over while the last work is a remove, a rescan does
not leave a pending scan in front of its remove, and a release not a scan behind it. -/
def CallOk (h : Host) : Call → Prop
  | .request => h.state = .scanned ∨ .scan ∈ h.wq → (works h).getLast? ≠ some .remove
  | .release => h.state ≠ .scanned ∨ .remove ∈ h.wq → (works h).getLast? ≠ some .scan
  | .rescan => .scan ∈ h.wq →
      (works h).getLast? ≠ some .remove ∧ (h.state = .scanned → .remove ∈ h.wq)

def Ok (s : State) : Label → Prop
  | .call c => CallOk s.host c
  | .work => True

/-- The last work, or what the link is when there is none. -/
def ends (h : Host) : Option Work :=
  match (works h).getLast? with
  | some w => some w
  | none =>
    match h.state with
    | .scanned => some .scan
    | .removed => some .remove
    | .waitRemoved => none

structure Inv (h : Host) : Prop where
  probe : h.epDevProbe = decide (h.state ≠ .removed)
  configured : h.configured = (h.epDevProbe && decide (h.running ≠ some .linkDown))
  pending : h.state = .waitRemoved → .remove ∈ works h
  down : h.running = some .unconfigure ∨ h.running = some .linkDown → h.epDevProbe = true

variable {h h' : Host} {c : Call} {w : Work}

theorem ends_congr (hworks : works h' = works h) (hstate : h'.state = h.state) :
    ends h' = ends h := by
  unfold ends
  rw [hworks, hstate]

theorem ends_done (hworks : works h = w :: works h')
    (hstate : works h' = [] → h'.state = target w) : ends h' = ends h := by
  unfold ends
  rw [hworks, getLast?_cons]
  cases hrest : works h' with
  | nil =>
    rw [hstate hrest]
    cases w <;> rfl
  | cons v vs =>
    rw [getLast?_cons]
    rfl

theorem ends_of_idle (hinv : Inv h) (hidle : Idle h) : ends h = some w ↔ Follows h w := by
  have hworks : works h = [] := by
    rw [works, hidle.1]
    exact hidle.2
  have hne : h.state ≠ .waitRemoved := by
    intro hwait
    have hmem := hinv.pending hwait
    rw [hworks] at hmem
    cases hmem
  have hconf : h.configured = decide (h.state ≠ .removed) := by
    rw [hinv.configured, hinv.probe, hidle.1]
    simp
  unfold ends
  rw [hworks, getLast?_nil]
  constructor
  · intro hw
    cases hstate : h.state with
    | scanned =>
      rw [hstate] at hw hconf
      obtain rfl := some.inj hw
      exact ⟨hconf, hstate⟩
    | waitRemoved => exact absurd hstate hne
    | removed =>
      rw [hstate] at hw hconf
      obtain rfl := some.inj hw
      exact ⟨hconf, hstate⟩
  · rintro ⟨-, hstate⟩
    rw [hstate]
    cases w <;> rfl

theorem work_spec (hinv : Inv h) (hwork : work h = some h') : Inv h' ∧ ends h' = ends h := by
  obtain ⟨state, epPowerOn, epDevProbe, wq, running, configured, probed⟩ := h
  obtain ⟨hprobe, hconf, hpending, hdown⟩ := hinv
  dsimp only at hprobe hconf hpending hdown
  match running with
  | none =>
    match wq with
    | [] => cases hwork
    | .scan :: wq | .remove :: wq =>
      cases hwork
      exact ⟨⟨hprobe, by simpa using hconf, hpending, by simp⟩, ends_congr rfl rfl⟩
  | some .scan =>
    cases hwork
    exact ⟨⟨rfl, rfl, nofun, by simp⟩, ends_done (w := .scan) rfl fun _ => rfl⟩
  | some .remove =>
    cases epDevProbe with
    | true =>
      cases hwork
      exact ⟨⟨hprobe, by simpa using hconf, hpending, fun _ => rfl⟩, ends_congr rfl rfl⟩
    | false =>
      cases hwork
      -- a device that is not there has been removed
      have hremoved : state = .removed := by simpa using hprobe
      refine ⟨⟨hprobe, by simpa using hconf, ?_, by simp⟩,
        ends_done (w := .remove) rfl fun _ => hremoved⟩
      intro hwait
      rw [show state = .waitRemoved from hwait] at hremoved
      cases hremoved
  | some .unconfigure =>
    cases hwork
    exact ⟨⟨hprobe, by simp, hpending, fun _ => hdown (.inl rfl)⟩, ends_congr rfl rfl⟩
  | some .linkDown =>
    cases hwork
    refine ⟨⟨rfl, ?_, nofun, by simp⟩, ends_done (w := .remove) rfl fun _ => rfl⟩
    simpa using hconf

/-- The steps that are left until the queue has run out. -/
def left (h : Host) : Nat :=
  4 * h.wq.length + match h.running with
    | none => 0
    | some .scan => 1
    | some .remove => 3
    | some .unconfigure => 2
    | some .linkDown => 1

theorem left_work (hwork : work h = some h') : left h' < left h := by
  obtain ⟨state, epPowerOn, epDevProbe, wq, running, configured, probed⟩ := h
  match running with
  | none =>
    match wq with
    | [] => cases hwork
    | .scan :: wq | .remove :: wq =>
      cases hwork
      simp only [left, length_cons]
      omega
  | some .scan | some .unconfigure | some .linkDown =>
    cases hwork
    simp [left]
  | some .remove =>
    cases epDevProbe <;> cases hwork <;> simp [left]

theorem idle_of_work (hwork : work h = none) : Idle h := by
  obtain ⟨state, epPowerOn, epDevProbe, wq, running, configured, probed⟩ := h
  match running with
  | none =>
    match wq with
    | [] => exact ⟨rfl, rfl⟩
    | .scan :: wq | .remove :: wq => cases hwork
  | some .scan | some .unconfigure | some .linkDown => cases hwork
  | some .remove => cases epDevProbe <;> cases hwork

theorem runs_out (s : State) (hinv : Inv s.host) :
    ∃ t, Reachable step s t ∧ Inv t.host ∧ Idle t.host ∧ ends t.host = ends s.host ∧
      t.last = s.last := by
  induction hn : left s.host using Nat.strong_induction_on generalizing s with
  | _ n ih =>
    cases hwork : work s.host with
    | none => exact ⟨s, .start, hinv, idle_of_work hwork, rfl, rfl⟩
    | some h' =>
      obtain ⟨hinv', hends⟩ := work_spec hinv hwork
      have hlt := left_work hwork
      obtain ⟨t, hreach, htinv, hidle, htends, hlast⟩ :=
        ih (left h') (by omega) ⟨h', s.last⟩ hinv' rfl
      have hstep : step s .work = some ⟨h', s.last⟩ := by rw [step, hwork, map_some]
      exact ⟨t, (reachable_single hstep).trans hreach, htinv, hidle, htends.trans hends, hlast⟩

theorem works_queueWork :
    works (h.queueWork w) = if w ∈ h.wq then works h else works h ++ [w] := by
  unfold Host.queueWork
  split
  · rfl
  · obtain ⟨state, epPowerOn, epDevProbe, wq, running, configured, probed⟩ := h
    match running with
    | none | some .scan | some .remove | some .unconfigure | some .linkDown => rfl

theorem queueWork_state : (h.queueWork w).state = h.state ∧ (h.queueWork w).running = h.running ∧
    (h.queueWork w).configured = h.configured ∧ (h.queueWork w).epDevProbe = h.epDevProbe := by
  unfold Host.queueWork
  split <;> exact ⟨rfl, rfl, rfl, rfl⟩

theorem mem_queueWork : w ∈ (h.queueWork w).wq := by
  unfold Host.queueWork
  split
  next hmem => exact hmem
  next => exact mem_append_right _ (mem_singleton_self w)

theorem mem_works (hmem : w ∈ h.wq) : w ∈ works h := by
  unfold works
  split
  · exact hmem
  · exact mem_cons_of_mem _ hmem
  · exact mem_cons_of_mem _ hmem

theorem ends_queueWork (hmem : w ∉ h.wq) : ends (h.queueWork w) = some w := by
  unfold ends
  rw [works_queueWork, if_neg hmem, getLast?_concat]

theorem ends_iff {v : Work} (hv : v ≠ w) (hstate : works h = [] → h.state = target w) :
    ends h = some w ↔ (works h).getLast? ≠ some v := by
  unfold ends
  cases hlast : (works h).getLast? with
  | none =>
    rw [hstate (getLast?_eq_none_iff.mp hlast)]
    cases w <;> simp [target]
  | some u => cases u <;> cases v <;> cases w <;> simp_all

theorem inv_queueWork (hinv : Inv h) : Inv (h.queueWork w) := by
  obtain ⟨hstate, hrunning, hconf, hprobe⟩ := @queueWork_state h w
  refine ⟨?_, ?_, fun hwait => ?_, fun hdown => ?_⟩
  · rw [hprobe, hstate]
    exact hinv.probe
  · rw [hconf, hprobe, hrunning]
    exact hinv.configured
  · rw [hstate] at hwait
    rw [works_queueWork]
    split
    · exact hinv.pending hwait
    · exact mem_append_left _ (hinv.pending hwait)
  · rw [hrunning] at hdown
    rw [hprobe]
    exact hinv.down hdown

theorem inv_startScan (hinv : Inv h) : Inv h.startScan := by
  unfold Host.startScan
  split
  · exact hinv
  · exact inv_queueWork hinv

theorem inv_startRemove (hinv : Inv h) : Inv h.startRemove := by
  unfold Host.startRemove
  split
  next hscanned =>
    obtain ⟨hstate, hrunning, hconf, hprobe⟩ :=
      @queueWork_state { h with state := .waitRemoved } .remove
    have hthere : h.epDevProbe = true := by
      rw [hinv.probe, hscanned]
      rfl
    refine ⟨?_, ?_, fun _ => mem_works mem_queueWork, fun _ => ?_⟩
    · rw [hprobe, hstate]
      exact hthere
    · rw [hconf, hprobe, hrunning]
      exact hinv.configured
    · rw [hprobe]
      exact hthere
  next => exact hinv

theorem inv_run (hinv : Inv h) : Inv (c.run h) := by
  cases c with
  | request => exact inv_startScan hinv
  | release => exact inv_startRemove hinv
  | rescan => exact inv_startScan (inv_startRemove hinv)

theorem startScan_iff : ends h.startScan = some .scan ↔
    (h.state = .scanned ∨ .scan ∈ h.wq → (works h).getLast? ≠ some .remove) := by
  unfold Host.startScan
  by_cases hscanned : h.state = .scanned
  · rw [if_pos hscanned, ends_iff (v := .remove) (by decide) fun _ => hscanned]
    simp [hscanned]
  · rw [if_neg hscanned]
    by_cases hmem : .scan ∈ h.wq
    · rw [Host.queueWork, if_pos hmem, ends_iff (v := .remove) (by decide) fun hnil =>
        absurd hnil (ne_nil_of_mem (mem_works hmem))]
      simp [hmem]
    · simp [ends_queueWork hmem, hscanned, hmem]

theorem startRemove_iff (hinv : Inv h) : ends h.startRemove = some .remove ↔
    (h.state ≠ .scanned ∨ .remove ∈ h.wq → (works h).getLast? ≠ some .scan) := by
  unfold Host.startRemove
  by_cases hscanned : h.state = .scanned
  · rw [if_pos hscanned]
    by_cases hmem : .remove ∈ h.wq
    · have hends := @ends_iff { h with state := .waitRemoved } .remove .scan (by decide) fun hnil =>
        absurd hnil (ne_nil_of_mem (mem_works hmem))
      rw [Host.queueWork, if_pos hmem, hends]
      simp only [hmem, or_true, forall_const]
      rfl
    · have hends := @ends_queueWork { h with state := .waitRemoved } .remove hmem
      simp [hends, hscanned, hmem]
  · rw [if_neg hscanned, ends_iff (v := .scan) (by decide) fun hnil => ?_]
    · simp [hscanned]
    · cases hstate : h.state with
      | scanned => exact absurd hstate hscanned
      | waitRemoved =>
        have hmem := hinv.pending hstate
        rw [hnil] at hmem
        cases hmem
      | removed => rfl

theorem rescan_iff : ends h.startRemove.startScan = some .scan ↔
    (.scan ∈ h.wq → (works h).getLast? ≠ some .remove ∧
      (h.state = .scanned → .remove ∈ h.wq)) := by
  rw [startScan_iff]
  unfold Host.startRemove
  by_cases hscanned : h.state = .scanned
  · have hstate := (@queueWork_state { h with state := .waitRemoved } .remove).1
    have hworks := @works_queueWork { h with state := .waitRemoved } .remove
    rw [if_pos hscanned, hstate, hworks]
    by_cases hmem : .remove ∈ h.wq
    · rw [if_pos hmem, Host.queueWork, if_pos hmem]
      simp only [hmem, reduceCtorEq, false_or, implies_true, and_true]
      rfl
    · rw [if_neg hmem, Host.queueWork, if_neg hmem]
      simp [hscanned, hmem]
  · rw [if_neg hscanned]
    simp [hscanned]

theorem run_iff (hinv : Inv h) : ends (c.run h) = some c.wants ↔ CallOk h c := by
  cases c with
  | request => exact startScan_iff
  | release => exact startRemove_iff hinv
  | rescan => exact rescan_iff

/-- The queue comes to what the last call asks for. -/
structure Heads (s : State) : Prop where
  inv : Inv s.host
  ends : ∀ c, s.last = some c → ends s.host = some c.wants

theorem heads_init : Heads init :=
  ⟨⟨rfl, rfl, nofun, by decide⟩, nofun⟩

variable {s t : State} {l : Label}

theorem heads_step (hs : Heads s) (hok : Ok s l) (ht : step s l = some t) : Heads t := by
  cases l with
  | call c =>
    cases ht
    refine ⟨inv_run hs.inv, fun d hd => ?_⟩
    obtain rfl := some.inj hd
    exact (run_iff hs.inv).mpr hok
  | work =>
    obtain ⟨h', hwork, rfl⟩ := map_eq_some_iff.mp ht
    obtain ⟨hinv, hends⟩ := work_spec hs.inv hwork
    exact ⟨hinv, fun c hc => hends.trans (hs.ends c hc)⟩

theorem Heads.sound (hs : Heads s) : Sound s :=
  fun hidle c hc => (ends_of_idle hs.inv hidle).mp (hs.ends c hc)

/-- As long as the calls meet the condition the link follows them; behind one that does not, the
link is not as it asks for when the queue has run out. -/
theorem requests_followed (s : State) (h : Reaches step Ok init s) :
    Sound s ∧ ∀ c t, step s (.call c) = some t → ¬CallOk s.host c →
      ∃ u, Reachable step t u ∧ u.last = some c ∧ Idle u.host ∧ ¬Sound u := by
  have hs : Heads s :=
    h.invariant (P := Heads) heads_init fun _ _ _ hs hok ht => heads_step hs hok ht
  refine ⟨hs.sound, fun c t ht hok => ?_⟩
  cases ht
  obtain ⟨u, hreach, hinv, hidle, hends, hlast⟩ := runs_out ⟨c.run s.host, some c⟩ (inv_run hs.inv)
  refine ⟨u, hreach, hlast, hidle, fun hsound => hok ?_⟩
  rw [← run_iff hs.inv, ← hends]
  exact (ends_of_idle hinv hidle).mpr (hsound hidle c hlast)

instance decidableCallOk (h : Host) : (c : Call) → Decidable (CallOk h c)
  | .request => inferInstanceAs (Decidable (_ → _))
  | .release => inferInstanceAs (Decidable (_ → _))
  | .rescan => inferInstanceAs (Decidable (_ → _))

instance decidableOk (s : State) : (l : Label) → Decidable (Ok s l)
  | .call c => decidableCallOk s.host c
  | .work => inferInstanceAs (Decidable True)

/-- A release and a request, and the link is there again; a release that comes while the scan is
queued is lost. -/
theorem requests_followed_scan : ∃ s, Reaches step Ok init s ∧ .scan ∈ s.host.wq ∧
    ∃ u, Reachable step ⟨Call.run s.host .release, some .release⟩ u ∧ ¬Sound u := by
  have hrun : (run (guarded step Ok) init [.call .release, .call .request]).any (fun s => decide
      (.scan ∈ s.host.wq ∧ ¬CallOk s.host .release)) = true := by
    decide
  obtain ⟨s, hreaches, hmem, hok⟩ := exists_of_run _ hrun
  obtain ⟨u, hreach, -, -, hnot⟩ := (requests_followed s hreaches).2 .release _ rfl hok
  exact ⟨s, hreaches, hmem, u, hreach, hnot⟩

/-- A release, a request and a release before the queue runs: the device is scanned. -/
theorem not_requests_followed : ¬∀ s, Reachable step init s → Sound s := by
  intro hall
  have hrun : (run (guarded step fun _ _ => True) init
      [.call .release, .call .request, .call .release, .work, .work, .work, .work, .work,
        .work]).any (fun s => decide (s.host.running = none ∧ s.host.wq = [] ∧
          s.last = some .release ∧ s.host.state = .scanned)) = true := by
    decide
  obtain ⟨s, hreaches, hrunning, hwq, hlast, hstate⟩ := exists_of_run _ hrun
  have hfollows := (hall s hreaches ⟨hrunning, hwq⟩ .release hlast).state
  rw [hstate] at hfollows
  cases hfollows

end ModemSupport.Pcie.LinkRequests
