import Mathlib.Algebra.GroupWithZero.Nat
import ModemSupport.Lib.Transition

/-! `create_connect.sh`, which brings a modem up: the interface that it takes down on a reconnect,
and the one that it sets up in `network`. -/

namespace ModemSupport.Rooter.CreateConnect

open Lib.Transition

inductive Modem
  | one
  | two
  deriving DecidableEq

/-- `inter` of a connection profile; 3 disables the modem. -/
abbrev Inter := Fin 4

local instance neZeroFour : NeZero 4 := ⟨by decide⟩

/-- `CURRMODEM` as the number of an interface. -/
def Modem.inter : Modem → Inter
  | .one => 1
  | .two => 2

def Modem.other : Modem → Modem
  | .one => .two
  | .two => .one

/-- The options of `modem.modem1.inter` and `modem.modem2.inter`. -/
structure State where
  inter : Modem → Option Inter

inductive NetOption
  | section
  | proto
  | ifname
  | origBridge
  | metric
  | peerdns
  | dns
  | ipaddr
  | gateway
  | ip6addr
  | device
  | currmodem

/-- `ifdown wan$INTER`, `uci delete network.wan$INTER` and `uci set` of an option of it; `INTER` may
be empty. -/
inductive Action
  | ifdown (inter : Option Inter)
  | delete (inter : Option Inter)
  | set (inter : Option Inter) (option : NetOption)

/-- A turn of the loop over `isplist`, by what it does to `network`. -/
inductive Attempt
  | plain
  | fibocom (ip ip6 : Bool)
  | mbim

/-- What a run is called with and what it finds. The profile is read for the teardown and again for
the setup, and may change in between. -/
structure Run where
  currmodem : Modem
  recon : Bool
  teardown : Option Inter
  commport : Bool
  simpin : Bool
  profile : Option Inter
  dhcp : Bool
  dns : Bool
  attempts : List Attempt

/-- The interface that is recorded, which is switched when the other modem has it. -/
def State.choose (s : State) (m : Modem) (profile : Option Inter) : Inter :=
  let inter :=
    match profile with
    | none => m.inter
    | some i => if i = 0 then m.inter else i
  if s.inter m.other = some inter then if inter = 1 then 2 else 1 else inter

def setDns (inter : Option Inter) (r : Run) : List Action :=
  if r.dns && r.dhcp then [.set inter .peerdns, .set inter .dns] else []

def dhcpSetup (inter : Option Inter) (r : Run) : List Action :=
  (if r.dhcp then
    [.delete inter, .set inter .section, .set inter .proto, .set inter .ifname,
      .set inter .origBridge, .set inter .metric]
  else []) ++ setDns inter r

def Attempt.network (inter : Option Inter) : Attempt → List Action
  | .plain => []
  | .fibocom ip ip6 =>
    [.delete inter, .set inter .section, .set inter .proto, .set inter .ifname,
      .set inter .metric] ++
    (if ip then [.set inter .ipaddr, .set inter .gateway] else []) ++
    (if ip6 then [.set inter .ip6addr] else []) ++ [.set inter .dns]
  | .mbim =>
    [.delete inter, .set inter .section, .set inter .proto, .set inter .device,
      .set inter .metric, .set inter .currmodem]

/-- The network setup is behind the test of the comm port, of the SIM and of the profile. Without it
`isplist` is empty, and the loop over it does nothing. -/
def Run.ReachesSetup (r : Run) : Prop :=
  r.commport = true ∧ r.simpin = false ∧ r.profile ≠ some 3

instance Run.decidableReachesSetup (r : Run) : Decidable r.ReachesSetup :=
  inferInstanceAs (Decidable (_ ∧ _))

def Run.down (r : Run) : List Action := if r.recon then [.ifdown r.teardown] else []

def createConnect (s : State) (r : Run) : State × List Action :=
  if r.ReachesSetup then
    let inter := s.choose r.currmodem r.profile
    (⟨Function.update s.inter r.currmodem (some inter)⟩,
      r.down ++ dhcpSetup (some inter) r ++ r.attempts.flatMap (Attempt.network (some inter)))
  else (s, r.down)

def step (s : State) (r : Run) : Option State := some (createConnect s r).1

def Action.inter : Action → Option Inter
  | .ifdown i => i
  | .delete i => i
  | .set i _ => i

/-- An interface is the one that is recorded. -/
def Names (recorded name : Option Inter) : Prop := recorded.isSome ∧ name = recorded

/-- No interface is recorded for both modems. -/
def State.Differ (s : State) : Prop := ∀ i, ¬(s.inter .one = some i ∧ s.inter .two = some i)

/-- The other modem's record is that before the run as well as that after it. -/
structure Undisturbed (s : State) (r : Run) : Prop where
  differ : r.ReachesSetup → (createConnect s r).1.Differ
  down : ∀ i, .ifdown i ∈ (createConnect s r).2 → Names (s.inter r.currmodem) i
  network : ∀ a ∈ (createConnect s r).2, (∀ i, a ≠ .ifdown i) →
    Names ((createConnect s r).1.inter r.currmodem) a.inter
  other : ∀ a ∈ (createConnect s r).2,
    ¬Names (s.inter r.currmodem.other) a.inter ∧
      ¬Names ((createConnect s r).1.inter r.currmodem.other) a.inter

/-- The profile asks, when a reconnect begins, for the interface that the modem has. -/
def Matches (s : State) (r : Run) : Prop :=
  r.recon = true → Names (s.inter r.currmodem) r.teardown

variable {s : State} {r : Run} {a : Action} {m : Modem} {i : Inter}

theorem differ_iff (m : Modem) :
    s.Differ ↔ ∀ i, s.inter m = some i → s.inter m.other ≠ some i := by
  cases m <;> simp [State.Differ, Modem.other, imp_not_comm]

theorem choose_ne (s : State) (m : Modem) (profile : Option Inter) :
    s.inter m.other ≠ some (s.choose m profile) := by
  unfold State.choose
  dsimp only
  generalize (match profile with
    | none => m.inter
    | some i => if i = 0 then m.inter else i) = inter
  split
  next h =>
    rw [h]
    -- 2 for 1, and 1 for any other
    split
    next hone => simp [hone]
    next hone => simpa using hone
  next h => exact h

def Changes (i : Inter) (a : Action) : Prop := a.inter = some i ∧ ∀ j, a ≠ .ifdown j

theorem changes_delete : Changes i (.delete (some i)) := ⟨rfl, nofun⟩

theorem changes_set {option : NetOption} : Changes i (.set (some i) option) := ⟨rfl, nofun⟩

theorem changes_of_mem_dhcpSetup : ∀ a ∈ dhcpSetup (some i) r, Changes i a := by
  unfold dhcpSetup setDns
  cases r.dhcp <;> cases r.dns <;> simp [changes_delete, changes_set]

theorem changes_of_mem_network {x : Attempt} : ∀ a ∈ x.network (some i), Changes i a := by
  cases x with
  | plain => simp [Attempt.network]
  | fibocom ip ip6 => cases ip <;> cases ip6 <;> simp [Attempt.network, changes_delete, changes_set]
  | mbim => simp [Attempt.network, changes_delete, changes_set]

theorem mem_createConnect (h : a ∈ (createConnect s r).2) :
    r.recon = true ∧ a = .ifdown r.teardown ∨
      r.ReachesSetup ∧ Changes (s.choose r.currmodem r.profile) a := by
  have hdown : a ∈ r.down → r.recon = true ∧ a = .ifdown r.teardown := by
    unfold Run.down
    cases r.recon <;> simp
  unfold createConnect at h
  by_cases hreach : r.ReachesSetup
  · rw [if_pos hreach, List.mem_append, List.mem_append] at h
    rcases h with (h | h) | h
    · exact .inl (hdown h)
    · exact .inr ⟨hreach, changes_of_mem_dhcpSetup a h⟩
    · obtain ⟨x, -, hx⟩ := List.mem_flatMap.mp h
      exact .inr ⟨hreach, changes_of_mem_network a hx⟩
  · rw [if_neg hreach] at h
    exact .inl (hdown h)

theorem ifdown_mem (h : r.recon = true) : .ifdown r.teardown ∈ (createConnect s r).2 := by
  have hdown : .ifdown r.teardown ∈ r.down := by
    rw [Run.down, if_pos h]
    exact List.mem_singleton_self _
  unfold createConnect
  split
  · exact List.mem_append_left _ (List.mem_append_left _ hdown)
  · exact hdown

theorem inter_self (h : r.ReachesSetup) :
    (createConnect s r).1.inter r.currmodem = some (s.choose r.currmodem r.profile) := by
  unfold createConnect
  rw [if_pos h]
  exact Function.update_self ..

theorem other_ne : m.other ≠ m := by
  cases m <;> decide

theorem inter_other : (createConnect s r).1.inter r.currmodem.other =
    s.inter r.currmodem.other := by
  unfold createConnect
  split
  · exact Function.update_of_ne other_ne ..
  · rfl

theorem differ_of_reachesSetup (h : r.ReachesSetup) : (createConnect s r).1.Differ := by
  refine (differ_iff r.currmodem).mpr fun i hi => ?_
  rw [inter_self h, Option.some.injEq] at hi
  rw [inter_other, ← hi]
  exact choose_ne s r.currmodem r.profile

theorem differ_createConnect (h : s.Differ) : (createConnect s r).1.Differ := by
  by_cases hreach : r.ReachesSetup
  · exact differ_of_reachesSetup hreach
  · unfold createConnect
    rw [if_neg hreach]
    exact h

theorem not_names (h : s.inter r.currmodem.other ≠ some i) {name : Option Inter}
    (hname : name = some i) : ¬Names (s.inter r.currmodem.other) name ∧
      ¬Names ((createConnect s r).1.inter r.currmodem.other) name := by
  rw [inter_other]
  have hne : ¬Names (s.inter r.currmodem.other) name := by
    rintro ⟨-, heq⟩
    exact h (heq.symm.trans hname)
  exact ⟨hne, hne⟩

theorem undisturbed_iff_matches (hs : s.Differ) : Undisturbed s r ↔ Matches s r := by
  constructor
  · intro h hrecon
    exact h.down _ (ifdown_mem hrecon)
  · intro h
    refine ⟨differ_of_reachesSetup, fun i hi => ?_, fun a ha hnot => ?_, fun a ha => ?_⟩
    · rcases mem_createConnect hi with ⟨hrecon, heq⟩ | ⟨-, hchanges⟩
      · rw [Action.ifdown.inj heq]
        exact h hrecon
      · exact absurd rfl (hchanges.2 i)
    · rcases mem_createConnect ha with ⟨-, rfl⟩ | ⟨hreach, hchanges⟩
      · exact absurd rfl (hnot _)
      · rw [inter_self hreach]
        exact ⟨rfl, hchanges.1⟩
    · rcases mem_createConnect ha with ⟨hrecon, rfl⟩ | ⟨-, hchanges⟩
      · obtain ⟨hsome, heq⟩ := h hrecon
        obtain ⟨i, hi⟩ := Option.isSome_iff_exists.mp hsome
        exact not_names ((differ_iff _).mp hs i hi) (heq.trans hi)
      · exact not_names (choose_ne s _ _) hchanges.1

/-- In every sequence of runs, each leaves the other modem's interface alone and keeps to its own
just when the profile asks on every reconnect for the interface that the modem has. -/
theorem undisturbed_iff (s : State) (hs : s.Differ) (runs : List Run) :
    (∀ x ∈ stepsOf step s runs, Undisturbed x.1 x.2) ↔
      ∀ x ∈ stepsOf step s runs, Matches x.1 x.2 := by
  induction runs generalizing s with
  | nil => exact ⟨fun _ => nofun, fun _ => nofun⟩
  | cons r runs ih =>
    simp only [stepsOf, step, List.forall_mem_cons]
    rw [undisturbed_iff_matches hs]
    exact and_congr_right fun _ => ih _ (differ_createConnect hs)

def fresh : State := ⟨fun _ => none⟩

def dhcpRun (m : Modem) (recon : Bool) (inter : Inter) : Run :=
  ⟨m, recon, some inter, true, false, some inter, true, false, [.plain]⟩

/-- The modems ask for an interface each, and both reconnect. -/
theorem undisturbed_apart :
    fresh.Differ ∧ ∀ x ∈ stepsOf step fresh [dhcpRun .one false 1, dhcpRun .two false 2,
      dhcpRun .one true 1, dhcpRun .two true 2], Undisturbed x.1 x.2 := by
  have hfresh : fresh.Differ := fun _ h => nomatch h.1
  refine ⟨hfresh, (undisturbed_iff fresh hfresh _).mpr ?_⟩
  simp only [stepsOf, step, List.forall_mem_cons]
  exact ⟨fun h => absurd h Bool.false_ne_true, fun h => absurd h Bool.false_ne_true,
    fun _ => ⟨rfl, rfl⟩, fun _ => ⟨rfl, rfl⟩, fun _ h => absurd h List.not_mem_nil⟩

/-- Both profiles ask for interface 1: the second modem gets the other one, and takes down that of
the first when it reconnects. -/
theorem not_undisturbed :
    ¬∀ x ∈ stepsOf step fresh [dhcpRun .one false 1, dhcpRun .two false 1, dhcpRun .two true 1],
      Undisturbed x.1 x.2 := by
  intro h
  simp only [stepsOf, step, List.forall_mem_cons] at h
  exact (h.2.2.1.other (.ifdown (some 1)) (ifdown_mem rfl)).1 ⟨rfl, rfl⟩

end ModemSupport.Rooter.CreateConnect
