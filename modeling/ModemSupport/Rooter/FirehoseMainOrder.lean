import ModemSupport.Rooter.FirehoseMain

/-! The commands of the table go out in the order of the passes, each when the one before it has
been answered with `ACK`. -/

namespace ModemSupport.Rooter.FirehoseMain

open Firehose List

variable {α β : Type}

def Event.isSent : Event → Bool
  | .sent _ => true
  | _ => false

/-- The commands of a trace, each with what has been seen behind it. -/
def exchanges : List Event → List (Sent × List Event)
  | [] => []
  | .sent c :: evs => (c, evs.takeWhile fun ev => !ev.isSent) :: exchanges evs
  | _ :: evs => exchanges evs

/-- The answers to a command of the table are there and are `ACK`, those to a program before and
behind its image. -/
def Answers : Sent → List Event → Prop
  | .erase _ _, evs | .vendor _, evs | .patch _, evs => ∃ r, evs = [.got r] ∧ r.value = some .ack
  | .program _ _, evs => ∃ r r', evs = [.got r, .image, .got r'] ∧ r.value = some .ack ∧
      r'.value = some .ack
  | _, _ => True

def events (p : Sent × List Event) : List Event := .sent p.1 :: p.2

theorem exchanges_quiet {evs rest : List Event} (h : ∀ ev ∈ evs, ev.isSent = false) :
    exchanges (evs ++ rest) = exchanges rest := by
  induction evs with
  | nil => rfl
  | cons ev evs ih =>
    have hev := h ev mem_cons_self
    have hrest := ih fun ev' hev' => h ev' (mem_cons_of_mem _ hev')
    cases ev with
    | sent c => cases hev
    | got r => exact hrest
    | image => exact hrest

theorem exchanges_flatMap {xs : List (Sent × List Event)}
    (h : ∀ p ∈ xs, ∀ ev ∈ p.2, ev.isSent = false) : exchanges (xs.flatMap events) = xs := by
  induction xs with
  | nil => rfl
  | cons p xs ih =>
    have hp := h p mem_cons_self
    have htake : (p.2 ++ xs.flatMap events).takeWhile (fun ev => !ev.isSent) = p.2 := by
      rw [takeWhile_append_of_pos fun ev hev => by simp [hp ev hev]]
      cases xs with
      | nil => simp
      | cons q xs => simp [events, Event.isSent]
    rw [flatMap_cons, events, cons_append, exchanges, htake, exchanges_quiet hp,
      ih fun q hq => h q (mem_cons_of_mem _ hq)]

/-- A part of the program sends commands, each after the answers to the one before, and when it goes
on it has sent all of them and has a value. -/
def Logs (m : M α) (w : Wire) (cs : List Sent) (v : α) : Prop :=
  ∃ xs : List (Sent × List Event), (m w).2.trace = w.trace ++ xs.flatMap events ∧
    (∀ p ∈ xs, ∀ ev ∈ p.2, ev.isSent = false) ∧ xs.map Prod.fst <+: cs ∧
    (∀ p ∈ xs.dropLast, Answers p.1 p.2) ∧
    ∀ a, (m w).1 = some a → a = v ∧ xs.map Prod.fst = cs ∧ ∀ p ∈ xs, Answers p.1 p.2

section Rules

variable {m : M α} {f : α → M β} {w : Wire} {cs cs' : List Sent} {v : α} {u : β}

theorem logs_pure : Logs (pure v : M α) w [] v :=
  ⟨[], by simp [pure], by simp, prefix_rfl, by simp, fun a ha =>
    ⟨(Option.some.inj ha).symm, rfl, by simp⟩⟩

theorem logs_errorReturn : Logs (errorReturn : M α) w cs v :=
  ⟨[], by simp [errorReturn], by simp, nil_prefix, by simp, fun a ha => by cases ha⟩

theorem Logs.bind (hm : Logs m w cs v) (hf : ∀ w, Logs (f v) w cs' u) :
    Logs (m >>= f) w (cs ++ cs') u := by
  obtain ⟨xs, htrace, hquiet, hsent, hanswered, hdone⟩ := hm
  change Logs (M.bind m f) w (cs ++ cs') u
  cases hrun : m w with
  | mk o w' =>
    rw [hrun] at htrace hdone
    cases o with
    | none =>
      refine ⟨xs, ?_, hquiet, hsent.trans (prefix_append ..), hanswered, ?_⟩
      · simpa [M.bind, hrun] using htrace
      · intro a ha
        simp [M.bind, hrun] at ha
    | some a =>
      obtain ⟨rfl, hall, hacks⟩ := hdone a rfl
      obtain ⟨ys, htrace', hquiet', hsent', hanswered', hdone'⟩ := hf w'
      have hbind : M.bind m f w = f a w' := by simp [M.bind, hrun]
      refine ⟨xs ++ ys, ?_, ?_, ?_, ?_, ?_⟩
      · rw [hbind, htrace', htrace, flatMap_append, append_assoc]
      · intro p hp
        rcases mem_append.mp hp with hp | hp
        · exact hquiet p hp
        · exact hquiet' p hp
      · rw [map_append, hall]
        exact (prefix_append_right_inj cs).mpr hsent'
      · intro p hp
        cases ys with
        | nil =>
          rw [append_nil] at hp
          exact hacks p (mem_of_mem_dropLast hp)
        | cons q ys =>
          rw [dropLast_append_of_ne_nil (cons_ne_nil q ys)] at hp
          rcases mem_append.mp hp with hp | hp
          · exact hacks p hp
          · exact hanswered' p hp
      · intro b hb
        rw [hbind] at hb
        obtain ⟨rfl, hall', hacks'⟩ := hdone' b hb
        refine ⟨rfl, by rw [map_append, hall, hall'], ?_⟩
        intro p hp
        rcases mem_append.mp hp with hp | hp
        · exact hacks p hp
        · exact hacks' p hp

/-- A part of the program that sends nothing; when it goes on, what has been seen in it. -/
def Waits (m : M α) (P : List Event → α → Prop) : Prop := ∀ w, ∃ evs,
  (m w).2.trace = w.trace ++ evs ∧ (∀ ev ∈ evs, ev.isSent = false) ∧
    ∀ a, (m w).1 = some a → P evs a

theorem waits_wait : Waits wait fun evs r => evs = [.got r] := by
  intro w
  rcases hanswers : w.answers with _ | ⟨_ | r, as⟩
  · exact ⟨[], by simp [wait, hanswers], by simp, by simp [wait, hanswers]⟩
  · exact ⟨[], by simp [wait, hanswers], by simp, by simp [wait, hanswers]⟩
  · exact ⟨[.got r], by simp [wait, hanswers], by simp [Event.isSent], by simp [wait, hanswers]⟩

theorem waits_sendImage : Waits sendImage fun evs _ => evs = [.image] := by
  intro w
  rcases himages : w.images with _ | ⟨_ | _, is⟩
  · exact ⟨[], by simp [sendImage, himages], by simp, by simp [sendImage, himages]⟩
  · exact ⟨[], by simp [sendImage, himages], by simp, by simp [sendImage, himages]⟩
  · exact ⟨[.image], by simp [sendImage, himages], by simp [Event.isSent], by simp⟩

theorem waits_require {b : Bool} : Waits (require b) fun evs _ => evs = [] ∧ b := by
  intro w
  cases b
  · exact ⟨[], by simp [require, errorReturn], by simp, by simp [require, errorReturn]⟩
  · exact ⟨[], by simp [require, pure], by simp, by simp⟩

theorem Waits.bind {P : List Event → α → Prop} {Q : α → List Event → β → Prop}
    (hm : Waits m P) (hf : ∀ a, Waits (f a) (Q a)) :
    Waits (m >>= f) fun evs b => ∃ a e₁ e₂, evs = e₁ ++ e₂ ∧ P e₁ a ∧ Q a e₂ b := by
  intro w
  obtain ⟨e₁, htrace, hquiet, hdone⟩ := hm w
  change ∃ evs, (M.bind m f w).2.trace = _ ∧ _ ∧ ∀ a, (M.bind m f w).1 = _ → _
  cases hrun : m w with
  | mk o w' =>
    rw [hrun] at htrace hdone
    cases o with
    | none =>
      refine ⟨e₁, by simpa [M.bind, hrun] using htrace, hquiet, fun a ha => ?_⟩
      simp [M.bind, hrun] at ha
    | some a =>
      have hbind : M.bind m f w = f a w' := by simp [M.bind, hrun]
      obtain ⟨e₂, htrace', hquiet', hdone'⟩ := hf a w'
      refine ⟨e₁ ++ e₂, by rw [hbind, htrace', htrace, append_assoc], ?_, fun b hb => ?_⟩
      · intro ev hev
        rcases mem_append.mp hev with hev | hev
        · exact hquiet ev hev
        · exact hquiet' ev hev
      · rw [hbind] at hb
        exact ⟨a, e₁, e₂, rfl, hdone a rfl, hdone' b hb⟩

theorem Waits.logs {c : Sent} {m : M Unit} {P : List Event → Unit → Prop} (hm : Waits m P)
    (hanswers : ∀ evs a, P evs a → Answers c evs) : Logs (send c >>= fun _ => m) w [c] () := by
  obtain ⟨evs, htrace, hquiet, hdone⟩ := hm { w with trace := w.trace ++ [.sent c] }
  refine ⟨[(c, evs)], ?_, by simpa using hquiet, prefix_rfl, by simp, fun a ha => ?_⟩
  · exact htrace.trans (by simp [events])
  · exact ⟨rfl, rfl, by simpa using hanswers evs a (hdone a ha)⟩

theorem bind_assoc {γ : Type} {g : β → M γ} :
    (m >>= f) >>= g = m >>= fun a => f a >>= g := by
  funext w
  change M.bind (M.bind m f) g w = M.bind m (fun a => M.bind (f a) g) w
  simp only [M.bind]
  cases m w with
  | mk o w' => cases o <;> rfl

end Rules

section Commands

variable {w : Wire} {c : Sent} {x start : Nat} {cs : List Cmd} {n : Nat}

theorem logs_simple (hc : ∀ r : Response, r.value = some .ack → Answers c [.got r]) :
    Logs (simple c) w [c] () := by
  refine (waits_wait.bind fun r => waits_require).logs ?_
  rintro evs - ⟨r, -, -, rfl, rfl, rfl, hack⟩
  exact hc r (by simpa using hack)

theorem logs_withImage (hc : ∀ r r' : Response, r.value = some .ack → r'.value = some .ack →
    Answers c [.got r, .image, .got r']) : Logs (withImage c) w [c] () := by
  refine (waits_wait.bind fun r => waits_require.bind fun _ => waits_require.bind fun _ =>
    waits_sendImage.bind fun _ => waits_wait.bind fun r' => waits_require.bind fun _ =>
      waits_require).logs ?_
  rintro evs - ⟨r, -, -, rfl, rfl, -, -, -, rfl, ⟨rfl, hack⟩, -, -, -, rfl, ⟨rfl, -⟩, -, -, -, rfl,
    rfl, r', -, -, rfl, rfl, -, -, -, rfl, ⟨rfl, hack'⟩, rfl, -⟩
  exact hc r r' (by simpa using hack) (by simpa using hack')

theorem exists_logs_send_wait (hc : ∀ evs, Answers c evs) :
    ∃ r, Logs (send c >>= fun _ => wait) w [c] r := by
  obtain ⟨evs, htrace, hquiet, hdone⟩ := waits_wait { w with trace := w.trace ++ [.sent c] }
  refine ⟨((wait { w with trace := w.trace ++ [.sent c] }).1).getD ⟨none, false, 0⟩,
    [(c, evs)], ?_, by simpa using hquiet, prefix_rfl, by simp, fun r hr => ?_⟩
  · exact htrace.trans (by simp [events])
  · have hr' : (wait { w with trace := w.trace ++ [.sent c] }).1 = some r := hr
    rw [hr']
    exact ⟨rfl, rfl, by simpa using hc evs⟩

theorem exists_logs_fhSendCfgCmd :
    ∃ cs, (∀ c ∈ cs, c = .configure) ∧ Logs fhSendCfgCmd w cs () := by
  have hcfg : fhSendCfgCmd = (send .configure >>= fun _ => wait) >>= fun r =>
      if r.value = some .nak ∧ r.maxPayload ≠ 0 then
        send .configure >>= fun _ => wait >>= fun r => require (r.value = some .ack)
      else require (r.value = some .ack) := by
    rw [bind_assoc]
    rfl
  obtain ⟨r, hr⟩ := exists_logs_send_wait (w := w) (c := .configure) fun _ => trivial
  rw [hcfg]
  by_cases hnak : r.value = some .nak ∧ r.maxPayload ≠ 0
  · refine ⟨[.configure] ++ [.configure], by simp, hr.bind fun w => ?_⟩
    rw [if_pos hnak]
    exact (waits_wait.bind fun r => waits_require).logs fun _ _ _ => trivial
  · refine ⟨[.configure] ++ [], by simp, hr.bind fun w => ?_⟩
    rw [if_neg hnak]
    unfold require
    split
    · exact logs_pure
    · exact logs_errorReturn

def scan (f : Nat → Cmd → List Sent) : Nat → List Cmd → List Sent
  | _, [] => []
  | x, c :: cs => f x c ++ scan f (x + 1) cs

theorem logs_forEach {f : Nat → Cmd → M Unit} {g : Nat → Cmd → List Sent}
    (h : ∀ x c w, Logs (f x c) w (g x c) ()) : Logs (forEach f n cs) w (scan g n cs) () := by
  induction cs generalizing n w with
  | nil => exact logs_pure
  | cons c cs ih => exact (h n c w).bind fun w => ih

def sparseStarts : Nat → List (Nat × Nat) → List Nat
  | _, [] => []
  | start, [_] => [start]
  | start, (n, holes) :: run :: runs =>
    start :: sparseStarts ((start + (n + holes * 8 % 2 ^ 32)) % 2 ^ 32) (run :: runs)

def Program.starts (p : Program) : List Nat :=
  match p.runs with
  | none => [p.startSector]
  | some runs => sparseStarts p.startSector runs

def Program.sent (p : Program) : Program :=
  match p.runs with
  | none => p
  | some runs => { p with startSector := (sparseStarts p.startSector runs).getLastD p.startSector }

theorem logs_program : Logs (withImage (.program x start)) w [.program x start] () :=
  logs_withImage fun r r' hr hr' => ⟨r, r', rfl, hr, hr'⟩

theorem sparseStarts_ne_nil {run : Nat × Nat} {runs : List (Nat × Nat)} :
    sparseStarts start (run :: runs) ≠ [] := by
  cases runs <;> simp [sparseStarts]

theorem logs_sparseLoop {runs : List (Nat × Nat)} :
    Logs (sparseLoop x start runs) w ((sparseStarts start runs).map (.program x))
      ((sparseStarts start runs).getLastD start) := by
  induction runs generalizing start w with
  | nil => exact logs_pure
  | cons run runs ih =>
    cases runs with
    | nil => exact logs_program.bind fun w => logs_pure
    | cons run' runs =>
      obtain ⟨n, holes⟩ := run
      have hlast : ∀ d d' : Nat, ∀ {l : List Nat}, l ≠ [] → l.getLastD d = l.getLastD d' := by
        intro d d' l hl
        rw [List.getLastD_eq_getLast?, List.getLastD_eq_getLast?, getLast?_eq_some_getLast hl]
        rfl
      rw [sparseStarts, map_cons, getLastD_cons, hlast start _ sparseStarts_ne_nil]
      exact logs_program.bind fun w => ih

theorem logs_fhProcessProgram {p : Program} :
    Logs (fhProcessProgram x p) w (p.starts.map (.program x)) p.sent := by
  unfold fhProcessProgram Program.starts Program.sent
  cases p.runs with
  | none => exact logs_program.bind fun w => logs_pure
  | some runs =>
    rw [← append_nil ((sparseStarts p.startSector runs).map _)]
    exact logs_sparseLoop.bind fun w => logs_pure

def programSents (skip : Program → Bool) (x : Nat) : Cmd → List Sent
  | .program p => if skip p then [] else p.starts.map (.program x)
  | _ => []

def programAfter (skip : Program → Bool) : Cmd → Cmd
  | .program p => .program (if skip p then p else p.sent)
  | c => c

theorem logs_programs {skip : Program → Bool} :
    Logs (programs skip n cs) w (scan (programSents skip) n cs) (cs.map (programAfter skip)) := by
  induction cs generalizing n w with
  | nil => exact logs_pure
  | cons c cs ih =>
    have hrest : ∀ {c : Cmd} {w : Wire},
        Logs (programs skip (n + 1) cs >>= fun cs => pure (c :: cs)) w
        (scan (programSents skip) (n + 1) cs) (c :: cs.map (programAfter skip)) := by
      intro c w
      rw [← append_nil (scan _ _ _)]
      exact ih.bind fun w => logs_pure
    cases c with
    | program p =>
      rw [programs, scan, map_cons, programSents, programAfter]
      by_cases hskip : skip p
      · rw [if_pos hskip, if_pos hskip, if_pos hskip]
        exact hrest
      · rw [if_neg hskip, if_neg hskip, if_neg hskip]
        exact logs_fhProcessProgram.bind fun w => hrest
    | erase e => exact hrest
    | patch => exact hrest
    | vendor => exact hrest

def eraseFirstSents (eraseAll : Bool) (sectors x : Nat) : Cmd → List Sent
  | .erase e =>
    if e.startSector.getD 0 ≠ 0 then [] else [.erase x (if eraseAll then e.all sectors else e)]
  | _ => []

def eraseRestSents (nand : Bool) (x : Nat) : Cmd → List Sent
  | .erase e =>
    if e.sectorSizeInBytes.getD 0 = 0 then []
    else if nand ∧ e.startSector.getD 0 = 0 then []
    else [.erase x e]
  | _ => []

def vendorSents (x : Nat) : Cmd → List Sent
  | .vendor => [.vendor x]
  | _ => []

def patchSents (x : Nat) : Cmd → List Sent
  | .patch => [.patch x]
  | _ => []

theorem logs_eraseFirst {eraseAll : Bool} {sectors : Nat} :
    Logs (forEach (eraseFirst eraseAll sectors) n cs) w
      (scan (eraseFirstSents eraseAll sectors) n cs) () := by
  refine logs_forEach fun x c w => ?_
  cases c with
  | erase e =>
    rw [eraseFirst, eraseFirstSents]
    by_cases hstart : e.startSector.getD 0 ≠ 0
    · rw [if_pos hstart, if_pos hstart]
      exact logs_pure
    · rw [if_neg hstart, if_neg hstart]
      exact logs_simple fun r hr => ⟨r, rfl, hr⟩
  | _ => exact logs_pure

theorem logs_eraseRest {nand : Bool} :
    Logs (forEach (eraseRest nand) n cs) w (scan (eraseRestSents nand) n cs) () := by
  refine logs_forEach fun x c w => ?_
  cases c with
  | erase e =>
    rw [eraseRest, eraseRestSents]
    by_cases hsize : e.sectorSizeInBytes.getD 0 = 0
    · rw [if_pos hsize, if_pos hsize]
      exact logs_pure
    · rw [if_neg hsize, if_neg hsize]
      by_cases hfirst : nand ∧ e.startSector.getD 0 = 0
      · rw [if_pos hfirst, if_pos hfirst]
        exact logs_pure
      · rw [if_neg hfirst, if_neg hfirst]
        exact logs_simple fun r hr => ⟨r, rfl, hr⟩
  | _ => exact logs_pure

theorem logs_vendor : Logs (forEach vendor n cs) w (scan vendorSents n cs) () := by
  refine logs_forEach fun x c w => ?_
  cases c with
  | vendor => exact logs_simple fun r hr => ⟨r, rfl, hr⟩
  | _ => exact logs_pure

theorem logs_patch : Logs (forEach patch n cs) w (scan patchSents n cs) () := by
  refine logs_forEach fun x c w => ?_
  cases c with
  | patch => exact logs_simple fun r hr => ⟨r, rfl, hr⟩
  | _ => exact logs_pure

end Commands

def beforePrograms (eraseAll nand : Bool) (table : List Cmd) : List Sent :=
  (if nand || eraseAll then
    scan (eraseFirstSents eraseAll (maxNumPartitionSectors table)) 0 table else []) ++
  (scan vendorSents 0 table ++ if !eraseAll then scan (eraseRestSents nand) 0 table else [])

def skipFirst (nand : Bool) (p : Program) : Bool := nand && p.startSector == 0

def skipRest (p : Program) : Bool := p.startSector != 0

def lastPrograms (nand : Bool) (table : List Cmd) : List Sent :=
  if nand then scan (programSents skipRest) 0 (table.map (programAfter (skipFirst nand))) else []

def finish (nand : Bool) : List Sent :=
  (if !nand then [.setbootablestoragedrive] else []) ++ [.reset]

theorem logs_when {b : Bool} {m : M Unit} {w : Wire} {cs : List Sent}
    (h : ∀ w, Logs m w cs ()) : Logs (M.when b m) w (if b then cs else []) () := by
  cases b
  · exact logs_pure
  · exact h w

theorem logs_send_wait {c : Sent} {w : Wire} (hc : ∀ evs, Answers c evs) :
    Logs (send c >>= fun _ => wait >>= fun _ => pure ()) w [c] () := by
  obtain ⟨r, hr⟩ := exists_logs_send_wait (w := w) hc
  rw [← bind_assoc]
  exact hr.bind fun w => logs_pure

theorem Logs.pure_unit {m : M α} {v : α} {w : Wire} {cs : List Sent} (h : Logs m w cs v) :
    Logs (m >>= fun _ => pure ()) w cs () := by
  rw [← append_nil cs]
  exact h.bind fun w => logs_pure

theorem exists_logs_firehoseMain (eraseAll : Bool) (deviceType : Str) (table : List Cmd)
    (w : Wire) :
    ∃ cs, (∀ c ∈ cs, c = .configure) ∧
      Logs (firehoseMain eraseAll deviceType table) w
        (cs ++ (beforePrograms eraseAll (deviceType = "nand".toList) table ++
          (scan (programSents (skipFirst (deviceType = "nand".toList))) 0 table ++
            (lastPrograms (deviceType = "nand".toList) table ++
              (scan patchSents 0 table ++ finish (deviceType = "nand".toList)))))) () := by
  unfold firehoseMain
  cases hfixed : table.all Cmd.fixed
  · exact ⟨[], by simp, logs_errorReturn⟩
  · have hcfg := exists_logs_fhSendCfgCmd (w := w)
    obtain ⟨cs, hcs, hlogs⟩ := hcfg
    refine ⟨cs, hcs, ?_⟩
    rw [beforePrograms, finish]
    simp only [append_assoc]
    refine hlogs.bind fun w => ?_
    refine (logs_when fun w => logs_eraseFirst).bind fun w => ?_
    refine logs_vendor.bind fun w => ?_
    refine (logs_when fun w => logs_eraseRest).bind fun w => ?_
    refine logs_programs.bind fun w => ?_
    refine (logs_when fun w => logs_programs.pure_unit).bind fun w => ?_
    refine logs_patch.bind fun w => ?_
    refine (logs_when fun w => logs_send_wait (c := .setbootablestoragedrive) fun _ =>
      trivial).bind fun w => ?_
    exact logs_send_wait (c := .reset) fun _ => trivial

def Sent.entry : Sent → Option Nat
  | .erase x _ | .vendor x | .program x _ | .patch x => some x
  | _ => none

def sentFor (x : Nat) (cs : List Sent) : List Sent := cs.filter fun c => c.entry = some x

theorem sentFor_append {x : Nat} {cs ds : List Sent} :
    sentFor x (cs ++ ds) = sentFor x cs ++ sentFor x ds := filter_append ..

theorem sentFor_prefix {x : Nat} {cs ds : List Sent} (h : cs <+: ds) :
    sentFor x cs <+: sentFor x ds := h.filter _

def Indexed (f : Nat → Cmd → List Sent) : Prop := ∀ x c, ∀ s ∈ f x c, s.entry = some x

section Scan

variable {f : Nat → Cmd → List Sent} {n i x : Nat} {cs : List Cmd} {c : Cmd} {s : Sent}

theorem sentFor_indexed (hf : Indexed f) : sentFor x (f x c) = f x c := by
  rw [sentFor, filter_eq_self]
  intro s hs
  simpa using hf x c s hs

theorem sentFor_other (hf : Indexed f) (hne : n ≠ x) : sentFor x (f n c) = [] := by
  rw [sentFor, filter_eq_nil_iff]
  intro s hs
  rw [hf n c s hs]
  simpa using hne

theorem sentFor_scan_of_lt (hf : Indexed f) (hlt : x < n) : sentFor x (scan f n cs) = [] := by
  induction cs generalizing n with
  | nil => rfl
  | cons c cs ih =>
    rw [scan, sentFor_append, sentFor_other hf (by omega), ih (by omega), nil_append]

theorem sentFor_scan (hf : Indexed f) (h : cs[i]? = some c) :
    sentFor (n + i) (scan f n cs) = f (n + i) c := by
  induction cs generalizing n i with
  | nil => simp at h
  | cons c' cs ih =>
    rw [scan, sentFor_append]
    cases i with
    | zero =>
      cases h
      rw [Nat.add_zero, sentFor_indexed hf, sentFor_scan_of_lt hf (Nat.lt_succ_self n),
        append_nil]
    | succ i =>
      have hi : n + (i + 1) = n + 1 + i := by omega
      rw [hi, sentFor_other hf (by omega), nil_append]
      exact ih h

theorem sentFor_scan_zero (hf : Indexed f) (h : cs[x]? = some c) :
    sentFor x (scan f 0 cs) = f x c := by
  have hscan := sentFor_scan (n := 0) hf h
  rwa [Nat.zero_add] at hscan

end Scan

theorem indexed_eraseFirst {eraseAll : Bool} {sectors : Nat} :
    Indexed (eraseFirstSents eraseAll sectors) := by
  intro x c s hs
  cases c with
  | erase e =>
    rw [eraseFirstSents] at hs
    split at hs
    · cases hs
    · rw [mem_singleton.mp hs]
      rfl
  | _ => cases hs

theorem indexed_eraseRest {nand : Bool} : Indexed (eraseRestSents nand) := by
  intro x c s hs
  cases c with
  | erase e =>
    rw [eraseRestSents] at hs
    split at hs
    · cases hs
    · split at hs
      · cases hs
      · rw [mem_singleton.mp hs]
        rfl
  | _ => cases hs

theorem indexed_vendor : Indexed vendorSents := by
  intro x c s hs
  cases c with
  | vendor =>
    rw [mem_singleton.mp hs]
    rfl
  | _ => cases hs

theorem indexed_patch : Indexed patchSents := by
  intro x c s hs
  cases c with
  | patch =>
    rw [mem_singleton.mp hs]
    rfl
  | _ => cases hs

theorem indexed_program {skip : Program → Bool} : Indexed (programSents skip) := by
  intro x c s hs
  cases c with
  | program p =>
    rw [programSents] at hs
    split at hs
    · cases hs
    · obtain ⟨start, -, rfl⟩ := List.mem_map.mp hs
      rfl
  | _ => cases hs

/-- What the table asks to be sent for an entry.  When all is erased it is by the commands with
start sector zero; else a command without a sector size is left out, unless it is one of the first
ones on nand. -/
def due (eraseAll nand : Bool) (sectors x : Nat) : Cmd → List Sent
  | .erase e =>
    if eraseAll then
      if e.startSector.getD 0 = 0 then [.erase x (e.all sectors)] else []
    else if nand ∧ e.startSector.getD 0 = 0 then [.erase x e]
    else if e.sectorSizeInBytes.getD 0 = 0 then []
    else [.erase x e]
  | .program p => p.starts.map (.program x)
  | .patch => [.patch x]
  | .vendor => [.vendor x]

/-- A sparse program whose start sector comes to be zero is sent once more. -/
def again (nand : Bool) (x : Nat) (p : Program) : List Sent :=
  if nand ∧ p.startSector ≠ 0 ∧ p.sent.startSector = 0 then p.sent.starts.map (.program x) else []

/-- An entry that no pass sends for a second time. -/
def Settled (nand : Bool) : Cmd → Prop
  | .program p => nand → p.startSector ≠ 0 → p.sent.startSector ≠ 0
  | _ => True

section Order

variable {eraseAll nand : Bool} {table : List Cmd} {x : Nat} {c : Cmd} {p : Program} {e : Erase}
  {cs : List Sent}

theorem sentFor_configure (h : ∀ c ∈ cs, c = .configure) : sentFor x cs = [] := by
  rw [sentFor, filter_eq_nil_iff]
  intro c hc
  rw [h c hc]
  simp [Sent.entry]

theorem sentFor_finish : sentFor x (finish nand) = [] := by
  cases nand <;> rfl

theorem sentFor_beforePrograms (h : table[x]? = some c) :
    sentFor x (beforePrograms eraseAll nand table) =
      (if nand || eraseAll then eraseFirstSents eraseAll (maxNumPartitionSectors table) x c
        else []) ++
        (vendorSents x c ++ if !eraseAll then eraseRestSents nand x c else []) := by
  unfold beforePrograms
  rw [sentFor_append, sentFor_append, sentFor_scan_zero indexed_vendor h]
  congr 1
  · split
    · exact sentFor_scan_zero indexed_eraseFirst h
    · rfl
  · congr 1
    split
    · exact sentFor_scan_zero indexed_eraseRest h
    · rfl

theorem sentFor_before_erase (h : table[x]? = some (.erase e)) :
    sentFor x (beforePrograms eraseAll nand table) =
      due eraseAll nand (maxNumPartitionSectors table) x (.erase e) := by
  rw [sentFor_beforePrograms h]
  by_cases hstart : e.startSector.getD 0 = 0 <;> by_cases hsize : e.sectorSizeInBytes.getD 0 = 0 <;>
    cases eraseAll <;> cases nand <;>
    simp [eraseFirstSents, vendorSents, eraseRestSents, due, hstart, hsize]

theorem sentFor_before_program (h : table[x]? = some (.program p)) :
    sentFor x (beforePrograms eraseAll nand table) = [] := by
  rw [sentFor_beforePrograms h]
  cases eraseAll <;> cases nand <;> rfl

theorem sentFor_programs (h : table[x]? = some (.program p)) :
    sentFor x (scan (programSents (skipFirst nand)) 0 table) =
      if skipFirst nand p then [] else p.starts.map (.program x) := by
  rw [sentFor_scan_zero indexed_program h]
  rfl

theorem sentFor_lastPrograms (h : table[x]? = some (.program p)) :
    sentFor x (lastPrograms nand table) =
      if skipFirst nand p then p.starts.map (.program x) else again nand x p := by
  have hafter : (table.map (programAfter (skipFirst nand)))[x]? =
      some (.program (if skipFirst nand p then p else p.sent)) := by
    rw [List.getElem?_map, h]
    rfl
  unfold lastPrograms
  cases nand
  · simp [skipFirst, again, sentFor]
  · rw [if_pos rfl, sentFor_scan_zero indexed_program hafter]
    by_cases hstart : p.startSector = 0
    · simp [programSents, skipFirst, skipRest, hstart]
    · by_cases hsent : p.sent.startSector = 0
      · simp [programSents, skipFirst, skipRest, hstart, hsent, again]
      · simp [programSents, skipFirst, skipRest, hstart, hsent, again]

theorem sentFor_lastPrograms_other (h : table[x]? = some c) (hc : ∀ p, c ≠ .program p) :
    sentFor x (lastPrograms nand table) = [] := by
  have hafter : (table.map (programAfter (skipFirst nand)))[x]? = some c := by
    rw [List.getElem?_map, h]
    cases c with
    | program p => exact absurd rfl (hc p)
    | _ => rfl
  unfold lastPrograms
  split
  · rw [sentFor_scan_zero indexed_program hafter]
    cases c with
    | program p => exact absurd rfl (hc p)
    | _ => rfl
  · rfl

def script (eraseAll nand : Bool) (table : List Cmd) (cs : List Sent) : List Sent :=
  cs ++ (beforePrograms eraseAll nand table ++ (scan (programSents (skipFirst nand)) 0 table ++
    (lastPrograms nand table ++ (scan patchSents 0 table ++ finish nand))))

theorem sentFor_script (hcs : ∀ c ∈ cs, c = .configure) (h : table[x]? = some c) :
    sentFor x (script eraseAll nand table cs) =
      sentFor x (beforePrograms eraseAll nand table) ++
        (programSents (skipFirst nand) x c ++
          (sentFor x (lastPrograms nand table) ++ patchSents x c)) := by
  rw [script, sentFor_append, sentFor_append, sentFor_append, sentFor_append, sentFor_append,
    sentFor_configure hcs, sentFor_finish, sentFor_scan_zero indexed_program h,
    sentFor_scan_zero indexed_patch h]
  simp

/-- For each entry all that is due is sent, and once unless its start sector comes to be zero. -/
theorem exists_sentFor_script (eraseAll nand : Bool) (hcs : ∀ c ∈ cs, c = .configure)
    (h : table[x]? = some c) :
    ∃ more, sentFor x (script eraseAll nand table cs) =
        due eraseAll nand (maxNumPartitionSectors table) x c ++ more ∧
      (Settled nand c → more = []) := by
  rw [sentFor_script hcs h]
  cases c with
  | erase e =>
    refine ⟨[], ?_, fun _ => rfl⟩
    rw [sentFor_before_erase h, sentFor_lastPrograms_other h (by simp)]
    rfl
  | patch =>
    refine ⟨[], ?_, fun _ => rfl⟩
    rw [sentFor_beforePrograms h, sentFor_lastPrograms_other h (by simp)]
    cases eraseAll <;> cases nand <;> rfl
  | vendor =>
    refine ⟨[], ?_, fun _ => rfl⟩
    rw [sentFor_beforePrograms h, sentFor_lastPrograms_other h (by simp)]
    cases eraseAll <;> cases nand <;> rfl
  | program p =>
    refine ⟨again nand x p, ?_, fun hsettled => ?_⟩
    · have hpatch : patchSents x (.program p) = [] := rfl
      rw [sentFor_before_program h, sentFor_lastPrograms h, programSents, due, hpatch]
      by_cases hskip : skipFirst nand p
      · have hstart : p.startSector = 0 := by
          simp only [skipFirst, Bool.and_eq_true, beq_iff_eq] at hskip
          exact hskip.2
        simp [hskip, again, hstart]
      · simp [hskip]
    · rw [again, if_neg]
      rintro ⟨hnand, hstart, hsent⟩
      exact hsettled hnand hstart hsent

theorem prefix_of_notMem {u v a b : List α} {c : α} (h : a ++ c :: b <+: u ++ v) (hc : c ∉ u) :
    u <+: a := by
  have ha : a <+: u ++ v := (prefix_append a (c :: b)).trans h
  rcases prefix_or_prefix_of_prefix (prefix_append u v) ha with hu | ⟨t, rfl⟩
  · exact hu
  · cases t with
    | nil => rw [append_nil]
    | cons d t =>
      rw [append_assoc, prefix_append_right_inj] at h
      obtain ⟨rest, hrest⟩ := h
      have hd : c = d := (List.cons.inj hrest).1
      exact absurd (by rw [hd]; simp) hc

theorem notMem_of_sentFor {s : Sent} (hs : s.entry = some x) (h : sentFor x cs = []) : s ∉ cs := by
  intro hmem
  have hfor : s ∈ sentFor x cs := mem_filter.mpr ⟨hmem, by simpa using hs⟩
  rw [h] at hfor
  cases hfor

theorem le_maxNumPartitionSectors (h : table[x]? = some (.erase e)) :
    (e.numPartitionSectors.getD 0 + e.startSector.getD 0) % 2 ^ 32 ≤
      maxNumPartitionSectors table := by
  have hfold : ∀ {cs : List Cmd} {n : Nat}, n ≤ cs.foldl maxSectors n ∧
      (.erase e ∈ cs → (e.numPartitionSectors.getD 0 + e.startSector.getD 0) % 2 ^ 32 ≤
        cs.foldl maxSectors n) := by
    intro cs
    induction cs with
    | nil => exact ⟨le_rfl, by simp⟩
    | cons c cs ih =>
      intro n
      have hstep : n ≤ maxSectors n c := by
        cases c with
        | erase e => exact Nat.le_max_left ..
        | _ => exact le_rfl
      refine ⟨hstep.trans ih.1, fun hmem => ?_⟩
      rcases mem_cons.mp hmem with rfl | hmem
      · exact (Nat.le_max_right n _).trans ih.1
      · exact ih.2 hmem
  exact hfold.2 (mem_of_getElem? h)

/-- What `firehose_main` keeps to, in the commands that it has sent with what has been seen behind
each of them. -/
structure Ordered (eraseAll nand : Bool) (table : List Cmd) (returned : Prop)
    (xs : List (Sent × List Event)) : Prop where
  answered : ∀ p ∈ xs.dropLast, Answers p.1 p.2
  erases : ∀ x p, table[x]? = some (Cmd.program p) → ∀ a start b,
    xs.map Prod.fst = a ++ .program x start :: b → ∀ y e, table[y]? = some (Cmd.erase e) →
      sentFor y a = due eraseAll nand (maxNumPartitionSectors table) y (.erase e)
  patches : ∀ x, table[x]? = some Cmd.patch → ∀ a b, xs.map Prod.fst = a ++ .patch x :: b →
    ∀ y p, table[y]? = some (Cmd.program p) → p.starts.map (.program y) <+: sentFor y a
  first : nand → ∀ x p, table[x]? = some (Cmd.program p) → p.startSector = 0 → ∀ a start b,
    xs.map Prod.fst = a ++ .program x start :: b → ∀ y q, table[y]? = some (Cmd.program q) →
      q.startSector ≠ 0 → q.starts.map (.program y) <+: sentFor y a
  once : ∀ x c, table[x]? = some c → Settled nand c →
    sentFor x (xs.map Prod.fst) <+: due eraseAll nand (maxNumPartitionSectors table) x c
  complete : returned → (∀ p ∈ xs, Answers p.1 p.2) ∧ ∀ x c, table[x]? = some c →
    due eraseAll nand (maxNumPartitionSectors table) x c <+: sentFor x (xs.map Prod.fst)
  covered : ∀ (x : Nat) (e : Erase), table[x]? = some (.erase e) →
    e.numPartitionSectors.getD 0 + e.startSector.getD 0 < 2 ^ 32 →
      e.numPartitionSectors.getD 0 + e.startSector.getD 0 ≤ maxNumPartitionSectors table

theorem firehoseMain_ordered (eraseAll : Bool) (deviceType : Str) (table : List Cmd)
    (answers : List (Option Response)) (images : List Bool) :
    Ordered eraseAll (deviceType = "nand".toList) table
      ((firehoseMain eraseAll deviceType table ⟨answers, images, []⟩).1 = some ())
      (exchanges (firehoseMain eraseAll deviceType table ⟨answers, images, []⟩).2.trace) := by
  have hlogs := exists_logs_firehoseMain eraseAll deviceType table ⟨answers, images, []⟩
  generalize decide (deviceType = "nand".toList) = nand at hlogs ⊢
  obtain ⟨cs, hcs, xs, htrace, hquiet, hsent, hanswered, hdone⟩ := hlogs
  rw [htrace, nil_append, exchanges_flatMap hquiet]
  have hall : xs.map Prod.fst <+: script eraseAll nand table cs := hsent
  have hhead : ∀ {a b : List Sent} {s : Sent}, xs.map Prod.fst = a ++ s :: b →
      a <+: script eraseAll nand table cs := by
    intro a b s h
    rw [h] at hall
    exact (prefix_append ..).trans hall
  refine ⟨hanswered, ?_, ?_, ?_, ?_, ?_, ?_⟩
  · -- In front of a program all erase commands have been sent.
    intro x p hx a start b hxs y e hy
    have hbefore : sentFor x (cs ++ beforePrograms eraseAll nand table) = [] := by
      rw [sentFor_append, sentFor_configure hcs, sentFor_before_program hx, append_nil]
    have hscript : script eraseAll nand table cs = (cs ++ beforePrograms eraseAll nand table) ++
        (scan (programSents (skipFirst nand)) 0 table ++
          (lastPrograms nand table ++ (scan patchSents 0 table ++ finish nand))) := by
      rw [script, append_assoc]
    have hpre := hall
    rw [hxs, hscript] at hpre
    have ha := sentFor_prefix (x := y) (prefix_of_notMem hpre (notMem_of_sentFor rfl hbefore))
    obtain ⟨more, hmore, hnone⟩ := exists_sentFor_script eraseAll nand hcs hy
    have hfor := sentFor_prefix (x := y) (hhead hxs)
    rw [hmore, hnone trivial, append_nil] at hfor
    rw [sentFor_append, sentFor_configure hcs, nil_append, sentFor_before_erase hy] at ha
    exact (ha.eq_of_length_le hfor.length_le).symm
  · -- In front of a patch all programs have been sent.
    intro x hx a b hxs y p hy
    have hscript : script eraseAll nand table cs = (cs ++ beforePrograms eraseAll nand table ++
        scan (programSents (skipFirst nand)) 0 table ++ lastPrograms nand table) ++
          (scan patchSents 0 table ++ finish nand) := by
      simp only [script, append_assoc]
    have hnot : sentFor x (cs ++ beforePrograms eraseAll nand table ++
        scan (programSents (skipFirst nand)) 0 table ++ lastPrograms nand table) = [] := by
      rw [sentFor_append, sentFor_append, sentFor_append, sentFor_configure hcs,
        sentFor_beforePrograms hx, sentFor_lastPrograms_other hx (by simp),
        sentFor_scan_zero indexed_program hx]
      cases eraseAll <;> cases nand <;> rfl
    have hpre := hall
    rw [hxs, hscript] at hpre
    have ha := sentFor_prefix (x := y) (prefix_of_notMem hpre (notMem_of_sentFor rfl hnot))
    refine IsPrefix.trans ?_ ha
    rw [sentFor_append, sentFor_append, sentFor_append, sentFor_configure hcs,
      sentFor_before_program hy, sentFor_programs hy, sentFor_lastPrograms hy]
    split <;> simp
  · -- In front of a first program all others have been sent.
    intro hnand x p hx hstart a start b hxs y q hy hother
    have hscript : script eraseAll nand table cs = (cs ++ beforePrograms eraseAll nand table ++
        scan (programSents (skipFirst nand)) 0 table) ++
          (lastPrograms nand table ++ (scan patchSents 0 table ++ finish nand)) := by
      simp only [script, append_assoc]
    have hnot : sentFor x (cs ++ beforePrograms eraseAll nand table ++
        scan (programSents (skipFirst nand)) 0 table) = [] := by
      rw [sentFor_append, sentFor_append, sentFor_configure hcs, sentFor_before_program hx,
        sentFor_programs hx, if_pos (by simp [skipFirst, hnand, hstart])]
      rfl
    have hpre := hall
    rw [hxs, hscript] at hpre
    have ha := sentFor_prefix (x := y) (prefix_of_notMem hpre (notMem_of_sentFor rfl hnot))
    refine IsPrefix.trans ?_ ha
    rw [sentFor_append, sentFor_append, sentFor_configure hcs, sentFor_before_program hy,
      sentFor_programs hy, if_neg (by simp [skipFirst, hother])]
    exact prefix_rfl
  · intro x c hx hsettled
    obtain ⟨more, hmore, hnone⟩ := exists_sentFor_script eraseAll nand hcs hx
    have hfor := sentFor_prefix (x := x) hall
    rw [hmore, hnone hsettled, append_nil] at hfor
    exact hfor
  · intro hreturned
    obtain ⟨-, hcomplete, hanswers⟩ := hdone () hreturned
    refine ⟨hanswers, fun x c hx => ?_⟩
    obtain ⟨more, hmore, -⟩ := exists_sentFor_script eraseAll nand hcs hx
    have hfor : sentFor x (xs.map Prod.fst) = sentFor x (script eraseAll nand table cs) :=
      congrArg (sentFor x) hcomplete
    rw [hfor, hmore]
    exact prefix_append ..
  · intro x e hx hlt
    have hle := le_maxNumPartitionSectors hx
    rwa [Nat.mod_eq_of_lt hlt] at hle

/-- An erase command without a sector size is passed over. -/
theorem returns_without_erase :
    let table := [Cmd.erase ⟨none, some 8, some 16, none⟩]
    let ack : Option Response := some ⟨some .ack, false, 0⟩
    (firehoseMain false "emmc".toList table ⟨[ack, ack, ack], [], []⟩).1 = some () ∧
      sentFor 0 ((exchanges (firehoseMain false "emmc".toList table
        ⟨[ack, ack, ack], [], []⟩).2.trace).map Prod.fst) = [] := by
  decide

end Order

end ModemSupport.Rooter.FirehoseMain
