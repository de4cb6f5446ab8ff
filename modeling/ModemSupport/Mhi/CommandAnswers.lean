import ModemSupport.Mhi.Command
import ModemSupport.Lib.Transition

/-! A call finds its own answer as long as no late answer meets it. -/

namespace ModemSupport.Mhi.Command

open Lib.Transition List

variable {ι δ : Type}

structure CmdAnswered (x : Chan δ) (own : Cmd ι) (ring : List (Cmd ι))
    (events : List (Cmd ι × UInt32)) (start : Option Nat) : Prop where
  ring : ring = []
  events : events = []
  ccsOf : x.ccsOf = some own.id
  start : own.cmd = .startChan → x.ccs = evCcSuccess → start = some own.id

/-- A wait for the answer of the command `own`, behind which the channel has queued none. -/
inductive CmdPhase (x : Chan δ) (own : Cmd ι) (ring : List (Cmd ι))
    (events : List (Cmd ι × UInt32)) (start : Option Nat) : Prop
  | queued (older : List (Cmd ι)) (hring : ring = older ++ [own])
      (hlt : ∀ cmd ∈ older, cmd.id < own.id) (hevents : ∀ e ∈ events, e.1.id < own.id)
      (hcompletion : x.completion = [])
  | executed (older : List (Cmd ι × UInt32)) (code : UInt32) (hring : ring = [])
      (hevents : events = older ++ [(own, code)]) (hlt : ∀ e ∈ older, e.1.id < own.id)
      (hcompletion : x.completion = [])
      (hstart : own.cmd = .startChan → code = evCcSuccess → start = some own.id)
  | answered (h : CmdAnswered x own ring events start) (hcompletion : x.completion = [own.id])

structure Enabled (x : Chan δ) (ring : List (Cmd ι)) (events : List (Cmd ι × UInt32))
    (start : Option Nat) : Prop where
  chState : x.chState = .enabled
  ring : ring = []
  events : events = []
  start : start.isSome

def CallOk (c : Config ι δ) (ch : ι) (x : Chan δ) (ring : List (Cmd ι))
    (events : List (Cmd ι × UInt32)) (start : Option Nat) : Call δ → Prop
  | .idle => x.chState = .enabled → Enabled x ring events start
  | .locked .prepare => x.chState = .disabled
  | .locked .unprepare => x.chState = .disabled ∧ ring = [] ∧ events = []
  | .locked (.tiocmset ..) => ch = c.dtrChan ∧ Enabled x ring events start
  | .armed .prepare => x.chState = .disabled
  | .armed .unprepare => x.chState = .disabled ∧ ring = [] ∧ events = [] ∧ x.completion = []
  | .armed (.tiocmset ..) => ch = c.dtrChan ∧ Enabled x ring events start ∧ x.completion = []
  | .waiting .prepare id =>
    x.chState = .disabled ∧ CmdPhase x ⟨id, .startChan, ch⟩ ring events start
  | .waiting .unprepare id =>
    x.chState = .disabled ∧ CmdPhase x ⟨id, .resetChan, ch⟩ ring events start
  | .waiting (.tiocmset _ _ msg) id =>
    ch = c.dtrChan ∧ Enabled x ring events start ∧ id = msg
  | .woken .prepare id answer =>
    x.chState = .disabled ∧ answer = id ∧
      CmdAnswered x ⟨id, .startChan, ch⟩ ring events start
  | .woken .unprepare id answer =>
    x.chState = .disabled ∧ answer = id ∧
      CmdAnswered x ⟨id, .resetChan, ch⟩ ring events start
  | .woken (.tiocmset _ _ msg) id answer =>
    ch = c.dtrChan ∧ Enabled x ring events start ∧ answer = id ∧ id = msg
  | .enabling id => x.chState = .disabled ∧ ring = [] ∧ events = [] ∧ start = some id
  | .resetting => x.chState = .disabled
  | .tiocmExit .. => ch = c.dtrChan ∧ Enabled x ring events start

structure Transfers where
  ring : List Elem
  todo : List Elem
  events : List (Elem × UInt32)
  log : List (Elem × UInt32)

def State.transfers (s : State ι δ) : Transfers :=
  ⟨s.dtrRing, s.dtrTodo, s.dtrEvents, s.transferred⟩

structure NoElems (d : Transfers) : Prop where
  ring : d.ring = []
  todo : d.todo = []
  events : d.events = []

/-- The element `e` of a call from its queueing on.  It stays on the ring when the answer is of
another kind than those of a transfer. -/
inductive MsgPhase (d : Transfers) (completion : List Nat) (e : Elem) : Prop
  | queued (hring : d.ring = [e]) (htodo : d.todo = [e]) (hevents : d.events = [])
      (hcompletion : completion = [])
  | transferred (code : UInt32) (hring : d.ring = [e]) (htodo : d.todo = [])
      (hevents : d.events = [(e, code)]) (hmem : (e, code) ∈ d.log) (hcompletion : completion = [])
  | answered (h : NoElems d) (hsent : Sent d.log e) (hcompletion : completion = [e.id])
  | failed (h : NoElems d) (hcompletion : completion = [])
  | ignored (hring : d.ring = [e]) (htodo : d.todo = []) (hevents : d.events = [])
      (hcompletion : completion = [])

def DtrOk (c : Config ι δ) (d : Transfers) (completion : List Nat) : Call δ → Prop
  | .waiting (.tiocmset dev tiocm msg) _ =>
    MsgPhase d completion ⟨msg, dtrMsg (c.ulChanId dev) tiocm⟩
  | .woken (.tiocmset dev tiocm msg) _ _ =>
    NoElems d ∧ Sent d.log ⟨msg, dtrMsg (c.ulChanId dev) tiocm⟩
  | .tiocmExit dev tiocm msg none =>
    NoElems d ∧ Sent d.log ⟨msg, dtrMsg (c.ulChanId dev) tiocm⟩
  | .tiocmExit dev tiocm msg (some _) =>
    MsgPhase d completion ⟨msg, dtrMsg (c.ulChanId dev) tiocm⟩
  | _ => NoElems d

def Op.msg : Op δ → Option Nat
  | .tiocmset _ _ msg => some msg
  | _ => none

def Call.msg : Call δ → Option Nat
  | .locked op => op.msg
  | .armed op => op.msg
  | .waiting op _ => op.msg
  | .woken op _ _ => op.msg
  | .tiocmExit _ _ msg _ => some msg
  | _ => none

variable {c : Config ι δ} {s t : State ι δ} {ch : ι} {x : Chan δ} {own : Cmd ι}
  {ring : List (Cmd ι)} {events : List (Cmd ι × UInt32)} {start : Option Nat} {call : Call δ}
  {d : Transfers} {completion : List Nat} {e : Elem}

theorem CallOk.enabled (h : CallOk c ch x ring events start call) (hstate : x.chState = .enabled) :
    Enabled x ring events start := by
  have hne : x.chState ≠ .disabled := by simp [hstate]
  cases call with
  | idle => exact h hstate
  | locked op =>
    cases op with
    | prepare => exact absurd h hne
    | unprepare => exact absurd h.1 hne
    | tiocmset => exact h.2
  | armed op =>
    cases op with
    | prepare => exact absurd h hne
    | unprepare => exact absurd h.1 hne
    | tiocmset => exact h.2.1
  | waiting op id =>
    cases op with
    | prepare => exact absurd h.1 hne
    | unprepare => exact absurd h.1 hne
    | tiocmset => exact h.2.1
  | woken op id answer =>
    cases op with
    | prepare => exact absurd h.1 hne
    | unprepare => exact absurd h.1 hne
    | tiocmset => exact h.2.1
  | enabling id => exact absurd h.1 hne
  | resetting => exact absurd h hne
  | tiocmExit => exact h.2

theorem Enabled.congr {y : Chan δ} (h : Enabled x ring events start)
    (hstate : y.chState = x.chState) :
    Enabled y ring events start :=
  ⟨hstate.trans h.chState, h.ring, h.events, h.start⟩

theorem CmdPhase.congr {y : Chan δ} (h : CmdPhase x own ring events start)
    (hcompletion : y.completion = x.completion) (hccs : y.ccs = x.ccs)
    (hccsOf : y.ccsOf = x.ccsOf) :
    CmdPhase y own ring events start := by
  cases h with
  | queued older hring hlt hevents hnil =>
    exact .queued older hring hlt hevents (hcompletion.trans hnil)
  | executed older code hring hevents hlt hnil hstart =>
    exact .executed older code hring hevents hlt (hcompletion.trans hnil) hstart
  | answered hans hown =>
    refine .answered ⟨hans.ring, hans.events, hccsOf.trans hans.ccsOf, ?_⟩ (hcompletion.trans hown)
    intro hcmd hsuccess
    exact hans.start hcmd (hccs.symm.trans hsuccess)

theorem CmdPhase.own_answer {answer : Nat} {rest : List Nat} (h : CmdPhase x own ring events start)
    (hcompletion : x.completion = answer :: rest) :
    answer = own.id ∧ CmdAnswered x own ring events start := by
  cases h with
  | queued _ _ _ _ hnil => rw [hnil] at hcompletion; cases hcompletion
  | executed _ _ _ _ _ hnil => rw [hnil] at hcompletion; cases hcompletion
  | answered hanswered hown =>
    rw [hown] at hcompletion
    injection hcompletion with hid
    exact ⟨hid.symm, hanswered⟩

theorem MsgPhase.own_answer {answer : Nat} {rest : List Nat}
    (h : MsgPhase d completion e) (hcompletion : completion = answer :: rest) :
    answer = e.id ∧ NoElems d ∧ Sent d.log e := by
  cases h with
  | queued _ _ _ hnil => rw [hnil] at hcompletion; cases hcompletion
  | transferred _ _ _ _ _ hnil => rw [hnil] at hcompletion; cases hcompletion
  | answered hno hsent hown =>
    rw [hown] at hcompletion
    injection hcompletion with hid
    exact ⟨hid.symm, hno, hsent⟩
  | failed _ hnil => rw [hnil] at hcompletion; cases hcompletion
  | ignored _ _ _ hnil => rw [hnil] at hcompletion; cases hcompletion

theorem MsgPhase.mem_ring {e' : Elem} (h : MsgPhase d completion e) (hmem : e' ∈ d.ring) :
    e' = e := by
  cases h with
  | queued hring => simpa [hring] using hmem
  | transferred _ hring => simpa [hring] using hmem
  | answered hno => simp [hno.ring] at hmem
  | failed hno => simp [hno.ring] at hmem
  | ignored hring => simpa [hring] using hmem

theorem DtrOk.phase (h : DtrOk c d completion call) (hne : ¬ NoElems d) :
    ∃ e, call.msg = some e.id ∧ MsgPhase d completion e ∧
      (∀ d' completion', MsgPhase d' completion' e → DtrOk c d' completion' call) ∧
      ∀ ch (x y : Chan δ) (ring : List (Cmd ι)) (events : List (Cmd ι × UInt32)) start,
        CallOk c ch x ring events start call → y.chState = x.chState →
          CallOk c ch y ring events start call := by
  cases call with
  | idle => exact absurd h hne
  | locked op => exact absurd h hne
  | armed op => exact absurd h hne
  | waiting op id =>
    cases op with
    | prepare => exact absurd h hne
    | unprepare => exact absurd h hne
    | tiocmset dev tiocm msg =>
      refine ⟨⟨msg, _⟩, rfl, h, fun _ _ hphase => hphase, ?_⟩
      intro _ _ _ _ _ _ hcall hstate
      exact ⟨hcall.1, hcall.2.1.congr hstate, hcall.2.2⟩
  | woken op id answer =>
    cases op with
    | prepare => exact absurd h hne
    | unprepare => exact absurd h hne
    | tiocmset dev tiocm msg => exact absurd h.1 hne
  | enabling id => exact absurd h hne
  | resetting => exact absurd h hne
  | tiocmExit dev tiocm msg ret =>
    cases ret with
    | none => exact absurd h.1 hne
    | some ret =>
      refine ⟨⟨msg, _⟩, rfl, h, fun _ _ hphase => hphase, ?_⟩
      intro _ _ _ _ _ _ hcall hstate
      exact ⟨hcall.1, hcall.2.congr hstate⟩

theorem DtrOk.msg (h : DtrOk c d completion call) (hmem : e ∈ d.ring) : call.msg = some e.id := by
  have hne : ¬ NoElems d := fun hno => by simp [hno.ring] at hmem
  obtain ⟨e', hmsg, hphase, _⟩ := h.phase hne
  rw [hphase.mem_ring hmem]
  exact hmsg

theorem CallOk.of_msg {m : Nat} (h : CallOk c ch x ring events start call)
    (hmsg : call.msg = some m) : ch = c.dtrChan ∧ Enabled x ring events start := by
  cases call with
  | idle => cases hmsg
  | locked op =>
    cases op with
    | prepare => cases hmsg
    | unprepare => cases hmsg
    | tiocmset => exact h
  | armed op =>
    cases op with
    | prepare => cases hmsg
    | unprepare => cases hmsg
    | tiocmset => exact ⟨h.1, h.2.1⟩
  | waiting op id =>
    cases op with
    | prepare => cases hmsg
    | unprepare => cases hmsg
    | tiocmset => exact ⟨h.1, h.2.1⟩
  | woken op id answer =>
    cases op with
    | prepare => cases hmsg
    | unprepare => cases hmsg
    | tiocmset => exact ⟨h.1, h.2.1⟩
  | enabling id => cases hmsg
  | resetting => cases hmsg
  | tiocmExit => exact h

theorem CmdPhase.execute {cmd : Cmd ι} {start' : Option Nat} {code : UInt32}
    (h : CmdPhase x own (cmd :: ring) events start)
    (hstart : cmd.cmd = .startChan → code = evCcSuccess → start' = some cmd.id) :
    CmdPhase x own ring (events ++ [(cmd, code)]) start' := by
  cases h with
  | queued older hring hlt hevents hcompletion =>
    cases older with
    | nil =>
      injection hring with hcmd hrest
      subst hcmd
      exact .executed events code hrest rfl hevents hcompletion hstart
    | cons first older =>
      injection hring with hcmd hrest
      subst hcmd
      refine .queued older hrest (fun o ho => hlt o (mem_cons_of_mem _ ho)) ?_ hcompletion
      intro e he
      rcases mem_append.mp he with hold | hnew
      · exact hevents e hold
      · rw [mem_singleton.mp hnew]
        exact hlt cmd mem_cons_self
  | executed _ _ hring => cases hring
  | answered hans => cases hans.ring

theorem CmdPhase.complete {cmd : Cmd ι} {code : UInt32}
    (h : CmdPhase x own ring ((cmd, code) :: events) start)
    (hown : x.completion = [] → cmd.id = own.id) {y : Chan δ} (hccs : y.ccs = code)
    (hccsOf : y.ccsOf = some cmd.id) (hcompletion : y.completion = x.completion ++ [cmd.id]) :
    CmdPhase y own ring events start := by
  cases h with
  | queued older hring hlt hevents hnil =>
    have hbefore := hevents (cmd, code) mem_cons_self
    have hid := hown hnil
    simp only [hid, lt_irrefl] at hbefore
  | executed older code' hring hevents hlt hnil hstart =>
    cases older with
    | nil =>
      injection hevents with hcmd hrest
      injection hcmd with hcmd hcode
      subst hcmd hcode
      refine .answered ⟨hring, hrest, hccsOf, ?_⟩ ?_
      · intro hcmd hsuccess
        exact hstart hcmd (hccs.symm.trans hsuccess)
      · rw [hcompletion, hnil]
        rfl
    | cons first older =>
      injection hevents with hfirst hrest
      have hbefore := hlt first mem_cons_self
      rw [← hfirst] at hbefore
      have hid := hown hnil
      simp only [hid, lt_irrefl] at hbefore
  | answered hans => cases hans.events

theorem CallOk.execute {cmd : Cmd ι} {start' : Option Nat} {code : UInt32}
    (h : CallOk c ch x (cmd :: ring) events start call)
    (hstart : cmd.cmd = .startChan → code = evCcSuccess → start' = some cmd.id) :
    CallOk c ch x ring (events ++ [(cmd, code)]) start' call := by
  cases call with
  | idle =>
    intro hstate
    cases (h hstate).ring
  | locked op =>
    cases op with
    | prepare => exact h
    | unprepare => cases h.2.1
    | tiocmset => cases h.2.ring
  | armed op =>
    cases op with
    | prepare => exact h
    | unprepare => cases h.2.1
    | tiocmset => cases h.2.1.ring
  | waiting op id =>
    cases op with
    | prepare => exact ⟨h.1, h.2.execute hstart⟩
    | unprepare => exact ⟨h.1, h.2.execute hstart⟩
    | tiocmset => cases h.2.1.ring
  | woken op id answer =>
    cases op with
    | prepare => cases h.2.2.ring
    | unprepare => cases h.2.2.ring
    | tiocmset => cases h.2.1.ring
  | enabling id => cases h.2.1
  | resetting => exact h
  | tiocmExit => cases h.2.ring

theorem CallOk.complete {cmd : Cmd ι} {code : UInt32}
    (h : CallOk c ch x ring ((cmd, code) :: events) start call)
    (hown : ∀ op id, call = .waiting op id → x.completion = [] → cmd.id = id) {y : Chan δ}
    (hstate : y.chState = x.chState) (hccs : y.ccs = code) (hccsOf : y.ccsOf = some cmd.id)
    (hcompletion : y.completion = x.completion ++ [cmd.id]) :
    CallOk c ch y ring events start call := by
  cases call with
  | idle =>
    intro hen
    cases (h (hstate.symm.trans hen)).events
  | locked op =>
    cases op with
    | prepare => exact hstate.trans h
    | unprepare => cases h.2.2
    | tiocmset => cases h.2.events
  | armed op =>
    cases op with
    | prepare => exact hstate.trans h
    | unprepare => cases h.2.2.1
    | tiocmset => cases h.2.1.events
  | waiting op id =>
    have hid := hown op id rfl
    cases op with
    | prepare => exact ⟨hstate.trans h.1, h.2.complete hid hccs hccsOf hcompletion⟩
    | unprepare => exact ⟨hstate.trans h.1, h.2.complete hid hccs hccsOf hcompletion⟩
    | tiocmset => cases h.2.1.events
  | woken op id answer =>
    cases op with
    | prepare => cases h.2.2.events
    | unprepare => cases h.2.2.events
    | tiocmset => cases h.2.1.events
  | enabling id => cases h.2.2.1
  | resetting => exact hstate.trans h
  | tiocmExit => cases h.2.events

theorem DtrOk.of_events {head : Cmd ι × UInt32} {completion' : List Nat}
    (h : DtrOk c d completion call) (hcall : CallOk c ch x ring (head :: events) start call) :
    DtrOk c d completion' call := by
  have hmsg : ∀ m, call.msg ≠ some m := by
    intro m hm
    cases (hcall.of_msg hm).2.events
  by_cases hno : NoElems d
  · cases call with
    | waiting op id =>
      cases op with
      | prepare => exact h
      | unprepare => exact h
      | tiocmset => exact absurd rfl (hmsg _)
    | woken op id answer =>
      cases op with
      | prepare => exact h
      | unprepare => exact h
      | tiocmset => exact absurd rfl (hmsg _)
    | tiocmExit => exact absurd rfl (hmsg _)
    | idle => exact h
    | locked op => exact h
    | armed op => exact h
    | enabling id => exact h
    | resetting => exact h
  · obtain ⟨e, hm, _⟩ := h.phase hno
    exact absurd hm (hmsg _)

/-- The state behind `mhi_send_cmd`. -/
def State.push (s : State ι δ) (ch : ι) (cmd : MhiCmd) : State ι δ :=
  { s with cmdRing := s.cmdRing ++ [⟨s.next, cmd, ch⟩], next := s.next + 1 }

/-- What a call has queued, with the state behind. -/
def enqueue (c : Config ι δ) (s : State ι δ) (ch : ι) : Op δ → Nat × State ι δ
  | .prepare => (s.next, s.push ch .startChan)
  | .unprepare => (s.next, s.push ch .resetChan)
  | .tiocmset dev tiocm msg =>
    (msg, { s with
      dtrRing := s.dtrRing ++ [⟨msg, dtrMsg (c.ulChanId dev) tiocm⟩]
      dtrTodo := s.dtrTodo ++ [⟨msg, dtrMsg (c.ulChanId dev) tiocm⟩] })

theorem sendCmd_cases (c : Config ι δ) (s : State ι δ) (ch : ι) (cmd : MhiCmd) :
    (∃ e, sendCmd c s ch cmd = (.error e, s)) ∨
      sendCmd c s ch cmd = (.ok s.next, s.push ch cmd) := by
  unfold sendCmd
  split_ifs
  · exact .inl ⟨_, rfl⟩
  · exact .inr rfl

theorem queue_cases (c : Config ι δ) (s : State ι δ) (ch : ι) (pmError : Bool) (op : Op δ) :
    (∃ e, queue c s ch pmError op = (.error e, s)) ∨
      queue c s ch pmError op = (.ok (enqueue c s ch op).1, (enqueue c s ch op).2) := by
  unfold queue
  split_ifs
  · exact .inl ⟨_, rfl⟩
  · cases op with
    | prepare => exact sendCmd_cases c s ch .startChan
    | unprepare => exact sendCmd_cases c s ch .resetChan
    | tiocmset dev tiocm msg =>
      simp only [queueTransfer]
      split_ifs
      · exact .inl ⟨_, rfl⟩
      · exact .inr rfl

variable [DecidableEq ι]

def State.ringOf (s : State ι δ) (ch : ι) : List (Cmd ι) := s.cmdRing.filter (·.chan = ch)

/-- The answers to commands of the channel that the host has not processed. -/
def State.eventsOf (s : State ι δ) (ch : ι) : List (Cmd ι × UInt32) :=
  s.cmdEvents.filter (·.1.chan = ch)

structure Inv (c : Config ι δ) (s : State ι δ) : Prop where
  calls : ∀ ch, CallOk c ch (s.chan ch) (s.ringOf ch) (s.eventsOf ch) (started ch s.executed)
    (s.chan ch).call
  dtr : DtrOk c s.transfers (s.chan c.dtrChan).completion (s.chan c.dtrChan).call
  ring_lt : ∀ cmd ∈ s.cmdRing, cmd.id < s.next
  events_lt : ∀ e ∈ s.cmdEvents, e.1.id < s.next
  completion_lt : ∀ ch, ∀ id ∈ (s.chan ch).completion, id < s.next
  msg : ∀ m, (s.chan c.dtrChan).call.msg = some m → m < s.next ∧ m ∉ s.freed
  freed_lt : ∀ m ∈ s.freed, m < s.next
  returned : ∀ r ∈ s.rets, r.ret = none → ∀ msg, r.msg = some msg →
    Sent s.transferred ⟨msg, dtrMsg (c.ulChanId r.dev) r.tiocm⟩

theorem inv_init : Inv c (init : State ι δ) where
  calls := by
    intro ch h
    cases h
  dtr := ⟨rfl, rfl, rfl⟩
  ring_lt := by simp [init]
  events_lt := by simp [init]
  completion_lt := by simp [init]
  msg := by simp [init, Call.msg]
  freed_lt := by simp [init]
  returned := by simp [init]

theorem Inv.allocated (hi : Inv c s) (hmem : e ∈ s.dtrRing) :
    e.id < s.next ∧ e.id ∉ s.freed :=
  hi.msg e.id (hi.dtr.msg hmem)

theorem Inv.answered (hi : Inv c s) : Answered c s where
  ends := by
    intro ch op id answer rest hcall hcompletion
    have h := hi.calls ch
    rw [hcall] at h
    cases op with
    | prepare => exact (h.2.own_answer hcompletion).1
    | unprepare => exact (h.2.own_answer hcompletion).1
    | tiocmset dev tiocm msg =>
      obtain ⟨rfl, _, rfl⟩ := h
      have hdtr := hi.dtr
      rw [hcall] at hdtr
      exact (MsgPhase.own_answer hdtr hcompletion).1
  consumed := by
    intro ch op id answer hcall
    have h := hi.calls ch
    rw [hcall] at h
    cases op with
    | prepare => exact h.2.1
    | unprepare => exact h.2.1
    | tiocmset => exact h.2.2.1
  ccs := by
    intro ch op id answer hcall hcmd
    have h := hi.calls ch
    rw [hcall] at h
    cases op with
    | prepare => exact h.2.2.ccsOf
    | unprepare => exact h.2.2.ccsOf
    | tiocmset => cases hcmd
  enabling := by
    intro ch id hcall
    have h := hi.calls ch
    rw [hcall] at h
    exact h.2.2.2
  enabled := fun ch hstate => ((hi.calls ch).enabled hstate).start
  returned := hi.returned
  allocated := fun _ hmem => (hi.allocated hmem).2

@[simp] theorem setChan_chan (s : State ι δ) (ch : ι) (x : Chan δ) :
    (s.setChan ch x).chan = Function.update s.chan ch x := rfl

/-- What a step of a call owes for its channel. -/
structure Moved (c : Config ι δ) (s : State ι δ) (ch : ι) (x : Chan δ) : Prop where
  call : CallOk c ch x (s.ringOf ch) (s.eventsOf ch) (started ch s.executed) x.call
  dtr : ch = c.dtrChan → DtrOk c s.transfers x.completion x.call
  completion_lt : ∀ id ∈ x.completion, id < s.next
  msg : ch = c.dtrChan → ∀ m, x.call.msg = some m → m < s.next ∧ m ∉ s.freed

/-- A step that changes the commands of the channel `ch` only. -/
structure SameBut (s t : State ι δ) (ch : ι) : Prop where
  chan : t.chan = s.chan
  transfers : t.transfers = s.transfers
  freed : t.freed = s.freed
  rets : t.rets = s.rets
  next : s.next ≤ t.next
  ringOf : ∀ other, other ≠ ch → t.ringOf other = s.ringOf other
  eventsOf : ∀ other, other ≠ ch → t.eventsOf other = s.eventsOf other
  started : ∀ other, other ≠ ch → started other t.executed = started other s.executed
  ring_lt : ∀ cmd ∈ t.cmdRing, cmd.id < t.next
  events_lt : ∀ e ∈ t.cmdEvents, e.1.id < t.next

theorem Inv.setChanOf (hi : Inv c s) (hs : SameBut s t ch) (h : Moved c t ch x) :
    Inv c (t.setChan ch x) where
  calls := by
    intro other
    by_cases heq : other = ch
    · subst heq
      rw [setChan_chan, Function.update_self]
      exact h.call
    · have hother := hi.calls other
      rw [← hs.ringOf other heq, ← hs.eventsOf other heq, ← hs.started other heq,
        ← hs.chan] at hother
      rw [setChan_chan, Function.update_of_ne heq]
      exact hother
  dtr := by
    by_cases heq : c.dtrChan = ch
    · rw [setChan_chan, heq, Function.update_self]
      exact h.dtr heq.symm
    · have hdtr := hi.dtr
      rw [← hs.transfers, ← hs.chan] at hdtr
      rw [setChan_chan, Function.update_of_ne heq]
      exact hdtr
  ring_lt := hs.ring_lt
  events_lt := hs.events_lt
  completion_lt := by
    intro other id hid
    by_cases heq : other = ch
    · subst heq
      rw [setChan_chan, Function.update_self] at hid
      exact h.completion_lt id hid
    · rw [setChan_chan, Function.update_of_ne heq, hs.chan] at hid
      exact lt_of_lt_of_le (hi.completion_lt other id hid) hs.next
  msg := by
    intro m hm
    by_cases heq : c.dtrChan = ch
    · rw [setChan_chan, heq, Function.update_self] at hm
      exact h.msg heq.symm m hm
    · rw [setChan_chan, Function.update_of_ne heq, hs.chan] at hm
      obtain ⟨hlt, hfreed⟩ := hi.msg m hm
      rw [← hs.freed] at hfreed
      exact ⟨lt_of_lt_of_le hlt hs.next, hfreed⟩
  freed_lt := by
    intro m hm
    have hold : m ∈ s.freed := hs.freed ▸ hm
    exact lt_of_lt_of_le (hi.freed_lt m hold) hs.next
  returned := by
    intro r hr
    have hold : r ∈ s.rets := hs.rets ▸ hr
    have hlog : t.transferred = s.transferred := congrArg Transfers.log hs.transfers
    change r.ret = none → ∀ msg, r.msg = some msg → Sent t.transferred _
    rw [hlog]
    exact hi.returned r hold

theorem Inv.setChan (hi : Inv c s) (h : Moved c s ch x) : Inv c (s.setChan ch x) :=
  hi.setChanOf
    ⟨rfl, rfl, rfl, rfl, le_refl _, fun _ _ => rfl, fun _ _ => rfl, fun _ _ => rfl, hi.ring_lt,
      hi.events_lt⟩ h

theorem Inv.requests (hi : Inv c s) (tiocm : δ → UInt32) (requests : List (δ × UInt32)) :
    Inv c { s with tiocm := tiocm, requests := requests } :=
  ⟨hi.calls, hi.dtr, hi.ring_lt, hi.events_lt, hi.completion_lt, hi.msg, hi.freed_lt, hi.returned⟩

theorem Inv.ret (hi : Inv c s) (r : Ret δ)
    (h : r.ret = none → ∀ msg, r.msg = some msg →
      Sent s.transferred ⟨msg, dtrMsg (c.ulChanId r.dev) r.tiocm⟩) :
    Inv c { s with rets := s.rets ++ [r] } where
  calls := hi.calls
  dtr := hi.dtr
  ring_lt := hi.ring_lt
  events_lt := hi.events_lt
  completion_lt := hi.completion_lt
  msg := hi.msg
  freed_lt := hi.freed_lt
  returned := by
    intro r' hr'
    rcases mem_append.mp hr' with hold | hnew
    · exact hi.returned r' hold
    · rw [mem_singleton.mp hnew]
      exact h

theorem Inv.next (hi : Inv c s) : Inv c { s with next := s.next + 1 } where
  calls := hi.calls
  dtr := hi.dtr
  ring_lt := fun cmd hcmd => Nat.lt_succ_of_lt (hi.ring_lt cmd hcmd)
  events_lt := fun e he => Nat.lt_succ_of_lt (hi.events_lt e he)
  completion_lt := fun ch id hid => Nat.lt_succ_of_lt (hi.completion_lt ch id hid)
  msg := fun m hm => ⟨Nat.lt_succ_of_lt (hi.msg m hm).1, (hi.msg m hm).2⟩
  freed_lt := fun m hm => Nat.lt_succ_of_lt (hi.freed_lt m hm)
  returned := hi.returned

theorem Inv.noElems (hi : Inv c s) (hdtr : ch = c.dtrChan) (hcall : (s.chan ch).call = .idle) :
    NoElems s.transfers := by
  have h := hi.dtr
  rw [← hdtr, hcall] at h
  exact h

theorem Inv.prepareChannel (hi : Inv c s) (hcall : (s.chan ch).call = .idle) (inited : Bool) :
    Inv c (prepareChannel s ch inited) := by
  unfold Command.prepareChannel
  split_ifs with hstate hinit
  · exact hi
  · refine hi.setChan ⟨?_, ?_, ?_, ?_⟩
    · exact not_not.mp hstate
    · exact fun hdtr => hi.noElems hdtr hcall
    · exact hi.completion_lt ch
    · intro _ m hm
      cases hm
  · exact hi

theorem Inv.unprepareChannel (hi : Inv c s) (hcall : (s.chan ch).call = .idle) :
    Inv c (unprepareChannel s ch) := by
  unfold Command.unprepareChannel
  split_ifs with hstate
  · exact hi
  · have henabled := (hi.calls ch).enabled (not_not.mp hstate)
    refine hi.setChan ⟨?_, ?_, ?_, ?_⟩
    · exact ⟨rfl, henabled.ring, henabled.events⟩
    · exact fun hdtr => hi.noElems hdtr hcall
    · exact hi.completion_lt ch
    · intro _ m hm
      cases hm

theorem Inv.tiocmset (hi : Inv c s) (dev : δ) (tiocm : UInt32) : Inv c (tiocmset s dev tiocm) := by
  unfold Command.tiocmset
  dsimp only
  split_ifs
  · refine hi.ret _ ?_
    intro _ msg hmsg
    cases hmsg
  · exact hi.requests _ _

theorem Inv.tiocmsetLocked (hi : Inv c s) (hcall : (s.chan c.dtrChan).call = .idle)
    (hstate : (s.chan c.dtrChan).chState = .enabled) (dev : δ) (tiocm : UInt32) (alloc : Bool) :
    Inv c (tiocmsetLocked c s dev tiocm alloc) := by
  unfold Command.tiocmsetLocked
  split_ifs
  · have henabled := (hi.calls c.dtrChan).enabled hstate
    have hfresh : s.next ∉ s.freed := fun hmem => Nat.lt_irrefl _ (hi.freed_lt _ hmem)
    refine hi.next.setChan ⟨?_, ?_, ?_, ?_⟩
    · exact ⟨rfl, henabled.congr rfl⟩
    · exact fun _ => hi.noElems rfl hcall
    · exact hi.next.completion_lt c.dtrChan
    · intro _ m hm
      injection hm with hm
      subst hm
      exact ⟨Nat.lt_succ_self _, hfresh⟩
  · refine hi.ret _ ?_
    intro hret
    cases hret

theorem Inv.reinit {op : Op δ} (hi : Inv c s) (hcall : (s.chan ch).call = .locked op) :
    Inv c (s.setChan ch { s.chan ch with completion := [], call := .armed op }) := by
  have h := hi.calls ch
  have hdtr := hi.dtr
  have hmsg := hi.msg
  rw [hcall] at h
  refine hi.setChan ⟨?_, ?_, ?_, ?_⟩
  · cases op with
    | prepare => exact h
    | unprepare => exact ⟨h.1, h.2.1, h.2.2, rfl⟩
    | tiocmset => exact ⟨h.1, h.2.congr rfl, rfl⟩
  · intro heq
    rw [← heq, hcall] at hdtr
    exact hdtr
  · intro id hid
    cases hid
  · intro heq
    rw [← heq, hcall] at hmsg
    exact hmsg

theorem Inv.wake {op : Op δ} {id answer : Nat} {rest : List Nat} (hi : Inv c s)
    (hcall : (s.chan ch).call = .waiting op id)
    (hcompletion : (s.chan ch).completion = answer :: rest) :
    Inv c (s.setChan ch { s.chan ch with completion := rest, call := .woken op id answer }) := by
  have h := hi.calls ch
  have hdtr := hi.dtr
  have hmsg := hi.msg
  rw [hcall] at h
  refine hi.setChan ⟨?_, ?_, ?_, ?_⟩
  · cases op with
    | prepare =>
      obtain ⟨hid, hans⟩ := h.2.own_answer hcompletion
      exact ⟨h.1, hid, hans.ring, hans.events, hans.ccsOf, hans.start⟩
    | unprepare =>
      obtain ⟨hid, hans⟩ := h.2.own_answer hcompletion
      exact ⟨h.1, hid, hans.ring, hans.events, hans.ccsOf, hans.start⟩
    | tiocmset dev tiocm msg =>
      obtain ⟨heq, henabled, hid⟩ := h
      rw [← heq, hcall] at hdtr
      exact ⟨heq, henabled.congr rfl, (MsgPhase.own_answer hdtr hcompletion).1.trans hid.symm, hid⟩
  · intro heq
    rw [← heq, hcall] at hdtr
    cases op with
    | prepare => exact hdtr
    | unprepare => exact hdtr
    | tiocmset => exact (MsgPhase.own_answer hdtr hcompletion).2
  · intro id hid
    refine hi.completion_lt ch id ?_
    rw [hcompletion]
    exact mem_cons_of_mem _ hid
  · intro heq
    rw [← heq, hcall] at hmsg
    exact hmsg

theorem Inv.timeout {op : Op δ} {id : Nat} (hi : Inv c s)
    (hcall : (s.chan ch).call = .waiting op id) (e : Errno) :
    Inv c (s.setCall ch (op.fail e)) := by
  have h := hi.calls ch
  have hdtr := hi.dtr
  have hmsg := hi.msg
  rw [hcall] at h
  refine hi.setChan ⟨?_, ?_, ?_, ?_⟩
  · cases op with
    | prepare =>
      intro hstate
      rw [h.1] at hstate
      cases hstate
    | unprepare => exact h.1
    | tiocmset => exact ⟨h.1, h.2.1.congr rfl⟩
  · intro heq
    rw [← heq, hcall] at hdtr
    cases op with
    | prepare => exact hdtr
    | unprepare => exact hdtr
    | tiocmset => exact hdtr
  · exact hi.completion_lt ch
  · intro heq
    rw [← heq, hcall] at hmsg
    cases op with
    | prepare => exact hmsg
    | unprepare => exact hmsg
    | tiocmset => exact hmsg

theorem Inv.afterWait {op : Op δ} {id answer : Nat} [DecidableEq δ] (hi : Inv c s)
    (hcall : (s.chan ch).call = .woken op id answer) : Inv c (afterWait s ch id op) := by
  have h := hi.calls ch
  have hdtr := hi.dtr
  have hmsg := hi.msg
  rw [hcall] at h
  cases op with
  | prepare =>
    obtain ⟨hstate, _, hans⟩ := h
    have hno : ch = c.dtrChan → NoElems s.transfers := by
      intro heq
      rw [← heq, hcall] at hdtr
      exact hdtr
    unfold Command.afterWait
    split_ifs with hccs
    · refine hi.setChan ⟨⟨hstate, hans.ring, hans.events, hans.start rfl hccs⟩, hno, ?_, ?_⟩
      · exact hi.completion_lt ch
      · intro _ m hm
        cases hm
    · refine hi.setChan ⟨?_, hno, ?_, ?_⟩
      · intro hen
        rw [hstate] at hen
        cases hen
      · exact hi.completion_lt ch
      · intro _ m hm
        cases hm
  | unprepare =>
    refine hi.setChan ⟨h.1, ?_, hi.completion_lt ch, ?_⟩
    · intro heq
      rw [← heq, hcall] at hdtr
      exact hdtr
    · intro _ m hm
      cases hm
  | tiocmset dev tiocm msg =>
    have hset : Inv c (s.setCall ch (.tiocmExit dev tiocm msg none)) := by
      refine hi.setChan ⟨?_, ?_, hi.completion_lt ch, ?_⟩
      · exact ⟨h.1, h.2.1.congr rfl⟩
      · intro heq
        rw [← heq, hcall] at hdtr
        exact hdtr
      · intro heq
        rw [← heq, hcall] at hmsg
        exact hmsg
    exact hset.requests _ _

theorem Inv.fail {op : Op δ} (hi : Inv c s) (hcall : (s.chan ch).call = .armed op) (e : Errno) :
    Inv c (s.setCall ch (op.fail e)) := by
  have h := hi.calls ch
  have hdtr := hi.dtr
  have hmsg := hi.msg
  rw [hcall] at h
  have hno : ch = c.dtrChan → NoElems s.transfers := by
    intro heq
    rw [← heq, hcall] at hdtr
    exact hdtr
  refine hi.setChan ⟨?_, ?_, hi.completion_lt ch, ?_⟩
  · cases op with
    | prepare =>
      intro hen
      cases hen.symm.trans h
    | unprepare => exact h.1
    | tiocmset => exact ⟨h.1, h.2.1.congr rfl⟩
  · intro heq
    cases op with
    | prepare => exact hno heq
    | unprepare => exact hno heq
    | tiocmset => exact .failed (hno heq) h.2.2
  · intro heq
    rw [← heq, hcall] at hmsg
    cases op with
    | prepare => exact hmsg
    | unprepare => exact hmsg
    | tiocmset => exact hmsg

theorem ringOf_push (s : State ι δ) (ch : ι) (cmd : MhiCmd) :
    (s.push ch cmd).ringOf ch = s.ringOf ch ++ [⟨s.next, cmd, ch⟩] := by
  simp [State.push, State.ringOf, filter_append]

theorem Inv.sameBut_push (hi : Inv c s) (ch : ι) (cmd : MhiCmd) :
    SameBut s (s.push ch cmd) ch where
  chan := rfl
  transfers := rfl
  freed := rfl
  rets := rfl
  next := Nat.le_succ _
  ringOf := by
    intro other hne
    simp [State.push, State.ringOf, filter_append, Ne.symm hne]
  eventsOf := fun _ _ => rfl
  started := fun _ _ => rfl
  ring_lt := by
    intro cmd' hcmd
    rcases mem_append.mp hcmd with hold | hnew
    · exact Nat.lt_succ_of_lt (hi.ring_lt cmd' hold)
    · rw [mem_singleton.mp hnew]
      exact Nat.lt_succ_self _
  events_lt := fun e he => Nat.lt_succ_of_lt (hi.events_lt e he)

theorem Inv.queued (hi : Inv c s) (cmd : MhiCmd) (hcompletion : (s.chan ch).completion = []) :
    CmdPhase (s.chan ch) ⟨s.next, cmd, ch⟩ ((s.push ch cmd).ringOf ch) ((s.push ch cmd).eventsOf ch)
      (started ch s.executed) := by
  refine .queued (s.ringOf ch) (ringOf_push s ch cmd) ?_ ?_ hcompletion
  · intro older holder
    exact hi.ring_lt older (mem_of_mem_filter holder)
  · intro e he
    exact hi.events_lt e (mem_of_mem_filter he)

theorem Inv.transfers (hi : Inv c s) (d : Transfers)
    (hdtr : DtrOk c d (s.chan c.dtrChan).completion (s.chan c.dtrChan).call)
    (hlog : ∀ e, Sent s.transferred e → Sent d.log e) :
    Inv c { s with
      dtrRing := d.ring, dtrTodo := d.todo, dtrEvents := d.events, transferred := d.log } where
  calls := hi.calls
  dtr := hdtr
  ring_lt := hi.ring_lt
  events_lt := hi.events_lt
  completion_lt := hi.completion_lt
  msg := hi.msg
  freed_lt := hi.freed_lt
  returned := fun r hr hret msg hmsg => hlog _ (hi.returned r hr hret msg hmsg)

theorem Inv.waiting {op : Op δ} (hi : Inv c s) (hcall : (s.chan ch).call = .armed op)
    (hcompletion : (s.chan ch).completion = []) :
    Inv c ((enqueue c s ch op).2.setCall ch (.waiting op (enqueue c s ch op).1)) := by
  have h := hi.calls ch
  have hdtr := hi.dtr
  have hmsg := hi.msg
  have hlt : ∀ id ∈ (s.chan ch).completion, id < s.next + 1 :=
    fun id hid => Nat.lt_succ_of_lt (hi.completion_lt ch id hid)
  rw [hcall] at h
  have hno : ch = c.dtrChan → NoElems s.transfers := by
    intro heq
    rw [← heq, hcall] at hdtr
    exact hdtr
  cases op with
  | prepare =>
    refine hi.setChanOf (hi.sameBut_push ch .startChan) ⟨?_, ?_, hlt, ?_⟩
    · exact ⟨h, (hi.queued .startChan hcompletion).congr rfl rfl rfl⟩
    · exact hno
    · intro _ m hm
      cases hm
  | unprepare =>
    refine hi.setChanOf (hi.sameBut_push ch .resetChan) ⟨?_, ?_, hlt, ?_⟩
    · exact ⟨h.1, (hi.queued .resetChan hcompletion).congr rfl rfl rfl⟩
    · exact hno
    · intro _ m hm
      cases hm
  | tiocmset dev tiocm msg =>
    have hset : Inv c (s.setCall ch (.waiting (.tiocmset dev tiocm msg) msg)) := by
      refine hi.setChan ⟨⟨h.1, h.2.1.congr rfl, rfl⟩, ?_, hi.completion_lt ch, ?_⟩
      · exact fun heq => .failed (hno heq) hcompletion
      · intro heq
        rw [← heq, hcall] at hmsg
        exact hmsg
    have hempty := hno h.1
    have hring : s.dtrRing = [] := hempty.ring
    have htodo : s.dtrTodo = [] := hempty.todo
    refine hset.transfers ⟨_, _, s.dtrEvents, s.transferred⟩ ?_ fun _ hsent => hsent
    rw [State.setCall, setChan_chan, ← h.1, Function.update_self]
    refine .queued ?_ ?_ hempty.events hcompletion
    · exact congrArg (· ++ _) hring
    · exact congrArg (· ++ _) htodo

theorem Inv.send {op : Op δ} {pmError : Bool} (hi : Inv c s) (hcall : (s.chan ch).call = .armed op)
    (hok : ∀ id, (queue c s ch pmError op).1 = .ok id → (s.chan ch).completion = []) :
    Inv c (send c s ch pmError op) := by
  unfold Command.send
  rcases queue_cases c s ch pmError op with ⟨e, hqueue⟩ | hqueue
  · rw [hqueue]
    exact hi.fail hcall e
  · have hcompletion := hok _ (congrArg Prod.fst hqueue)
    rw [hqueue]
    exact hi.waiting hcall hcompletion

theorem MsgPhase.noElems (h : MsgPhase d completion e) (hleft : ∀ e' ∈ d.ring, e'.id ≠ e.id) :
    NoElems d := by
  cases h with
  | queued hring => exact absurd rfl (hleft e (by simp [hring]))
  | transferred _ hring => exact absurd rfl (hleft e (by simp [hring]))
  | answered hno => exact hno
  | failed hno => exact hno
  | ignored hring => exact absurd rfl (hleft e (by simp [hring]))

theorem Inv.resetChan (hi : Inv c s) (hcall : (s.chan ch).call = .resetting) :
    Inv c (resetChan c s ch) := by
  have h := hi.calls ch
  have hdtr := hi.dtr
  rw [hcall] at h
  have hset : Inv c (s.setCall ch .idle) := by
    refine hi.setChan ⟨?_, ?_, hi.completion_lt ch, ?_⟩
    · intro hen
      cases hen.symm.trans h
    · intro heq
      rw [← heq, hcall] at hdtr
      exact hdtr
    · intro _ m hm
      cases hm
  unfold Command.resetChan
  dsimp only
  split_ifs with heq
  · refine hset.transfers ⟨[], [], [], s.transferred⟩ ?_ fun _ hsent => hsent
    rw [State.setCall, setChan_chan, ← heq, Function.update_self]
    exact ⟨rfl, rfl, rfl⟩
  · exact hset

theorem Inv.free {m : Nat} (hi : Inv c s) (hcall : (s.chan c.dtrChan).call = .idle)
    (hlt : m < s.next) : Inv c { s with freed := s.freed ++ [m] } where
  calls := hi.calls
  dtr := hi.dtr
  ring_lt := hi.ring_lt
  events_lt := hi.events_lt
  completion_lt := hi.completion_lt
  msg := by
    intro m' hm'
    change (s.chan c.dtrChan).call.msg = some m' at hm'
    rw [hcall] at hm'
    cases hm'
  freed_lt := by
    intro m' hm'
    rcases mem_append.mp hm' with hold | hnew
    · exact hi.freed_lt m' hold
    · rw [mem_singleton.mp hnew]
      exact hlt
  returned := hi.returned

theorem Inv.tiocmExit {dev : δ} {tiocm : UInt32} {msg : Nat} {ret : Option Errno} (hi : Inv c s)
    (hcall : (s.chan ch).call = .tiocmExit dev tiocm msg ret)
    (hleft : ∀ e, ret = some e → ∀ e' ∈ s.dtrRing, e'.id ≠ msg) :
    Inv c { s.setCall ch .idle with
      freed := s.freed ++ [msg], rets := s.rets ++ [⟨dev, tiocm, some msg, ret⟩] } := by
  have h := hi.calls ch
  rw [hcall] at h
  obtain ⟨heq, henabled⟩ := h
  have hdtr := hi.dtr
  have hmsg := hi.msg msg
  rw [← heq, hcall] at hdtr hmsg
  have hdone : NoElems s.transfers ∧
      (ret = none → Sent s.transferred ⟨msg, dtrMsg (c.ulChanId dev) tiocm⟩) := by
    cases ret with
    | none => exact ⟨hdtr.1, fun _ => hdtr.2⟩
    | some e =>
      refine ⟨MsgPhase.noElems hdtr (hleft e rfl), ?_⟩
      intro hret
      cases hret
  have hset : Inv c (s.setCall ch .idle) := by
    refine hi.setChan ⟨fun _ => henabled.congr rfl, fun _ => hdone.1, hi.completion_lt ch, ?_⟩
    intro _ m hm
    cases hm
  have hidle : ((s.setCall ch .idle).chan c.dtrChan).call = .idle := by
    rw [State.setCall, setChan_chan, ← heq, Function.update_self]
  refine (hset.free hidle (hmsg rfl).1).ret ⟨dev, tiocm, some msg, ret⟩ ?_
  intro hret msg' hmsg'
  cases hmsg'
  exact hdone.2 hret

theorem Inv.finish (hi : Inv c s) (hok : OnTime c s (.finish ch))
    (hstep : finish c s ch (s.chan ch).call = some t) : Inv c t := by
  have h := hi.calls ch
  have hdtr := hi.dtr
  cases hcall : (s.chan ch).call with
  | enabling id =>
    rw [hcall] at h hstep
    obtain ⟨hstate, hring, hevents, hstart⟩ := h
    injection hstep with hstep
    subst hstep
    refine hi.setChan ⟨?_, ?_, hi.completion_lt ch, ?_⟩
    · intro hen
      exact ⟨hen, hring, hevents, by rw [hstart]; rfl⟩
    · intro heq
      rw [← heq, hcall] at hdtr
      exact hdtr
    · intro _ m hm
      cases hm
  | resetting =>
    rw [hcall] at hstep
    injection hstep with hstep
    subst hstep
    exact hi.resetChan hcall
  | tiocmExit dev tiocm msg ret =>
    rw [hcall] at hstep
    injection hstep with hstep
    subst hstep
    refine hi.tiocmExit hcall ?_
    intro e hret
    subst hret
    exact hok dev tiocm msg e hcall
  | idle => rw [hcall] at hstep; cases hstep
  | locked op => rw [hcall] at hstep; cases hstep
  | armed op => rw [hcall] at hstep; cases hstep
  | waiting op id => rw [hcall] at hstep; cases hstep
  | woken op id answer => rw [hcall] at hstep; cases hstep

theorem setChan_self (s : State ι δ) (ch : ι) : s.setChan ch (s.chan ch) = s := by
  rw [State.setChan, Function.update_eq_self]

theorem started_of_start {cmd : Cmd ι} {code : UInt32} {executed : List (Cmd ι × UInt32)}
    (hcmd : cmd.cmd = .startChan) (hcode : code = evCcSuccess) :
    started cmd.chan ((cmd, code) :: executed) = some cmd.id := by
  simp [started, hcmd, hcode]

/-- The state in which the device has executed the head of the command ring. -/
def State.execute (s : State ι δ) (cmd : Cmd ι) (code : UInt32) (ring : List (Cmd ι)) : State ι δ :=
  { s with
    cmdRing := ring
    cmdEvents := s.cmdEvents ++ [(cmd, code)]
    executed := (cmd, code) :: s.executed }

theorem eventsOf_execute (s : State ι δ) (cmd : Cmd ι) (code : UInt32) (ring : List (Cmd ι)) :
    (s.execute cmd code ring).eventsOf cmd.chan = s.eventsOf cmd.chan ++ [(cmd, code)] := by
  simp [State.execute, State.eventsOf, filter_append]

theorem Inv.execute {cmd : Cmd ι} {ring : List (Cmd ι)} (hi : Inv c s)
    (hring : s.cmdRing = cmd :: ring) (code : UInt32) : Inv c (s.execute cmd code ring) := by
  have hsame : SameBut s (s.execute cmd code ring) cmd.chan := by
    refine ⟨rfl, rfl, rfl, rfl, le_refl _, ?_, ?_, ?_, ?_, ?_⟩
    · intro other hne
      simp [State.execute, State.ringOf, hring, Ne.symm hne]
    · intro other hne
      simp [State.execute, State.eventsOf, filter_append, Ne.symm hne]
    · intro other hne
      simp [State.execute, started, Ne.symm hne]
    · intro cmd' hcmd
      refine hi.ring_lt cmd' ?_
      rw [hring]
      exact mem_cons_of_mem _ hcmd
    · intro e he
      rcases mem_append.mp he with hold | hnew
      · exact hi.events_lt e hold
      · rw [mem_singleton.mp hnew]
        refine hi.ring_lt cmd ?_
        rw [hring]
        exact mem_cons_self
  have hcall := hi.calls cmd.chan
  have hhead : s.ringOf cmd.chan = cmd :: (s.execute cmd code ring).ringOf cmd.chan := by
    simp [State.execute, State.ringOf, hring]
  rw [hhead] at hcall
  have hdone : CallOk c cmd.chan (s.chan cmd.chan) ((s.execute cmd code ring).ringOf cmd.chan)
      (s.eventsOf cmd.chan ++ [(cmd, code)]) (started cmd.chan ((cmd, code) :: s.executed))
      (s.chan cmd.chan).call :=
    hcall.execute fun hstart hcode => started_of_start hstart hcode
  rw [← eventsOf_execute s cmd code ring] at hdone
  have hmoved : Moved c (s.execute cmd code ring) cmd.chan (s.chan cmd.chan) := by
    refine ⟨hdone, ?_, hi.completion_lt cmd.chan, ?_⟩
    · intro heq
      rw [heq]
      exact hi.dtr
    · intro heq
      rw [heq]
      exact hi.msg
  have hset := hi.setChanOf hsame hmoved
  rwa [show s.chan cmd.chan = (s.execute cmd code ring).chan cmd.chan from rfl,
    setChan_self] at hset

theorem Inv.transfer {todo : List Elem} (hi : Inv c s) (htodo : s.dtrTodo = e :: todo)
    (code : UInt32) :
    Inv c { s with
      dtrTodo := todo
      dtrEvents := s.dtrEvents ++ [(e, code)]
      transferred := (e, code) :: s.transferred } := by
  have hne : ¬ NoElems s.transfers := by
    intro hno
    cases htodo.symm.trans hno.todo
  obtain ⟨own, _, hphase, hback, _⟩ := hi.dtr.phase hne
  refine hi.transfers ⟨s.dtrRing, todo, s.dtrEvents ++ [(e, code)], (e, code) :: s.transferred⟩
    (hback _ _ ?_) ?_
  · cases hphase with
    | queued hring hown hevents hcompletion =>
      cases htodo.symm.trans hown
      refine .transferred code hring rfl ?_ mem_cons_self hcompletion
      exact congrArg (· ++ [(e, code)]) hevents
    | transferred _ _ hown => cases htodo.symm.trans hown
    | answered hno => exact absurd hno hne
    | failed hno => exact absurd hno hne
    | ignored _ hown => cases htodo.symm.trans hown
  · rintro e' ⟨code', hcode, hne', hmem⟩
    exact ⟨code', hcode, hne', mem_cons_of_mem _ hmem⟩

theorem setChan_setChan (s : State ι δ) (ch : ι) (x y : Chan δ) :
    (s.setChan ch x).setChan ch y = s.setChan ch y := by
  simp [State.setChan]

theorem Inv.cmdEvent {cmd : Cmd ι} {code : UInt32} {events : List (Cmd ι × UInt32)} (hi : Inv c s)
    (hevents : s.cmdEvents = (cmd, code) :: events)
    (hok : ∀ op id, (s.chan cmd.chan).call = .waiting op id → (s.chan cmd.chan).completion = [] →
      cmd.id = id) :
    Inv c (processCmdCompletion { s with cmdEvents := events } cmd code) := by
  have hsame : SameBut s { s with cmdEvents := events } cmd.chan := by
    refine ⟨rfl, rfl, rfl, rfl, le_refl _, fun _ _ => rfl, ?_, fun _ _ => rfl, hi.ring_lt, ?_⟩
    · intro other hne
      simp [State.eventsOf, hevents, Ne.symm hne]
    · intro e he
      refine hi.events_lt e ?_
      rw [hevents]
      exact mem_cons_of_mem _ he
  have hlt : cmd.id < s.next := by
    refine hi.events_lt (cmd, code) ?_
    rw [hevents]
    exact mem_cons_self
  have hcall := hi.calls cmd.chan
  have hhead : s.eventsOf cmd.chan =
      (cmd, code) :: State.eventsOf { s with cmdEvents := events } cmd.chan := by
    simp [State.eventsOf, hevents]
  rw [hhead] at hcall
  unfold processCmdCompletion Command.complete
  dsimp only
  rw [setChan_setChan, setChan_chan, Function.update_self]
  refine hi.setChanOf hsame ⟨hcall.complete hok rfl rfl rfl rfl, ?_, ?_, ?_⟩
  · intro heq
    have hdtr := hi.dtr
    rw [← heq] at hdtr
    exact hdtr.of_events hcall
  · intro id hid
    rcases mem_append.mp hid with hold | hnew
    · exact hi.completion_lt cmd.chan id hold
    · rw [mem_singleton.mp hnew]
      exact hlt
  · intro heq
    have hmsg := hi.msg
    rw [← heq] at hmsg
    exact hmsg

theorem Inv.dtrEvent {code : UInt32} {events : List (Elem × UInt32)} (hi : Inv c s)
    (hevents : s.dtrEvents = (e, code) :: events) : Inv c (parseXferEvent c s e code events) := by
  have hne : ¬ NoElems s.transfers := by
    intro hno
    cases hevents.symm.trans hno.events
  have hcall := hi.calls c.dtrChan
  obtain ⟨own, hmsg, hphase, hback, hframe⟩ := hi.dtr.phase hne
  have henabled := (hcall.of_msg hmsg).2
  cases hphase with
  | queued _ _ hown => cases hevents.symm.trans hown
  | answered hno => exact absurd hno hne
  | failed hno => exact absurd hno hne
  | ignored _ _ hown => cases hevents.symm.trans hown
  | transferred code' hring htodo hown hmem hcompletion =>
    cases hevents.symm.trans hown
    -- the element has left the ring
    have hpopped : Inv c { s with dtrRing := [], dtrEvents := [] } := by
      refine hi.transfers ⟨[], s.dtrTodo, [], s.transferred⟩ (hback _ _ ?_) fun _ hsent => hsent
      exact .failed ⟨rfl, htodo, rfl⟩ hcompletion
    unfold parseXferEvent
    split_ifs with hstate hcode
    · exact absurd henabled.chState hstate
    · have hring : s.dtrRing = [e] := hring
      simp only [hring, dtrUlXferCb, eq_self, if_true]
      split_ifs with hover
      · exact hpopped
      · refine hpopped.setChan ⟨?_, ?_, ?_, fun _ => hpopped.msg⟩
        · exact hframe _ _ _ _ _ _ hcall rfl
        · intro _
          refine hback _ _ (.answered ⟨rfl, htodo, rfl⟩ ⟨code, hcode, hover, hmem⟩ ?_)
          rw [hcompletion]
          rfl
        · intro id hid
          rcases mem_append.mp hid with hold | hnew
          · exact hpopped.completion_lt c.dtrChan id hold
          · rw [mem_singleton.mp hnew]
            exact (hi.msg e.id hmsg).1
    · refine hi.transfers ⟨s.dtrRing, s.dtrTodo, [], s.transferred⟩ (hback _ _ ?_)
        fun _ hsent => hsent
      exact .ignored hring htodo rfl hcompletion

variable [DecidableEq δ] {l : Label ι δ}

theorem inv_step (hi : Inv c s) (hok : OnTime c s l) (hstep : step c s l = some t) : Inv c t := by
  cases l with
  | prepare ch inited =>
    simp only [step] at hstep
    split_ifs at hstep with hcall
    injection hstep with hstep
    subst hstep
    exact hi.prepareChannel hcall inited
  | unprepare ch =>
    simp only [step] at hstep
    split_ifs at hstep with hcall
    injection hstep with hstep
    subst hstep
    exact hi.unprepareChannel hcall
  | tiocmset dev tiocm =>
    injection hstep with hstep
    subst hstep
    exact hi.tiocmset dev tiocm
  | tiocmsetLocked i alloc =>
    cases hreq : s.requests[i]? with
    | none =>
      simp only [step, hreq] at hstep
      cases hstep
    | some req =>
      obtain ⟨dev, tiocm⟩ := req
      simp only [step, hreq] at hstep
      split_ifs at hstep with hcall
      injection hstep with hstep
      subst hstep
      exact Inv.tiocmsetLocked (hi.requests s.tiocm (s.requests.eraseIdx i)) hcall.1 hcall.2 dev
        tiocm alloc
  | reinit ch =>
    cases hcall : (s.chan ch).call with
    | locked op =>
      simp only [step, hcall] at hstep
      injection hstep with hstep
      subst hstep
      exact hi.reinit hcall
    | _ =>
      simp only [step, hcall] at hstep
      cases hstep
  | send ch pmError =>
    cases hcall : (s.chan ch).call with
    | armed op =>
      simp only [step, hcall] at hstep
      injection hstep with hstep
      subst hstep
      exact hi.send hcall fun id => hok op id hcall
    | _ =>
      simp only [step, hcall] at hstep
      cases hstep
  | wake ch =>
    cases hcall : (s.chan ch).call with
    | waiting op id =>
      cases hcompletion : (s.chan ch).completion with
      | nil =>
        simp only [step, hcall, hcompletion] at hstep
        cases hstep
      | cons answer rest =>
        simp only [step, hcall, hcompletion] at hstep
        injection hstep with hstep
        subst hstep
        exact hi.wake hcall hcompletion
    | _ =>
      simp only [step, hcall] at hstep
      cases hstep
  | timeout ch =>
    cases hcall : (s.chan ch).call with
    | waiting op id =>
      cases hcompletion : (s.chan ch).completion with
      | nil =>
        simp only [step, hcall, hcompletion] at hstep
        injection hstep with hstep
        subst hstep
        exact hi.timeout hcall .eio
      | cons answer rest =>
        simp only [step, hcall, hcompletion] at hstep
        cases hstep
    | _ =>
      simp only [step, hcall] at hstep
      cases hstep
  | afterWait ch =>
    cases hcall : (s.chan ch).call with
    | woken op id answer =>
      simp only [step, hcall] at hstep
      injection hstep with hstep
      subst hstep
      exact hi.afterWait hcall
    | _ =>
      simp only [step, hcall] at hstep
      cases hstep
  | finish ch => exact hi.finish hok hstep
  | execute code =>
    cases hring : s.cmdRing with
    | nil =>
      simp only [step, hring] at hstep
      cases hstep
    | cons cmd ring =>
      simp only [step, hring] at hstep
      injection hstep with hstep
      subst hstep
      exact hi.execute hring code
  | transfer code =>
    cases htodo : s.dtrTodo with
    | nil =>
      simp only [step, htodo] at hstep
      cases hstep
    | cons e todo =>
      simp only [step, htodo] at hstep
      injection hstep with hstep
      subst hstep
      exact hi.transfer htodo code
  | cmdEvent =>
    cases hevents : s.cmdEvents with
    | nil =>
      simp only [step, hevents] at hstep
      cases hstep
    | cons head events =>
      obtain ⟨cmd, code⟩ := head
      simp only [step, hevents] at hstep
      injection hstep with hstep
      subst hstep
      exact hi.cmdEvent hevents fun op id => hok cmd code events op id hevents
  | dtrEvent =>
    cases hevents : s.dtrEvents with
    | nil =>
      simp only [step, hevents] at hstep
      cases hstep
    | cons head events =>
      obtain ⟨e, code⟩ := head
      simp only [step, hevents] at hstep
      injection hstep with hstep
      subst hstep
      exact hi.dtrEvent hevents
  | dtrDlXferCb dev msg =>
    injection hstep with hstep
    subst hstep
    exact hi.requests _ s.requests

theorem onTime_of_answered (hi : Inv c s) (hstep : step c s l = some t) (ha : Answered c t) :
    OnTime c s l := by
  cases l with
  | send ch pmError =>
    intro op id hcall hqueue
    have h := hi.calls ch
    rw [hcall] at h
    simp only [step, hcall] at hstep
    injection hstep with hstep
    cases op with
    | unprepare => exact h.2.2.2
    | tiocmset => exact h.2.2
    | prepare =>
      rcases queue_cases c s ch pmError .prepare with ⟨e, hfail⟩ | hsent
      · rw [hfail] at hqueue
        cases hqueue
      · rw [send, hsent] at hstep
        subst hstep
        cases hcompletion : (s.chan ch).completion with
        | nil => rfl
        | cons answer rest =>
          -- the command is new, so the completion is of another one
          have hown : answer = s.next := by
            refine ha.ends ch .prepare s.next answer rest ?_ ?_
            · simp [enqueue, State.setCall]
            · simpa [enqueue, State.setCall, State.push] using hcompletion
          have hlt := hi.completion_lt ch answer (by simp [hcompletion])
          exact absurd hown (Nat.ne_of_lt hlt)
  | cmdEvent =>
    intro cmd code events op id hevents hcall hcompletion
    simp only [step, hevents] at hstep
    injection hstep with hstep
    subst hstep
    refine ha.ends cmd.chan op id cmd.id [] ?_ ?_
    · simpa [processCmdCompletion, complete] using hcall
    · simpa [processCmdCompletion, complete] using hcompletion
  | finish ch =>
    intro dev tiocm msg ret hcall e hmem heq
    simp only [step, hcall, finish] at hstep
    injection hstep with hstep
    subst hstep
    refine ha.allocated e hmem ?_
    rw [heq]
    exact mem_append_right _ mem_cons_self
  | _ => trivial

/-- In every run the calls have their own answers, in every state, exactly when no late answer
meets a step of it. -/
theorem answered_iff (c : Config ι δ) (ls : List (Label ι δ)) :
    (∀ t ∈ statesOf (step c) init ls, Answered c t) ↔
      ∀ x ∈ stepsOf (step c) init ls, OnTime c x.1 x.2 := by
  have hshow : ∀ s, Inv c s → Answered c s := fun _ hi => hi.answered
  have hok : ∀ s l t, Inv c s → step c s l = some t → Answered c t → OnTime c s l :=
    fun _ _ _ hi hstep ha => onTime_of_answered hi hstep ha
  have hkeep : ∀ s l t, Inv c s → OnTime c s l → step c s l = some t → Inv c t :=
    fun _ _ _ hi hl hstep => inv_step hi hl hstep
  exact forall_statesOf_iff_of hshow hok hkeep inv_init ls

/-- The controller with `IP_CTRL_1_OUT` for DTR and one device, on `DUN_OUT`. -/
def modem : Config Nat Unit := ⟨18, fun _ => 32, 128, 32⟩

def startRun (ch : Nat) : List (Label Nat Unit) :=
  [.prepare ch true, .reinit ch, .send ch false, .execute evCcSuccess, .cmdEvent, .wake ch,
    .afterWait ch, .finish ch]

def lateReset : List (Label Nat Unit) :=
  startRun 4 ++
    [.unprepare 4, .reinit 4, .send 4 false, .timeout 4, .finish 4, .prepare 4 true, .reinit 4,
      .send 4 false, .execute evCcSuccess, .cmdEvent, .wake 4, .afterWait 4, .finish 4]

def lateMessage : List (Label Nat Unit) :=
  startRun 18 ++
    [.tiocmset () (tiocmDtr ||| tiocmRts), .tiocmsetLocked 0 true, .reinit 18, .send 18 false,
      .timeout 18, .finish 18]

/-- The channel is enabled with its START still on the command ring, and the message is freed with
its element on the DTR ring. -/
theorem not_answered :
    (¬ ∀ t ∈ statesOf (step modem) init lateReset, Answered modem t) ∧
      ¬ ∀ t ∈ statesOf (step modem) init lateMessage, Answered modem t := by
  constructor
  · intro h
    have hreset : (statesOf (step modem) init lateReset).any (fun t =>
        decide ((t.chan 4).chState = .enabled ∧ started 4 t.executed = none)) = true := by
      decide
    obtain ⟨t, hmem, ht⟩ := List.any_eq_true.mp hreset
    obtain ⟨hstate, hstart⟩ := of_decide_eq_true ht
    have hsome := (h t hmem).enabled 4 hstate
    rw [hstart] at hsome
    cases hsome
  · intro h
    have hfreed : (statesOf (step modem) init lateMessage).any (fun t =>
        decide (∃ e ∈ t.dtrRing, e.id ∈ t.freed)) = true := by
      decide
    obtain ⟨t, hmem, ht⟩ := List.any_eq_true.mp hfreed
    obtain ⟨e, he, hid⟩ := of_decide_eq_true ht
    exact (h t hmem).allocated e he hid

end ModemSupport.Mhi.Command
