import ModemSupport.Sipc.Smsg

/-! The loop that dispatches the records of the rx ring (`sipc_process_all_msg`), against a remote
processor that may write anything to the ring between two turns of it. -/

namespace ModemSupport.Sipc.Smsg

structure RxBuf where
  mem : Nat → Smsg
  rdptr : UInt32
  wrptr : UInt32

def rxbufSize : UInt32 := 128

namespace RxBuf

def msg (rx : RxBuf) : Smsg := rx.mem (rx.rdptr &&& (rxbufSize - 1)).toNat

def next (rx : RxBuf) : RxBuf := { rx with rdptr := rx.rdptr + 1 }

end RxBuf

/-- What the remote processor has made of the ring when the loop tests it. -/
structure Remote where
  mem : Nat → Smsg
  wrptr : UInt32

def Remote.place (w : Remote) (rx : RxBuf) : RxBuf := { rx with mem := w.mem, wrptr := w.wrptr }

/-- A turn of the loop: the IPC that it starts from, the record it reads, and what
`smsg_msg_process` makes of them. -/
structure Turn where
  ipc : SmsgIpc
  msg : Smsg
  after : Except Fault SmsgIpc

/-- The turns of the loop, and what it leaves. -/
structure Dispatched where
  turns : List Turn
  result : Except Fault (SmsgIpc × RxBuf)

/-- `sipc_process_all_msg`, given what the remote processor writes before each test of the ring; at
the end of that list the loop is still running. -/
def sipcProcessAllMsg (debugEnable : Bool) : List Remote → RxBuf → SmsgIpc → Dispatched
  | [], rx, ipc => ⟨[], .ok (ipc, rx)⟩
  | w :: ws, rx, ipc =>
    let rx := w.place rx
    if rx.wrptr = rx.rdptr then ⟨[], .ok (ipc, rx)⟩
    else
      match smsgMsgProcess debugEnable ipc rx.msg with
      | .error fault => ⟨[⟨ipc, rx.msg, .error fault⟩], .error fault⟩
      | .ok ipc' =>
        let rest := sipcProcessAllMsg debugEnable ws rx.next ipc'
        ⟨⟨ipc, rx.msg, .ok ipc'⟩ :: rest.turns, rest.result⟩

def received : List Remote → RxBuf → List Smsg
  | [], _ => []
  | w :: ws, rx =>
    let rx := w.place rx
    if rx.wrptr = rx.rdptr then [] else rx.msg :: received ws rx.next

/-- The records that are dispatched: with `debug_enable` set, those before the first
`SMSG_TYPE_DIE`. -/
def dispatched (debugEnable : Bool) (msgs : List Smsg) : List Smsg :=
  msgs.takeWhile fun msg => !(msg.type == typeDie && debugEnable)

/-- A turn is safe: it indexes no array past its end, and leaves the entries of every channel but
the one that its record names. -/
structure Turn.Safe (t : Turn) : Prop where
  inBounds : ∀ array i, t.after ≠ .error (.outOfBounds array i)
  frame : ∀ ipc', t.after = .ok ipc' →
    ∀ j < validChNr, j ≠ channel2index t.msg.channel → SmsgIpc.Agree ipc' t.ipc j

theorem safe_of_panic {debugEnable : Bool} {ipc : SmsgIpc} {msg : Smsg}
    (h : msg.type = typeDie ∧ debugEnable) :
    Turn.Safe ⟨ipc, msg, smsgMsgProcess debugEnable ipc msg⟩ := by
  rw [smsgMsgProcess_of_panic h]
  constructor
  · intro array i he
    cases he
  · intro ipc' he
    cases he

theorem turn_safe_iff {debugEnable : Bool} {ipc : SmsgIpc} {msg : Smsg}
    (hdie : ¬(msg.type = typeDie ∧ debugEnable)) :
    Turn.Safe ⟨ipc, msg, smsgMsgProcess debugEnable ipc msg⟩ ↔
      channel2index msg.channel ≠ invalidChanelIndex := by
  constructor
  · intro hsafe hinvalid
    exact hsafe.inBounds .busy invalidChanelIndex (smsgMsgProcess_of_not_configured hdie hinvalid)
  · intro hvalid
    have hok : smsgMsgProcess debugEnable ipc msg = .ok _ :=
      smsgMsgProcess_of_configured hdie hvalid
    rw [hok]
    constructor
    · intro array i he
      cases he
    · intro ipc' he j _ hj
      exact smsgMsgProcess_agree (hok.trans he) hj

/-- Every turn of the loop is safe exactly when every record that it dispatches names a configured
channel. -/
theorem turns_safe_iff (debugEnable : Bool) (remote : List Remote) (rx : RxBuf) (ipc : SmsgIpc) :
    (∀ t ∈ (sipcProcessAllMsg debugEnable remote rx ipc).turns, t.Safe) ↔
      ∀ msg ∈ dispatched debugEnable (received remote rx),
        channel2index msg.channel ≠ invalidChanelIndex := by
  induction remote generalizing rx ipc with
  | nil => simp [sipcProcessAllMsg, received, dispatched]
  | cons w ws ih =>
    by_cases hempty : (w.place rx).wrptr = (w.place rx).rdptr
    · simp [sipcProcessAllMsg, received, dispatched, hempty]
    · have hreceived : received (w :: ws) rx =
          (w.place rx).msg :: received ws (w.place rx).next := if_neg hempty
      by_cases hdie : (w.place rx).msg.type = typeDie ∧ debugEnable
      · -- the panic ends the loop, and no record is dispatched from here on
        have hnone : dispatched debugEnable (received (w :: ws) rx) = [] := by
          rw [hreceived, dispatched, List.takeWhile_cons_of_neg]
          simp [hdie.1, hdie.2]
        have hsafe := @safe_of_panic _ ipc _ hdie
        rw [smsgMsgProcess_of_panic hdie] at hsafe
        simp only [sipcProcessAllMsg, if_neg hempty, smsgMsgProcess_of_panic hdie, hnone]
        simpa using hsafe
      · have hsome : dispatched debugEnable (received (w :: ws) rx) =
            (w.place rx).msg :: dispatched debugEnable (received ws (w.place rx).next) := by
          rw [hreceived, dispatched, List.takeWhile_cons_of_pos]
          · rfl
          · simpa [imp_iff_not_or] using hdie
        have hturn := @turn_safe_iff _ ipc _ hdie
        rw [hsome, List.forall_mem_cons, ← hturn]
        by_cases hvalid : channel2index (w.place rx).msg.channel = invalidChanelIndex
        · -- the loop ends with the access out of bounds
          rw [smsgMsgProcess_of_not_configured hdie hvalid] at hturn ⊢
          simp only [sipcProcessAllMsg, if_neg hempty, smsgMsgProcess_of_not_configured hdie hvalid,
            List.forall_mem_singleton]
          constructor
          · intro hsafe
            exact absurd hvalid (hturn.mp hsafe)
          · exact And.left
        · simp only [sipcProcessAllMsg, if_neg hempty, smsgMsgProcess_of_configured hdie hvalid,
            List.forall_mem_cons]
          rw [ih]

/-- A record for a channel that `sipc_cfg` does not list, here channel 32, makes the dispatch index
`busy` past its end. -/
theorem not_turns_safe_channel32 :
    let msg : Smsg := ⟨32, typeOpen, openMagic, 0⟩
    let ipc : SmsgIpc := ⟨fun _ => 0, fun _ => none, fun _ => .unused⟩
    let rx : RxBuf := ⟨fun _ => msg, 0, 0⟩
    ¬∀ t ∈ (sipcProcessAllMsg false [⟨fun _ => msg, 1⟩] rx ipc).turns, t.Safe := by
  intro msg ipc rx hsafe
  have hafter : smsgMsgProcess false ipc msg =
      .error (.outOfBounds .busy invalidChanelIndex) :=
    smsgMsgProcess_of_not_configured (by decide) (by decide)
  have hmsg : (Remote.place ⟨fun _ => msg, 1⟩ rx).msg = msg := rfl
  have hne : (Remote.place ⟨fun _ => msg, 1⟩ rx).wrptr ≠
      (Remote.place ⟨fun _ => msg, 1⟩ rx).rdptr :=
    by decide
  simp only [sipcProcessAllMsg, if_neg hne, hmsg, hafter, List.forall_mem_singleton] at hsafe
  exact hsafe.inBounds .busy invalidChanelIndex rfl

end ModemSupport.Sipc.Smsg
