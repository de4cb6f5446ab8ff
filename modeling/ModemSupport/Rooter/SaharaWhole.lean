import ModemSupport.Rooter.Sahara

/-! When a packet stays in its buffer, when a range is sent as it is in the file, and when an upload
that succeeds has served every request. -/

namespace ModemSupport.Rooter.Sahara

open Lib.Buffer Lib.Loop Lib.Memory List

variable {d : Device} {file rx buf received bs : Bytes} {usbfs : Bool} {s t : State}
  {reads writes left fuel offset size : Nat} {r : Nat × Nat}

theorem dataRange_eq (h : received <+: rx) (hreq : requestOf received = some r) :
    dataRange rx = (r.1 % 2 ^ 32, r.2 % 2 ^ 32) := by
  rw [requestOf] at hreq
  have hsmall : ∀ o, field received o 4 % 2 ^ 32 = field received o 4 := fun o =>
    Nat.mod_eq_of_lt (field_lt received o 4)
  have hcmd : 4 ≤ received.length → qCmd rx = qCmd received := fun hle =>
    field_prefix_eq h (by omega)
  split at hreq
  · next heighteen =>
    split at hreq
    · next hlen =>
      cases hreq
      rw [dataRange, if_pos ((hcmd (by omega)).trans heighteen),
        field_prefix_eq h (by omega), field_prefix_eq h (by omega)]
    · cases hreq
  · next hthree =>
    split at hreq
    · next hlen =>
      cases hreq
      rw [dataRange, if_neg ((hcmd (by omega)).symm ▸ hthree),
        field_prefix_eq h (by omega), field_prefix_eq h (by omega), hsmall, hsmall]
    · cases hreq

theorem prefix_of_packet {rx' : Bytes} {n : Nat}
    (h : saharaRxData usbfs d rx reads = .packet rx' n received) :
    received <+: rx' ∧ sizeofPacketH ≤ received.length := by
  rw [saharaRxData] at h
  split at h
  · simp only at h
    split at h
    · cases h
    · next hlen =>
      split at h
      · split at h
        · cases h
          exact ⟨prefix_store_zero .., not_lt.mp hlen⟩
        · cases h
      · cases h
  · simp only at h
    split at h
    · cases h
    · next hlen =>
      rw [not_not] at hlen
      split at h
      · split at h
        · split at h
          · cases h
            exact ⟨prefix_store_zero .., hlen.ge⟩
          · cases h
        · split at h
          · cases h
          · split at h
            · cases h
              refine ⟨?_, ?_⟩
              · exact prefix_store _ (prefix_store_zero ..) hlen
              · rw [length_append, hlen]
                exact Nat.le_add_right ..
            · cases h
      · cases h

def SecondFits (d : Device) (reads : Nat) : Prop :=
  ∀ head more, d.reads reads = some head → d.reads (reads + 1) = some more →
    sizeofPacketH ≤ head.length → qCmd head < 0x13 →
      min more.length (restLen (qLen head)) ≤ rawBufSz - sizeofPacketH

theorem overrun_iff (usbfs : Bool) (d : Device) (rx : Bytes) (reads : Nat) :
    saharaRxData usbfs d rx reads ≠ .overrun ↔ usbfs = true ∨ SecondFits d reads := by
  rw [saharaRxData]
  cases usbfs with
  | true =>
    refine iff_of_true ?_ (.inl rfl)
    simp only [if_true]
    split
    · exact fun h => Rx.noConfusion h
    · split
      · split <;> exact fun h => Rx.noConfusion h
      · exact fun h => Rx.noConfusion h
  | false =>
    rw [or_iff_right Bool.false_ne_true, SecondFits]
    simp only [Bool.false_eq_true, if_false]
    cases hhead : d.reads reads with
    | none =>
      refine iff_of_true ?_ (by rintro _ _ ⟨⟩)
      simp [sizeofPacketH]
    | some head =>
      by_cases hlen : sizeofPacketH ≤ head.length
      · have htake : (head.take sizeofPacketH).length = sizeofPacketH := by
          rw [length_take, Nat.min_eq_left hlen]
        have hfield : ∀ o, o + 4 ≤ sizeofPacketH →
            field (store rx 0 (head.take sizeofPacketH)) o 4 = field head o 4 := by
          intro o ho
          rw [field_prefix_eq (prefix_store_zero ..) (by rw [htake]; exact ho)]
          exact (field_prefix_eq (List.take_prefix ..) (by rw [htake]; exact ho)).symm
        have hcmd : qCmd (store rx 0 (head.take sizeofPacketH)) = qCmd head := hfield 0 (by decide)
        have hqlen : qLen (store rx 0 (head.take sizeofPacketH)) = qLen head := hfield 4 (by decide)
        rw [Option.getD_some, if_neg (not_not.mpr htake), hcmd, hqlen]
        by_cases hknown : qCmd head < 0x13
        · rw [if_pos hknown]
          cases hmore : d.reads (reads + 1) with
          | none =>
            refine iff_of_true ?_ (by rintro _ _ - ⟨⟩)
            simp only
            split <;> exact fun h => Rx.noConfusion h
          | some more =>
            simp only [length_take, Nat.min_comm (restLen _)]
            by_cases hover : rawBufSz < sizeofPacketH + min more.length (restLen (qLen head))
            · rw [if_pos hover]
              refine iff_of_false (not_not.mpr rfl) fun hall => ?_
              have := hall head more rfl rfl hlen hknown
              have hsz : rawBufSz = 4096 := rfl
              have hh : sizeofPacketH = 8 := rfl
              omega
            · rw [if_neg hover]
              refine iff_of_true ?_ ?_
              · split <;> exact fun h => Rx.noConfusion h
              · rintro _ _ ⟨⟩ ⟨⟩ - -
                omega
        · rw [if_neg hknown]
          refine iff_of_true (fun h => Rx.noConfusion h) ?_
          rintro _ _ ⟨⟩ - - hc
          exact absurd hc hknown
      · have htake : (head.take sizeofPacketH).length ≠ sizeofPacketH := by
          rw [length_take]
          omega
        rw [Option.getD_some, if_pos htake]
        refine iff_of_true (fun h => Rx.noConfusion h) ?_
        rintro _ _ ⟨⟩ - hl
        exact absurd hl hlen

theorem length_transferLoop_le (d : Device) (fuel : Nat) (file : Bytes) (left writes : Nat) :
    (transferLoop d fuel file left writes).1.length ≤ left := by
  induction fuel generalizing file left writes with
  | zero => exact Nat.zero_le _
  | succ fuel ih =>
    rw [transferLoop]
    by_cases hzero : left = 0
    · rw [if_pos hzero]
      exact Nat.zero_le _
    rw [if_neg hzero]
    simp only
    split
    · exact Nat.zero_le _
    · split
      · exact Nat.zero_le _
      · have hrest := ih (file.drop (min left rawBufSz)) (left - min left rawBufSz) (writes + 1)
        simp only [length_append, length_take]
        omega

theorem writesAll_iff (hpos : 0 < left) : WritesAll d writes left ↔
    min left rawBufSz ≤ d.writes writes ∧
      WritesAll d (writes + 1) (left - min left rawBufSz) := by
  rw [WritesAll, WritesAll]
  constructor
  · intro h
    refine ⟨by simpa using h 0 (by simpa using hpos), fun i hi => ?_⟩
    have hnext := h (i + 1) (by rw [Nat.mul_add]; omega)
    have hsame : min (left - min left rawBufSz - rawBufSz * i) rawBufSz =
        min (left - rawBufSz * (i + 1)) rawBufSz := by
      rw [Nat.mul_add]
      omega
    rw [hsame, Nat.add_right_comm, Nat.add_assoc]
    exact hnext
  · rintro ⟨hfirst, hrest⟩ i hi
    cases i with
    | zero => simpa using hfirst
    | succ i =>
      rw [Nat.mul_add] at hi
      have hnext := hrest i (by omega)
      have hsame : min (left - min left rawBufSz - rawBufSz * i) rawBufSz =
          min (left - rawBufSz * (i + 1)) rawBufSz := by
        rw [Nat.mul_add]
        omega
      rwa [hsame, Nat.add_right_comm, Nat.add_assoc] at hnext

/-- All bytes are sent just when the writes send all of theirs, and then they are those of the
file. -/
theorem transferLoop_spec (fuel : Nat) (file : Bytes) (left writes : Nat) (hfuel : left ≤ fuel)
    (hfile : left ≤ file.length) :
    ((transferLoop d fuel file left writes).1.length = left ↔ WritesAll d writes left) ∧
      (WritesAll d writes left → (transferLoop d fuel file left writes).1 = file.take left) := by
  induction fuel generalizing file left writes with
  | zero =>
    obtain rfl : left = 0 := Nat.le_zero.mp hfuel
    exact ⟨iff_of_true rfl fun i hi => absurd hi (Nat.not_lt_zero _), fun _ => rfl⟩
  | succ fuel ih =>
    rw [transferLoop]
    by_cases hzero : left = 0
    · subst hzero
      exact ⟨iff_of_true rfl fun i hi => absurd hi (Nat.not_lt_zero _), fun _ => rfl⟩
    have hpos : 0 < left := Nat.pos_of_ne_zero hzero
    have hsz : 0 < rawBufSz := by decide
    have hpiece : (file.take (min left rawBufSz)).length = min left rawBufSz := by
      rw [length_take]
      omega
    rw [if_neg hzero, writesAll_iff hpos]
    simp only
    rw [if_neg (not_not.mpr hpiece)]
    obtain ⟨hlen, hall⟩ := ih (file.drop (min left rawBufSz)) (left - min left rawBufSz)
      (writes + 1) (by omega) (by rw [length_drop]; omega)
    have hle := length_transferLoop_le d fuel (file.drop (min left rawBufSz))
      (left - min left rawBufSz) (writes + 1)
    by_cases hnone : min (d.writes writes) (min left rawBufSz) = 0
    · rw [if_pos hnone]
      have hshort : ¬ min left rawBufSz ≤ d.writes writes := by omega
      exact ⟨iff_of_false (by simp only [length_nil]; omega) fun h => hshort h.1,
        fun h => absurd h.1 hshort⟩
    · rw [if_neg hnone]
      simp only [length_append, length_take]
      constructor
      · rw [← hlen]
        omega
      · rintro ⟨hfirst, hrest⟩
        rw [Nat.min_eq_right hfirst, take_take, Nat.min_self, hall hrest, ← take_add]
        congr 1
        omega

theorem sent_iff (hrx : received <+: rx) (hreq : requestOf received = some r)
    (hfile : r.1 + r.2 ≤ file.length) :
    (startImageTransfer d file rx writes).1 = range file r ↔ Sendable d file writes r := by
  have hrange : (range file r).length = r.2 := by
    rw [range, length_take, length_drop]
    omega
  rw [startImageTransfer, dataRange_eq hrx hreq]
  simp only
  have hle := length_transferLoop_le d (r.2 % 2 ^ 32) (file.drop (r.1 % 2 ^ 32)) (r.2 % 2 ^ 32)
    writes
  by_cases hsmall : r.2 < 2 ^ 32
  · have hmod := Nat.mod_eq_of_lt hsmall
    have hoffset := Nat.mod_le r.1 (2 ^ 32)
    rw [hmod]
    obtain ⟨hlen, hall⟩ := transferLoop_spec (d := d) r.2 (file.drop (r.1 % 2 ^ 32)) r.2 writes
      le_rfl (by rw [length_drop]; omega)
    constructor
    · intro heq
      have hwrites : WritesAll d writes r.2 := hlen.mp (by rw [heq, hrange])
      exact ⟨hsmall, (hall hwrites).symm.trans heq, hwrites⟩
    · rintro ⟨-, hsame, hwrites⟩
      exact (hall hwrites).trans hsame
  · refine iff_of_false (fun heq => ?_) fun h => hsmall h.1
    rw [heq, hrange] at hle
    have hlt := Nat.mod_lt r.2 (by decide : 0 < 2 ^ 32)
    omega

inductive StepCase (d : Device) (file : Bytes) (s : State) : List Event × Option State → Prop
  | overrun : StepCase d file s ([.overrun], none)
  | failed : StepCase d file s ([.returned false], none)
  | quiet {t : State} : (∀ q, t.pc ≠ .done q) → StepCase d file s ([], some t)
  | request {rx received : Bytes} {t : State} : received <+: rx → t.pc = .loop →
      StepCase d file s
        ([.request received s.writes (startImageTransfer d file rx s.writes).1], some t)
  | ended {rx received : Bytes} {t : State} : received <+: rx → endStatus rx = 0 →
      StepCase d file s ([.ended received], some t)
  | done {q : Nat} {ok : Bool} : s.pc = .done q → StepCase d file s ([.returned ok], none)

theorem stepCase_hello (d : Device) (file rx : Bytes) (reads writes : Nat) (s : State) :
    StepCase d file s (hello d rx reads writes) := by
  rw [hello]
  split
  · exact .failed
  · split
    · exact .failed
    · exact .quiet fun q h => Pc.noConfusion h

theorem stepCase_loopPacket (d : Device) (file : Bytes) (s : State) (h : received <+: rx) :
    StepCase d file s (loopPacket d file rx reads s.writes received) := by
  rw [loopPacket]
  split
  · exact .request h rfl
  · split
    · split
      · next hstatus => exact .ended h hstatus
      · exact .failed
    · split
      · exact .quiet fun q h => Pc.noConfusion h
      · exact .failed

theorem stepCase (usbfs : Bool) (d : Device) (file : Bytes) (s : State) :
    StepCase d file s (step usbfs d file s) := by
  rw [step]
  cases hrx : saharaRxData usbfs d s.rx s.reads with
  | overrun => exact .overrun
  | failed rx reads =>
    cases hpc : s.pc with
    | first => exact .quiet fun q h => Pc.noConfusion h
    | _ => exact .failed
  | packet rx reads received =>
    cases hpc : s.pc with
    | first => exact stepCase_hello ..
    | second => exact stepCase_hello ..
    | loop => exact stepCase_loopPacket d file s (prefix_of_packet hrx).1
    | done q => exact .done hpc

theorem ended_of_returned {es : List Event} (h : Ends (step usbfs d file) s es)
    (hpc : ∀ q, s.pc ≠ .done q) (hok : Event.returned true ∈ es) :
    ∃ received, Event.ended received ∈ es := by
  induction h with
  | @stop s hstop =>
    have hcase := stepCase usbfs d file s
    generalize step usbfs d file s = r at hcase hok hstop
    cases hcase with
    | overrun => simp at hok
    | failed => simp at hok
    | quiet _ => cases hstop
    | request _ _ => cases hstop
    | ended _ _ => cases hstop
    | done hdone => exact absurd hdone (hpc _)
  | @next s t es hnext _ ih =>
    have hcase := stepCase usbfs d file s
    generalize step usbfs d file s = r at hcase hok hnext
    rw [mem_append] at hok
    have hmore : (∀ q, t.pc ≠ .done q) → Event.returned true ∉ r.1 →
        ∃ received, Event.ended received ∈ r.1 ++ es := by
      intro ht hnot
      obtain ⟨received, hmem⟩ := ih ht (hok.resolve_left hnot)
      exact ⟨received, mem_append_right _ hmem⟩
    cases hcase with
    | overrun => cases hnext
    | failed => cases hnext
    | quiet ht =>
      cases hnext
      exact hmore ht (not_mem_nil)
    | request _ ht =>
      cases hnext
      exact hmore (fun q hq => by rw [ht] at hq; cases hq) (by simp)
    | @ended rx received _ _ _ => exact ⟨received, mem_append_left _ (by simp)⟩
    | done _ => cases hnext

theorem event_served_iff (e : Event) (he : e ∈ (step usbfs d file s).1) :
    e.Served file ↔ e.Servable d file := by
  have hcase := stepCase usbfs d file s
  generalize step usbfs d file s = r at hcase he
  cases hcase with
  | overrun =>
    obtain rfl := mem_singleton.mp he
    exact Iff.rfl
  | failed =>
    obtain rfl := mem_singleton.mp he
    exact Iff.rfl
  | quiet _ => cases he
  | @request rx received t hrx _ =>
    obtain rfl := mem_singleton.mp he
    refine exists_congr fun r => and_congr_right fun hreq => and_congr_right fun hin => ?_
    exact sent_iff hrx hreq hin
  | @ended rx received t hrx hstatus =>
    obtain rfl := mem_singleton.mp he
    rw [Event.Served, Event.Servable]
    refine and_iff_left_of_imp fun hlen => ?_
    rw [endStatus, ← field_prefix_eq hrx hlen]
    exact hstatus
  | done _ =>
    obtain rfl := mem_singleton.mp he
    exact Iff.rfl

theorem run_served_iff {es : List Event} (h : Ends (step usbfs d file) s es) :
    (∀ e ∈ es, e.Served file) ↔ ∀ e ∈ es, e.Servable d file := by
  rw [h.forall_iff, h.forall_iff]
  exact forall₂_congr fun t _ => forall₂_congr fun e he => event_served_iff e he

/-- Every packet stays in its buffer just when the second read does not bring more than there is
room for; the range of a request is sent as it is in the file just when its bytes are those at the
offset of 32 bits and the writes send all of them; and an upload that succeeds has served all
requests, and come to an end with the status 0, just when each request came whole, was in the file
and could be sent, and the end came whole. -/
theorem upload_iff (usbfs : Bool) (d : Device) (file : Bytes) :
    (∀ rx reads, saharaRxData usbfs d rx reads ≠ .overrun ↔
      usbfs = true ∨ SecondFits d reads) ∧
    (∀ rx writes r, requestOf rx = some r → r.1 + r.2 ≤ file.length →
      ((startImageTransfer d file rx writes).1 = range file r ↔ Sendable d file writes r)) ∧
    ∀ rx es, Ends (step usbfs d file) (start rx) es → Event.returned true ∈ es →
      (((∃ received, Event.ended received ∈ es) ∧ ∀ e ∈ es, e.Served file) ↔
        ∀ e ∈ es, e.Servable d file) := by
  refine ⟨overrun_iff usbfs d, fun rx writes r hreq hin => ?_, fun rx es h hok => ?_⟩
  · exact sent_iff prefix_rfl hreq hin
  · rw [run_served_iff h]
    exact and_iff_right (ended_of_returned h (fun q hq => Pc.noConfusion hq) hok)

def packet (qCmd : Nat) (fields : List Nat) : Bytes :=
  toLE 4 qCmd ++ (toLE 4 (sizeofPacketH + 4 * fields.length) ++ fields.flatMap (toLE 4))

def Comes1 (p : Bytes) : Prop :=
  sizeofPacketH ≤ p.length ∧ p.length ≤ rawBufSz ∧ qCmd p < 0x13 ∧ p.length = qLen p

theorem rx_packet {p : Bytes} (rx : Bytes) (hp : Comes1 p) (hread : d.reads reads = some p) :
    saharaRxData true d rx reads = .packet (store rx 0 p) (reads + 1) p := by
  obtain ⟨hmin, hmax, hcmd, hlen⟩ := hp
  have hprefix : p <+: store rx 0 p := prefix_store_zero ..
  have h8 : sizeofPacketH = 8 := rfl
  have hc : qCmd (store rx 0 p) = qCmd p := field_prefix_eq hprefix (by omega)
  have hl : qLen (store rx 0 p) = qLen p := field_prefix_eq hprefix (by omega)
  rw [saharaRxData, if_pos rfl, hread, Option.getD_some, take_of_length_le hmax]
  simp only
  rw [if_neg (by omega), hc, hl, if_pos hcmd, if_pos hlen]

theorem qCmd_store {p : Bytes} (rx : Bytes) (hp : Comes1 p) : qCmd (store rx 0 p) = qCmd p := by
  exact field_prefix_eq (prefix_store_zero ..) (le_trans (by decide) hp.1)

def packets (offset : Nat) : List Bytes :=
  [packet 1 [2, 1, 1024, 0], packet 3 [13, offset, 4], packet 4 [13, 0], packet 6 [0]]

def device (offset : Nat) : Device := ⟨fun n => (packets offset)[n]?, fun _ => 4096⟩

theorem ends_device (file rx : Bytes) (offset : Nat) (h3 : Comes1 (packet 3 [13, offset, 4])) :
    ∃ sent, Ends (step true (device offset) file) (start rx)
      [.request (packet 3 [13, offset, 4]) 1 sent, .ended (packet 4 [13, 0]), .returned true] := by
  have h1 : Comes1 (packet 1 [2, 1, 1024, 0]) := by rw [Comes1]; decide
  have h4 : Comes1 (packet 4 [13, 0]) := by rw [Comes1]; decide
  have h6 : Comes1 (packet 6 [0]) := by rw [Comes1]; decide
  have hfirst : step true (device offset) file (start rx) =
      ([], some ⟨.loop, store rx 0 (packet 1 [2, 1, 1024, 0]), 1, 1⟩) := by
    rw [step, start, rx_packet rx h1 rfl]
    simp only
    have hwrite : ¬ min ((device offset).writes 0) 48 = 0 := by
      show ¬ min 4096 48 = 0
      decide
    rw [hello, qCmd_store rx h1, if_neg (by decide), if_neg hwrite]
  obtain ⟨r3, w, sent, hrequest⟩ : ∃ r3 w sent, step true (device offset) file
      ⟨.loop, store rx 0 (packet 1 [2, 1, 1024, 0]), 1, 1⟩ =
        ([.request (packet 3 [13, offset, 4]) 1 sent], some ⟨.loop, r3, 2, w⟩) := by
    rw [step, rx_packet _ h3 rfl]
    simp only
    rw [loopPacket, qCmd_store _ h3, if_pos (.inl rfl)]
    exact ⟨_, _, _, rfl⟩
  have hended : step true (device offset) file ⟨.loop, r3, 2, w⟩ = ([.ended (packet 4 [13, 0])],
      some ⟨.done 13, store r3 0 (packet 4 [13, 0]), 3, w + 1⟩) := by
    have hprefix : packet 4 [13, 0] <+: store r3 0 (packet 4 [13, 0]) := prefix_store_zero ..
    have hstatus : endStatus (store r3 0 (packet 4 [13, 0])) = 0 :=
      field_prefix_eq hprefix (by decide)
    have himage : endImageId (store r3 0 (packet 4 [13, 0])) = 13 :=
      field_prefix_eq hprefix (by decide)
    rw [step, rx_packet _ h4 rfl]
    simp only
    have hcmd : qCmd (packet 4 [13, 0]) = 4 := by decide
    rw [loopPacket, qCmd_store _ h4, hcmd, if_neg (by decide), if_pos rfl, if_pos hstatus, himage]
  have hdone : step true (device offset) file
      ⟨.done 13, store r3 0 (packet 4 [13, 0]), 3, w + 1⟩ = ([.returned true], none) := by
    have hprefix : packet 6 [0] <+: store (store r3 0 (packet 4 [13, 0])) 0 (packet 6 [0]) := by
      exact prefix_store_zero ..
    have hstatus : doneStatus (store (store r3 0 (packet 4 [13, 0])) 0 (packet 6 [0])) = 0 :=
      field_prefix_eq hprefix (by decide)
    rw [step, rx_packet _ h6 rfl]
    simp only
    rw [hstatus]
    rfl
  refine ⟨sent, ?_⟩
  have hlast := Ends.stop (f := step true (device offset) file) (by rw [hdone])
  have hend := Ends.next (by rw [hended]) hlast
  have hreq := Ends.next (by rw [hrequest]) hend
  have hall := Ends.next (by rw [hfirst]) hreq
  rw [hfirst, hrequest, hended, hdone] at hall
  exact hall

theorem request_comes : Comes1 (packet 3 [13, 0, 4]) := by rw [Comes1]; decide

theorem outside_comes : Comes1 (packet 3 [13, 100, 4]) := by rw [Comes1]; decide

theorem upload_iff_served : ∃ es : List Event, Event.returned true ∈ es ∧
    (((∃ received, Event.ended received ∈ es) ∧ ∀ e ∈ es, e.Served [1, 2, 3, 4]) ↔
      ∀ e ∈ es, e.Servable (device 0) [1, 2, 3, 4]) := by
  obtain ⟨sent, hends⟩ := ends_device [1, 2, 3, 4] [] 0 request_comes
  exact ⟨_, by simp, (upload_iff true (device 0) [1, 2, 3, 4]).2.2 _ _ hends (by simp)⟩

/-- A second read on a tty brings more than there is room for; and an upload succeeds when four
bytes were asked for that are not in the file. -/
theorem not_served :
    (∃ d rx, saharaRxData false d rx 0 = .overrun) ∧
    ∃ d file rx es, Ends (step true d file) (start rx) es ∧ Event.returned true ∈ es ∧
      ¬ ∀ e ∈ es, e.Served file := by
  refine ⟨⟨⟨fun n => if n = 0 then some (toLE 4 1 ++ toLE 4 5000) else
    some (replicate 4992 0), fun _ => 0⟩, [], ?_⟩, ?_⟩
  · by_contra h
    obtain h | h := (overrun_iff ..).mp h
    · cases h
    · have hle := h _ _ rfl rfl (by decide) (by decide)
      rw [length_replicate] at hle
      exact absurd hle (by decide)
  · obtain ⟨sent, hends⟩ := ends_device [0] [] 100 outside_comes
    refine ⟨_, _, _, _, hends, by simp, fun h => ?_⟩
    obtain ⟨r, hreq, hin, -⟩ := h (.request (packet 3 [13, 100, 4]) 1 sent) (by simp)
    have hr : requestOf (packet 3 [13, 100, 4]) = some (100, 4) := by decide
    cases hr.symm.trans hreq
    exact absurd hin (by decide)

end ModemSupport.Rooter.Sahara
