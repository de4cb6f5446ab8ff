import Mathlib.Data.List.TakeWhile
import ModemSupport.Rooter.SaharaDump

/-! When a dump stays in its buffers: in every state it comes to, the packet, the table or the name
that it has to do with next has room. -/

namespace ModemSupport.Rooter.SaharaDump

open Lib.Buffer Lib.Loop Lib.Memory List

variable {env : Env} {rx table : Bytes} {s t : State} {r : Next} {as : List Access}
  {reads n i : Nat} {f : State → Next} {P : State → Prop}

theorem rxBuffer_inBounds {start length : Nat} :
    (Access.rxBuffer start length).InBounds ↔ start + length ≤ rawBufferSize := Iff.rfl

def AllIn (as : List Access) : Prop := ∀ a ∈ as, a.InBounds

theorem allIn_nil : AllIn [] := fun _ h => absurd h not_mem_nil

theorem allIn_cons {a : Access} : AllIn (a :: as) ↔ a.InBounds ∧ AllIn as := forall_mem_cons

theorem allIn_append {bs : List Access} : AllIn (as ++ bs) ↔ AllIn as ∧ AllIn bs :=
  forall_mem_append

theorem allIn_after : AllIn (after as r).1 ↔ AllIn as ∧ AllIn r.1 := allIn_append

theorem allIn_goTo (pc : Pc) (s : State) : AllIn (goTo pc s).1 := allIn_nil

theorem allIn_stop : AllIn stop.1 := allIn_nil

theorem allIn_tx (h : n ≤ txBufferSize) : AllIn [.txBuffer n] := by
  rw [allIn_cons]
  exact ⟨h, allIn_nil⟩

theorem allIn_send (h : n ≤ txBufferSize) : AllIn (send env n s f).1 ↔
    (env.sends s.sends = true → AllIn (f { s with sends := s.sends + 1 }).1) := by
  rw [send]
  by_cases hok : env.sends s.sends = true
  · rw [if_pos hok, allIn_after, and_iff_right (allIn_tx h)]
    exact ⟨fun hall _ => hall, fun hall => hall hok⟩
  · rw [if_neg hok]
    exact iff_of_true (allIn_tx h) fun hnot => absurd hnot hok

theorem allIn_reset (s : State) : AllIn (reset env s).1 := by
  rw [reset, allIn_send (by decide)]
  exact fun _ => allIn_goTo _ _

theorem sizeofMemoryRead_le (b : Bool) : sizeofMemoryRead b ≤ txBufferSize := by
  cases b <;> decide

theorem allIn_hello (s : State) : AllIn (hello env s).1 := by
  rw [hello]
  split
  · exact allIn_reset s
  · split
    · exact allIn_tx (by decide)
    · rw [allIn_send (by decide)]
      exact fun _ => allIn_goTo _ _

theorem allIn_waitCommand (s : State) : AllIn (waitCommand env s).1 := by
  rw [waitCommand]
  split
  · simp only
    split
    · exact allIn_reset _
    · split
      · rw [allIn_send (sizeofMemoryRead_le _)]
        intro _
        split
        · exact allIn_stop
        · exact allIn_goTo _ _
      · exact allIn_goTo _ _
  · split
    · exact allIn_goTo _ _
    · exact allIn_reset s

theorem room_iff (a b : Nat) : sizeofHeader + min (min a maxToRead) b ≤ rawBufferSize ↔
    min b a ≤ rawBufferSize - sizeofHeader := by
  have h8 : sizeofHeader = 8 := rfl
  have hraw : rawBufferSize = 65536 := rfl
  have hmax : maxToRead = 65536 := rfl
  rw [h8, hraw, hmax]
  omega

theorem allIn_rxPacket (env : Env) (rx : Bytes) (reads : Nat) :
    AllIn (rxPacket env rx reads).accesses ↔ PacketFits env reads := by
  rw [rxPacket, PacketFits]
  simp only
  have hzero : (Access.rxBuffer 0 sizeofHeader).InBounds := by
    rw [rxBuffer_inBounds]
    decide
  have hhead : ((env.reads reads).take sizeofHeader).length ≤ sizeofHeader :=
    length_take_le ..
  have h8 : sizeofHeader = 8 := rfl
  have hraw : rawBufferSize = 65536 := rfl
  have hmax : maxToRead = 65536 := rfl
  have hread : (Access.rxBuffer 0 ((env.reads reads).take sizeofHeader).length).InBounds := by
    rw [rxBuffer_inBounds]
    omega
  have hfirst : AllIn [.rxBuffer 0 sizeofHeader,
      .rxBuffer 0 ((env.reads reads).take sizeofHeader).length] := by
    rw [allIn_cons, allIn_cons]
    exact ⟨hzero, hread, allIn_nil⟩
  by_cases hlen : sizeofHeader ≤ (env.reads reads).length
  · have htake : ((env.reads reads).take sizeofHeader).length = sizeofHeader := by
      rw [length_take, Nat.min_eq_left hlen]
    have hfield : ∀ o, o + 4 ≤ sizeofHeader →
        field (store (store rx 0 (replicate sizeofHeader 0)) 0
          ((env.reads reads).take sizeofHeader)) o 4 = field (env.reads reads) o 4 := by
      intro o ho
      rw [field_prefix_eq (prefix_store_zero ..) (by rw [htake]; exact ho)]
      exact (field_prefix_eq (List.take_prefix ..) (by rw [htake]; exact ho)).symm
    have hcmd : command (store (store rx 0 (replicate sizeofHeader 0)) 0
        ((env.reads reads).take sizeofHeader)) = command (env.reads reads) := hfield 0 (by decide)
    rw [if_neg (not_not.mpr htake), hcmd, hfield 4 (by decide)]
    by_cases hknown : command (env.reads reads) < 0x13
    · rw [if_pos hknown]
      simp only
      rw [allIn_append, and_iff_right hfirst, allIn_cons, and_iff_left allIn_nil]
      rw [rxBuffer_inBounds, length_take]
      rw [room_iff]
      exact ⟨fun h _ _ => h, fun h => h hlen hknown⟩
    · rw [if_neg hknown]
      exact iff_of_true hfirst fun _ hc => absurd hc hknown
  · have htake : ((env.reads reads).take sizeofHeader).length ≠ sizeofHeader := by
      rw [length_take]
      omega
    rw [if_pos htake]
    exact iff_of_true hfirst fun hl => absurd hl hlen

theorem allIn_rxLoop (hn : n ≤ rawBufferSize) (fuel got : Nat) (rx : Bytes) (reads : Nat) :
    AllIn (rxLoop env n fuel got rx reads).accesses := by
  induction fuel generalizing got rx reads with
  | zero => exact allIn_nil
  | succ fuel ih =>
    rw [rxLoop]
    split
    · exact allIn_nil
    · simp only
      split
      · exact allIn_nil
      · simp only
        rw [allIn_cons]
        refine ⟨?_, ih _ _ _⟩
        rw [rxBuffer_inBounds, length_take]
        omega

theorem rxLoop_ok (fuel got : Nat) (rx : Bytes) (reads : Nat) (hfuel : n ≤ got + fuel)
    (hgot : got ≤ n) {bs : Bytes} (hbs : bs <+: rx) (hlen : bs.length = got)
    (h : (rxLoop env n fuel got rx reads).ok = true) :
    n ≤ (rxLoop env n fuel got rx reads).rx.length := by
  induction fuel generalizing got rx reads bs with
  | zero =>
    have := hbs.length_le
    rw [rxLoop]
    simp only
    omega
  | succ fuel ih =>
    rw [rxLoop] at h ⊢
    by_cases hdone : n ≤ got
    · rw [if_pos hdone]
      have := hbs.length_le
      simp only
      omega
    · rw [if_neg hdone] at h ⊢
      simp only at h ⊢
      by_cases hnil : (env.reads reads).take (min (n - got) maxToRead) = []
      · rw [if_pos hnil] at h
        cases h
      · rw [if_neg hnil] at h ⊢
        simp only at h ⊢
        have hpos := length_pos_iff.mpr hnil
        have hle : ((env.reads reads).take (min (n - got) maxToRead)).length ≤ n - got := by
          rw [length_take]
          omega
        exact ih _ _ _ (by omega) (by omega) (prefix_store _ hbs hlen)
          (by rw [length_append, hlen]) h

theorem length_rxBytes (h : (rxBytes env n rx reads).ok = true) :
    ((rxBytes env n rx reads).rx.take n).length = n := by
  rw [length_take, Nat.min_eq_left]
  exact rxLoop_ok n 0 rx reads (by omega) (Nat.zero_le _) nil_prefix rfl h

theorem allIn_saharaRxData_zero : AllIn (saharaRxData env 0 rx reads).accesses ↔
    PacketFits env reads := by
  rw [saharaRxData, if_pos rfl, allIn_rxPacket]

theorem allIn_saharaRxData (env : Env) (rx : Bytes) (reads : Nat) (hn : n ≤ rawBufferSize) :
    AllIn (saharaRxData env n rx reads).accesses ↔ (n = 0 → PacketFits env reads) := by
  by_cases hzero : n = 0
  · subst hzero
    rw [allIn_saharaRxData_zero]
    exact ⟨fun h _ => h, fun h => h rfl⟩
  · rw [saharaRxData, if_neg hzero]
    exact iff_of_true (allIn_rxLoop hn _ _ _ _) fun h => absurd h hzero

theorem length_takeWhile_lt (bs : Bytes) :
    (bs.takeWhile (· ≠ 0)).length < bs.length ↔ 0 ∈ bs := by
  induction bs with
  | nil => simp
  | cons b bs ih =>
    by_cases hb : b = 0
    · subst hb
      simp
    · rw [takeWhile_cons_of_pos (by simpa using hb), length_cons, length_cons,
        Nat.add_lt_add_iff_right, ih, mem_cons]
      exact ⟨.inr, fun h => h.resolve_left (Ne.symm hb)⟩

theorem table_inBounds {start length size : Nat} :
    (Access.table start length size).InBounds ↔ start + length ≤ size := Iff.rfl

theorem miscBuffer_inBounds {start length : Nat} :
    (Access.miscBuffer start length).InBounds ↔ start + length ≤ miscBufferSize := Iff.rfl

theorem stringAccess_inBounds (table : Bytes) (start : Nat) :
    (stringAccess table start).InBounds ↔ 0 ∈ table.drop start := by
  rw [stringAccess, table_inBounds, ← length_takeWhile_lt, length_drop]
  omega

theorem mem_drop_of_le {m k : Nat} (hle : m ≤ k) (h : 0 ∈ table.drop k) : 0 ∈ table.drop m := by
  obtain ⟨j, rfl⟩ := Nat.exists_eq_add_of_le hle
  rw [← drop_drop] at h
  exact mem_of_mem_drop h

theorem allIn_printed (hlen : table.length = 64 * n) (hpos : 0 < n) :
    AllIn (printed table n) ↔ Terminated table := by
  have hentry : AllIn (printed table n) ↔ ∀ i < n,
      (Access.table (64 * i) 24 table.length).InBounds ∧
      (stringAccess table (64 * i + 24)).InBounds ∧
        (stringAccess table (filenameAt i)).InBounds := by
    simp only [AllIn, printed, forall_mem_flatMap, mem_range]
    refine forall₂_congr fun i hi => ?_
    simp
  rw [hentry, Terminated]
  constructor
  · intro h
    have hlast := (stringAccess_inBounds ..).mp (h (n - 1) (by omega)).2.2
    have hat : filenameAt (n - 1) = table.length - 20 := by
      rw [filenameAt]
      omega
    rwa [hat] at hlast
  · intro h i hi
    have hat : filenameAt i = 64 * i + 44 := rfl
    rw [table_inBounds, stringAccess_inBounds, stringAccess_inBounds]
    exact ⟨by omega, mem_drop_of_le (by omega) h, mem_drop_of_le (by omega) h⟩

theorem length_strncpy20 (bs : Bytes) : (strncpy20 bs).length = 20 := by
  have hle : ((bs.take 20).takeWhile (· ≠ 0)).length ≤ 20 :=
    le_trans (List.takeWhile_prefix _).length_le (length_take_le ..)
  rw [strncpy20, length_append, length_replicate]
  omega

theorem zero_mem_strncpy20 {bs : Bytes} (h : bs.length = 20) : 0 ∈ strncpy20 bs ↔ 0 ∈ bs := by
  have hnot : (0 : UInt8) ∉ bs.takeWhile (· ≠ 0) := by
    intro hmem
    simpa using mem_takeWhile_imp hmem
  rw [strncpy20, take_of_length_le h.le, mem_append, or_iff_right hnot,
    mem_replicate, ← length_takeWhile_lt bs, h]
  constructor
  · rintro ⟨hne, -⟩
    omega
  · intro hlt
    exact ⟨by omega, rfl⟩

theorem length_convertEntry (e : Bytes) : (convertEntry e).length = 64 := by
  simp [convertEntry, length_strncpy20]

theorem length_convert (n : Nat) (bs : Bytes) : (convert n bs).length = 64 * n := by
  induction n generalizing bs with
  | zero => rfl
  | succ n ih =>
    rw [convert, length_append, length_convertEntry, ih]
    omega

theorem drop_convertEntry (e : Bytes) : (convertEntry e).drop 44 = strncpy20 (e.drop 32) := by
  have hsplit : convertEntry e = (toLE 8 (field e 0 4) ++ (toLE 8 (field e 4 4) ++
      (toLE 8 (field e 8 4) ++ strncpy20 (e.drop 12)))) ++ strncpy20 (e.drop 32) := by
    rw [convertEntry]
    simp only [append_assoc]
  have hlen : (toLE 8 (field e 0 4) ++ (toLE 8 (field e 4 4) ++
      (toLE 8 (field e 8 4) ++ strncpy20 (e.drop 12)))).length = 44 := by
    simp [length_strncpy20]
  rw [hsplit, ← hlen, drop_left]

theorem terminated_convert (n : Nat) (bs : Bytes) (hlen : bs.length = 52 * (n + 1)) :
    Terminated (convert (n + 1) bs) ↔ Terminated bs := by
  induction n generalizing bs with
  | zero =>
    have hone : convert 1 bs = convertEntry bs := by
      rw [convert, convert, append_nil, take_of_length_le (by omega)]
    rw [hone, Terminated, Terminated, length_convertEntry, hlen, drop_convertEntry]
    exact zero_mem_strncpy20 (by rw [length_drop]; omega)
  | succ n ih =>
    have hrest : (bs.drop 52).length = 52 * (n + 1) := by
      rw [length_drop]
      omega
    have hih := ih (bs.drop 52) hrest
    have hleft : (convert (n + 1 + 1) bs).drop (64 * (n + 1 + 1) - 20) =
        (convert (n + 1) (bs.drop 52)).drop (64 * (n + 1) - 20) := by
      have hfront := length_convertEntry (bs.take 52)
      have hat : 64 * (n + 1 + 1) - 20 =
          (convertEntry (bs.take 52)).length + (64 * (n + 1) - 20) := by omega
      rw [convert, hat, ← drop_drop, drop_left]
    have hright : (bs.drop 52).drop (52 * (n + 1) - 20) = bs.drop (52 * (n + 1 + 1) - 20) := by
      rw [drop_drop]
      congr 1
      omega
    rw [Terminated, Terminated, length_convert, hrest, hright] at hih
    rw [Terminated, Terminated, length_convert, hlen, hleft]
    exact hih

theorem allIn_copyTable (hlen : (s.rx.take n).length = n) (hpos : 0 < n)
    (hdvd : sizeofDebugType s.ramDump64bit ∣ n) :
    AllIn (copyTable n s).1 ↔ TableFits s.ramDump64bit (s.rx.take n) := by
  rw [copyTable, TableFits, hlen]
  cases hwidth : s.ramDump64bit with
  | true =>
    rw [hwidth] at hdvd
    obtain ⟨m, rfl⟩ := hdvd
    have h64 : sizeofDebugType true = 64 := rfl
    simp only [if_true, h64]
    rw [h64] at hlen hpos
    have hdiv : 64 * m / 64 = m := Nat.mul_div_cancel_left m (by decide)
    rw [hdiv, allIn_after, and_iff_left (allIn_goTo _ _), allIn_append, allIn_cons, allIn_cons,
      and_iff_left allIn_nil, allIn_printed hlen (by omega), table_inBounds, miscBuffer_inBounds]
    constructor
    · rintro ⟨⟨-, hfit⟩, hname⟩
      exact .inr ⟨by omega, hname⟩
    · rintro (⟨hfalse, -⟩ | ⟨hfit, hname⟩)
      · cases hfalse
      · exact ⟨⟨by omega, by omega⟩, hname⟩
  | false =>
    rw [hwidth] at hdvd
    obtain ⟨m, rfl⟩ := hdvd
    have h52 : sizeofDebugType false = 52 := rfl
    simp only [Bool.false_eq_true, if_false, h52]
    rw [h52] at hlen hpos
    have hdiv : 52 * m / 52 = m := Nat.mul_div_cancel_left m (by decide)
    rw [hdiv]
    by_cases hbig : rawBufferSize < m * 64
    · rw [if_pos hbig]
      exact iff_of_true allIn_stop (.inl ⟨trivial, hbig⟩)
    · obtain ⟨k, rfl⟩ : ∃ k, m = k + 1 := ⟨m - 1, by omega⟩
      have hcopy : AllIn ((List.range (k + 1)).flatMap fun i =>
          [.table (52 * i) 52 (52 * (k + 1)), .miscBuffer (64 * i) 64]) ↔
            (k + 1) * 64 ≤ miscBufferSize := by
        simp only [AllIn, forall_mem_flatMap, mem_range, forall_mem_cons]
        constructor
        · intro h
          have hlast := (h k (by omega)).2.1
          rw [miscBuffer_inBounds] at hlast
          omega
        · intro h i hi
          rw [table_inBounds, miscBuffer_inBounds]
          exact ⟨by omega, by omega, allIn_nil⟩
      rw [if_neg hbig, allIn_after, and_iff_left (allIn_goTo _ _), allIn_append, hcopy,
        allIn_printed (length_convert ..) (by omega), terminated_convert k _ hlen]
      exact ⟨fun h => .inr h, fun h => h.resolve_left fun h => hbig h.2⟩

structure Inv (s : State) : Prop where
  maxRead : s.maxRamDumpRead ≤ rawBufferSize
  table : 64 ∣ s.table.length
  pending : ∀ n, s.pc = .waitMemoryTable n →
    n ≤ rawBufferSize ∧ sizeofDebugType s.ramDump64bit ∣ n
  region : ∀ i cur, s.pc = .region i cur → i < s.table.length / 64

theorem allIn_packet (h : AllIn r.1) :
    AllIn (after (saharaRxData env 0 rx reads).accesses r).1 ↔ PacketFits env reads := by
  rw [allIn_after, and_iff_left h, allIn_saharaRxData_zero]

theorem allIn_waitMemoryTable (hinv : Inv s) (hpc : s.pc = .waitMemoryTable n) :
    AllIn (waitMemoryTable env n s).1 ↔ (0 < n → (rxBytes env n s.rx s.reads).ok = true →
      TableFits s.ramDump64bit ((rxBytes env n s.rx s.reads).rx.take n)) := by
  obtain ⟨hle, hdvd⟩ := hinv.pending n hpc
  rw [waitMemoryTable]
  by_cases hpos : 0 < n
  · have hrx : saharaRxData env n s.rx s.reads = rxBytes env n s.rx s.reads := by
      rw [saharaRxData, if_neg hpos.ne']
    have haccess := (allIn_saharaRxData env s.rx s.reads hle).mpr
      fun hzero => absurd hzero hpos.ne'
    rw [if_pos hpos]
    simp only
    rw [allIn_after, and_iff_right haccess, hrx]
    by_cases hok : (rxBytes env n s.rx s.reads).ok = true
    · rw [if_pos hok]
      have hcopy := allIn_copyTable (s := { s with
        rx := (rxBytes env n s.rx s.reads).rx, reads := (rxBytes env n s.rx s.reads).reads })
          (length_rxBytes hok) hpos hdvd
      exact hcopy.trans ⟨fun h _ _ => h, fun h => h hpos hok⟩
    · rw [if_neg hok]
      exact iff_of_true allIn_stop fun _ h => absurd h hok
  · rw [if_neg hpos]
    exact iff_of_true (allIn_goTo _ _) fun h => absurd h hpos

theorem fullFilename_inBounds {length : Nat} :
    (Access.fullFilename length).InBounds ↔ length ≤ fullFilenameSize := Iff.rfl

theorem allIn_openEntry (hinv : Inv s) : AllIn (openEntry env i s).1 ↔
    (i < s.table.length / 64 → 0 ∈ s.table.drop (filenameAt i) ∧
      pathLength env + nameLength s.table i < fullFilenameSize ∧ env.opens s.opens = true) := by
  rw [openEntry]
  by_cases hi : i < s.table.length / 64
  · rw [if_pos hi, allIn_after, allIn_cons, allIn_cons, allIn_cons, and_iff_left allIn_nil,
      fullFilename_inBounds, fullFilename_inBounds, stringAccess_inBounds]
    by_cases hok : env.opens s.opens = true
    · rw [if_pos hok, and_iff_left (allIn_goTo _ _)]
      constructor
      · rintro ⟨-, hname, hfit⟩ -
        exact ⟨hname, by omega, hok⟩
      · intro h
        obtain ⟨hname, hfit, -⟩ := h hi
        exact ⟨by omega, hname, by omega⟩
    · have hend : s.table.length ≤ filenameAt (s.table.length / 64) := by
        have hdvd := hinv.table
        rw [filenameAt]
        omega
      rw [if_neg hok]
      refine iff_of_false ?_ fun h => hok (h hi).2.2
      rintro ⟨-, hlast⟩
      rw [allIn_cons, stringAccess_inBounds, drop_of_length_le hend] at hlast
      exact absurd hlast.1 not_mem_nil
  · rw [if_neg hi]
    refine iff_of_true ?_ fun h => absurd h hi
    split
    · exact allIn_reset s
    · exact allIn_stop

theorem allIn_readRegion {cur : Nat} (hinv : Inv s) (hpc : s.pc = .region i cur) :
    AllIn (readRegion env i cur s).1 ↔
      if cur < field s.table (64 * i + 16) 8 then
        env.sends s.sends = true → chunk s i cur = 0 → PacketFits env s.reads
      else 0 ∈ s.table.drop (filenameAt i) := by
  have hi := hinv.region i cur hpc
  have hdvd := hinv.table
  have hentry : AllIn [.table (64 * i) 24 s.table.length] := by
    rw [allIn_cons, table_inBounds]
    exact ⟨by omega, allIn_nil⟩
  rw [readRegion, allIn_after, and_iff_right hentry]
  by_cases hcur : cur < field s.table (64 * i + 16) 8
  · have hchunk : chunk s i cur ≤ rawBufferSize :=
      le_trans (Nat.min_le_right ..) hinv.maxRead
    rw [if_pos hcur, if_pos hcur, allIn_send (sizeofMemoryRead_le _)]
    refine imp_congr_right fun _ => ?_
    simp only
    rw [allIn_after]
    refine (and_iff_left ?_).trans (allIn_saharaRxData _ _ _ hchunk)
    split
    · split
      · exact allIn_goTo _ _
      · exact allIn_stop
    · split
      · exact allIn_goTo _ _
      · exact allIn_stop
  · rw [if_neg hcur, if_neg hcur, allIn_after, and_iff_left (allIn_goTo _ _), allIn_cons,
      and_iff_left allIn_nil, stringAccess_inBounds]

theorem allIn_step (hinv : Inv s) : AllIn (step env s).1 ↔ Clear env s := by
  rw [step, Clear]
  cases hpc : s.pc with
  | waitHello =>
    refine allIn_packet ?_
    split
    · exact allIn_hello _
    · exact allIn_goTo _ _
  | secondHello =>
    refine allIn_packet ?_
    split
    · exact allIn_hello _
    · exact allIn_stop
  | waitCommand =>
    refine allIn_packet ?_
    split
    · exact allIn_waitCommand _
    · exact allIn_stop
  | waitMemoryTable n => exact allIn_waitMemoryTable hinv hpc
  | entry i => exact allIn_openEntry hinv
  | region i cur => exact allIn_readRegion hinv hpc
  | waitResetResp =>
    refine allIn_packet ?_
    split
    · exact allIn_goTo _ _
    · exact allIn_stop

def Leaves (P : State → Prop) (r : Next) : Prop := ∀ u, r.2 = some u → P u

theorem leaves_stop : Leaves P stop := fun _ h => absurd h (by simp [stop])

theorem leaves_goTo {pc : Pc} (h : P { s with pc }) : Leaves P (goTo pc s) := by
  intro u hu
  cases hu
  exact h

theorem leaves_after (h : Leaves P r) : Leaves P (after as r) := h

theorem leaves_send (h : Leaves P (f { s with sends := s.sends + 1 })) :
    Leaves P (send env n s f) := by
  rw [send]
  split
  · exact leaves_after h
  · intro u hu
    cases hu

/-- What does not depend on where `sahara_start` is. -/
def Sized (s : State) : Prop := s.maxRamDumpRead ≤ rawBufferSize ∧ 64 ∣ s.table.length

theorem Sized.inv {pc : Pc} (h : Sized s) (htable : ∀ n, pc ≠ .waitMemoryTable n)
    (hregion : ∀ i cur, pc ≠ .region i cur) : Inv { s with pc } :=
  ⟨h.1, h.2, fun n hn => absurd hn (htable n), fun i cur hi => absurd hi (hregion i cur)⟩

theorem Inv.sized (h : Inv s) : Sized s := ⟨h.maxRead, h.table⟩

theorem leaves_reset (h : Sized s) : Leaves Inv (reset env s) := by
  refine leaves_send (leaves_goTo ?_)
  exact Sized.inv (s := { s with sends := s.sends + 1 }) h (fun _ h => Pc.noConfusion h)
    fun _ _ h => Pc.noConfusion h

theorem leaves_hello (h : Sized s) : Leaves Inv (hello env s) := by
  rw [hello]
  split
  · exact leaves_reset h
  · split
    · intro u hu
      cases hu
    · refine leaves_send (leaves_goTo ?_)
      exact Sized.inv (s := { s with sends := s.sends + 1 }) h (fun _ h => Pc.noConfusion h)
        fun _ _ h => Pc.noConfusion h

theorem Sized.waiting (h : Sized s) (hn : n ≤ rawBufferSize)
    (hdvd : sizeofDebugType s.ramDump64bit ∣ n) : Inv { s with pc := .waitMemoryTable n } := by
  refine ⟨h.1, h.2, ?_, fun i cur hi => Pc.noConfusion hi⟩
  rintro m ⟨⟩
  exact ⟨hn, hdvd⟩

theorem leaves_waitCommand (h : Sized s) : Leaves Inv (waitCommand env s) := by
  rw [waitCommand]
  split
  · simp only
    split
    · exact leaves_reset (s := { s with ramDump64bit := decide (command s.rx = 0x10) }) h
    · next hwhole =>
      rw [not_not] at hwhole
      split
      · refine leaves_send ?_
        split
        · exact leaves_stop
        · next hroom =>
          refine leaves_goTo (Sized.waiting (s := { s with
            ramDump64bit := decide (command s.rx = 0x10), sends := s.sends + 1 }) h
              (not_lt.mp hroom) (Nat.dvd_of_mod_eq_zero hwhole))
      · exact leaves_goTo (Sized.waiting (s := { s with
          ramDump64bit := decide (command s.rx = 0x10) }) h (Nat.zero_le _) (Nat.dvd_zero _))
  · split
    · exact leaves_goTo (h.inv (fun _ h => Pc.noConfusion h) fun _ _ h => Pc.noConfusion h)
    · exact leaves_reset h

theorem leaves_copyTable (h : Sized s) (hlen : (s.rx.take n).length = n)
    (hdvd : sizeofDebugType s.ramDump64bit ∣ n) : Leaves Inv (copyTable n s) := by
  rw [copyTable]
  simp only
  by_cases hwidth : s.ramDump64bit = true
  · rw [hwidth] at hdvd
    rw [if_pos hwidth]
    refine leaves_after (leaves_goTo ?_)
    exact Sized.inv (s := { s with table := s.rx.take n }) ⟨h.1, hlen.symm ▸ hdvd⟩
      (fun _ h => Pc.noConfusion h) fun _ _ h => Pc.noConfusion h
  · rw [if_neg hwidth]
    split
    · exact leaves_stop
    · refine leaves_after (leaves_goTo ?_)
      refine Sized.inv (s := { s with
        table := convert (n / sizeofDebugType s.ramDump64bit) (s.rx.take n) }) ⟨h.1, ?_⟩
          (fun _ h => Pc.noConfusion h) fun _ _ h => Pc.noConfusion h
      show 64 ∣ (convert _ _).length
      rw [length_convert]
      exact Nat.dvd_mul_right ..

theorem leaves_waitMemoryTable (hinv : Inv s) (hpc : s.pc = .waitMemoryTable n) :
    Leaves Inv (waitMemoryTable env n s) := by
  obtain ⟨hle, hdvd⟩ := hinv.pending n hpc
  rw [waitMemoryTable]
  by_cases hpos : 0 < n
  · have hrx : saharaRxData env n s.rx s.reads = rxBytes env n s.rx s.reads := by
      rw [saharaRxData, if_neg hpos.ne']
    rw [if_pos hpos, hrx]
    refine leaves_after ?_
    by_cases hok : (rxBytes env n s.rx s.reads).ok = true
    · rw [if_pos hok]
      exact leaves_copyTable (s := { s with
        rx := (rxBytes env n s.rx s.reads).rx, reads := (rxBytes env n s.rx s.reads).reads })
          hinv.sized (length_rxBytes hok) hdvd
    · rw [if_neg hok]
      exact leaves_stop
  · rw [if_neg hpos]
    exact leaves_goTo (Sized.inv (s := { s with table := [] }) ⟨hinv.maxRead, Nat.dvd_zero _⟩
      (fun _ h => Pc.noConfusion h) fun _ _ h => Pc.noConfusion h)

theorem Sized.working {cur : Nat} (h : Sized s) (hi : i < s.table.length / 64) :
    Inv { s with pc := .region i cur } := by
  refine ⟨h.1, h.2, fun n hn => Pc.noConfusion hn, ?_⟩
  rintro j c ⟨⟩
  exact hi

theorem leaves_openEntry (h : Sized s) : Leaves Inv (openEntry env i s) := by
  rw [openEntry]
  split
  · next hi =>
    refine leaves_after ?_
    split
    · exact leaves_goTo (Sized.working (s := { s with opens := s.opens + 1 }) h hi)
    · intro u hu
      cases hu
  · split
    · exact leaves_reset h
    · exact leaves_stop

theorem leaves_readRegion {cur : Nat} (h : Sized s) (hi : i < s.table.length / 64) :
    Leaves Inv (readRegion env i cur s) := by
  rw [readRegion]
  refine leaves_after ?_
  split
  · refine leaves_send (leaves_after ?_)
    generalize saharaRxData env _ _ _ = r
    split
    · split
      · exact leaves_goTo (Sized.working (s := { s with
          sends := s.sends + 1, rx := r.rx, reads := r.reads, writes := s.writes + 1 }) h hi)
      · exact leaves_stop
    · split
      · exact leaves_goTo (Sized.working (s := { s with
          sends := s.sends + 1, rx := r.rx, reads := r.reads
          maxRamDumpRead := s.maxRamDumpRead / 2 }) ⟨le_trans (Nat.div_le_self ..) h.1, h.2⟩ hi)
      · exact leaves_stop
  · exact leaves_after (leaves_goTo
      (h.inv (fun _ h => Pc.noConfusion h) fun _ _ h => Pc.noConfusion h))

theorem leaves_step (hinv : Inv s) : Leaves Inv (step env s) := by
  have hsized := hinv.sized
  rw [step]
  cases hpc : s.pc with
  | waitHello =>
    refine leaves_after ?_
    generalize saharaRxData env 0 s.rx s.reads = r
    split
    · exact leaves_hello (s := { s with rx := r.rx, reads := r.reads, pc := .waitHello }) hsized
    · exact leaves_goTo (Sized.inv (s := { s with
        rx := r.rx, reads := r.reads, sends := s.sends + 1 }) hsized
          (fun _ h => Pc.noConfusion h) fun _ _ h => Pc.noConfusion h)
  | secondHello =>
    refine leaves_after ?_
    generalize saharaRxData env 0 s.rx s.reads = r
    split
    · exact leaves_hello (s := { s with rx := r.rx, reads := r.reads, pc := .secondHello }) hsized
    · exact leaves_stop
  | waitCommand =>
    refine leaves_after ?_
    generalize saharaRxData env 0 s.rx s.reads = r
    split
    · exact leaves_waitCommand (s := { s with rx := r.rx, reads := r.reads, pc := .waitCommand })
        hsized
    · exact leaves_stop
  | waitMemoryTable n => exact leaves_waitMemoryTable hinv hpc
  | entry i => exact leaves_openEntry hsized
  | region i cur => exact leaves_readRegion hsized (hinv.region i cur hpc)
  | waitResetResp =>
    refine leaves_after ?_
    generalize saharaRxData env 0 s.rx s.reads = r
    split
    · exact leaves_goTo (Sized.inv (s := { s with rx := r.rx, reads := r.reads }) hsized
        (fun _ h => Pc.noConfusion h) fun _ _ h => Pc.noConfusion h)
    · exact leaves_stop

theorem inv_of_comes (h : Comes (step env) (start rx) t) : Inv t := by
  induction h with
  | start =>
    exact ⟨le_rfl, Nat.dvd_zero _, fun n h => Pc.noConfusion h, fun i cur h => Pc.noConfusion h⟩
  | next _ hstep ih => exact leaves_step ih _ hstep

/-- In a run all accesses are in bounds just when each packet, table and name that comes has room,
each name has its null, and each file can be opened. -/
theorem dump_iff (env : Env) (rx : Bytes) :
    (∀ t, Comes (step env) (start rx) t → ∀ a ∈ (step env t).1, a.InBounds) ↔
      ∀ t, Comes (step env) (start rx) t → Clear env t :=
  forall₂_congr fun _ ht => allIn_step (inv_of_comes ht)

def longHello : Env where
  reads := fun n => if n = 0 then toLE 4 1 ++ toLE 4 70000 else replicate 65536 0
  sends := fun _ => true
  opens := fun _ => true
  writes := fun _ => true
  pathToSaveFiles := none
  doReset := true

/-- The rest of a packet is read without regard to the size of the buffer. -/
theorem not_inBounds : ¬ ∀ t, Comes (step longHello) (start []) t →
    ∀ a ∈ (step longHello t).1, a.InBounds := by
  rw [dump_iff]
  intro h
  have hfits : PacketFits longHello 0 := h (start []) .start
  have hmore : (longHello.reads (0 + 1)).length = 65536 := length_replicate ..
  have hlen : packetRest (field (longHello.reads 0) 4 4) = 69992 := by decide
  have hle := hfits (by decide) (by decide)
  rw [hmore, hlen] at hle
  exact absurd hle (by decide)

end ModemSupport.Rooter.SaharaDump
