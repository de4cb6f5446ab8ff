import ModemSupport.Rooter.FirehoseRawmode

/-! When a transfer ends and stays in its buffer: every read that comes fits, and the file does not
end behind a chunk without data.  And when the tables have an entry for every run of chunks. -/

namespace ModemSupport.Rooter.FirehoseRawmode

open Lib.Loop Lib.Memory List
open Firehose hiding Str
open FirehoseLine (isSparse)

variable {j : Job} {t t' u : Transfer} {want : Nat}

/-- `filesend` has the bytes of the writes that have sent all of theirs. -/
def Counted (t : Transfer) : Prop :=
  t.filesend = ((t.written.filter fun w => w.writes = w.reads).map (·.writes)).sum

theorem readWrite_ended (h : min want t.file.length = 0) : readWrite j want t = .ended := by
  rw [readWrite]
  simp only
  rw [if_pos h]

theorem readWrite_fault (h : ¬ Fits j want t) : readWrite j want t = .fault := by
  rw [Fits] at h
  simp only [not_or, not_and_or, not_not, not_le] at h
  rw [readWrite]
  simp only
  rw [if_neg h.1, if_pos h.2]

theorem readWrite_fits (h : Fits j want t) (hne : min want t.file.length ≠ 0) :
    ∃ t', (readWrite j want t = .failed t' ∨ readWrite j want t = .sent t') ∧
      t'.file.length < t.file.length ∧ (Counted t → Counted t') ∧ t'.place = t.place := by
  obtain ⟨hs, hfit⟩ := h.resolve_left hne
  have hshort : (t.file.drop want).length < t.file.length := by
    rw [length_drop]
    omega
  rw [readWrite]
  simp only
  rw [if_neg hne, if_neg (by rw [not_or]; exact ⟨hs, not_lt.mpr hfit⟩)]
  generalize hreads : min want t.file.length + padding j.sectorSize (min want t.file.length) = reads
  by_cases hall : min (j.usb t.written.length) reads = reads
  · rw [if_pos hall]
    refine ⟨_, .inr rfl, hshort, fun hc => ?_, rfl⟩
    rw [Counted] at hc ⊢
    simp only
    rw [filter_append, map_append, sum_append, ← hc, filter_singleton,
      decide_eq_true hall]
    simp [hall]
  · rw [if_neg hall]
    refine ⟨_, .inl rfl, hshort, fun hc => ?_, rfl⟩
    rw [Counted] at hc ⊢
    simp only
    rw [filter_append, map_append, sum_append, ← hc, filter_singleton,
      decide_eq_false hall]
    simp

def distance (j : Job) (t : Transfer) : Nat :=
  8 * t.file.length +
    match t.place with
    | .header => if j.filesize ≤ t.filesend then 7 else 3
    | .pieces chunkDataSz => if chunkDataSz = 0 then 6 else 2
    | .rest chunkDataSz => if chunkDataSz = 0 then 5 else 1
    | .check => 4
    | .whole => 0

def Goes (j : Job) (t : Transfer) : Prop :=
  (∃ t', step j t = ([], some t') ∧ distance j t' < distance j t ∧ (Counted t → Counted t')) ∨
    ∃ t', step j t = finish j t' ∧ (Counted t → Counted t')

theorem step_header (hplace : t.place = .header) : step j t = ([], some { t with
    place := .pieces (chunkHeader (readHeader t.buf t.file).1).dataSz
    buf := (readHeader t.buf t.file).1, file := (readHeader t.buf t.file).2 }) := by
  rw [step, hplace]

theorem goes_header (hplace : t.place = .header) (hclear : Clear j t) : Goes j t := by
  rw [Clear, hplace] at hclear
  simp only at hclear
  refine .inl ⟨_, step_header hplace, ?_, id⟩
  rw [distance, distance, hplace]
  simp only
  by_cases hfile : t.file = []
  · have hbuf : readHeader t.buf t.file = (t.buf, []) := by
      rw [hfile, readHeader]
      simp
    rw [hbuf, hfile]
    simp only
    by_cases hsize : j.filesize ≤ t.filesend
    · rw [if_pos hsize]
      split <;> simp
    · rw [if_neg hsize, if_neg (hclear hfile (not_le.mp hsize))]
      simp
  · have hpos : 0 < t.file.length := length_pos_iff.mpr hfile
    have hlen : (readHeader t.buf t.file).2.length < t.file.length := by
      rw [readHeader, length_drop]
      omega
    split <;> split <;> omega

theorem goes_pieces {d : Nat} (hplace : t.place = .pieces d) (hclear : Clear j t) : Goes j t := by
  rw [Clear, hplace] at hclear
  simp only at hclear
  left
  rw [step, hplace]
  simp only
  by_cases hle : j.payload ≤ d
  · rw [if_pos hle]
    by_cases hzero : min j.payload t.file.length = 0
    · rw [readWrite_ended hzero]
      refine ⟨_, rfl, ?_, id⟩
      rw [distance, distance, hplace]
      simp only
      split <;> omega
    · obtain ⟨t', hread, hshort, hcount, -⟩ := readWrite_fits (hclear hle) hzero
      obtain hread | hread := hread
      · rw [hread]
        refine ⟨_, rfl, ?_, hcount⟩
        rw [distance, distance, hplace]
        simp only
        split <;> omega
      · rw [hread]
        refine ⟨_, rfl, ?_, hcount⟩
        rw [distance, distance, hplace]
        simp only
        split <;> split <;> omega
  · rw [if_neg hle]
    refine ⟨_, rfl, ?_, id⟩
    rw [distance, distance, hplace]
    simp only
    split <;> omega

theorem goes_rest {d : Nat} (hplace : t.place = .rest d) (hclear : Clear j t) : Goes j t := by
  rw [Clear, hplace] at hclear
  simp only at hclear
  rw [Goes, step, hplace]
  simp only
  by_cases hpos : 0 < d
  · rw [if_pos hpos]
    by_cases hzero : min d t.file.length = 0
    · rw [readWrite_ended hzero]
      exact .inr ⟨_, rfl, id⟩
    · obtain ⟨t', hread, hshort, hcount, -⟩ := readWrite_fits hclear hzero
      obtain hread | hread := hread
      · rw [hread]
        exact .inr ⟨_, rfl, hcount⟩
      · rw [hread]
        refine .inl ⟨_, rfl, ?_, hcount⟩
        rw [distance, distance, hplace]
        simp only
        split <;> omega
  · rw [if_neg hpos]
    refine .inl ⟨_, rfl, ?_, id⟩
    rw [distance, distance, hplace]
    simp only
    rw [if_pos (by omega)]
    omega

theorem goes_check (hplace : t.place = .check) : Goes j t := by
  rw [Goes, step, hplace]
  simp only
  by_cases hsize : j.filesize ≤ t.filesend
  · rw [if_pos hsize]
    exact .inr ⟨_, rfl, id⟩
  · rw [if_neg hsize]
    refine .inl ⟨_, rfl, ?_, id⟩
    rw [distance, distance, hplace]
    simp only
    rw [if_neg hsize]
    omega

theorem goes_whole (hplace : t.place = .whole) (hclear : Clear j t) : Goes j t := by
  rw [Clear, hplace] at hclear
  simp only at hclear
  rw [Goes, step, hplace]
  simp only
  by_cases hsize : t.filesend < j.filesize
  · rw [if_pos hsize]
    by_cases hzero : min (wholeWant j t) t.file.length = 0
    · rw [readWrite_ended hzero]
      exact .inr ⟨_, rfl, id⟩
    · obtain ⟨t', hread, hshort, hcount, hsame⟩ := readWrite_fits (hclear hsize) hzero
      obtain hread | hread := hread
      · rw [hread]
        exact .inr ⟨_, rfl, hcount⟩
      · rw [hread]
        refine .inl ⟨_, rfl, ?_, hcount⟩
        rw [distance, distance, hsame, hplace]
        simp only
        omega
  · rw [if_neg hsize]
    exact .inr ⟨_, rfl, id⟩

theorem goes (hclear : Clear j t) : Goes j t := by
  cases hplace : t.place with
  | header => exact goes_header hplace hclear
  | pieces d => exact goes_pieces hplace hclear
  | rest d => exact goes_rest hplace hclear
  | check => exact goes_check hplace
  | whole => exact goes_whole hplace hclear

theorem fault_of_not_clear (hclear : ¬ Clear j t) :
    t.place = .header ∨ step j t = ([.fault], none) := by
  cases hplace : t.place with
  | header => exact .inl rfl
  | pieces d =>
    rw [Clear, hplace] at hclear
    simp only [Classical.not_imp] at hclear
    right
    rw [step, hplace]
    simp only
    rw [if_pos hclear.1, readWrite_fault hclear.2]
  | rest d =>
    rw [Clear, hplace] at hclear
    simp only at hclear
    have hpos : 0 < d := by
      rw [Nat.pos_iff_ne_zero]
      rintro rfl
      exact hclear (.inl (Nat.zero_min _))
    right
    rw [step, hplace]
    simp only
    rw [if_pos hpos, readWrite_fault hclear]
  | check =>
    rw [Clear, hplace] at hclear
    exact absurd trivial hclear
  | whole =>
    rw [Clear, hplace] at hclear
    simp only [Classical.not_imp] at hclear
    right
    rw [step, hplace]
    simp only
    rw [if_pos hclear.1, readWrite_fault hclear.2]

/-- The header of a chunk without data is read for ever at the end of the file. -/
theorem cycle_of_not_clear (hplace : t.place = .header) (hclear : ¬ Clear j t) :
    ∃ u, (step j t).2 = some u ∧ Comes (step j) u t := by
  rw [Clear, hplace] at hclear
  simp only [Classical.not_imp, not_not] at hclear
  obtain ⟨hfile, hsize, hzero⟩ := hclear
  have hbuf : readHeader t.buf t.file = (t.buf, []) := by
    rw [hfile, readHeader]
    simp
  obtain ⟨place, file, buf, filesend, written⟩ := t
  simp only at hplace hfile hsize hzero hbuf
  subst hplace hfile
  have hheader : step j ⟨.header, [], buf, filesend, written⟩ =
      ([], some ⟨.pieces 0, [], buf, filesend, written⟩) := by
    rw [step_header rfl]
    simp only
    rw [hbuf]
    simp only
    rw [hzero]
  have hpieces : step j ⟨.pieces 0, [], buf, filesend, written⟩ =
      ([], some ⟨.rest 0, [], buf, filesend, written⟩) := by
    rw [step]
    simp only
    by_cases hle : j.payload ≤ 0
    · rw [if_pos hle, readWrite_ended (Nat.min_zero _)]
    · rw [if_neg hle]
  have hrest : step j ⟨.rest 0, [], buf, filesend, written⟩ =
      ([], some ⟨.check, [], buf, filesend, written⟩) := rfl
  have hcheck : step j ⟨.check, [], buf, filesend, written⟩ =
      ([], some ⟨.header, [], buf, filesend, written⟩) := by
    rw [step]
    simp only
    rw [if_neg (not_le.mpr hsize)]
  exact ⟨_, by rw [hheader], .next (.next (.next .start (by rw [hpieces])) (by rw [hrest]))
    (by rw [hcheck])⟩

theorem counted_start (i : Image) : Counted i.start := by
  rw [Image.start]
  split <;> rfl

theorem stops_of_clear (i : Image) (h : ∀ t, Comes (step i.job) i.start t → Clear i.job t) :
    Stops i := by
  have hrun : ∀ t, Comes (step i.job) i.start t → Counted t → ∃ es, Ends (step i.job) t es ∧
      ∃ u, es = (finish i.job u).1 ∧ Counted u := by
    intro t
    induction hm : distance i.job t using Nat.strong_induction_on generalizing t with
    | _ n ih =>
      subst hm
      intro ht hcounted
      obtain ⟨t', hstep, hlt, hcount⟩ | ⟨t', hstep, hcount⟩ := goes (h t ht)
      · have hnext : (step i.job t).2 = some t' := by rw [hstep]
        obtain ⟨es, hes, u, hu, hfinal⟩ := ih _ hlt t' rfl (.next ht hnext) (hcount hcounted)
        refine ⟨es, ?_, u, hu, hfinal⟩
        have hends := Ends.next hnext hes
        rwa [hstep, nil_append] at hends
      · refine ⟨(step i.job t).1, .stop (by rw [hstep]; rfl), t', by rw [hstep], hcount hcounted⟩
  obtain ⟨es, hes, u, rfl, hcounted⟩ := hrun i.start .start (counted_start i)
  refine ⟨_, hes, by simp [finish], _, _, _, rfl, by simp, hcounted⟩

theorem clear_of_stops (i : Image) (h : Stops i) (t : Transfer)
    (ht : Comes (step i.job) i.start t) : Clear i.job t := by
  obtain ⟨es, hends, hfault, -⟩ := h
  by_contra hclear
  obtain hplace | hstep := fault_of_not_clear hclear
  · obtain ⟨es', hes'⟩ := Ends.of_comes hends ht
    exact hes'.not_cycle (cycle_of_not_clear hplace hclear)
  · have hall := (hends.forall_iff (P := fun e => e ≠ .fault)).mp
      (fun e he heq => hfault (heq ▸ he)) t ht
    rw [hstep] at hall
    exact hall .fault (mem_singleton_self _) rfl

theorem stops_iff (i : Image) :
    Stops i ↔ ∀ t, Comes (step i.job) i.start t → Clear i.job t :=
  ⟨clear_of_stops i, stops_of_clear i⟩

structure Job.Whole (j : Job) : Prop where
  sector_pos : 0 < j.sectorSize
  payload_pos : 0 < j.payload
  sector_dvd : j.sectorSize ∣ j.payload
  usb : ∀ n, j.payload ≤ j.usb n

theorem add_padding_le {s n k : Nat} (hs : 0 < s) (hdvd : s ∣ k) (hle : n ≤ k) :
    n + padding s n ≤ k := by
  rw [padding]
  split
  · exact hle
  · next hmod =>
    obtain ⟨m, rfl⟩ := hdvd
    have hdiv := Nat.div_add_mod n s
    have hlt := Nat.mod_lt n hs
    have hround : n / s < m := by
      by_contra hge
      have := Nat.mul_le_mul_left s (not_lt.mp hge)
      omega
    have hmul : s * (n / s + 1) ≤ s * m := Nat.mul_le_mul_left s hround
    rw [Nat.mul_add, Nat.mul_one] at hmul
    omega

theorem fits_of_whole (hj : j.Whole) (hle : want ≤ j.payload) : Fits j want t := by
  right
  refine ⟨hj.sector_pos.ne', add_padding_le hj.sector_pos hj.sector_dvd ?_⟩
  exact (Nat.min_le_left ..).trans hle

theorem readWrite_whole (hj : j.Whole) (hfits : Fits j want t) :
    readWrite j want t ≠ .failed u := by
  rw [readWrite]
  simp only
  split
  · exact fun h => Piece.noConfusion h
  · next hne =>
    split
    · exact fun h => Piece.noConfusion h
    · next hfault =>
      have hsent : min (j.usb t.written.length) (min want t.file.length +
          padding j.sectorSize (min want t.file.length)) = min want t.file.length +
            padding j.sectorSize (min want t.file.length) :=
        Nat.min_eq_right (le_trans (hfits.resolve_left hne).2 (hj.usb _))
      rw [if_pos hsent]
      exact fun h => Piece.noConfusion h

/-- What is left of a chunk is shorter than the payload, unless the file has ended. -/
def Short (j : Job) (t : Transfer) : Prop :=
  ∀ d, t.place = .rest d → d < j.payload ∨ t.file = []

theorem short_step (hj : j.Whole) (h : (step j t).2 = some u) : Short j u := by
  intro d hd
  cases hplace : t.place with
  | header =>
    rw [step_header hplace] at h
    cases h
    cases hd
  | pieces e =>
    rw [step, hplace] at h
    simp only at h
    by_cases hle : j.payload ≤ e
    · rw [if_pos hle] at h
      by_cases hzero : min j.payload t.file.length = 0
      · have hpos := hj.payload_pos
        have hnil : t.file = [] := length_eq_zero_iff.mp (by omega)
        rw [readWrite_ended hzero] at h
        cases h
        exact .inr hnil
      · have hfits := fits_of_whole (t := t) hj (le_refl j.payload)
        obtain ⟨t', hread | hread, -⟩ := readWrite_fits hfits hzero
        · exact absurd hread (readWrite_whole hj hfits)
        · rw [hread] at h
          cases h
          cases hd
    · rw [if_neg hle] at h
      cases h
      cases hd
      exact .inl (not_le.mp hle)
  | rest e =>
    rw [step, hplace] at h
    simp only at h
    split at h
    · split at h <;> cases h
      cases hd
    · cases h
      cases hd
  | check =>
    rw [step, hplace] at h
    simp only at h
    split at h <;> cases h
    cases hd
  | whole =>
    rw [step, hplace] at h
    simp only at h
    split at h
    · split at h <;> cases h
      next hread =>
        have hsame : u.place = t.place := by
          by_cases hzero : min (wholeWant j t) t.file.length = 0
          · rw [readWrite_ended hzero] at hread
            cases hread
          · by_cases hfits : Fits j (wholeWant j t) t
            · obtain ⟨t', hread' | hread', -, -, hsame⟩ := readWrite_fits hfits hzero
              · cases hread.symm.trans hread'
              · cases hread.symm.trans hread'
                exact hsame
            · cases hread.symm.trans (readWrite_fault hfits)
        rw [hsame, hplace] at hd
        cases hd
    · cases h

/-- With whole sectors and whole writes the transfer stops unless it comes to the end of the file
behind a chunk without data. -/
theorem stops_iff_of_whole (i : Image) (hj : i.job.Whole) :
    Stops i ↔ ∀ t, Comes (step i.job) i.start t → t.place = .header → Clear i.job t := by
  rw [stops_iff]
  refine ⟨fun h t ht _ => h t ht, fun h t ht => ?_⟩
  have hshort : Short i.job t := by
    cases ht with
    | start =>
      intro d hd
      rw [Image.start] at hd
      split at hd <;> cases hd
    | next _ hstep => exact short_step hj hstep
  cases hplace : t.place with
  | header => exact h t ht hplace
  | pieces d =>
    rw [Clear, hplace]
    exact fun _ => fits_of_whole hj le_rfl
  | rest d =>
    rw [Clear, hplace]
    obtain hlt | hnil := hshort d hplace
    · exact fits_of_whole hj hlt.le
    · exact .inl (by rw [hnil]; exact Nat.min_zero d)
  | check =>
    rw [Clear, hplace]
    trivial
  | whole =>
    rw [Clear, hplace]
    refine fun _ => fits_of_whole hj ?_
    rw [wholeWant]
    split <;> omega

variable {file buf : Bytes} {n : Nat} {types : List Nat} {tables : Tables}

theorem chunk_lastTime (h : ChunkHeader) : (tables.chunk h).lastTime = h.chunkType := rfl

theorem chunk_data (h : ChunkHeader) : (tables.chunk h).data.length =
    tables.data.length + if endsData (tables.lastTime, h.chunkType) then 1 else 0 := by
  rw [Tables.chunk, endsData]
  by_cases hdata : isData h.chunkType = true
  · have hne : h.chunkType ≠ 0xCAC3 := by
      intro heq
      rw [heq] at hdata
      cases hdata
    rw [if_pos hdata]
    split <;> [skip; split] <;> simp [hne]
  · rw [if_neg hdata]
    by_cases hhole : h.chunkType = 0xCAC3
    · rw [if_pos hhole]
      by_cases hlast : tables.lastTime ≠ 0xCAC3 ∧ tables.lastTime ≠ 0
      · rw [if_pos hlast]
        simp [hhole, hlast]
      · rw [if_neg hlast]
        have hends : (tables.lastTime != 0xCAC3 && tables.lastTime != 0) = false := by
          simpa using hlast
        simp [hhole, hends]
    · rw [if_neg hhole]
      simp [hhole]

theorem chunk_cac3 (h : ChunkHeader) : (tables.chunk h).cac3.length =
    tables.cac3.length + if endsHoles (tables.lastTime, h.chunkType) then 1 else 0 := by
  rw [Tables.chunk, endsHoles]
  by_cases hdata : isData h.chunkType = true
  · rw [if_pos hdata]
    by_cases hlast : (!isData tables.lastTime) = true ∧ tables.lastTime ≠ 0
    · rw [if_pos hlast]
      simp [hdata, hlast.2, Bool.not_eq_true' _ ▸ hlast.1]
    · rw [if_neg hlast]
      have hends : (!isData tables.lastTime && tables.lastTime != 0) = false := by
        simpa using hlast
      split <;> simp [hdata, hends]
  · rw [if_neg hdata]
    split <;> [split; skip] <;> simp [hdata]

theorem last_length (tables : Tables) :
    tables.last.data.length = tables.data.length + (if isData tables.lastTime then 1 else 0) ∧
      tables.last.cac3 = tables.cac3 := by
  rw [Tables.last]
  by_cases hdata : isData tables.lastTime = true
  · rw [if_pos hdata, if_pos hdata]
    exact ⟨length_append, rfl⟩
  · rw [if_neg hdata, if_neg hdata]
    exact ⟨rfl, rfl⟩

def nextHeader (buf file : Bytes) : ChunkHeader := chunkHeader (readHeader buf file).1

theorem chunkTypes_succ (n : Nat) (buf file : Bytes) : chunkTypes (n + 1) buf file =
    (nextHeader buf file).chunkType :: chunkTypes n (readHeader buf file).1
      ((readHeader buf file).2.drop (skip (nextHeader buf file))) := rfl

theorem chunkLoop_succ (n : Nat) (buf file : Bytes) (tables : Tables) :
    chunkLoop (n + 1) buf file tables = chunkLoop n (readHeader buf file).1
      ((readHeader buf file).2.drop (skip (nextHeader buf file)))
      (if n = 0 then (tables.chunk (nextHeader buf file)).last
        else tables.chunk (nextHeader buf file)) := rfl

theorem chunkLoop_length (n : Nat) (buf file : Bytes) (tables : Tables) :
    (chunkLoop (n + 1) buf file tables).data.length = tables.data.length +
      (((tables.lastTime :: chunkTypes (n + 1) buf file).zip
        (chunkTypes (n + 1) buf file)).countP endsData +
          if isData ((chunkTypes (n + 1) buf file).getLastD 0) then 1 else 0) ∧
    (chunkLoop (n + 1) buf file tables).cac3.length = tables.cac3.length +
      ((tables.lastTime :: chunkTypes (n + 1) buf file).zip
        (chunkTypes (n + 1) buf file)).countP endsHoles := by
  induction n generalizing buf file tables with
  | zero =>
    have hone : chunkTypes 1 buf file = [(nextHeader buf file).chunkType] := rfl
    obtain ⟨hdata, hcac3⟩ := last_length (tables.chunk (nextHeader buf file))
    rw [hone, chunkLoop_succ, if_pos rfl, chunkLoop, hdata, hcac3, chunk_data, chunk_cac3,
      chunk_lastTime, zip_cons_cons, zip_nil_right, countP_singleton,
      countP_singleton, Nat.add_assoc]
    exact ⟨rfl, rfl⟩
  | succ n ih =>
    obtain ⟨hdata, hcac3⟩ := ih (readHeader buf file).1
      ((readHeader buf file).2.drop (skip (nextHeader buf file)))
      (tables.chunk (nextHeader buf file))
    rw [chunkLoop_succ, if_neg (Nat.succ_ne_zero n), hdata, hcac3, chunk_data, chunk_cac3,
      chunk_lastTime, chunkTypes_succ (n + 1), zip_cons_cons, countP_cons,
      countP_cons, getLastD_cons]
    rw [chunkTypes_succ n]
    constructor
    · rw [getLastD_cons, getLastD_cons]
      omega
    · omega

theorem fhProcessSparseProgram_isSome (file : Bytes) : (fhProcessSparseProgram file).isSome = true ↔
    dataRuns (typesOf file) ≤ 100 ∧ holeRuns (typesOf file) ≤ 100 := by
  have htables :
      (chunkLoop (totalChunks file) (replicate 12 0) (file.drop 28) .init).data.length =
        dataRuns (typesOf file) ∧
      (chunkLoop (totalChunks file) (replicate 12 0) (file.drop 28) .init).cac3.length =
        holeRuns (typesOf file) := by
    rw [typesOf]
    cases totalChunks file with
    | zero => exact ⟨rfl, rfl⟩
    | succ n =>
      obtain ⟨hdata, hcac3⟩ := chunkLoop_length n (replicate 12 0) (file.drop 28) .init
      rw [hdata, hcac3]
      exact ⟨Nat.zero_add _, Nat.zero_add _⟩
  rw [← htables.1, ← htables.2, fhProcessSparseProgram]
  show (if (chunkLoop (totalChunks file) _ _ _).data.length ≤ 100 ∧
    (chunkLoop (totalChunks file) _ _ _).cac3.length ≤ 100 then _ else none).isSome = true ↔ _
  split
  · next h => exact iff_of_true rfl h
  · next h => exact iff_of_false Bool.false_ne_true h

/-- The tables have an entry for every run just when there are a hundred at most of each kind, and
the transfer of an image stops in bounds, with all counted bytes written, just when each of its
reads fits into the payload with the zeros up to the end of the sector and it does not come to the
end of the file behind a chunk without data. -/
theorem transfer_iff (i : Image) :
    ((fhProcessSparseProgram i.file).isSome = true ↔
      dataRuns (typesOf i.file) ≤ 100 ∧ holeRuns (typesOf i.file) ≤ 100) ∧
    (Stops i ↔ ∀ t, Comes (step i.job) i.start t → Clear i.job t) :=
  ⟨fhProcessSparseProgram_isSome i.file, stops_iff i⟩

def holeHeader : Bytes := [0xC3, 0xCA, 0, 0, 0, 0, 0, 0, 12, 0, 0, 0]

def rawHeader : Bytes := [0xC1, 0xCA, 0, 0, 3, 0, 0, 0, 24, 0, 0, 0]

/-- The file ends behind a hole, in front of the byte that is to be sent. -/
def truncated : Image where
  filename := ['a']
  sparse := some "true".toList
  sectorSize := 4
  fileSectorOffset := 0
  unsparseFileSize := 1
  payload := 4
  file := holeHeader
  usb := fun _ => 4

theorem truncated_stops_iff : Stops truncated ↔ ∀ t, Comes (step truncated.job) truncated.start t →
    t.place = .header → Clear truncated.job t :=
  stops_iff_of_whole truncated ⟨Nat.succ_pos 3, Nat.succ_pos 3, dvd_rfl, fun _ => le_rfl⟩

/-- The first of three writes sends nothing. -/
def unsent : Image where
  filename := ['a']
  sparse := some "true".toList
  sectorSize := 4
  fileSectorOffset := 0
  unsparseFileSize := 12
  payload := 4
  file := rawHeader ++ replicate 12 1
  usb := fun n => if n = 0 then 0 else 4

/-- The loop does not end at the end of a file, and what is left of a chunk is read into the buffer
at once when a write has failed. -/
theorem not_stops : ¬ Stops truncated ∧ ¬ Stops unsent := by
  constructor
  · rw [stops_iff]
    intro h
    have hend : Comes (step truncated.job) truncated.start ⟨.header, [], holeHeader, 0, []⟩ := by
      have hpieces : (step truncated.job truncated.start).2 =
          some ⟨.pieces 0, [], holeHeader, 0, []⟩ := by decide
      have hrest : (step truncated.job ⟨.pieces 0, [], holeHeader, 0, []⟩).2 =
          some ⟨.rest 0, [], holeHeader, 0, []⟩ := by decide
      have hcheck : (step truncated.job ⟨.rest 0, [], holeHeader, 0, []⟩).2 =
          some ⟨.check, [], holeHeader, 0, []⟩ := by decide
      have hheader : (step truncated.job ⟨.check, [], holeHeader, 0, []⟩).2 =
          some ⟨.header, [], holeHeader, 0, []⟩ := by decide
      exact .next (.next (.next (.next .start hpieces) hrest) hcheck) hheader
    exact h _ hend rfl (by decide) (by decide)
  · rw [stops_iff]
    intro h
    have hleft : Comes (step unsent.job) unsent.start
        ⟨.rest 12, replicate 8 1, rawHeader, 0, [⟨4, 0⟩]⟩ := by
      have hpieces : (step unsent.job unsent.start).2 =
          some ⟨.pieces 12, replicate 12 1, rawHeader, 0, []⟩ := by decide
      have hrest : (step unsent.job ⟨.pieces 12, replicate 12 1, rawHeader, 0, []⟩).2 =
          some ⟨.rest 12, replicate 8 1, rawHeader, 0, [⟨4, 0⟩]⟩ := by decide
      exact .next (.next .start hpieces) hrest
    obtain hread | ⟨-, hread⟩ := h _ hleft
    · exact absurd hread (by decide)
    · exact absurd hread (by decide)

end ModemSupport.Rooter.FirehoseRawmode
