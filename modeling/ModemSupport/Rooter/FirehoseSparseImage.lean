import ModemSupport.Rooter.FirehoseProgram
import ModemSupport.Rooter.FirehoseSparse

/-! A sparse image whose chunks are raw data and holes is flashed as what it expands to, when it
begins with data, or has no hole in front of data at all. -/

namespace ModemSupport.Rooter.Firehose

open Lib.Memory List Option

variable {blkSz sectorSize payload filesize fuel n : Nat} {c : Chunk} {cs ds : List Chunk}
  {buf rest sent file : Bytes} {t : Tables} {o : Sending}

def Chunk.header (c : Chunk) : ChunkHeader := ⟨c.type.code, c.chunkSz, c.data.length + 12⟩

def Chunk.headerBytes (c : Chunk) : Bytes :=
  toLE 2 c.type.code ++ toLE 2 c.reserved1 ++ toLE 4 c.chunkSz ++ toLE 4 (c.data.length + 12)

theorem Chunk.bytes_eq : c.bytes = c.headerBytes ++ c.data := rfl

@[simp] theorem Chunk.length_headerBytes : c.headerBytes.length = 12 := by
  simp [headerBytes]

@[simp] theorem Chunk.length_bytes : c.bytes.length = c.data.length + 12 := by
  rw [bytes_eq, length_append, length_headerBytes, Nat.add_comm]

theorem readHeader_bytes (hbuf : buf.length = 12) :
    readHeader buf (c.bytes ++ rest) = (c.headerBytes, c.data ++ rest) := by
  have hfile : c.bytes ++ rest = c.headerBytes ++ (c.data ++ rest) := by
    rw [Chunk.bytes_eq, append_assoc]
  have hlen : c.headerBytes.length = 12 := Chunk.length_headerBytes
  rw [readHeader, hfile, take_left' hlen, drop_left' hlen, hlen, ← hbuf, drop_length,
    append_nil]

def Chunk.Fits (c : Chunk) : Prop := c.chunkSz < 2 ^ 32 ∧ c.data.length + 12 < 2 ^ 32

theorem chunkHeader_headerBytes (h : c.Fits) : chunkHeader c.headerBytes = c.header := by
  have htype : ofLE (toLE 2 c.type.code) = c.type.code := by cases c.type <;> decide
  have hfour : (toLE 2 c.type.code ++ toLE 2 c.reserved1).length = 4 := by simp
  have height : (toLE 2 c.type.code ++ toLE 2 c.reserved1 ++ toLE 4 c.chunkSz).length = 8 := by
    simp
  have hdrop : c.headerBytes.drop 4 = toLE 4 c.chunkSz ++ toLE 4 (c.data.length + 12) := by
    rw [Chunk.headerBytes, append_assoc (_ ++ _), drop_left' hfour]
  have hdrop' : c.headerBytes.drop 8 = toLE 4 (c.data.length + 12) := by
    rw [Chunk.headerBytes, drop_left' height]
  have htake : c.headerBytes.take 2 = toLE 2 c.type.code := by
    rw [Chunk.headerBytes, append_assoc, append_assoc, take_left' length_toLE]
  rw [chunkHeader, hdrop, hdrop', htake, htype, take_left' length_toLE, take_of_length_le
    length_toLE.le, ofLE_toLE h.1, ofLE_toLE h.2]
  rfl

theorem dataSz_header (h : c.Fits) : c.header.dataSz = c.data.length := by
  have := h.2
  simp only [ChunkHeader.dataSz, Chunk.header]
  omega

def ChunkType.isData : ChunkType → Bool
  | .raw | .fill => true
  | .dontCare | .crc => false

theorem isData_code : isData c.type.code = c.type.isData := by
  cases c.type <;> rfl

def Tables.chunks (t : Tables) (cs : List Chunk) : Tables :=
  cs.foldl (fun t c => t.chunk c.header) t

theorem Tables.chunks_append : t.chunks (cs ++ ds) = (t.chunks cs).chunks ds :=
  foldl_append

theorem skip_header (hc : c.type ≠ .crc) (h : c.Fits) : skip c.header = c.data.length := by
  have hseek : isData c.type.code ∨ c.type.code = 0xCAC3 := by
    cases htype : c.type with
    | crc => exact absurd htype hc
    | _ => decide
  rw [skip, if_pos (show isData c.header.chunkType ∨ c.header.chunkType = 0xCAC3 from hseek),
    dataSz_header h]

theorem chunkLoop_bytes (hbuf : buf.length = 12) (hc : c.type ≠ .crc) (h : c.Fits) :
    chunkLoop (n + 1) buf (c.bytes ++ rest) t =
      chunkLoop n c.headerBytes rest
        (if n = 0 then (t.chunk c.header).last else t.chunk c.header) := by
  rw [chunkLoop, readHeader_bytes hbuf]
  simp only [chunkHeader_headerBytes h, skip_header hc h, drop_left]

theorem chunkLoop_append (rest : Bytes) (hbuf : buf.length = 12)
    (hcs : ∀ c ∈ cs, c.type ≠ .crc ∧ c.Fits) (hn : n ≠ 0) :
    ∃ buf' : Bytes, buf'.length = 12 ∧
      chunkLoop (cs.length + n) buf (cs.flatMap Chunk.bytes ++ rest) t =
        chunkLoop n buf' rest (t.chunks cs) := by
  induction cs generalizing buf t with
  | nil => exact ⟨buf, hbuf, by simp [Tables.chunks]⟩
  | cons c cs ih =>
    obtain ⟨hc, hfits⟩ := hcs c mem_cons_self
    have hlen : (c :: cs).length + n = cs.length + n + 1 := by
      rw [length_cons]
      omega
    obtain ⟨buf', hbuf', hrest⟩ := ih (t := t.chunk c.header) c.length_headerBytes
      fun c' hc' => hcs c' (mem_cons_of_mem _ hc')
    refine ⟨buf', hbuf', ?_⟩
    rw [hlen, flatMap_cons, append_assoc, chunkLoop_bytes hbuf hc hfits,
      if_neg (by omega), hrest]
    rfl

theorem chunkLoop_chunks (hbuf : buf.length = 12) (hcs : ∀ c ∈ cs, c.type ≠ .crc ∧ c.Fits)
    (hne : cs ≠ []) : chunkLoop cs.length buf (cs.flatMap Chunk.bytes) t = (t.chunks cs).last := by
  obtain ⟨cs, c, rfl⟩ : ∃ ds c, cs = ds ++ [c] :=
    ⟨cs.dropLast, cs.getLast hne, (dropLast_append_getLast hne).symm⟩
  obtain ⟨hc, hfits⟩ := hcs c (by simp)
  obtain ⟨buf', hbuf', hrest⟩ := chunkLoop_append c.bytes (n := 1) (t := t) hbuf
    (fun c' hc' => hcs c' (mem_append_left _ hc')) one_ne_zero
  rw [length_append, length_singleton, flatMap_append, flatMap_singleton, hrest,
    ← append_nil c.bytes, chunkLoop_bytes hbuf' hc hfits, Tables.chunks_append]
  rfl

def Param.chunks (p : Param) (cs : List Chunk) : Param := cs.foldl (fun p c => p.add c.header) p

def entry (cs : List Chunk) : Param := (Param.zero.chunks cs).stored

theorem chunks_data (hds : ∀ c ∈ ds, c.type.isData) (hlast : isData t.lastTime) :
    ∃ l, isData l ∧ t.chunks ds = { t with lastTime := l, total := t.total.chunks ds } := by
  induction ds generalizing t with
  | nil => exact ⟨t.lastTime, hlast, rfl⟩
  | cons c ds ih =>
    have hc := hds c mem_cons_self
    rw [← isData_code] at hc
    have hzero : t.lastTime ≠ 0 := by
      intro hz
      rw [hz] at hlast
      cases hlast
    have hstep : t.chunk c.header =
        { t with lastTime := c.type.code, total := t.total.add c.header } := by
      unfold Tables.chunk
      simp [Chunk.header, hc, hlast, hzero]
    obtain ⟨l, hl, hrest⟩ := ih (t := t.chunk c.header)
      (fun c' hc' => hds c' (mem_cons_of_mem _ hc')) (by rw [hstep]; exact hc)
    exact ⟨l, hl, hrest.trans (by rw [hstep]; rfl)⟩

theorem chunks_holes (hcs : ∀ c ∈ cs, c.type = .dontCare) (hlast : t.lastTime = 0xCAC3) :
    t.chunks cs = { t with total := t.total.chunks cs } := by
  induction cs generalizing t with
  | nil => rfl
  | cons c cs ih =>
    have hc := hcs c mem_cons_self
    have hstep : t.chunk c.header = { t with total := t.total.add c.header } := by
      unfold Tables.chunk
      simp [Chunk.header, hc, ChunkType.code, isData, hlast]
    have hrest := ih (t := t.chunk c.header)
      (fun c' hc' => hcs c' (mem_cons_of_mem _ hc')) (by rw [hstep]; exact hlast)
    exact hrest.trans (by rw [hstep]; rfl)

theorem chunks_holes_of_data (hcs : ∀ c ∈ cs, c.type = .dontCare) (hne : cs ≠ [])
    (hlast : isData t.lastTime) :
    t.chunks cs = ⟨0xCAC3, Param.zero.chunks cs, t.last.data, t.cac3⟩ := by
  obtain ⟨c, cs, rfl⟩ := exists_cons_of_ne_nil hne
  have hc := hcs c mem_cons_self
  have hzero : t.lastTime ≠ 0 ∧ t.lastTime ≠ 0xCAC3 := by
    constructor <;>
    · intro hz
      rw [hz] at hlast
      cases hlast
  have hstep : t.chunk c.header =
      ⟨0xCAC3, Param.zero.add c.header, t.last.data, t.cac3⟩ := by
    unfold Tables.chunk Tables.last
    simp [Chunk.header, hc, ChunkType.code, isData, hzero]
    simp [isData] at hlast
    simp [hlast]
  calc t.chunks (c :: cs) = (t.chunk c.header).chunks cs := rfl
    _ = _ := by
      rw [chunks_holes (fun c' hc' => hcs c' (mem_cons_of_mem _ hc')) (by rw [hstep]), hstep]
      rfl

theorem chunks_data_of_zero (hds : ∀ c ∈ ds, c.type.isData) (hne : ds ≠ [])
    (hlast : t.lastTime = 0) :
    ∃ l, isData l ∧ t.chunks ds = ⟨l, Param.zero.chunks ds, t.data, t.cac3⟩ := by
  obtain ⟨c, ds, rfl⟩ := exists_cons_of_ne_nil hne
  have hc := hds c mem_cons_self
  rw [← isData_code] at hc
  have hstep : t.chunk c.header =
      { t with lastTime := c.type.code, total := Param.zero.add c.header } := by
    unfold Tables.chunk
    simp [Chunk.header, hc, hlast]
  obtain ⟨l, hl, hrest⟩ := chunks_data (t := t.chunk c.header)
    (fun c' hc' => hds c' (mem_cons_of_mem _ hc')) (by rw [hstep]; exact hc)
  exact ⟨l, hl, hrest.trans (by rw [hstep]; rfl)⟩

theorem chunks_data_of_holes (hds : ∀ c ∈ ds, c.type.isData) (hne : ds ≠ [])
    (hlast : t.lastTime = 0xCAC3) :
    ∃ l, isData l ∧
      t.chunks ds = ⟨l, Param.zero.chunks ds, t.data, t.cac3 ++ [t.total.stored]⟩ := by
  obtain ⟨c, ds, rfl⟩ := exists_cons_of_ne_nil hne
  have hc := hds c mem_cons_self
  rw [← isData_code] at hc
  have hstep : t.chunk c.header =
      ⟨c.type.code, Param.zero.add c.header, t.data, t.cac3 ++ [t.total.stored]⟩ := by
    unfold Tables.chunk
    simp [Chunk.header, hc, hlast, show isData 0xCAC3 = false from rfl]
  obtain ⟨l, hl, hrest⟩ := chunks_data (t := t.chunk c.header)
    (fun c' hc' => hds c' (mem_cons_of_mem _ hc')) (by rw [hstep]; exact hc)
  exact ⟨l, hl, hrest.trans (by rw [hstep]; rfl)⟩

structure Group where
  holes : List Chunk
  data : List Chunk

namespace Group

def chunks (g : Group) : List Chunk := g.holes ++ g.data

structure Proper (g : Group) : Prop where
  data_ne : g.data ≠ []
  data : ∀ c ∈ g.data, c.type.isData
  holes : ∀ c ∈ g.holes, c.type = .dontCare

end Group

def groups : List Chunk → List Group × List Chunk
  | [] => ([], [])
  | c :: cs =>
    let r := groups cs
    if c.type.isData then
      match r.1 with
      | ⟨[], ds⟩ :: gs => (⟨[], c :: ds⟩ :: gs, r.2)
      | gs => (⟨[], [c]⟩ :: gs, r.2)
    else
      match r.1 with
      | g :: gs => ({ g with holes := c :: g.holes } :: gs, r.2)
      | [] => ([], c :: r.2)

structure Grouped (cs : List Chunk) (gs : List Group) (tail : List Chunk) : Prop where
  eq : gs.flatMap Group.chunks ++ tail = cs
  proper : ∀ g ∈ gs, g.Proper
  parted : ∀ g ∈ gs.tail, g.holes ≠ []
  tail : ∀ c ∈ tail, c.type = .dontCare

theorem grouped_groups (hcs : ∀ c ∈ cs, c.type ≠ .crc) :
    Grouped cs (groups cs).1 (groups cs).2 := by
  induction cs with
  | nil => exact ⟨rfl, by simp [groups], by simp [groups], by simp [groups]⟩
  | cons c cs ih =>
    have h := ih fun c' hc' => hcs c' (mem_cons_of_mem _ hc')
    rw [groups]
    split
    next hdata =>
      split
      next ds gs hgs =>
        -- The run of data goes on.
        rw [hgs] at h
        have hg := h.proper _ mem_cons_self
        refine ⟨congrArg (List.cons c) h.eq, ?_, h.parted, h.tail⟩
        intro g hmem
        rcases mem_cons.mp hmem with rfl | hmem
        · refine ⟨cons_ne_nil _ _, ?_, hg.holes⟩
          intro c' hc'
          rcases mem_cons.mp hc' with rfl | hc'
          · exact hdata
          · exact hg.data c' hc'
        · exact h.proper g (mem_cons_of_mem _ hmem)
      next gs hgs =>
        refine ⟨congrArg (List.cons c) h.eq, ?_, ?_, h.tail⟩
        · intro g hmem
          rcases mem_cons.mp hmem with rfl | hmem
          · exact ⟨cons_ne_nil _ _, by simpa using hdata, by simp⟩
          · exact h.proper g hmem
        · intro g hmem hnil
          cases hr : (groups cs).1 with
          | nil =>
            rw [hr] at hmem
            cases hmem
          | cons g' gs' =>
            rw [hr] at hmem
            rcases mem_cons.mp hmem with rfl | hmem
            · obtain ⟨holes, ds⟩ := g
              cases hnil
              exact hgs ds gs' hr
            · exact h.parted g (by rw [hr]; exact hmem) hnil
    next hdata =>
      have hhole : c.type = .dontCare := by
        have hc := hcs c mem_cons_self
        cases htype : c.type with
        | dontCare => rfl
        | crc => exact absurd htype hc
        | _ => exact absurd (by rw [htype]; rfl) hdata
      split
      next g gs hgs =>
        rw [hgs] at h
        have hg := h.proper _ mem_cons_self
        refine ⟨congrArg (List.cons c) h.eq, ?_, h.parted, h.tail⟩
        intro g' hmem
        rcases mem_cons.mp hmem with rfl | hmem
        · refine ⟨hg.data_ne, hg.data, ?_⟩
          intro c' hc'
          rcases mem_cons.mp hc' with rfl | hc'
          · exact hhole
          · exact hg.holes c' hc'
        · exact h.proper g' (mem_cons_of_mem _ hmem)
      next hgs =>
        rw [hgs] at h
        refine ⟨congrArg (List.cons c) h.eq, by simp, by simp, ?_⟩
        intro c' hc'
        rcases mem_cons.mp hc' with rfl | hc'
        · exact hhole
        · exact h.tail c' hc'

section Groups

variable {g : Group} {gs : List Group} {tail : List Chunk}

theorem chunks_holes_of_init (hcs : ∀ c ∈ cs, c.type = .dontCare) (hne : cs ≠ []) :
    Tables.init.chunks cs = ⟨0xCAC3, Param.zero.chunks cs, [], []⟩ := by
  obtain ⟨c, cs, rfl⟩ := exists_cons_of_ne_nil hne
  have hstep : Tables.init.chunk c.header = ⟨0xCAC3, Param.zero.add c.header, [], []⟩ := by
    have hc := hcs c mem_cons_self
    unfold Tables.chunk
    simp [Tables.init, Chunk.header, hc, ChunkType.code, isData]
  calc Tables.init.chunks (c :: cs) = (Tables.init.chunk c.header).chunks cs := rfl
    _ = _ := by
      rw [chunks_holes (fun c' hc' => hcs c' (mem_cons_of_mem _ hc')) (by rw [hstep]), hstep]
      rfl

theorem chunks_first (hg : g.Proper) : ∃ l, isData l ∧
    Tables.init.chunks g.chunks =
      ⟨l, Param.zero.chunks g.data, [], if g.holes = [] then [] else [entry g.holes]⟩ := by
  rw [Group.chunks, Tables.chunks_append]
  split
  next hnil =>
    rw [hnil]
    exact chunks_data_of_zero hg.data hg.data_ne rfl
  next hne =>
    rw [chunks_holes_of_init hg.holes hne]
    exact chunks_data_of_holes hg.data hg.data_ne rfl

theorem chunks_next (hg : g.Proper) (hne : g.holes ≠ []) (hlast : isData t.lastTime) :
    ∃ l, isData l ∧ t.chunks g.chunks =
      ⟨l, Param.zero.chunks g.data, t.last.data, t.cac3 ++ [entry g.holes]⟩ := by
  rw [Group.chunks, Tables.chunks_append, chunks_holes_of_data hg.holes hne hlast]
  exact chunks_data_of_holes hg.data hg.data_ne rfl

theorem last_data (hlast : isData t.lastTime) : t.last.data = t.data ++ [t.total.stored] := by
  rw [Tables.last, if_pos hlast]

theorem chunks_groups (hgs : ∀ g ∈ gs, g.Proper) (hne : ∀ g ∈ gs, g.holes ≠ [])
    (hlast : isData t.lastTime) :
    isData (t.chunks (gs.flatMap Group.chunks)).lastTime ∧
      (t.chunks (gs.flatMap Group.chunks)).last.data =
        t.last.data ++ gs.map (fun g => entry g.data) ∧
      (t.chunks (gs.flatMap Group.chunks)).cac3 =
        t.cac3 ++ gs.map (fun g => entry g.holes) := by
  induction gs generalizing t with
  | nil => exact ⟨hlast, by simp [Tables.chunks], by simp [Tables.chunks]⟩
  | cons g gs ih =>
    obtain ⟨l, hl, hg⟩ := chunks_next (hgs g mem_cons_self) (hne g mem_cons_self) hlast
    rw [flatMap_cons, Tables.chunks_append, hg]
    obtain ⟨hdata, hd, hh⟩ := ih (t := ⟨l, _, _, _⟩)
      (fun g' hg' => hgs g' (mem_cons_of_mem _ hg'))
      (fun g' hg' => hne g' (mem_cons_of_mem _ hg')) hl
    refine ⟨hdata, ?_, ?_⟩
    · rw [hd, last_data hl, append_assoc]
      rfl
    · rw [hh, append_assoc]
      rfl

theorem chunks_tail (htail : ∀ c ∈ tail, c.type = .dontCare) (hlast : isData t.lastTime) :
    (t.chunks tail).last.data = t.last.data ∧ (t.chunks tail).cac3 = t.cac3 := by
  by_cases hnil : tail = []
  · subst hnil
    exact ⟨rfl, rfl⟩
  · rw [chunks_holes_of_data htail hnil hlast]
    exact ⟨rfl, rfl⟩

theorem chunks_grouped (h : Grouped cs gs tail) :
    (Tables.init.chunks cs).last.data = gs.map (fun g => entry g.data) ∧
      (Tables.init.chunks cs).cac3 =
        (gs.filter fun g => g.holes ≠ []).map fun g => entry g.holes := by
  rw [← h.eq, Tables.chunks_append]
  cases hgs : gs with
  | nil =>
    by_cases htail : tail = []
    · subst htail
      exact ⟨rfl, rfl⟩
    · change (Tables.init.chunks tail).last.data = _ ∧ (Tables.init.chunks tail).cac3 = _
      rw [chunks_holes_of_init h.tail htail]
      exact ⟨rfl, rfl⟩
  | cons g gs' =>
    have hproper := h.proper
    have hparted := h.parted
    rw [hgs] at hproper hparted
    obtain ⟨l, hl, hg⟩ := chunks_first (hproper g mem_cons_self)
    obtain ⟨hlast, hd, hh⟩ := chunks_groups (t := Tables.init.chunks g.chunks)
      (fun g' hg' => hproper g' (mem_cons_of_mem _ hg')) hparted (by rw [hg]; exact hl)
    rw [flatMap_cons, Tables.chunks_append]
    have hfilter : (g :: gs').filter (fun g => g.holes ≠ []) =
        (if g.holes = [] then [] else [g]) ++ gs' := by
      have hall : gs'.filter (fun g => g.holes ≠ []) = gs' := by
        rw [filter_eq_self]
        intro g' hg'
        simpa using hparted g' hg'
      rw [filter_cons, hall]
      by_cases hnil : g.holes = [] <;> simp [hnil]
    obtain ⟨hends₁, hends₂⟩ := chunks_tail h.tail hlast
    rw [hends₁, hends₂, hd, hh, hg, last_data hl, hfilter]
    refine ⟨rfl, ?_⟩
    by_cases hnil : g.holes = [] <;> simp [hnil]

end Groups

def dataOf (cs : List Chunk) : Bytes := cs.flatMap Chunk.data

def blocks (cs : List Chunk) : Nat := (cs.map Chunk.chunkSz).sum

theorem chunks_eq (hcs : ∀ c ∈ cs, c.Fits) (p : Param)
    (h : p.totalSz + (dataOf cs).length < 2 ^ 32) :
    (p.chunks cs).totalSz = p.totalSz + (dataOf cs).length ∧
      (p.totalChunkSz < 2 ^ 32 →
        (p.chunks cs).totalChunkSz = (p.totalChunkSz + blocks cs) % 2 ^ 32) ∧
      (p.totalChunkCount < 2 ^ 32 →
        (p.chunks cs).totalChunkCount = (p.totalChunkCount + cs.length) % 2 ^ 32) := by
  induction cs generalizing p with
  | nil =>
    refine ⟨rfl, fun hp => ?_, fun hp => ?_⟩
    · exact (Nat.mod_eq_of_lt hp).symm
    · exact (Nat.mod_eq_of_lt hp).symm
  | cons c cs ih =>
    have hfits := hcs c mem_cons_self
    have hsize : (dataOf (c :: cs)).length = c.data.length + (dataOf cs).length := by
      simp [dataOf]
    have hblocks : blocks (c :: cs) = c.chunkSz + blocks cs := rfl
    rw [hsize] at h
    have hadd : (p.add c.header).totalSz = p.totalSz + c.data.length := by
      rw [Param.add, dataSz_header hfits]
      exact Nat.mod_eq_of_lt (by omega)
    obtain ⟨h₁, h₂, h₃⟩ := ih (fun c' hc' => hcs c' (mem_cons_of_mem _ hc'))
      (p.add c.header) (by rw [hadd]; omega)
    rw [hadd] at h₁
    refine ⟨?_, fun hp => ?_, fun hp => ?_⟩
    · rw [hsize]
      exact h₁.trans (by omega)
    · rw [hblocks]
      refine (h₂ (Nat.mod_lt _ (by norm_num))).trans ?_
      simp only [Param.add, Chunk.header]
      omega
    · rw [length_cons]
      refine (h₃ (Nat.mod_lt _ (by norm_num))).trans ?_
      simp only [Param.add]
      omega

theorem entry_totalSz (hcs : ∀ c ∈ cs, c.Fits) (hsize : (dataOf cs).length < 2 ^ 32) :
    (entry cs).totalSz = (dataOf cs).length := by
  obtain ⟨h, -, -⟩ := chunks_eq hcs .zero (by simpa [Param.zero] using hsize)
  exact h.trans (Nat.zero_add _)

theorem entry_totalChunkSz (hcs : ∀ c ∈ cs, c.Fits) (hsize : (dataOf cs).length < 2 ^ 32) :
    (entry cs).totalChunkSz = blocks cs % 2 ^ 32 := by
  obtain ⟨-, h, -⟩ := chunks_eq hcs .zero (by simpa [Param.zero] using hsize)
  exact (h (by decide)).trans (by rw [Param.zero, Nat.zero_add])

theorem entry_totalChunkCount (hcs : ∀ c ∈ cs, c.Fits) (hsize : (dataOf cs).length < 2 ^ 32)
    (hlen : cs.length < 2 ^ 16) : (entry cs).totalChunkCount = cs.length := by
  obtain ⟨-, -, h⟩ := chunks_eq hcs .zero (by simpa [Param.zero] using hsize)
  have hcount : (Param.zero.chunks cs).totalChunkCount = cs.length := by
    refine (h (by decide)).trans ?_
    rw [Param.zero, Nat.zero_add]
    exact Nat.mod_eq_of_lt (hlen.trans (by decide))
  rw [entry, Param.stored, hcount]
  exact Nat.mod_eq_of_lt hlen

theorem sendPiece_eq {want : Nat} (hpos : 0 < want) (hwant : want ≤ o.file.length)
    (hdvd : sectorSize ∣ want) (hroom : want ≤ payload) :
    sendPiece payload sectorSize want o =
      some ⟨o.file.drop want, o.sent ++ o.file.take want, o.overrun⟩ := by
  have hlen : (o.file.take want).length = want := by
    rw [length_take]
    omega
  have hne : o.file.take want ≠ [] := by
    rw [← length_pos_iff, hlen]
    exact hpos
  rw [sendPiece]
  simp only [if_neg hne, hlen, padding_of_dvd hdvd, replicate_zero, append_nil,
    Nat.add_zero]
  rw [decide_eq_false (by omega), Bool.or_false]

theorem sendPieces_eq (hpos : 0 < payload) (left : Nat) (hleft : n * payload ≤ left)
    (hfile : left ≤ o.file.length) (hdvd : n ≠ 0 → sectorSize ∣ payload) :
    sendPieces payload sectorSize n left o =
      (⟨o.file.drop (n * payload), o.sent ++ o.file.take (n * payload), o.overrun⟩,
        left - n * payload) := by
  induction n generalizing left o with
  | zero => simp [sendPieces]
  | succ n ih =>
    have hstep : (n + 1) * payload = payload + n * payload := by
      rw [Nat.succ_mul, Nat.add_comm]
    have hdvd := hdvd (Nat.succ_ne_zero n)
    rw [hstep] at hleft ⊢
    rw [sendPieces, sendPiece_eq hpos (by omega) hdvd le_rfl]
    simp only
    rw [ih (left - payload) (by omega) (by rw [length_drop]; omega) fun _ => hdvd]
    simp only [drop_drop, take_add, append_assoc, Nat.sub_sub]

theorem sendChunk_eq {data : Bytes} (hpos : 0 < payload) (hs : sectorSize ∣ data.length)
    (hroom : sectorSize ∣ payload ∨ data.length < payload) :
    sendChunk payload sectorSize data.length ⟨data ++ rest, sent, false⟩ =
      (⟨rest, sent ++ data, false⟩, false) := by
  have hdiv := Nat.div_add_mod data.length payload
  rw [Nat.mul_comm] at hdiv
  have hlt := Nat.mod_lt data.length hpos
  have hpieces := sendPieces_eq (n := data.length / payload)
    (o := ⟨data ++ rest, sent, false⟩) hpos data.length (by omega)
    (by rw [length_append]; omega) (by
      intro hne
      apply hroom.resolve_right
      intro hsmall
      exact hne (Nat.div_eq_of_lt hsmall))
  have hleft : data.length - data.length / payload * payload = data.length % payload := by
    omega
  rw [sendChunk, hpieces, hleft]
  by_cases hlast : data.length % payload > 0
  · have hdvd : sectorSize ∣ data.length % payload := by
      rcases hroom with hpay | hsmall
      · exact (Nat.dvd_mod_iff hpay).mpr hs
      · rw [Nat.mod_eq_of_lt hsmall]
        exact hs
    have hsent : (data ++ rest).take (data.length / payload * payload) ++
        ((data ++ rest).drop (data.length / payload * payload)).take (data.length % payload) =
          data := by
      rw [← take_add, hdiv, take_left]
    simp only [if_pos hlast]
    rw [sendPiece_eq hlast (by rw [length_drop, length_append]; omega) hdvd hlt.le]
    simp only [drop_drop, append_assoc, hsent, hdiv, drop_left]
  · have hmul : data.length / payload * payload = data.length := by omega
    simp only [if_neg hlast, hmul, take_left, drop_left]

/-- A chunk whose data goes through the buffer without zeros. -/
structure Chunk.Sendable (payload sectorSize : Nat) (c : Chunk) : Prop where
  fits : c.Fits
  sectors : sectorSize ∣ c.data.length
  room : sectorSize ∣ payload ∨ c.data.length < payload

theorem sendChunks_eq (hbuf : buf.length = 12) (hpos : 0 < payload) (hne : cs ≠ [])
    (hcs : ∀ c ∈ cs, c.Sendable payload sectorSize)
    (hsize : filesize = (sent ++ dataOf cs).length) (hfuel : cs.length ≤ fuel) :
    ∃ rest', sendChunks payload sectorSize filesize fuel buf
        ⟨cs.flatMap Chunk.bytes ++ rest, sent, false⟩ =
      some ⟨rest', sent ++ dataOf cs, false⟩ := by
  induction cs generalizing buf sent fuel with
  | nil => exact absurd rfl hne
  | cons c cs ih =>
    obtain ⟨fuel, rfl⟩ : ∃ k, fuel = k + 1 := ⟨fuel - 1, by
      rw [length_cons] at hfuel
      omega⟩
    have hc := hcs c mem_cons_self
    have hdata : sent ++ dataOf (c :: cs) = sent ++ c.data ++ dataOf cs := by
      rw [append_assoc]
      rfl
    rw [hdata] at hsize ⊢
    rw [flatMap_cons, append_assoc, sendChunks, readHeader_bytes hbuf]
    simp only [chunkHeader_headerBytes hc.fits, dataSz_header hc.fits,
      sendChunk_eq hpos hc.sectors hc.room, Bool.false_eq_true, false_or]
    by_cases hdone : filesize ≤ (sent ++ c.data).length
    · -- Nothing is left but chunks without data.
      have hnil : dataOf cs = [] := by
        rw [← length_eq_zero_iff]
        rw [length_append] at hsize
        omega
      exact ⟨_, by rw [if_pos hdone, hnil, append_nil]⟩
    · have hne' : cs ≠ [] := by
        rintro rfl
        simp [dataOf] at hsize
        rw [length_append] at hdone
        omega
      have hfuel : cs.length ≤ fuel := Nat.le_of_succ_le_succ hfuel
      obtain ⟨rest', hrest⟩ := ih c.length_headerBytes hne'
        (fun c' hc' => hcs c' (mem_cons_of_mem _ hc')) hsize hfuel
      exact ⟨rest', by rw [if_neg hdone, hrest]⟩

theorem printed_eq {k j : Nat} (h : printed k = some j) : j = k := by
  unfold printed at h
  exact (some.inj (ite_none_right_eq_some.mp h).2).symm

theorem length_le_flatMap_bytes (cs : List Chunk) :
    cs.length ≤ (cs.flatMap Chunk.bytes).length := by
  induction cs with
  | nil => exact le_rfl
  | cons c cs ih =>
    rw [flatMap_cons, length_append, Chunk.length_bytes, length_cons]
    omega

theorem programRun_eq {name : Str} {offset : Nat} (start : Nat) (m : Mem) (hpos : 0 < payload)
    (hname : ¬strncasecmp (unixFilename name) gptEmpty0) (hne : cs ≠ [])
    (hcs : ∀ c ∈ cs, c.Sendable payload sectorSize)
    (hfile : file.drop offset = cs.flatMap Chunk.bytes ++ rest)
    (hn : n * sectorSize = (dataOf cs).length) :
    programRun payload sectorSize name file (dataOf cs).length n offset start m = .failed ∨
      programRun payload sectorSize name file (dataOf cs).length n offset start m =
        .returned (put m (start * sectorSize) ((dataOf cs).map some)) := by
  have hlen : cs.length ≤ 2 + file.length := by
    have hbytes := length_le_flatMap_bytes cs
    have hdrop := congrArg List.length hfile
    rw [length_drop, length_append] at hdrop
    omega
  have hsent : ∃ rest', sendChunks payload sectorSize (dataOf cs).length (2 + file.length)
      (replicate 12 0) ⟨cs.flatMap Chunk.bytes ++ rest, [], false⟩ =
        some ⟨rest', dataOf cs, false⟩ :=
    sendChunks_eq (length_replicate ..) hpos hne hcs rfl hlen
  obtain ⟨rest', hsend⟩ := hsent
  unfold programRun
  split
  next s' n' start' hs' hn' hstart' =>
    cases printed_eq hs'
    cases printed_eq hn'
    cases printed_eq hstart'
    right
    simp only [sparseFilesize, if_neg hname, hfile, hsend]
    simp [program, hn]
  next => exact .inl rfl

theorem length_flatMap_bytes :
    (cs.flatMap Chunk.bytes).length = (dataOf cs).length + cs.length * 12 := by
  induction cs with
  | nil => rfl
  | cons c cs ih =>
    have hdata : dataOf (c :: cs) = c.data ++ dataOf cs := rfl
    rw [flatMap_cons, length_append, Chunk.length_bytes, ih, hdata, length_append,
      length_cons]
    omega

theorem dataOf_append : dataOf (cs ++ ds) = dataOf cs ++ dataOf ds := flatMap_append

theorem blocks_append : blocks (cs ++ ds) = blocks cs + blocks ds := by
  simp [blocks]

section Raw

variable (hcs : ∀ c ∈ cs, c.type = .raw ∧ c.Sized blkSz)
include hcs

theorem expansion_raw : cs.flatMap (Chunk.expansion blkSz) = (dataOf cs).map some := by
  induction cs with
  | nil => rfl
  | cons c cs ih =>
    obtain ⟨htype, -⟩ := hcs c mem_cons_self
    have hdata : dataOf (c :: cs) = c.data ++ dataOf cs := rfl
    rw [flatMap_cons, ih fun c' hc' => hcs c' (mem_cons_of_mem _ hc'), hdata,
      map_append, Chunk.expansion, htype]

theorem length_dataOf : (dataOf cs).length = blocks cs * blkSz := by
  induction cs with
  | nil => simp [dataOf, blocks]
  | cons c cs ih =>
    obtain ⟨htype, hsize⟩ := hcs c mem_cons_self
    have hdata : dataOf (c :: cs) = c.data ++ dataOf cs := rfl
    have hblocks : blocks (c :: cs) = c.chunkSz + blocks cs := rfl
    rw [Chunk.Sized, htype] at hsize
    rw [hdata, length_append, ih fun c' hc' => hcs c' (mem_cons_of_mem _ hc'), hblocks,
      Nat.add_mul, hsize]

end Raw

section Holes

variable (hcs : ∀ c ∈ cs, c.type = .dontCare ∧ c.Sized blkSz)
include hcs

theorem expansion_holes :
    cs.flatMap (Chunk.expansion blkSz) = replicate (blocks cs * blkSz) none := by
  induction cs with
  | nil => simp [blocks]
  | cons c cs ih =>
    obtain ⟨htype, -⟩ := hcs c mem_cons_self
    have hblocks : blocks (c :: cs) = c.chunkSz + blocks cs := rfl
    rw [flatMap_cons, ih fun c' hc' => hcs c' (mem_cons_of_mem _ hc'), hblocks,
      Nat.add_mul, replicate_add, Chunk.expansion, htype]

theorem dataOf_holes : dataOf cs = [] := by
  rw [dataOf, flatMap_eq_nil_iff]
  intro c hc
  obtain ⟨htype, hsize⟩ := hcs c hc
  rw [Chunk.Sized, htype] at hsize
  exact length_eq_zero_iff.mp hsize

end Holes

/-- What is read for one command, and the holes behind it. -/
structure Item where
  pre : List Chunk
  data : List Chunk
  gap : List Chunk

namespace Item

def chunks (it : Item) : List Chunk := it.pre ++ it.data ++ it.gap

/-- The chunks in front of the data stand for no block. -/
structure Good (payload sectorSize blkSz : Nat) (it : Item) : Prop where
  data_ne : it.data ≠ []
  data : ∀ c ∈ it.data, c.type = .raw ∧ c.Sized blkSz
  pre : ∀ c ∈ it.pre, c.type = .dontCare ∧ c.Sized blkSz
  gap : ∀ c ∈ it.gap, c.type = .dontCare ∧ c.Sized blkSz
  blocks_pre : blocks it.pre = 0
  sendable : ∀ c ∈ it.chunks, c.Sendable payload sectorSize

/-- The next command is found, since the blocks of the holes are of eight sectors. -/
structure Inner (sectorSize blkSz : Nat) (it : Item) : Prop where
  gap : blocks it.gap * blkSz = blocks it.gap * 8 * sectorSize
  data_count : it.data.length < 2 ^ 16
  holes_count : (it.pre ++ it.gap).length < 2 ^ 16

variable {it : Item}

theorem Good.dataOf_chunks (h : it.Good payload sectorSize blkSz) :
    dataOf it.chunks = dataOf it.data := by
  rw [chunks, dataOf_append, dataOf_append, dataOf_holes h.pre, dataOf_holes h.gap,
    nil_append, append_nil]

theorem Good.put_expansion (h : it.Good payload sectorSize blkSz) {m : Mem} {a : Nat} :
    put m a (it.chunks.flatMap (Chunk.expansion blkSz)) = put m a ((dataOf it.data).map some) := by
  rw [chunks, flatMap_append, flatMap_append, expansion_holes h.pre, h.blocks_pre,
    expansion_raw h.data, expansion_holes h.gap, put_append, put_none]
  simp

theorem Good.length_expansion (h : it.Good payload sectorSize blkSz) :
    (it.chunks.flatMap (Chunk.expansion blkSz)).length =
      (dataOf it.data).length + blocks it.gap * blkSz := by
  rw [chunks, flatMap_append, flatMap_append, expansion_holes h.pre, h.blocks_pre,
    expansion_raw h.data, expansion_holes h.gap]
  simp

end Item

theorem programRun_item {name : Str} {it : Item} {offset k : Nat} (start : Nat) (m : Mem)
    (hpos : 0 < payload) (hblk : blkSz = k * sectorSize)
    (hname : ¬strncasecmp (unixFilename name) gptEmpty0)
    (hit : it.Good payload sectorSize blkSz)
    (hfile : file.drop offset = it.chunks.flatMap Chunk.bytes ++ rest) :
    programRun payload sectorSize name file (dataOf it.data).length (blocks it.data * k)
      offset start
        m = .failed ∨
      programRun payload sectorSize name file (dataOf it.data).length (blocks it.data * k) offset
          start m =
        .returned (put m (start * sectorSize) ((dataOf it.data).map some)) := by
  have hdata : dataOf (it.pre ++ it.data) = dataOf it.data := by
    rw [dataOf_append, dataOf_holes hit.pre, nil_append]
  have hbytes : file.drop offset = (it.pre ++ it.data).flatMap Chunk.bytes ++
      (it.gap.flatMap Chunk.bytes ++ rest) := by
    rw [hfile, Item.chunks, flatMap_append, append_assoc]
  have hrun := programRun_eq start m hpos hname (append_ne_nil_of_right_ne_nil it.pre
    hit.data_ne) (fun c hc => hit.sendable c (mem_append_left _ hc)) hbytes
    (n := blocks it.data * k) (by
      rw [hdata, length_dataOf hit.data, hblk, Nat.mul_assoc])
  rw [hdata] at hrun
  exact hrun

theorem programLoop_items {name : Str} {items : List Item} {hs : List Param}
    {offset start k : Nat} {m : Mem} (hpos : 0 < payload) (hsector : 0 < sectorSize)
    (hblk : blkSz = k * sectorSize)
    (hname : ¬strncasecmp (unixFilename name) gptEmpty0)
    (hgood : ∀ it ∈ items, it.Good payload sectorSize blkSz)
    (hinner : ∀ it ∈ items.dropLast, it.Inner sectorSize blkSz)
    (htable : (items.dropLast.map fun it => entry (it.pre ++ it.gap)) <+: hs)
    (hfile : file.drop offset = (items.flatMap Item.chunks).flatMap Chunk.bytes ++ rest)
    (hlen : file.length < 2 ^ 32)
    (hstart : start + k * blocks (items.dropLast.flatMap Item.chunks) < 2 ^ 32) :
    programLoop payload sectorSize name file (items.map fun it => entry it.data) hs offset start m =
        .failed ∨
      programLoop payload sectorSize name file (items.map fun it => entry it.data)
        hs offset start m =
        .returned (put m (start * sectorSize)
          ((items.flatMap Item.chunks).flatMap (Chunk.expansion blkSz))) := by
  induction items generalizing hs offset start m with
  | nil => exact .inr (by simp [programLoop])
  | cons it items ih =>
    have hit := hgood it mem_cons_self
    have hbytes : file.drop offset = it.chunks.flatMap Chunk.bytes ++
        ((items.flatMap Item.chunks).flatMap Chunk.bytes ++ rest) := by
      rw [hfile, flatMap_cons, flatMap_append, append_assoc]
    have hchunks : it.chunks.length = (it.pre ++ it.gap).length + it.data.length := by
      simp only [Item.chunks, length_append]
      omega
    have hsize := congrArg List.length hbytes
    rw [length_drop, length_append, length_flatMap_bytes, hit.dataOf_chunks, hchunks]
      at hsize
    have hdata : (dataOf it.data).length < 2 ^ 32 := by omega
    have hfits : ∀ c ∈ it.chunks, c.Fits := fun c hc => (hit.sendable c hc).fits
    have hfits_data : ∀ c ∈ it.data, c.Fits := fun c hc =>
      hfits c (mem_append_left _ (mem_append_right _ hc))
    have htotal : (entry it.data).totalSz = (dataOf it.data).length :=
      entry_totalSz hfits_data hdata
    have hsectors : (dataOf it.data).length = blocks it.data * k * sectorSize := by
      rw [length_dataOf hit.data, hblk, Nat.mul_assoc]
    have hn : ((dataOf it.data).length / sectorSize +
        if (dataOf it.data).length % sectorSize ≠ 0 then 1 else 0) % 2 ^ 32 =
          blocks it.data * k := by
      have hle := Nat.le_mul_of_pos_right (blocks it.data * k) hsector
      rw [hsectors, Nat.mul_div_cancel _ hsector, Nat.mul_mod_left, if_neg (by simp), Nat.add_zero]
      exact Nat.mod_eq_of_lt (by omega)
    rw [map_cons, programLoop, htotal, hn]
    rcases programRun_item start m hpos hblk hname hit hbytes with
      hrun | hrun
    · exact .inl (by simp only [hrun])
    · simp only [hrun]
      rw [flatMap_cons, flatMap_append, put_append, hit.put_expansion,
        hit.length_expansion]
      by_cases hlast : items = []
      · subst hlast
        exact .inr (by simp [programLoop])
      · -- The next command begins where the holes behind this one end.
        have hdrop : (it :: items).dropLast = it :: items.dropLast :=
          dropLast_cons_of_ne_nil hlast
        rw [hdrop] at hinner htable hstart
        have hin := hinner it mem_cons_self
        have hholes : dataOf (it.pre ++ it.gap) = [] := by
          rw [dataOf_append, dataOf_holes hit.pre, dataOf_holes hit.gap, nil_append]
        have hfits_holes : ∀ c ∈ it.pre ++ it.gap, c.Fits := by
          intro c hc
          apply hfits
          rcases mem_append.mp hc with hc | hc
          · exact mem_append_left _ (mem_append_left _ hc)
          · exact mem_append_right _ hc
        obtain ⟨hs', rfl⟩ := htable
        have hcount := entry_totalChunkCount hfits_data hdata hin.data_count
        have hcount' := entry_totalChunkCount hfits_holes (by rw [hholes]; decide) hin.holes_count
        have hblocks := entry_totalChunkSz hfits_holes (by rw [hholes]; decide)
        rw [blocks_append, hit.blocks_pre, Nat.zero_add] at hblocks
        have hgap : blocks it.gap * k = blocks it.gap * 8 := by
          apply Nat.eq_of_mul_eq_mul_right hsector
          rw [← hin.gap, hblk, Nat.mul_assoc]
        have hspan : k * blocks ((it :: items.dropLast).flatMap Item.chunks) =
            blocks it.data * k + blocks it.gap * 8 +
              k * blocks (items.dropLast.flatMap Item.chunks) := by
          rw [flatMap_cons, blocks_append, Item.chunks, blocks_append, blocks_append,
            hit.blocks_pre, Nat.zero_add, Nat.mul_add, Nat.mul_add, ← hgap, Nat.mul_comm k,
            Nat.mul_comm k]
        rw [hspan] at hstart
        have hoffset : (offset + (dataOf it.data).length + it.data.length * 12 +
            (it.pre ++ it.gap).length * 12) % 2 ^ 32 =
              offset + (it.chunks.flatMap Chunk.bytes).length := by
          have hall : it.chunks.length ≠ 0 := by
            rw [hchunks]
            have := length_pos_iff.mpr hit.data_ne
            omega
          rw [length_flatMap_bytes, hit.dataOf_chunks, hchunks]
          rw [hchunks] at hall
          rw [Nat.mod_eq_of_lt] <;> omega
        have hnext : (start + blocks it.data * k + blocks it.gap % 2 ^ 32 * 8 % 2 ^ 32) % 2 ^ 32 =
            start + (blocks it.data * k + blocks it.gap * 8) := by
          omega
        have hput : start * sectorSize + ((dataOf it.data).length + blocks it.gap * blkSz) =
            (start + (blocks it.data * k + blocks it.gap * 8)) * sectorSize := by
          rw [Nat.add_mul, Nat.add_mul, hin.gap, hsectors]
        simp only [map_cons, cons_append, headD_cons, tail_cons, hcount,
          hcount', hblocks, hoffset, hnext, hput]
        refine ih (fun it' hit' => hgood it' (mem_cons_of_mem _ hit'))
          (fun it' hit' => hinner it' (mem_cons_of_mem _ hit')) (prefix_append ..) ?_
          (by omega)
        rw [← drop_drop, hbytes, drop_left]

def Image.body (image : Image) : List Chunk := image.chunks.takeWhile fun c => c.type ≠ .crc

def front (gs : List Group) : List Chunk :=
  gs.dropLast.flatMap Group.chunks ++ (gs.getLast?.map Group.holes).getD []

/-- There is no fill, a checksum is the last chunk and stands behind holes, there are no more than
100 runs of data and they are of fewer than 65536 chunks, the image begins with data and has blocks
of eight sectors or else has no hole of a block or more in front of data, the data begins in front
of sector 2^32, and the buffer holds whole sectors or all of each chunk. -/
structure Streamable (payload sectorSize start : Nat) (name : Str) (image : Image) : Prop where
  name : ¬strncasecmp (unixFilename name) gptEmpty0
  chunks : ∀ c ∈ image.body, c.type ≠ .fill
  crc : image.chunks = image.body ∨ ∃ c, c.type = .crc ∧ image.chunks = image.body ++ [c] ∧
    ∀ c' ∈ image.body.getLast?, c'.type = .dontCare
  runs : (groups image.body).1.length ≤ 100
  holes_count : ∀ g ∈ (groups image.body).1, g.holes.length < 2 ^ 16
  data_count : ∀ g ∈ (groups image.body).1.dropLast, g.data.length < 2 ^ 16
  holes : (∀ g ∈ (groups image.body).1, blocks g.holes = 0) ∨
    (∀ g ∈ (groups image.body).1.head?, g.holes = []) ∧ image.blkSz = 8 * sectorSize
  starts : start + image.blkSz / sectorSize * blocks (front (groups image.body).1) < 2 ^ 32
  payload : sectorSize ∣ payload ∨ ∀ c ∈ image.body, c.data.length < payload

theorem length_header {image : Image} : image.header.length = 28 := by
  simp [Image.header]

section Image

variable {image : Image} {start : Nat} {name : Str}

theorem fits_of_mem (himage : image.WellFormed sectorSize) (hc : c ∈ image.chunks) : c.Fits := by
  refine ⟨(himage.chunks c hc).chunkSz, ?_⟩
  have hsize := himage.size
  obtain ⟨a, b, hab⟩ := append_of_mem hc
  rw [Image.bytes, hab, flatMap_append, flatMap_cons] at hsize
  simp only [length_append, Chunk.length_bytes] at hsize
  omega

theorem take_bytes : image.bytes.take 28 = image.header := by
  rw [Image.bytes, take_left' length_header]

theorem drop_bytes : image.bytes.drop 28 = image.chunks.flatMap Chunk.bytes := by
  rw [Image.bytes, drop_left' length_header]

theorem header_fields (himage : image.WellFormed sectorSize) (rest : Bytes) :
    ofLE (((image.header ++ rest).drop 20).take 4) = image.chunks.length ∧
      ofLE (((image.header ++ rest).drop 8).take 2) = 28 := by
  have hlen : image.chunks.length < 256 ^ 4 := by
    have hsize := himage.size
    have hbytes := length_le_flatMap_bytes image.chunks
    rw [Image.bytes, length_append] at hsize
    omega
  constructor
  · have hsplit : image.header ++ rest = (toLE 4 0xed26ff3a ++ toLE 2 1 ++
        toLE 2 image.minorVersion ++ toLE 2 28 ++ toLE 2 12 ++ toLE 4 image.blkSz ++
        toLE 4 image.totalBlks) ++ (toLE 4 image.chunks.length ++
          (toLE 4 image.checksum ++ rest)) := by
      simp only [Image.header, append_assoc]
    rw [hsplit, drop_left' (by simp), take_left' length_toLE, ofLE_toLE hlen]
  · have hsplit : image.header ++ rest = (toLE 4 0xed26ff3a ++ toLE 2 1 ++
        toLE 2 image.minorVersion) ++ (toLE 2 28 ++ (toLE 2 12 ++ toLE 4 image.blkSz ++
        toLE 4 image.totalBlks ++ toLE 4 image.chunks.length ++
        toLE 4 image.checksum ++ rest)) := by
      simp only [Image.header, append_assoc]
    rw [hsplit, drop_left' (by simp), take_left' length_toLE]
    decide

theorem type_of_mem_body (hc : c ∈ image.body) : c.type ≠ .crc := by
  simpa using mem_takeWhile_imp hc

theorem mem_chunks_of_body (hc : c ∈ image.body) : c ∈ image.chunks :=
  (List.takeWhile_prefix _).subset hc

theorem isData_lastTime_chunks (h : ∀ c' ∈ cs.getLast?, c'.type = .dontCare) :
    isData (Tables.init.chunks cs).lastTime = false := by
  cases hlast : cs.getLast? with
  | none =>
    rw [getLast?_eq_none_iff.mp hlast]
    rfl
  | some c =>
    have hcs := dropLast_append_getLast? c hlast
    have htype := h c hlast
    rw [← hcs, Tables.chunks_append]
    change isData c.type.code = false
    rw [htype]
    rfl

theorem chunkLoop_image (himage : image.WellFormed sectorSize)
    (hcrc : image.chunks = image.body ∨ ∃ c, c.type = .crc ∧ image.chunks = image.body ++ [c] ∧
      ∀ c' ∈ image.body.getLast?, c'.type = .dontCare) :
    (chunkLoop image.chunks.length (replicate 12 0) (image.chunks.flatMap Chunk.bytes)
        .init).data = (Tables.init.chunks image.body).last.data ∧
      (chunkLoop image.chunks.length (replicate 12 0) (image.chunks.flatMap Chunk.bytes)
        .init).cac3 = (Tables.init.chunks image.body).cac3 := by
  have hbody : ∀ c ∈ image.body, c.type ≠ .crc ∧ c.Fits := fun c hc =>
    ⟨type_of_mem_body hc, fits_of_mem himage (mem_chunks_of_body hc)⟩
  rcases hcrc with he | ⟨c, hc, he, hlast⟩
  · by_cases hne : image.chunks = []
    · rw [← he, hne]
      exact ⟨rfl, rfl⟩
    · rw [he] at hne ⊢
      rw [chunkLoop_chunks (length_replicate ..) hbody hne]
      refine ⟨rfl, ?_⟩
      unfold Tables.last
      split <;> rfl
  · have hfits : c.Fits := fits_of_mem himage (by rw [he]; simp)
    obtain ⟨buf', hbuf', hloop⟩ := chunkLoop_append c.bytes (n := 1) (t := .init)
      (length_replicate (n := 12) (a := (0 : UInt8))) hbody one_ne_zero
    have hbefore : (Tables.init.chunks image.body).last = Tables.init.chunks image.body := by
      rw [Tables.last, isData_lastTime_chunks hlast]
      rfl
    have hcode : c.header.chunkType = 0xCAC4 := by
      rw [Chunk.header, hc]
      rfl
    have hchunk : ((Tables.init.chunks image.body).chunk c.header).last =
        { Tables.init.chunks image.body with lastTime := 0xCAC4 } := by
      simp [Tables.last, Tables.chunk, hcode, isData]
    rw [he, length_append, length_singleton, flatMap_append, flatMap_singleton,
      hloop, ← append_nil c.bytes, chunkLoop, readHeader_bytes hbuf', hbefore]
    simp only [chunkHeader_headerBytes hfits, chunkLoop, if_true, hchunk, and_self]

/-- A group whose holes are read with its data. -/
def itemOf (g : Group) : Item := ⟨g.holes, g.data, []⟩

/-- Groups whose holes are passed over in front of the data. -/
def itemsOf : List Group → List Chunk → List Item
  | [], _ => []
  | [g], tail => [⟨[], g.data, tail⟩]
  | g :: g' :: gs, tail => ⟨[], g.data, g'.holes⟩ :: itemsOf (g' :: gs) tail

attribute [grind =] itemsOf

variable {g : Group} {gs : List Group} {tail : List Chunk}

theorem itemsOf_ne_nil : itemsOf (g :: gs) tail ≠ [] := by
  cases gs <;> simp [itemsOf]

theorem itemsOf_chunks :
    (itemsOf (g :: gs) tail).flatMap Item.chunks =
      g.data ++ gs.flatMap Group.chunks ++ tail := by
  induction gs generalizing g with
  | nil => simp [itemsOf, Item.chunks]
  | cons g' gs ih =>
    rw [itemsOf, flatMap_cons, ih]
    simp [Item.chunks, Group.chunks]

theorem itemsOf_data (tail : List Chunk) : (itemsOf gs tail).map (fun it => entry it.data) =
    gs.map fun g => entry g.data := by
  induction gs with
  | nil => rfl
  | cons g gs ih =>
    cases gs with
    | nil => rfl
    | cons g' gs =>
      rw [itemsOf, map_cons, ih]
      rfl

theorem itemsOf_holes :
    ((itemsOf (g :: gs) tail).dropLast.map fun it => entry (it.pre ++ it.gap)) =
      gs.map fun g => entry g.holes := by
  induction gs generalizing g with
  | nil => rfl
  | cons g' gs ih =>
    rw [itemsOf, dropLast_cons_of_ne_nil itemsOf_ne_nil, map_cons, ih, map_cons,
      nil_append]

theorem front_cons_cons {g' : Group} :
    front (g :: g' :: gs) = g.chunks ++ front (g' :: gs) := by
  unfold front
  rw [dropLast_cons_cons, flatMap_cons, append_assoc, getLast?_cons_cons]

theorem front_cons : front (g :: gs) = g.holes ++ front (⟨[], g.data⟩ :: gs) := by
  cases gs with
  | nil => simp [front]
  | cons g' gs => rw [front_cons_cons, front_cons_cons, Group.chunks, append_assoc]; rfl

theorem itemsOf_front : (itemsOf (g :: gs) tail).dropLast.flatMap Item.chunks =
    front (⟨[], g.data⟩ :: gs) := by
  induction gs generalizing g with
  | nil => rfl
  | cons g' gs ih =>
    rw [itemsOf, dropLast_cons_of_ne_nil itemsOf_ne_nil, flatMap_cons, ih,
      front_cons_cons, front_cons (g := g')]
    simp [Item.chunks, Group.chunks]

structure Chunk.Plain (payload sectorSize blkSz : Nat) (c : Chunk) : Prop where
  raw : c.type.isData → c.type = .raw
  size : c.Sized blkSz
  sendable : c.Sendable payload sectorSize

section Plain

variable (hproper : ∀ g ∈ gs, g.Proper) (htail : ∀ c ∈ tail, c.type = .dontCare)
  (hplain : ∀ c ∈ gs.flatMap Group.chunks ++ tail, c.Plain payload sectorSize blkSz)
include hproper hplain

theorem good_of_group (hg : g ∈ gs) :
    g.data ≠ [] ∧ (∀ c ∈ g.data, c.type = .raw ∧ c.Sized blkSz) ∧
      ∀ c ∈ g.holes, c.type = .dontCare ∧ c.Sized blkSz := by
  have hmem : ∀ c ∈ g.chunks, c.Plain payload sectorSize blkSz := fun c hc =>
    hplain c (mem_append_left _ (mem_flatMap.mpr ⟨g, hg, hc⟩))
  refine ⟨(hproper g hg).data_ne, fun c hc => ?_, fun c hc => ?_⟩
  · have := hmem c (mem_append_right _ hc)
    exact ⟨this.raw ((hproper g hg).data c hc), this.size⟩
  · exact ⟨(hproper g hg).holes c hc, (hmem c (mem_append_left _ hc)).size⟩

theorem itemOf_good (hholes : ∀ g ∈ gs, blocks g.holes = 0) :
    ∀ it ∈ gs.map itemOf, it.Good payload sectorSize blkSz := by
  intro it hit
  obtain ⟨g, hg, rfl⟩ := List.mem_map.mp hit
  obtain ⟨hne, hraw, hhole⟩ := good_of_group hproper hplain hg
  refine ⟨hne, hraw, hhole, by simp [itemOf], hholes g hg, fun c hc => ?_⟩
  have hc : c ∈ g.chunks := by simpa [Item.chunks, itemOf, Group.chunks] using hc
  exact (hplain c (mem_append_left _ (mem_flatMap.mpr ⟨g, hg, hc⟩))).sendable

include htail

theorem itemsOf_good : ∀ it ∈ itemsOf gs tail, it.Good payload sectorSize blkSz := by
  induction gs with
  | nil => simp [itemsOf]
  | cons g gs ih =>
    obtain ⟨hne, hraw, -⟩ := good_of_group hproper hplain mem_cons_self
    cases gs with
    | nil =>
      intro it hit
      rw [itemsOf, mem_singleton] at hit
      subst hit
      refine ⟨hne, hraw, by simp, fun c hc => ⟨htail c hc, (hplain c ?_).size⟩, rfl,
        fun c hc => (hplain c ?_).sendable⟩
      · exact mem_append_right _ hc
      · simp only [Item.chunks, nil_append, mem_append] at hc
        simp only [Group.chunks, flatMap_singleton, mem_append]
        tauto
    | cons g' gs =>
      have hplain' : ∀ c ∈ (g' :: gs).flatMap Group.chunks ++ tail,
          c.Plain payload sectorSize blkSz := by
        intro c hc
        apply hplain c
        rw [flatMap_cons, append_assoc]
        exact mem_append_right _ hc
      have hproper' := fun g'' hg'' => hproper g'' (mem_cons_of_mem _ hg'')
      obtain ⟨-, -, hhole⟩ := good_of_group hproper' hplain' mem_cons_self
      intro it hit
      rw [itemsOf] at hit
      rcases mem_cons.mp hit with rfl | hit
      · refine ⟨hne, hraw, by simp, hhole, rfl, fun c hc => (hplain c ?_).sendable⟩
        simp only [Item.chunks, nil_append, mem_append] at hc
        simp only [Group.chunks, flatMap_cons, mem_append]
        tauto
      · exact ih hproper' hplain' it hit

end Plain

theorem itemsOf_inner (hdata : ∀ x ∈ (g :: gs).dropLast, x.data.length < 2 ^ 16)
    (hholes : ∀ x ∈ gs, x.holes.length < 2 ^ 16 ∧
      blocks x.holes * blkSz = blocks x.holes * 8 * sectorSize) :
    ∀ it ∈ (itemsOf (g :: gs) tail).dropLast, it.Inner sectorSize blkSz := by
  induction gs generalizing g with
  | nil => simp [itemsOf]
  | cons g' gs ih =>
    rw [itemsOf, dropLast_cons_of_ne_nil itemsOf_ne_nil]
    simp only [dropLast_cons_cons] at hdata
    obtain ⟨hcount, hgap⟩ := hholes g' mem_cons_self
    intro it hit
    rcases mem_cons.mp hit with rfl | hit
    · exact ⟨hgap, hdata g mem_cons_self, hcount⟩
    · exact ih (g := g') (fun g'' hg'' => hdata g'' (mem_cons_of_mem _ hg''))
        (fun g'' hg'' => hholes g'' (mem_cons_of_mem _ hg'')) it hit

theorem fhProcessSparseProgram_eq (himage : image.WellFormed sectorSize)
    (h : Streamable payload sectorSize start name image) :
    fhProcessSparseProgram image.bytes = some
      ⟨(groups image.body).1.map (fun g => entry g.data),
        ((groups image.body).1.filter fun g => g.holes ≠ []).map (fun g => entry g.holes), 28⟩ := by
  have hgrouped := grouped_groups fun c (hc : c ∈ image.body) => type_of_mem_body hc
  obtain ⟨hdata, hcac3⟩ := chunks_grouped hgrouped
  obtain ⟨hloop, hloop'⟩ := chunkLoop_image himage h.crc
  obtain ⟨htotal, hoffset⟩ :=
    header_fields himage (replicate (64 - image.header.length) 0)
  have hfilter := length_filter_le (fun g : Group => decide (g.holes ≠ []))
    (groups image.body).1
  unfold fhProcessSparseProgram
  simp only [take_bytes, drop_bytes, htotal, hoffset, hloop, hloop', hdata, hcac3]
  rw [if_pos]
  simp only [length_map]
  exact ⟨h.runs, hfilter.trans h.runs⟩

theorem plain_of_mem_body (himage : image.WellFormed sectorSize)
    (h : Streamable payload sectorSize start name image) (hc : c ∈ image.body) :
    c.Plain payload sectorSize image.blkSz := by
  have hmem := mem_chunks_of_body hc
  have hsize := (himage.chunks c hmem).size
  have hfill := h.chunks c hc
  have hcrc := type_of_mem_body hc
  refine ⟨fun hdata => ?_, hsize, fits_of_mem himage hmem, ?_, h.payload.imp_right fun h => h c hc⟩
  · cases htype : c.type with
    | raw => rfl
    | fill => exact absurd htype hfill
    | _ =>
      rw [htype] at hdata
      cases hdata
  · unfold Chunk.Sized at hsize
    cases htype : c.type with
    | raw =>
      rw [htype] at hsize
      rw [hsize]
      exact Dvd.dvd.mul_left himage.blocks _
    | fill => exact absurd htype hfill
    | dontCare =>
      rw [htype] at hsize
      rw [hsize]
      exact Nat.dvd_zero _
    | crc => exact absurd htype hcrc

theorem expansion_tail (blkSz : Nat) {tail : List Chunk}
    (htail : ∀ c ∈ tail, c.type = .crc ∨ c.type = .dontCare) :
    ∃ n, tail.flatMap (Chunk.expansion blkSz) = replicate n none := by
  induction tail with
  | nil => exact ⟨0, rfl⟩
  | cons c tail ih =>
    obtain ⟨n, hn⟩ := ih fun c' hc' => htail c' (mem_cons_of_mem _ hc')
    rcases htail c mem_cons_self with hc | hc
    · exact ⟨n, by rw [flatMap_cons, hn, Chunk.expansion, hc]; rfl⟩
    · refine ⟨c.chunkSz * blkSz + n, ?_⟩
      rw [flatMap_cons, hn, Chunk.expansion, hc, replicate_add]

theorem flashed_of_items {hs : List Param} {m : Mem} (items : List Item) (tail : List Chunk)
    (hpos : 0 < payload) (hsector : 0 < sectorSize) (himage : image.WellFormed sectorSize)
    (hname : ¬strncasecmp (unixFilename name) gptEmpty0)
    (hgood : ∀ it ∈ items, it.Good payload sectorSize image.blkSz)
    (hinner : ∀ it ∈ items.dropLast, it.Inner sectorSize image.blkSz)
    (htable : (items.dropLast.map fun it => entry (it.pre ++ it.gap)) <+: hs)
    (hchunks : items.flatMap Item.chunks ++ tail = image.chunks)
    (htail : ∀ c ∈ tail, c.type = .crc ∨ c.type = .dontCare)
    (hstart : start + image.blkSz / sectorSize *
      blocks (items.dropLast.flatMap Item.chunks) < 2 ^ 32) :
    Flashed image sectorSize start m (programLoop payload sectorSize name image.bytes
      (items.map fun it => entry it.data) hs 28 start m) := by
  have hblk : image.blkSz = image.blkSz / sectorSize * sectorSize :=
    (Nat.div_mul_cancel himage.blocks).symm
  have hfile : image.bytes.drop 28 =
      (items.flatMap Item.chunks).flatMap Chunk.bytes ++ tail.flatMap Chunk.bytes := by
    rw [drop_bytes, ← hchunks, flatMap_append]
  obtain ⟨n, hn⟩ := expansion_tail image.blkSz htail
  have hexpansion : put m (start * sectorSize) image.expansion =
      put m (start * sectorSize)
        ((items.flatMap Item.chunks).flatMap (Chunk.expansion image.blkSz)) := by
    rw [Image.expansion, ← hchunks, flatMap_append, hn, put_append, put_none]
  rcases programLoop_items (m := m) hpos hsector hblk hname hgood hinner htable hfile himage.size
    hstart with hloop | hloop
  · rw [hloop]
    exact ⟨by simp, by simp⟩
  · rw [hloop]
    exact ⟨by simp, fun m' hm => (Outcome.returned.inj hm).symm.trans hexpansion.symm⟩

theorem itemOf_chunks : (gs.map itemOf).flatMap Item.chunks = gs.flatMap Group.chunks := by
  rw [flatMap_map]
  congr 1
  funext x
  simp [itemOf, Item.chunks, Group.chunks]

theorem flashed_of_groups {tail rest : List Chunk} (m : Mem)
    (hpos : 0 < payload) (hsector : 0 < sectorSize) (himage : image.WellFormed sectorSize)
    (hname : ¬strncasecmp (unixFilename name) gptEmpty0)
    (hplain : ∀ c ∈ gs.flatMap Group.chunks ++ tail, c.Plain payload sectorSize image.blkSz)
    (hgrouped : Grouped cs gs tail) (hchunks : cs ++ rest = image.chunks)
    (hrest : ∀ c ∈ rest, c.type = .crc) (hcount : ∀ x ∈ gs, x.holes.length < 2 ^ 16)
    (hcount' : ∀ x ∈ gs.dropLast, x.data.length < 2 ^ 16)
    (hholes : (∀ x ∈ gs, blocks x.holes = 0) ∨
      (∀ x ∈ gs.head?, x.holes = []) ∧ image.blkSz = 8 * sectorSize)
    (hstart : start + image.blkSz / sectorSize * blocks (front gs) < 2 ^ 32) :
    Flashed image sectorSize start m (programLoop payload sectorSize name image.bytes
      (gs.map fun g => entry g.data)
      ((gs.filter fun g => g.holes ≠ []).map fun g => entry g.holes) 28 start m) := by
  have htail : ∀ c ∈ tail ++ rest, c.type = .crc ∨ c.type = .dontCare := by
    intro c hc
    rcases mem_append.mp hc with hc | hc
    · exact .inr (hgrouped.tail c hc)
    · exact .inl (hrest c hc)
  rw [← hgrouped.eq, append_assoc] at hchunks
  cases gs with
  | nil =>
    exact flashed_of_items [] _ hpos hsector himage hname (by simp) (by simp) (by simp)
      hchunks htail hstart
  | cons g gs =>
    have hfilter : gs.filter (fun g => g.holes ≠ []) = gs := by
      rw [filter_eq_self]
      intro g' hg'
      simpa using hgrouped.parted g' hg'
    by_cases hfirst : g.holes = []
    · -- The holes behind the data of a group are passed over with it.
      have hgroup : (⟨[], g.data⟩ : Group) = g := by
        rw [← hfirst]
      rw [← itemsOf_data tail]
      refine flashed_of_items _ rest hpos hsector himage hname
        (itemsOf_good hgrouped.proper hgrouped.tail hplain) (itemsOf_inner hcount' ?_) ?_ ?_
        (fun c hc => .inl (hrest c hc)) ?_
      · intro g' hg'
        refine ⟨hcount g' (mem_cons_of_mem _ hg'), ?_⟩
        rcases hholes with hzero | ⟨-, height⟩
        · rw [hzero g' (mem_cons_of_mem _ hg'), Nat.zero_mul, Nat.zero_mul]
        · rw [height, Nat.mul_assoc]
      · rw [itemsOf_holes, filter_cons, if_neg (by simp [hfirst]), hfilter]
      · rw [itemsOf_chunks, ← hchunks, flatMap_cons, Group.chunks, hfirst]
        simp
      · rw [itemsOf_front, hgroup]
        exact hstart
    · -- Holes are read in front of the data of their group, and stand for nothing.
      have hzero := hholes.resolve_right fun hnot => hfirst (hnot.1 g rfl)
      have hdata : (g :: gs).map (fun g => entry g.data) =
          ((g :: gs).map itemOf).map fun it => entry it.data := by
        rw [List.map_map]
        rfl
      have hitems : ((g :: gs).map itemOf).flatMap Item.chunks =
          (g :: gs).flatMap Group.chunks := itemOf_chunks
      rw [hdata]
      refine flashed_of_items _ (tail ++ rest) hpos hsector himage hname
        (itemOf_good hgrouped.proper hplain hzero) ?_ ?_ ?_ htail ?_
      · intro it hit
        rw [← map_dropLast] at hit
        obtain ⟨x, hx, rfl⟩ := List.mem_map.mp hit
        refine ⟨by simp [itemOf, blocks], hcount' x hx, ?_⟩
        rw [itemOf, append_nil]
        exact hcount x (mem_of_mem_dropLast hx)
      · rw [filter_cons, if_pos (by simpa using hfirst), hfilter, ← map_dropLast,
          List.map_map]
        have hentry : ((fun it : Item => entry (it.pre ++ it.gap)) ∘ itemOf) =
            fun g => entry g.holes := by
          funext x
          simp [itemOf]
        rw [hentry]
        exact (List.dropLast_prefix (g :: gs)).map _
      · rw [hitems, hchunks]
      · refine lt_of_le_of_lt (Nat.add_le_add_left (Nat.mul_le_mul_left _ ?_) _) hstart
        rw [← map_dropLast, itemOf_chunks, front, blocks_append]
        exact Nat.le_add_right _ _

theorem exists_rest (h : Streamable payload sectorSize start name image) :
    ∃ rest, image.body ++ rest = image.chunks ∧ ∀ c ∈ rest, c.type = .crc := by
  rcases h.crc with he | ⟨c, hc, he, -⟩
  · exact ⟨[], by rw [append_nil]; exact he.symm, by simp⟩
  · exact ⟨[c], he.symm, by simpa using hc⟩

/-- A sparse image that can be streamed is flashed as its expansion. -/
theorem flashed_of_streamable {deviceType : Str} {first second : Option Response} (m : Mem)
    (hcfg : fhSendCfgCmd deviceType first second = some payload) (hsector : 0 < sectorSize)
    (himage : image.WellFormed sectorSize)
    (h : Streamable payload sectorSize start name image) :
    Flashed image sectorSize start m
      (fhProcessProgram payload sectorSize start name image.bytes m) := by
  have hgrouped := grouped_groups fun c (hc : c ∈ image.body) => type_of_mem_body hc
  have hrest := exists_rest h
  have hplain : ∀ c ∈ (groups image.body).1.flatMap Group.chunks ++ (groups image.body).2,
      c.Plain payload sectorSize image.blkSz := by
    intro c hc
    rw [hgrouped.eq] at hc
    exact plain_of_mem_body himage h hc
  rw [fhProcessProgram, fhProcessSparseProgram_eq himage h]
  exact flashed_of_groups m (fhSendCfgCmd_pos hcfg) hsector himage h.name hplain hgrouped
    hrest.choose_spec.1 hrest.choose_spec.2 h.holes_count h.data_count h.holes h.starts

/-- The memory behind a run that has ended with zero. -/
def Outcome.mem : Outcome → Option Mem
  | .returned m => some m
  | _ => none

theorem Outcome.eq_of_mem {m : Mem} {o : Outcome} (h : o.mem = some m) : o = .returned m := by
  cases o with
  | returned m' => rw [some.inj h]
  | failed => cases h
  | overrun => cases h

def rawBlock : Chunk := ⟨.raw, 0, 1, replicate 32 1⟩

def hole : Chunk := ⟨.dontCare, 0, 1, []⟩

def twoRuns : Image := ⟨0, 32, 3, 0, [rawBlock, hole, rawBlock]⟩

def leadingHole : Image := ⟨0, 32, 2, 0, [hole, rawBlock]⟩

theorem wellFormed_of_blocks (hsize : image.bytes.length < 2 ^ 32) (hblk : image.blkSz = 32)
    (hchunks : ∀ c ∈ image.chunks, c = rawBlock ∨ c = hole) : image.WellFormed 4 := by
  refine ⟨by rw [hblk]; decide, fun c hc => ?_, hsize⟩
  rw [hblk]
  rcases hchunks c hc with rfl | rfl
  · exact ⟨by decide, by simp [Chunk.Sized, rawBlock]⟩
  · exact ⟨by decide, by simp [Chunk.Sized, hole]⟩

theorem streamable_twoRuns : Streamable 8 4 8 "boot".toList twoRuns where
  name := by decide
  chunks := by decide
  crc := .inl (by decide)
  runs := by decide
  holes_count := by decide
  data_count := by decide
  holes := .inr (by decide)
  starts := by decide
  payload := .inl (by decide)

/-- A hole between two runs of data is left out. -/
theorem flashed_twoRuns : Flashed twoRuns 4 8 (fun _ => 0)
    (fhProcessProgram 8 4 8 "boot".toList twoRuns.bytes fun _ => 0) :=
  flashed_of_streamable (fun _ => 0)
    (show fhSendCfgCmd "emmc".toList (some ⟨some .nak, false, 8⟩)
      (some ⟨some .ack, false, 0⟩) = some 8 by decide)
    (by decide) (wellFormed_of_blocks (by decide +kernel) rfl (by decide)) streamable_twoRuns

/-- Data behind a hole is put into the place of the hole. -/
theorem misplaced_leadingHole :
    leadingHole.WellFormed 4 ∧
    ((fhProcessProgram 8 4 0 "boot".toList leadingHole.bytes fun _ => 0).mem.map fun m =>
      (m 0, m 32)) = some (1, 0) ∧
    ¬Flashed leadingHole 4 0 (fun _ => 0)
      (fhProcessProgram 8 4 0 "boot".toList leadingHole.bytes fun _ => 0) := by
  have hrun : ((fhProcessProgram 8 4 0 "boot".toList leadingHole.bytes fun _ => 0).mem.map
      fun m => (m 0, m 32)) = some (1, 0) := by decide
  refine ⟨wellFormed_of_blocks (by decide) rfl (by decide), hrun, fun h => ?_⟩
  obtain ⟨m, hm, hbytes⟩ := map_eq_some_iff.mp hrun
  rw [h.mem m (Outcome.eq_of_mem hm)] at hbytes
  exact absurd hbytes (by decide)

end Image

end ModemSupport.Rooter.Firehose
