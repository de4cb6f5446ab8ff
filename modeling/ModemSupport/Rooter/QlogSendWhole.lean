import ModemSupport.Rooter.QlogSend

/-! The buffers whose commands `mdm_send_cmd` and `asr_send_cmd` forward as they are. -/

namespace ModemSupport.Rooter.QlogSend

open Lib.Loop Lib.Memory List

variable {mem : Mem} {slack size wc a b c e k start : Nat} {connected : Bool} {as bs : List Access}

theorem length_slice : (slice mem a b).length = b - a := by
  rw [slice, length_map, length_range]

theorem slice_self : slice mem a a = [] := by
  rw [slice, Nat.sub_self]
  rfl

theorem slice_append (hab : a ≤ b) (hbc : b ≤ c) :
    slice mem a b ++ slice mem b c = slice mem a c := by
  obtain ⟨m, rfl⟩ := Nat.exists_eq_add_of_le hab
  obtain ⟨n, rfl⟩ := Nat.exists_eq_add_of_le hbc
  have hsum : a + m + n - a = m + n := by omega
  rw [slice, slice, slice, Nat.add_sub_cancel_left, Nat.add_sub_cancel_left, hsum, range_add,
    map_append, List.map_map]
  refine congrArg _ (map_congr_left fun i _ => ?_)
  rw [Function.comp_apply, Nat.add_assoc]

theorem inside_append :
    Inside slack size (as ++ bs) ↔ Inside slack size as ∧ Inside slack size bs := by
  constructor
  · exact fun h => ⟨fun i hi => h i (mem_append_left _ hi),
      fun i hi => h i (mem_append_right _ hi)⟩
  · rintro ⟨ha, hb⟩ i hi
    exact (mem_append.mp hi).elim (ha i) (hb i)

theorem inside_nil : Inside slack size [] := fun _ h => absurd h not_mem_nil

theorem inside_read {i : Int} :
    Inside slack size [.read i] ↔ -(slack : Int) ≤ i ∧ i < size + slack := by
  simp [Inside]

theorem inside_write : Inside slack size [.write a k] := by
  simp [Inside]

theorem inside_reads : Inside slack size (reads a b) ↔ a < b → b ≤ size + slack := by
  constructor
  · intro h hlt
    have hlast : Access.read ((a + (b - a - 1) : Nat) : Int) ∈ reads a b :=
      List.mem_map.mpr ⟨b - a - 1, mem_range.mpr (by omega), rfl⟩
    have := (h _ hlast).2
    omega
  · intro h i hi
    obtain ⟨j, hj, hread⟩ := List.mem_map.mp hi
    rw [mem_range] at hj
    obtain rfl : ((a + j : Nat) : Int) = i := Access.read.inj hread
    omega

theorem written_append : written mem (as ++ bs) = written mem as ++ written mem bs := by
  induction as with
  | nil => rfl
  | cons x as ih =>
    cases x with
    | read i => exact ih
    | write s k => rw [cons_append, written, written, ih, append_assoc]

theorem written_reads : written mem (reads a b) = [] := by
  rw [reads]
  induction List.range (b - a) with
  | nil => rfl
  | cons i l ih => exact ih

def AllMarked (mem : Mem) (as : List Access) : Prop :=
  ∀ s k, Access.write s k ∈ as → mem ((s : Int) + k - 1) = 0x7E

theorem AllMarked.marked (h : AllMarked mem as) : marked mem as := by
  induction as with
  | nil => trivial
  | cons x as ih =>
    have hrest := ih fun s k hmem => h s k (mem_cons_of_mem _ hmem)
    cases x with
    | read i => exact hrest
    | write s k => exact ⟨fun _ => h s k mem_cons_self, hrest⟩

theorem search_spec : start ≤ search mem k start ∧ search mem k start ≤ start + k ∧
    (∀ i : Nat, start ≤ i → i < search mem k start → mem i ≠ 0x7E) ∧
      (search mem k start < start + k → mem (search mem k start) = 0x7E) := by
  induction k generalizing start with
  | zero => exact ⟨le_rfl, le_rfl, fun i hi hi' => absurd hi (not_le.mpr hi'),
      fun h => absurd h (lt_irrefl _)⟩
  | succ k ih =>
    rw [search]
    by_cases hmark : mem start ≠ 0x7E
    · rw [if_pos hmark]
      obtain ⟨hge, hle, hno, hend⟩ := @ih (start + 1)
      refine ⟨by omega, by omega, fun i hi hi' => ?_, fun h => hend (by omega)⟩
      by_cases heq : i = start
      · rwa [heq]
      · exact hno i (by omega) hi'
    · rw [if_neg hmark]
      exact ⟨le_rfl, by omega, fun i hi hi' => absurd hi (not_le.mpr hi'),
        fun _ => not_not.mp hmark⟩

theorem mdmWrite_spec {flag : Int} (he : flag + 1 = e) (hle : wc ≤ e)
    (hend : mem flag = 0x7E ∨ flag = size) :
    (mdmWrite connected mem size wc flag).2 = some e ∧
      written mem (mdmWrite connected mem size wc flag).1 = slice mem wc e ∧
      (Inside slack size (mdmWrite connected mem size wc flag).1 ↔
        -(slack : Int) ≤ flag ∧ flag < size + slack ∧
          (connected = true → e < size → wc + 16 ≤ size + slack)) ∧
      (mem flag = 0x7E → AllMarked mem (mdmWrite connected mem size wc flag).1) := by
  have hnat : (flag + 1).toNat = e := by omega
  have hcount : (flag - wc + 1).toNat = e - wc := by omega
  have hsum : wc + (e - wc) = e := by omega
  rw [mdmWrite, if_pos hend, hnat, hcount]
  refine ⟨rfl, ?_, ?_, ?_⟩
  · have hprint : written mem (if connected ∧ flag + 1 < size then reads wc (wc + 16) else []) =
        [] := by
      split
      · exact written_reads
      · rfl
    rw [written_append, written_append, written_append, written_reads, hprint, append_nil,
      nil_append]
    rw [written, written, written, hsum, written, nil_append, append_nil]
  · have hprint : Inside slack size (if connected ∧ flag + 1 < size then reads wc (wc + 16) else [])
        ↔ (connected = true → e < size → wc + 16 ≤ size + slack) := by
      split
      case isTrue h =>
        rw [inside_reads]
        exact ⟨fun h' _ _ => h' (by omega), fun h' _ => h' h.1 (by omega)⟩
      case isFalse h =>
        exact iff_of_true inside_nil fun hc hlt => absurd ⟨hc, by omega⟩ h
    rw [inside_append, inside_append, inside_append, inside_read, hprint, inside_reads]
    constructor
    · rintro ⟨⟨hflag, -⟩, hprint⟩
      exact ⟨hflag.1, hflag.2, hprint⟩
    · rintro ⟨hlow, hhigh, hprint⟩
      exact ⟨⟨⟨hlow, hhigh⟩, fun _ => by omega, inside_write⟩, hprint⟩
  · intro hmark s k hmem
    have hreads : ∀ a b, Access.write s k ∉ reads a b := by
      intro a b h
      obtain ⟨j, -, hj⟩ := List.mem_map.mp h
      cases hj
    rw [mem_append, mem_append, mem_append] at hmem
    rcases hmem with (h | h | h) | h
    · cases mem_singleton.mp h
    · exact absurd h (hreads _ _)
    · obtain ⟨rfl, rfl⟩ := Access.write.inj (mem_singleton.mp h)
      rwa [show ((s : Int) + ((e - s : Nat) : Int) - 1) = flag by omega]
    · split at h
      · exact absurd h (hreads _ _)
      · cases h

theorem inside_header (hlt : wc < size) : Inside slack size (header mem size wc) ↔
    wc + 4 ≤ size + slack ∧ (FrameHead mem wc → frameLen mem wc = 0 → 0 < wc ∨ 0 < slack) := by
  have hfirst : Inside slack size [.read (wc + 2), .read (wc + 3), .read wc] ↔
      wc + 4 ≤ size + slack := by
    simp only [Inside, mem_cons, not_mem_nil, or_false, Access.read.injEq]
    constructor
    · intro h
      have := (h (wc + 3) (.inr (.inl rfl))).2
      omega
    · rintro h i (rfl | rfl | rfl)
      · omega
      · omega
      · omega
  have hsecond : wc + 4 ≤ size + slack →
      Inside slack size (if mem wc = 0x7E then [.read (wc + 1)] else []) := by
    intro h
    split
    · exact inside_read.mpr (by omega)
    · exact inside_nil
  have hthird : Inside slack size (if FrameHead mem wc ∧ wc + frameLen mem wc ≤ size then
      [.read (wc + frameLen mem wc - 1)] else []) ↔
        (FrameHead mem wc → frameLen mem wc = 0 → 0 < wc ∨ 0 < slack) := by
    split
    case isTrue h =>
      rw [inside_read]
      exact ⟨fun h' _ hzero => by omega, fun h' => by have := h' h.1; omega⟩
    case isFalse h =>
      exact iff_of_true inside_nil fun hhead hzero => absurd ⟨hhead, by omega⟩ h
  rw [header, inside_append, inside_append, hfirst, hthird]
  exact ⟨fun h => ⟨h.1.1, h.2⟩, fun h => ⟨⟨h.1, hsecond h.1⟩, h.2⟩⟩

theorem written_header : written mem (header mem size wc) = [] := by
  rw [header, written_append, written_append]
  split <;> split <;> rfl

theorem allMarked_header : AllMarked mem (header mem size wc) := by
  intro s k hmem
  rw [header] at hmem
  split at hmem <;> split at hmem <;> simp at hmem

structure Round (slack : Nat) (connected : Bool) (mem : Mem) (size wc e : Nat)
    (inside : Prop) : Prop where
  next : (mdmRound connected mem size wc).2 = some e
  written : written mem (mdmRound connected mem size wc).1 = slice mem wc e
  inside : Inside slack size (mdmRound connected mem size wc).1 ↔ inside ∧
    wc + 4 ≤ size + slack ∧ (FrameHead mem wc → frameLen mem wc = 0 → 0 < wc ∨ 0 < slack) ∧
      (connected = true → e < size → wc + 16 ≤ size + slack)
  marked : mem ((e : Int) - 1) = 0x7E → AllMarked mem (mdmRound connected mem size wc).1

theorem round_frame (hlt : wc < size) (hframe : IsFrame mem size wc) :
    Round slack connected mem size wc (wc + frameLen mem wc) True := by
  have hspec := @mdmWrite_spec mem slack size wc (wc + frameLen mem wc) connected
    (wc + frameLen mem wc - 1) (by omega) (by omega) (.inl hframe.2.2)
  have hle := hframe.2.1
  refine ⟨?_, ?_, ?_, ?_⟩
  · rw [mdmRound, if_pos hlt]
    simp only
    rw [if_pos hframe]
    exact hspec.1
  · rw [mdmRound, if_pos hlt]
    simp only
    rw [if_pos hframe, written_append, written_header, hspec.2.1, nil_append]
  · rw [mdmRound, if_pos hlt]
    simp only
    rw [if_pos hframe, inside_append, inside_header hlt, hspec.2.2.1]
    constructor
    · rintro ⟨⟨h1, h2⟩, -, -, h3⟩
      exact ⟨trivial, h1, h2, h3⟩
    · rintro ⟨-, h1, h2, h3⟩
      refine ⟨⟨h1, h2⟩, ?_, by omega, h3⟩
      have := h2 hframe.1
      omega
  · intro _
    rw [mdmRound, if_pos hlt]
    simp only
    rw [if_pos hframe]
    intro s k hmem
    rcases mem_append.mp hmem with h | h
    · exact allMarked_header s k h
    · exact hspec.2.2.2 hframe.2.2 s k h

theorem searchStart_le (hlt : wc < size) : wc ≤ searchStart mem wc ∧ searchStart mem wc ≤ size := by
  rw [searchStart]
  split
  · omega
  · omega

theorem round_packet (hlt : wc < size) (hframe : ¬ IsFrame mem size wc) :
    ∃ e, Round slack connected mem size wc (e + 1) (e < size + slack) ∧ wc ≤ e ∧ e ≤ size ∧
      searchStart mem wc ≤ e ∧ (∀ i : Nat, searchStart mem wc ≤ i → i < e → mem i ≠ 0x7E) ∧
        (e < size → mem e = 0x7E) := by
  have hstart := @searchStart_le mem size wc hlt
  obtain ⟨hge, hle, hno, hend⟩ :=
    @search_spec mem (size - searchStart mem wc) (searchStart mem wc)
  have hsum : searchStart mem wc + (size - searchStart mem wc) = size := by omega
  rw [hsum] at hle hend
  refine ⟨search mem (size - searchStart mem wc) (searchStart mem wc), ?_, by omega, hle, hge, hno,
    hend⟩
  generalize hflag : search mem (size - searchStart mem wc) (searchStart mem wc) = flag at *
  have hmark : mem flag = 0x7E ∨ (flag : Int) = size := by
    by_cases hlast : flag < size
    · exact .inl (hend hlast)
    · exact .inr (by omega)
  have hspec := @mdmWrite_spec mem slack size wc (flag + 1) connected flag (by omega) (by omega)
    hmark
  have hfirst : Inside slack size (if wc = 0 then [.read wc] else []) := by
    split
    · exact inside_read.mpr (by omega)
    · exact inside_nil
  have hround : mdmRound connected mem size wc = (header mem size wc ++
      (if wc = 0 then [.read wc] else []) ++ reads (searchStart mem wc) (flag + 1) ++
      (mdmWrite connected mem size wc flag).1, (mdmWrite connected mem size wc flag).2) := by
    rw [mdmRound, if_pos hlt]
    simp only
    rw [if_neg hframe, hflag]
  refine ⟨?_, ?_, ?_, ?_⟩
  · rw [hround]
    exact hspec.1
  · have hread : written mem (if wc = 0 then [.read wc] else []) = [] := by split <;> rfl
    rw [hround, written_append, written_append, written_append, written_header, hread,
      written_reads, hspec.2.1, nil_append, nil_append, nil_append]
  · rw [hround, inside_append, inside_append, inside_append, inside_header hlt, inside_reads,
      hspec.2.2.1]
    constructor
    · rintro ⟨⟨⟨⟨h1, h2⟩, -⟩, h3⟩, -, -, h4⟩
      exact ⟨by omega, h1, h2, h4⟩
    · rintro ⟨h3, h1, h2, h4⟩
      exact ⟨⟨⟨⟨h1, h2⟩, hfirst⟩, fun _ => by omega⟩, by omega, by omega, h4⟩
  · intro hmark'
    have hend' : mem flag = 0x7E := by
      rwa [show ((flag + 1 : Nat) : Int) - 1 = flag by omega] at hmark'
    rw [hround]
    intro s k hmem
    rcases mem_append.mp hmem with h | h
    · rcases mem_append.mp h with h | h
      · rcases mem_append.mp h with h | h
        · exact allMarked_header s k h
        · split at h
          · cases mem_singleton.mp h
          · cases h
      · obtain ⟨j, -, hj⟩ := List.mem_map.mp h
        cases hj
    · exact hspec.2.2.2 hend' s k h

/-- From `wc` on the buffer is made of commands that are forwarded as they are: frames, and runs up
to the next mark, with room for a header where each begins, none of them a frame of length 0, and
for the bytes that are printed when there is a client and it is not the last. -/
inductive Commands (slack : Nat) (connected : Bool) (mem : Mem) (size : Nat) : Nat → Prop
  | done : Commands slack connected mem size size
  | frame {wc : Nat} : wc < size → IsFrame mem size wc → 0 < frameLen mem wc →
      wc + 4 ≤ size + slack →
      (connected = true → wc + frameLen mem wc < size → wc + 16 ≤ size + slack) →
      Commands slack connected mem size (wc + frameLen mem wc) →
      Commands slack connected mem size wc
  | packet {wc e : Nat} : ¬ IsFrame mem size wc → wc ≤ e → e < size → searchStart mem wc ≤ e →
      (∀ i : Nat, searchStart mem wc ≤ i → i < e → mem i ≠ 0x7E) → mem e = 0x7E →
      wc + 4 ≤ size + slack → (FrameHead mem wc → frameLen mem wc = 0 → 0 < wc ∨ 0 < slack) →
      (connected = true → e + 1 < size → wc + 16 ≤ size + slack) →
      Commands slack connected mem size (e + 1) → Commands slack connected mem size wc

theorem commands_of_ends (h : Ends (mdmRound connected mem size) wc as) (hle : wc ≤ size)
    (hinside : Inside slack size as) (hwritten : written mem as = slice mem wc size) :
    Commands slack connected mem size wc := by
  induction h with
  | @stop wc hstop =>
    have hend : ¬ wc < size := by
      intro hlt
      by_cases hframe : IsFrame mem size wc
      · rw [(@round_frame mem slack size wc connected hlt hframe).next] at hstop
        cases hstop
      · obtain ⟨e, hround, -⟩ := @round_packet mem slack size wc connected hlt hframe
        rw [hround.next] at hstop
        cases hstop
    obtain rfl : wc = size := by omega
    exact .done
  | @next wc t as hnext hrest ih =>
    have hlt : wc < size := by
      by_contra hge
      rw [mdmRound, if_neg hge] at hnext
      cases hnext
    rw [inside_append] at hinside
    rw [written_append] at hwritten
    by_cases hframe : IsFrame mem size wc
    · have hround := @round_frame mem slack size wc connected hlt hframe
      obtain rfl : wc + frameLen mem wc = t := Option.some.inj (hround.next.symm.trans hnext)
      have hpos : 0 < frameLen mem wc := by
        -- a frame of length 0 leaves the loop where it is
        by_contra hzero
        have hsame : wc + frameLen mem wc = wc := by omega
        rw [hsame] at hnext
        exact (Ends.next hnext (hsame ▸ hrest)).not_cycle ⟨wc, hnext, .start⟩
      obtain ⟨-, hroom, -, hprint⟩ := hround.inside.mp hinside.1
      rw [hround.written, ← slice_append (Nat.le_add_right wc _) hframe.2.1] at hwritten
      exact .frame hlt hframe hpos hroom hprint
        (ih hframe.2.1 hinside.2 (append_cancel_left hwritten))
    · obtain ⟨e, hround, hge, hsize, hstart, hno, hmark⟩ :=
        @round_packet mem slack size wc connected hlt hframe
      obtain rfl : e + 1 = t := Option.some.inj (hround.next.symm.trans hnext)
      have hin : e < size := by
        -- without a mark a byte behind the buffer is written
        have hlen := congrArg List.length hwritten
        rw [hround.written, length_append, length_slice, length_slice] at hlen
        omega
      obtain ⟨-, hroom, hpeek, hprint⟩ := hround.inside.mp hinside.1
      rw [hround.written, ← slice_append (a := wc) (b := e + 1) (c := size) (by omega) (by omega)]
        at hwritten
      exact .packet hframe hge hin hstart hno (hmark hin) hroom hpeek hprint
        (ih (by omega) hinside.2 (append_cancel_left hwritten))

theorem ends_of_commands (h : Commands slack connected mem size wc) :
    ∃ as, Ends (mdmRound connected mem size) wc as ∧ Inside slack size as ∧
      written mem as = slice mem wc size ∧ AllMarked mem as := by
  induction h with
  | done =>
    have hstop : mdmRound connected mem size size = ([], none) := by
      rw [mdmRound, if_neg (lt_irrefl _)]
    refine ⟨[], ?_, inside_nil, slice_self.symm, fun _ _ h => absurd h not_mem_nil⟩
    have hends := Ends.stop (f := mdmRound connected mem size) (s := size) (by rw [hstop])
    rwa [hstop] at hends
  | @frame wc hlt hframe hpos hroom hprint _ ih =>
    obtain ⟨as, hends, hinside, hwritten, hmarked⟩ := ih
    have hround := @round_frame mem slack size wc connected hlt hframe
    have hmark : mem (((wc + frameLen mem wc : Nat) : Int) - 1) = 0x7E := by
      rw [Nat.cast_add]
      exact hframe.2.2
    refine ⟨_, .next hround.next hends, ?_, ?_, ?_⟩
    · exact inside_append.mpr
        ⟨hround.inside.mpr ⟨trivial, hroom, fun _ hzero => by omega, hprint⟩, hinside⟩
    · rw [written_append, hround.written, hwritten,
        slice_append (Nat.le_add_right wc _) hframe.2.1]
    · intro s k hmem
      exact (mem_append.mp hmem).elim (hround.marked hmark s k) (hmarked s k)
  | @packet wc e hframe hge hin hstart hno hmark hroom hpeek hprint _ ih =>
    obtain ⟨as, hends, hinside, hwritten, hmarked⟩ := ih
    obtain ⟨e', hround, -, hsize', hstart', hno', hmark'⟩ :=
      @round_packet mem slack size wc connected (by omega) hframe
    obtain rfl : e' = e := by
      -- the search stops at the first mark
      rcases Nat.lt_trichotomy e' e with hlt | heq | hgt
      · exact absurd (hmark' (by omega)) (hno e' hstart' hlt)
      · exact heq
      · exact absurd hmark (hno' e hstart hgt)
    have hlast : mem (((e' + 1 : Nat) : Int) - 1) = 0x7E := by
      rwa [show ((e' + 1 : Nat) : Int) - 1 = e' by omega]
    refine ⟨_, .next hround.next hends, ?_, ?_, ?_⟩
    · exact inside_append.mpr ⟨hround.inside.mpr ⟨by omega, hroom, hpeek, hprint⟩, hinside⟩
    · rw [written_append, hround.written, hwritten, slice_append (by omega) (by omega)]
    · intro s k hmem
      exact (mem_append.mp hmem).elim (hround.marked hlast s k) (hmarked s k)

theorem mdmForwards_iff_commands :
    MdmForwards slack connected mem size ↔ Commands slack connected mem size 0 := by
  constructor
  · rintro ⟨as, hends, hinside, hwritten, -⟩
    exact commands_of_ends hends (Nat.zero_le _) hinside hwritten
  · intro h
    obtain ⟨as, hends, hinside, hwritten, hmarked⟩ := ends_of_commands h
    exact ⟨as, hends, hinside, hwritten, hmarked.marked⟩

/-- From `wc` on the buffer is made of commands with their lengths, and behind the last one there is
nothing, or the length of a command that is longer than what is there. -/
inductive AsrCommands (slack : Nat) (mem : Mem) (size : Nat) : Nat → Prop
  | done : AsrCommands slack mem size size
  | rest {wc : Nat} : wc < size → wc + 4 ≤ size + slack → size - wc < cmdLen mem wc →
      AsrCommands slack mem size wc
  | cmd {wc : Nat} : 4 ≤ cmdLen mem wc → wc + cmdLen mem wc ≤ size →
      AsrCommands slack mem size (wc + cmdLen mem wc) → AsrCommands slack mem size wc

def Longest (l w : List UInt8) : Prop :=
  w <+: l ∧ Whole w ∧ ∀ bs, bs <+: l → Whole bs → bs <+: w

theorem eq_slice_of_prefix {l : List UInt8} (hle : a ≤ c) (h : l <+: slice mem a c) :
    l = slice mem a (a + l.length) ∧ a + l.length ≤ c := by
  have hlen := h.length_le
  rw [length_slice] at hlen
  have htake := prefix_iff_eq_take.mp h
  rw [← slice_append (a := a) (b := a + l.length) (c := c) (by omega) (by omega),
    take_left' (by rw [length_slice]; omega)] at htake
  exact ⟨htake, by omega⟩

theorem whole_cases {l : List UInt8} (hle : wc ≤ size) (hl : l <+: slice mem wc size)
    (hwhole : Whole l) : l = [] ∨ 4 ≤ cmdLen mem wc ∧ wc + cmdLen mem wc ≤ size ∧
      ∃ rest, l = slice mem wc (wc + cmdLen mem wc) ++ rest ∧ Whole rest := by
  cases hwhole with
  | nil => exact .inl rfl
  | @cons cmd rest hlong hlength hrest =>
    obtain ⟨hcmd, hsize⟩ := eq_slice_of_prefix hle ((prefix_append cmd rest).trans hl)
    have hfour : cmd.take 4 = slice mem wc (wc + 4) := by
      rw [hcmd, ← slice_append (a := wc) (b := wc + 4) (c := wc + cmd.length)
        (by omega) (by omega), take_left' (by rw [length_slice]; omega)]
    have hlen : cmdLen mem wc = cmd.length := by rw [cmdLen, ← hfour, hlength]
    refine .inr ⟨by omega, by omega, rest, ?_, hrest⟩
    rw [hlen, ← hcmd]

theorem whole_slice {rest : List UInt8} (hlong : 4 ≤ cmdLen mem wc) (hrest : Whole rest) :
    Whole (slice mem wc (wc + cmdLen mem wc) ++ rest) := by
  have hlen : (slice mem wc (wc + cmdLen mem wc)).length = cmdLen mem wc := by
    rw [length_slice]
    omega
  refine .cons (by omega) ?_ hrest
  rw [hlen, ← slice_append (a := wc) (b := wc + 4) (c := wc + cmdLen mem wc)
    (by omega) (by omega), take_left' (by rw [length_slice]; omega), cmdLen]

theorem longest_cons_iff {w : List UInt8} (hlong : 4 ≤ cmdLen mem wc)
    (hle : wc + cmdLen mem wc ≤ size) :
    Longest (slice mem wc size) (slice mem wc (wc + cmdLen mem wc) ++ w) ↔
      Longest (slice mem (wc + cmdLen mem wc) size) w := by
  have hslice : slice mem wc (wc + cmdLen mem wc) ++ slice mem (wc + cmdLen mem wc) size =
      slice mem wc size := slice_append (Nat.le_add_right wc _) hle
  rw [Longest, Longest, ← hslice, prefix_append_right_inj]
  refine and_congr_right fun hw => ⟨fun ⟨hwhole, hmax⟩ => ⟨?_, ?_⟩, fun ⟨hwhole, hmax⟩ => ⟨?_, ?_⟩⟩
  · have hprefix : slice mem wc (wc + cmdLen mem wc) ++ w <+: slice mem wc size := by
      rw [← hslice, prefix_append_right_inj]
      exact hw
    rcases whole_cases (by omega) hprefix hwhole with hnil | ⟨-, -, rest, heq, hrest⟩
    · have hlen := congrArg List.length hnil
      rw [length_append, length_slice, length_nil] at hlen
      omega
    · rwa [append_cancel_left heq]
  · intro bs hbs hwhole'
    have := hmax _ ((prefix_append_right_inj _).mpr hbs) (whole_slice hlong hwhole')
    rwa [prefix_append_right_inj] at this
  · exact whole_slice hlong hwhole
  · intro bs hbs hwhole'
    rw [hslice] at hbs
    rcases whole_cases (by omega) hbs hwhole' with rfl | ⟨-, -, rest, rfl, hrest⟩
    · exact nil_prefix
    · rw [← hslice, prefix_append_right_inj] at hbs
      rw [prefix_append_right_inj]
      exact hmax rest hbs hrest

theorem longest_nil_of_lt (hle : wc ≤ size) (h : size - wc < cmdLen mem wc) :
    Longest (slice mem wc size) [] := by
  refine ⟨List.nil_prefix, .nil, fun bs hbs hwhole => ?_⟩
  rcases whole_cases hle hbs hwhole with rfl | ⟨-, hsize, -⟩
  · exact prefix_rfl
  · omega

theorem asrCommands_of_ends (h : Ends (asrRound (fun _ k => k) mem size) wc as) (hle : wc ≤ size)
    (hinside : Inside slack size as) (hlong : Longest (slice mem wc size) (written mem as)) :
    AsrCommands slack mem size wc := by
  induction h with
  | @stop wc hstop =>
    by_cases hlt : wc < size
    · rw [asrRound, if_pos hlt] at hstop hinside
      simp only at hstop hinside
      by_cases hrest : cmdLen mem wc > size - wc
      · rw [if_pos hrest] at hinside
        exact .rest hlt (inside_reads.mp hinside (by omega)) hrest
      · rw [if_neg hrest, if_neg (not_not.mpr rfl)] at hstop
        cases hstop
    · obtain rfl : wc = size := by omega
      exact .done
  | @next wc t as hnext hrest ih =>
    have hlt : wc < size := by
      by_contra hge
      rw [asrRound, if_neg hge] at hnext
      cases hnext
    have hcmd : ¬ cmdLen mem wc > size - wc := by
      intro hgt
      rw [asrRound, if_pos hlt] at hnext
      simp only at hnext
      rw [if_pos hgt] at hnext
      cases hnext
    have hround : asrRound (fun _ k => k) mem size wc =
        (reads wc (wc + 4) ++ reads wc (wc + cmdLen mem wc) ++ [.write wc (cmdLen mem wc)],
          some (wc + cmdLen mem wc)) := by
      rw [asrRound, if_pos hlt]
      simp only
      rw [if_neg hcmd, if_neg (not_not.mpr rfl), Int.toNat_natCast]
    have ht : wc + cmdLen mem wc = t := by
      rw [hround] at hnext
      exact Option.some.inj hnext
    subst ht
    have hwritten : written mem (asrRound (fun _ k => k) mem size wc).1 =
        slice mem wc (wc + cmdLen mem wc) := by
      rw [hround, written_append, written_append, written_reads, written_reads, nil_append,
        nil_append, written, written, append_nil]
    rw [written_append, hwritten] at hlong
    have hfour : 4 ≤ cmdLen mem wc := by
      by_cases hzero : cmdLen mem wc = 0
      · -- a command of length 0 leaves the loop where it is
        have hsame : wc + cmdLen mem wc = wc := by omega
        rw [hsame] at hnext
        exact absurd ⟨wc, hnext, .start⟩ (Ends.next hnext (hsame ▸ hrest)).not_cycle
      · rcases whole_cases hle hlong.1 hlong.2.1 with hnil | ⟨hfour, -⟩
        · have hlen := congrArg List.length hnil
          rw [length_append, length_slice, length_nil] at hlen
          omega
        · exact hfour
    exact .cmd hfour (by omega) (ih (by omega) (inside_append.mp hinside).2
      ((longest_cons_iff hfour (by omega)).mp hlong))

theorem asrEnds_of_commands (port : Nat → Nat → Int) (h : AsrCommands slack mem size wc) :
    ∃ as, Ends (asrRound port mem size) wc as ∧ Inside slack size as ∧
      ((∀ i k : Nat, port i k = k) → Longest (slice mem wc size) (written mem as)) := by
  induction h with
  | done =>
    have hround : asrRound port mem size size = ([], none) := by
      rw [asrRound, if_neg (lt_irrefl _)]
    have hends := Ends.stop (f := asrRound port mem size) (s := size) (by rw [hround])
    rw [hround] at hends
    refine ⟨[], hends, inside_nil, fun _ => ?_⟩
    rw [slice_self]
    exact ⟨prefix_rfl, .nil, fun bs hbs _ => hbs⟩
  | @rest wc hlt hroom hgt =>
    have hround : asrRound port mem size wc = (reads wc (wc + 4), none) := by
      rw [asrRound, if_pos hlt]
      simp only
      rw [if_pos hgt]
    have hends := Ends.stop (f := asrRound port mem size) (s := wc) (by rw [hround])
    rw [hround] at hends
    refine ⟨_, hends, inside_reads.mpr fun _ => hroom, fun _ => ?_⟩
    rw [written_reads]
    exact longest_nil_of_lt hlt.le hgt
  | @cmd wc hlong hle _ ih =>
    obtain ⟨as, hends, hinside, hlongest⟩ := ih
    have hround : asrRound port mem size wc = (reads wc (wc + 4) ++
        reads wc (wc + cmdLen mem wc) ++ [.write wc (port wc (cmdLen mem wc)).toNat],
          if port wc (cmdLen mem wc) ≠ cmdLen mem wc then none else some (wc + cmdLen mem wc)) := by
      rw [asrRound, if_pos (by omega)]
      simp only
      rw [if_neg (by omega)]
    have hfirst : Inside slack size (reads wc (wc + 4) ++
        reads wc (wc + cmdLen mem wc) ++ [.write wc (port wc (cmdLen mem wc)).toNat]) :=
      inside_append.mpr ⟨inside_append.mpr ⟨inside_reads.mpr fun _ => by omega,
        inside_reads.mpr fun _ => by omega⟩, inside_write⟩
    by_cases haccept : port wc (cmdLen mem wc) = cmdLen mem wc
    · have hnext := Ends.next (f := asrRound port mem size) (s := wc)
        (by rw [hround, if_neg (not_not.mpr haccept)]) hends
      rw [hround] at hnext
      refine ⟨_, hnext, inside_append.mpr ⟨hfirst, hinside⟩, fun hall => ?_⟩
      rw [written_append, written_append, written_append, written_reads, written_reads,
        nil_append, nil_append, written, written, append_nil, haccept,
        Int.toNat_natCast]
      exact (longest_cons_iff hlong hle).mpr (hlongest hall)
    · have hstop := Ends.stop (f := asrRound port mem size) (s := wc)
        (by rw [hround, if_pos haccept])
      rw [hround] at hstop
      exact ⟨_, hstop, hfirst, fun hall => absurd (hall _ _) haccept⟩

theorem asrForwards_iff_commands : AsrForwards slack mem size ↔ AsrCommands slack mem size 0 := by
  constructor
  · rintro ⟨hall, hlong⟩
    obtain ⟨as, hends, hinside⟩ := hall fun _ k => k
    exact asrCommands_of_ends hends (Nat.zero_le _) hinside (hlong as hends)
  · intro h
    refine ⟨fun port => ?_, fun as hends => ?_⟩
    · obtain ⟨as, hends, hinside, -⟩ := asrEnds_of_commands port h
      exact ⟨as, hends, hinside⟩
    · obtain ⟨as', hends', -, hlong⟩ := asrEnds_of_commands (fun _ k => k) h
      rw [hends.unique hends']
      exact hlong fun _ _ => rfl

/-- Which buffers are cut and forwarded as they should be. -/
theorem forwards_iff (slack : Nat) (connected : Bool) (mem : Mem) (size : Nat) :
    (MdmForwards slack connected mem size ↔ Commands slack connected mem size 0) ∧
      (AsrForwards slack mem size ↔ AsrCommands slack mem size 0) :=
  ⟨mdmForwards_iff_commands, asrForwards_iff_commands⟩

theorem not_mdmForwards : ¬ MdmForwards slack connected (fun _ => 0) 5 := by
  rw [mdmForwards_iff_commands]
  intro h
  cases h with
  | frame _ hframe => exact absurd hframe.1.1 (by decide)
  | packet _ _ _ _ _ hmark => exact absurd hmark (by decide)

theorem not_asrForwards : ¬ AsrForwards slack (fun _ => 0) 4 := by
  rw [asrForwards_iff_commands]
  intro h
  cases h with
  | rest _ _ hgt => exact absurd hgt (by decide)
  | cmd hlong => exact absurd hlong (by decide)

theorem not_forwards : ¬ MdmForwards 0 false (fun _ => 0) 5 ∧ ¬ MdmForwards 1 false (fun _ => 0) 5 ∧
    ¬ AsrForwards 0 (fun _ => 0) 4 ∧ ¬ AsrForwards 1 (fun _ => 0) 4 :=
  ⟨not_mdmForwards, not_mdmForwards, not_asrForwards, not_asrForwards⟩

end ModemSupport.Rooter.QlogSend
