import Mathlib.Data.List.Nodup
import Mathlib.Data.List.ReduceOption
import Mathlib.Data.List.TakeWhile
import ModemSupport.Rooter.SmsFile

/-! When `merge.lua` reads the file as `smsread.lua` has written it: the count of lines is right for
the parts of long messages, and for other messages of one line only. -/

namespace ModemSupport.Rooter.SmsFile

open Lib.Text List Option

variable {c : Char} {s t : Str} {m m' : Message} {msgs : List Message} {k i maxslot : Nat}
  {o : Overall} {r : Record}

theorem dropWhile_of_forall {p : Char → Bool} (h : ∀ c ∈ s, p c = false) : s.dropWhile p = s := by
  cases s with
  | nil => rfl
  | cons c s => exact dropWhile_cons_of_neg (by simp [h c])

theorem trim_dec : trim (dec k) = dec k := by
  have hd : ∀ c ∈ dec k, isspace c = false := fun c hc => isspace_of_isDigit (isDigit_of_mem_dec hc)
  rw [trim, dropWhile_of_forall hd, dropWhile_of_forall (by simpa using hd), reverse_reverse]

theorem decimal_dec : decimal (dec k) = some (k : Rat) := by
  have hall : ∀ c ∈ dec k, c.isDigit = true := fun c hc => isDigit_of_mem_dec hc
  have htake : (dec k).takeWhile Char.isDigit = dec k := takeWhile_eq_self_iff.mpr hall
  have hdrop : (dec k).dropWhile Char.isDigit = [] := dropWhile_eq_nil_iff.mpr hall
  have hval : Nat.ofDigitChars 10 (dec k) 0 = k := Nat.ofDigitChars_ten_toDigits
  simp [decimal, htake, hdrop, exponent, dec_ne_nil, hval]

theorem unsigned_dec : unsigned (dec k) = some (k : Rat) := by
  unfold unsigned
  split
  next x hs h =>
    have hx : x ∈ dec k := by simp [h]
    have hne : ¬(x = 'x' ∨ x = 'X') := by
      rintro (rfl | rfl) <;> exact notMem_dec (by decide) hx
    rw [if_neg hne, ← h, decimal_dec]
  next => exact decimal_dec

theorem tonumber_dec : tonumber (dec k) = some (k : Rat) := by
  unfold tonumber
  rw [trim_dec]
  split
  next s h => exact absurd (by simp [h] : '-' ∈ dec k) (notMem_dec (by decide))
  next s h => exact absurd (by simp [h] : '+' ∈ dec k) (notMem_dec (by decide))
  next => exact unsigned_dec

theorem tostring_eq (h : k < 10 ^ 14) : tostring k = dec k := by
  rw [tostring, if_pos h]

theorem Concat.newline_notMem (c : Concat) : '\n' ∉ c.str := by
  simp [Concat.str, notMem_dec (c := '\n') (by decide)]

theorem lines_write (m : Message) (hs : '\n' ∉ m.short) (rest : Str) :
    lines (m.write rest) = dec m.index :: m.number :: dec (ocount m.mtxt + 1) ::
      (pieces m.mtxt ++ m.short :: lines rest) := by
  have hdec : ∀ k, '\n' ∉ dec k := fun k => notMem_dec (by decide)
  rw [Message.write, writeln, lines_line (hdec _), writeln, lines_line m.oneLine, writeln,
    lines_line (hdec _), writeln, lines_append_newline, writeln, lines_line hs]

theorem Message.notMem_short (m : Message) (h : '\n' ∉ stxt 20 m.mtxt) : '\n' ∉ m.short := by
  have hstamp : ∀ d : Stamp, '\n' ∉ d.str := by
    intro d hd
    rcases d.plain _ hd with h | h | h
    · exact absurd h (by decide)
    · exact absurd h (by decide)
    · exact absurd h (by decide)
  have hmark : '\n' ∉ m.read.str := by cases m.read <;> decide
  have hnumber : '\n' ∉ (m.number ++ replicate 20 ' ').take 20 := by
    intro hn
    have hmem := mem_of_mem_take hn
    rw [mem_append, mem_replicate] at hmem
    rcases hmem with hmem | ⟨-, hmem⟩
    · exact m.oneLine hmem
    · exact absurd hmem (by decide)
  have hdots : '\n' ∉ (if m.mtxt = stxt 20 m.mtxt then [] else [' ', ' ', '.', '.', '.']) := by
    split <;> decide
  simp only [Message.short, mem_append, not_or]
  exact ⟨⟨⟨⟨⟨⟨⟨⟨hmark, by decide⟩, hnumber⟩, hstamp _⟩, by decide⟩, hstamp _⟩, by decide⟩,
    h⟩, hdots⟩

structure Of (m : Message) (r : Record) : Prop where
  slot : r.slot = dec m.index
  phone : r.phone = m.number
  plain : m.concat = none → r.msgnum = xxx ∧ r.msg = m.text
  part : ∀ c, m.concat = some c → r.msgnum = dec c.msgnum.toNat ∧
    r.msgord = dec c.msgord.toNat ∧ r.msgmax = dec c.msgmax.toNat

theorem readHead_plain {line : Str} {rest : List Str}
    (h : find ['M', 's', 'g', '#', ' '] line = none) :
    readHead line rest = some ((xxx, xxx, xxx), line, rest) := by
  rw [readHead, h]

theorem readHead_concat (c : Concat) {line : Str} {rest : List Str} :
    readHead c.str (line :: rest) =
      some ((dec c.msgnum.toNat, dec c.msgord.toNat, dec c.msgmax.toNat), line, rest) := by
  have hhead : find ['M', 's', 'g', '#', ' '] c.str = some ([], dec c.msgnum.toNat ++
      ',' :: (dec c.msgord.toNat ++ '/' :: dec c.msgmax.toNat)) := by
    rw [show c.str = ['M', 's', 'g', '#', ' '] ++ (dec c.msgnum.toNat ++
      ',' :: (dec c.msgord.toNat ++ '/' :: dec c.msgmax.toNat)) by simp [Concat.str]]
    exact find_append_self
  rw [readHead, hhead]
  simp [find_singleton (notMem_dec (k := c.msgnum.toNat) (c := ',') (by decide)),
    find_singleton (notMem_dec (k := c.msgord.toNat) (c := '/') (by decide))]

theorem readText_append (whole : Bool) (ls rest : List Str) (msg : Str) :
    ∃ msg', readText whole ls.length msg (ls ++ rest) = some (msg', rest) := by
  induction ls generalizing msg with
  | nil => exact ⟨msg, rfl⟩
  | cons l ls ih => exact ih _

theorem Concat.length_str (c : Concat) : c.str.length ≤ 18 := by
  have hnum : (dec c.msgnum.toNat).length ≤ 5 :=
    (Nat.length_toDigits_le_iff (by decide) (by decide)).mpr (by have := c.msgnum.toNat_lt; omega)
  have hord : (dec c.msgord.toNat).length ≤ 3 :=
    (Nat.length_toDigits_le_iff (by decide) (by decide)).mpr (by have := c.msgord.toNat_lt; omega)
  have hmax : (dec c.msgmax.toNat).length ≤ 3 :=
    (Nat.length_toDigits_le_iff (by decide) (by decide)).mpr (by have := c.msgmax.toNat_lt; omega)
  simp only [Concat.str, length_append, length_cons, length_nil]
  omega

theorem lt_of_isDigit (h : c.isDigit = true) : 48 ≤ c.toNat ∧ c.toNat ≤ 57 := by
  simpa [Char.isDigit, Char.le_def, UInt32.le_iff_toNat_le] using h

theorem Concat.plain_str (c : Concat) :
    ∀ ch ∈ c.str, ch ≠ '\n' ∧ ch ≠ '\r' ∧ ch.toNat < 127 := by
  have hdec : ∀ k, ∀ ch ∈ dec k, ch ≠ '\n' ∧ ch ≠ '\r' ∧ ch.toNat < 127 := by
    intro k ch hch
    refine ⟨?_, ?_, ?_⟩
    · rintro rfl
      exact notMem_dec (by decide) hch
    · rintro rfl
      exact notMem_dec (by decide) hch
    · have := lt_of_isDigit (isDigit_of_mem_dec hch)
      omega
  have hsign : ∀ ch ∈ ['M', 's', 'g', '#', ' '], ch ≠ '\n' ∧ ch ≠ '\r' ∧ ch.toNat < 127 := by
    simp
  have hcomma : ∀ ch ∈ [','], ch ≠ '\n' ∧ ch ≠ '\r' ∧ ch.toNat < 127 := by simp
  have hslash : ∀ ch ∈ ['/'], ch ≠ '\n' ∧ ch ≠ '\r' ∧ ch.toNat < 127 := by simp
  intro ch hch
  simp only [Concat.str, mem_append] at hch
  rcases hch with ((((h | h) | h) | h) | h) | h
  · exact hsign ch h
  · exact hdec _ ch h
  · exact hcomma ch h
  · exact hdec _ ch h
  · exact hslash ch h
  · exact hdec _ ch h

theorem stxt_append (hs : ∀ ch ∈ s, ch ≠ '\n' ∧ ch ≠ '\r' ∧ ch.toNat < 127) (j : Nat) :
    stxt (s.length + j) (s ++ t) = s ++ stxt j t := by
  induction s with
  | nil => simp
  | cons ch s ih =>
    obtain ⟨hn, hr, hlt⟩ := hs ch mem_cons_self
    rw [length_cons, Nat.add_right_comm, cons_append, stxt, if_neg (by simp [hn, hr]),
      if_pos hlt, ih fun ch hch => hs ch (mem_cons_of_mem _ hch)]
    rfl

theorem cutShort_concat {c : Concat} (hc : m.concat = some c) : (cutShort m.short).isSome := by
  have hlen := c.length_str
  have htxt : stxt 20 m.mtxt = c.str ++ stxt (20 - c.str.length) ('\n' :: m.text) := by
    rw [← stxt_append c.plain_str, Message.mtxt, hc]
    congr 1
    omega
  obtain ⟨a, d, hshort⟩ : ∃ a d, m.short = a ++ (stxt 20 m.mtxt ++ d) :=
    ⟨_, _, by rw [Message.short, append_assoc]⟩
  obtain ⟨b, hstr, hb⟩ : ∃ b, c.str = ['M', 's', 'g', '#'] ++ b ∧ '/' ∈ b :=
    ⟨[' '] ++ dec c.msgnum.toNat ++ [','] ++ dec c.msgord.toNat ++ ['/'] ++ dec c.msgmax.toNat,
      by simp [Concat.str], by simp⟩
  rw [htxt, hstr, append_assoc, append_assoc] at hshort
  obtain ⟨p, q, hfind, hq⟩ := exists_find (n := ['M', 's', 'g', '#']) (a := a)
    (b := b ++ (stxt (20 - (['M', 's', 'g', '#'] ++ b).length) ('\n' :: m.text) ++ d))
    (cons_ne_nil _ _)
  obtain ⟨x, y, hslash⟩ := exists_find_singleton (hq.subset (mem_append_left _ hb))
  rw [cutShort, hshort, hfind]
  simp [hslash]

def Readable (m : Message) : Prop :=
  m.index < 10 ^ 14 ∧ '\n' ∉ stxt 20 m.mtxt ∧
    (m.concat = none → '\n' ∉ m.text ∧ find ['M', 's', 'g', '#', ' '] m.text = none ∧
      (cutShort m.short).isSome)

theorem Readable.cutShort (h : Readable m) : (cutShort m.short).isSome := by
  cases hc : m.concat with
  | none => exact (h.2.2 hc).2.2
  | some c => exact cutShort_concat hc

theorem readRecord_write (h : Readable m) (rest : List Str) :
    ∃ r, Of m r ∧ readRecord (dec m.index) (m.number :: dec (ocount m.mtxt + 1) ::
      (pieces m.mtxt ++ m.short :: rest)) = some (r, rest) := by
  obtain ⟨short, hshort⟩ := isSome_iff_exists.mp h.cutShort
  cases hc : m.concat with
  | none =>
    obtain ⟨hnl, hfind, -⟩ := h.2.2 hc
    have htxt : m.mtxt = m.text := by rw [Message.mtxt, hc]
    have hcount : ocount m.text = 0 := count_eq_zero.mpr hnl
    refine ⟨⟨dec m.index, m.number, dec 1, xxx, xxx, xxx, m.text, short⟩,
      ⟨rfl, rfl, fun _ => ⟨rfl, rfl⟩, fun c hc' => ?_⟩, ?_⟩
    · rw [hc] at hc'
      cases hc'
    · have hfloor : ⌊((1 : Nat) : Rat) - 2⌋.toNat = 0 := by norm_num
      rw [htxt, hcount, pieces_of_notMem hnl]
      simp only [singleton_append, readRecord, readHead_plain hfind, tonumber_dec,
        Nat.zero_add,
        bind_eq_bind, bind_some, hfloor, readText, List.head?_cons, hshort,
        tail_cons]
  | some c =>
    have htxt : m.mtxt = c.str ++ '\n' :: m.text := by rw [Message.mtxt, hc]
    have hcount : ocount m.mtxt + 1 = ocount m.text + 2 := by
      rw [htxt, ocount, count_append, count_eq_zero.mpr c.newline_notMem,
        count_cons_self, ocount]
      omega
    cases hp : pieces m.text with
    | nil =>
      have hlen := length_pieces (s := m.text)
      rw [hp] at hlen
      cases hlen
    | cons l ls =>
      have hlen : ls.length = ocount m.text := by
        have hlen := length_pieces (s := m.text)
        rw [hp, length_cons] at hlen
        exact Nat.succ.inj hlen
      obtain ⟨msg, hmsg⟩ := readText_append (((ocount m.text + 2 : Nat) : Rat).isInt) ls
        (m.short :: rest) l
      refine ⟨⟨dec m.index, m.number, dec (ocount m.text + 2), dec c.msgnum.toNat,
        dec c.msgord.toNat, dec c.msgmax.toNat, msg, short⟩,
        ⟨rfl, rfl, fun hc' => ?_, fun c' hc' => ?_⟩, ?_⟩
      · rw [hc] at hc'
        cases hc'
      · rw [hc] at hc'
        cases hc'
        exact ⟨rfl, rfl, rfl⟩
      · have hfloor : ⌊((ocount m.text + 2 : Nat) : Rat) - 2⌋.toNat = ls.length := by
          rw [hlen]
          push_cast
          simp
        rw [hcount, htxt, pieces_append_newline c.newline_notMem, hp]
        simp only [cons_append, readRecord, readHead_concat, tonumber_dec, bind_eq_bind,
          bind_some, hfloor, hmsg, List.head?_cons, hshort, tail_cons]

structure Stored (msgs : List Message) (o o' : Overall) (maxslot maxslot' : Rat) : Prop where
  index_le : ∀ m ∈ msgs, (m.index : Rat) ≤ maxslot'
  le : maxslot ≤ maxslot'
  lt : maxslot < 10 ^ 14 → maxslot' < 10 ^ 14
  of_some : ∀ key r, o' key = some r → o key = some r ∨ ∃ m ∈ msgs, key = dec m.index ∧ Of m r
  stored : ∀ m ∈ msgs, (o' (dec m.index)).isSome
  kept : ∀ key, (o key).isSome → (o' key).isSome

theorem readRecords_write (h : ∀ m ∈ msgs, Readable m) (fuel : Nat) (o : Overall) (maxslot : Rat)
    (hfuel : (lines (msgs.foldr Message.write [])).length ≤ fuel) :
    ∃ o' maxslot', readRecords fuel (lines (msgs.foldr Message.write [])) o maxslot =
      some (o', maxslot') ∧ Stored msgs o o' maxslot maxslot' := by
  induction msgs generalizing fuel o maxslot with
  | nil =>
    refine ⟨o, maxslot, by simp [lines, readRecords], ?_⟩
    exact ⟨by simp, le_rfl, id, fun _ _ => .inl, by simp, fun _ => id⟩
  | cons m msgs ih =>
    have hm := h m mem_cons_self
    have hrest : ∀ m ∈ msgs, Readable m := fun m hm => h m (mem_cons_of_mem _ hm)
    obtain ⟨r, hof, hread⟩ := readRecord_write hm (lines (msgs.foldr Message.write []))
    rw [foldr_cons, lines_write m (m.notMem_short hm.2.1)] at hfuel ⊢
    cases fuel with
    | zero => simp at hfuel
    | succ fuel =>
      have hslot : tonumber r.slot = some (m.index : Rat) := by rw [hof.slot, tonumber_dec]
      obtain ⟨o', maxslot', hrun, hst⟩ := ih hrest fuel (o.insert r) (max maxslot m.index) (by
        simp only [length_cons, length_append] at hfuel
        omega)
      refine ⟨o', maxslot', ?_, ?_⟩
      · simp only [readRecords, hread, hslot, bind_eq_bind, bind_some, hrun]
      · have hself : (o.insert r (dec m.index)).isSome := by simp [Overall.insert, hof.slot]
        constructor
        · intro m' hm'
          rcases mem_cons.mp hm' with rfl | hm'
          · exact (le_max_right _ _).trans hst.le
          · exact hst.index_le m' hm'
        · exact (le_max_left _ _).trans hst.le
        · intro hlt
          apply hst.lt
          rw [max_lt_iff]
          exact ⟨hlt, by exact_mod_cast hm.1⟩
        · intro key r' hr'
          rcases hst.of_some key r' hr' with hins | ⟨m', hm', hkey, hof'⟩
          · unfold Overall.insert at hins
            split at hins
            next hkey =>
              obtain rfl := some.inj hins
              exact .inr ⟨m, mem_cons_self, hkey.trans hof.slot, hof⟩
            next => exact .inl hins
          · exact .inr ⟨m', mem_cons_of_mem _ hm', hkey, hof'⟩
        · intro m' hm'
          rcases mem_cons.mp hm' with rfl | hm'
          · exact hst.kept _ hself
          · exact hst.stored m' hm'
        · intro key hkey
          apply hst.kept
          unfold Overall.insert
          split
          · rfl
          · exact hkey

def SameMessage (m m' : Message) : Prop :=
  ∃ c c', m.concat = some c ∧ m'.concat = some c' ∧ c.msgnum = c'.msgnum

theorem SameMessage.symm (h : SameMessage m m') : SameMessage m' m := by
  obtain ⟨c, c', hc, hc', heq⟩ := h
  exact ⟨c', c, hc', hc, heq.symm⟩

theorem SameMessage.trans {m'' : Message} (h : SameMessage m m') (h' : SameMessage m' m'') :
    SameMessage m m'' := by
  obtain ⟨c, c', hc, hc', heq⟩ := h
  obtain ⟨d, c'', hd, hc'', heq'⟩ := h'
  rw [hc'] at hd
  cases hd
  exact ⟨c, c'', hc, hc'', heq.trans heq'⟩

/-- No part of the message has been put out with a slot before `i`. -/
def Alive (msgs : List Message) (i : Nat) (m : Message) : Prop :=
  ∀ m' ∈ msgs, SameMessage m m' → i ≤ m'.index

structure Left (msgs : List Message) (i : Nat) (o : Overall) : Prop where
  of_some : ∀ key r, o key = some r → ∃ m ∈ msgs, key = dec m.index ∧ Of m r
  alive : ∀ m ∈ msgs, i ≤ m.index → ((o (dec m.index)).isSome ↔ Alive msgs i m)

def HasPart (msgs : List Message) : Prop :=
  ∀ m ∈ msgs, ∀ c, m.concat = some c → Alive msgs m.index m →
    ∃ m' ∈ msgs, ∃ c', m'.concat = some c' ∧ c'.msgnum = c.msgnum ∧ 1 ≤ c'.msgord ∧
      c'.msgord ≤ c.msgmax

theorem Alive.of_same (h : Alive msgs i m) (hs : SameMessage m m') : Alive msgs i m' :=
  fun m'' hm'' hs' => h m'' hm'' (hs.trans hs')

theorem Of.msgnum_ne (h : Of m r) {c : Concat} (hc : m.concat = some c) : r.msgnum ≠ xxx := by
  rw [(h.part c hc).1]
  intro heq
  have hx : 'x' ∈ dec c.msgnum.toNat := by rw [heq]; decide
  exact notMem_dec (by decide) hx

theorem Of.msgnum_eq_iff {r' : Record} {c : Concat} (h : Of m r) (h' : Of m' r')
    (hc : m.concat = some c) : r'.msgnum = r.msgnum ↔ SameMessage m m' := by
  constructor
  · intro heq
    cases hc' : m'.concat with
    | none =>
      rw [(h'.plain hc').1] at heq
      exact absurd heq.symm (h.msgnum_ne hc)
    | some c' =>
      refine ⟨c, c', hc, hc', ?_⟩
      rw [(h.part c hc).1, (h'.part c' hc').1] at heq
      exact UInt16.toNat_inj.mp (dec_injective heq).symm
  · rintro ⟨d, c', hd, hc', heq⟩
    rw [hc] at hd
    cases hd
    rw [(h.part c hc).1, (h'.part c' hc').1, heq]

theorem map_filterMap {α β γ : Type} {f : α → Option β} {g : β → γ} {h : α → γ} {l : List α}
    (hf : ∀ a ∈ l, ∀ b, f a = some b → g b = h a) :
    (l.filterMap f).map g = (l.filter fun a => (f a).isSome).map h := by
  induction l with
  | nil => rfl
  | cons a l ih =>
    have ih := ih fun a' ha' => hf a' (mem_cons_of_mem _ ha')
    cases hfa : f a with
    | none => simp [hfa, ih]
    | some b => simp [hfa, ih, hf a mem_cons_self b hfa]

theorem Left.at (h : Left msgs i o) (hn : (msgs.map (·.index)).Nodup) (hm : m ∈ msgs)
    (hr : o (dec m.index) = some r) : Of m r := by
  obtain ⟨m', hm', hkey, hof⟩ := h.of_some _ _ hr
  rw [inj_on_of_nodup_map hn hm hm' (dec_injective hkey)]
  exact hof

theorem part_isSome_iff (h : Left msgs i o) (hn : (msgs.map (·.index)).Nodup) {c : Concat}
    (hof : Of m r) (hc : m.concat = some c) (hm' : m' ∈ msgs) (hi : i ≤ m'.index)
    (hlt : m'.index < 10 ^ 14) :
    (o.part r.msgnum m'.index).isSome ↔ Alive msgs i m' ∧ SameMessage m m' := by
  rw [Overall.part, tostring_eq hlt, ← h.alive m' hm' hi]
  cases hr' : o (dec m'.index) with
  | none => simp
  | some r' => simp [Option.filter, hof.msgnum_eq_iff (h.at hn hm' hr') hc]

theorem partAt_isSome {parts : List Record} {j : Nat} (hr : r ∈ parts) (hj : j < 10 ^ 14)
    (hord : r.msgord = dec j) : (partAt parts j).isSome := by
  rw [partAt, List.find?_isSome]
  exact ⟨r, mem_reverse.mpr hr, by simp [hord, tostring_eq hj]⟩

theorem build_isSome {parts : List Record} {max j : Nat} (hmax : r.msgmax = dec max) (hj : 1 ≤ j)
    (hjmax : j ≤ max) (hfound : (partAt parts j).isSome) :
    ∃ out, build r parts = some out ∧ out.slots = parts.map (·.slot) := by
  obtain ⟨p, hp⟩ := isSome_iff_exists.mp hfound
  have hmem : p ∈ ((List.range' 1 max).map (partAt parts)).reduceOption := by
    rw [reduceOption_mem_iff, ← hp]
    exact List.mem_map_of_mem (mem_range'_1.mpr ⟨hj, by omega⟩)
  cases hfound' : ((List.range' 1 max).map (partAt parts)).reduceOption with
  | nil =>
    rw [hfound'] at hmem
    cases hmem
  | cons q qs =>
    unfold build
    simp only [hmax, tonumber_dec, bind_eq_bind, bind_some, Int.floor_natCast,
      Int.toNat_natCast, hfound', List.head?_cons, map_some]
    exact ⟨_, rfl, rfl⟩

theorem exists_of_build {parts : List Record} {out : Output} {max : Nat}
    (hmax : r.msgmax = dec max) (h : build r parts = some out) :
    ∃ p ∈ parts, ∃ j, 1 ≤ j ∧ j ≤ max ∧ p.msgord = tostring j := by
  unfold build at h
  simp only [hmax, tonumber_dec, bind_eq_bind, bind_some, Int.floor_natCast,
    Int.toNat_natCast, bind_eq_some_iff, map_eq_some_iff] at h
  obtain ⟨-, ⟨p, hp, -⟩, -⟩ := h
  have hmem := List.mem_of_mem_head? hp
  rw [reduceOption_mem_iff, List.mem_map] at hmem
  obtain ⟨j, hj, hfind⟩ := hmem
  rw [mem_range'_1] at hj
  have hord := List.find?_some hfind
  exact ⟨p, mem_reverse.mp (List.mem_of_find?_eq_some hfind), j, hj.1, by omega,
    by simpa using hord⟩

theorem mem_taken {j : Nat} {js : List Nat} {num : Str} (hlt : ∀ j ∈ js, j < 10 ^ 14)
    (hj : j < 10 ^ 14) : dec j ∈ o.taken num js ↔ j ∈ js ∧ (o.part num j).isSome := by
  simp only [Overall.taken, List.mem_map, mem_filter]
  constructor
  · rintro ⟨j', ⟨hj', hpart⟩, heq⟩
    rw [tostring_eq (hlt j' hj')] at heq
    obtain rfl := dec_injective heq
    exact ⟨hj', hpart⟩
  · rintro ⟨hj', hpart⟩
    exact ⟨j, ⟨hj', hpart⟩, tostring_eq hj⟩

theorem nodup_taken {js : List Nat} {num : Str} (hlt : ∀ j ∈ js, j < 10 ^ 14) (hn : js.Nodup) :
    (o.taken num js).Nodup := by
  apply Nodup.map_on _ (hn.filter _)
  intro j hj j' hj' heq
  rw [tostring_eq (hlt j (mem_of_mem_filter hj)),
    tostring_eq (hlt j' (mem_of_mem_filter hj'))] at heq
  exact dec_injective heq

theorem alive_succ (h : ∀ m' ∈ msgs, m'.index = i → SameMessage m m' → ¬Alive msgs i m) :
    Alive msgs i m ↔ Alive msgs (i + 1) m := by
  constructor
  · intro ha m' hm' hs
    have hle := ha m' hm' hs
    have hne : m'.index ≠ i := fun he => h m' hm' he hs ha
    omega
  · intro ha m' hm' hs
    have hle := ha m' hm' hs
    omega

structure Put (msgs : List Message) (i : Nat) (outs : List Output) : Prop where
  before : ∀ m ∈ msgs, m.index < i → (outs.flatMap (·.slots)).count (dec m.index) = 0
  once : ∀ m ∈ msgs, i ≤ m.index → Alive msgs i m →
    (outs.flatMap (·.slots)).count (dec m.index) = 1
  gone : ∀ m ∈ msgs, i ≤ m.index → ¬Alive msgs i m →
    (outs.flatMap (·.slots)).count (dec m.index) = 0
  same : ∀ m ∈ msgs, i ≤ m.index → m.concat = none →
    ∃ out ∈ outs, out.slots = [dec m.index] ∧ out.phone = m.number ∧ out.msg = m.text

theorem alive_of_plain (hc : m.concat = none) : Alive msgs i m := by
  rintro m' - ⟨c, -, hc', -⟩
  rw [hc] at hc'
  cases hc'

theorem Put.skip {outs : List Output} (h : Left msgs i o) (hnone : o (dec i) = none)
    (hput : Put msgs (i + 1) outs) :
    Put msgs i outs := by
  have hdead : ∀ m ∈ msgs, m.index = i → ¬Alive msgs i m := by
    intro m hm hi ha
    have hsome := (h.alive m hm hi.ge).mpr ha
    rw [hi, hnone] at hsome
    cases hsome
  have hsucc : ∀ m, Alive msgs i m ↔ Alive msgs (i + 1) m := fun m =>
    alive_succ fun m' hm' hi hs ha => hdead m' hm' hi (ha.of_same hs)
  constructor
  · intro m hm hi
    exact hput.before m hm (by omega)
  · intro m hm hi ha
    rcases Nat.eq_or_lt_of_le hi with he | hlt
    · exact absurd ha (hdead m hm he.symm)
    · exact hput.once m hm hlt ((hsucc m).mp ha)
  · intro m hm hi ha
    rcases Nat.eq_or_lt_of_le hi with he | hlt
    · exact hput.before m hm (by omega)
    · exact hput.gone m hm hlt fun ha' => ha ((hsucc m).mpr ha')
  · intro m hm hi hc
    rcases Nat.eq_or_lt_of_le hi with he | hlt
    · exact absurd (alive_of_plain hc) (hdead m hm he.symm)
    · exact hput.same m hm hlt hc

theorem Put.record {outs : List Output} {out : Output} {taken : List Str}
    (hn : (msgs.map (·.index)).Nodup) (hm : m ∈ msgs) (ha : Alive msgs m.index m)
    (hslots : out.slots = dec m.index :: taken) (htaken : taken.Nodup)
    (hmem : ∀ m' ∈ msgs, dec m'.index ∈ taken ↔
      m.index < m'.index ∧ Alive msgs m.index m' ∧ SameMessage m m')
    (hsame : m.concat = none → out.slots = [dec m.index] ∧ out.phone = m.number ∧ out.msg = m.text)
    (hput : Put msgs (m.index + 1) outs) : Put msgs m.index (out :: outs) := by
  have hself : ∀ m' ∈ msgs, m'.index = m.index → m' = m := fun m' hm' he =>
    inj_on_of_nodup_map hn hm' hm he
  have hcount : ∀ m' : Message, ((out :: outs).flatMap (·.slots)).count (dec m'.index) =
      (if m'.index = m.index then 1 else 0) + taken.count (dec m'.index) +
        (outs.flatMap (·.slots)).count (dec m'.index) := by
    intro m'
    rw [flatMap_cons, count_append, hslots, count_cons]
    by_cases he : m'.index = m.index
    · simp [he, Nat.add_comm]
    · have hne : dec m.index ≠ dec m'.index := fun h => he (dec_injective h).symm
      simp [he, hne]
  constructor
  · intro m' hm' hlt
    have hnot : dec m'.index ∉ taken := fun h => by
      have := (hmem m' hm').mp h
      omega
    rw [hcount, if_neg (by omega), count_eq_zero.mpr hnot,
      hput.before m' hm' (by omega)]
  · intro m' hm' hle ha'
    by_cases he : m'.index = m.index
    · have hnot : dec m'.index ∉ taken := fun h => by
        have := (hmem m' hm').mp h
        omega
      rw [hcount, if_pos he, count_eq_zero.mpr hnot, hput.before m' hm' (by omega)]
    · have hlt : m.index < m'.index := by omega
      by_cases hs : SameMessage m m'
      · have hin : dec m'.index ∈ taken := (hmem m' hm').mpr ⟨hlt, ha', hs⟩
        have hdead : ¬Alive msgs (m.index + 1) m' := fun h => by
          have := h m hm hs.symm
          omega
        rw [hcount, if_neg he, count_eq_one_of_mem htaken hin, hput.gone m' hm' hlt hdead]
      · have hnot : dec m'.index ∉ taken := fun h => hs ((hmem m' hm').mp h).2.2
        have halive : Alive msgs (m.index + 1) m' := by
          refine (alive_succ fun m'' hm'' he' hs' => ?_).mp ha'
          rw [hself m'' hm'' he'] at hs'
          exact absurd hs'.symm hs
        rw [hcount, if_neg he, count_eq_zero.mpr hnot, hput.once m' hm' hlt halive]
  · intro m' hm' hle ha'
    have hne : m'.index ≠ m.index := fun he => ha' (by rw [hself m' hm' he]; exact ha)
    have hlt : m.index < m'.index := by omega
    have hnot : dec m'.index ∉ taken := fun h => ha' ((hmem m' hm').mp h).2.1
    have hdead : ¬Alive msgs (m.index + 1) m' := fun h => ha' fun m'' hm'' hs => by
      have := h m'' hm'' hs
      omega
    rw [hcount, if_neg hne, count_eq_zero.mpr hnot, hput.gone m' hm' hlt hdead]
  · intro m' hm' hle hc
    by_cases he : m'.index = m.index
    · rw [hself m' hm' he] at hc ⊢
      exact ⟨out, mem_cons_self, hsame hc⟩
    · obtain ⟨out', hout', hrest⟩ := hput.same m' hm' (by omega) hc
      exact ⟨out', mem_cons_of_mem _ hout', hrest⟩

theorem Left.next {o' : Overall} {taken : List Str} (h : Left msgs m.index o)
    (hn : (msgs.map (·.index)).Nodup) (hm : m ∈ msgs)
    (ho' : ∀ key, o' key = if key ∈ taken then none else o key)
    (hmem : ∀ m' ∈ msgs, dec m'.index ∈ taken ↔
      m.index < m'.index ∧ Alive msgs m.index m' ∧ SameMessage m m') :
    Left msgs (m.index + 1) o' where
  of_some key r hr := by
    rw [ho'] at hr
    split at hr
    next => cases hr
    next => exact h.of_some key r hr
  alive m' hm' hi := by
    rw [ho']
    by_cases hs : SameMessage m m'
    · have hdead : ¬Alive msgs (m.index + 1) m' := fun ha => by
        have := ha m hm hs.symm
        omega
      simp only [hdead, iff_false, Bool.not_eq_true, isSome_eq_false_iff]
      by_cases ha : Alive msgs m.index m'
      · rw [if_pos ((hmem m' hm').mpr ⟨hi, ha, hs⟩)]
        rfl
      · rw [if_neg fun hin => ha ((hmem m' hm').mp hin).2.1]
        rw [← h.alive m' hm' (by omega)] at ha
        simpa using ha
    · rw [if_neg fun hin => hs ((hmem m' hm').mp hin).2.2, h.alive m' hm' (by omega)]
      refine alive_succ fun m'' hm'' he hs' => ?_
      rw [inj_on_of_nodup_map hn hm'' hm he] at hs'
      exact absurd hs'.symm hs

theorem Left.skip (h : Left msgs i o) (hnone : o (dec i) = none) : Left msgs (i + 1) o where
  of_some := h.of_some
  alive m hm hi := by
    rw [h.alive m hm (by omega)]
    refine alive_succ fun m' hm' he hs ha => ?_
    have hsome := (h.alive m' hm' he.ge).mpr (ha.of_same hs)
    rw [he, hnone] at hsome
    cases hsome

theorem mem_nil_of_plain (hc : m.concat = none) : ∀ m' ∈ msgs,
    dec m'.index ∈ ([] : List Str) ↔
      m.index < m'.index ∧ Alive msgs m.index m' ∧ SameMessage m m' := by
  intro m' _
  constructor
  · intro hin
    cases hin
  · rintro ⟨-, -, c, -, hc', -⟩
    rw [hc] at hc'
    cases hc'

/-- The slots behind `i` up to the greatest. -/
def behind (maxslot i : Nat) : List Nat := List.range' (i + 1) (maxslot - i)

theorem mem_behind {j : Nat} : j ∈ behind maxslot i ↔ i < j ∧ j ≤ maxslot := by
  rw [behind, mem_range'_1]
  omega

theorem writeSlot_eq (hr : o (tostring i) = some r) (hne : r.msgnum ≠ xxx) :
    writeSlot maxslot i o = (build r (r :: (behind maxslot i).filterMap (o.part r.msgnum))).map
      fun out => (fun key => if key ∈ o.taken r.msgnum (behind maxslot i) then none else o key,
        [out]) := by
  rw [writeSlot, hr]
  simp only [if_neg hne, bind_eq_bind, behind]
  cases build r (r :: (List.range' (i + 1) (maxslot - i)).filterMap (o.part r.msgnum)) <;> rfl

section Round

variable {c : Concat} (hn : (msgs.map (·.index)).Nodup) (hmax : maxslot < 10 ^ 14)
  (hidx : ∀ m ∈ msgs, m.index ≤ maxslot)
include hn hmax hidx

theorem mem_taken_behind (h : Left msgs m.index o) (hof : Of m r) (hc : m.concat = some c) :
    ∀ m' ∈ msgs, dec m'.index ∈ o.taken r.msgnum (behind maxslot m.index) ↔
      m.index < m'.index ∧ Alive msgs m.index m' ∧ SameMessage m m' := by
  intro m' hm'
  have hle := hidx m' hm'
  have hlt : ∀ j ∈ behind maxslot m.index, j < 10 ^ 14 := fun j hj => by
    have := mem_behind.mp hj
    omega
  rw [mem_taken hlt (by omega), mem_behind]
  constructor
  · rintro ⟨⟨hlt', -⟩, hpart⟩
    exact ⟨hlt', (part_isSome_iff h hn hof hc hm' (by omega) (by omega)).mp hpart⟩
  · rintro ⟨hlt', hrest⟩
    exact ⟨⟨hlt', hle⟩, (part_isSome_iff h hn hof hc hm' (by omega) (by omega)).mpr hrest⟩

theorem Left.of_writeSlot {o' : Overall} {outs : List Output} (h : Left msgs i o)
    (hi : i ≤ maxslot) (hw : writeSlot maxslot i o = some (o', outs)) : Left msgs (i + 1) o' := by
  have hkey : tostring i = dec i := tostring_eq (by omega)
  cases hr : o (dec i) with
  | none =>
    rw [writeSlot, hkey, hr] at hw
    cases hw
    exact h.skip hr
  | some r =>
    obtain ⟨m, hm, he, -⟩ := h.of_some _ _ hr
    obtain rfl := dec_injective he
    have hof := h.at hn hm hr
    cases hc : m.concat with
    | none =>
      rw [writeSlot, hkey, hr] at hw
      simp only [(hof.plain hc).1, if_true] at hw
      cases hw
      exact h.next hn hm (fun _ => rfl) (mem_nil_of_plain hc)
    | some c =>
      rw [writeSlot_eq (by rw [hkey, hr]) (hof.msgnum_ne hc), map_eq_some_iff] at hw
      obtain ⟨out, -, heq⟩ := hw
      cases heq
      exact h.next hn hm (fun _ => rfl) (mem_taken_behind hn hmax hidx h hof hc)

theorem partAt_behind {m₁ : Message} {c₁ : Concat} (h : Left msgs m.index o) (hof : Of m r)
    (hm : m ∈ msgs) (hc : m.concat = some c) (ha : Alive msgs m.index m) (hm₁ : m₁ ∈ msgs)
    (hc₁ : m₁.concat = some c₁) (hnum₁ : c₁.msgnum = c.msgnum) :
    (partAt (r :: (behind maxslot m.index).filterMap (o.part r.msgnum))
      c₁.msgord.toNat).isSome := by
  have hs₁ : SameMessage m m₁ := ⟨c, c₁, hc, hc₁, hnum₁.symm⟩
  have hord₁ : c₁.msgord.toNat < 10 ^ 14 := by
    have := c₁.msgord.toNat_lt
    omega
  rcases Nat.eq_or_lt_of_le (ha m₁ hm₁ hs₁) with he₁ | hlt₁
  · obtain rfl := inj_on_of_nodup_map hn hm hm₁ he₁
    rw [hc] at hc₁
    cases hc₁
    exact partAt_isSome mem_cons_self hord₁ (hof.part c hc).2.1
  · have hidx₁ := hidx m₁ hm₁
    obtain ⟨r₁, hr₁⟩ := isSome_iff_exists.mp ((part_isSome_iff h hn hof hc hm₁ hlt₁.le
      (by omega)).mpr ⟨ha.of_same hs₁, hs₁⟩)
    have hr₁' := (filter_eq_some_iff.mp hr₁).1
    rw [tostring_eq (by omega)] at hr₁'
    exact partAt_isSome (mem_cons_of_mem _ (mem_filterMap.mpr
      ⟨m₁.index, mem_behind.mpr ⟨hlt₁, hidx₁⟩, hr₁⟩)) hord₁ ((h.at hn hm₁ hr₁').part c₁ hc₁).2.1

theorem exists_writeSlot (h : Left msgs i o) (hp : HasPart msgs) (hi : i ≤ maxslot) :
    ∃ o' outs, writeSlot maxslot i o = some (o', outs) ∧
      ∀ outs', Put msgs (i + 1) outs' → Put msgs i (outs ++ outs') := by
  have hkey : tostring i = dec i := tostring_eq (by omega)
  cases hr : o (dec i) with
  | none => exact ⟨o, [], by rw [writeSlot, hkey, hr], fun outs' hput => hput.skip h hr⟩
  | some r =>
    obtain ⟨m, hm, he, -⟩ := h.of_some _ _ hr
    obtain rfl := dec_injective he
    have hof := h.at hn hm hr
    have ha : Alive msgs m.index m := (h.alive m hm le_rfl).mp (by rw [hr]; rfl)
    cases hc : m.concat with
    | none =>
      obtain ⟨hxxx, hmsg⟩ := hof.plain hc
      refine ⟨o, [⟨[r.slot], r.phone, r.nline, r.msg, r.short⟩], ?_, fun outs' hput => ?_⟩
      · rw [writeSlot, hkey, hr]
        simp [hxxx]
      · exact Put.record hn hm ha (by rw [hof.slot]) nodup_nil (mem_nil_of_plain hc)
          (fun _ => ⟨by rw [hof.slot], hof.phone, hmsg⟩) hput
    | some c =>
      obtain ⟨m₁, hm₁, c₁, hc₁, hnum₁, hone, hle₁⟩ := hp m hm c hc ha
      rw [UInt8.le_iff_toNat_le] at hone hle₁
      obtain ⟨out, hbuild, hout⟩ := build_isSome (hof.part c hc).2.2 hone hle₁
        (partAt_behind hn hmax hidx h hof hm hc ha hm₁ hc₁ hnum₁)
      have hlt : ∀ j ∈ behind maxslot m.index, j < 10 ^ 14 := fun j hj => by
        have := mem_behind.mp hj
        omega
      have hslots : out.slots = dec m.index :: o.taken r.msgnum (behind maxslot m.index) := by
        rw [hout, map_cons, hof.slot, Overall.taken, map_filterMap (h := tostring)]
        intro j hj r' hr'
        obtain ⟨m', hm', he', hof'⟩ := h.of_some _ _ (filter_eq_some_iff.mp hr').1
        rw [hof'.slot, he']
      refine ⟨_, [out], by rw [writeSlot_eq (by rw [hkey, hr]) (hof.msgnum_ne hc), hbuild]; rfl,
        fun outs' hput => ?_⟩
      refine Put.record hn hm ha hslots (nodup_taken hlt nodup_range')
        (mem_taken_behind hn hmax hidx h hof hc) (fun hc' => ?_) hput
      rw [hc] at hc'
      cases hc'

theorem exists_writeSlots (hp : HasPart msgs) (n i : Nat) (o : Overall)
    (h : Left msgs i o) (hi : i + n = maxslot + 1) :
    ∃ outs, writeSlots maxslot (List.range' i n) o = some outs ∧ Put msgs i outs := by
  induction n generalizing i o with
  | zero =>
    refine ⟨[], rfl, fun _ _ _ => rfl, ?_, fun _ _ _ _ => rfl, ?_⟩
    · intro m hm hle _
      have := hidx m hm
      omega
    · intro m hm hle _
      have := hidx m hm
      omega
  | succ n ih =>
    obtain ⟨o', outs, hround, hput⟩ := exists_writeSlot hn hmax hidx h hp (by omega)
    obtain ⟨outs', hrest, hput'⟩ := ih (i + 1) o'
      (h.of_writeSlot hn hmax hidx (by omega) hround) (by omega)
    refine ⟨outs ++ outs', ?_, hput outs' hput'⟩
    rw [List.range'_succ, writeSlots, hround]
    simp only [bind_eq_bind, bind_some, hrest]

theorem exists_of_writeSlot {o' : Overall} {outs : List Output} (h : Left msgs m.index o)
    (hm : m ∈ msgs) (hc : m.concat = some c) (ha : Alive msgs m.index m)
    (hw : writeSlot maxslot m.index o = some (o', outs)) :
    ∃ m' ∈ msgs, ∃ c', m'.concat = some c' ∧ c'.msgnum = c.msgnum ∧ 1 ≤ c'.msgord ∧
      c'.msgord ≤ c.msgmax := by
  have hle := hidx m hm
  have hkey : tostring m.index = dec m.index := tostring_eq (by omega)
  obtain ⟨r, hr⟩ := isSome_iff_exists.mp ((h.alive m hm le_rfl).mpr ha)
  have hof := h.at hn hm hr
  rw [writeSlot_eq (by rw [hkey, hr]) (hof.msgnum_ne hc), map_eq_some_iff] at hw
  obtain ⟨out, hbuild, -⟩ := hw
  obtain ⟨p, hp, j, hone, hjmax, hord⟩ := exists_of_build (hof.part c hc).2.2 hbuild
  obtain ⟨m', hm', hof', hs⟩ : ∃ m' ∈ msgs, Of m' p ∧ SameMessage m m' := by
    rcases mem_cons.mp hp with rfl | hp
    · exact ⟨m, hm, hof, c, c, hc, hc, rfl⟩
    · obtain ⟨k, -, hk⟩ := mem_filterMap.mp hp
      obtain ⟨hsome, hnum⟩ := filter_eq_some_iff.mp hk
      obtain ⟨m', hm', -, hof'⟩ := h.of_some _ _ hsome
      exact ⟨m', hm', hof', (hof.msgnum_eq_iff hof' hc).mp (by simpa using hnum)⟩
  obtain ⟨c₀, c', hc₀, hc', hnum⟩ := hs
  rw [hc] at hc₀
  cases hc₀
  have hlt := c.msgmax.toNat_lt
  rw [tostring_eq (by omega), (hof'.part c' hc').2.1] at hord
  have hj := dec_injective hord
  refine ⟨m', hm', c', hc', hnum.symm, ?_, ?_⟩
  · rw [UInt8.le_iff_toNat_le, hj]
    exact hone
  · rw [UInt8.le_iff_toNat_le, hj]
    exact hjmax

theorem hasPart_of_writeSlots (n i : Nat) (o : Overall) (h : Left msgs i o)
    (hi : i + n = maxslot + 1)
    (hw : (writeSlots maxslot (List.range' i n) o).isSome) :
    ∀ m ∈ msgs, i ≤ m.index → ∀ c, m.concat = some c → Alive msgs m.index m →
      ∃ m' ∈ msgs, ∃ c', m'.concat = some c' ∧ c'.msgnum = c.msgnum ∧ 1 ≤ c'.msgord ∧
        c'.msgord ≤ c.msgmax := by
  induction n generalizing i o with
  | zero =>
    intro m hm hle
    have := hidx m hm
    omega
  | succ n ih =>
    intro m hm hle c hc ha
    rw [List.range'_succ, writeSlots] at hw
    cases hround : writeSlot maxslot i o with
    | none =>
      rw [hround] at hw
      cases hw
    | some round =>
      obtain ⟨o', outs⟩ := round
      rcases Nat.eq_or_lt_of_le hle with he | hlt
      · subst he
        exact exists_of_writeSlot hn hmax hidx h hm hc ha hround
      · have hrest : (writeSlots maxslot (List.range' (i + 1) n) o').isSome := by
          rw [hround] at hw
          simp only [bind_eq_bind, bind_some] at hw
          cases hr : writeSlots maxslot (List.range' (i + 1) n) o' with
          | none =>
            rw [hr] at hw
            cases hw
          | some outs' => rfl
        exact ih (i + 1) o' (h.of_writeSlot hn hmax hidx (by omega) hround) (by omega) hrest m hm
          hlt c hc ha

end Round

/-- Every slot is put out once, and other messages than long ones as they are. -/
structure Agrees (msgs : List Message) (outs : List Output) : Prop where
  once : ∀ m ∈ msgs, (outs.flatMap (·.slots)).count (dec m.index) = 1
  same : ∀ m ∈ msgs, m.concat = none →
    ∃ out ∈ outs, out.slots = [dec m.index] ∧ out.phone = m.number ∧ out.msg = m.text

/-- The modem has not counted zero messages, every message is read with the lines that it has, and
every long message has a part that is in its place. -/
structure Mergeable (used : Line) (msgs : List Message) : Prop where
  counted : tonumber used.str = some 0 → msgs = []
  readable : ∀ m ∈ msgs, Readable m
  hasPart : HasPart msgs

theorem left_of_stored {o' : Overall} {maxslot' : Rat}
    (h : Stored msgs (fun _ => none) o' (-1) maxslot') : Left msgs 0 o' where
  of_some key r hr := by
    rcases h.of_some key r hr with hnone | hm
    · cases hnone
    · exact hm
  alive m hm _ := ⟨fun _ _ _ _ => Nat.zero_le _, fun _ => h.stored m hm⟩

theorem lines_smsread (used max : Line) (h : tonumber used.str = some 0 → msgs = []) :
    lines (smsread used max msgs) =
      used.str :: max.str :: lines (msgs.foldr Message.write []) := by
  have hfile : smsread used max msgs =
      writeln used.str (writeln max.str (msgs.foldr Message.write [])) := by
    rw [smsread]
    split
    next hzero => rw [h hzero]; rfl
    next => rfl
  rw [hfile, writeln, lines_line used.oneLine, writeln, lines_line max.oneLine]

theorem Stored.bounds {o' : Overall} {maxslot' : Rat}
    (h : Stored msgs (fun _ => none) o' (-1) maxslot') (hpos : 0 ≤ maxslot') :
    (∀ m ∈ msgs, m.index ≤ ⌊maxslot'⌋.toNat) ∧ ⌊maxslot'⌋.toNat < 10 ^ 14 := by
  have hfloor : (⌊maxslot'⌋.toNat : Int) = ⌊maxslot'⌋ :=
    Int.toNat_of_nonneg (Int.floor_nonneg.mpr hpos)
  constructor
  · intro m hm
    have hle : (m.index : Int) ≤ ⌊maxslot'⌋ :=
      Int.le_floor.mpr (by exact_mod_cast h.index_le m hm)
    omega
  · have hlt : ⌊maxslot'⌋ < 10 ^ 14 :=
      Int.floor_lt.mpr (by exact_mod_cast h.lt (by norm_num))
    omega

theorem Stored.eq_nil {o' : Overall} {maxslot' : Rat}
    (h : Stored msgs (fun _ => none) o' (-1) maxslot') (hneg : maxslot' < 0) : msgs = [] := by
  rw [eq_nil_iff_forall_not_mem]
  intro m hm
  have hpos : (0 : Rat) ≤ m.index := Nat.cast_nonneg _
  exact absurd (hpos.trans (h.index_le m hm)) (not_le.mpr hneg)

theorem exists_merge (used max : Line) (hn : (msgs.map (·.index)).Nodup)
    (h : Mergeable used msgs) :
    ∃ outs, merge (smsread used max msgs) = some outs ∧ Agrees msgs outs := by
  obtain ⟨o, maxslot, hread, hst⟩ := readRecords_write h.readable
    (lines (msgs.foldr Message.write [])).length (fun _ => none) (-1) le_rfl
  rw [merge, lines_smsread used max h.counted]
  simp only [hread, bind_eq_bind, bind_some]
  split
  next hneg =>
    obtain rfl := hst.eq_nil hneg
    exact ⟨[], rfl, by simp, by simp⟩
  next hpos =>
    obtain ⟨hidx, hlt⟩ := hst.bounds (not_lt.mp hpos)
    obtain ⟨outs, hrun, hput⟩ := exists_writeSlots hn hlt hidx h.hasPart (⌊maxslot⌋.toNat + 1) 0 o
      (left_of_stored hst) (by omega)
    refine ⟨outs, by rw [List.range_eq_range', hrun], ?_, ?_⟩
    · intro m hm
      exact hput.once m hm (Nat.zero_le _) fun _ _ _ => Nat.zero_le _
    · intro m hm hc
      exact hput.same m hm (Nat.zero_le _) hc

theorem trim_blank (hc : isspace c) : trim (c :: s) = trim s := by
  rw [trim, dropWhile_cons_of_pos hc, trim]

theorem trim_cons (hc : isspace c = false) : ∃ t, trim (c :: s) = c :: t := by
  have hdrop : (c :: s).dropWhile isspace = c :: s := dropWhile_cons_of_neg (by simp [hc])
  rw [trim, hdrop, reverse_cons, dropWhile_append]
  split
  · exact ⟨[], by simp [hc]⟩
  · exact ⟨(s.reverse.dropWhile isspace).reverse, by simp⟩

theorem tonumber_short (m : Message) : tonumber m.short = none := by
  obtain ⟨s, hs⟩ : ∃ s, trim m.short = '\xe2' :: s := by
    cases hr : m.read with
    | fresh =>
      simp only [Message.short, hr, Mark.str, cons_append]
      exact trim_cons rfl
    | kept | read =>
      simp only [Message.short, hr, Mark.str, cons_append]
      rw [trim_blank rfl]
      exact trim_cons rfl
  have hdigit : Char.isDigit '\xe2' = false := rfl
  simp [tonumber, hs, unsigned, decimal, hdigit]

theorem readRecord_eq_some {slot : Str} {rest rest' : List Str}
    (h : readRecord slot rest = some (r, rest')) :
    r.slot = slot ∧ ∃ sht, cutShort sht = some r.short := by
  unfold readRecord at h
  split at h
  · simp only [bind_eq_bind, bind_eq_some_iff, some.injEq, Prod.mk.injEq] at h
    obtain ⟨_, -, _, -, _, -, sht, -, _, hshort, rfl, -⟩ := h
    exact ⟨rfl, sht, hshort⟩
  · cases h

theorem readRecords_of_slot {line : Str} {rest : List Str} (h : tonumber line = none) (fuel : Nat)
    (maxslot : Rat) : readRecords fuel (line :: rest) o maxslot = none := by
  cases fuel with
  | zero => rfl
  | succ fuel =>
    rw [readRecords]
    cases hr : readRecord line rest with
    | none => rfl
    | some r =>
      have hslot : tonumber r.1.slot = none := by rw [(readRecord_eq_some hr).1, h]
      simp [hslot]

/-- A message whose text is several lines is read a line short, so that the next record begins with
its last line. -/
theorem readRecords_of_newline (hs : '\n' ∉ stxt 20 m.mtxt) (hc : m.concat = none)
    (hfind : find ['M', 's', 'g', '#', ' '] m.text = none) (hnl : '\n' ∈ m.text) (fuel : Nat)
    (o : Overall) (maxslot : Rat) (rest : Str) :
    readRecords fuel (lines (m.write rest)) o maxslot = none := by
  have htxt : m.mtxt = m.text := by rw [Message.mtxt, hc]
  obtain ⟨l, ls, hp, hne, hpre⟩ := exists_pieces hnl
  obtain ⟨ls, z, rfl⟩ := (eq_nil_or_concat' ls).resolve_left hne
  have hline := find_eq_none_of_prefix (cons_ne_nil 'M' _) hfind hpre
  have hcount : ocount m.text + 1 = ls.length + 2 := by
    have hlen := length_pieces (s := m.text)
    rw [hp] at hlen
    simpa [ocount] using hlen.symm
  have hfloor : ⌊((ls.length + 2 : Nat) : Rat) - 2⌋.toNat = ls.length := by
    push_cast
    simp
  rw [lines_write m (m.notMem_short hs), htxt, hcount, hp]
  cases fuel with
  | zero => rfl
  | succ fuel =>
    obtain ⟨msg, hmsg⟩ := readText_append (((ls.length + 2 : Nat) : Rat).isInt) ls
      (z :: m.short :: lines rest) l
    simp only [readRecords, cons_append, append_assoc, nil_append, readRecord,
      readHead_plain hline, tonumber_dec, bind_eq_bind, bind_some, hfloor, hmsg,
      List.head?_cons, tail_cons]
    cases cutShort z with
    | none => rfl
    | some short =>
      simp only [bind_some]
      rw [tonumber_dec, bind_some]
      exact readRecords_of_slot (tonumber_short m) ..

/-- A message that keeps the place of the others in the file, and is found by its slot. -/
def Tame (m : Message) : Prop :=
  m.index < 10 ^ 14 ∧ '\n' ∉ stxt 20 m.mtxt ∧
    (m.concat = none → find ['M', 's', 'g', '#', ' '] m.text = none)

theorem readRecords_of_cutShort (hm : Tame m) (hc : m.concat = none) (hnl : '\n' ∉ m.text)
    (hcut : cutShort m.short = none) (fuel : Nat) (o : Overall) (maxslot : Rat) (rest : Str) :
    readRecords fuel (lines (m.write rest)) o maxslot = none := by
  have htxt : m.mtxt = m.text := by rw [Message.mtxt, hc]
  have hcount : ocount m.text = 0 := count_eq_zero.mpr hnl
  have hfloor : ⌊((1 : Nat) : Rat) - 2⌋.toNat = 0 := by norm_num
  rw [lines_write m (m.notMem_short hm.2.1), htxt, hcount, pieces_of_notMem hnl]
  cases fuel with
  | zero => rfl
  | succ fuel =>
    simp only [singleton_append, readRecords, readRecord, readHead_plain (hm.2.2 hc),
      tonumber_dec, Nat.zero_add, bind_eq_bind, bind_some, hfloor, readText,
      List.head?_cons, hcut, bind_none]

theorem readable_of_readRecords (ht : ∀ m ∈ msgs, Tame m) (fuel : Nat) (o : Overall)
    (maxslot : Rat)
    (h : (readRecords fuel (lines (msgs.foldr Message.write [])) o maxslot).isSome) :
    ∀ m ∈ msgs, Readable m := by
  induction msgs generalizing fuel o maxslot with
  | nil => simp
  | cons m msgs ih =>
    have hm := ht m mem_cons_self
    rw [foldr_cons] at h
    have hread : Readable m := by
      refine ⟨hm.1, hm.2.1, fun hc => ?_⟩
      have hnl : '\n' ∉ m.text := fun hnl => by
        rw [readRecords_of_newline hm.2.1 hc (hm.2.2 hc) hnl] at h
        cases h
      refine ⟨hnl, hm.2.2 hc, ?_⟩
      cases hcut : cutShort m.short with
      | none =>
        rw [readRecords_of_cutShort hm hc hnl hcut] at h
        cases h
      | some short => rfl
    intro m' hm'
    rcases mem_cons.mp hm' with rfl | hm'
    · exact hread
    · obtain ⟨r, hof, hrec⟩ := readRecord_write hread (lines (msgs.foldr Message.write []))
      rw [lines_write m (m.notMem_short hm.2.1)] at h
      cases fuel with
      | zero => cases h
      | succ fuel =>
        have hslot : tonumber r.slot = some (m.index : Rat) := by rw [hof.slot, tonumber_dec]
        simp only [readRecords, hrec, hslot, bind_eq_bind, bind_some] at h
        exact ih (fun m hm => ht m (mem_cons_of_mem _ hm)) fuel _ _ h m' hm'

theorem counted_of_merge {used max : Line} {outs : List Output}
    (h : merge (smsread used max msgs) = some outs) (ha : Agrees msgs outs)
    (hzero : tonumber used.str = some 0) : msgs = [] := by
  have hlines : lines (smsread used max msgs) = [used.str, max.str] := by
    rw [smsread, if_pos hzero, writeln, lines_line used.oneLine, writeln, lines_line max.oneLine]
    rfl
  rw [merge, hlines] at h
  obtain rfl : outs = [] := by simpa [readRecords, writeSlots] using h.symm
  rw [eq_nil_iff_forall_not_mem]
  intro m hm
  have hone := ha.once m hm
  simp at hone

theorem mergeable_of_merge {used max : Line} {outs : List Output}
    (hn : (msgs.map (·.index)).Nodup) (ht : ∀ m ∈ msgs, Tame m)
    (h : merge (smsread used max msgs) = some outs) (ha : Agrees msgs outs) :
    Mergeable used msgs := by
  have hcounted := counted_of_merge h ha
  rw [merge, lines_smsread used max hcounted] at h
  simp only [bind_eq_bind, bind_eq_some_iff] at h
  obtain ⟨⟨o, maxslot⟩, hread, hwrite⟩ := h
  have hreadable := readable_of_readRecords ht _ _ _ (by rw [hread]; rfl)
  refine ⟨hcounted, hreadable, ?_⟩
  obtain ⟨o', maxslot', hread', hst⟩ := readRecords_write hreadable
    (lines (msgs.foldr Message.write [])).length (fun _ => none) (-1) le_rfl
  rw [hread] at hread'
  cases hread'
  split at hwrite
  next hneg =>
    obtain rfl := hst.eq_nil hneg
    intro m hm
    cases hm
  next hpos =>
    obtain ⟨hidx, hlt⟩ := hst.bounds (not_lt.mp hpos)
    rw [List.range_eq_range'] at hwrite
    intro m hm c hc halive
    exact hasPart_of_writeSlots hn hlt hidx (⌊maxslot⌋.toNat + 1) 0 o (left_of_stored hst)
      (by omega) (by rw [hwrite]; rfl) m hm (Nat.zero_le _) c hc halive

/-- The condition is enough for every list; it is needed when no text but that of a part has the
sign of a long message and no message has a newline in its last line, since such a line can put
the reader out of step in a way that a later text undoes. -/
theorem merge_smsread (used max : Line) (msgs : List Message)
    (hn : (msgs.map (·.index)).Nodup) :
    (Mergeable used msgs →
      ∃ outs, merge (smsread used max msgs) = some outs ∧ Agrees msgs outs) ∧
    ((∀ m ∈ msgs, Tame m) →
      (∃ outs, merge (smsread used max msgs) = some outs ∧ Agrees msgs outs) →
      Mergeable used msgs) :=
  ⟨exists_merge used max hn, fun ht ⟨_, h, ha⟩ => mergeable_of_merge hn ht h ha⟩

def day : Stamp := ⟨['2', '5', '-', '0', '3', '-', '0', '1'], by simp [Char.isDigit]⟩

def noon : Stamp := ⟨['1', '2', ':', '0', '0', ':', '0', '0'], by simp [Char.isDigit]⟩

def received (index : Nat) (concat : Option Concat) (text : Str) : Message :=
  ⟨index, .read, ['5', '5', '5'], day, noon, concat, text, by decide⟩

def three : Line := ⟨['3'], by decide⟩

def inbox : List Message :=
  [received 4 (some ⟨7, 2, 2⟩) ['b', '\n', 'c'], received 2 none ['h', 'i'],
    received 9 (some ⟨7, 1, 2⟩) ['a']]

theorem mergeable_inbox : Mergeable three inbox where
  counted h := absurd h (by decide +kernel)
  readable := by
    intro m hm
    simp only [inbox, mem_cons, not_mem_nil, or_false] at hm
    rcases hm with rfl | rfl | rfl
    · exact ⟨by decide, by decide, fun h => by cases h⟩
    · exact ⟨by decide, by decide, fun _ => by decide⟩
    · exact ⟨by decide, by decide, fun h => by cases h⟩
  hasPart := by
    intro m hm c hc _
    refine ⟨received 9 (some ⟨7, 1, 2⟩) ['a'], by simp [inbox], ⟨7, 1, 2⟩, rfl, ?_⟩
    simp only [inbox, mem_cons, not_mem_nil, or_false] at hm
    rcases hm with rfl | rfl | rfl <;> cases hc <;> decide

theorem merge_inbox :
    ∃ outs, merge (smsread three three inbox) = some outs ∧ Agrees inbox outs :=
  (merge_smsread three three inbox (by decide)).1 mergeable_inbox

/-- A message of two lines, and one that only looks like a part. -/
theorem merge_of_two_lines :
    (¬∃ outs, merge (smsread three three [received 1 none ['a', '\n', 'b']]) = some outs ∧
      Agrees [received 1 none ['a', '\n', 'b']] outs) ∧
    ¬∃ outs, merge (smsread three three [received 1 none ['M', 's', 'g', '#', ' ', '5']]) =
      some outs ∧ Agrees [received 1 none ['M', 's', 'g', '#', ' ', '5']] outs := by
  have htwo : merge (smsread three three [received 1 none ['a', '\n', 'b']]) = none := by
    decide +kernel
  have hsign : merge (smsread three three [received 1 none ['M', 's', 'g', '#', ' ', '5']]) =
      none := by
    decide +kernel
  rw [htwo, hsign]
  constructor <;> rintro ⟨_, h, -⟩ <;> cases h

end ModemSupport.Rooter.SmsFile
