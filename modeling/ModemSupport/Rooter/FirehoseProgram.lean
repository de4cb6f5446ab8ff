import Mathlib.Data.List.TakeWhile
import ModemSupport.Rooter.Firehose

/-! When the target of a program command is sent what the text of the command announces: the sectors
are counted from the file, written into the text in place of the number that the line had, and sent
in pieces that are each filled up to a sector. -/

namespace ModemSupport.Rooter.Firehose

open Lib.Text List Option

variable {s t v key line name text : Str} {k n f payload sectorSize filesize : Nat}
  {file : Bytes}

def sectors (n sectorSize : Nat) : Nat := (n + (sectorSize - 1)) / sectorSize

theorem padding_lt (hs : 0 < sectorSize) : padding sectorSize n < sectorSize := by
  unfold padding
  split
  · exact hs
  · have := Nat.mod_lt n hs
    omega

theorem add_padding (hs : 0 < sectorSize) :
    n + padding sectorSize n = sectors n sectorSize * sectorSize := by
  have hn := Nat.div_add_mod n sectorSize
  have hlt := Nat.mod_lt n hs
  unfold padding
  split
  next hzero =>
    have hdiv : sectors n sectorSize = n / sectorSize := by
      rw [sectors]
      apply Nat.div_eq_of_lt_le
      · rw [Nat.mul_comm]
        omega
      · rw [Nat.add_mul, Nat.mul_comm]
        omega
    rw [hdiv, Nat.mul_comm]
    omega
  next hpos =>
    have hdiv : sectors n sectorSize = n / sectorSize + 1 := by
      rw [sectors]
      apply Nat.div_eq_of_lt_le
      · rw [Nat.add_mul, Nat.mul_comm]
        omega
      · rw [Nat.add_mul, Nat.add_mul, Nat.mul_comm]
        omega
    rw [hdiv, Nat.add_mul, Nat.mul_comm]
    omega

theorem padding_of_dvd (h : sectorSize ∣ n) : padding sectorSize n = 0 := by
  rw [padding, if_pos (Nat.mod_eq_zero_of_dvd h)]

theorem padding_add_of_dvd (h : sectorSize ∣ k) :
    padding sectorSize (k + n) = padding sectorSize n := by
  obtain ⟨q, rfl⟩ := h
  rw [padding, padding, Nat.mul_add_mod]

theorem sendLoop_of_le {fuel filesend : Nat} (h : filesize ≤ filesend) :
    sendLoop payload sectorSize filesize fuel file filesend = ⟨[], false, filesend⟩ := by
  cases fuel with
  | zero => rfl
  | succ fuel => rw [sendLoop, if_neg (by omega)]

theorem sendLoop_last {fuel filesend : Nat} (hlt : filesend < filesize)
    (hlast : filesize < filesend + payload) (hfile : filesize - filesend ≤ file.length) :
    sendLoop payload sectorSize filesize (fuel + 1) file filesend =
      ⟨file.take (filesize - filesend) ++
        replicate (padding sectorSize (filesize - filesend)) 0,
        decide (payload < filesize - filesend + padding sectorSize (filesize - filesend)),
        filesize + padding sectorSize (filesize - filesend)⟩ := by
  have hreads : min (filesize - filesend) file.length = filesize - filesend := by omega
  have hfull : filesend + (filesize - filesend) = filesize := by omega
  rw [sendLoop, if_pos hlt]
  simp only [if_pos hlast, hreads]
  rw [if_neg (by omega), hfull, sendLoop_of_le (by omega)]
  simp

theorem sendLoop_full {fuel filesend : Nat} (hpos : 0 < payload)
    (hmore : filesend + payload ≤ filesize) (hfile : payload ≤ file.length) :
    sendLoop payload sectorSize filesize (fuel + 1) file filesend =
      let rest := sendLoop payload sectorSize filesize fuel (file.drop payload)
        (filesend + payload + padding sectorSize payload)
      ⟨file.take payload ++ replicate (padding sectorSize payload) 0 ++ rest.sent,
        decide (payload < payload + padding sectorSize payload) || rest.overrun,
        rest.filesend⟩ := by
  have hreads : min payload file.length = payload := by omega
  rw [sendLoop, if_pos (by omega)]
  simp only [if_neg (show ¬filesize < filesend + payload by omega), hreads]
  rw [if_neg (by omega)]

theorem sendLoop_of_dvd (hpos : 0 < payload) (hs : 0 < sectorSize) (hdvd : sectorSize ∣ payload)
    (fuel : Nat) (file : Bytes) (filesend : Nat) (hfuel : file.length ≤ fuel)
    (hle : filesend ≤ filesize) (hfile : filesize - filesend ≤ file.length) :
    (sendLoop payload sectorSize filesize fuel file filesend).sent =
        file.take (filesize - filesend) ++
          replicate (padding sectorSize (filesize - filesend)) 0 ∧
      (sendLoop payload sectorSize filesize fuel file filesend).overrun = false := by
  induction fuel generalizing file filesend with
  | zero =>
    have hzero : filesize - filesend = 0 := by omega
    simp [sendLoop, hzero, padding]
  | succ fuel ih =>
    rcases Nat.eq_or_lt_of_le hle with he | hlt
    · rw [sendLoop_of_le he.ge]
      simp [he, padding]
    · by_cases hlast : filesize < filesend + payload
      · rw [sendLoop_last hlt hlast hfile]
        refine ⟨rfl, ?_⟩
        -- The payload is whole sectors, so that the last piece has room for its zeros.
        obtain ⟨q, rfl⟩ := hdvd
        have hround := add_padding (n := filesize - filesend) hs
        have hq : sectors (filesize - filesend) sectorSize ≤ q := by
          rw [sectors]
          apply Nat.le_of_lt_succ
          rw [Nat.div_lt_iff_lt_mul hs, Nat.succ_mul, Nat.mul_comm q]
          omega
        have hle' := Nat.mul_le_mul_right sectorSize hq
        rw [Nat.mul_comm q] at hle'
        simp only [decide_eq_false_iff_not, not_lt]
        omega
      · have hrest := ih (file.drop payload) (filesend + payload)
          (by rw [length_drop]; omega) (by omega) (by rw [length_drop]; omega)
        rw [sendLoop_full hpos (by omega) (by omega)]
        simp only [padding_of_dvd hdvd, Nat.add_zero, replicate_zero, append_nil,
          lt_self_iff_false, decide_false, Bool.false_or]
        refine ⟨?_, hrest.2⟩
        have hsize : filesize - filesend = payload + (filesize - (filesend + payload)) := by omega
        rw [hrest.1, hsize, padding_add_of_dvd hdvd, take_add, append_assoc]

theorem padding_pos (hs : 0 < sectorSize) (h : ¬sectorSize ∣ n) : 0 < padding sectorSize n := by
  have hmod : n % sectorSize ≠ 0 := fun hz => h (Nat.dvd_of_mod_eq_zero hz)
  have := Nat.mod_lt n hs
  rw [padding, if_neg hmod]
  omega

/-- The image is sent with its zeros when the pieces are whole sectors, or there is only one and its
sectors fit into the buffer. -/
theorem sendLoop_eq (hpos : 0 < payload) (hs : 0 < sectorSize)
    (hfits : sectorSize ∣ payload ∨ sectors filesize sectorSize * sectorSize ≤ payload)
    (hfile : filesize ≤ file.length) :
    (sendLoop payload sectorSize filesize file.length file 0).sent =
        file.take filesize ++ replicate (padding sectorSize filesize) 0 ∧
      (sendLoop payload sectorSize filesize file.length file 0).overrun = false := by
  by_cases hdvd : sectorSize ∣ payload
  · exact sendLoop_of_dvd hpos hs hdvd file.length file 0 le_rfl (Nat.zero_le _) hfile
  · have hroom := hfits.resolve_left hdvd
    rw [← add_padding hs] at hroom
    rcases Nat.eq_zero_or_pos filesize with rfl | hsome
    · rw [sendLoop_of_le le_rfl]
      simp [padding]
    · have hlast : filesize < 0 + payload := by
        by_contra hge
        have he : payload = filesize := by omega
        have := padding_pos hs hdvd
        rw [he] at this
        omega
      cases hlen : file.length with
      | zero => omega
      | succ fuel =>
        rw [sendLoop_last hsome hlast (by omega)]
        exact ⟨rfl, by simpa using hroom⟩

theorem sendLoop_overrun (hpos : 0 < payload) (hs : 0 < sectorSize)
    (hdvd : ¬sectorSize ∣ payload) (hroom : payload < sectors filesize sectorSize * sectorSize)
    (hfile : filesize ≤ file.length) :
    (sendLoop payload sectorSize filesize file.length file 0).overrun = true := by
  rw [← add_padding hs] at hroom
  have hsome : 0 < filesize := by
    by_contra hzero
    have hz : filesize = 0 := by omega
    simp [hz, padding] at hroom
  cases hlen : file.length with
  | zero => omega
  | succ fuel =>
    by_cases hlast : filesize < 0 + payload
    · rw [sendLoop_last hsome hlast (by omega)]
      simpa using hroom
    · have := padding_pos hs hdvd
      rw [sendLoop_full hpos (by omega) (by omega)]
      simp
      omega

theorem attrValue_eq_some (h : attrValue text key = some v) :
    ∃ a b, find key text = some (a, '=' :: '"' :: (v ++ '"' :: b)) ∧
      find ['"'] (v ++ '"' :: b) = some (v, b) := by
  unfold attrValue at h
  split at h
  next a s hfind =>
    obtain ⟨⟨v', b⟩, hquote, rfl⟩ := map_eq_some_iff.mp h
    have hs := append_of_find hquote
    simp only [singleton_append] at hs
    exact ⟨a, b, by rw [hfind, hs], by rw [← hs, hquote]⟩
  next => cases h

theorem fhXmlFindValue_of_attrValue (h : attrValue text key = some v) :
    ∃ a b, fhXmlFindValue text key = some (a ++ key ++ ['=', '"'], v, '"' :: b) ∧
      find key text = some (a, '=' :: '"' :: (v ++ '"' :: b)) := by
  obtain ⟨a, b, hfind, hquote⟩ := attrValue_eq_some h
  refine ⟨a, b, ?_, hfind⟩
  simp [fhXmlFindValue, hfind, hquote]

theorem quote_notMem_dec : '"' ∉ dec k := notMem_dec (by decide)

theorem number_dec : number (dec k) = some k := by
  have hall : (dec k).all Char.isDigit = true := by
    rw [List.all_eq_true]
    exact fun c hc => isDigit_of_mem_dec hc
  rw [number, if_pos ⟨dec_ne_nil, hall⟩, dec, Nat.ofDigitChars_ten_toDigits]

theorem attr_fhXmlSetValue (h : attrValue text key = some v) :
    attr (fhXmlSetValue text key k) key = some k := by
  obtain ⟨a, b, hvalue, hfind⟩ := fhXmlFindValue_of_attrValue h
  have htext := append_of_find hfind
  rw [htext] at hfind
  have hset : fhXmlSetValue text key k = a ++ (key ++ ('=' :: '"' :: (dec k ++ '"' :: b))) := by
    simp [fhXmlSetValue, hvalue]
  rw [attr, attrValue, hset, find_congr hfind]
  simp [find_singleton quote_notMem_dec, number_dec]

theorem attrValue_fhXmlSetValue (h : attrValue text key = none) :
    attrValue (fhXmlSetValue text key k) key = none := by
  cases hvalue : fhXmlFindValue text key with
  | none =>
    rw [fhXmlSetValue, hvalue]
    exact h
  | some r =>
    unfold fhXmlFindValue at hvalue
    split at hvalue
    next a c₀ c₁ s hfind =>
      split at hvalue
      next => cases hvalue
      next hstart =>
        obtain ⟨⟨v, b⟩, hquote, rfl⟩ := map_eq_some_iff.mp hvalue
        have htext := append_of_find hfind
        have hset : fhXmlSetValue text key k =
            a ++ (key ++ (c₀ :: c₁ :: (dec k ++ '"' :: b))) := by
          rw [fhXmlSetValue, fhXmlFindValue, hfind]
          simp only [if_neg hstart, hquote, map_some]
          simp
        have hfind' := hfind
        rw [htext] at hfind'
        rw [attrValue, hset, find_congr hfind']
        split
        next heq =>
          cases heq
          rw [attrValue, hfind] at h
          simp [hquote] at h
        next => rfl
    next => cases hvalue

theorem attr_fhXmlSetValue_none (h : attrValue text key = none) :
    attr (fhXmlSetValue text key k) key = none := by
  rw [attr, attrValue_fhXmlSetValue h]
  rfl

theorem getNumber_append (h : attrValue text key = some v) (t : Str) :
    getNumber (text ++ t) key = if v.length < 64 then atoi v else 0 := by
  obtain ⟨a, b, hfind, hquote⟩ := attrValue_eq_some h
  have htext := append_of_find hfind
  rw [htext] at hfind
  have hline : text ++ t = a ++ (key ++ ('=' :: '"' :: (v ++ '"' :: (b ++ t)))) := by
    rw [htext]
    simp
  have hquote' : find ['"'] (v ++ '"' :: (b ++ t)) = some (v, b ++ t) :=
    find_congr (n := ['"']) hquote _
  have hvalue : fhXmlFindValue (text ++ t) key =
      some (a ++ key ++ ['=', '"'], v, '"' :: (b ++ t)) := by
    rw [fhXmlFindValue, hline, find_congr hfind]
    simp [hquote']
  rw [getNumber, fhXmlGetValue, hvalue, bind_some]
  split <;> rfl

theorem append_of_xmlOriginalData (h : xmlOriginalData line = some text) :
    ∃ t, line = text ++ t := by
  unfold xmlOriginalData at h
  split at h
  next hlast =>
    obtain ⟨-, h⟩ := ite_none_right_eq_some.mp h
    cases h
    exact ⟨['\n'], (dropLast_append_getLast? _ hlast).symm⟩
  next =>
    obtain ⟨-, h⟩ := ite_none_right_eq_some.mp h
    cases h
    exact ⟨[], by simp⟩

theorem atoi_of_number (h : number v = some n) : atoi v = min n (2 ^ 63 - 1) % 2 ^ 32 := by
  unfold number at h
  obtain ⟨⟨hne, hall⟩, h⟩ := ite_none_right_eq_some.mp h
  rw [List.all_eq_true] at hall
  have htake : v.takeWhile Char.isDigit = v := takeWhile_eq_self_iff.mpr hall
  cases v with
  | nil => exact absurd rfl hne
  | cons c v =>
    have hc := hall c mem_cons_self
    rw [atoi, dropWhile_cons_of_neg (by simp [isspace_of_isDigit hc])]
    split
    next heq =>
      cases heq
      exact absurd hc (by decide)
    next heq =>
      cases heq
      exact absurd hc (by decide)
    next => rw [htake, some.inj h]

theorem fhSendCfgCmd_pos {deviceType : Str} {first second : Option Response}
    (h : fhSendCfgCmd deviceType first second = some payload) : 0 < payload := by
  unfold fhSendCfgCmd at h
  simp only [bind_eq_bind, bind_eq_some_iff] at h
  obtain ⟨r, -, h⟩ := h
  split at h
  next hnak =>
    obtain ⟨r', -, h⟩ := bind_eq_some_iff.mp h
    obtain ⟨-, h⟩ := ite_none_right_eq_some.mp h
    cases h
    rcases Nat.eq_zero_or_pos r.maxPayload.toNat with hz | hpos
    · exact absurd (UInt32.toNat_inj.mp hz) hnak.2
    · exact hpos
  next =>
    obtain ⟨-, h⟩ := ite_none_right_eq_some.mp h
    cases h
    unfold maxPayload
    split <;> decide

theorem fixupSectors_eq (hs : 0 < sectorSize) (gpt : Bool) : fixupSectors f sectorSize gpt =
    (sectors f sectorSize + if gpt then 2 ^ 32 - 1 else 0) % 2 ^ 32 := by
  have hround := add_padding (n := f) hs
  have hdiv := Nat.div_add_mod f sectorSize
  have hn : sectors f sectorSize =
      f / sectorSize + if f % sectorSize ≠ 0 then 1 else 0 := by
    apply Nat.eq_of_mul_eq_mul_right hs
    rw [← hround, Nat.add_mul, Nat.mul_comm (f / sectorSize)]
    unfold padding
    have hlt := Nat.mod_lt f hs
    by_cases hz : f % sectorSize = 0
    · simp only [hz, if_true, ne_eq, not_true_eq_false, if_false]
      omega
    · simp only [hz, if_false, ne_eq, not_false_eq_true, if_true]
      omega
  rw [hn]
  unfold fixupSectors
  cases gpt <;> split <;> simp

def imageSize (name : Str) (f : Nat) : Nat :=
  if strncasecmp (unixFilename name) gptEmpty0 then f - 512 else f

def announced (name : Str) (f sectorSize : Nat) : Nat :=
  (sectors f sectorSize + if strncasecmp (unixFilename name) gptEmpty0 then 2 ^ 32 - 1 else 0) %
    2 ^ 32

/-- A name that begins like that of the empty table is that name, and its file has the 512 bytes
that are left out; the buffer holds whole sectors, or all of the image with its zeros; the line has
room for a number of sectors, and the number that is there, or that is put in its place, is that of
the image. -/
def Announces (payload : Nat) (name line : Str) (f sectorSize : Nat) : Prop :=
  (strncasecmp (unixFilename name) gptEmpty0 → unixFilename name = gptEmpty0 ∧ 512 ≤ f) ∧
  (sectorSize ∣ payload ∨ sectors (imageSize name f) sectorSize * sectorSize ≤ payload) ∧
  ∃ text v, xmlOriginalData line = some text ∧ attrValue text numPartitionSectors = some v ∧
    if v.length < 64 ∧ atoi v = announced name f sectorSize then
      number v = some (sectors (imageSize name f) sectorSize)
    else
      (fhXmlSetValue text numPartitionSectors (announced name f sectorSize)).length < 512 ∧
        announced name f sectorSize = sectors (imageSize name f) sectorSize

theorem exists_attr_iff {m : Nat} (hn : n ≠ 0) :
    (∃ text, (if getNumber line numPartitionSectors = n then xmlOriginalData line
        else (xmlOriginalData line).bind (setNumSectors · n)) = some text ∧
      attr text numPartitionSectors = some m) ↔
    ∃ text v, xmlOriginalData line = some text ∧ attrValue text numPartitionSectors = some v ∧
      if v.length < 64 ∧ atoi v = n then number v = some m
      else (fhXmlSetValue text numPartitionSectors n).length < 512 ∧ n = m := by
  cases hline : xmlOriginalData line with
  | none => simp
  | some text =>
    obtain ⟨t, rfl⟩ := append_of_xmlOriginalData hline
    cases hvalue : attrValue text numPartitionSectors with
    | none =>
      have hattr : attr text numPartitionSectors = none := by rw [attr, hvalue]; rfl
      split
      next => simp [hattr, hvalue]
      next =>
        simp [setNumSectors, attr_fhXmlSetValue_none hvalue, hvalue]
    | some v =>
      have hattr : attr text numPartitionSectors = number v := by rw [attr, hvalue]; rfl
      have hsame : getNumber (text ++ t) numPartitionSectors = n ↔
          v.length < 64 ∧ atoi v = n := by
        rw [getNumber_append hvalue]
        by_cases hlen : v.length < 64
        · simp [hlen]
        · simp [hlen, hn.symm]
      by_cases hkept : getNumber (text ++ t) numPartitionSectors = n
      · simp [hkept, hsame.mp hkept, hvalue, hattr]
      · have hnot : ¬(v.length < 64 ∧ atoi v = n) := fun h => hkept (hsame.mpr h)
        constructor
        · rintro ⟨text', htext', hm⟩
          rw [if_neg hkept, bind_some, setNumSectors] at htext'
          obtain ⟨hlen, htext'⟩ := ite_none_right_eq_some.mp htext'
          cases htext'
          rw [attr_fhXmlSetValue hvalue] at hm
          refine ⟨text, v, rfl, hvalue, ?_⟩
          rw [if_neg hnot]
          exact ⟨hlen, some.inj hm⟩
        · rintro ⟨text', v', htext', hv', hrest⟩
          cases htext'
          rw [hvalue] at hv'
          cases hv'
          rw [if_neg hnot] at hrest
          refine ⟨fhXmlSetValue text numPartitionSectors n, ?_, ?_⟩
          · rw [if_neg hkept, bind_some, setNumSectors, if_pos hrest.1]
          · rw [attr_fhXmlSetValue hvalue, hrest.2]

theorem eq_of_parse {p : Program} (hp : fhParseXmlLine line = some p) :
    p.numSectors = getNumber line numPartitionSectors ∧
      p.xmlOriginalData = xmlOriginalData line ∧
      p.sectorSize = getNumber line sectorSizeInBytes := by
  unfold fhParseXmlLine at hp
  split at hp
  · cases hp
  · split at hp
    · dsimp only at hp
      split at hp
      · cases hp
      · cases hp
        exact ⟨rfl, rfl, rfl⟩
    · cases hp

theorem eq_of_fixup {files : Str → Option File} {p p' : Program} {file : File}
    (hp : fhParseXmlLine line = some p) (hfix : fhFixupProgramCmd files p = some (p', file))
    (hname : p.filename = some name) :
    0 < p.sectorSize ∧ p'.sectorSize = p.sectorSize ∧ file.bytes ≠ [] ∧
      announced name file.bytes.length p.sectorSize ≠ 0 ∧
      p'.xmlOriginalData =
        (if getNumber line numPartitionSectors = announced name file.bytes.length p.sectorSize
          then xmlOriginalData line
          else (xmlOriginalData line).bind
            (setNumSectors · (announced name file.bytes.length p.sectorSize))) := by
  obtain ⟨hnum, hxml, -⟩ := eq_of_parse hp
  unfold fhFixupProgramCmd at hfix
  simp only [hname, bind_eq_bind, bind_some, bind_eq_some_iff] at hfix
  obtain ⟨file', -, hfix⟩ := hfix
  split at hfix
  · cases hfix
  next hgood =>
    rw [not_or, not_or] at hgood
    obtain ⟨hfile, hs, hn⟩ := hgood
    have hs := Nat.pos_of_ne_zero hs
    rw [fixupSectors_eq hs] at hn hfix
    cases hfix
    exact ⟨hs, rfl, hfile, hn, by rw [hnum, hxml]; rfl⟩

section Faithful

variable {f : Nat} (hs : 0 < sectorSize)
include hs

theorem le_sectors_mul : f ≤ sectors f sectorSize * sectorSize := by
  rw [← add_padding hs]
  omega

theorem sectors_pos (hf : 0 < f) : 0 < sectors f sectorSize := by
  have hle := le_sectors_mul (f := f) hs
  rcases Nat.eq_zero_or_pos (sectors f sectorSize) with hz | hpos
  · rw [hz] at hle
    omega
  · exact hpos

theorem sectors_ne (hf : 0 < f)
    (hgpt : strncasecmp (unixFilename name) gptEmpty0) :
    announced name f sectorSize ≠ sectors f sectorSize ∧
      sectors f sectorSize % 2 ^ 32 ≠ announced name f sectorSize := by
  have hpos := sectors_pos hs hf
  rw [announced, if_pos hgpt]
  constructor <;> omega

theorem sectors_le : sectors f sectorSize ≤ f := by
  rw [sectors]
  apply Nat.le_of_lt_succ
  rw [Nat.div_lt_iff_lt_mul hs, Nat.succ_mul]
  have := Nat.le_mul_of_pos_right f hs
  omega

theorem eq_sectors {m k : Nat} (hk : k < sectorSize) (h : f + k = m * sectorSize) :
    m = sectors f sectorSize := by
  symm
  rw [sectors]
  apply Nat.div_eq_of_lt_le
  · omega
  · rw [Nat.add_mul]
    omega

end Faithful

theorem strncasecmp_of_eq (h : unixFilename name = gptEmpty0) :
    strncasecmp (unixFilename name) gptEmpty0 := by
  rw [h]
  decide

theorem filesizeOf_eq (hlong : file.length < 2 ^ 63)
    (h : strncasecmp (unixFilename name) gptEmpty0 → 512 ≤ file.length) :
    filesizeOf name file = imageSize name file.length := by
  unfold filesizeOf imageSize
  split
  next hgpt =>
    have := h hgpt
    omega
  next => rfl

theorem image_eq {file : File} (h : strncasecmp (unixFilename name) gptEmpty0 →
    unixFilename name = gptEmpty0) :
    image name file = file.bytes.take (imageSize name file.bytes.length) := by
  unfold image imageSize
  split
  next he => rw [if_pos (strncasecmp_of_eq he)]
  next hne =>
    rw [if_neg fun hgpt => hne (h hgpt), List.take_length]

theorem imageSize_le (name : Str) (f : Nat) : imageSize name f ≤ f := by
  unfold imageSize
  split <;> omega

/-- A command that is sent, with the line it comes from. -/
structure FixedUp (line name : Str) (p : Program) (file : File) : Prop where
  sector : 0 < p.sectorSize
  bytes : file.bytes ≠ []
  count : announced name file.bytes.length p.sectorSize ≠ 0
  xml : p.xmlOriginalData =
    (if getNumber line numPartitionSectors = announced name file.bytes.length p.sectorSize
      then xmlOriginalData line
      else (xmlOriginalData line).bind
        (setNumSectors · (announced name file.bytes.length p.sectorSize)))
  size : ∀ text, p.xmlOriginalData = some text → (attr text numPartitionSectors).isSome →
    attr text sectorSizeInBytes = some p.sectorSize

theorem announces_of_faithful {p : Program} {file : File} (hfixed : FixedUp line name p file)
    (hpos : 0 < payload) (h : Faithful payload name p file) :
    Announces payload name line file.bytes.length p.sectorSize := by
  obtain ⟨hs, hfile, hn, hxml, hsize⟩ := hfixed
  obtain ⟨text, n, s, htext, hnum, hsec, hlen, ⟨k, hk, hsent⟩, hover⟩ := h
  rw [hsize text htext (by rw [hnum]; rfl)] at hsec
  cases hsec
  have hf : 0 < file.bytes.length := length_pos_iff.mpr hfile
  have hlong := file.size
  have htexts := (exists_attr_iff hn).mp ⟨text, by rw [← hxml, htext], hnum⟩
  have hgpt : strncasecmp (unixFilename name) gptEmpty0 →
      unixFilename name = gptEmpty0 ∧ 512 ≤ file.bytes.length := by
    intro hgpt
    by_cases he : unixFilename name = gptEmpty0
    · refine ⟨he, ?_⟩
      by_contra hshort
      -- Nothing is left of the file, so that less than a sector has been sent.
      have hnil : image name file = [] := by
        rw [image, if_pos he, show file.bytes.length - 512 = 0 by omega, take_zero]
      rw [hnil, nil_append] at hsent
      rw [hsent, length_replicate] at hlen
      have hzero : n = 0 := by
        by_contra hne
        have := Nat.le_mul_of_pos_left p.sectorSize (Nat.pos_of_ne_zero hne)
        omega
      obtain ⟨t, v, -, -, hcase⟩ := htexts
      split at hcase
      next hkept =>
        have hatoi := atoi_of_number hcase
        rw [hkept.2, hzero] at hatoi
        exact hn hatoi
      next => exact hn (hcase.2.trans hzero)
    · have himage : image name file = file.bytes := by rw [image, if_neg he]
      rw [hsent, himage, length_append, length_replicate] at hlen
      have hcount := eq_sectors hs hk hlen
      obtain ⟨hne, hne'⟩ := sectors_ne hs hf hgpt
      obtain ⟨t, v, -, -, hcase⟩ := htexts
      split at hcase
      next hkept =>
        have hatoi := atoi_of_number hcase
        have hle := sectors_le hs (f := file.bytes.length)
        rw [hkept.2, hcount, Nat.min_eq_left (by omega)] at hatoi
        exact absurd hatoi.symm hne'
      next => exact absurd (hcase.2.trans hcount) hne
  have hsize' : filesizeOf name file.bytes = imageSize name file.bytes.length :=
    filesizeOf_eq hlong fun h => (hgpt h).2
  rw [fhSendRawmodeImage, hsize'] at hlen hsent hover
  have hfits : p.sectorSize ∣ payload ∨
      sectors (imageSize name file.bytes.length) p.sectorSize * p.sectorSize ≤ payload := by
    by_contra hnot
    rw [not_or, not_le] at hnot
    rw [sendLoop_overrun hpos hs hnot.1 hnot.2 (imageSize_le _ _)] at hover
    cases hover
  refine ⟨hgpt, hfits, ?_⟩
  rw [(sendLoop_eq hpos hs hfits (imageSize_le _ _)).1, length_append, length_replicate,
    length_take, Nat.min_eq_left (imageSize_le _ _), add_padding hs] at hlen
  rw [Nat.eq_of_mul_eq_mul_right hs hlen]
  exact htexts

theorem faithful_of_announces {p : Program} {file : File} (hfixed : FixedUp line name p file)
    (hpos : 0 < payload) (h : Announces payload name line file.bytes.length p.sectorSize) :
    Faithful payload name p file := by
  obtain ⟨hs, -, hn, hxml, hsize⟩ := hfixed
  obtain ⟨hgpt, hfits, htexts⟩ := h
  obtain ⟨text, htext, hnum⟩ := (exists_attr_iff hn).mpr htexts
  rw [← hxml] at htext
  obtain ⟨hsent, hover⟩ := sendLoop_eq hpos hs hfits (imageSize_le name _)
  have hsize' : filesizeOf name file.bytes = imageSize name file.bytes.length :=
    filesizeOf_eq file.size fun h => (hgpt h).2
  refine ⟨text, _, _, htext, hnum, hsize text htext (by rw [hnum]; rfl), ?_,
    ⟨_, padding_lt (n := imageSize name file.bytes.length) hs, ?_⟩, ?_⟩
  · rw [fhSendRawmodeImage, hsize', hsent, length_append, length_replicate,
      length_take, Nat.min_eq_left (imageSize_le _ _), add_padding hs]
  · rw [fhSendRawmodeImage, hsize', hsent, image_eq fun h => (hgpt h).1]
  · rw [fhSendRawmodeImage, hsize', hover]

theorem find_sectorSize_dec : find sectorSizeInBytes (dec k) = none := by
  cases h : find sectorSizeInBytes (dec k) with
  | none => rfl
  | some r =>
    have hmem : 'S' ∈ dec k := by
      rw [append_of_find h]
      exact mem_append_right _ (mem_append_left _ (by decide))
    exact absurd hmem (notMem_dec (by decide))

theorem find_sectorSize_behind (hv : find sectorSizeInBytes v = none) (b : Str) :
    find sectorSizeInBytes ('=' :: '"' :: (v ++ '"' :: b)) =
      (find sectorSizeInBytes ('"' :: b)).map fun r => ('=' :: '"' :: (v ++ r.1), r.2) := by
  have hquote : '"' ∉ sectorSizeInBytes := by decide
  have hv' : find sectorSizeInBytes ('=' :: '"' :: v) = none := by
    have hcons : ∀ {c : Char} {s : Str}, c = '=' ∨ c = '"' → find sectorSizeInBytes s = none →
        find sectorSizeInBytes (c :: s) = none := by
      intro c s hc hs
      rw [find, hs]
      have hnot : sectorSizeInBytes.isPrefixOf (c :: s) = false := by
        rcases hc with rfl | rfl <;> rfl
      rw [hnot]
      rfl
    exact hcons (.inl rfl) (hcons (.inr rfl) hv)
  have happ := find_append_cons (s := '=' :: '"' :: v) (t := b) hquote
  rw [hv'] at happ
  exact happ

theorem ne_nil_of_getLast {x y p q : Str} {c d : Char} (h : p ++ [c] = x ++ (q ++ [d] ++ y))
    (hcd : c ≠ d) : y ≠ [] := by
  rintro rfl
  rw [append_nil, ← append_assoc] at h
  exact hcd (List.cons.inj (append_inj_right' h rfl)).1

theorem exists_quote {m : Nat} {y : Str}
    (h : ((find ['"'] (y ++ '=' :: t)).map Prod.fst).bind number = some m) :
    ∃ r, find ['"'] y = some r := by
  cases hy : find ['"'] y with
  | some r => exact ⟨r, rfl⟩
  | none =>
    rw [find_append_cons (by decide), hy] at h
    obtain ⟨w, hw, hnum⟩ := bind_eq_some_iff.mp h
    simp only [Option.map_map, map_eq_some_iff, Function.comp_apply] at hw
    obtain ⟨r, hr, rfl⟩ := hw
    unfold number at hnum
    obtain ⟨⟨-, hall⟩, -⟩ := ite_none_right_eq_some.mp hnum
    rw [find, if_neg (by simp)] at hr
    obtain ⟨r', -, rfl⟩ := map_eq_some_iff.mp hr
    rw [List.all_eq_true] at hall
    exact absurd (hall '=' (by simp)) (by decide)

theorem attr_sectorSize_set {m : Nat} (hnum : attrValue text numPartitionSectors = some v)
    (hv : find sectorSizeInBytes v = none) (hsize : attr text sectorSizeInBytes = some m) :
    attr (fhXmlSetValue text numPartitionSectors k) sectorSizeInBytes = some m := by
  obtain ⟨a, b, hvalue, hfind⟩ := fhXmlFindValue_of_attrValue hnum
  have htext : text = (a ++ numPartitionSectors) ++ '=' :: '"' :: (v ++ '"' :: b) := by
    rw [append_of_find hfind, append_assoc]
  have hset : fhXmlSetValue text numPartitionSectors k =
      (a ++ numPartitionSectors) ++ '=' :: '"' :: (dec k ++ '"' :: b) := by
    simp [fhXmlSetValue, hvalue]
  have hequals : '=' ∉ sectorSizeInBytes := by decide
  rw [attr, attrValue, htext, find_append_cons hequals] at hsize
  rw [attr, attrValue, hset, find_append_cons hequals]
  cases hfirst : find sectorSizeInBytes (a ++ numPartitionSectors) with
  | none =>
    rw [hfirst, find_sectorSize_behind hv] at hsize
    rw [find_sectorSize_behind find_sectorSize_dec]
    cases hrest : find sectorSizeInBytes ('"' :: b) with
    | none =>
      rw [hrest] at hsize
      cases hsize
    | some r =>
      rw [hrest] at hsize
      simp only [map_some] at hsize ⊢
      split at hsize
      next heq =>
        rw [some.injEq, Prod.mk.injEq] at heq
        rw [heq.2]
        exact hsize
      next => cases hsize
  | some r =>
    -- The value ends in front of the number of sectors, since that one's key does not end it.
    obtain ⟨x, y⟩ := r
    rw [hfirst] at hsize
    have hpre := append_of_find hfirst
    have hlast : numPartitionSectors = "num_partition_sector".toList ++ ['s'] := by decide
    have hkey : sectorSizeInBytes = "SECTOR_SIZE_IN_BYTE".toList ++ ['S'] := by decide
    rw [hlast, ← append_assoc] at hpre
    rcases y with _ | ⟨c₀, _ | ⟨c₁, y⟩⟩
    · rw [hkey] at hpre
      exact absurd rfl (ne_nil_of_getLast hpre (by decide))
    · have hc₀ : c₀ = '=' := by
        by_contra hne
        simp [hne] at hsize
      rw [hc₀, show sectorSizeInBytes ++ ['='] = sectorSizeInBytes ++ ['='] ++ [] by simp] at hpre
      exact absurd rfl (ne_nil_of_getLast hpre (by decide))
    · have hc : c₀ = '=' ∧ c₁ = '"' := by
        simp only [cons_append] at hsize
        split at hsize
        next heq =>
          cases heq
          exact ⟨rfl, rfl⟩
        next => cases hsize
      obtain ⟨rfl, rfl⟩ := hc
      obtain ⟨r, hr⟩ := exists_quote hsize
      simp only [cons_append, find_append_cons (n := ['"']) (c := '=') (by decide), hr]
        at hsize ⊢
      exact hsize

/-- The line gives its sector size as a number that a `uint32_t` holds, and the name of the sector
size does not stand in another value. -/
def Sized (line : Str) : Prop :=
  ∀ text, xmlOriginalData line = some text →
    (∃ v s, attrValue text sectorSizeInBytes = some v ∧ v.length < 64 ∧ number v = some s ∧
      s < 2 ^ 32) ∧
    ∀ v, attrValue text numPartitionSectors = some v → find sectorSizeInBytes v = none

theorem attr_sectorSize (h : Sized line) (htext : xmlOriginalData line = some text) :
    attr text sectorSizeInBytes = some (getNumber line sectorSizeInBytes) := by
  obtain ⟨⟨v, s, hvalue, hlen, hnum, hlt⟩, -⟩ := h text htext
  obtain ⟨t, rfl⟩ := append_of_xmlOriginalData htext
  have hatoi := atoi_of_number hnum
  rw [Nat.min_eq_left (by omega), Nat.mod_eq_of_lt hlt] at hatoi
  rw [getNumber_append hvalue, if_pos hlen, hatoi, attr, hvalue, bind_some, hnum]

theorem attr_sectorSize_fixup (h : Sized line)
    (htext : (if getNumber line numPartitionSectors = n then xmlOriginalData line
      else (xmlOriginalData line).bind (setNumSectors · n)) = some text)
    (hnum : (attr text numPartitionSectors).isSome) :
    attr text sectorSizeInBytes = some (getNumber line sectorSizeInBytes) := by
  split at htext
  next => exact attr_sectorSize h htext
  next =>
    obtain ⟨text', htext', hset⟩ := bind_eq_some_iff.mp htext
    obtain ⟨-, hset⟩ := ite_none_right_eq_some.mp hset
    cases hset
    cases hvalue : attrValue text' numPartitionSectors with
    | none =>
      rw [attr_fhXmlSetValue_none hvalue] at hnum
      cases hnum
    | some v =>
      exact attr_sectorSize_set hvalue ((h text' htext').2 v hvalue) (attr_sectorSize h htext')

/-- The target is sent what the command announces just when its line announces the image. -/
theorem faithful_iff_announces {deviceType : Str} {first second : Option Response}
    {files : Str → Option File} {p p' : Program} {file : File}
    (hcfg : fhSendCfgCmd deviceType first second = some payload)
    (hp : fhParseXmlLine line = some p ∧ p.sparse = false) (hname : p.filename = some name)
    (hfix : fhFixupProgramCmd files p = some (p', file)) (hsized : Sized line) :
    Faithful payload name p' file ↔
      Announces payload name line file.bytes.length p.sectorSize := by
  obtain ⟨hs, hsame, hfile, hn, hxml⟩ := eq_of_fixup hp.1 hfix hname
  have hpos := fhSendCfgCmd_pos hcfg
  have hsize : ∀ text, p'.xmlOriginalData = some text →
      (attr text numPartitionSectors).isSome →
      attr text sectorSizeInBytes = some p'.sectorSize := by
    intro text htext hnum
    rw [hxml] at htext
    rw [hsame, (eq_of_parse hp.1).2.2]
    exact attr_sectorSize_fixup hsized htext hnum
  rw [← hsame] at hs hn hxml ⊢
  have hfixed : FixedUp line name p' file := ⟨hs, hfile, hn, hxml, hsize⟩
  exact ⟨announces_of_faithful hfixed hpos, faithful_of_announces hfixed hpos⟩

def bootLine : Str :=
  ("<program SECTOR_SIZE_IN_BYTES=\"4\" filename=\"boot\" " ++
    "num_partition_sectors=\"0\" start_sector=\"8\"/>\n").toList

theorem bootLine_sized : Sized bootLine := by
  intro text htext
  have hline : xmlOriginalData bootLine = some bootLine.dropLast := by decide
  rw [hline] at htext
  cases htext
  refine ⟨⟨['4'], 4, by decide⟩, ?_⟩
  have hvalue : attrValue bootLine.dropLast numPartitionSectors = some ['0'] := by decide
  intro v hv
  rw [hvalue] at hv
  cases hv
  decide

def bootProgram (numSectors : Nat) (text : Option Str) : Program :=
  { filename := some "boot".toList, sparse := false, sectorSize := 4, numSectors,
    startSector := 8, xmlOriginalData := text }

def bootFile : File := ⟨[1, 2, 3, 4, 5, 6, 7], by decide⟩

theorem parse_bootLine :
    fhParseXmlLine bootLine = some (bootProgram 0 (some bootLine.dropLast)) := by
  decide +kernel

theorem fixup_boot :
    fhFixupProgramCmd (fun _ => some bootFile) (bootProgram 0 (some bootLine.dropLast)) =
      some (bootProgram 2 (some (fhXmlSetValue bootLine.dropLast numPartitionSectors 2)),
        bootFile) := by
  have hset : setNumSectors bootLine.dropLast 2 =
      some (fhXmlSetValue bootLine.dropLast numPartitionSectors 2) := by decide
  have hsectors : fixupSectors 7 4 (strncasecmp (unixFilename "boot".toList) gptEmpty0) = 2 := by
    decide
  simp only [fhFixupProgramCmd, bootProgram, bootFile, bind_eq_bind, bind_some,
    length_cons, length_nil, hsectors]
  rw [if_neg (by decide), if_neg (by decide), hset]

/-- The seven bytes of the file fill two sectors, in pieces of four bytes. -/
theorem faithful_boot : Faithful 4 "boot".toList
    (bootProgram 2 (some (fhXmlSetValue bootLine.dropLast numPartitionSectors 2))) bootFile :=
  (faithful_iff_announces (show fhSendCfgCmd "emmc".toList (some ⟨some .nak, false, 4⟩)
    (some ⟨some .ack, false, 0⟩) = some 4 by decide) ⟨parse_bootLine, rfl⟩
    rfl fixup_boot bootLine_sized).mpr
    ⟨fun h => absurd h (by decide), .inl (by decide), bootLine.dropLast, ['0'],
      by decide, by decide, by decide⟩

/-- With a payload of six bytes zeros are put behind the first six of the seven, past the end of the
buffer, and the seventh is not sent. -/
theorem overrun_boot :
    fhSendCfgCmd "emmc".toList (some ⟨some .nak, false, 6⟩) (some ⟨some .ack, false, 0⟩) =
      some 6 ∧
    fhParseXmlLine bootLine = some (bootProgram 0 (some bootLine.dropLast)) ∧ Sized bootLine ∧
    fhFixupProgramCmd (fun _ => some bootFile) (bootProgram 0 (some bootLine.dropLast)) =
      some (bootProgram 2 (some (fhXmlSetValue bootLine.dropLast numPartitionSectors 2)),
        bootFile) ∧
    (fhSendRawmodeImage 6 "boot".toList 4 bootFile.bytes).sent =
      [1, 2, 3, 4, 5, 6, 0, 0] ∧
    ¬Faithful 6 "boot".toList
      (bootProgram 2 (some (fhXmlSetValue bootLine.dropLast numPartitionSectors 2))) bootFile := by
  refine ⟨by decide, parse_bootLine, bootLine_sized, fixup_boot, by decide, ?_⟩
  rintro ⟨-, -, -, -, -, -, -, -, hover⟩
  exact absurd hover (by decide)

end ModemSupport.Rooter.Firehose
