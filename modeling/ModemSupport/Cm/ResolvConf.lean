import ModemSupport.Lib.Gets

/-! The entries of `/etc/resolv.conf` that `update_resolv_conf` (`util.c`) writes for an IP type and
an interface. -/

namespace ModemSupport.Cm.ResolvConf

open Lib.Text Lib.Gets

structure IfName where
  chars : List Char
  ne_nil : chars ≠ []
  short : chars.length < 16
  plain : ∀ c ∈ chars, c ≠ '/' ∧ c ≠ ':' ∧ isspace c = false

structure Address where
  chars : List Char
  short : chars.length < 128
  plain : ∀ c ∈ chars, isspace c = false

def decInt (i : Int) : List Char := if i < 0 then '-' :: dec i.natAbs else dec i.natAbs

/-- The text of `dns_tag`, of which `snprintf` keeps 63 characters. -/
def dnsTagText (iptype : Int32) (ifname : IfName) : List Char :=
  ['#', ' ', 'I', 'P', 'V'] ++ decInt iptype.toInt ++ ' ' :: ifname.chars

def dnsTag (iptype : Int32) (ifname : IfName) : List Char := (dnsTagText iptype ifname).take 63

def nameserver : List Char := ['n', 'a', 'm', 'e', 's', 'e', 'r', 'v', 'e', 'r', ' ']

/-- A line that is written, without its newline. -/
def entry (tag : List Char) (dns : Address) : List Char :=
  nameserver ++ dns.chars ++ ' ' :: tag

def entries (tag : List Char) (dns1 dns2 : Option Address) : List (List Char) :=
  (dns1.toList ++ dns2.toList).map (entry tag)

def maxDns : Nat := 16

def dnsLineSize : Nat := 254

def chomp (dnsLine : List Char) : List Char :=
  if 1 < dnsLine.length ∧ dnsLine.getLast? = some '\n' then dnsLine.dropLast else dnsLine

def tagged (tag dnsLine : List Char) : Bool := (find tag dnsLine).isSome

/-- The loop that reads the file, with `free` of `dns_info` left: whether `dns_match` is counted,
and `dns_info`. -/
def readFile (tag : List Char) : (free : Nat) → List (List Char) → Bool × List (List Char)
  | _, [] => (false, [])
  | 0, _ :: _ => (false, [])
  | free + 1, dnsLine :: rest =>
    if tagged tag (chomp dnsLine) then (true, (readFile tag (free + 1) rest).2)
    else
      ((readFile tag free rest).1, chomp dnsLine :: (readFile tag free rest).2)

/-- The contents of the file after the call.  It is a text, without zero bytes, that exists and can
be read and written. -/
def updateResolvConf (iptype : Int32) (ifname : IfName) (dns1 dns2 : Option Address)
    (file : List Char) : List Char :=
  let tag := dnsTag iptype ifname
  let r := readFile tag maxDns (reads dnsLineSize file)
  if dns1.isNone ∧ r.1 = false then file
  else unlines (entries tag dns1 dns2 ++ r.2)

/-- A line that has been written for the IP type and the interface of a tag. -/
def Own (tag line : List Char) : Prop := ∃ dns, line = entry tag dns

def addressOf (tag line : List Char) : List Char :=
  (line.drop nameserver.length).take
    (line.length - nameserver.length - (tag.length + 1))

theorem addressOf_entry {tag : List Char} {dns : Address} :
    addressOf tag (entry tag dns) = dns.chars := by
  rw [addressOf, entry, List.append_assoc, List.drop_left]
  apply List.take_left'
  simp only [List.length_append, List.length_cons]
  omega

local instance decidablePlain (s : List Char) : Decidable (∀ c ∈ s, isspace c = false) :=
  List.decidableBAll (fun c => isspace c = false) s

instance (tag line : List Char) : Decidable (Own tag line) :=
  decidable_of_iff ((addressOf tag line).length < 128 ∧
      (∀ c ∈ addressOf tag line, isspace c = false) ∧
      line = nameserver ++ addressOf tag line ++ ' ' :: tag)
    ⟨fun h => ⟨⟨addressOf tag line, h.1, h.2.1⟩, h.2.2⟩, by
      rintro ⟨dns, rfl⟩
      rw [addressOf_entry]
      exact ⟨dns.short, dns.plain, rfl⟩⟩

def foreign (tag file : List Char) : List (List Char) :=
  (lines file).filter fun line => ¬ Own tag line

/-- The new entries stand in front of the lines of the others, and a second call changes nothing. -/
structure Correct (iptype : Int32) (ifname : IfName) (dns1 dns2 : Option Address)
    (file : List Char) : Prop where
  content : lines (updateResolvConf iptype ifname dns1 dns2 file) =
    entries (dnsTag iptype ifname) dns1 dns2 ++ foreign (dnsTag iptype ifname) file
  again : updateResolvConf iptype ifname dns1 dns2
      (updateResolvConf iptype ifname dns1 dns2 file) =
    updateResolvConf iptype ifname dns1 dns2 file

end ModemSupport.Cm.ResolvConf
