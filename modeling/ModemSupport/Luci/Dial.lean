import ModemSupport.Lib.Pattern
import ModemSupport.Lib.Transition

/-! The dialling of luci-app-modem (`/etc/init.d/modem`): `start_service` with `enable_dial` 1,
which goes through the dial-config sections with `dial`, and the lines of `config.cache`. -/

namespace ModemSupport.Luci.Dial

open Lib.Pattern Lib.Transition

/-- The characters of the name of a network device; the dot is special in a pattern. -/
def ifnameChar (c : Char) : Bool := c.isAlphanum || c == '.' || c == '-' || c == '_'

def isIfname (network : List Char) : Bool :=
  network.all ifnameChar && network.length < 16 && network.head? != some '-'

def isId (id : List Char) : Bool := id.all Char.isAlphanum && id.length == 32

structure Config where
  id : List Char
  enable : Bool
  network : List Char
  id_ok : isId id = true
  network_ok : isIfname network = true
  deriving DecidableEq

def Config.line (c : Config) : List Char := record c.network c.id

structure Dialled where
  config : Config
  modemNo : Nat
  deriving DecidableEq

/-- The dial-config sections in uci and those that `config_load` has read, of which `rest` are
still to come; the lines of `config.cache`, which has none when it is missing; the variable
`modem_no`; and the dials of this run and of the one before. -/
structure State where
  uci : List Config
  loaded : List Config
  rest : List Config
  cache : List (List Char)
  modemNo : Option Nat
  dialled : List Dialled
  previous : List Dialled

def init : State := ⟨[], [], [], [], none, [], []⟩

/-- `get_modem_no`, which leaves `modem_no` alone when no modem has the network. -/
def getModemNo (modems : List (List Char)) (network : List Char) (modemNo : Option Nat) :
    Option Nat :=
  match modems.findIdx? (· = network) with
  | some i => some i
  | none => modemNo

def delConfig (uci : List Config) (kept : List (List Char)) (config : List Char) :
    List (List Char) :=
  if (uci.take 2).any fun c => c.id = field2 config then kept else delete (field2 config) kept

def delDialConfig (uci : List Config) (cache : List (List Char)) : List (List Char) :=
  cache.foldl (delConfig uci) cache

/-- `stop_dial`; a run changes no `network`, so that uci still has what `config_load` has read. -/
def stopDial (modems : List (List Char)) (c : Config) (s : State) : State :=
  if s.cache.any (search c.network) then
    { s with cache := delete c.id s.cache, modemNo := getModemNo modems c.network s.modemNo }
  else s

def State.disable (s : State) (c : Config) : State :=
  { s with uci := s.uci.map fun x => if x.id = c.id then { x with enable := false } else x }

def dial (modems : List (List Char)) (c : Config) (s : State) : State :=
  if c.enable = false then stopDial modems c s
  else
    let s := { s with modemNo := getModemNo modems c.network s.modemNo }
    match s.modemNo with
    | none => s
    | some no =>
      let dialled := s.dialled ++ [⟨c, no⟩]
      if s.cache.any (search c.network) = false then
        { s with cache := s.cache ++ [c.line], dialled := dialled }
      else if c.id ≠ lookup c.network s.cache then s.disable c
      else { s with dialled := dialled }

/-- `start_service` up to `config_foreach dial`. -/
def startService (s : State) : State :=
  { s with
    loaded := s.uci, rest := s.uci, cache := delDialConfig s.uci s.cache, modemNo := none
    dialled := [], previous := s.dialled }

/-- Between two runs the sections are edited in any way; in a run they are dialled one by one. -/
inductive Label where
  | edit (uci : List Config)
  | start
  | dial

def step (modems : List (List Char)) (s : State) : Label → Option State
  | .edit uci =>
    if s.rest = [] ∧ (uci.map Config.id).Nodup then some { s with uci := uci } else none
  | .start => if s.rest = [] then some (startService s) else none
  | .dial =>
    match s.rest with
    | [] => none
    | c :: rest => some (dial modems c { s with rest := rest })

/-- What holds at the end of a run. -/
structure Sound (modems : List (List Char)) (s : State) : Prop where
  right : ∀ d ∈ s.dialled, d.config ∈ s.loaded ∧ d.config.enable = true ∧
    modems[d.modemNo]? = some d.config.network
  once : (s.dialled.map fun d => d.config.network).Nodup
  alone : ∀ c ∈ s.loaded, c.enable = true → c.network ∈ modems →
    (∀ x ∈ s.loaded, x.enable = true → x.network = c.network → x = c) →
    ∃ d ∈ s.dialled, d.config = c
  lines : s.cache.Perm (s.dialled.map fun d => d.config.line)
  kept : ∀ c ∈ s.loaded, c.enable = true →
    (∃ d ∈ s.previous, d.config.id = c.id ∧ d.config.network = c.network) →
    ∃ d ∈ s.dialled, d.config = c

/-- A config that need not dial: another one that is enabled has its network, and it has not
dialled for it in the run before. -/
def State.GivesWay (s : State) (c : Config) : Prop :=
  (∃ x ∈ s.loaded, x.enable = true ∧ x.network = c.network ∧ x ≠ c) ∧
    ∀ d ∈ s.previous, d.config.id = c.id → d.config.network ≠ c.network

instance (s : State) (c : Config) : Decidable (s.GivesWay c) :=
  inferInstanceAs (Decidable (_ ∧ _))

/-- An enabled config has no line for another network; when a modem has its network, no line is
found for it, or only its own one, or it need not dial; when no modem has it, `modem_no` is empty
or a line is found. A line is found for the network of a disabled config, or it has none. -/
def Meets (modems : List (List Char)) (s : State) (c : Config) : Prop :=
  if c.enable = true then
    (∀ l ∈ s.cache, field2 l = c.id → l = c.line) ∧
      if ∃ network ∈ modems, network = c.network then
        s.cache.any (search c.network) = false ∨ lookup c.network s.cache = c.id ∨ s.GivesWay c
      else s.modemNo = none ∨ s.cache.any (search c.network) = true
  else s.cache.any (search c.network) = true ∨ ∀ l ∈ s.cache, field2 l ≠ c.id

instance (modems : List (List Char)) (s : State) (c : Config) : Decidable (Meets modems s c) :=
  inferInstanceAs (Decidable (ite _ _ _))

def Ok (modems : List (List Char)) (s : State) : Label → Prop
  | .dial => ∀ c ∈ s.rest.head?, Meets modems s c
  | .edit _ | .start => True

instance decidableOk (modems : List (List Char)) : ∀ s l, Decidable (Ok modems s l)
  | s, .dial => inferInstanceAs (Decidable (∀ c ∈ s.rest.head?, Meets modems s c))
  | _, .edit _ | _, .start => inferInstanceAs (Decidable True)

end ModemSupport.Luci.Dial
