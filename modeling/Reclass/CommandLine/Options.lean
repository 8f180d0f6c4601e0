import Reclass.Event
import Reclass.Files.Path

/-!
# Scanning options

Options begin with two dashes and a name, or with one dash and a letter. A value
follows behind `=`, behind the letter, or as the next word; an option for several
values takes all words up to the next one that begins with a dash. Behind a word
`--` everything is a plain word. A dash alone is a plain word, too.

Of two mistakes, or a mistake and a request for help, the one met first decides.
An option with values in words of their own is complete, and looked at, when the
next option or plain word comes.
-/

set_option autoImplicit false

namespace Reclass.CommandLine

/-- Why there is nothing to execute. -/
inductive Usage where
  /-- Help was asked for. -/
  | help
  | invalid
  deriving DecidableEq, Repr

def Usage.exitCode : Usage → Nat
  | help => 0
  | invalid => 2

/-- How many values an option takes each time that it is given. -/
inductive Arity where
  | none
  | one
  | several
  deriving DecidableEq, Repr

/-- An option. -/
structure OptionSpec where
  name : String
  letter : Option Char := Option.none
  arity : Arity
  /-- Whether it can be given more than once. -/
  repeats : Bool := false
  /-- Whether a text is a value for it. -/
  accepts : String → Bool := fun _ => true

/-- What has been found: values by option, oldest first, and plain words. -/
structure Scanned where
  values : List (String × String) := []
  flags : List String := []
  words : List String := []
  deriving DecidableEq, Repr

namespace Scanned

/-- All values of an option. -/
def all (s : Scanned) (name : String) : List String :=
  (s.values.filter fun v => v.1 = name).map Prod.snd

/-- The value of an option that is given at most once. -/
def value? (s : Scanned) (name : String) : Option String := (s.all name).head?

/-- Whether an option is given that takes no value. -/
def isSet (s : Scanned) (name : String) : Bool := s.flags.contains name

end Scanned

/-- An option that takes its values from words of their own, and those so far. -/
structure Pending where
  spec : OptionSpec
  values : List String := []

namespace Pending

/-- Whether another plain word is a value of the option. -/
def takesMore (p : Pending) : Bool := p.values.isEmpty || p.spec.arity = .several

/-- Takes a word as a value. -/
def take (p : Pending) (word : String) : Pending := { p with values := p.values ++ [word] }

end Pending

namespace Scanned

/-- Adds an option with its values. -/
def addOption (s : Scanned) (spec : OptionSpec) (values : List String) : Except Usage Scanned :=
  if values.isEmpty ∨ !values.all spec.accepts then .error .invalid
  else if !spec.repeats ∧ !(s.all spec.name).isEmpty then .error .invalid
  else .ok { s with values := s.values ++ values.map fun value => (spec.name, value) }

/-- Adds an option that takes no value. -/
def addFlag (s : Scanned) (name : String) : Except Usage Scanned :=
  if s.isSet name then .error .invalid else .ok { s with flags := s.flags ++ [name] }

/-- Adds the option that was taking values. -/
def complete (s : Scanned) : Option Pending → Except Usage Scanned
  | some p => s.addOption p.spec p.values
  | none => .ok s

/-- Adds a plain word; more than `room` of them are a mistake. -/
def addWord (s : Scanned) (room : Nat) (word : String) : Except Usage Scanned :=
  if s.words.length < room then .ok { s with words := s.words ++ [word] } else .error .invalid

/-- Begins an option, with the value that is attached to it. -/
def beginOption (s : Scanned) (spec : OptionSpec) (attached : Option String) :
    Except Usage (Scanned × Option Pending) := do
  match spec.arity, attached with
  | .none, none => return (← s.addFlag spec.name, none)
  | .none, some _ => throw .invalid
  | _, some value => return (← s.addOption spec [value], none)
  | _, none => return (s, some { spec })

end Scanned

/-- Reads a word that begins with two dashes: the option, and the value behind
`=`. -/
def longOption (specs : List OptionSpec) (body : List Char) :
    Except Usage (OptionSpec × Option String) :=
  let (name, attached) := match Text.splitOnce '=' body with
    | some (name, value) => (name, some (String.ofList value))
    | none => (body, none)
  if name = "help".toList then .error (if attached.isNone then .help else .invalid)
  else match specs.find? fun spec => spec.name.toList = name with
    | some spec => .ok (spec, attached)
    | none => .error .invalid

/-- Reads a word that begins with one dash: the option, and the value behind its
letter. -/
def shortOption (specs : List OptionSpec) :
    List Char → Except Usage (OptionSpec × Option String)
  | [] => .error .invalid
  | 'h' :: _ => .error .help
  | letter :: rest =>
    match specs.find? fun spec => spec.letter = some letter with
    | none => .error .invalid
    | some spec =>
      match rest with
      | [] => .ok (spec, none)
      | '=' :: value => .ok (spec, some (String.ofList value))
      | value => .ok (spec, some (String.ofList value))

/-- Reads a word that begins with a dash. -/
def dashed (specs : List OptionSpec) (word : String) :
    Except Usage (OptionSpec × Option String) :=
  match word.toList with
  | '-' :: '-' :: body => longOption specs body
  | '-' :: body => shortOption specs body
  | _ => .error .invalid

/-- Whether a word is an option. -/
def isDashed (word : String) : Bool := Text.startsWith word "-" && word ≠ "-"

/-- Where a scan has come to: what was found, the option that takes values, and the
words that are left. -/
structure Position where
  found : Scanned
  pending : Option Pending
  rest : List String

/-- Scans words, up to `room` plain ones; a scan without `room` ends in front of the
first plain word. `plainOnly` holds behind `--`. -/
def scanFrom (specs : List OptionSpec) (room : Option Nat) :
    (plainOnly : Bool) → Option Pending → Scanned → List String → Except Usage Position
  | _, pending, s, [] => return ⟨s, pending, []⟩
  | true, pending, s, word :: words => do
    match room with
    | none => throw .invalid
    | some n =>
      let s ← (← s.complete pending).addWord n word
      scanFrom specs room true none s words
  | false, pending, s, word :: words => do
    if word = "--" then
      scanFrom specs room true pending s words
    else if isDashed word then
      let s ← s.complete pending
      let (spec, attached) ← dashed specs word
      let (s, pending) ← s.beginOption spec attached
      scanFrom specs room false pending s words
    else if pending.any Pending.takesMore then
      scanFrom specs room false (pending.map fun p => p.take word) s words
    else match room with
      | none => return ⟨s, pending, word :: words⟩
      | some n =>
        let s ← (← s.complete pending).addWord n word
        scanFrom specs room false none s words

/-- Scans words up to the first plain one. -/
def scanUntilWord (specs : List OptionSpec) (words : List String) : Except Usage Position :=
  scanFrom specs none false none {} words

/-- Scans all words, of which `room` can be plain. -/
def scanAll (specs : List OptionSpec) (room : Nat) (words : List String) :
    Except Usage Scanned := do
  let p ← scanFrom specs (some room) false none {} words
  p.found.complete p.pending

end Reclass.CommandLine
