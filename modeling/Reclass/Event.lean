import Reclass.Text.Decimal

/-!
# Reported events

What the program tells its operator while it works: a level, a line of text, the
topic that it belongs to, and the spans of work during which it was told, outermost
first.
-/

set_option autoImplicit false

namespace Reclass

/-- The severity of an event, mildest first. -/
inductive Level where
  | debug
  | info
  | warn
  | error
  deriving DecidableEq, Repr

namespace Level

/-- The position in the order of severity. -/
def rank : Level → Nat
  | debug => 0
  | info => 1
  | warn => 2
  | error => 3

def label : Level → String
  | debug => "DEBUG"
  | info => "INFO"
  | warn => "WARN"
  | error => "ERROR"

end Level

/-- What an event is about. -/
inductive Topic where
  | program
  | logging
  | classPath
  | hierarchy
  | transform
  | deleter
  | redefinition
  | agent
  deriving DecidableEq, Repr

/-- The name of a topic. All begin with the name of the program. -/
def Topic.path : Topic → String
  | program => "jagent"
  | logging => "jagent::logging"
  | classPath => "jagent::classpath"
  | hierarchy => "jagent::hierarchy"
  | transform => "jagent::transform"
  | deleter => "jagent::deleter"
  | redefinition => "jagent::redefine"
  | agent => "jagent::agent"

/-- A span of work, with what it is about. -/
structure Span where
  topic : Topic
  level : Level
  name : String
  fields : List (String × String)
  deriving DecidableEq, Repr

/-- The span in a line: its name, and its fields between braces. -/
def Span.label (s : Span) : String :=
  let fields := s.fields.map fun f => f.1 ++ "=" ++ f.2
  s.name ++ if fields.isEmpty then "" else "\x7b" ++ String.intercalate " " fields ++ "\x7d"

/-- Something reported. -/
structure Event where
  topic : Topic
  level : Level
  text : String
  spans : List Span := []
  deriving DecidableEq, Repr

namespace Event

/-- The event as told from inside a span of work. -/
def within (span : Span) (e : Event) : Event := { e with spans := span :: e.spans }

/-- A character as a line shows it: one that terminals obey is spelled out. -/
def shownChar (c : Char) : String :=
  if c = '\x07' ∨ c = '\x08' ∨ c = '\x0c' ∨ c = '\x1b' ∨ c = '\x7f' then
    "\\x" ++ Text.hexadecimal 2 c.toNat
  else if '\u0080' ≤ c ∧ c ≤ '\u009f' then
    "\\u\x7b" ++ Text.hexadecimal 1 c.toNat ++ "\x7d"
  else String.singleton c

/-- The line that an event fills in a log. -/
def line (e : Event) : String :=
  let spans := String.intercalate ":" (e.spans.map Span.label)
  let text := String.join (e.text.toList.map shownChar)
  e.level.label ++ " " ++ (if e.spans.isEmpty then "" else spans ++ ": ") ++ text

end Event

end Reclass
