import Reclass.Event
import Reclass.Text.Pattern.Notation

/-!
# Log directives

A directive says how much of what is told passes: by topic, by the span of work
during which it is told, or by a field of that span.

    level
    target
    target=level
    target[span]=level
    target[span{field=value}]=level

Everything but one part can be left out. A word that is no level is a target. The
value is a pattern for the text of the field.
-/

set_option autoImplicit false

namespace Reclass.CommandLine

/-- How much passes, least first. -/
inductive Threshold where
  | off
  | error
  | warn
  | info
  | debug
  | trace
  deriving DecidableEq, Repr

namespace Threshold

/-- All of them in order. -/
def all : List Threshold := [off, error, warn, info, debug, trace]

/-- The position in the order. -/
def rank : Threshold → Nat
  | off => 0
  | error => 1
  | warn => 2
  | info => 3
  | debug => 4
  | trace => 5

def name : Threshold → String
  | off => "off"
  | error => "error"
  | warn => "warn"
  | info => "info"
  | debug => "debug"
  | trace => "trace"

/-- What passes a level and everything more severe, and no more. -/
def ofLevel : Level → Threshold
  | .error => error
  | .warn => warn
  | .info => info
  | .debug => debug

/-- The one that a word names, in letters of either case, or gives the position of. -/
def ofWord? (word : List Char) : Option Threshold :=
  match Text.count? word with
  | some n => all[n]?
  | none => all.find? fun t => t.name.toList = word.map Char.toLower

/-- Whether what has a level passes. -/
def passes (t : Threshold) (level : Level) : Bool := (ofLevel level).rank ≤ t.rank

/-- The one that lets more pass. -/
def union (t u : Threshold) : Threshold := if t.rank ≤ u.rank then u else t

/-- The one that lets most pass. -/
def greatest (ts : List Threshold) : Threshold := ts.foldl union off

end Threshold

/-- What is asked of a field of a span. -/
structure FieldTest where
  name : String
  /-- The value that is asked for; a field without one only has to be there. -/
  value : Option String := none
  deriving DecidableEq, Repr

namespace FieldTest

/-- Whether a value stands for a number or a truth value. -/
def isScalar (value : String) : Bool :=
  value = "true" || value = "false" || Text.isNumeral value.toList

/-- Reads a test; what follows a second `=` does not count. -/
def parse? (cs : List Char) : Option FieldTest :=
  match (Text.splitOn '=' cs).map String.ofList with
  | [name] => if name = "" then none else some { name }
  | name :: value :: _ =>
    if isScalar value || (Text.Pattern.parse? value.toList).isSome then
      some { name, value := some value }
    else none
  | [] => none

/-- Whether the text of a field is as asked. Numbers and truth values are no
texts. -/
def fits (t : FieldTest) (text : String) : Bool :=
  match t.value with
  | none => true
  | some value =>
    !isScalar value && (Text.Pattern.parse? value.toList).any fun p => p.fits text.toList

end FieldTest

/-- A directive. -/
structure LogDirective where
  /-- The beginning of the names of its topics. -/
  target : Option String := none
  span : Option String := none
  field : Option FieldTest := none
  threshold : Threshold := .trace
  deriving DecidableEq, Repr

namespace LogDirective

/-- A stretch of a text, each character with the one that stands in its place when
the text is trimmed. -/
abbrev Stretch : Type := List (Char × Char)

/-- The characters themselves. -/
def chars (s : Stretch) : List Char := s.map Prod.fst

/-- A stretch up to the first sign of some that its trimmed characters hold, and from
there on. -/
def cut (signs : List Char) (s : Stretch) : Stretch × Stretch :=
  (s.takeWhile fun c => !signs.contains c.2, s.dropWhile fun c => !signs.contains c.2)

/-- Adds the level that a word names; without a word everything passes. -/
def withLevel (d : LogDirective) (word : List Char) : Option LogDirective :=
  if word.isEmpty then some d
  else (Threshold.ofWord? word).map fun threshold => { d with threshold }

/-- Reads what follows the bracket that closes a span. -/
def readLevel (d : LogDirective) (beyond : List Char) : Stretch → Option LogDirective
  | [] => some d
  | (_, '=') :: word => d.withLevel (chars word ++ beyond)
  | _ => none

/-- Reads what follows the bracket that opens a span. -/
def readSpan (d : LogDirective) (beyond : List Char) (s : Stretch) : Option LogDirective :=
  let (name, rest) := cut [']', '\x7b'] s
  let span := String.ofList (chars name)
  match rest with
  | (_, ']') :: rest => { d with span := some span }.readLevel beyond rest
  | (_, '\x7b') :: rest =>
    match cut ['\x7d'] rest with
    | (test, _ :: (_, ']') :: rest) => do
      let field ← FieldTest.parse? (chars test)
      { d with span := if span = "" then none else some span, field := some field }.readLevel
        beyond rest
    | _ => none
  | _ => none

/-- Whether a directive can begin with a character, other than the bracket of a
span. -/
def beginsWord (c : Char) : Bool :=
  Text.Alphanumeric.isAlphanumeric c || c = '-' || c = ':' || c = '_'

/-- Reads a directive. The signs in it are found where they stand when the text is
trimmed, but what stands between them is taken from the text as it is, so that
blanks in front shift everything. -/
def parse? (text : List Char) : Option LogDirective :=
  let trimmed := Text.trim text
  let beyond := text.drop trimmed.length
  match text.zip trimmed with
  | [] => none
  | (_, '[') :: rest => ({} : LogDirective).readSpan beyond rest
  | (c, sign) :: rest =>
    if !beginsWord sign then none
    else
      let (word, rest) := cut ['=', '['] ((c, sign) :: rest)
      let target := some (String.ofList (chars word))
      match rest with
      | [] =>
        let word := chars word ++ beyond
        match Threshold.ofWord? word with
        | some threshold => some { threshold }
        | none => some { target := some (String.ofList word) }
      | (_, '=') :: word => { target : LogDirective }.withLevel (chars word ++ beyond)
      | _ :: rest => { target : LogDirective }.readSpan beyond rest

/-- Whether two directives are about the same, so that the later one replaces the
earlier one. -/
def replaces (later earlier : LogDirective) : Bool :=
  later.target = earlier.target && later.span = earlier.span && later.field = earlier.field

/-- Whether a topic is one of the target. -/
def coversTopic (d : LogDirective) (t : Topic) : Bool :=
  d.target.all fun target => Text.startsWith t.path target

/-- Whether the directive is about spans. -/
def isAboutSpans (d : LogDirective) : Bool := d.span.isSome || d.field.isSome

/-- Whether the directive asks for a value. -/
def asksValue (d : LogDirective) : Bool := d.field.any fun t => t.value.isSome

/-- Whether the directive decides about what is told outside of spans too. -/
def isGeneral (d : LogDirective) : Bool := d.span.isNone && !d.asksValue

/-- Whether the directive is about a span, going by its name and the names of its
fields. -/
def coversSpan (d : LogDirective) (s : Span) : Bool :=
  d.isAboutSpans && d.coversTopic s.topic && d.span.all (· = s.name) &&
    d.field.all fun t => s.fields.any fun f => f.1 = t.name

/-- Whether the fields of a span have the value that is asked for. -/
def fitsSpan (d : LogDirective) (s : Span) : Bool :=
  d.field.all fun t => s.fields.any fun f => f.1 = t.name && t.fits f.2

end LogDirective

end Reclass.CommandLine
