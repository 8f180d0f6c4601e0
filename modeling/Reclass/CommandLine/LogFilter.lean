import Reclass.CommandLine.LogDirective
import Reclass.Settings.Arguments

/-!
# Which events are logged

A filter is a list of directives between commas. An event passes when the general
directive that is most specific about it lets it pass, or when a directive about
one of the spans in which it is told does. A filter without a directive lets
nothing pass.
-/

set_option autoImplicit false

namespace Reclass.CommandLine

/-- Which events pass. -/
abbrev LogFilter : Type := List LogDirective

namespace LogFilter

/-- The filter that passes events from a level on. -/
def ofLevel (level : Level) : LogFilter := [{ threshold := .ofLevel level }]

/-- Reads a filter; nothing when a directive makes no sense. -/
def parse? (s : String) : Option LogFilter :=
  ((Text.splitOn ',' s.toList).filter fun d => !d.isEmpty).mapM LogDirective.parse?

/-- The filter in force: the one of the environment when it makes sense, or else
the one for the level of the command line. -/
def resolve (env : Environment) (level : Level) : LogFilter :=
  ((env.lookup "RUST_LOG").bind parse?).getD (ofLevel level)

/-- The directives that no later one replaces. -/
def inForce : LogFilter → LogFilter
  | [] => []
  | d :: later => if later.any fun e => e.replaces d then inForce later else d :: inForce later

/-- The most that can pass. A directive that asks for a value of a span needs to be
told about all spans. -/
def most (f : LogFilter) : Threshold :=
  if f.any LogDirective.asksValue then .trace else .greatest (f.map LogDirective.threshold)

/-- How specific a general directive is: the length of its target, with no target
below all, and then its field. -/
def specificity (d : LogDirective) : Nat × List String :=
  (d.target.elim 0 fun t => t.length + 1, (d.field.map FieldTest.name).toList)

/-- Whether a directive is at most as specific as another. -/
def isAtMost (d e : LogDirective) : Bool :=
  let (length, field) := specificity d
  let (length', field') := specificity e
  length < length' || (length = length' && !(field' < field))

/-- What the most specific general directive of those that apply lets pass. -/
def general (f : LogFilter) (applies : LogDirective → Bool) : Threshold :=
  let deciding := (f.inForce.filter fun d => d.isGeneral && applies d).foldl
    (fun best d => if best.all fun b => isAtMost b d then some d else best) none
  deciding.elim .off LogDirective.threshold

/-- What the directives about a span let pass inside it. -/
def within (f : LogFilter) (s : Span) : Threshold :=
  .greatest ((f.inForce.filter fun d => d.coversSpan s && d.fitsSpan s).map LogDirective.threshold)

/-- Whether a span is kept, given those around it that are. -/
def keeps (f : LogFilter) (outer : List Span) (s : Span) : Bool :=
  f.most.passes s.level &&
    (f.any (fun d => d.coversSpan s) || outer.any (fun o => (f.within o).passes s.level) ||
      (f.general fun d => d.coversTopic s.topic).passes s.level)

/-- The spans that are kept, outermost first. -/
def kept (f : LogFilter) (spans : List Span) : List Span :=
  spans.foldl (fun outer s => if f.keeps outer s then outer ++ [s] else outer) []

/-- The fields of an event. -/
def eventFields : List String := ["message"]

/-- Whether an event passes that is told inside of some spans. -/
def passes (f : LogFilter) (e : Event) : Bool :=
  (f.kept e.spans).any (fun s => (f.within s).passes e.level) ||
    (f.general fun d =>
      d.coversTopic e.topic && d.field.all fun t => eventFields.contains t.name).passes e.level

/-- The log of events: a line for each one that passes, with the spans that are
kept. -/
def lines (f : LogFilter) (events : List Event) : List String :=
  (events.filter f.passes).map fun e => { e with spans := f.kept e.spans }.line

end LogFilter

end Reclass.CommandLine
