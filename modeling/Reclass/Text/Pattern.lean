/-!
# Patterns

Regular expressions over characters with an order of preference: of two
alternatives the first is preferred, and a repetition prefers to go on or to stop.
A text fits when the preferred way through it, begun at its start, comes to its
end; that another way would have come there does not help.
-/

set_option autoImplicit false

namespace Reclass.Text

/-- A place in a text. -/
structure Cursor where
  /-- The characters in front, last one first. -/
  before : List Char
  after : List Char
  deriving DecidableEq, Repr

/-- What can be asked of a place. -/
inductive Anchor where
  | textStart
  | textEnd
  | lineStart
  | lineEnd
  deriving DecidableEq, Repr

/-- Whether a place is as asked. -/
def Anchor.holdsAt (c : Cursor) : Anchor → Bool
  | textStart => c.before.isEmpty
  | textEnd => c.after.isEmpty
  | lineStart => c.before.isEmpty || c.before.head? = some '\n'
  | lineEnd => c.after.isEmpty || c.after.head? = some '\n'

/-- A regular expression. -/
inductive Pattern where
  | empty
  /-- A character of a set. -/
  | one (accepts : Char → Bool)
  | anchor (a : Anchor)
  | seq (p q : Pattern)
  /-- The first alternative is preferred. -/
  | alt (p q : Pattern)
  /-- Any number of times, of which many are preferred when `greedy`. -/
  | star (greedy : Bool) (p : Pattern)

namespace Pattern

/-- At least once. -/
def plus (greedy : Bool) (p : Pattern) : Pattern := seq p (star greedy p)

/-- At most once. -/
def optional (greedy : Bool) (p : Pattern) : Pattern := if greedy then alt p empty else alt empty p

/-- The places to which the ways through the text from a place lead, each once and
preferred ones first. A repetition ends with a turn that takes no character. -/
def ends : Pattern → Cursor → List Cursor
  | empty, c => [c]
  | one accepts, ⟨before, x :: after⟩ => if accepts x then [⟨x :: before, after⟩] else []
  | one _, ⟨_, []⟩ => []
  | anchor a, c => if a.holdsAt c then [c] else []
  | seq p q, c => ((ends p c).flatMap fun d => ends q d).eraseDups
  | alt p q, c => (ends p c ++ ends q c).eraseDups
  | star greedy p, c =>
    let further := (ends p c).flatMap fun d =>
      if d.after.length < c.after.length then ends (star greedy p) d else [d]
    (if greedy then further ++ [c] else c :: further).eraseDups
  termination_by p c => (sizeOf p, c.after.length)

/-- Whether the preferred way through a text comes to its end. -/
def fits (p : Pattern) (text : List Char) : Bool :=
  (p.ends ⟨[], text⟩).head?.any fun c => c.after.isEmpty

end Pattern

end Reclass.Text
