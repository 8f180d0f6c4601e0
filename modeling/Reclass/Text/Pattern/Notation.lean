import Reclass.Text.Alphanumeric
import Reclass.Text.Pattern
import Reclass.Text.Split

/-!
# How patterns are written

Characters stand for themselves, a dot for any of a line, and brackets for one of a
set. Behind an item `*`, `+` and `?` repeat it, and another `?` prefers few turns.
Parentheses group, a bar separates alternatives, and `(?i)` and its like change
how the rest of a group is read. Braces have no meaning here and are refused.
-/

set_option autoImplicit false

namespace Reclass.Text.Pattern

/-- How the rest of a group is read. -/
structure Mode where
  /-- Small and capital letters are the same. -/
  foldsCase : Bool := false
  /-- A dot stands for the end of a line, too. -/
  dotIsAll : Bool := false
  /-- `^` and `$` ask for the ends of lines. -/
  byLine : Bool := false
  /-- Few turns are preferred, and many behind another `?`. -/
  lazy : Bool := false

/-- The set, and the other case of its letters when case is folded. -/
def Mode.set (m : Mode) (accepts : Char → Bool) : Char → Bool := fun c =>
  accepts c || (m.foldsCase && (accepts c.toLower || accepts c.toUpper))

/-- What a backslash and the characters behind it stand for. -/
inductive Escaped where
  | char (c : Char)
  | set (accepts : Char → Bool)
  | anchor (a : Anchor)

/-- The sets with a letter of their own; the capital letter stands for the rest of
the characters. -/
def letterSet? : Char → Option (Char → Bool)
  | 'd' => some Char.isDigit
  | 's' => some isBlank
  | 'w' => some fun c => Alphanumeric.isAlphanumeric c || c = '_'
  | _ => none

/-- The value of a digit of base sixteen. -/
def hexDigit? (c : Char) : Option Nat :=
  if c.isDigit then some (c.toNat - '0'.toNat)
  else if 'a' ≤ c ∧ c ≤ 'f' then some (c.toNat - 'a'.toNat + 10)
  else if 'A' ≤ c ∧ c ≤ 'F' then some (c.toNat - 'A'.toNat + 10)
  else none

/-- The character with the number that `n` digits give, and what follows. -/
def numbered (n : Nat) (cs : List Char) : Option (Escaped × List Char) := do
  if cs.length < n then none
  let digits ← (cs.take n).mapM hexDigit?
  let number := digits.foldl (fun v d => v * 16 + d) 0
  if number.isValidChar then some (.char (Char.ofNat number), cs.drop n) else none

/-- Reads what stands behind a backslash. -/
def readEscape : List Char → Option (Escaped × List Char)
  | [] => none
  | c :: rest =>
    match c with
    | 'a' => some (.char '\x07', rest)
    | 'f' => some (.char '\x0C', rest)
    | 'n' => some (.char '\n', rest)
    | 'r' => some (.char '\r', rest)
    | 't' => some (.char '\t', rest)
    | 'v' => some (.char '\x0B', rest)
    | 'x' => numbered 2 rest
    | 'u' => numbered 4 rest
    | 'U' => numbered 8 rest
    | 'A' => some (.anchor .textStart, rest)
    | 'z' => some (.anchor .textEnd, rest)
    | _ =>
      match letterSet? c, letterSet? c.toLower with
      | some accepts, _ => some (.set accepts, rest)
      | none, some accepts => some (.set fun c => !accepts c, rest)
      | none, none =>
        if c.isAlphanum ∨ c = '<' ∨ c = '>' ∨ 127 < c.toNat then none else some (.char c, rest)

/-- The sets with a name. -/
def namedSet? (name : List Char) : Option (Char → Bool) :=
  match String.ofList name with
  | "alnum" => some Char.isAlphanum
  | "alpha" => some Char.isAlpha
  | "ascii" => some fun c => c.toNat < 128
  | "blank" => some fun c => c = ' ' || c = '\t'
  | "cntrl" => some fun c => c.toNat < 32 || c.toNat = 127
  | "digit" => some Char.isDigit
  | "graph" => some fun c => '!' ≤ c && c ≤ '~'
  | "lower" => some Char.isLower
  | "print" => some fun c => ' ' ≤ c && c ≤ '~'
  | "punct" => some fun c => '!' ≤ c && c ≤ '~' && !c.isAlphanum
  | "space" => some fun c => c = ' ' || ('\t' ≤ c && c ≤ '\r')
  | "upper" => some Char.isUpper
  | "word" => some fun c => c.isAlphanum || c = '_'
  | "xdigit" => some fun c => (hexDigit? c).isSome
  | _ => none

/-- A mark in front of a set that takes all other characters. -/
def complement (negated : Bool) (accepts : Char → Bool) : Char → Bool := fun c =>
  accepts c != negated

/-- Whether a mark is in front, and what follows. -/
def readMark (mark : Char) (cs : List Char) : Bool × List Char :=
  if cs.head? = some mark then (true, cs.drop 1) else (false, cs)

/-- A set with a name, behind `[:`. -/
def readNamed (cs : List Char) : Option ((Char → Bool) × List Char) := do
  let (negated, cs) := readMark '^' cs
  let (name, rest) ← splitOnce ':' cs
  match rest with
  | ']' :: rest => return (complement negated (← namedSet? name), rest)
  | _ => none

/-- A character in a set, or a set in it. -/
def readMember : List Char → Option (Escaped × List Char)
  | '\\' :: cs => readEscape cs
  | c :: cs => some (.char c, cs)
  | [] => none

/-- Reads a set behind its opening bracket and mark. A bracket that closes is a
member when it comes `first`. -/
def readSet : (fuel : Nat) → (first : Bool) → (accepts : Char → Bool) → List Char →
    Option ((Char → Bool) × List Char)
  | 0, _, _, _ => none
  | fuel + 1, first, accepts, cs =>
    let add (more : Char → Bool) : Char → Bool := fun c => accepts c || more c
    match cs with
    | '&' :: '&' :: _ | '-' :: '-' :: _ | '~' :: '~' :: _ => none
    | '[' :: inner =>
      match inner.head?, readNamed (inner.drop 1) with
      | some ':', some (named, rest) => readSet fuel false (add named) rest
      | _, _ => do
        let (negated, inner) := readMark '^' inner
        let (nested, rest) ← readSet fuel true (fun _ => false) inner
        readSet fuel false (add (complement negated nested)) rest
    | _ =>
      if cs.head? = some ']' && !first then some (accepts, cs.drop 1)
      else do
        match ← readMember cs with
        | (.anchor _, _) => none
        | (.set more, rest) => readSet fuel false (add more) rest
        | (.char low, rest) =>
          let single := readSet fuel false (add fun c => c = low) rest
          match rest with
          | '-' :: ']' :: _ | '-' :: '-' :: _ => single
          | '-' :: bound => do
            match ← readMember bound with
            | (.char high, rest) =>
              if low ≤ high then readSet fuel false (add fun c => low ≤ c && c ≤ high) rest
              else none
            | _ => none
          | _ => single

/-- Reads the letters of a change of mode, up to the `:` or `)` behind them. -/
def readMode (m : Mode) : (off : Bool) → List Char → Option (Mode × List Char)
  | _, [] => none
  | off, c :: cs =>
    match c with
    | ':' | ')' => some (m, c :: cs)
    | '-' => if off then none else readMode m true cs
    | 'i' => readMode { m with foldsCase := !off } off cs
    | 's' => readMode { m with dotIsAll := !off } off cs
    | 'm' => readMode { m with byLine := !off } off cs
    | 'U' => readMode { m with lazy := !off } off cs
    | 'u' => if off then none else readMode m off cs
    | _ => none

/-- A group under way: the alternatives before the current one and its items, the last
ones first. -/
structure Open where
  alternatives : List Pattern := []
  items : List Pattern := []

namespace Open

/-- The items one after the other. -/
def sequence (o : Open) : Pattern :=
  o.items.foldl (fun rest item => match rest with
    | .empty => item
    | _ => .seq item rest) .empty

def add (o : Open) (p : Pattern) : Open := { o with items := p :: o.items }

/-- Begins another alternative. -/
def next (o : Open) : Open := ⟨o.sequence :: o.alternatives, []⟩

/-- The pattern of the group. -/
def pattern (o : Open) : Pattern := o.alternatives.foldl (fun rest p => .alt p rest) o.sequence

/-- Repeats the last item; there has to be one. -/
def repeated (o : Open) (turns : Pattern → Pattern) : Option Open :=
  match o.items with
  | [] => none
  | p :: items => some { o with items := turns p :: items }

end Open

/-- Reads what is behind an opening parenthesis: a mark, and the mode that the group
or, without a group, the rest is read in. -/
def readGroupMark (m : Mode) (cs : List Char) : Option (Mode × Bool × List Char) :=
  let name := fun (cs : List Char) => do
    let (name, rest) ← splitOnce '>' cs
    let isName := !name.isEmpty && !(name.head?.any Char.isDigit) &&
      name.all fun c => Alphanumeric.isAlphanumeric c || c = '_'
    if isName then some (m, true, rest) else none
  match cs with
  | '?' :: 'P' :: '<' :: cs => name cs
  | '?' :: '<' :: cs => name cs
  | '?' :: cs => do
    match ← readMode m false cs with
    | (m, ':' :: rest) => some (m, true, rest)
    | (m, ')' :: rest) => some (m, false, rest)
    | _ => none
  | cs => some (m, true, cs)

/-- Reads a group up to the parenthesis that closes it, or to the end. -/
def readGroup : (fuel : Nat) → Mode → Open → List Char → Option (Pattern × List Char)
  | 0, _, _, _ => none
  | fuel + 1, m, o, cs =>
    let repeated (turns : Bool → Pattern → Pattern) (rest : List Char) := do
      let (second, rest) := readMark '?' rest
      readGroup fuel m (← o.repeated (turns (m.lazy == second))) rest
    match cs with
    | [] => some (o.pattern, [])
    | c :: rest =>
      match c with
      | ')' => some (o.pattern, cs)
      | '|' => readGroup fuel m o.next rest
      | '*' => repeated star rest
      | '+' => repeated plus rest
      | '?' => repeated optional rest
      | '\x7b' | '\x7d' => none
      | '.' => readGroup fuel m (o.add (one fun c => m.dotIsAll || c != '\n')) rest
      | '^' =>
        readGroup fuel m (o.add (anchor (if m.byLine then .lineStart else .textStart))) rest
      | '$' => readGroup fuel m (o.add (anchor (if m.byLine then .lineEnd else .textEnd))) rest
      | '(' => do
        let (inner, isGroup, rest) ← readGroupMark m rest
        if isGroup then
          match ← readGroup fuel inner {} rest with
          | (p, ')' :: rest) => readGroup fuel m (o.add p) rest
          | _ => none
        else readGroup fuel inner o rest
      | '[' => do
        let (negated, rest) := readMark '^' rest
        let (accepts, rest) ← readSet cs.length true (fun _ => false) rest
        readGroup fuel m (o.add (one (complement negated (m.set accepts)))) rest
      | '\\' => do
        match ← readEscape rest with
        | (.char c, rest) => readGroup fuel m (o.add (one (m.set fun d => d = c))) rest
        | (.set accepts, rest) => readGroup fuel m (o.add (one accepts)) rest
        | (.anchor a, rest) => readGroup fuel m (o.add (anchor a)) rest
      | c => readGroup fuel m (o.add (one (m.set fun d => d = c))) rest

/-- Reads a pattern. -/
def parse? (cs : List Char) : Option Pattern :=
  match readGroup (cs.length + 1) {} {} cs with
  | some (p, []) => some p
  | _ => none

end Reclass.Text.Pattern
