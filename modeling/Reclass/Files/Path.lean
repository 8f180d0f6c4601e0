import Reclass.Text.Split

/-!
# Paths

A path is a text with slashes. Its steps are the parts between slashes; empty
parts are ignored, and so is a part `.` except at the front of a relative path.
-/

set_option autoImplicit false

namespace Reclass

/-- A path as it is written. -/
abbrev Path : Type := String

namespace Path

open Text (splitOn)

/-- Whether the path starts at the root. -/
def isAbsolute (p : Path) : Bool := p.toList.head? = some '/'

/-- The parts between slashes. -/
def parts (p : Path) : List String := (splitOn '/' p.toList).map String.ofList

/-- The parts that name something, `.` and `..` among them. -/
def steps (p : Path) : List String := p.parts.filter (· ≠ "")

/-- The steps that remain when a part `.` after the front is ignored. -/
def components (p : Path) : List String :=
  match p.steps with
  | [] => []
  | s :: rest =>
    let rest := rest.filter (· ≠ ".")
    if s = "." ∧ p.isAbsolute then rest else s :: rest

/-- `leaf` seen from `base`: itself when it is absolute, else both with one slash
between them. -/
def join (base leaf : Path) : Path :=
  if leaf.isAbsolute then leaf
  else if base = "" ∨ base.toList.getLast? = some '/' then base ++ leaf
  else base ++ "/" ++ leaf

/-- Drops the parts at the end that say nothing, which are the empty ones and `.`;
the parts are given last one first, and the front part always stays. -/
def dropVoid : List String → List String
  | [] => []
  | [front] => [front]
  | part :: rest => if part = "" ∨ part = "." then dropVoid rest else part :: rest

/-- The directory that holds what the path names, in the path's own words; `none`
for the root and for the empty path. -/
def parent (p : Path) : Option Path :=
  if p.components.isEmpty then none
  else
    let kept := match dropVoid p.parts.reverse with
      | [] => []
      | _ :: rest => dropVoid rest
    match kept.reverse with
    | [] => some ""
    | [""] => some "/"
    | parts => some (String.intercalate "/" parts)

/-- The last step, unless it is `..` or the path has none. -/
def fileName (p : Path) : Option String :=
  match p.components.getLast? with
  | none => none
  | some s => if s = ".." ∨ s = "." then none else some s

/-- The text after the last dot of the file name, when there is a dot behind its
first character. -/
def extension (p : Path) : Option String :=
  match p.fileName with
  | none => none
  | some name =>
    match Text.splitOnce '.' name.toList.reverse with
    | some (ext, before) => if before.isEmpty then none else some (String.ofList ext.reverse)
    | none => none

end Path

end Reclass
