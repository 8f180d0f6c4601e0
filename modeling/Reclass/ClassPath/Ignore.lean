import Reclass.Bytes
import Reclass.Files.System
import Reclass.Text.Split

/-!
# Ignore files

A file `.ignore` in a directory lists patterns for what lies below it. The last
pattern that matches decides, and a pattern behind `!` takes a place back in.
The ignore files of inner directories go before those of outer ones. What lies
in an ignored directory is ignored.
-/

set_option autoImplicit false

namespace Reclass

/-- A line of an ignore file. -/
structure IgnorePattern where
  /-- Takes a place back in instead of leaving it out. -/
  negated : Bool
  /-- Is about directories only. -/
  dirsOnly : Bool
  /-- Is about the way from the directory of the ignore file, and not about the
  last name alone. -/
  anchored : Bool
  /-- The parts between slashes. -/
  glob : List (List Char)
  deriving DecidableEq, Repr

namespace IgnorePattern

/-- Whether a name matches a part of a pattern: `*` stands for any characters, `?`
for one, and a backslash makes the next character stand for itself. -/
def matchesName : (glob name : List Char) → Bool
  | [], name => name.isEmpty
  | '*' :: glob, [] => matchesName glob []
  | '*' :: glob, c :: name => matchesName glob (c :: name) || matchesName ('*' :: glob) name
  | _ :: _, [] => false
  | '?' :: glob, _ :: name => matchesName glob name
  | '\\' :: g :: glob, c :: name => g = c && matchesName glob name
  | g :: glob, c :: name => g = c && matchesName glob name
  termination_by glob name => glob.length + name.length

/-- Whether the names of a place match the parts of a pattern; a part `**` stands
for any number of names. -/
def matchesNames : (glob : List (List Char)) → List String → Bool
  | [], names => names.isEmpty
  | ['*', '*'] :: glob, [] => matchesNames glob []
  | ['*', '*'] :: glob, name :: names =>
    matchesNames glob (name :: names) || matchesNames (['*', '*'] :: glob) names
  | _ :: _, [] => false
  | part :: glob, name :: names => matchesName part name.toList && matchesNames glob names
  termination_by glob names => glob.length + names.length

/-- The line without the blanks at its end, which a backslash before the last one
keeps. -/
def dropBlanks (line : List Char) : List Char :=
  match line.reverse with
  | ' ' :: '\\' :: _ => line
  | backwards => (backwards.dropWhile Text.isBlank).reverse

/-- Reads a line; blank lines and those that start with `#` are no patterns. -/
def ofLine (line : List Char) : Option IgnorePattern :=
  let line := dropBlanks line
  if line.isEmpty ∨ line.head? = some '#' then none
  else
    -- The marks come in this order: `!` and `/` in front, a slash behind.
    let negated := line.head? = some '!'
    let line := if negated then line.drop 1 else line
    let rooted := line.head? = some '/'
    let line := if rooted then line.drop 1 else line
    let dirsOnly := line.getLast? = some '/'
    let line := if dirsOnly then line.dropLast else line
    if line.isEmpty then none
    else some
      { negated, dirsOnly, anchored := rooted || line.contains '/',
        glob := Text.splitOn '/' line }

/-- Whether the pattern is about a place below the directory of the ignore file. -/
def isAbout (p : IgnorePattern) (names : List String) (isDir : Bool) : Bool :=
  (!p.dirsOnly || isDir) &&
    if p.anchored then matchesNames p.glob names
    else match names.getLast?, p.glob with
      | some name, [part] => matchesName part name.toList
      | _, _ => false

end IgnorePattern

namespace Ignore

/-- The lines of a file, up to the first one that is no text. A mark of the byte
order in front of all counts for nothing. -/
def lines (content : Bytes) : List (List Char) :=
  let texts := (content.splitOn 10).map fun line => String.fromUTF8? ⟨line.toArray⟩
  match (texts.takeWhile Option.isSome).filterMap fun text => text.map String.toList with
  | [] => []
  | first :: rest => first.dropWhile (· = '\uFEFF') :: rest

/-- The patterns of an ignore file. -/
def patterns (content : Bytes) : List IgnorePattern :=
  (lines content).filterMap fun line =>
    IgnorePattern.ofLine (if line.getLast? = some '\r' then line.dropLast else line)

/-- What the ignore file of a directory says about a place below it: to leave it
out, to take it in, or nothing. -/
def verdictIn (fs : FileSystem) (dir : Place) (names : List String) (isDir : Bool) :
    Option Bool :=
  match fs.node? (dir ++ [".ignore"]) with
  | some (.file content) =>
    ((patterns content).filter fun p => p.isAbout names isDir).getLast?.map fun p => !p.negated
  | _ => none

/-- What the ignore files on the way to a place say about it, the innermost first.
The place is a directory given backwards and the names below it. -/
def verdict (fs : FileSystem) (isDir : Bool) : (dirBackwards names : List String) → Option Bool
  | [], names => verdictIn fs [] names isDir
  | n :: outer, names =>
    match verdictIn fs (n :: outer).reverse names isDir with
    | some v => some v
    | none => verdict fs isDir outer (n :: names)

/-- Whether a place below `root` is left out, by itself or with a directory that
it lies in. `names` leads from `root` to the place. -/
def isIgnored (fs : FileSystem) (root : Place) (names : List String) (isDir : Bool) : Bool :=
  (List.range names.length).any fun i =>
    match names[i]? with
    | none => false
    | some name =>
      let dir := root ++ names.take i
      verdict fs (isDir || i + 1 < names.length) dir.reverse [name] = some true

end Ignore

end Reclass
