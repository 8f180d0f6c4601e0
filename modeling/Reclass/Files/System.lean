import Reclass.Bytes
import Reclass.Files.Error
import Reclass.Files.Path

/-!
# Files and directories

A file system is a set of directories and files, each known by the names on the
way to it from the root, together with the directory in which relative paths
start. Paths are walked step by step: every step but the last must lead to a
directory, `..` leads one up, and a name of more than 255 bytes is refused where
it would be looked up. The operations below fail as POSIX systems do and leave
the file system alone when they fail.
-/

set_option autoImplicit false

namespace Reclass

/-- What a name can stand for. -/
inductive Node where
  | dir
  | file (content : Bytes)
  deriving DecidableEq, Repr

/-- The names on the way from the root. -/
abbrev Place : Type := List String

/-- The state of a file system. -/
structure FileSystem where
  /-- Everything below the root, each place once. -/
  entries : List (Place × Node)
  /-- Where relative paths start. -/
  cwd : Place
  /-- The number of the process that works on the files. -/
  process : Nat
  /-- How many temporary files it has named. -/
  tempCount : Nat
  deriving DecidableEq, Repr

/-- The end of a path: a name, possibly with a slash behind it, or something that
can only be a directory. -/
inductive PathEnd where
  | name (n : String) (slash : Bool)
  | self
  | up
  | root
  deriving DecidableEq, Repr

namespace FileSystem

/-- The longest name, in bytes. -/
def maxName : Nat := 255

/-- The longest path, in bytes. -/
def maxPath : Nat := 4095

/-- What is at a place. -/
def node? (fs : FileSystem) (here : Place) : Option Node :=
  if here = [] then some .dir else fs.entries.lookup here

/-- Puts something at a place. -/
def put (fs : FileSystem) (here : Place) (n : Node) : FileSystem :=
  { fs with entries :=
      if (fs.entries.lookup here).isSome then
        fs.entries.map fun e => if e.1 = here then (here, n) else e
      else fs.entries ++ [(here, n)] }

/-- Removes what is at a place. -/
def erase (fs : FileSystem) (here : Place) : FileSystem :=
  { fs with entries := fs.entries.filter fun e => e.1 ≠ here }

/-- Removes everything below a place. -/
def eraseBelow (fs : FileSystem) (here : Place) : FileSystem :=
  { fs with entries := fs.entries.filter fun e => e.1 = here || !here.isPrefixOf e.1 }

/-- The names in a directory. -/
def children (fs : FileSystem) (here : Place) : List String :=
  fs.entries.filterMap fun e =>
    match e.1.getLast? with
    | some name => if e.1.dropLast = here then some name else none
    | none => none

/-- One step from a place that must be a directory. -/
def step (fs : FileSystem) (here : Place) (name : String) : Except OsError Place :=
  match fs.node? here with
  | some .dir =>
    if name = "." then .ok here
    else if name = ".." then .ok here.dropLast
    else if name.utf8ByteSize > maxName then .error .nameTooLong
    else match fs.node? (here ++ [name]) with
      | some _ => .ok (here ++ [name])
      | none => .error .notFound
  | some (.file _) => .error .notDirectory
  | none => .error .notFound

/-- A walk along steps that all lead to something. -/
def walk (fs : FileSystem) : Place → List String → Except OsError Place
  | here, [] => .ok here
  | here, name :: names => do
    let next ← fs.step here name
    fs.walk next names

/-- Where the walk along a path starts. -/
def origin (fs : FileSystem) (p : Path) : Place := if p.isAbsolute then [] else fs.cwd

/-- Walks all but the last step of a path. The result is the directory in which
the last step is to be taken, and that step. -/
def approach (fs : FileSystem) (p : Path) : Except OsError (Place × PathEnd) :=
  if p.toList.contains '\x00' then .error .nulInPath
  else if p.utf8ByteSize > maxPath then .error .nameTooLong
  else match p.steps.reverse with
    | [] => if p.isAbsolute then .ok ([], .root) else .error .notFound
    | last :: before => do
      let here ← fs.walk (fs.origin p) before.reverse
      match fs.node? here with
      | some .dir =>
        if last = "." then .ok (here, .self)
        else if last = ".." then .ok (here, .up)
        else if last.utf8ByteSize > maxName then .error .nameTooLong
        else .ok (here, .name last (p.toList.getLast? = some '/'))
      | some (.file _) => .error .notDirectory
      | none => .error .notFound

/-- The place that a path leads to, and what is there. -/
def find (fs : FileSystem) (p : Path) : Except OsError (Place × Node) := do
  match ← fs.approach p with
  | (_, .root) => return ([], .dir)
  | (here, .self) => return (here, .dir)
  | (here, .up) => return (here.dropLast, .dir)
  | (here, .name n slash) =>
    match fs.node? (here ++ [n]) with
    | none => throw .notFound
    | some .dir => return (here ++ [n], .dir)
    | some (.file content) =>
      if slash then throw .notDirectory else return (here ++ [n], .file content)

/-- Whether the path leads to a directory. -/
def isDir (fs : FileSystem) (p : Path) : Bool :=
  match fs.find p with
  | .ok (_, .dir) => true
  | _ => false

/-- The content of a file. -/
def readFile (fs : FileSystem) (p : Path) : Except OsError Bytes := do
  match ← fs.find p with
  | (_, .dir) => throw .isDirectory
  | (_, .file content) => return content

/-- The names in a directory. -/
def readDir (fs : FileSystem) (p : Path) : Except OsError (List String) := do
  match ← fs.find p with
  | (here, .dir) => return fs.children here
  | (_, .file _) => throw .notDirectory

/-- Creates a file, or replaces the content of one. -/
def writeFile (fs : FileSystem) (p : Path) (content : Bytes) : Except OsError FileSystem := do
  match ← fs.approach p with
  | (here, .name n slash) =>
    if slash then throw .isDirectory
    match fs.node? (here ++ [n]) with
    | some .dir => throw .isDirectory
    | _ => return fs.put (here ++ [n]) (.file content)
  | _ => throw .isDirectory

/-- Adds to the end of a file. -/
def appendFile (fs : FileSystem) (p : Path) (more : Bytes) : Except OsError FileSystem := do
  fs.writeFile p ((← fs.readFile p) ++ more)

/-- Creates a directory. -/
def makeDir (fs : FileSystem) (p : Path) : Except OsError FileSystem := do
  match ← fs.approach p with
  | (here, .name n _) =>
    match fs.node? (here ++ [n]) with
    | some _ => throw .exists
    | none => return fs.put (here ++ [n]) .dir
  | _ => throw .exists

/-- Gives a file another name, in place of any file that had it. -/
def renameFile (fs : FileSystem) (old new : Path) : Except OsError FileSystem := do
  let (source, node) ← fs.find old
  match node with
  | .dir => throw .isDirectory
  | .file content =>
    match ← fs.approach new with
    | (here, .name n slash) =>
      if slash then throw .notDirectory
      match fs.node? (here ++ [n]) with
      | some .dir => throw .isDirectory
      | _ =>
        if source = here ++ [n] then return fs
        return (fs.erase source).put (here ++ [n]) (.file content)
    | _ => throw .busy

/-- Removes a file. -/
def removeFile (fs : FileSystem) (p : Path) : Except OsError FileSystem := do
  match ← fs.find p with
  | (_, .dir) => throw .isDirectory
  | (here, .file _) => return fs.erase here

/-- Removes an empty directory. -/
def removeDir (fs : FileSystem) (p : Path) : Except OsError FileSystem := do
  match ← fs.approach p with
  | (_, .root) => throw .busy
  | (_, .self) => throw .invalidArgument
  | (_, .up) => throw .notEmpty
  | (here, .name n _) =>
    match fs.node? (here ++ [n]) with
    | none => throw .notFound
    | some (.file _) => throw .notDirectory
    | some .dir =>
      if (fs.children (here ++ [n])).isEmpty then return fs.erase (here ++ [n])
      throw .notEmpty

end FileSystem

end Reclass
