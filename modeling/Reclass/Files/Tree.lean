import Reclass.Files.System

/-!
# Operations on whole trees

Creating a directory with all that lead to it, removing one with all it holds,
and replacing a file in one go. They are made of several single operations, so a
failure can come after some of them have been done.
-/

set_option autoImplicit false

namespace Reclass.FileSystem

/-- Creates the directories of a list in order; one that exists already is fine. -/
def makeDirs (fs : FileSystem) : List Path → Except OsError Unit × FileSystem
  | [] => (.ok (), fs)
  | p :: inner =>
    match fs.makeDir p with
    | .ok fs => fs.makeDirs inner
    | .error e => if e = .exists ∧ fs.isDir p then fs.makeDirs inner else (.error e, fs)

/-- The path, the path of its parent and so on, as long as there is one; at most
`limit` of them. -/
def ancestors : (limit : Nat) → Path → List Path
  | 0, _ => []
  | limit + 1, p =>
    if p = "" then []
    else match p.parent with
      | none => []
      | some outer => p :: ancestors limit outer

/-- Walks outwards from a directory to be created until one can be created or
exists. The result holds the directories passed over, outermost first. -/
def climb (fs : FileSystem) : List Path → (passed : List Path) →
    Except OsError (List Path × FileSystem)
  | [], passed => .ok (passed, fs)
  | p :: outer, passed =>
    match fs.makeDir p with
    | .ok fs => .ok (passed, fs)
    | .error .notFound => fs.climb outer (p :: passed)
    | .error e => if e = .exists ∧ fs.isDir p then .ok (passed, fs) else .error e

/-- Creates a directory together with the directories that lead to it. -/
def makeDirAll (fs : FileSystem) (p : Path) : Except OsError Unit × FileSystem :=
  match fs.climb (ancestors (p.steps.length + 1) p) [] with
  | .error e => (.error e, fs)
  | .ok (passed, fs) => fs.makeDirs passed

/-- Removes a directory with everything below it. A path that leads to nothing
is an error; so is one that cannot be removed after it has been emptied. -/
def removeDirAll (fs : FileSystem) (p : Path) : Except OsError Unit × FileSystem :=
  match fs.find p with
  | .error e => (.error e, fs)
  | .ok (_, .file _) => (.error .notDirectory, fs)
  | .ok (here, .dir) =>
    let fs := fs.eraseBelow here
    -- The directory itself goes last, and can still be in the way of its own removal.
    match fs.removeDir p with
    | .ok fs => (.ok (), fs)
    | .error .notFound => (.ok (), fs)
    | .error e => (.error e, fs)

/-- What lies below a place, at most `depth` levels deep: the way to it, and the
content of a file. A directory comes before what it holds, and the names of a
directory are in order. -/
def below (fs : FileSystem) : (depth : Nat) → Place → List (List String × Node)
  | 0, _ => []
  | depth + 1, here =>
    ((fs.children here).mergeSort fun a b => a ≤ b).flatMap fun name =>
      match fs.node? (here ++ [name]) with
      | none => []
      | some node =>
        ([name], node) ::
          (fs.below depth (here ++ [name])).map fun e => (name :: e.1, e.2)

/-- Everything below a place. -/
def contents (fs : FileSystem) (here : Place) : List (List String × Node) :=
  fs.below (fs.entries.length + 1) here

/-- Removes a file, or a directory with everything below it. -/
def removeTree (fs : FileSystem) (p : Path) : Except OsError Unit × FileSystem :=
  if fs.isDir p then fs.removeDirAll p
  else match fs.removeFile p with
    | .ok fs => (.ok (), fs)
    | .error e => (.error e, fs)

/-- Writes a file, creating the directories that lead to it. -/
def writeFileAll (fs : FileSystem) (p : Path) (content : Bytes) : Except OsError Unit × FileSystem :=
  match fs.makeDirAll (p.parent.getD "") with
  | (.error e, fs) => (.error e, fs)
  | (.ok (), fs) =>
    match fs.writeFile p content with
    | .ok fs => (.ok (), fs)
    | .error e => (.error e, fs)

end Reclass.FileSystem
