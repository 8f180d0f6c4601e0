import Reclass.ClassFile.Builder
import Reclass.ClassPath.Read
import Reclass.Hierarchy.Source

/-!
# Class paths

Each root of a class path is one loader, numbered from 1. Its parent is the root
before it, and a name is looked up in the parents first. Below all roots the
bootstrap loader makes up a class for every name that begins with `java/`, so
that every line of ancestors can reach the root type.
-/

set_option autoImplicit false

namespace Reclass

/-- A root, with its classes. -/
structure ClassPathRoot where
  path : Path
  /-- Bytes by internal name. -/
  resources : SortedMap Bytes
  deriving DecidableEq, Repr

/-- The roots in order, outermost first. -/
structure ClassPath where
  roots : List ClassPathRoot
  deriving DecidableEq, Repr

namespace ClassPath

/-- The type without a super class. -/
def objectName : String := "java/lang/Object"

/-- The class that the bootstrap loader makes up for a name. -/
def platformStub (name : String) : Option Bytes :=
  if name = objectName then some ((ClassSketch.new objectName).withSuper none).encode
  else if Text.startsWith name "java/" then some (ClassSketch.new name).encode
  else none

/-- The loader of the root at a position. -/
def loaderAt (position : Nat) : LoaderId := ⟨position + 1⟩

/-- The loaders of the roots, outermost first. -/
def loaders (cp : ClassPath) : List LoaderId := (List.range cp.roots.length).map loaderAt

/-- The innermost loader, which sees every root. -/
def applicationLoader (cp : ClassPath) : LoaderId := ⟨cp.roots.length⟩

/-- The root of a loader. -/
def root? (cp : ClassPath) (loader : LoaderId) : Option ClassPathRoot :=
  if loader = .bootstrap then none else cp.roots[loader.number - 1]?

/-- Every class that the roots define, with its loader. -/
def resources (cp : ClassPath) : List (String × LoaderId) :=
  cp.roots.zipIdx.flatMap fun (r, i) => r.resources.keys.map fun name => (name, loaderAt i)

/-- The first root of a list that defines a class, with its loader; the roots are
numbered from `position` on. -/
def firstDefining (name : String) :
    (position : Nat) → List ClassPathRoot → Option (LoaderId × Bytes)
  | _, [] => none
  | position, r :: rs =>
    match r.resources.get? name with
    | some bytes => some (loaderAt position, bytes)
    | none => firstDefining name (position + 1) rs

/-- The class of that name as a loader sees it: the loader that defines it, and
its bytes. -/
def find (cp : ClassPath) (name : String) (loader : LoaderId) :
    Except ReadError (Option (LoaderId × Bytes)) :=
  match platformStub name with
  | some bytes => .ok (some (.bootstrap, bytes))
  | none =>
    if loader = .bootstrap then .ok none
    else if cp.roots.length < loader.number then .error (.unknownLoader loader)
    else .ok (firstDefining name 0 (cp.roots.take loader.number))

/-- The class path as a source of bytes. A line of ancestors runs through classes
of the roots, and then at most through one made up and the root type. -/
def source {σ : Type} (cp : ClassPath) : ClassSource σ where
  read name loader := pure ((cp.find name loader).map fun found => found.map Prod.snd)
  reach := pure (cp.resources.length + 2)

/-- Reads one root: a directory, or else an archive. -/
def readRoot (fs : FileSystem) (path : Path) : Except ClassPathError (SortedMap Bytes) :=
  if fs.isDir path then readDirectory fs path else readArchive fs path

/-- Reads roots, the first of them being the root at `position`. -/
def readRoots {σ : Type} (fs : FileSystem) :
    (position : Nat) → List Path → Attempt σ ClassPathError (List ClassPathRoot)
  | _, [] => return []
  | position, path :: paths => do
    let resources ← MonadExcept.ofExcept (readRoot fs path)
    Attempt.act (Act.report .classPath .debug
      ("Loader " ++ (loaderAt position).text ++ " reads " ++ Text.decimal resources.size ++
        " classes from " ++ path))
    let rest ← readRoots fs (position + 1) paths
    return { path, resources } :: rest

/-- Reads a class path. -/
def ofPaths {σ : Type} (fs : FileSystem) (paths : List Path) :
    Attempt σ ClassPathError ClassPath := do
  return ⟨← readRoots fs 0 paths⟩

end ClassPath

end Reclass
