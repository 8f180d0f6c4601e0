import Reclass.ClassFile.Header
import Reclass.Files.Tree
import Reclass.Redefinition.Host

/-!
# The universe of loaded classes

A loaded class has an identity, its place in the order of loading, and keeps its
name and loader for good; only its bytes are replaced. Definitions are replaced
all or none: each has to name a loaded class, and its bytes have to be those of
a class of that name.
-/

set_option autoImplicit false

namespace Reclass

/-- A loaded class with its current definition. -/
structure Defined where
  loaded : LoadedClass
  bytes : Bytes
  redefinitions : Nat
  deriving DecidableEq, Repr

/-- All loaded classes. -/
structure Universe where
  /-- In the order of loading. -/
  classes : Array Defined
  /-- The identity of the class with a name, by the loader that defines it. -/
  index : List ((String × LoaderId) × Nat)
  deriving DecidableEq, Repr

namespace Universe

def empty : Universe := ⟨#[], []⟩

def size (u : Universe) : Nat := u.classes.size

/-- Every loaded class in the order of loading. -/
def loadedClasses (u : Universe) : List LoadedClass := u.classes.toList.map Defined.loaded

/-- The loaded class with a name and a defining loader. -/
def get? (u : Universe) (name : String) (loader : LoaderId) : Option LoadedClass :=
  match u.index.lookup (name, loader) with
  | some id => u.classes[id]?.map Defined.loaded
  | none => none

/-- Loads a class, unless the loader has defined one of that name. -/
def define (u : Universe) (name : String) (loader : LoaderId) (bytes : Bytes) :
    LoadedClass × Universe :=
  match u.get? name loader with
  | some c => (c, u)
  | none =>
    let c : LoadedClass := ⟨u.classes.size, name, loader⟩
    (c, ⟨u.classes.push ⟨c, bytes, 0⟩, u.index ++ [((name, loader), c.id)]⟩)

/-- The current bytes of a class. -/
def bytesOf (u : Universe) (c : LoadedClass) : Option Bytes := u.classes[c.id]?.map Defined.bytes

/-- How often the definition of a class has been replaced. -/
def redefinitionsOf (u : Universe) (c : LoadedClass) : Nat :=
  match u.classes[c.id]? with
  | some d => d.redefinitions
  | none => 0

/-- Whether a definition is acceptable. -/
def check (u : Universe) (d : ClassDefinition) : Except RedefinitionError Unit :=
  let name := d.target.name
  if u.classes[d.target.id]?.map Defined.loaded ≠ some d.target then
    .error (.unknownClass name)
  else match ClassHeader.parse d.bytes with
    | .error fault => .error (.rejected name fault.message)
    | .ok header =>
      if header.name ≠ name then .error (.rejected name ("bytes define " ++ header.name))
      else .ok ()

/-- Puts the bytes of a definition in place. -/
def replace (u : Universe) (d : ClassDefinition) : Universe :=
  { u with classes := u.classes.modify d.target.id fun c =>
      { c with bytes := d.bytes, redefinitions := c.redefinitions + 1 } }

/-- Replaces definitions, all of them or none. -/
def redefine (u : Universe) (ds : List ClassDefinition) : Except RedefinitionError Universe := do
  ds.forM u.check
  return ds.foldl replace u

/-- Why classes were not written out. -/
inductive ExportError where
  | directory (path : Path) (cause : OsError)
  | file (path : Path) (cause : OsError)
  deriving DecidableEq, Repr

/-- The wordings of the failure and its causes, outermost first. -/
def ExportError.chain : ExportError → List String
  | directory path cause => ["Failed to create directory: " ++ path, cause.message]
  | file path cause => ["Failed to write class: " ++ path, cause.message]

/-- The file of a class below a directory, laid out by package. -/
def exportPath (out : Path) (c : LoadedClass) : Path := Path.join out (c.name ++ ".class")

/-- Writes the current definition of one class below a directory. -/
def exportClass (out : Path) (d : Defined) (fs : FileSystem) :
    Except ExportError Unit × FileSystem :=
  let path := exportPath out d.loaded
  let dir := path.parent.getD ""
  match fs.makeDirAll dir with
  | (.error e, fs) => (.error (.directory dir e), fs)
  | (.ok (), fs) =>
    match fs.writeFile path d.bytes with
    | .error e => (.error (.file path e), fs)
    | .ok fs => (.ok (), fs)

/-- Writes the definitions of a list of classes. -/
def exportClasses (out : Path) : List Defined → FileSystem →
    Except ExportError Unit × FileSystem
  | [], fs => (.ok (), fs)
  | d :: ds, fs =>
    match exportClass out d fs with
    | (.error e, fs) => (.error e, fs)
    | (.ok (), fs) => exportClasses out ds fs

/-- Writes the current definition of every class below a directory, and yields
their number. -/
def exportTo (u : Universe) (out : Path) (fs : FileSystem) :
    Except ExportError Nat × FileSystem :=
  match exportClasses out u.classes.toList fs with
  | (.error e, fs) => (.error e, fs)
  | (.ok (), fs) => (.ok u.size, fs)

end Universe

end Reclass
