import Reclass.Archive.Zip
import Reclass.ClassPath.Ignore
import Reclass.Files.Tree
import Reclass.SortedMap

/-!
# Reading the roots of a class path

A root is a directory of class files or an archive of them. Either way it becomes
a map from internal names to bytes. Module and package descriptions are no
classes, and a backslash in a name counts as a slash.
-/

set_option autoImplicit false

namespace Reclass

/-- Why a root of a class path cannot be read. -/
inductive ClassPathError where
  | unreadableClass (path : Path) (cause : OsError)
  | unopenedArchive (path : Path) (cause : OsError)
  | unmappedArchive (path : Path) (cause : OsError)
  | badArchive (path : Path) (cause : ZipError)
  | badEntry (cause : ZipError)
  | badEntryData (name : String) (path : Path) (cause : EntryError)
  deriving DecidableEq, Repr

/-- The wordings of the failure and its causes, outermost first. -/
def ClassPathError.chain : ClassPathError → List String
  | unreadableClass path cause => ["Failed to read class file: " ++ path, cause.message]
  | unopenedArchive path cause => ["Failed to open jar: " ++ path, cause.message]
  | unmappedArchive path cause => ["Failed to mmap jar: " ++ path, cause.message]
  | badArchive path cause =>
    ["Failed to read zip structure: " ++ path, cause.message] ++ cause.causes
  | badEntry cause => cause.message :: cause.causes
  | badEntryData name path cause =>
    ["Failed to read " ++ name ++ " from " ++ path, cause.message]

namespace ClassPath

/-- The class that a file of a root defines, by the path of the file in the root. -/
def classNameOf (entry : String) : Option String :=
  if Text.endsWith entry ".class" then
    let name := String.ofList (entry.toList.take (entry.length - 6))
    if Text.endsWith name "module-info" || Text.endsWith name "package-info" then none
    else some (Text.replaceChar '\\' '/' name)
  else none

/-- What lies below a directory and is not ignored. -/
def visible (fs : FileSystem) (root : Place) : List (List String × Node) :=
  (fs.contents root).filter fun e => !Ignore.isIgnored fs root e.1 (e.2 = .dir)

/-- Adds a class of a directory to the classes found so far. Whatever has the
extension `class` is read. -/
def addFile (root : Path) (classes : SortedMap Bytes) (e : List String × Node) :
    Except ClassPathError (SortedMap Bytes) :=
  let entry := String.intercalate "/" e.1
  if Path.extension entry ≠ some "class" then .ok classes
  else match classNameOf entry, e.2 with
    | none, _ => .ok classes
    | some name, .file content => .ok (classes.insert name content)
    | some _, .dir => .error (.unreadableClass (Path.join root entry) .isDirectory)

/-- The classes of a directory. A path that leads to no directory has none. -/
def readDirectory (fs : FileSystem) (root : Path) : Except ClassPathError (SortedMap Bytes) :=
  match fs.find root with
  | .ok (place, .dir) => (visible fs place).foldlM (addFile root) .empty
  | _ => .ok .empty

/-- Adds a class of an archive to the classes found so far. -/
def addEntry (path : Path) (data : Array UInt8) (classes : SortedMap Bytes) (e : ZipEntry) :
    Except ClassPathError (SortedMap Bytes) :=
  match Zip.dataStart data e with
  | .error cause => .error (.badEntry cause)
  | .ok start =>
    match classNameOf e.name with
    | none => .ok classes
    | some name =>
      match Zip.content data start e with
      | .error cause => .error (.badEntryData name path cause)
      | .ok bytes => .ok (classes.insert name bytes)

/-- The classes of an archive, where a later entry of a name wins. A directory can be
opened like a file, but its content cannot be mapped into memory. -/
def readArchive (fs : FileSystem) (path : Path) : Except ClassPathError (SortedMap Bytes) :=
  match fs.find path with
  | .error cause => .error (.unopenedArchive path cause)
  | .ok (_, .dir) => .error (.unmappedArchive path .noDevice)
  | .ok (_, .file bytes) =>
    let data := bytes.toArray
    match Zip.entries data with
    | .error cause => .error (.badArchive path cause)
    | .ok entries => entries.foldlM (addEntry path data) .empty

end ClassPath

end Reclass
