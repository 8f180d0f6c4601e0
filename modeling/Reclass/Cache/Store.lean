import Reclass.Cache.Error
import Reclass.Cache.Key
import Reclass.Files.Tree

/-!
# The transform cache on disk

    <root>/<version>/<qualified name>#crc32=<checksum>.class

A result is written to a temporary file beside its place and renamed into it, so
a reader sees a whole result or none. Versions do not see each other's results
as long as their names are single plain steps of a path.
-/

set_option autoImplicit false

namespace Reclass

/-- A cache: a directory, and the version whose results are used. -/
structure TransformCache where
  root : Path
  version : String
  deriving DecidableEq, Repr

/-- What a version holds. -/
structure VersionStats where
  version : String
  entries : Nat
  bytes : Nat
  deriving DecidableEq, Repr

/-- What a cache holds. -/
structure CacheStats where
  cacheRoot : Path
  currentVersion : String
  /-- Sorted by version. -/
  versions : List VersionStats
  deriving DecidableEq, Repr

/-- The name of the next temporary file beside `path`, which is used up. -/
def FileSystem.tempBeside (fs : FileSystem) (path : Path) : Path × FileSystem :=
  (path ++ ".tmp-" ++ Text.decimal fs.process ++ "-" ++ Text.decimal fs.tempCount,
    { fs with tempCount := fs.tempCount + 1 })

/-- Puts a file into place in one go: it is written under a temporary name and
then renamed. When renaming fails the temporary file is removed. -/
def FileSystem.writeAtomically (fs : FileSystem) (path : Path) (content : Bytes) :
    Except StorageError Unit × FileSystem :=
  let (temp, fs) := fs.tempBeside path
  match fs.writeFile temp content with
  | .error e => (.error ⟨.write, temp, e⟩, fs)
  | .ok written =>
    match written.renameFile temp path with
    | .ok renamed => (.ok (), renamed)
    | .error e =>
      -- Whether cleaning up succeeds or not, the failure to rename is what is told.
      match written.removeFile temp with
      | .ok cleaned => (.error ⟨.rename, path, e⟩, cleaned)
      | .error _ => (.error ⟨.rename, path, e⟩, written)

namespace TransformCache

/-- The directory of the version in use. -/
def versionDir (c : TransformCache) : Path := Path.join c.root c.version

/-- The file of a result. -/
def entryPath (c : TransformCache) (k : CacheKey) : Path := Path.join c.versionDir k.fileName

/-- The result stored under a key. -/
def load (c : TransformCache) (k : CacheKey) (fs : FileSystem) :
    Except StorageError (Option Bytes) :=
  match fs.readFile (c.entryPath k) with
  | .ok bytes => .ok (some bytes)
  | .error .notFound => .ok none
  | .error e => .error ⟨.read, c.entryPath k, e⟩

/-- Stores a result and yields its file. -/
def store (c : TransformCache) (k : CacheKey) (result : Bytes) (fs : FileSystem) :
    Except StorageError Path × FileSystem :=
  match fs.makeDirAll c.versionDir with
  | (.error e, fs) => (.error ⟨.create, c.versionDir, e⟩, fs)
  | (.ok (), fs) =>
    match fs.writeAtomically (c.entryPath k) result with
    | (.error e, fs) => (.error e, fs)
    | (.ok (), fs) => (.ok (c.entryPath k), fs)

/-- Removes the results of the version in use, or the whole cache. Nothing to
remove is fine. -/
def clear (c : TransformCache) (all : Bool) (fs : FileSystem) :
    Except StorageError Unit × FileSystem :=
  let target := if all then c.root else c.versionDir
  match fs.removeDirAll target with
  | (.ok (), fs) => (.ok (), fs)
  | (.error .notFound, fs) => (.ok (), fs)
  | (.error e, fs) => (.error ⟨.remove, target, e⟩, fs)

/-- The size that a directory entry has for itself. -/
def dirEntrySize : Nat := 4096

/-- The length that a listing shows for a file. -/
def shownLength (fs : FileSystem) (p : Path) : Nat :=
  match fs.find p with
  | .ok (_, .file content) => content.length
  | .ok (_, .dir) => dirEntrySize
  | .error _ => 0

/-- What one version holds: its files with the extension `class`. -/
def versionStats (c : TransformCache) (fs : FileSystem) (version : String) :
    Except StorageError VersionStats :=
  let dir := Path.join c.root version
  match fs.readDir dir with
  | .error e => .error ⟨.list, dir, e⟩
  | .ok names =>
    let files := (names.map (Path.join dir)).filter fun p => Path.extension p = some "class"
    .ok ⟨version, files.length, files.foldl (fun n p => n + shownLength fs p) 0⟩

/-- What the cache holds. A cache that does not exist holds nothing. -/
def stats (c : TransformCache) (fs : FileSystem) : Except StorageError CacheStats :=
  match fs.readDir c.root with
  | .error .notFound => .ok ⟨c.root, c.version, []⟩
  | .error e => .error ⟨.list, c.root, e⟩
  | .ok names => do
    let dirs := names.filter fun name => fs.isDir (Path.join c.root name)
    let versions ← (dirs.mergeSort (fun a b => a ≤ b)).mapM (c.versionStats fs)
    return ⟨c.root, c.version, versions⟩

end TransformCache

end Reclass
