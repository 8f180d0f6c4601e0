import Reclass.Cache.Error
import Reclass.Cache.Key
import Reclass.Files.Tree

/-!
# The dump directory

    <root>/<qualified name>#loaderId=<loader>.class

A copy of every transformed class, for looking at.
-/

set_option autoImplicit false

namespace Reclass

/-- A dump directory. -/
structure DumpDir where
  root : Path
  deriving DecidableEq, Repr

namespace DumpDir

/-- The file of a class. -/
def pathFor (d : DumpDir) (className : String) (loader : LoaderId) : Path :=
  Path.join d.root (dumpFileName className loader)

/-- Writes a class and yields its file. -/
def write (d : DumpDir) (className : String) (loader : LoaderId) (bytes : Bytes)
    (fs : FileSystem) : Except StorageError Path × FileSystem :=
  match fs.makeDirAll d.root with
  | (.error e, fs) => (.error ⟨.create, d.root, e⟩, fs)
  | (.ok (), fs) =>
    match fs.writeFile (d.pathFor className loader) bytes with
    | .error e => (.error ⟨.write, d.pathFor className loader, e⟩, fs)
    | .ok fs => (.ok (d.pathFor className loader), fs)

end DumpDir

end Reclass
