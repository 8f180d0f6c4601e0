import Reclass.Checksum
import Reclass.ClassName
import Reclass.Loader
import Reclass.Text.Decimal

/-!
# Names of cached results and of dumped classes

A cached result is known by the qualified name of the class and the checksum of
the input; a dumped class by its qualified name and its loader. Both become file
names without a slash.
-/

set_option autoImplicit false

namespace Reclass

/-- What identifies a cached result. -/
structure CacheKey where
  qualifiedName : String
  checksum : UInt32
  deriving DecidableEq, Repr

namespace CacheKey

/-- The key for transforming `input`, the bytes of a class. -/
def ofInput (className : String) (input : Bytes) : CacheKey :=
  ⟨ClassName.qualified className, Checksum.crc32 input⟩

def fileName (k : CacheKey) : String :=
  k.qualifiedName ++ "#crc32=" ++ Text.decimal k.checksum.toNat ++ ".class"

end CacheKey

/-- The file name of a dumped class. -/
def dumpFileName (className : String) (loader : LoaderId) : String :=
  ClassName.qualified className ++ "#loaderId=" ++ loader.text ++ ".class"

end Reclass
