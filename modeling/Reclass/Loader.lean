import Reclass.Text.Decimal

/-!
# Loaders and class sources

A loader is a context in which names denote classes. A class source hands out
class bytes by name and loader.
-/

set_option autoImplicit false

namespace Reclass

/-- A loader, by its number. Loader 0 is the bootstrap loader. -/
structure LoaderId where
  number : Nat
  deriving DecidableEq, Repr

namespace LoaderId

def bootstrap : LoaderId := ⟨0⟩

def text (l : LoaderId) : String := Text.decimal l.number

end LoaderId

/-- Why bytes could not be read. -/
inductive ReadError where
  /-- There is no such loader. -/
  | unknownLoader (loader : LoaderId)
  /-- Some other reason, in the words of the one who reads. -/
  | other (reason : String)
  deriving DecidableEq, Repr

def ReadError.message : ReadError → String
  | unknownLoader loader => "unknown loader " ++ loader.text
  | other reason => reason

end Reclass
