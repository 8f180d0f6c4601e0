import Reclass.Act
import Reclass.Bytes
import Reclass.Loader
import Reclass.ClassFile.Error

/-!
# Where class bytes come from, and why a type may not resolve
-/

set_option autoImplicit false

namespace Reclass

/-- Byte lookup for the resolver, over a state `σ` of its own. -/
structure ClassSource (σ : Type) where
  /-- The bytes of the class with that internal name as the loader sees it, or
  `none` when it sees no such class. -/
  read : String → LoaderId → Act σ (Except ReadError (Option Bytes))
  /-- A bound on the number of different classes that one line of ancestors can
  run through. -/
  reach : Act σ Nat

/-- A type could not be built, or has no well-founded ancestry. -/
inductive ResolutionError where
  | notFound (name : String) (loader : LoaderId)
  | malformed (name : String) (loader : LoaderId) (fault : ClassFormatError)
  | unreadable (name : String) (loader : LoaderId) (cause : ReadError)
  /-- The super classes run in a circle through `name`. -/
  | circular (name : String) (loader : LoaderId)
  /-- The ancestors of `name` exceed what the source vouches for. -/
  | unbounded (name : String) (loader : LoaderId)
  deriving DecidableEq, Repr

namespace ResolutionError

/-- The wording of a failure. -/
def message : ResolutionError → String
  | notFound name loader => "class " ++ name ++ " not found in loader " ++ loader.text
  | malformed name loader fault =>
    "malformed class file for " ++ name ++ " in loader " ++ loader.text ++ ": " ++ fault.message
  | unreadable name loader cause =>
    "failed to read class " ++ name ++ " from loader " ++ loader.text ++ ": " ++ cause.message
  | circular name loader =>
    "circular hierarchy through " ++ name ++ " in loader " ++ loader.text
  | unbounded name loader =>
    "ancestors of " ++ name ++ " do not end in loader " ++ loader.text

/-- The wordings of the failure and of its cause, outermost first. -/
def chain (e : ResolutionError) : List String :=
  e.message :: match e with
    | malformed _ _ fault => [fault.message]
    | unreadable _ _ cause => [cause.message]
    | _ => []

end ResolutionError

end Reclass
