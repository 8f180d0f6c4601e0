import Reclass.ClassFile.Basic
import Reclass.Transform.Request

/-!
# Deleting methods

The edit drops every method of a name from one class, or from that class and all
classes assignable to it.
-/

set_option autoImplicit false

namespace Reclass

/-- Which methods to delete from which classes, over a state `σ`. -/
structure MethodDeleter (σ : Type) where
  /-- The internal name of the class. -/
  className : String
  method : String
  /-- Whether a class, seen from a loader, is assignable to the one named; present
  when subtypes are meant as well. -/
  isSubtype : Option (String → LoaderId → Attempt σ ResolutionError Bool)

namespace MethodDeleter

variable {σ : Type}

/-- Whether the edit applies. A class whose ancestry cannot be followed is
passed over. -/
def accepts (d : MethodDeleter σ) (name : String) (loader : LoaderId) : Act σ Bool := do
  if name = d.className then return true
  match d.isSubtype with
  | none => return false
  | some isSubtype =>
    match ← (isSubtype name loader).result with
    | .ok answer => return answer
    | .error e =>
      Act.report .deleter .debug
        ("Skipping " ++ name ++ " loaded by " ++ loader.text ++ ": " ++ e.message)
      return false

/-- The class without the methods, and how many there were; nothing when there
were none. -/
def delete (method : String) (bytes : Bytes) :
    Except ClassFormatError (Option (Bytes × Nat)) := do
  let cf ← ClassFile.parse bytes
  let (edited, removed) ← cf.removeMethods method
  if removed = 0 then return none
  return some (edited.encode, removed)

/-- Deletes the methods from a class that the edit applies to. -/
def edit (d : MethodDeleter σ) (r : TransformRequest) : Act σ EditOutcome := do
  if !(← d.accepts r.className r.loader) then return .done none
  match delete d.method r.bytes with
  | .error fault => return .failed (.malformed fault)
  | .ok none => return .done none
  | .ok (some (bytes, removed)) =>
    Act.report .deleter .debug
      ("Deleted " ++ Text.decimal removed ++ " method(s) " ++ d.method ++ " from " ++
        ClassName.qualified r.className)
    return .done (some bytes)

/-- The deleter as a pluggable edit. -/
def transformation (d : MethodDeleter σ) : Transformation σ where
  accepts := d.accepts
  edit := d.edit

end MethodDeleter

end Reclass
