import Reclass.Bytes
import Reclass.ClassName
import Reclass.Hierarchy.Source
import Reclass.Loader

/-!
# Requests to transform a class

A transformation is a pluggable edit: it may decline to change a class, it may
fail, and it may be aborted half-way. A transformer is what the rest of the
program calls; it never fails.
-/

set_option autoImplicit false

namespace Reclass

/-- A loaded class, by the identity that its host gave it. -/
structure LoadedClass where
  id : Nat
  /-- The internal name. -/
  name : String
  loader : LoaderId
  deriving DecidableEq, Repr

/-- Whether the class is an array type. -/
def LoadedClass.isArray (c : LoadedClass) : Bool := ClassName.isArray c.name

/-- A class handed to a transformer. -/
structure TransformRequest where
  loader : LoaderId
  /-- The internal name. -/
  className : String
  /-- Present when a class that is loaded already is being redefined. -/
  redefining : Option LoadedClass
  bytes : Bytes
  deriving DecidableEq, Repr

/-- Why a transformation gave no result. -/
inductive TransformError where
  | failed (reason : String)
  | malformed (fault : ClassFormatError)
  | resolution (cause : ResolutionError)
  | panicked (reason : String)
  deriving DecidableEq, Repr

def TransformError.message : TransformError → String
  | failed reason => reason
  | malformed fault => fault.message
  | resolution cause => cause.message
  | panicked reason => "transformation panicked: " ++ reason

/-- What an edit that was aborted had to say: a text, or something else. -/
inductive AbortReason where
  | text (reason : String)
  | other
  deriving DecidableEq, Repr

/-- How an edit ended. -/
inductive EditOutcome where
  /-- New bytes, or none to leave the class as it is. -/
  | done (result : Option Bytes)
  | failed (cause : TransformError)
  | aborted (reason : AbortReason)
  deriving DecidableEq, Repr

/-- The result of an edit once aborts count as failures. -/
abbrev EditResult : Type := Except TransformError (Option Bytes)

/-- Turns an abort into a failure. -/
def EditOutcome.guarded : EditOutcome → EditResult
  | done result => .ok result
  | failed cause => .error cause
  | aborted (.text reason) => .error (.panicked reason)
  | aborted .other => .error (.panicked "unknown panic")

/-- A pluggable edit over a state `σ`. -/
structure Transformation (σ : Type) where
  /-- Whether the edit applies to the class of that name and loader. -/
  accepts : String → LoaderId → Act σ Bool
  edit : TransformRequest → Act σ EditOutcome

/-- An edit as its callers see it. -/
structure Transformer (σ : Type) where
  accepts : String → LoaderId → Act σ Bool
  /-- New bytes, or none when the class stays as it is. -/
  apply : TransformRequest → Act σ (Option Bytes)

namespace Transformer

variable {σ τ : Type}

/-- A transformer over a part of the state. -/
def zoom (l : Lens σ τ) (t : Transformer τ) : Transformer σ where
  accepts name loader := Act.zoom l (t.accepts name loader)
  apply r := Act.zoom l (t.apply r)

end Transformer

namespace Transformation

variable {σ τ : Type}

/-- A transformation over a part of the state. -/
def zoom (l : Lens σ τ) (t : Transformation τ) : Transformation σ where
  accepts name loader := Act.zoom l (t.accepts name loader)
  edit r := Act.zoom l (t.edit r)

/-- Runs the edit; an abort becomes a failure. -/
def guarded (t : Transformation σ) (r : TransformRequest) : Act σ EditResult := do
  let outcome ← t.edit r
  return outcome.guarded

end Transformation

/-- A result that equals the input counts as no result. -/
def droppingUnchanged (result : Option Bytes) (input : Bytes) : Option Bytes :=
  result.filter fun bytes => bytes != input

/-- The report about an edit that failed. -/
def reportFailedEdit {σ : Type} (r : TransformRequest) (e : TransformError) : Act σ Unit :=
  Act.report .transform .error
    ("Unable to transform class " ++ r.className ++ " loaded by " ++ r.loader.text ++ ": " ++
      e.message)

namespace Transformation

variable {σ : Type}

/-- Calls the edit for every request that it accepts. A failure is reported and
leaves the class as it is. -/
def applyDirectly (t : Transformation σ) (r : TransformRequest) : Act σ (Option Bytes) := do
  if !(← t.accepts r.className r.loader) then return none
  match ← t.guarded r with
  | .ok result => return droppingUnchanged result r.bytes
  | .error e =>
    reportFailedEdit r e
    return none

/-- The transformer that calls the edit every time. -/
def direct (t : Transformation σ) : Transformer σ where
  accepts := t.accepts
  apply := t.applyDirectly

end Transformation

end Reclass
