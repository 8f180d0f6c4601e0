import Reclass.Transform.Request

/-!
# Hosts of loaded classes

A host owns classes that are loaded already. It lists them, hands out their
current bytes, replaces their definitions, and keeps the transformers that it
applies to classes loaded later. Everything happens over a state `σ`;
transformers are registered by handles of a type `τ`.
-/

set_option autoImplicit false

namespace Reclass

/-- New bytes for a loaded class. -/
structure ClassDefinition where
  target : LoadedClass
  bytes : Bytes
  deriving DecidableEq, Repr

/-- Why definitions were not replaced. -/
inductive RedefinitionError where
  | unknownClass (name : String)
  | rejected (name reason : String)
  /-- A batch of `count` definitions failed as a whole. -/
  | batch (count : Nat) (cause : RedefinitionError)
  /-- Every one of so many passes still found something to redefine. -/
  | unsettled (passes : Nat)
  deriving DecidableEq, Repr

namespace RedefinitionError

/-- The wording of a failure. -/
def message : RedefinitionError → String
  | unknownClass name => "class " ++ name ++ " is not loaded"
  | rejected name reason => "redefinition of " ++ name ++ " rejected: " ++ reason
  | batch count cause =>
    "batch redefinition of " ++ Text.decimal count ++ " classes failed: " ++ cause.message
  | unsettled passes => "redefinition did not settle within " ++ Text.decimal passes ++ " passes"

/-- The wordings of the failure and of its causes, outermost first. -/
def chain : RedefinitionError → List String
  | batch count cause => (batch count cause).message :: cause.chain
  | e => [e.message]

end RedefinitionError

/-- A host's view of its loaded classes. -/
structure Instrumentation (σ τ : Type) where
  /-- Every class loaded at the moment. -/
  loadedClasses : Act σ (List LoadedClass)
  /-- The current bytes of a class, or none when the host has no bytes for it. -/
  classBytes : LoadedClass → Act σ (Except ReadError (Option Bytes))
  /-- Replaces the definitions of all the classes given, or of none. -/
  redefine : List ClassDefinition → Act σ (Except RedefinitionError Unit)
  /-- Registers a transformer for all classes loaded from now on. -/
  addTransformer : τ → Act σ Unit
  /-- How many passes a redefinition may take. A host that loads no class while
  classes are redefined needs one more than it has classes. -/
  passLimit : Act σ Nat

end Reclass
