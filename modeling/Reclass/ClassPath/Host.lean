import Reclass.ClassPath.Basic
import Reclass.ClassPath.Universe

/-!
# A host over a class path

The host loads classes from a class path into a universe. Each class passes
through the registered transformers when it is loaded. Transformers work on a
state `ρ` beside the host, so the whole works on pairs of the two.
-/

set_option autoImplicit false

namespace Reclass

/-- A class path with what has been loaded from it, and the transformers for what
will be. -/
structure ClassPathHost (ρ : Type) where
  path : ClassPath
  loaded : Universe
  /-- In the order of registration. -/
  hooks : List (Transformer ρ)

/-- Why a class was not loaded. -/
inductive LoadError where
  | unreadable (cause : ReadError)
  | notFound (name : String) (loader : LoaderId)
  deriving DecidableEq, Repr

/-- The wordings of the failure and its causes, outermost first. -/
def LoadError.chain : LoadError → List String
  | unreadable cause => [cause.message]
  | notFound name loader => ["Class " ++ name ++ " not found from loader " ++ loader.text]

namespace ClassPathHost

variable {ρ : Type}

/-- A host that has loaded nothing. -/
def new (path : ClassPath) : ClassPathHost ρ := ⟨path, .empty, []⟩

/-- The bytes of a class after a transformer: new ones, or those given. -/
def applyHook (name : String) (loader : LoaderId) (bytes : Bytes) (t : Transformer ρ) :
    Act ρ Bytes := do
  let out ← t.apply { loader, className := name, redefining := none, bytes }
  return out.getD bytes

/-- The bytes of a class after all transformers in order. -/
def applyHooks (hooks : List (Transformer ρ)) (name : String) (loader : LoaderId)
    (bytes : Bytes) : Act ρ Bytes :=
  hooks.foldlM (applyHook name loader) bytes

/-- Loads the class of that name as a loader sees it. A class that is loaded
already is returned as it is. -/
def loadClass (name : String) (loader : LoaderId) :
    Attempt (ClassPathHost ρ × ρ) LoadError LoadedClass := do
  let host ← Attempt.act (Act.gets Prod.fst)
  match host.path.find name loader with
  | .error cause => throw (.unreadable cause)
  | .ok none => throw (.notFound name loader)
  | .ok (some (defining, bytes)) =>
    -- The class belongs to the loader that defines it, not to the one that asks.
    match host.loaded.get? name defining with
    | some c => return c
    | none =>
      let bytes ← Attempt.act (Act.zoom .snd (applyHooks host.hooks name defining bytes))
      Attempt.act (Act.zoom .fst (Act.modifyGet fun host =>
        let (c, loaded) := host.loaded.define name defining bytes
        (c, { host with loaded })))

/-- Loads a list of classes in order, and yields their number. -/
def loadEach : List (String × LoaderId) → Attempt (ClassPathHost ρ × ρ) LoadError Nat
  | [] => return 0
  | (name, loader) :: rest => do
    let _ ← loadClass name loader
    return (← loadEach rest) + 1

/-- Loads every class of the class path but those to be skipped, and yields their
number. -/
def loadAll (skip : String → Bool) : Attempt (ClassPathHost ρ × ρ) LoadError Nat := do
  let host ← Attempt.act (Act.gets Prod.fst)
  let count ← loadEach (host.path.resources.filter fun r => !skip r.1)
  Attempt.act (Act.report .classPath .info ("Loaded " ++ Text.decimal count ++ " classes"))
  return count

/-- Replaces definitions of loaded classes. -/
def redefine (ds : List ClassDefinition) : Act (ClassPathHost ρ) (Except RedefinitionError Unit) :=
  Act.modifyGet fun host =>
    match host.loaded.redefine ds with
    | .error e => (.error e, host)
    | .ok loaded => (.ok (), { host with loaded })

/-- Registers a transformer. -/
def addTransformer (t : Transformer ρ) : Act (ClassPathHost ρ) Unit :=
  Act.modify fun host => { host with hooks := host.hooks ++ [t] }

/-- The host as agents see it. -/
def instrumentation : Instrumentation (ClassPathHost ρ × ρ) (Transformer ρ) where
  loadedClasses := Act.gets fun s => s.1.loaded.loadedClasses
  classBytes c := Act.gets fun s => .ok (s.1.loaded.bytesOf c)
  redefine ds := Act.zoom .fst (redefine ds)
  addTransformer t := Act.zoom .fst (addTransformer t)
  passLimit := Act.gets fun s => s.1.loaded.size + 1

/-- A transformer of the surrounding state as one of the whole. -/
def lift (t : Transformer ρ) : Transformer (ClassPathHost ρ × ρ) := t.zoom .snd

end ClassPathHost

end Reclass
