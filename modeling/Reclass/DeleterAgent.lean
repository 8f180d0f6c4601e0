import Reclass.Agent
import Reclass.Hierarchy.Assignability
import Reclass.Settings.Arguments
import Reclass.Transform.Caching
import Reclass.Transform.Deleter

/-!
# The method-deleter agent

The agent installs one caching transformer around a method deleter. Its argument
string names the class and the method, and with `subtypes` the classes
assignable to that class are meant as well.
-/

set_option autoImplicit false

namespace Reclass

/-- What the transformers of an agent have in common. -/
structure AgentSettings where
  version : String
  cacheDir : Option Path
  dumpDir : Option Path
  redefinition : RedefineOptions := {}
  deriving DecidableEq, Repr

namespace AgentSettings

/-- The cache that the settings name. -/
def cache? (s : AgentSettings) : Option TransformCache :=
  s.cacheDir.map fun root => ⟨root, s.version⟩

/-- The caching transformer around an edit whose state holds a file system. -/
def caching {σ : Type} (s : AgentSettings) (inner : Transformation σ)
    (files : Lens σ FileSystem) : CachingTransformer σ where
  inner := inner
  store := s.cache?.map fun cache => cache.resultStore files
  dump := s.dumpDir.map fun root => DumpDir.target ⟨root⟩ files

end AgentSettings

/-- An argument that is not given. -/
inductive MissingArgument where
  | className
  | method
  deriving DecidableEq, Repr

def MissingArgument.message : MissingArgument → String
  | className => "Missing class (agent argument `class` or JAGENT_DELETE_CLASS)"
  | method => "Missing method (agent argument `method` or JAGENT_DELETE_METHOD)"

/-- What the arguments ask for. -/
structure DeletionPlan where
  /-- The internal name of the class. -/
  className : String
  method : String
  subtypes : Bool
  deriving DecidableEq, Repr

namespace DeletionPlan

/-- Reads the plan from arguments; the environment stands in for those missing. -/
def ofArguments (env : Environment) (arguments : String) :
    Except MissingArgument DeletionPlan := do
  let args := AgentArguments.parse arguments
  let className ←
    match args.valueOr "class" env "JAGENT_DELETE_CLASS" with
    | some name => pure (ClassName.internal name)
    | none => throw .className
  let method ←
    match args.valueOr "method" env "JAGENT_DELETE_METHOD" with
    | some name => pure name
    | none => throw .method
  return { className, method, subtypes := SortedMap.contains args "subtypes" }

variable {σ : Type}

/-- The deleter of the plan, which follows ancestors through a source. -/
def deleter (p : DeletionPlan) (src : ClassSource σ) : MethodDeleter (Hierarchy × σ) where
  className := p.className
  method := p.method
  isSubtype :=
    if p.subtypes then
      some fun candidate loader => Hierarchy.isAssignableFrom src p.className candidate loader
    else none

/-- The caching transformer of the plan. -/
def caching (p : DeletionPlan) (settings : AgentSettings) (src : ClassSource σ)
    (files : Lens σ FileSystem) : CachingTransformer (Hierarchy × σ) :=
  settings.caching (p.deleter src).transformation (Lens.comp .snd files)

end DeletionPlan

namespace DeleterAgent

/-- The name that the agent goes by. -/
def name : String := "method-deleter"

/-- The version of the program. -/
def version : String := "0.1.0"

/-- The agent with its one transformer. -/
def agent {τ : Type} (settings : AgentSettings) (transformer : τ) : Agent τ where
  name := name
  version := version
  transformers := [transformer]
  options := settings.redefinition

/-- Makes the agent from its argument string, with the transformer that is made for
what the arguments ask. -/
def factory {σ τ : Type} (env : Environment) (settings : AgentSettings)
    (install : DeletionPlan → Act σ τ) : AgentFactory σ τ := fun arguments => do
  match DeletionPlan.ofArguments env arguments with
  | .error missing => return .error [missing.message]
  | .ok plan => return .ok (agent settings (← install plan))

end DeleterAgent

end Reclass
