import Reclass.ClassPath.Host
import Reclass.CommandLine.LogFilter
import Reclass.CommandLine.Resolve
import Reclass.Text.Json

/-!
# Executing commands

A command works on a file system. It yields an answer, which is written as JSON,
or a failure, which is written as a line of text with its causes below.
-/

set_option autoImplicit false

namespace Reclass

/-- Runs a step over a larger state that is made for the occasion. -/
def Act.over {σ τ α : Type} (make : σ → τ) (keep : τ → σ) (x : Act τ α) : Act σ α := fun s =>
  let out := x (make s)
  ⟨out.value, keep out.state, out.events⟩

namespace DeleterAgent

/-- What the transformer of the agent works on: its counts, the types it has
looked at, and the surroundings. -/
abbrev Workshop (σ : Type) : Type := TransformStats × (Hierarchy × σ)

/-- A workshop that has not been used. -/
def freshWorkshop {σ : Type} (s : σ) : Workshop σ := ({}, (.empty, s))

end DeleterAgent

namespace CommandLine

/-- Why a command failed. -/
inductive CommandError where
  | classPath (cause : ClassPathError)
  | load (cause : LoadError)
  | agent (cause : AgentError)
  | notWritten (out : Path) (cause : Universe.ExportError)
  | resolution (cause : ResolutionError)
  | missing (argument : MissingArgument)
  | storage (cause : StorageError)
  deriving DecidableEq, Repr

/-- The wordings of the failure and its causes, outermost first. -/
def CommandError.chain : CommandError → List String
  | classPath cause => cause.chain
  | load cause => cause.chain
  | agent cause => cause.chain
  | notWritten out cause => ("Failed to write classes to " ++ out) :: cause.chain
  | resolution cause => cause.chain
  | missing argument => [argument.message]
  | storage cause => cause.chain

/-- What running an agent came to. -/
structure RunResult where
  classesLoaded : Nat
  deferredLoaded : Nat
  classesWritten : Option Nat
  report : AgentReport
  deriving DecidableEq, Repr

/-- What filling the cache came to. -/
structure WarmupResult where
  classes : Nat
  transformed : Nat
  stats : TransformStats
  deriving DecidableEq, Repr

/-- What a command has to say. -/
inductive Answer where
  | run (result : RunResult)
  | assignable (target candidate : String) (answer : Bool)
  | warmup (result : WarmupResult)
  | stats (result : CacheStats)
  | cleared
  deriving DecidableEq, Repr

/-- The files of a workshop over a file system. -/
abbrev Workshop : Type := DeleterAgent.Workshop FileSystem

/-- Whether a class is to be loaded only after the agent has started. -/
def isDeferred (defer : List String) (name : String) : Bool :=
  defer.any fun head => Text.startsWith name (ClassName.internal head)

/-- A host with its workshop, both unused. -/
def freshHost (cp : ClassPath) (fs : FileSystem) : ClassPathHost Workshop × Workshop :=
  (.new cp, DeleterAgent.freshWorkshop fs)

/-- The agents that can be run. -/
def registry (env : Environment) (settings : AgentSettings) (cp : ClassPath) :
    AgentRegistry (ClassPathHost Workshop × Workshop) (Transformer Workshop) :=
  SortedMap.empty.insert DeleterAgent.name (DeleterAgent.factory env settings fun plan =>
    return (plan.caching settings cp.source .id).transformer)

/-- Loads classes, runs an agent, loads the deferred classes and writes all of
them out. -/
def runOnHost (env : Environment) (settings : AgentSettings) (agent agentArgs : String)
    (defer : List String) (out : Option Path) :
    Attempt (ClassPathHost Workshop × Workshop) CommandError RunResult := do
  let host ← Attempt.act (Act.gets Prod.fst)
  let classesLoaded ← (ClassPathHost.loadAll (isDeferred defer)).mapError .load
  let report ← (Attempt.of ((registry env settings host.path).runAgent agent
    ClassPathHost.instrumentation ClassPathHost.lift agentArgs)).mapError .agent
  -- The transformers are registered by now and see the deferred classes.
  let deferred := host.path.resources.filter fun r => isDeferred defer r.1
  let deferredLoaded ← (ClassPathHost.loadEach deferred).mapError .load
  match out with
  | none => return { classesLoaded, deferredLoaded, classesWritten := none, report }
  | some dir =>
    let host ← Attempt.act (Act.gets Prod.fst)
    let files : Lens (ClassPathHost Workshop × Workshop) FileSystem :=
      .comp .snd (.comp .snd .snd)
    let written ← (Attempt.of (Act.zoom files (Act.modifyGet (host.loaded.exportTo dir)))).mapError
      (.notWritten dir)
    return { classesLoaded, deferredLoaded, classesWritten := some written, report }

/-- Transforms the classes of a list that a transformer accepts, each as its own
loader sees it, and yields the number of those that changed. -/
def transformEach {σ : Type} (cp : ClassPath) (t : Transformer σ) :
    List (String × LoaderId) → Act σ Nat
  | [] => return 0
  | (name, loader) :: rest => do
    let changed ←
      if ← t.accepts name loader then
        match cp.find name loader with
        | .ok (some (_, bytes)) =>
          let result ← t.apply { loader, className := name, redefining := none, bytes }
          pure (if result.isSome then 1 else 0)
        | _ => pure 0
      else pure 0
    return changed + (← transformEach cp t rest)

/-- Fills the cache for every class of a class path. -/
def warmup (env : Environment) (settings : AgentSettings) (cp : ClassPath)
    (agentArgs : String) : Attempt FileSystem CommandError WarmupResult := do
  match DeletionPlan.ofArguments env agentArgs with
  | .error missing => throw (.missing missing)
  | .ok plan =>
    let t := (plan.caching settings cp.source .id).transformer
    let transformAll : Act Workshop (Nat × TransformStats) := do
      let transformed ← transformEach cp t cp.resources
      return (transformed, ← Act.gets Prod.fst)
    let (transformed, stats) ←
      Attempt.act (Act.over DeleterAgent.freshWorkshop (fun w => w.2.2) transformAll)
    return { classes := cp.resources.length, transformed, stats }

/-- Reads the class path of a command. -/
def openClassPath (paths : List Path) : Attempt FileSystem CommandError ClassPath := do
  let fs ← Attempt.act Act.get
  (ClassPath.ofPaths fs paths).mapError .classPath

/-- Executes a command. -/
def execute (env : Environment) (i : Invocation) : Attempt FileSystem CommandError Answer :=
  let cache : TransformCache := ⟨i.cacheRoot env, i.version env⟩
  match i.command with
  | .run classPath agent agentArgs verbose retryUnreadable defer out => do
    let cp ← openClassPath classPath
    let settings := { i.settings env with redefinition := { verbose, retryUnreadable } }
    let result ← Attempt.of (Act.over (freshHost cp) (fun s => s.2.2.2)
      (runOnHost env settings agent agentArgs defer out).result)
    return .run result
  | .assignable target candidate classPath => do
    let cp ← openClassPath classPath
    let query : Attempt (Hierarchy × FileSystem) ResolutionError Bool :=
      Hierarchy.isAssignableFrom cp.source target candidate cp.applicationLoader
    let answer ← Attempt.mapError .resolution
      (Attempt.of (Act.over (fun fs => (.empty, fs)) Prod.snd query.result))
    return .assignable target candidate answer
  | .warmup classPath agentArgs _ => do
    let cp ← openClassPath classPath
    return .warmup (← warmup env (i.settings env) cp agentArgs)
  | .stats => do
    let fs ← Attempt.act Act.get
    match cache.stats fs with
    | .ok result => return .stats result
    | .error e => throw (.storage e)
  | .clear all => do
    Attempt.mapError .storage (Attempt.of (Act.modifyGet (cache.clear all)))
    Attempt.act (Act.report .program .info
      ("Cleared " ++ if all then cache.root else cache.versionDir))
    return .cleared

end CommandLine

end Reclass
