import Reclass.Redefinition.Run
import Reclass.SortedMap

/-!
# Agents

An agent redefines what a host has loaded already and then registers its
transformers for what is loaded later, one transformer after the other. A
registry makes agents by name from an argument string.
-/

set_option autoImplicit false

namespace Reclass

/-- An agent, with its transformers as handles of a type `τ`. -/
structure Agent (τ : Type) where
  name : String
  version : String
  transformers : List τ
  options : RedefineOptions := {}

/-- What an agent has done: a report for each transformer. -/
structure AgentReport where
  agent : String
  version : String
  redefinitions : List RedefineReport
  deriving DecidableEq, Repr

namespace Agent

variable {σ τ : Type}

/-- Takes the transformers in order: redefines with one, then registers it. The
first run that fails ends it all. -/
def install (host : Instrumentation σ τ) (transformer : τ → Transformer σ)
    (opts : RedefineOptions) : List τ → Act σ (Except RedefinitionError (List RedefineReport))
  | [] => return .ok []
  | t :: ts => do
    match ← Redefinition.run host (transformer t) opts with
    | .error e => return .error e
    | .ok report =>
      host.addTransformer t
      match ← install host transformer opts ts with
      | .error e => return .error e
      | .ok reports => return .ok (report :: reports)

/-- The span of work in which an agent reports. -/
def span (name : String) : Span := ⟨.agent, .info, "agent", [("name", name)]⟩

/-- Runs the agent on a host. -/
def go (a : Agent τ) (host : Instrumentation σ τ) (transformer : τ → Transformer σ) :
    Act σ (Except RedefinitionError AgentReport) :=
  Act.within (span a.name) do
    Act.report .agent .info ("Loading " ++ a.name ++ " " ++ a.version ++ "...")
    match ← install host transformer a.options a.transformers with
    | .error e => return .error e
    | .ok redefinitions =>
      Act.report .agent .info ("Done redefining with " ++ a.name ++ ".")
      return .ok { agent := a.name, version := a.version, redefinitions }

end Agent

/-- Makes an agent from its argument string, or says why not: the wordings of the
failure and its causes, outermost first. -/
abbrev AgentFactory (σ τ : Type) : Type := String → Act σ (Except (List String) (Agent τ))

/-- Why a registry did not run an agent. -/
inductive AgentError where
  /-- No agent of that name; these are the names there are. -/
  | unknown (name : String) (known : List String)
  | notCreated (name : String) (causes : List String)
  | notRun (name : String) (cause : RedefinitionError)
  deriving DecidableEq, Repr

/-- The wordings of the failure and its causes, outermost first. -/
def AgentError.chain : AgentError → List String
  | unknown name known =>
    ["Invalid agent " ++ name ++ " (known agents: " ++ String.intercalate ", " known ++ ")"]
  | notCreated name causes => ("Failed to create agent " ++ name) :: causes
  | notRun name cause =>
    ("Agent " ++ name ++ " failed to redefine loaded classes") :: cause.chain

/-- Agents by name. -/
abbrev AgentRegistry (σ τ : Type) : Type := SortedMap (AgentFactory σ τ)

namespace AgentRegistry

variable {σ τ : Type}

/-- Makes an agent and runs it on a host. -/
def runAgent (registry : AgentRegistry σ τ) (name : String) (host : Instrumentation σ τ)
    (transformer : τ → Transformer σ) (arguments : String) :
    Act σ (Except AgentError AgentReport) := do
  match SortedMap.get? registry name with
  | none => return .error (.unknown name (SortedMap.keys registry))
  | some create =>
    match ← create arguments with
    | .error causes => return .error (.notCreated name causes)
    | .ok agent =>
      match ← agent.go host transformer with
      | .error e => return .error (.notRun name e)
      | .ok report => return .ok report

end AgentRegistry

end Reclass
