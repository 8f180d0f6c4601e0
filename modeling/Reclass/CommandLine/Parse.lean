import Reclass.CommandLine.Options
import Reclass.DeleterAgent

/-!
# The command line

Options that hold for every command come first, then the command with options of
its own.
-/

set_option autoImplicit false

namespace Reclass.CommandLine

/-- What is to be done. -/
inductive Command where
  /-- Load a class path, run an agent over it and report the redefinitions. -/
  | run (classPath : List Path) (agent agentArgs : String) (verboseRedefinition : Bool)
      (retryUnreadable : Bool) (defer : List String) (out : Option Path)
  /-- Check whether `candidate` is assignable to `target`. -/
  | assignable (target candidate : String) (classPath : List Path)
  /-- Fill the transform cache for every class of a class path. -/
  | warmup (classPath : List Path) (agentArgs : String) (threads : Option Nat)
  /-- Show what the transform cache holds. -/
  | stats
  /-- Empty the transform cache, for one version or for all. -/
  | clear (all : Bool)
  deriving DecidableEq, Repr

/-- A command with the options that hold for every command. -/
structure Invocation where
  command : Command
  cache : Option Path
  noCache : Bool
  dump : Option Path
  cacheVersion : Option String
  logLevel : Level
  logFile : Option Path
  deriving DecidableEq, Repr

/-- A path that is given has to name something. -/
def isPath (s : String) : Bool := s ≠ ""

/-- The severity that a word names. -/
def level? : String → Option Level
  | "debug" => some .debug
  | "info" => some .info
  | "warn" => some .warn
  | "error" => some .error
  | _ => none

/-- The options that hold for every command. -/
def generalOptions : List OptionSpec :=
  [{ name := "cache", arity := .one, accepts := isPath },
    { name := "no-cache", arity := .none },
    { name := "dump", arity := .one, accepts := isPath },
    { name := "cache-version", arity := .one },
    { name := "log-level", arity := .one, accepts := fun s => (level? s).isSome },
    { name := "log-file", arity := .one, accepts := isPath }]

def classPathOption : OptionSpec :=
  { name := "classpath", letter := some 'c', arity := .several, repeats := true,
    accepts := isPath }

def agentArgsOption : OptionSpec := { name := "agent-args", letter := some 'a', arity := .one }

def runOptions : List OptionSpec :=
  [classPathOption, agentArgsOption,
    { name := "agent", arity := .one },
    { name := "verbose-redefinition", arity := .none },
    { name := "retry-unreadable", arity := .none },
    { name := "defer", arity := .one, repeats := true },
    { name := "out", letter := some 'o', arity := .one, accepts := isPath }]

def warmupOptions : List OptionSpec :=
  [classPathOption, agentArgsOption,
    { name := "threads", arity := .one, accepts := fun s => (Text.count? s.toList).isSome }]

def clearOptions : List OptionSpec := [{ name := "all", arity := .none }]

/-- The class path that a command needs. -/
def classPathOf (s : Scanned) : Except Usage (List Path) :=
  match s.all "classpath" with
  | [] => .error .invalid
  | paths => .ok paths

/-- The commands by name. -/
def commandNames : List String := ["run", "assignable", "warmup", "stats", "clear", "help"]

/-- Help on a command asks for help; on anything else it is a mistake. -/
def helpOn : List String → Usage
  | [] => .help
  | [name] => if commandNames.contains name then .help else .invalid
  | _ => .invalid

/-- Reads a command and its options. -/
def parseCommand (name : String) (words : List String) : Except Usage Command :=
  match name with
  | "run" => do
    let s ← scanAll runOptions 0 words
    return .run (← classPathOf s) ((s.value? "agent").getD DeleterAgent.name)
      ((s.value? "agent-args").getD "") (s.isSet "verbose-redefinition")
      (s.isSet "retry-unreadable") (s.all "defer") (s.value? "out")
  | "assignable" => do
    let s ← scanAll [classPathOption] 2 words
    match s.words with
    | [target, candidate] => return .assignable target candidate (← classPathOf s)
    | _ => throw .invalid
  | "warmup" => do
    let s ← scanAll warmupOptions 0 words
    return .warmup (← classPathOf s) ((s.value? "agent-args").getD "")
      ((s.value? "threads").bind fun s => Text.count? s.toList)
  | "stats" => do
    let _ ← scanAll [] 0 words
    return .stats
  | "clear" => do
    let s ← scanAll clearOptions 0 words
    return .clear (s.isSet "all")
  | "help" => .error (helpOn words)
  | _ => .error .invalid

/-- Reads a command line. A cache cannot be both given and switched off. -/
def parse (words : List String) : Except Usage Invocation := do
  let p ← scanUntilWord generalOptions words
  match p.rest with
  | [] => throw .invalid
  | name :: words =>
    -- Help on the command goes before the option in front of it and before the conflict.
    let command ← parseCommand name words
    let s ← p.found.complete p.pending
    if s.isSet "no-cache" && (s.value? "cache").isSome then throw .invalid
    return { command, cache := s.value? "cache", noCache := s.isSet "no-cache",
             dump := s.value? "dump", cacheVersion := s.value? "cache-version",
             logLevel := ((s.value? "log-level").bind level?).getD .info,
             logFile := s.value? "log-file" }

end Reclass.CommandLine
