import Reclass.CommandLine.Execute

/-!
# What is printed

Answers are printed as JSON on standard output, failures as text on the error
output. The log goes to a file or, without a usable one, to the error output.
-/

set_option autoImplicit false

namespace Reclass

open Text (Json)

def RedefineReport.json (r : RedefineReport) : Json :=
  .object [("passes", .number r.passes), ("transformed", .number r.transformed),
    ("redefined", .number r.redefined), ("failed", .list (r.failed.map .text)),
    ("unreadable", .list (r.unreadable.map .text))]

def AgentReport.json (r : AgentReport) : Json :=
  .object [("agent", .text r.agent), ("version", .text r.version),
    ("redefinitions", .list (r.redefinitions.map RedefineReport.json))]

def TransformStats.json (s : TransformStats) : Json :=
  .object [("hits", .number s.hits), ("misses", .number s.misses),
    ("storage_failures", .number s.storageFailures),
    ("transform_failures", .number s.transformFailures), ("dumps", .number s.dumps)]

def VersionStats.json (s : VersionStats) : Json :=
  .object [("version", .text s.version), ("entries", .number s.entries),
    ("bytes", .number s.bytes)]

def CacheStats.json (s : CacheStats) : Json :=
  .object [("cache_root", .text s.cacheRoot), ("current_version", .text s.currentVersion),
    ("versions", .list (s.versions.map VersionStats.json))]

namespace CommandLine

/-- The answer as JSON, given how long the command took. -/
def Answer.json? (milliseconds : Nat) : Answer → Option Json
  | run r => some (.object [("classes_loaded", .number r.classesLoaded),
      ("deferred_loaded", .number r.deferredLoaded),
      ("classes_written", match r.classesWritten with
        | some n => .number n
        | none => .null),
      ("duration_ms", .number milliseconds), ("report", r.report.json)])
  | assignable target candidate answer => some (.object [("target", .text target),
      ("candidate", .text candidate), ("assignable", .bool answer)])
  | warmup r => some (.object [("classes", .number r.classes),
      ("transformed", .number r.transformed), ("duration_ms", .number milliseconds),
      ("stats", r.stats.json)])
  | stats s => some s.json
  | cleared => none

/-- A cause behind a head; its further lines are indented by as much. -/
def indented (head cause : String) : String :=
  let lines := (Text.splitOn '\n' cause.toList).map String.ofList
  let blanks := String.ofList (List.replicate head.length ' ')
  head ++ String.intercalate ("\n" ++ blanks) lines

/-- Causes below a failure: one is indented, several are numbered. -/
def causeLines : List String → List String
  | [] => []
  | [cause] => ["", "Caused by:", indented "    " cause]
  | causes =>
    ["", "Caused by:"] ++ causes.zipIdx.map fun (cause, i) =>
      indented ("    " ++ Text.decimal i ++ ": ") cause

/-- A failure as text. -/
def errorText : List String → String
  | [] => "Error"
  | failure :: causes => String.intercalate "\n" (("Error: " ++ failure) :: causeLines causes)

/-- How the program is used. -/
def usageText : String :=
  String.intercalate "\n"
    ["usage: jagent [OPTION...] COMMAND",
      "  run -c PATH... [-a ARGS] [--agent NAME] [--defer NAME] [-o DIR]",
      "      [--verbose-redefinition] [--retry-unreadable]",
      "  assignable TARGET CANDIDATE -c PATH...",
      "  warmup -c PATH... [-a ARGS] [--threads N]",
      "  stats",
      "  clear [--all]",
      "options: --cache DIR, --no-cache, --dump DIR, --cache-version NAME,",
      "  --log-level LEVEL, --log-file FILE"]

/-- Where the log goes. -/
inductive LogSink where
  | errorOutput
  | file (path : Path)
  deriving DecidableEq, Repr

/-- Makes sure that the log file can be written; the log goes to the error output
when it cannot. -/
def openLog (i : Invocation) : Act FileSystem LogSink := do
  match i.logFile with
  | none => return .errorOutput
  | some path =>
    let fs ← Act.get
    let content := match fs.readFile path with
      | .ok bytes => bytes
      | .error _ => []
    match fs.writeFile path content with
    | .ok fs =>
      Act.set fs
      return .file path
    | .error e =>
      Act.report .logging .warn ("Failed to log to file " ++ path ++ ": " ++ e.message)
      return .errorOutput

/-- How a run of the program ends. -/
structure Completion where
  exitCode : Nat
  answer : Option Answer
  /-- The failure with its causes. -/
  failure : List String
  sink : LogSink
  filter : LogFilter
  deriving DecidableEq, Repr

/-- Adds lines to a log file, each behind a stamp. A file that has been removed in
the meantime stays so. -/
def writeLog (fs : FileSystem) (path : Path) (stamp : String) (lines : List String) : FileSystem :=
  let text := String.join (lines.map fun line => stamp ++ " " ++ line ++ "\n")
  match fs.appendFile path (Bytes.ofText text) with
  | .ok fs => fs
  | .error _ => fs

/-- A run of the program from its arguments on. What is logged to a file is there at
the end. -/
def invoke (env : Environment) (stamp : String) (words : List String) :
    Act FileSystem Completion :=
  match parse words with
  | .error usage => return ⟨usage.exitCode, none, [], .errorOutput, []⟩
  | .ok i => do
    let filter := LogFilter.resolve env i.logLevel
    let sink ← openLog i
    let (result, events) ← (execute env i).result.listen
    match sink with
    | .file path => Act.modify fun fs => writeLog fs path stamp (filter.lines events)
    | .errorOutput => pure ()
    match result with
    | .ok answer => return ⟨0, some answer, [], sink, filter⟩
    | .error e => return ⟨1, none, e.chain, sink, filter⟩

end CommandLine

end Reclass
