import Reclass.CommandLine.Parse

/-!
# Effective settings

What the command line leaves open is taken from the environment, and else from a
default. A variable that is set to nothing counts as not set.
-/

set_option autoImplicit false

namespace Reclass.CommandLine

/-- The user's home directory: the one that the environment names, or else that of the
superuser. -/
def home (env : Environment) : Path := (env.nonempty? "HOME").getD "/root"

/-- The directory in which programs of a user keep their caches: the one that the
environment names by an absolute path, or else `.cache` at home. -/
def userCacheDir (env : Environment) : Path :=
  ((env.lookup "XDG_CACHE_HOME").filter Path.isAbsolute).getD (Path.join (home env) ".cache")

/-- The cache in the user's cache directory. -/
def defaultCacheRoot (env : Environment) : Path :=
  Path.join (Path.join (userCacheDir env) "jagent") "cache"

/-- The variables of the environment that the program looks at. -/
def variableNames : List String :=
  ["HOME", "XDG_CACHE_HOME", "JAGENT_CACHE_DIR", "JAGENT_DUMP_DIR", "JAGENT_CACHE_VERSION",
    "JAGENT_DELETE_CLASS", "JAGENT_DELETE_METHOD", "RUST_LOG"]

namespace Invocation

/-- The directory of the cache, whether results are cached or not. -/
def cacheRoot (i : Invocation) (env : Environment) : Path :=
  match i.cache with
  | some dir => dir
  | none => (env.nonempty? "JAGENT_CACHE_DIR").getD (defaultCacheRoot env)

/-- The directory of the cache, when results are cached. -/
def cacheDir (i : Invocation) (env : Environment) : Option Path :=
  if i.noCache then none else some (i.cacheRoot env)

/-- The dump directory, when there is one. -/
def dumpDir (i : Invocation) (env : Environment) : Option Path :=
  i.dump.or (env.nonempty? "JAGENT_DUMP_DIR")

/-- The version whose results are cached and used. -/
def version (i : Invocation) (env : Environment) : String :=
  (i.cacheVersion.or (env.nonempty? "JAGENT_CACHE_VERSION")).getD DeleterAgent.version

/-- What the transformers of an agent have in common. How to redefine is left to
the command that does it. -/
def settings (i : Invocation) (env : Environment) : AgentSettings where
  version := i.version env
  cacheDir := i.cacheDir env
  dumpDir := i.dumpDir env
  redefinition := {}

/-- The paths at or below which the command reads or writes. -/
def paths (i : Invocation) (env : Environment) : List Path :=
  let stores := (i.cacheDir env).toList ++ (i.dumpDir env).toList
  i.logFile.toList ++ match i.command with
    | .run classPath _ _ _ _ _ out => classPath ++ out.toList ++ stores
    | .assignable _ _ classPath => classPath
    | .warmup classPath _ _ => classPath ++ stores
    | .stats | .clear _ => [i.cacheRoot env]

end Invocation

end Reclass.CommandLine
