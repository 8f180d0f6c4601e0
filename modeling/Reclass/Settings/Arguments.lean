import Reclass.SortedMap
import Reclass.Text.Split

/-!
# Agent arguments and the environment

Agent arguments are parts between commas, `key=value` or a bare `key`, which
stands for `key=true`. White space around keys and values does not count, blank
parts are nothing, and of two parts with one key the later one wins.
-/

set_option autoImplicit false

namespace Reclass

/-- Agent arguments by key. -/
abbrev AgentArguments : Type := SortedMap String

/-- The values of environment variables. -/
abbrev Environment : Type := List (String × String)

namespace Environment

/-- The value of a variable that is set to something. -/
def nonempty? (env : Environment) (name : String) : Option String :=
  (env.lookup name).filter fun value => value ≠ ""

end Environment

namespace AgentArguments

/-- A trimmed part as key and value. -/
def entry (part : List Char) : String × String :=
  match Text.splitOnce '=' part with
  | some (key, value) => (String.ofList (Text.trim key), String.ofList (Text.trim value))
  | none => (String.ofList part, "true")

/-- The entries of an argument string in order. -/
def entries (cs : List Char) : List (String × String) :=
  (((Text.splitOn ',' cs).map Text.trim).filter fun part => !part.isEmpty).map entry

/-- Reads an argument string. -/
def parse (s : String) : AgentArguments := SortedMap.ofList (entries s.toList)

/-- The value of an argument, or else of an environment variable, unless it is
empty. An empty argument hides the variable. -/
def valueOr (args : AgentArguments) (key : String) (env : Environment) (variableName : String) :
    Option String :=
  ((SortedMap.get? args key).or (env.lookup variableName)).filter fun value => value ≠ ""

end AgentArguments

end Reclass
