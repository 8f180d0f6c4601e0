import Reclass.Files.Error
import Reclass.Files.Path

/-!
# Failures of the cache and of the dump directory
-/

set_option autoImplicit false

namespace Reclass

/-- What was being done when storage failed. -/
inductive StorageOp where
  | read
  | create
  | write
  | rename
  | remove
  | list
  deriving DecidableEq, Repr

def StorageOp.name : StorageOp → String
  | read => "read"
  | create => "create"
  | write => "write"
  | rename => "rename"
  | remove => "remove"
  | list => "list"

/-- An operation on a path that the system refused. -/
structure StorageError where
  op : StorageOp
  path : Path
  cause : OsError
  deriving DecidableEq, Repr

namespace StorageError

def message (e : StorageError) : String := e.op.name ++ " " ++ e.path ++ ": " ++ e.cause.message

/-- The wordings of the failure and of its cause, outermost first. -/
def chain (e : StorageError) : List String := [e.message, e.cause.message]

end StorageError

end Reclass
