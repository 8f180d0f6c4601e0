import Reclass.Text.Decimal

/-!
# What the file system refuses
-/

set_option autoImplicit false

namespace Reclass

/-- The reasons why an operation on files fails. -/
inductive OsError where
  | notFound
  | busy
  | exists
  /-- What is not a file cannot be mapped into memory. -/
  | noDevice
  | notDirectory
  | isDirectory
  | invalidArgument
  | nameTooLong
  | notEmpty
  /-- A path with a NUL character never reaches the system. -/
  | nulInPath
  deriving DecidableEq, Repr

namespace OsError

/-- The number of the reason, and its wording. -/
def code : OsError → Option (Nat × String)
  | notFound => some (2, "No such file or directory")
  | busy => some (16, "Device or resource busy")
  | .exists => some (17, "File exists")
  | noDevice => some (19, "No such device")
  | notDirectory => some (20, "Not a directory")
  | isDirectory => some (21, "Is a directory")
  | invalidArgument => some (22, "Invalid argument")
  | nameTooLong => some (36, "File name too long")
  | notEmpty => some (39, "Directory not empty")
  | nulInPath => none

def message (e : OsError) : String :=
  match e.code with
  | some (number, text) => text ++ " (os error " ++ Text.decimal number ++ ")"
  | none => "file name contained an unexpected NUL byte"

end OsError

end Reclass
