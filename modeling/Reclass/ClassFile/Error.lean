import Reclass.Text.Decimal

/-!
# What can be wrong with a class file
-/

set_option autoImplicit false

namespace Reclass

/-- The kinds of constant that an index can be required to refer to. -/
inductive ConstantKind where
  | utf8
  | classRef
  deriving DecidableEq, Repr

/-- Structural faults of a class file. -/
inductive ClassFormatError where
  /-- The first four bytes are not the magic number. -/
  | badMagic (magic : UInt32)
  /-- The file ends `needed` bytes too early for the item at `offset`. -/
  | truncated (offset needed : Nat)
  /-- The constant in slot `index` has an unknown tag. -/
  | unknownConstant (tag : UInt8) (index : UInt16)
  /-- The slot `index` holds no constant of the kind required. -/
  | badConstantRef (index : UInt16) (kind : ConstantKind)
  /-- The bytes in slot `index` are not modified UTF-8. -/
  | badUtf8 (index : UInt16)
  /-- The two-slot constant in slot `index` has no second slot. -/
  | wideConstantAtEnd (index : UInt16)
  /-- So many bytes follow the class. -/
  | trailingBytes (count : Nat)
  /-- The file defines another class than the one looked for. -/
  | nameMismatch (expected found : String)
  deriving DecidableEq, Repr

namespace ConstantKind

def name : ConstantKind → String
  | utf8 => "Utf8"
  | classRef => "Class"

end ConstantKind

namespace ClassFormatError

open Text (decimal hexadecimal)

/-- The wording of a fault. -/
def message : ClassFormatError → String
  | badMagic magic => "bad magic number 0x" ++ hexadecimal 8 magic.toNat
  | truncated offset needed =>
    "unexpected end of class file at offset " ++ decimal offset ++
      " (needed " ++ decimal needed ++ " more bytes)"
  | unknownConstant tag index =>
    "unknown constant pool tag " ++ decimal tag.toNat ++ " at index " ++ decimal index.toNat
  | badConstantRef index kind =>
    "constant pool index " ++ decimal index.toNat ++ " does not refer to a " ++ kind.name ++
      " entry"
  | badUtf8 index =>
    "constant pool entry " ++ decimal index.toNat ++ " is not valid modified UTF-8"
  | wideConstantAtEnd index =>
    "8-byte constant at index " ++ decimal index.toNat ++ " has no room for its second slot"
  | trailingBytes count => decimal count ++ " trailing bytes after class file"
  | nameMismatch expected found =>
    "class file defines " ++ found ++ ", expected " ++ expected

end ClassFormatError

end Reclass
