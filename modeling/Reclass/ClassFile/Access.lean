import Reclass.Text.Decimal

/-!
# Access flags

A class carries sixteen access bits. Twelve of them have names; the others are
kept as they are.
-/

set_option autoImplicit false

namespace Reclass

/-- The access bits of a class. -/
structure AccessFlags where
  bits : UInt16
  deriving DecidableEq, Repr

namespace AccessFlags

def isPublic : AccessFlags := ⟨0x0001⟩
def isFinal : AccessFlags := ⟨0x0010⟩
def isSuper : AccessFlags := ⟨0x0020⟩
def isInterface : AccessFlags := ⟨0x0200⟩
def isAbstract : AccessFlags := ⟨0x0400⟩

/-- The named flags, lowest bit first. -/
def named : List (String × AccessFlags) :=
  [("PUBLIC", ⟨0x0001⟩), ("PRIVATE", ⟨0x0002⟩), ("PROTECTED", ⟨0x0004⟩), ("STATIC", ⟨0x0008⟩),
    ("FINAL", ⟨0x0010⟩), ("SUPER", ⟨0x0020⟩), ("INTERFACE", ⟨0x0200⟩), ("ABSTRACT", ⟨0x0400⟩),
    ("SYNTHETIC", ⟨0x1000⟩), ("ANNOTATION", ⟨0x2000⟩), ("ENUM", ⟨0x4000⟩), ("MODULE", ⟨0x8000⟩)]

/-- Both sets of bits together. -/
def union (a b : AccessFlags) : AccessFlags := ⟨a.bits ||| b.bits⟩

/-- Whether all bits of `flag` are set. -/
def has (a flag : AccessFlags) : Bool := a.bits &&& flag.bits = flag.bits

/-- The names of the flags that are set, lowest bit first. -/
def names (a : AccessFlags) : List String :=
  (named.filter fun (_, flag) => a.has flag).map Prod.fst

/-- The bits that have no name. -/
def unnamed (a : AccessFlags) : UInt16 :=
  named.foldl (fun bits (_, flag) => bits &&& ~~~flag.bits) a.bits

/-- The flags in words: the names joined by bars, unnamed bits last in
hexadecimal. -/
def text (a : AccessFlags) : String :=
  let rest := if a.unnamed = 0 then [] else ["0x" ++ Text.hexadecimal 0 a.unnamed.toNat]
  match a.names ++ rest with
  | [] => "0x0"
  | parts => String.intercalate " | " parts

end AccessFlags

end Reclass
