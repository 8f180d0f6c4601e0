import Reclass.ClassFile.Reader
import Reclass.Text.ModifiedUtf8

/-!
# The constant pool

Slots are numbered from 0. Slot 0 is unusable, and so is the slot after each
8-byte constant. The count in front of the pool is the number of slots, and only
the usable slots are written.
-/

set_option autoImplicit false

namespace Reclass

/-- What a slot of the pool holds. -/
inductive Constant where
  /-- A text in modified UTF-8. -/
  | utf8 (bytes : Bytes)
  /-- A class, by the slot of its name. -/
  | classRef (nameIndex : UInt16)
  /-- Any other constant, its payload kept as it is. -/
  | other (tag : UInt8) (payload : Bytes)
  /-- Slot 0, or the second slot of an 8-byte constant. -/
  | unusable
  deriving DecidableEq, Repr

namespace Constant

def utf8Tag : UInt8 := 1
def classTag : UInt8 := 7
def longTag : UInt8 := 5
def doubleTag : UInt8 := 6

/-- The payload length that goes with a tag, for the constants of fixed size. -/
def payloadSize? (tag : UInt8) : Option Nat :=
  if tag = 3 ∨ tag = 4 then some 4
  else if tag = 5 ∨ tag = 6 then some 8
  else if tag = 8 then some 2
  else if 9 ≤ tag ∧ tag ≤ 12 then some 4
  else if tag = 15 then some 3
  else if tag = 16 then some 2
  else if tag = 17 ∨ tag = 18 then some 4
  else if tag = 19 ∨ tag = 20 then some 2
  else none

/-- Whether the constant takes two slots. -/
def isWide : Constant → Bool
  | other tag _ => tag = longTag || tag = doubleTag
  | _ => false

/-- The constant as it stands in a file; an unusable slot is not written. -/
def encode : Constant → Bytes
  | utf8 bytes => utf8Tag :: (Bytes.ofUInt16 (UInt16.ofNat bytes.length) ++ bytes)
  | classRef nameIndex => classTag :: Bytes.ofUInt16 nameIndex
  | other tag payload => tag :: payload
  | unusable => []

/-- Reads the constant of slot `index`. -/
def read (index : UInt16) : Reader Constant := do
  let tag ← Reader.u1
  if tag = utf8Tag then
    let len ← Reader.u2
    return utf8 (← Reader.take len.toNat)
  else if tag = classTag then
    return classRef (← Reader.u2)
  else match payloadSize? tag with
    | some size => return other tag (← Reader.take size)
    | none => throw (.unknownConstant tag index)

end Constant

/-- The slots of a constant pool, slot 0 first. -/
structure ConstantPool where
  slots : Array Constant
  deriving DecidableEq, Repr

namespace ConstantPool

/-- The pool with slot 0 alone. -/
def empty : ConstantPool := ⟨#[.unusable]⟩

def size (p : ConstantPool) : Nat := p.slots.size

/-- Whether the pool has no slot beside slot 0. -/
def isEmpty (p : ConstantPool) : Bool := p.slots.size ≤ 1

def get? (p : ConstantPool) (index : UInt16) : Option Constant := p.slots[index.toNat]?

/-- Fills one slot, or two when the constant is wide. -/
def append (p : ConstantPool) (c : Constant) : ConstantPool :=
  if c.isWide then ⟨(p.slots.push c).push .unusable⟩ else ⟨p.slots.push c⟩

/-- Appends a constant and returns its slot number, as far as sixteen bits hold
it. -/
def push (p : ConstantPool) (c : Constant) : UInt16 × ConstantPool :=
  (UInt16.ofNat p.slots.size, p.append c)

/-- The text in a slot. -/
def text (p : ConstantPool) (index : UInt16) : Except ClassFormatError String :=
  match p.get? index with
  | some (.utf8 bytes) =>
    match Text.ModifiedUtf8.decode bytes with
    | some s => .ok s
    | none => .error (.badUtf8 index)
  | _ => .error (.badConstantRef index .utf8)

/-- The name of the class in a slot. -/
def className (p : ConstantPool) (index : UInt16) : Except ClassFormatError String :=
  match p.get? index with
  | some (.classRef nameIndex) => p.text nameIndex
  | _ => .error (.badConstantRef index .classRef)

/-- The slot of a constant, which is appended unless some slot holds it already. -/
def intern (p : ConstantPool) (c : Constant) : UInt16 × ConstantPool :=
  match p.slots.findIdx? (· = c) with
  | some i => (UInt16.ofNat i, p)
  | none => p.push c

/-- The slot of a text. -/
def internText (p : ConstantPool) (s : String) : UInt16 × ConstantPool :=
  p.intern (.utf8 (Text.ModifiedUtf8.encode s))

/-- The slot of a class. -/
def internClass (p : ConstantPool) (name : String) : UInt16 × ConstantPool :=
  let (nameIndex, p) := p.internText name
  p.intern (.classRef nameIndex)

/-- Reads constants until `left` more slots are filled. -/
def readSlots : (left : Nat) → ConstantPool → Reader ConstantPool
  | 0, p => pure p
  | left + 1, p => do
    let index := UInt16.ofNat p.slots.size
    let c ← Constant.read index
    if c.isWide then
      -- A wide constant takes one slot more than the one that was left for it.
      match left with
      | 0 => throw (.wideConstantAtEnd index)
      | left' + 1 => readSlots left' (p.append c)
    else readSlots left (p.append c)

/-- Reads a pool: the number of slots, then the constants from slot 1 on. A
count of 0 stands for the pool with slot 0 alone, like a count of 1. -/
def read : Reader ConstantPool := do
  let count ← Reader.u2
  readSlots (count.toNat - 1) empty

/-- The pool as it stands in a file. -/
def encode (p : ConstantPool) : Bytes :=
  Bytes.ofUInt16 (UInt16.ofNat p.slots.size) ++ (p.slots.toList.drop 1).flatMap Constant.encode

end ConstantPool

end Reclass
