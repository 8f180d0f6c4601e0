import Reclass.ClassFile.Access
import Reclass.ClassFile.ConstantPool

/-!
# The leading part of a class file

Everything up to the interface table comes first: versions, constant pool,
access bits and the slots of the class itself, its super class and its
interfaces. `ClassHeader` is that part with the names looked up, which is all
that a question about the hierarchy needs; what follows in the file is not read.
-/

set_option autoImplicit false

namespace Reclass

/-- The first four bytes of every class file. -/
def classFileMagic : UInt32 := 0xCAFEBABE

/-- The leading part as it stands in the file. -/
structure ClassPreamble where
  minorVersion : UInt16
  majorVersion : UInt16
  pool : ConstantPool
  access : AccessFlags
  thisClass : UInt16
  /-- Slot 0 stands for "no super class". -/
  superClass : UInt16
  interfaces : List UInt16
  deriving DecidableEq, Repr

namespace ClassPreamble

def read : Reader ClassPreamble := do
  let magic ← Reader.u4
  if magic ≠ classFileMagic then throw (.badMagic magic)
  let minorVersion ← Reader.u2
  let majorVersion ← Reader.u2
  let pool ← ConstantPool.read
  let access ← Reader.u2
  let thisClass ← Reader.u2
  let superClass ← Reader.u2
  let interfaces ← Reader.table Reader.u2
  return { minorVersion, majorVersion, pool, access := ⟨access⟩, thisClass, superClass, interfaces }

def encode (p : ClassPreamble) : Bytes :=
  Bytes.ofUInt32 classFileMagic ++ Bytes.ofUInt16 p.minorVersion ++
    Bytes.ofUInt16 p.majorVersion ++ p.pool.encode ++ Bytes.ofUInt16 p.access.bits ++
    Bytes.ofUInt16 p.thisClass ++ Bytes.ofUInt16 p.superClass ++
    Bytes.ofUInt16 (UInt16.ofNat p.interfaces.length) ++ p.interfaces.flatMap Bytes.ofUInt16

end ClassPreamble

/-- The facts about a class that its ancestry depends on. -/
structure ClassHeader where
  minorVersion : UInt16
  majorVersion : UInt16
  access : AccessFlags
  /-- The internal name. -/
  name : String
  superName : Option String
  interfaces : List String
  deriving DecidableEq, Repr

namespace ClassHeader

/-- Looks the names up: the super class first, then the interfaces in order,
then the class itself. -/
def ofPreamble (p : ClassPreamble) : Except ClassFormatError ClassHeader := do
  let superName ←
    if p.superClass = 0 then pure none else some <$> p.pool.className p.superClass
  let interfaces ← p.interfaces.mapM p.pool.className
  let name ← p.pool.className p.thisClass
  return { minorVersion := p.minorVersion, majorVersion := p.majorVersion, access := p.access,
           name, superName, interfaces }

/-- The header at the front of a byte string. -/
def parse (bs : Bytes) : Except ClassFormatError ClassHeader := do
  let p ← ClassPreamble.read.value bs
  ofPreamble p

def isInterface (h : ClassHeader) : Bool := h.access.has .isInterface

end ClassHeader

end Reclass
