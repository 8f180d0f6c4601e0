import Reclass.ClassFile.Header

/-!
# Whole class files

`ClassFile` keeps every part of a class file: constants and attributes verbatim,
members by their slots. Parsing and encoding are inverse to each other, so a
structural edit changes nothing but what it names. The one edit offered drops
all methods of a name.
-/

set_option autoImplicit false

namespace Reclass

/-- A named blob. -/
structure Attribute where
  nameIndex : UInt16
  info : Bytes
  deriving DecidableEq, Repr

namespace Attribute

def read : Reader Attribute := do
  let nameIndex ← Reader.u2
  let length ← Reader.u4
  let info ← Reader.take length.toNat
  return { nameIndex, info }

def encode (a : Attribute) : Bytes :=
  Bytes.ofUInt16 a.nameIndex ++ Bytes.ofUInt32 (UInt32.ofNat a.info.length) ++ a.info

end Attribute

/-- A table as it stands in a file: its length, then its items. -/
def encodeTable {α : Type} (item : α → Bytes) (xs : List α) : Bytes :=
  Bytes.ofUInt16 (UInt16.ofNat xs.length) ++ xs.flatMap item

/-- A field or a method. -/
structure Member where
  access : UInt16
  nameIndex : UInt16
  descriptorIndex : UInt16
  attributes : List Attribute
  deriving DecidableEq, Repr

namespace Member

def read : Reader Member := do
  let access ← Reader.u2
  let nameIndex ← Reader.u2
  let descriptorIndex ← Reader.u2
  let attributes ← Reader.table Attribute.read
  return { access, nameIndex, descriptorIndex, attributes }

def encode (m : Member) : Bytes :=
  Bytes.ofUInt16 m.access ++ Bytes.ofUInt16 m.nameIndex ++ Bytes.ofUInt16 m.descriptorIndex ++
    encodeTable Attribute.encode m.attributes

end Member

/-- A class file. -/
structure ClassFile extends ClassPreamble where
  fields : List Member
  methods : List Member
  attributes : List Attribute
  deriving DecidableEq, Repr

namespace ClassFile

def read : Reader ClassFile := do
  let preamble ← ClassPreamble.read
  let fields ← Reader.table Member.read
  let methods ← Reader.table Member.read
  let attributes ← Reader.table Attribute.read
  return { preamble with fields, methods, attributes }

/-- The class file that the bytes spell, without a byte left over. -/
def parse (bs : Bytes) : Except ClassFormatError ClassFile := do
  let (cf, c) ← read (Reader.start bs)
  match c.rest with
  | [] => return cf
  | rest => throw (.trailingBytes rest.length)

/-- The class file as bytes. -/
def encode (cf : ClassFile) : Bytes :=
  cf.toClassPreamble.encode ++ encodeTable Member.encode cf.fields ++
    encodeTable Member.encode cf.methods ++ encodeTable Attribute.encode cf.attributes

/-- The internal name of the class. -/
def name (cf : ClassFile) : Except ClassFormatError String := cf.pool.className cf.thisClass

/-- The names of the methods in order. -/
def methodNames (cf : ClassFile) : Except ClassFormatError (List String) :=
  cf.methods.mapM fun m => cf.pool.text m.nameIndex

/-- Whether the method is called `name`. -/
def isCalled (cf : ClassFile) (name : String) (m : Member) : Bool :=
  match cf.pool.text m.nameIndex with
  | .ok n => n = name
  | .error _ => false

/-- Drops every method called `name`, whatever its descriptor, and says how many
there were. All method names have to be readable. The constants of the dropped
methods stay behind. -/
def removeMethods (cf : ClassFile) (name : String) :
    Except ClassFormatError (ClassFile × Nat) := do
  let _ ← cf.methodNames
  let kept := cf.methods.filter fun m => !cf.isCalled name m
  return ({ cf with methods := kept }, cf.methods.length - kept.length)

end ClassFile

end Reclass
