import Reclass.ClassFile.Basic
import Reclass.ClassName

/-!
# Building minimal class files

A `ClassSketch` says what a class is called, what it extends and implements and
which methods it declares. `ClassSketch.classFile` lays it out: every text and
every class is entered into the constant pool once, in the order in which it is
first needed.
-/

set_option autoImplicit false

namespace Reclass

/-- A class without code: a header, and methods that need no body. -/
structure ClassSketch where
  /-- The internal name. -/
  name : String
  superName : Option String := some "java/lang/Object"
  interfaces : List String := []
  access : AccessFlags := .union .isPublic .isSuper
  /-- Names and descriptors. -/
  methods : List (String × String) := []
  deriving DecidableEq, Repr

namespace ClassSketch

/-- A public class that extends the root type. -/
def new (name : String) : ClassSketch := { name := ClassName.internal name }

/-- Turns the class into an interface. -/
def asInterface (s : ClassSketch) : ClassSketch :=
  { s with access := .union .isPublic (.union .isInterface .isAbstract) }

def withSuper (s : ClassSketch) (name : Option String) : ClassSketch :=
  { s with superName := name.map ClassName.internal }

def implementing (s : ClassSketch) (name : String) : ClassSketch :=
  { s with interfaces := s.interfaces ++ [ClassName.internal name] }

def withAccess (s : ClassSketch) (access : AccessFlags) : ClassSketch := { s with access }

/-- Adds a public native method. -/
def withMethod (s : ClassSketch) (name descriptor : String) : ClassSketch :=
  { s with methods := s.methods ++ [(name, descriptor)] }

/-- The access bits of a public native method. -/
def publicNative : UInt16 := 0x0101

/-- The major version of the classes built. -/
def majorVersion : UInt16 := 52

/-- The slots of the classes, entered in order. -/
def internClasses : List String → ConstantPool → List UInt16 × ConstantPool
  | [], pool => ([], pool)
  | name :: names, pool =>
    let (index, pool) := pool.internClass name
    let (indexes, pool) := internClasses names pool
    (index :: indexes, pool)

/-- The methods, their names and descriptors entered in order. -/
def internMethods : List (String × String) → ConstantPool → List Member × ConstantPool
  | [], pool => ([], pool)
  | (name, descriptor) :: methods, pool =>
    let (nameIndex, pool) := pool.internText name
    let (descriptorIndex, pool) := pool.internText descriptor
    let (members, pool) := internMethods methods pool
    ({ access := publicNative, nameIndex, descriptorIndex, attributes := [] } :: members, pool)

/-- The class file that the sketch describes. -/
def classFile (s : ClassSketch) : ClassFile :=
  let (thisClass, pool) := ConstantPool.empty.internClass s.name
  let (superClass, pool) :=
    match s.superName with
    | some name => pool.internClass name
    | none => (0, pool)
  let (interfaces, pool) := internClasses s.interfaces pool
  let (methods, pool) := internMethods s.methods pool
  { minorVersion := 0, majorVersion, pool, access := s.access, thisClass, superClass, interfaces,
    fields := [], methods, attributes := [] }

/-- The bytes of that class file. -/
def encode (s : ClassSketch) : Bytes := s.classFile.encode

end ClassSketch

end Reclass
