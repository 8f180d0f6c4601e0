import Reclass.ClassFile.Header
import Reclass.ClassName
import Reclass.Loader
import Reclass.Text.Quoted

/-!
# Type descriptors

A descriptor holds the facts that one class header states, and a link for each
ancestor that the header names. A link is empty until somebody asks for the
ancestor, and once filled it never changes.
-/

set_option autoImplicit false

namespace Reclass

/-- The identity of a descriptor: two requests gave the same object exactly when
they gave the same number. -/
structure DescriptorId where
  number : Nat
  deriving DecidableEq, Repr

/-- A place in a class header that names an ancestor. -/
inductive AncestorSlot where
  | superclass
  | interface (position : Nat)
  deriving DecidableEq, Repr

/-- What is known about one type. -/
structure Descriptor where
  flags : AccessFlags
  internalName : String
  superName : Option String
  interfaceNames : List String
  loader : LoaderId
  superLink : Option DescriptorId
  interfaceLinks : List (Option DescriptorId)
  deriving DecidableEq, Repr

namespace Descriptor

/-- The descriptor of a header, without a link. -/
def ofHeader (h : ClassHeader) (loader : LoaderId) : Descriptor where
  flags := h.access
  internalName := h.name
  superName := h.superName
  interfaceNames := h.interfaces
  loader := loader
  superLink := none
  interfaceLinks := h.interfaces.map fun _ => none

def qualifiedName (d : Descriptor) : String := ClassName.qualified d.internalName

def isInterface (d : Descriptor) : Bool := d.flags.has .isInterface

/-- The name that the header gives for an ancestor. -/
def declared (d : Descriptor) : AncestorSlot → Option String
  | .superclass => d.superName
  | .interface i => d.interfaceNames[i]?

/-- The link to an ancestor, when it is filled. -/
def link (d : Descriptor) : AncestorSlot → Option DescriptorId
  | .superclass => d.superLink
  | .interface i => d.interfaceLinks[i]?.join

/-- Fills the link to an ancestor, unless it is filled already. -/
def fill (d : Descriptor) (slot : AncestorSlot) (target : DescriptorId) : Descriptor :=
  if (d.link slot).isSome then d
  else match slot with
    | .superclass => { d with superLink := some target }
    | .interface i => { d with interfaceLinks := d.interfaceLinks.set i (some target) }

/-- The slots for the interfaces, in order. -/
def interfaceSlots (d : Descriptor) : List AncestorSlot :=
  (List.range d.interfaceNames.length).map .interface

/-- Whether every ancestor that the header names has been linked. -/
def isFullyLinked (d : Descriptor) : Bool :=
  (d.superName.isNone || d.superLink.isSome) && d.interfaceLinks.all Option.isSome

/-- The descriptor in words, for diagnosis. -/
def summary (d : Descriptor) : String :=
  let quoted := Text.Quoted.encode
  let superText := match d.superName with
    | none => "None"
    | some name => "Some(" ++ quoted name ++ ")"
  "TypeDescriptor \x7b name: " ++ quoted d.qualifiedName ++
    ", loader: LoaderId(" ++ d.loader.text ++ "), flags: AccessFlags(" ++ d.flags.text ++
    "), super: " ++ superText ++ ", interfaces: [" ++
    String.intercalate ", " (d.interfaceNames.map quoted) ++ "] \x7d"

end Descriptor

end Reclass
