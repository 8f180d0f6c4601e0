import Reclass.Hierarchy.Source
import Reclass.Hierarchy.Descriptor

/-!
# Resolving types

`Hierarchy` holds every descriptor built so far and a table of the current one
for each name and loader. Resolving a name consults the table first, then the
source. Links between descriptors are filled on demand and outlive the table:
forgetting a loader empties the table only.
-/

set_option autoImplicit false

namespace Reclass

/-- The descriptors built so far. -/
structure Hierarchy where
  /-- Every descriptor ever built, by its number. -/
  descriptors : Array Descriptor
  /-- The current descriptor for a name and a loader. -/
  table : List ((String × LoaderId) × DescriptorId)
  deriving DecidableEq, Repr

namespace Hierarchy

variable {σ : Type}

def empty : Hierarchy := ⟨#[], []⟩

/-- The number of types that resolve without a look at the source. -/
def size (h : Hierarchy) : Nat := h.table.length

def isEmpty (h : Hierarchy) : Bool := h.table.isEmpty

def descriptor? (h : Hierarchy) (id : DescriptorId) : Option Descriptor :=
  h.descriptors[id.number]?

/-- The current descriptor for an internal name. -/
def current? (h : Hierarchy) (name : String) (loader : LoaderId) : Option DescriptorId :=
  h.table.lookup (name, loader)

/-- Adds a descriptor and makes it the current one for its name and loader. -/
def insert (h : Hierarchy) (d : Descriptor) : DescriptorId × Hierarchy :=
  let id : DescriptorId := ⟨h.descriptors.size⟩
  (id, ⟨h.descriptors.push d, h.table ++ [((d.internalName, d.loader), id)]⟩)

/-- Fills a link of a descriptor. -/
def fill (h : Hierarchy) (id : DescriptorId) (slot : AncestorSlot) (target : DescriptorId) :
    Hierarchy :=
  { h with descriptors := h.descriptors.modify id.number fun d => d.fill slot target }

/-- Forgets the current descriptors of a loader. -/
def evict (h : Hierarchy) (loader : LoaderId) : Hierarchy :=
  { h with table := h.table.filter fun entry => entry.1.2 ≠ loader }

/-- Reads the header of a class and checks that it is the class asked for. -/
def build (src : ClassSource σ) (name : String) (loader : LoaderId) :
    Attempt (Hierarchy × σ) ResolutionError Descriptor := do
  match ← Attempt.act (Act.zoom .snd (src.read name loader)) with
  | .error cause => throw (.unreadable name loader cause)
  | .ok none => throw (.notFound name loader)
  | .ok (some bytes) =>
    match ClassHeader.parse bytes with
    | .error fault => throw (.malformed name loader fault)
    | .ok header =>
      -- The file may lie at the place of another class.
      if header.name ≠ name then
        throw (.malformed name loader (.nameMismatch name header.name))
      Attempt.act (Act.report .hierarchy .debug
        ("Built descriptor for " ++ name ++ " in loader " ++ loader.text))
      return Descriptor.ofHeader header loader

/-- The descriptor for a name in either form: the current one, or one built now.
A failure leaves no trace. -/
def resolveRequired (src : ClassSource σ) (name : String) (loader : LoaderId) :
    Attempt (Hierarchy × σ) ResolutionError DescriptorId := do
  let internal := ClassName.internal name
  match ← Attempt.act (Act.gets fun s => s.1.current? internal loader) with
  | some id => return id
  | none =>
    let d ← build src internal loader
    Attempt.act (Act.zoom .fst (Act.modifyGet fun h => h.insert d))

/-- Like `resolveRequired`, but a failure is reported and swallowed. -/
def resolve (src : ClassSource σ) (name : String) (loader : LoaderId) :
    Act (Hierarchy × σ) (Option DescriptorId) := do
  match ← (resolveRequired src name loader).result with
  | .ok id => return some id
  | .error e =>
    Act.report .hierarchy .debug
      ("Cannot resolve " ++ name ++ " in loader " ++ loader.text ++ ": " ++ e.message)
    return none

/-- The descriptor behind an identity. -/
def lookup (id : DescriptorId) : Act (Hierarchy × σ) (Option Descriptor) :=
  Act.gets fun s => s.1.descriptor? id

/-- The ancestor in a slot: the one linked, or the one that the declared name
resolves to, which is linked from now on. `none` when the slot declares no name. -/
def ancestorRequired (src : ClassSource σ) (id : DescriptorId) (slot : AncestorSlot) :
    Attempt (Hierarchy × σ) ResolutionError (Option DescriptorId) := do
  match ← Attempt.act (lookup id) with
  | none => return none
  | some d =>
    match d.declared slot, d.link slot with
    | none, _ => return none
    | some _, some target => return some target
    | some name, none =>
      let target ← resolveRequired src name d.loader
      Attempt.act (Act.zoom .fst (Act.modify fun h => h.fill id slot target))
      return some target

/-- Like `ancestorRequired`, but an ancestor that does not resolve is `none`, and
its link stays empty. -/
def ancestor (src : ClassSource σ) (id : DescriptorId) (slot : AncestorSlot) :
    Act (Hierarchy × σ) (Option DescriptorId) := do
  match ← lookup id with
  | none => return none
  | some d =>
    match d.declared slot, d.link slot with
    | none, _ => return none
    | some _, some target => return some target
    | some name, none =>
      match ← resolve src name d.loader with
      | none => return none
      | some target =>
        Act.zoom .fst (Act.modify fun h => h.fill id slot target)
        return some target

/-- The super class; a failure to build it counts. `none` for a root type. -/
def requiredSuperclass (src : ClassSource σ) (id : DescriptorId) :
    Attempt (Hierarchy × σ) ResolutionError (Option DescriptorId) :=
  ancestorRequired src id .superclass

/-- The super class, or `none` for a root type and when it cannot be built. -/
def superclass (src : ClassSource σ) (id : DescriptorId) :
    Act (Hierarchy × σ) (Option DescriptorId) :=
  ancestor src id .superclass

/-- The interface slots of a descriptor. -/
def slotsOf (id : DescriptorId) : Act (Hierarchy × σ) (List AncestorSlot) := do
  match ← lookup id with
  | none => return []
  | some d => return d.interfaceSlots

/-- The declared interfaces in order; the first one that does not resolve is a
failure. -/
def requiredInterfaces (src : ClassSource σ) (id : DescriptorId) :
    Attempt (Hierarchy × σ) ResolutionError (List DescriptorId) := do
  let slots ← Attempt.act (slotsOf id)
  let found ← slots.mapM fun slot => ancestorRequired src id slot
  return found.filterMap fun target => target

/-- The declared interfaces in order, `none` where one does not resolve. -/
def interfaces (src : ClassSource σ) (id : DescriptorId) :
    Act (Hierarchy × σ) (List (Option DescriptorId)) := do
  let slots ← slotsOf id
  slots.mapM fun slot => ancestor src id slot

end Hierarchy

end Reclass
