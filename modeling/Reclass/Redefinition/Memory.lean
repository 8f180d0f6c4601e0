import Reclass.Redefinition.Host

/-!
# Hosts in memory

A host made of a list of classes, for trying redefinition out. It can refuse to
redefine classes of certain names, hand out missing bytes at the next
redefinition, and load further classes when a class is redefined. It writes down
what has been submitted.
-/

set_option autoImplicit false

namespace Reclass

/-- A class of a host in memory. -/
structure MemoryClass where
  name : String
  loader : LoaderId
  /-- The current bytes, or none when the host has no bytes for the class. -/
  content : Except ReadError (Option Bytes)

/-- The classes in the order of loading, and what is to happen. -/
structure MemoryHost where
  classes : Array MemoryClass
  /-- A name and the name of a class to be loaded whenever it is redefined. -/
  reveals : List (String × String) := []
  /-- Bytes by name, handed out by the next redefinition. -/
  late : List (String × Bytes) := []
  /-- Names whose redefinition is refused. -/
  refused : List String := []
  /-- The size of each batch submitted, oldest first. -/
  batches : List Nat := []
  /-- The names redefined, oldest first. -/
  redefined : List String := []
  /-- How many transformers have been registered. -/
  transformers : Nat := 0

namespace MemoryHost

/-- The loaded classes in order. -/
def loaded (m : MemoryHost) : List LoadedClass :=
  m.classes.toList.zipIdx.map fun (c, id) => ⟨id, c.name, c.loader⟩

/-- Loads a class. -/
def load (m : MemoryHost) (c : MemoryClass) : MemoryHost := { m with classes := m.classes.push c }

/-- What the host says about the bytes of a class. -/
def content (m : MemoryHost) (c : LoadedClass) : Except ReadError (Option Bytes) :=
  match m.classes[c.id]? with
  | some c => c.content
  | none => .ok none

/-- Gives bytes to the class at a position. -/
def setBytes (m : MemoryHost) (id : Nat) (bytes : Bytes) : MemoryHost :=
  { m with classes := m.classes.modify id fun c => { c with content := .ok (some bytes) } }

/-- Gives bytes to the first class of a name. -/
def handOut (m : MemoryHost) (entry : String × Bytes) : MemoryHost :=
  match m.classes.findIdx? fun c => c.name = entry.1 with
  | some id => m.setBytes id entry.2
  | none => m

/-- Puts a definition in place. -/
def replace (m : MemoryHost) (d : ClassDefinition) : MemoryHost :=
  let m := m.setBytes d.target.id d.bytes
  { m with redefined := m.redefined ++ [d.target.name] }

/-- The loader of the classes that come up while others are redefined. -/
def revealLoader : LoaderId := ⟨1⟩

/-- Loads the classes that come up when those of the names are redefined; the
bytes of such a class spell its name. -/
def reveal (m : MemoryHost) (names : List String) : MemoryHost :=
  (m.reveals.filter fun r => names.contains r.1).foldl
    (fun m r => m.load ⟨r.2, revealLoader, .ok (some (Bytes.ofText r.2))⟩) m

/-- Replaces definitions, unless one of them is refused. -/
def redefine (ds : List ClassDefinition) (m : MemoryHost) :
    Except RedefinitionError Unit × MemoryHost :=
  let m := { m with batches := m.batches ++ [ds.length] }
  match ds.find? fun d => m.refused.contains d.target.name with
  | some d => (.error (.rejected d.target.name "unsupported change"), m)
  | none =>
    let m := ds.foldl replace m
    let m := m.late.foldl handOut { m with late := [] }
    (.ok (), m.reveal (ds.map fun d => d.target.name))

/-- Redefining can load classes without end, so the passes of a run are limited. -/
def maxPasses : Nat := 1000000

/-- The host as agents see it, beside some other state. -/
def instrumentation {ρ τ : Type} : Instrumentation (MemoryHost × ρ) τ where
  loadedClasses := Act.gets fun s => s.1.loaded
  classBytes c := Act.gets fun s => s.1.content c
  redefine ds := Act.zoom .fst (Act.modifyGet (redefine ds))
  addTransformer _ :=
    Act.zoom .fst (Act.modify fun m => { m with transformers := m.transformers + 1 })
  passLimit := pure maxPasses

end MemoryHost

end Reclass
