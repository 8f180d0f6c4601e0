import Reclass.Hierarchy.Resolver

/-!
# Assignability

A candidate can be assigned to a target when the target is the candidate itself,
lies on its line of super classes, or is reached from some class of that line
through interfaces. The line is built completely before interfaces are looked
at; a class that comes twice on it is an error. Interfaces are searched depth
first, and one that was searched without success is not searched again.
-/

set_option autoImplicit false

namespace Reclass.Hierarchy

variable {σ : Type}

/-- The internal name behind an identity. -/
def nameOf (id : DescriptorId) : Act (Hierarchy × σ) String :=
  Act.gets fun s => match s.1.descriptor? id with
    | some d => d.internalName
    | none => ""

/-- The loader behind an identity. -/
def loaderOf (id : DescriptorId) : Act (Hierarchy × σ) LoaderId :=
  Act.gets fun s => match s.1.descriptor? id with
    | some d => d.loader
    | none => .bootstrap

/-- How many classes a line of ancestors can run through: those built already
and those that the source can still add. -/
def reach (src : ClassSource σ) : Act (Hierarchy × σ) Nat := do
  let fresh ← Act.zoom .snd src.reach
  Act.gets fun s => s.1.descriptors.size + fresh + 1

/-- A type and its super classes, nearest first, at most `limit` of them. The
names `seen` belong to classes nearer than the type, or to the type itself. -/
def superLine (src : ClassSource σ) :
    (limit : Nat) → (seen : List String) → DescriptorId →
      Attempt (Hierarchy × σ) ResolutionError (List DescriptorId)
  | 0, _, id => do
    throw (.unbounded (← Attempt.act (nameOf id)) (← Attempt.act (loaderOf id)))
  | limit + 1, seen, id => do
    match ← requiredSuperclass src id with
    | none => return [id]
    | some parent =>
      let name ← Attempt.act (nameOf parent)
      if name ∈ seen then
        throw (.circular name (← Attempt.act (loaderOf parent)))
      let line ← superLine src limit (name :: seen) parent
      return id :: line

/-- Searches a list of interfaces in order. An interface in `visited` is passed
over, and `deeper` searches below one. The result says whether the target came
up and which interfaces have been visited. -/
def searchEach (target : String)
    (deeper : DescriptorId → List String →
      Attempt (Hierarchy × σ) ResolutionError (Bool × List String)) :
    List DescriptorId → (visited : List String) →
      Attempt (Hierarchy × σ) ResolutionError (Bool × List String)
  | [], visited => return (false, visited)
  | id :: ids, visited => do
    let name ← Attempt.act (nameOf id)
    if name = target then return (true, visited)
    if name ∈ visited then searchEach target deeper ids visited
    else
      -- Marked before going deeper, so that a circle of interfaces comes to an end.
      let (found, visited) ← deeper id (name :: visited)
      if found then return (true, visited)
      searchEach target deeper ids visited

/-- Searches the interfaces below a type, at most `limit` levels deep. -/
def searchBelow (src : ClassSource σ) (target : String) :
    (limit : Nat) → DescriptorId → (visited : List String) →
      Attempt (Hierarchy × σ) ResolutionError (Bool × List String)
  | 0, id, _ => do
    throw (.unbounded (← Attempt.act (nameOf id)) (← Attempt.act (loaderOf id)))
  | limit + 1, id, visited => do
    let ids ← requiredInterfaces src id
    searchEach target (searchBelow src target limit) ids visited

/-- Searches the interfaces below each type of a line. -/
def searchLine (src : ClassSource σ) (target : String) (limit : Nat) :
    List DescriptorId → (visited : List String) →
      Attempt (Hierarchy × σ) ResolutionError Bool
  | [], _ => return false
  | id :: ids, visited => do
    let (found, visited) ← searchBelow src target limit id visited
    if found then return true
    searchLine src target limit ids visited

/-- Whether a value of the resolved type can be assigned to `target`, an internal
name. -/
def isAssignable (src : ClassSource σ) (target : String) (candidate : DescriptorId) :
    Attempt (Hierarchy × σ) ResolutionError Bool := do
  let own ← Attempt.act (nameOf candidate)
  if own = target then return true
  let limit ← Attempt.act (reach src)
  -- A broken ancestor counts even when the target lies before it.
  let line ← superLine src limit [own] candidate
  let names ← Attempt.act (line.mapM nameOf)
  if target ∈ names.drop 1 then return true
  searchLine src target (limit + 1) line []

/-- Whether a value of type `candidate` can be assigned to `target`, both names
in either form and resolved in one loader. A name is assignable to itself even
when nothing is known about it. -/
def isAssignableFrom (src : ClassSource σ) (target candidate : String) (loader : LoaderId) :
    Attempt (Hierarchy × σ) ResolutionError Bool := do
  let target := ClassName.internal target
  let candidate := ClassName.internal candidate
  if target = candidate then return true
  let id ← resolveRequired src candidate loader
  isAssignable src target id

end Reclass.Hierarchy
