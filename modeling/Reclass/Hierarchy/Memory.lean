import Reclass.Hierarchy.Source

/-!
# Class sources in memory

A source made of entries, for a hierarchy that lies on no disk. An entry is about
a name, seen from one loader or from all of them; the entry for one loader goes
before the one for all. What has been read is remembered.
-/

set_option autoImplicit false

namespace Reclass

/-- What a source has for a name. -/
structure MemoryEntry where
  name : String
  /-- None stands for every loader. -/
  loader : Option LoaderId := none
  content : Except ReadError (Option Bytes)

/-- Entries, no two of them about the same name and loader. -/
structure MemorySource where
  entries : List MemoryEntry
  /-- The names read, with the loaders asked, oldest first. -/
  reads : List (String × LoaderId) := []

namespace MemorySource

/-- Whether an entry is the one about a name and a loader. -/
def isAbout (name : String) (loader : Option LoaderId) (e : MemoryEntry) : Bool :=
  e.name = name && e.loader = loader

/-- The entry about a name and a loader. -/
def entry? (m : MemorySource) (name : String) (loader : Option LoaderId) : Option MemoryEntry :=
  m.entries.find? (isAbout name loader)

/-- Removes the entry about a name and a loader. -/
def erase (m : MemorySource) (name : String) (loader : Option LoaderId) : MemorySource :=
  { m with entries := m.entries.filter fun e => !isAbout name loader e }

/-- Adds an entry in place of the one about the same name and loader. -/
def put (m : MemorySource) (e : MemoryEntry) : MemorySource :=
  let m := m.erase e.name e.loader
  { m with entries := m.entries ++ [e] }

/-- The source that has a list of entries, where a later one replaces an earlier
one. -/
def ofList (es : List MemoryEntry) : MemorySource := es.foldl put { entries := [] }

/-- What the source says about a name as a loader sees it. -/
def answer (m : MemorySource) (name : String) (loader : LoaderId) :
    Except ReadError (Option Bytes) :=
  match (m.entry? name (some loader)).or (m.entry? name none) with
  | some e => e.content
  | none => .ok none

/-- Answers and remembers that it was asked. -/
def read (name : String) (loader : LoaderId) (m : MemorySource) :
    Except ReadError (Option Bytes) × MemorySource :=
  (m.answer name loader, { m with reads := m.reads ++ [(name, loader)] })

/-- The entries as a class source over themselves. A line of ancestors runs
through each entry once at most. -/
def source : ClassSource MemorySource where
  read name loader := Act.modifyGet (read name loader)
  reach := Act.gets fun m => m.entries.length

end MemorySource

end Reclass
