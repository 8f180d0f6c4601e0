import Reclass.Cache.Dump
import Reclass.Cache.Store
import Reclass.Transform.Request

/-!
# The caching transformer

Around an edit, a store of earlier results and a place where the latest ones are shown,
both optional. The same input bytes of a class lead to the stored result, so the edit
runs once per class and checksum as long as storage works; when storage fails
the edit runs as if there were no store. An edit that declines has its input
stored as its result.
-/

set_option autoImplicit false

namespace Reclass

/-- A place where results are kept, over a state `σ`. -/
structure ResultStore (σ : Type) where
  load : CacheKey → Act σ (Except StorageError (Option Bytes))
  /-- Keeps a result and yields the path where it lies. -/
  store : CacheKey → Bytes → Act σ (Except StorageError Path)
  /-- The path under which a result lies. -/
  path : CacheKey → Path

/-- A place where transformed classes are shown, over a state `σ`. -/
structure DumpTarget (σ : Type) where
  /-- Shows a class and yields the path where it lies. -/
  write : String → LoaderId → Bytes → Act σ (Except StorageError Path)

namespace TransformCache

variable {σ : Type}

/-- The cache as a store, in a state that holds a file system. -/
def resultStore (c : TransformCache) (files : Lens σ FileSystem) : ResultStore σ where
  load k := Act.zoom files (Act.gets (c.load k))
  store k result := Act.zoom files (Act.modifyGet (c.store k result))
  path := c.entryPath

end TransformCache

namespace DumpDir

variable {σ : Type}

/-- The dump directory as a place to show classes, in a state that holds a file system. -/
def target (d : DumpDir) (files : Lens σ FileSystem) : DumpTarget σ where
  write name loader bytes := Act.zoom files (Act.modifyGet (d.write name loader bytes))

end DumpDir

/-- What a caching transformer has counted. -/
structure TransformStats where
  hits : Nat := 0
  misses : Nat := 0
  storageFailures : Nat := 0
  transformFailures : Nat := 0
  dumps : Nat := 0
  deriving DecidableEq, Repr

namespace TransformStats

def hit (s : TransformStats) : TransformStats := { s with hits := s.hits + 1 }

def miss (s : TransformStats) : TransformStats := { s with misses := s.misses + 1 }

def storageFailure (s : TransformStats) : TransformStats :=
  { s with storageFailures := s.storageFailures + 1 }

def transformFailure (s : TransformStats) : TransformStats :=
  { s with transformFailures := s.transformFailures + 1 }

def dump (s : TransformStats) : TransformStats := { s with dumps := s.dumps + 1 }

end TransformStats

/-- An edit with a store and a place to show results. -/
structure CachingTransformer (σ : Type) where
  inner : Transformation σ
  store : Option (ResultStore σ)
  dump : Option (DumpTarget σ)

namespace CachingTransformer

variable {σ : Type}

/-- Counts something. -/
def count (f : TransformStats → TransformStats) : Act (TransformStats × σ) Unit :=
  Act.zoom .fst (Act.modify f)

/-- "class … loaded by …", as reports call a request. -/
def subject (r : TransformRequest) : String := r.className ++ " loaded by " ++ r.loader.text

/-- Runs the edit. -/
def runInner (c : CachingTransformer σ) (r : TransformRequest) :
    Act (TransformStats × σ) EditResult :=
  Act.zoom .snd (c.inner.guarded r)

/-- Runs the edit and stores its result, the input when the edit declined. -/
def transformAndStore (c : CachingTransformer σ) (s : ResultStore σ) (k : CacheKey)
    (r : TransformRequest) : Act (TransformStats × σ) EditResult := do
  count .miss
  match ← c.runInner r with
  | .error e => return .error e
  | .ok result =>
    let output := result.getD r.bytes
    match ← Act.zoom .snd (s.store k output) with
    | .ok path => Act.report .transform .debug ("Cache class " ++ subject r ++ " to " ++ path)
    | .error e =>
      -- The result is good all the same; only the store has missed it.
      count .storageFailure
      Act.report .transform .warn ("Exception on cache writing " ++ subject r ++ ": " ++ e.message)
    return .ok (some output)

/-- The stored result, or the result of the edit. -/
def cachedOrTransform (c : CachingTransformer σ) (r : TransformRequest) :
    Act (TransformStats × σ) EditResult := do
  match c.store with
  | none => c.runInner r
  | some s =>
    let k := CacheKey.ofInput r.className r.bytes
    match ← Act.zoom .snd (s.load k) with
    | .ok (some bytes) =>
      count .hit
      Act.report .transform .debug ("Load class " ++ subject r ++ " from cached file " ++ s.path k)
      return .ok (some bytes)
    | .ok none => c.transformAndStore s k r
    | .error e =>
      -- What cannot be read is not written over either.
      count .storageFailure
      Act.report .transform .warn ("Exception on cache reading " ++ subject r ++ ": " ++ e.message)
      c.runInner r

/-- Shows a result where the transformer has a place for it. -/
def dumpResult (c : CachingTransformer σ) (r : TransformRequest) (bytes : Bytes) :
    Act (TransformStats × σ) Unit := do
  match c.dump with
  | none => return ()
  | some d =>
    match ← Act.zoom .snd (d.write r.className r.loader bytes) with
    | .ok path =>
      count .dump
      Act.report .transform .debug ("Dump class " ++ subject r ++ " to " ++ path)
    | .error e =>
      Act.report .transform .warn ("Unable to dump class " ++ subject r ++ ": " ++ e.message)

/-- The result for a request that the edit accepts; a failure is counted,
reported and leaves the class as it is. -/
def resultOrNone (c : CachingTransformer σ) (r : TransformRequest) :
    Act (TransformStats × σ) (Option Bytes) := do
  match ← c.cachedOrTransform r with
  | .ok result => return result
  | .error e =>
    count .transformFailure
    reportFailedEdit r e
    return none

/-- Transforms a class, or leaves it as it is. -/
def apply (c : CachingTransformer σ) (r : TransformRequest) :
    Act (TransformStats × σ) (Option Bytes) := do
  if !(← Act.zoom .snd (c.inner.accepts r.className r.loader)) then return none
  Act.report .transform .debug ("Transforming " ++ subject r)
  let result ← c.resultOrNone r
  -- A stored result that equals the input is shown as well.
  match result with
  | some bytes => c.dumpResult r bytes
  | none => pure ()
  Act.report .transform .debug ("Transformed " ++ subject r)
  return droppingUnchanged result r.bytes

/-- The transformer, which carries its counts in the state. -/
def transformer (c : CachingTransformer σ) : Transformer (TransformStats × σ) where
  accepts name loader := Act.zoom .snd (c.inner.accepts name loader)
  apply := c.apply

end CachingTransformer

end Reclass
