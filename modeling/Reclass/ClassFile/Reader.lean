import Reclass.Bytes
import Reclass.ClassFile.Error

/-!
# Reading class-file items

A reader walks a byte string from front to back and knows the offset it has
reached, so that a missing byte can be reported with its place. Every item is
taken off with `take`; a count in front of a table becomes a call of `times`.
-/

set_option autoImplicit false

namespace Reclass

/-- A place in a byte string: how many bytes lie behind, and which lie ahead. -/
structure Cursor where
  offset : Nat
  rest : Bytes
  deriving DecidableEq, Repr

/-- A reading step: it moves the cursor, or finds a fault. -/
abbrev Reader (α : Type) : Type := StateT Cursor (Except ClassFormatError) α

namespace Reader

/-- The start of a byte string. -/
def start (bs : Bytes) : Cursor := ⟨0, bs⟩

/-- The next `n` bytes. -/
def take (n : Nat) : Reader Bytes := fun c =>
  let (head, tail) := c.rest.splitAt n
  let missing := n - head.length
  if missing = 0 then .ok (head, ⟨c.offset + n, tail⟩)
  else .error (.truncated c.offset missing)

/-- The next byte as a number. -/
def u1 : Reader UInt8 := do
  let bs ← take 1
  return UInt8.ofNat (Bytes.word bs)

/-- The next 16-bit word. -/
def u2 : Reader UInt16 := do
  let bs ← take 2
  return UInt16.ofNat (Bytes.word bs)

/-- The next 32-bit word. -/
def u4 : Reader UInt32 := do
  let bs ← take 4
  return UInt32.ofNat (Bytes.word bs)

/-- `n` more items after the items `done` (last one first). -/
def timesFrom {α : Type} (item : Reader α) : Nat → List α → Reader (List α)
  | 0, done => pure done.reverse
  | n + 1, done => do
    let a ← item
    timesFrom item n (a :: done)

/-- `n` items in order. -/
def times {α : Type} (n : Nat) (item : Reader α) : Reader (List α) := timesFrom item n []

/-- A table: its length as a 16-bit word, then its items. -/
def table {α : Type} (item : Reader α) : Reader (List α) := do
  let count ← u2
  times count.toNat item

/-- The value that a reader finds at the front of a byte string. -/
def value {α : Type} (r : Reader α) (bs : Bytes) : Except ClassFormatError α :=
  (r (start bs)).map Prod.fst

end Reader

end Reclass
