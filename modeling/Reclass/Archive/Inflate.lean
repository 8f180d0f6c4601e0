import Reclass.Bytes

/-!
# Inflating compressed entries

A deflated stream is a sequence of blocks, stored or coded with two canonical
Huffman codes, one for literals and lengths and one for distances. Bits are taken
from the low end of each byte. A reference back beyond the start reads zeros.

A stream is read bit by bit: of two flaws the one that shows first decides, and a
stream that ends before its last block does is incomplete.
-/

set_option autoImplicit false

namespace Reclass.Inflate

/-- Why a stream cannot be inflated. -/
inductive Flaw where
  /-- The input ends before the last block does. -/
  | incomplete
  | corrupt
  deriving DecidableEq, Repr

/-- A reading step; its state is the number of bits taken so far. -/
abbrev Step (α : Type) : Type := StateT Nat (Except Flaw) α

/-- The next bit. -/
def bit (data : Array UInt8) : Step Nat := fun taken =>
  match data[taken / 8]? with
  | some b => .ok ((b.toNat >>> (taken % 8)) % 2, taken + 1)
  | none => .error .incomplete

/-- The next `n` bits as a number, low bit first. -/
def bits (data : Array UInt8) : Nat → Step Nat
  | 0 => pure 0
  | n + 1 => do
    let low ← bit data
    let high ← bits data n
    return low + 2 * high

/-- A canonical code: how many codewords have each length from 1 on, and the
symbols in the order of their codewords. -/
structure Code where
  counts : List Nat
  symbols : Array Nat

/-- The longest codeword. -/
def maxLength : Nat := 15

/-- The code in which symbol `i` has a codeword of `lengths[i]` bits, or none for
0. Its codewords have to fill the code space, except that a `sparse` code may
have no codeword at all, or a single one of one bit. -/
def Code.ofLengths (sparse : Bool) (lengths : List Nat) : Option Code :=
  let range := (List.range maxLength).map (· + 1)
  let numbered := lengths.zipIdx
  let groups := range.map fun l => (numbered.filter fun e => e.1 = l).map Prod.snd
  let counts : List Nat := groups.map List.length
  let space : Nat := counts.foldl (fun total n => (total + n) * 2) 0
  let symbols := groups.flatten
  if space = 65536 ∨ sparse ∧ (symbols = [] ∨ lengths.filter (· ≠ 0) = [1]) then
    some ⟨counts, symbols.toArray⟩
  else none

/-- Reads a codeword: `code` holds the bits so far, `first` the first codeword of
the current length and `index` the number of shorter codewords. Bits that no
codeword begins with are refused as soon as they show. -/
def Code.symbolFrom (c : Code) (data : Array UInt8) :
    (counts : List Nat) → (code first index : Nat) → Step Nat
  | [], _, _, _ => throw .corrupt
  | n :: counts, code, first, index => do
    let code := code * 2 + (← bit data)
    let first := first * 2
    if first ≤ code ∧ code < first + n then
      match c.symbols[index + (code - first)]? with
      | some s => return s
      | none => throw .corrupt
    else if c.symbols.size ≤ index + n then throw .corrupt
    else c.symbolFrom data counts code (first + n) (index + n)

/-- The symbol of the next codeword. -/
def Code.symbol (c : Code) (data : Array UInt8) : Step Nat := c.symbolFrom data c.counts 0 0 0

/-- Base and number of extra bits of the length symbols from 257 on. -/
def lengthBases : Array (Nat × Nat) :=
  #[(3, 0), (4, 0), (5, 0), (6, 0), (7, 0), (8, 0), (9, 0), (10, 0), (11, 1), (13, 1), (15, 1),
    (17, 1), (19, 2), (23, 2), (27, 2), (31, 2), (35, 3), (43, 3), (51, 3), (59, 3), (67, 4),
    (83, 4), (99, 4), (115, 4), (131, 5), (163, 5), (195, 5), (227, 5), (258, 0)]

/-- Base and number of extra bits of the distance symbols. -/
def distanceBases : Array (Nat × Nat) :=
  #[(1, 0), (2, 0), (3, 0), (4, 0), (5, 1), (7, 1), (9, 2), (13, 2), (17, 3), (25, 3), (33, 4),
    (49, 4), (65, 5), (97, 5), (129, 6), (193, 6), (257, 7), (385, 7), (513, 8), (769, 8),
    (1025, 9), (1537, 9), (2049, 10), (3073, 10), (4097, 11), (6145, 11), (8193, 12),
    (12289, 12), (16385, 13), (24577, 13)]

/-- A number given by a base and extra bits. -/
def extended (data : Array UInt8) (bases : Array (Nat × Nat)) (i : Nat) : Step Nat :=
  match bases[i]? with
  | some (base, extra) => do return base + (← bits data extra)
  | none => throw .corrupt

/-- Appends `n` bytes, each a copy of the byte `distance` back. -/
def copyBack (distance : Nat) : Nat → Array UInt8 → Array UInt8
  | 0, out => out
  | n + 1, out =>
    let b := if distance ≤ out.size then out.getD (out.size - distance) 0 else 0
    copyBack distance n (out.push b)

/-- Where the output and the input stand. -/
structure Progress where
  out : Array UInt8
  taken : Nat

/-- The coded data of a block. Every symbol takes a bit, so `fuel` bits bound the
number of symbols. -/
def coded (data : Array UInt8) (literals distances : Code) :
    (fuel : Nat) → Progress → Except Flaw Progress
  | 0, _ => .error .incomplete
  | fuel + 1, p => do
    let (s, taken) ← literals.symbol data p.taken
    if s < 256 then coded data literals distances fuel ⟨p.out.push (UInt8.ofNat s), taken⟩
    else if s = 256 then return ⟨p.out, taken⟩
    else
      let reference : Step (Nat × Nat) := do
        let length ← extended data lengthBases (s - 257)
        let symbol ← distances.symbol data
        let distance ← extended data distanceBases symbol
        return (length, distance)
      let ((length, distance), taken) ← reference taken
      coded data literals distances fuel ⟨copyBack distance length p.out, taken⟩

/-- The bytes of a stored block. -/
def stored (data : Array UInt8) (p : Progress) : Except Flaw Progress := do
  let start := (p.taken + 7) / 8
  let header : Step (Nat × Nat) := do
    let length ← bits data 16
    let inverse ← bits data 16
    return (length, inverse)
  let ((length, inverse), _) ← header (start * 8)
  if length + inverse ≠ 65535 then throw .corrupt
  let first := start + 4
  if data.size < first + length then throw .incomplete
  return ⟨p.out ++ data.extract first (first + length), (first + length) * 8⟩

/-- The codes that blocks use when they bring none of their own. -/
def fixedLengths : List Nat × List Nat :=
  (List.replicate 144 8 ++ List.replicate 112 9 ++ List.replicate 24 7 ++ List.replicate 8 8,
    List.replicate 32 5)

/-- The order in which the lengths of the code for code lengths are given. -/
def lengthOrder : List Nat :=
  [16, 17, 18, 0, 8, 7, 9, 6, 10, 5, 11, 4, 12, 3, 13, 2, 14, 1, 15]

/-- Reads code lengths, `done` of them so far (last one first), until there are
`total`. -/
def readLengths (data : Array UInt8) (c : Code) (total : Nat) :
    (fuel : Nat) → (done : List Nat) → Step (List Nat)
  | 0, _ => throw .corrupt
  | fuel + 1, done => do
    if total ≤ done.length then
      if done.length = total then return done.reverse
      throw .corrupt
    let s ← c.symbol data
    if s < 16 then readLengths data c total fuel (s :: done)
    else if s = 16 then
      match done with
      | [] => throw .corrupt
      | last :: _ =>
        let n ← bits data 2
        readLengths data c total fuel (List.replicate (n + 3) last ++ done)
    else if s = 17 then
      let n ← bits data 3
      readLengths data c total fuel (List.replicate (n + 3) 0 ++ done)
    else
      let n ← bits data 7
      readLengths data c total fuel (List.replicate (n + 11) 0 ++ done)

/-- Reads `n` numbers of three bits. -/
def readTriples (data : Array UInt8) : Nat → Step (List Nat)
  | 0 => pure []
  | n + 1 => do
    let x ← bits data 3
    let xs ← readTriples data n
    return x :: xs

/-- The greatest numbers of literal and of distance symbols. -/
def maxSymbols : Nat × Nat := (286, 30)

/-- Reads the two codes in front of a block. -/
def readCodes (data : Array UInt8) : Step (Code × Code) := do
  let literalCount := (← bits data 5) + 257
  let distanceCount := (← bits data 5) + 1
  let lengthCount := (← bits data 4) + 4
  if maxSymbols.1 < literalCount ∨ maxSymbols.2 < distanceCount then throw .corrupt
  let given ← readTriples data lengthCount
  let named := lengthOrder.zip given
  let lengths := (List.range 19).map fun i => (named.lookup i).getD 0
  match Code.ofLengths false lengths with
  | none => throw .corrupt
  | some c =>
    let total := literalCount + distanceCount
    let all ← readLengths data c total (total + 1) []
    match Code.ofLengths true (all.take literalCount),
        Code.ofLengths true (all.drop literalCount) with
    | some literals, some distances => return (literals, distances)
    | _, _ => throw .corrupt

/-- One block behind its header. -/
def block (data : Array UInt8) (kind : Nat) (p : Progress) : Except Flaw Progress := do
  let fuel := data.size * 8 + 1
  match kind with
  | 0 => stored data p
  | 1 =>
    match Code.ofLengths false fixedLengths.1, Code.ofLengths false fixedLengths.2 with
    | some literals, some distances => coded data literals distances fuel p
    | _, _ => throw .corrupt
  | 2 =>
    let ((literals, distances), taken) ← readCodes data p.taken
    coded data literals distances fuel ⟨p.out, taken⟩
  | _ => throw .corrupt

/-- The blocks of a stream. Every block takes three bits, so `fuel` bits bound
their number. -/
def blocks (data : Array UInt8) : (fuel : Nat) → Progress → Except Flaw (Array UInt8)
  | 0, _ => .error .incomplete
  | fuel + 1, p => do
    let header : Step (Nat × Nat) := do
      let last ← bit data
      let kind ← bits data 2
      return (last, kind)
    let ((last, kind), taken) ← header p.taken
    let p ← block data kind ⟨p.out, taken⟩
    if last = 1 then return p.out
    blocks data fuel p

/-- Inflates a stream. What follows its last block is ignored. -/
def run (data : Array UInt8) : Except Flaw (Array UInt8) :=
  blocks data (data.size * 8 + 1) ⟨#[], 0⟩

end Reclass.Inflate
