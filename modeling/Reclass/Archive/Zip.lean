import Reclass.Archive.Inflate
import Reclass.Checksum
import Reclass.Text.CodePage437
import Reclass.Text.Utf8

/-!
# Zip archives

An archive ends with a record that says where its directory lies. The directory
lists the entries; each points to a local header, behind which the data of the
entry begins. Data in front of the archive shifts all offsets by the same
amount, which shows in the place of the end record. Numbers have their low byte
first.
-/

set_option autoImplicit false

namespace Reclass

/-- What is wrong with an archive. -/
inductive ZipFlaw where
  | noRoomForEnd
  | noEnd
  | noRoomForLargeEnd
  | noLargeEnd
  /-- The directory would not end where it has to, or begin within the numbers. -/
  | directoryBounds
  | directoryHeader
  /-- An entry would begin beyond the numbers. -/
  | entryBounds
  | localHeader
  /-- An entry is encrypted and does not say how. -/
  | noCipher
  | cipherVendor
  | cipherVersion
  | cipherStrength
  deriving DecidableEq, Repr

def ZipFlaw.message : ZipFlaw → String
  | noRoomForEnd => "Invalid zip header"
  | noEnd => "Could not find central directory end"
  | noRoomForLargeEnd => "File cannot contain ZIP64 central directory end"
  | noLargeEnd => "Could not find ZIP64 central directory end"
  | directoryBounds => "Invalid central directory size or offset"
  | directoryHeader => "Invalid Central Directory header"
  | entryBounds => "Archive header is too large"
  | localHeader => "Invalid local file header"
  | noCipher => "AES encryption without AES extra data field"
  | cipherVendor => "Invalid AES vendor"
  | cipherVersion => "Invalid AES vendor version"
  | cipherStrength => "Invalid AES encryption strength"

/-- What an archive needs and nobody here can do. -/
inductive ZipFeature where
  | severalDisks
  | cipherLength
  | decryption
  /-- A compression method other than "stored" and "deflated". -/
  | method
  deriving DecidableEq, Repr

def ZipFeature.message : ZipFeature → String
  | severalDisks => "Support for multi-disk files is not implemented"
  | cipherLength => "AES extra data field has an unsupported length"
  | decryption => "Password required to decrypt file"
  | method => "Compression method not supported"

/-- Why an archive, or an entry of it, cannot be used. -/
inductive ZipError where
  | invalidArchive (flaw : ZipFlaw)
  | unsupportedArchive (feature : ZipFeature)
  /-- The archive ends within a record. -/
  | endOfFile
  deriving DecidableEq, Repr

namespace ZipError

/-- How reading fails when the input ends too early. -/
def endOfFileText : String := "failed to fill whole buffer"

def message : ZipError → String
  | invalidArchive flaw => "invalid Zip archive: " ++ flaw.message
  | unsupportedArchive feature => "unsupported Zip archive: " ++ feature.message
  | endOfFile => endOfFileText

/-- The wordings of the causes below the failure. -/
def causes : ZipError → List String
  | endOfFile => [endOfFileText]
  | _ => []

end ZipError

/-- Why the data of an entry cannot be read. -/
inductive EntryError where
  | badChecksum
  | badStream (flaw : Inflate.Flaw)
  deriving DecidableEq, Repr

def EntryError.message : EntryError → String
  | badChecksum => "Invalid checksum"
  | badStream .corrupt => "corrupt deflate stream"
  | badStream .incomplete => "incomplete deflate stream"

/-- An entry as the directory lists it. -/
structure ZipEntry where
  name : String
  flags : Nat
  method : Nat
  crc32 : Nat
  compressedSize : Nat
  size : Nat
  /-- The offset of the local header. -/
  headerStart : Nat
  /-- Whether the entry says how it is encrypted. -/
  hasCipher : Bool := false
  deriving DecidableEq, Repr

namespace Zip

/-- The number in `n` bytes from an offset on, low byte first. -/
def number (data : Array UInt8) (offset n : Nat) : Except ZipError Nat :=
  if offset + n ≤ data.size then
    .ok ((data.extract offset (offset + n)).foldr (fun b v => b.toNat + 256 * v) 0)
  else .error .endOfFile

/-- `n` bytes from an offset on. -/
def slice (data : Array UInt8) (offset n : Nat) : Except ZipError (Array UInt8) :=
  if offset + n ≤ data.size then .ok (data.extract offset (offset + n)) else .error .endOfFile

def endSignature : Nat := 0x06054b50
def end64Signature : Nat := 0x06064b50
def locator64Signature : Nat := 0x07064b50
def directorySignature : Nat := 0x02014b50
def localSignature : Nat := 0x04034b50

/-- Searches for the end record from an offset down, at most `tries` offsets. -/
def searchEnd (data : Array UInt8) : (tries offset : Nat) → Option Nat
  | 0, _ => none
  | tries + 1, offset =>
    match number data offset 4 with
    | .ok n =>
      if n = endSignature then some offset
      else if offset = 0 then none
      else searchEnd data tries (offset - 1)
    | .error _ => none

/-- Searches for the large end record from an offset up, at most `tries` offsets. -/
def searchEnd64 (data : Array UInt8) : (tries offset : Nat) → Option Nat
  | 0, _ => none
  | tries + 1, offset =>
    match number data offset 4 with
    | .ok n => if n = end64Signature then some offset else searchEnd64 data tries (offset + 1)
    | .error _ => none

/-- Where the directory lies, and how many entries it has. -/
structure DirectoryPlace where
  /-- By how much offsets are too small. -/
  shift : Nat
  start : Nat
  count : Nat

/-- The place of the directory according to the large end record whose locator is
at an offset. -/
def largeDirectory (data : Array UInt8) (endAt locatorAt disk : Nat) (tooSmall : Bool) :
    Except ZipError DirectoryPlace := do
  let directoryDisk ← number data (locatorAt + 4) 4
  let nominal ← number data (locatorAt + 8) 8
  if !tooSmall && disk ≠ directoryDisk then throw (.unsupportedArchive .severalDisks)
  -- The large record and its locator take sixty bytes before the end record.
  if endAt < 60 then throw (.invalidArchive .noRoomForLargeEnd)
  match searchEnd64 data (endAt - 60 + 1 - nominal) nominal with
  | none => throw (.invalidArchive .noLargeEnd)
  | some recordAt =>
    let thisDisk ← number data (recordAt + 16) 4
    let startDisk ← number data (recordAt + 20) 4
    let count ← number data (recordAt + 32) 8
    let offset ← number data (recordAt + 48) 8
    if thisDisk ≠ startDisk then throw (.unsupportedArchive .severalDisks)
    let shift := recordAt - nominal
    if UInt64.size ≤ offset + shift then throw (.invalidArchive .directoryBounds)
    return ⟨shift, offset + shift, count⟩

/-- The place of the directory. -/
def directoryPlace (data : Array UInt8) : Except ZipError DirectoryPlace := do
  if data.size < 22 then throw (.invalidArchive .noRoomForEnd)
  let last := data.size - 22
  match searchEnd data (last - (data.size - (22 + 65535)) + 1) last with
  | none => throw (.invalidArchive .noEnd)
  | some endAt =>
    let disk ← number data (endAt + 4) 2
    let directoryDisk ← number data (endAt + 6) 2
    let countHere ← number data (endAt + 8) 2
    let count ← number data (endAt + 10) 2
    let size ← number data (endAt + 12) 4
    let offset ← number data (endAt + 16) 4
    let commentLength ← number data (endAt + 20) 2
    let _ ← slice data (endAt + 22) commentLength
    let tooSmall := disk = 0xFFFF || directoryDisk = 0xFFFF || countHere = 0xFFFF ||
      count = 0xFFFF || size = 0xFFFFFFFF || offset = 0xFFFFFFFF
    if !tooSmall && disk ≠ directoryDisk then throw (.unsupportedArchive .severalDisks)
    let beforeEnd := 42 + commentLength
    let locator :=
      if beforeEnd ≤ data.size then (number data (data.size - beforeEnd) 4).toOption else none
    if locator = some locator64Signature then
      largeDirectory data endAt (data.size - beforeEnd) disk tooSmall
    else
      -- The directory ends where the end record begins, whatever its offset says.
      if endAt < size + offset then throw (.invalidArchive .directoryBounds)
      return ⟨endAt - size - offset, endAt - size, countHere⟩

/-- Puts the large sizes and offset from an offset on in place of those that did not
fit. The result has the offset behind them, unless they are cut; those in front
of the cut count. -/
def largeNumbers (extra : Array UInt8) (offset : Nat) (e : ZipEntry) : ZipEntry × Option Nat :=
  let limit := 0xFFFFFFFF
  let take (value here : Nat) : Option (Nat × Nat) :=
    if value = limit then (number extra here 8).toOption.map fun n => (n, here + 8)
    else some (value, here)
  match take e.size offset with
  | none => (e, none)
  | some (size, here) =>
    let e := { e with size }
    match take e.compressedSize here with
    | none => (e, none)
    | some (compressedSize, here) =>
      let e := { e with compressedSize }
      match take e.headerStart here with
      | none => (e, none)
      | some (headerStart, here) => ({ e with headerStart }, some here)

/-- The kinds of extra fields that matter. -/
def largeNumbersKind : Nat := 1
def cipherKind : Nat := 0x9901

/-- The length of a field that tells how an entry is encrypted. -/
def cipherLength : Nat := 7

/-- The compression method behind the encryption, from the field that tells about it. -/
def cipherMethod (extra : Array UInt8) (offset : Nat) : Except ZipError Nat := do
  let version ← number extra offset 2
  let vendor ← number extra (offset + 2) 2
  let strength ← number extra (offset + 4) 1
  let method ← number extra (offset + 5) 2
  if vendor ≠ 0x4541 then throw (.invalidArchive .cipherVendor)
  if version ≠ 1 ∧ version ≠ 2 then throw (.invalidArchive .cipherVersion)
  if strength ≠ 1 ∧ strength ≠ 2 ∧ strength ≠ 3 then throw (.invalidArchive .cipherStrength)
  return method

/-- Takes over what the extra fields from an offset on say. Fields of other kinds are
skipped, and a field that is cut ends the reading. -/
def readExtra (extra : Array UInt8) :
    (fuel offset : Nat) → ZipEntry → Except ZipError ZipEntry
  | 0, _, e => .ok e
  | fuel + 1, offset, e =>
    match number extra offset 2, number extra (offset + 2) 2 with
    | .ok kind, .ok length =>
      let next := offset + 4 + length
      if kind = largeNumbersKind then
        match largeNumbers extra (offset + 4) e with
        | (e, some here) => readExtra extra fuel (max here next) e
        | (e, none) => .ok e
      else if kind = cipherKind then
        if length ≠ cipherLength then .error (.unsupportedArchive .cipherLength)
        else match cipherMethod extra (offset + 4) with
          -- As many bytes again are passed over behind this field.
          | .ok method => readExtra extra fuel (next + length) { e with method, hasCipher := true }
          | .error .endOfFile => .ok e
          | .error cause => .error cause
      else readExtra extra fuel next e
    | _, _ => .ok e

/-- An encryption method that hides the compression method of an entry. -/
def encryptedMethod : Nat := 99

/-- Reads an entry of the directory; the result has the offset of the next one. -/
def readEntry (data : Array UInt8) (shift offset : Nat) : Except ZipError (ZipEntry × Nat) := do
  let signature ← number data offset 4
  if signature ≠ directorySignature then throw (.invalidArchive .directoryHeader)
  let flags ← number data (offset + 8) 2
  let method ← number data (offset + 10) 2
  let crc32 ← number data (offset + 16) 4
  let compressedSize ← number data (offset + 20) 4
  let size ← number data (offset + 24) 4
  let nameLength ← number data (offset + 28) 2
  let extraLength ← number data (offset + 30) 2
  let commentLength ← number data (offset + 32) 2
  let headerStart ← number data (offset + 42) 4
  let rawName ← slice data (offset + 46) nameLength
  let extra ← slice data (offset + 46 + nameLength) extraLength
  let _ ← slice data (offset + 46 + nameLength + extraLength) commentLength
  let name :=
    if flags / 2048 % 2 = 1 then Text.Utf8.decode rawName.toList
    else Text.CodePage437.decode rawName.toList
  let e ← readExtra extra (extra.size + 1) 0
    { name, flags, method, crc32, compressedSize, size, headerStart }
  if e.method = encryptedMethod ∧ !e.hasCipher then throw (.invalidArchive .noCipher)
  if UInt64.size ≤ e.headerStart + shift then throw (.invalidArchive .entryBounds)
  return ({ e with headerStart := e.headerStart + shift },
    offset + 46 + nameLength + extraLength + commentLength)

/-- Reads `count` entries from an offset on, after the entries `done` (last one
first). -/
def readEntries (data : Array UInt8) (shift : Nat) :
    (count offset : Nat) → (done : List ZipEntry) → Except ZipError (List ZipEntry)
  | 0, _, done => .ok done.reverse
  | count + 1, offset, done => do
    let (e, offset) ← readEntry data shift offset
    readEntries data shift count offset (e :: done)

/-- The directory of an archive. -/
def entries (data : Array UInt8) : Except ZipError (List ZipEntry) := do
  let place ← directoryPlace data
  readEntries data place.shift place.count place.start []

/-- Where the data of an entry begins. Encrypted entries and methods other than
"stored" and "deflated" are not supported. -/
def dataStart (data : Array UInt8) (e : ZipEntry) : Except ZipError Nat := do
  if e.flags % 2 = 1 then throw (.unsupportedArchive .decryption)
  let signature ← number data e.headerStart 4
  if signature ≠ localSignature then throw (.invalidArchive .localHeader)
  let nameLength ← number data (e.headerStart + 26) 2
  let extraLength ← number data (e.headerStart + 28) 2
  if e.method ≠ 0 ∧ e.method ≠ 8 then throw (.unsupportedArchive .method)
  if e.hasCipher then throw (.unsupportedArchive .decryption)
  return e.headerStart + 30 + nameLength + extraLength

/-- The data of an entry, which has to have the checksum that the directory
gives. -/
def content (data : Array UInt8) (start : Nat) (e : ZipEntry) : Except EntryError Bytes := do
  let raw := data.extract start (start + e.compressedSize)
  let out ←
    if e.method = 0 then pure raw.toList
    else match Inflate.run raw with
      | .ok out => pure out.toList
      | .error flaw => throw (.badStream flaw)
  if (Checksum.crc32 out).toNat ≠ e.crc32 then throw .badChecksum
  return out

end Zip

end Reclass
