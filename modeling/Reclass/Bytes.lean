/-!
# Byte strings and big-endian words

Class files, archives and cached results are lists of bytes. A word is written
with its high byte first; `word` reads one back, whatever its width.
-/

set_option autoImplicit false

namespace Reclass

/-- A string of bytes. -/
abbrev Bytes := List UInt8

namespace Bytes

/-- The number that the bytes spell, high byte first. -/
def word (bs : Bytes) : Nat :=
  bs.foldl (fun n b => n * 256 + b.toNat) 0

/-- The two bytes of a 16-bit word. -/
def ofUInt16 (v : UInt16) : Bytes :=
  [UInt8.ofNat (v.toNat / 256), UInt8.ofNat v.toNat]

/-- The four bytes of a 32-bit word. -/
def ofUInt32 (v : UInt32) : Bytes :=
  [UInt8.ofNat (v.toNat / 16777216), UInt8.ofNat (v.toNat / 65536),
    UInt8.ofNat (v.toNat / 256), UInt8.ofNat v.toNat]

/-- The UTF-8 form of a text. -/
def ofText (s : String) : Bytes := s.toUTF8.toList

@[simp] theorem length_ofUInt16 (v : UInt16) : (ofUInt16 v).length = 2 := rfl

@[simp] theorem length_ofUInt32 (v : UInt32) : (ofUInt32 v).length = 4 := rfl

/-- A 16-bit word survives being written and read. -/
theorem word_ofUInt16 (v : UInt16) : word (ofUInt16 v) = v.toNat := by
  have h := v.toNat_lt
  simp only [word, ofUInt16, List.foldl_cons, List.foldl_nil, UInt8.toNat_ofNat']
  omega

/-- A 32-bit word survives being written and read. -/
theorem word_ofUInt32 (v : UInt32) : word (ofUInt32 v) = v.toNat := by
  have h := v.toNat_lt
  simp only [word, ofUInt32, List.foldl_cons, List.foldl_nil, UInt8.toNat_ofNat']
  omega

end Bytes

end Reclass
