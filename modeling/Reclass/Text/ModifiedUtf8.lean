import Reclass.Bytes

/-!
# Modified UTF-8

Names in class files are sequences of UTF-16 units, each written as one, two or
three bytes: NUL takes two bytes, a character outside the basic plane is a pair
of three-byte units, and no zero byte ever appears. Reading accepts every
unit of the three widths, overlong ones included, and turns a surrogate without
its partner into U+FFFD.
-/

set_option autoImplicit false

namespace Reclass.Text

namespace Utf16

def isHigh (u : UInt16) : Bool := 0xD800 ≤ u && u ≤ 0xDBFF

def isLow (u : UInt16) : Bool := 0xDC00 ≤ u && u ≤ 0xDFFF

/-- The units of one character: itself, or a surrogate pair. -/
def ofChar (c : Char) : List UInt16 :=
  if c.toNat < 0x10000 then [UInt16.ofNat c.toNat]
  else
    let v := c.toNat - 0x10000
    [UInt16.ofNat (0xD800 + v / 0x400), UInt16.ofNat (0xDC00 + v % 0x400)]

/-- The units of a text. -/
def ofChars (cs : List Char) : List UInt16 := cs.flatMap ofChar

/-- The character of a surrogate pair. -/
def ofPair (high low : UInt16) : Char :=
  Char.ofNat (0x10000 + (high.toNat - 0xD800) * 0x400 + (low.toNat - 0xDC00))

/-- The characters of a sequence of units, after the characters `done` (last one
first); a surrogate without its partner reads as U+FFFD. -/
def toCharsFrom (done : List Char) : List UInt16 → List Char
  | [] => done.reverse
  | u :: rest =>
    if isHigh u then
      match rest with
      | [] => ('\uFFFD' :: done).reverse
      | v :: rest' =>
        -- What follows a lone high surrogate is looked at again.
        if isLow v then toCharsFrom (ofPair u v :: done) rest'
        else toCharsFrom ('\uFFFD' :: done) (v :: rest')
    else if isLow u then toCharsFrom ('\uFFFD' :: done) rest
    else toCharsFrom (Char.ofNat u.toNat :: done) rest

/-- The characters of a sequence of units. -/
def toChars (us : List UInt16) : List Char := toCharsFrom [] us

end Utf16

namespace ModifiedUtf8

/-- A one-byte unit. -/
def isSingle (b : UInt8) : Bool := 0x01 ≤ b && b ≤ 0x7F

/-- The first byte of a two-byte unit. -/
def isLead2 (b : UInt8) : Bool := 0xC0 ≤ b && b ≤ 0xDF

/-- The first byte of a three-byte unit. -/
def isLead3 (b : UInt8) : Bool := 0xE0 ≤ b && b ≤ 0xEF

/-- A byte after the first one of a unit. -/
def isContinuation (b : UInt8) : Bool := 0x80 ≤ b && b ≤ 0xBF

/-- The unit of two bytes: five bits, then six. -/
def unit2 (b c : UInt8) : UInt16 :=
  UInt16.ofNat (b.toNat % 32 * 64 + c.toNat % 64)

/-- The unit of three bytes: four bits, then twice six. -/
def unit3 (b c d : UInt8) : UInt16 :=
  UInt16.ofNat (b.toNat % 16 * 4096 + c.toNat % 64 * 64 + d.toNat % 64)

/-- The shortest form of a unit, NUL in two bytes. -/
def ofUnit (u : UInt16) : Bytes :=
  let n := u.toNat
  if 0 < n ∧ n < 0x80 then [UInt8.ofNat n]
  else if n < 0x800 then [UInt8.ofNat (0xC0 + n / 64), UInt8.ofNat (0x80 + n % 64)]
  else
    [UInt8.ofNat (0xE0 + n / 4096), UInt8.ofNat (0x80 + n / 64 % 64), UInt8.ofNat (0x80 + n % 64)]

/-- The units that the bytes spell, after the units `done` (last one first);
nothing when some byte does not belong to a unit. -/
def unitsFrom (done : List UInt16) : Bytes → Option (List UInt16)
  | [] => some done.reverse
  | b :: rest =>
    if isSingle b then unitsFrom (UInt16.ofNat b.toNat :: done) rest
    else if isLead2 b then
      match rest with
      | c :: rest' => if isContinuation c then unitsFrom (unit2 b c :: done) rest' else none
      | [] => none
    else if isLead3 b then
      match rest with
      | c :: d :: rest' =>
        if isContinuation c && isContinuation d then unitsFrom (unit3 b c d :: done) rest'
        else none
      | _ => none
    else none

/-- The modified UTF-8 form of a text. -/
def encode (s : String) : Bytes := (Utf16.ofChars s.toList).flatMap ofUnit

/-- The text that the bytes spell. -/
def decode (bs : Bytes) : Option String :=
  (unitsFrom [] bs).map fun us => String.ofList (Utf16.toChars us)

end ModifiedUtf8

end Reclass.Text
