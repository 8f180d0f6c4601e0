import Reclass.Bytes

/-!
# Reading UTF-8 that may be broken

Bytes that are no part of a character are replaced by U+FFFD, once for each
longest run that could have begun one.
-/

set_option autoImplicit false

namespace Reclass.Text.Utf8

/-- How a first byte continues: the number of bytes that follow, and the range of
the first of them. -/
def lead? (b : UInt8) : Option (Nat × UInt8 × UInt8) :=
  if 0xC2 ≤ b ∧ b ≤ 0xDF then some (1, 0x80, 0xBF)
  else if b = 0xE0 then some (2, 0xA0, 0xBF)
  else if 0xE1 ≤ b ∧ b ≤ 0xEC then some (2, 0x80, 0xBF)
  else if b = 0xED then some (2, 0x80, 0x9F)
  else if 0xEE ≤ b ∧ b ≤ 0xEF then some (2, 0x80, 0xBF)
  else if b = 0xF0 then some (3, 0x90, 0xBF)
  else if 0xF1 ≤ b ∧ b ≤ 0xF3 then some (3, 0x80, 0xBF)
  else if b = 0xF4 then some (3, 0x80, 0x8F)
  else none

/-- The bits that a first byte with `left` bytes behind it gives to the character. -/
def leadBits (b : UInt8) (left : Nat) : Nat := b.toNat % (64 >>> left)

/-- What is being read: nothing, or a character of which `left` bytes are still to
come, the next one within a range. -/
inductive Pending where
  | none
  | char (value left : Nat) (low high : UInt8)

/-- The characters of the bytes, after the characters `done` (last one first). -/
def decodeFrom (done : List Char) : Pending → Bytes → List Char
  | .none, [] => done.reverse
  | .char .., [] => ('\uFFFD' :: done).reverse
  | .none, b :: rest =>
    if b < 0x80 then decodeFrom (Char.ofNat b.toNat :: done) .none rest
    else match lead? b with
      | some (left, low, high) =>
        decodeFrom done (.char (leadBits b left) left low high) rest
      | Option.none => decodeFrom ('\uFFFD' :: done) .none rest
  | .char value left low high, b :: rest =>
    if low ≤ b ∧ b ≤ high then
      let value := value * 64 + b.toNat % 64
      if left ≤ 1 then decodeFrom (Char.ofNat value :: done) .none rest
      else decodeFrom done (.char value (left - 1) 0x80 0xBF) rest
    else if b < 0x80 then decodeFrom (Char.ofNat b.toNat :: '\uFFFD' :: done) .none rest
    else match lead? b with
      | some (left, low, high) =>
        decodeFrom ('\uFFFD' :: done) (.char (leadBits b left) left low high) rest
      | Option.none => decodeFrom ('\uFFFD' :: '\uFFFD' :: done) .none rest

/-- The text of the bytes. -/
def decode (bs : Bytes) : String := String.ofList (decodeFrom [] .none bs)

end Reclass.Text.Utf8
