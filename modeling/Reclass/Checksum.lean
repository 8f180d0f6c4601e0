import Reclass.Bytes

/-!
# CRC-32

The checksum that names cached results and guards archive entries: the
reflected polynomial `0xEDB88320`, register preset to all ones and inverted at
the end.
-/

set_option autoImplicit false

namespace Reclass.Checksum

/-- One bit of the register leaves at the low end. -/
def shift (c : UInt32) : UInt32 :=
  if c &&& 1 = 1 then (c >>> 1) ^^^ 0xEDB88320 else c >>> 1

/-- One byte enters the register. -/
def feed (c : UInt32) (b : UInt8) : UInt32 :=
  let c := c ^^^ b.toUInt32
  shift (shift (shift (shift (shift (shift (shift (shift c)))))))

/-- CRC-32 of a byte string. -/
def crc32 (bs : Bytes) : UInt32 :=
  (bs.foldl feed 0xFFFFFFFF) ^^^ 0xFFFFFFFF

end Reclass.Checksum
