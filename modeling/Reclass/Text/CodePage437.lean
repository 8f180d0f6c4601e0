import Reclass.Bytes

/-!
# Code page 437

The character set of archive entry names that are not marked as UTF-8.
-/

set_option autoImplicit false

namespace Reclass.Text.CodePage437

/-- The characters of the bytes from 128 on. -/
def upper : Array Char :=
  ("ÇüéâäàåçêëèïîìÄÅÉæÆôöòûùÿÖÜ¢£¥₧ƒáíóúñÑªº¿⌐¬½¼¡«»░▒▓│┤╡╢╖╕╣║╗╝╜╛┐└┴┬├─┼╞╟╚╔╩╦╠═╬╧╨╤╥╙╘╒╓╫╪┘┌█▄▌▐▀" ++
    "αßΓπΣσµτΦΘΩδ∞φε∩≡±≥≤⌠⌡÷≈°∙·√ⁿ²■\u00A0").toList.toArray

/-- The character of a byte. -/
def char (b : UInt8) : Char :=
  if b < 128 then Char.ofNat b.toNat else upper.getD (b.toNat - 128) '\uFFFD'

/-- The text of the bytes. -/
def decode (bs : Bytes) : String := String.ofList (bs.map char)

end Reclass.Text.CodePage437
