import Reclass.Text.Decimal
import Reclass.Text.Hidden

/-!
# Quoted text

A text between double quotes, with escapes for the quote, the backslash and
whatever would not show.
-/

set_option autoImplicit false

namespace Reclass.Text.Quoted

/-- One character inside quotes. -/
def encodeChar (c : Char) : List Char :=
  if c = '"' then ['\\', '"']
  else if c = '\\' then ['\\', '\\']
  else if c = '\t' then ['\\', 't']
  else if c = '\r' then ['\\', 'r']
  else if c = '\n' then ['\\', 'n']
  else if c.toNat = 0 then ['\\', '0']
  else if Hidden.isHidden c then ("\\u\x7b" ++ hexadecimal 0 c.toNat ++ "\x7d").toList
  else [c]

/-- A text in quotes. -/
def encode (s : String) : String :=
  String.ofList ('"' :: (s.toList.flatMap encodeChar ++ ['"']))

end Reclass.Text.Quoted
