import Reclass.Text.Decimal

/-!
# Results as JSON text

A result is a tree of objects and lists. It is written over several lines, each
level indented by two blanks; empty objects and lists stay on one line.
-/

set_option autoImplicit false

namespace Reclass.Text

/-- A result to be written. -/
inductive Json where
  | null
  | bool (b : Bool)
  | number (n : Nat)
  | text (s : String)
  | list (items : List Json)
  | object (fields : List (String × Json))

namespace Json

/-- A character between quotes. -/
def escape (c : Char) : List Char :=
  if c = '"' then ['\\', '"']
  else if c = '\\' then ['\\', '\\']
  else if c = '\n' then ['\\', 'n']
  else if c = '\r' then ['\\', 'r']
  else if c = '\t' then ['\\', 't']
  else if c = '\x08' then ['\\', 'b']
  else if c = '\x0c' then ['\\', 'f']
  else if c.toNat < 0x20 then ("\\u" ++ hexadecimal 4 c.toNat).toList
  else [c]

/-- A text between quotes. -/
def quoted (s : String) : String := String.ofList ('"' :: (s.toList.flatMap escape ++ ['"']))

/-- A new line at a level. -/
def newLine (level : Nat) : String := String.ofList ('\n' :: List.replicate (2 * level) ' ')

mutual

/-- A value that begins at a level. -/
def render (level : Nat) : Json → String
  | null => "null"
  | bool b => if b then "true" else "false"
  | number n => decimal n
  | text s => quoted s
  | list [] => "[]"
  | list (item :: items) =>
    "[" ++ newLine (level + 1) ++ render (level + 1) item ++ renderItems (level + 1) items ++
      newLine level ++ "]"
  | object [] => "\x7b\x7d"
  | object (field :: fields) =>
    "\x7b" ++ newLine (level + 1) ++ quoted field.1 ++ ": " ++ render (level + 1) field.2 ++
      renderFields (level + 1) fields ++ newLine level ++ "\x7d"

/-- The items of a list behind the first. -/
def renderItems (level : Nat) : List Json → String
  | [] => ""
  | item :: items => "," ++ newLine level ++ render level item ++ renderItems level items

/-- The fields of an object behind the first. -/
def renderFields (level : Nat) : List (String × Json) → String
  | [] => ""
  | field :: fields =>
    "," ++ newLine level ++ quoted field.1 ++ ": " ++ render level field.2 ++
      renderFields level fields

end

/-- The text of a result. -/
def pretty (j : Json) : String := render 0 j

end Json

end Reclass.Text
