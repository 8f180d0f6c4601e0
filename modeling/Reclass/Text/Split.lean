/-!
# Splitting and trimming text

Lists of characters are cut at every occurrence of a separator, so a text with
`n` separators has `n + 1` parts. Trimming drops white space in the sense of the
Unicode property `White_Space`.
-/

set_option autoImplicit false

namespace Reclass.Text

/-- The parts of a text between the separators, empty parts included. -/
def splitOn (sep : Char) : List Char → List (List Char)
  | [] => [[]]
  | c :: cs =>
    if c = sep then [] :: splitOn sep cs
    else match splitOn sep cs with
      | [] => [[c]]
      | part :: parts => (c :: part) :: parts

/-- The text before and after the first separator, when there is one. -/
def splitOnce (sep : Char) : List Char → Option (List Char × List Char)
  | [] => none
  | c :: cs =>
    if c = sep then some ([], cs)
    else (splitOnce sep cs).map fun (before, after) => (c :: before, after)

/-- The parts put back together with the separator between them. -/
def joinWith (sep : Char) : List (List Char) → List Char
  | [] => []
  | [part] => part
  | part :: parts => part ++ sep :: joinWith sep parts

/-- The characters with the Unicode property `White_Space`. -/
def isBlank (c : Char) : Bool :=
  c = ' ' || ('\t' ≤ c && c ≤ '\r') || c = '\u0085' || c = '\u00A0' || c = '\u1680' ||
    ('\u2000' ≤ c && c ≤ '\u200A') || c = '\u2028' || c = '\u2029' || c = '\u202F' ||
    c = '\u205F' || c = '\u3000'

/-- The text without white space at its ends. -/
def trim (cs : List Char) : List Char :=
  ((cs.dropWhile isBlank).reverse.dropWhile isBlank).reverse

/-- A text with every occurrence of one character replaced by another. -/
def replaceChar (old new : Char) (s : String) : String :=
  String.ofList (s.toList.map fun c => if c = old then new else c)

/-- Whether `s` begins with `head`. -/
def startsWith (s head : String) : Bool := head.toList.isPrefixOf s.toList

/-- Whether `s` ends with `tail`. -/
def endsWith (s tail : String) : Bool := tail.toList.isSuffixOf s.toList

theorem splitOn_ne_nil (sep : Char) (cs : List Char) : splitOn sep cs ≠ [] := by
  cases cs with
  | nil => simp [splitOn]
  | cons c cs =>
    unfold splitOn
    split
    · simp
    · split <;> simp

/-- Cutting at a separator loses nothing. -/
theorem joinWith_splitOn (sep : Char) (cs : List Char) :
    joinWith sep (splitOn sep cs) = cs := by
  induction cs with
  | nil => rfl
  | cons c cs ih =>
    have ne := splitOn_ne_nil sep cs
    unfold splitOn
    split
    · next h =>
      cases hs : splitOn sep cs with
      | nil => exact absurd hs ne
      | cons part parts => rw [← ih, hs, h]; simp [joinWith]
    · cases hs : splitOn sep cs with
      | nil => exact absurd hs ne
      | cons part parts =>
        rw [← ih, hs]
        cases parts <;> simp [joinWith]

end Reclass.Text
