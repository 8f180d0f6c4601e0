/-!
# Numbers in messages

Numbers are written in decimal without padding, or in hexadecimal with a fixed
number of lower-case digits. Words that spell a number are read back.
-/

set_option autoImplicit false

namespace Reclass.Text

/-- A number in decimal. -/
def decimal (n : Nat) : String := String.ofList (Nat.toDigits 10 n)

/-- A number in hexadecimal with at least `width` digits. -/
def hexadecimal (width n : Nat) : String :=
  let digits := Nat.toDigits 16 n
  String.ofList (List.replicate (width - digits.length) '0' ++ digits)

/-- The number that a word spells: decimal digits, possibly behind a plus sign,
and within 64 bits. -/
def count? (word : List Char) : Option Nat :=
  let digits := match word with
    | '+' :: rest => rest
    | cs => cs
  if digits.isEmpty ∨ !digits.all Char.isDigit then none
  else
    let n := digits.foldl (fun n c => n * 10 + (c.toNat - '0'.toNat)) 0
    if n < UInt64.size then some n else none

/-- Whether a word ends a number in scientific notation: nothing, or an exponent. -/
def isExponent : List Char → Bool
  | [] => true
  | e :: word =>
    let digits := match word with
      | '+' :: rest | '-' :: rest => rest
      | cs => cs
    (e = 'e' || e = 'E') && !digits.isEmpty && digits.all Char.isDigit

/-- Whether a word spells a number, possibly with a sign, a fraction and an exponent,
or infinity, or what is no number. -/
def isNumeral (word : List Char) : Bool :=
  let body := match word with
    | '+' :: rest | '-' :: rest => rest
    | cs => cs
  let whole := body.takeWhile Char.isDigit
  let (fraction, rest) := match body.dropWhile Char.isDigit with
    | '.' :: rest => (rest.takeWhile Char.isDigit, rest.dropWhile Char.isDigit)
    | rest => ([], rest)
  ["inf", "infinity", "nan"].contains (String.ofList (body.map Char.toLower)) ||
    (!(whole.isEmpty && fraction.isEmpty) && isExponent rest)

end Reclass.Text
