import BlockCompiler.Text.Shown

/-!
Identifiers: turning any text into a name that the generated source may use.
-/

namespace BlockCompiler

/-- Whether a character can stand in an identifier. -/
def isIdentifierChar (c : Char) : Bool := c.isAlphanum || c = '_'

/-- The punctuation that is replaced by one underscore; the space is treated alike. -/
def plainPunctuation : List Char := " ;,/?:@&=+$!*'()#.-~".toList

/-- An upper-case hexadecimal digit. -/
def upperHexDigit (n : Nat) : Char := if n < 10 then Char.ofNat (48 + n) else Char.ofNat (55 + n)

/-- A byte as an underscore and two hexadecimal digits. -/
def escapedByte (byte : UInt8) : List Char :=
  ['_', upperHexDigit (byte.toNat / 16), upperHexDigit (byte.toNat % 16)]

/-- What stands for a character in an identifier: itself where it may, an underscore for a space and
plain punctuation, and the escaped bytes of its encoding for all else. -/
def identifierChar (c : Char) : List Char :=
  if isIdentifierChar c then [c]
  else if plainPunctuation.contains c then ['_']
  else (String.utf8EncodeChar c).flatMap escapedByte

/-- An identifier for any text. The empty text is unnamed, and a leading digit gets company. -/
def safeName (name : String) : String :=
  match name.toList.flatMap identifierChar with
  | [] => "unnamed"
  | c :: rest => if c.isDigit then "my_" ++ String.ofList (c :: rest) else String.ofList (c :: rest)

end BlockCompiler
