import BlockCompiler.Unicode.Printable

/-!
How a text is shown inside a message: between quotes, with everything that has no printed form escaped.
-/

namespace BlockCompiler

/-- A hexadecimal digit. -/
def hexDigit (n : Nat) : Char := if n < 10 then Char.ofNat (48 + n) else Char.ofNat (87 + n)

/-- The last `count` hexadecimal digits of a number, in lower case. -/
def hexDigits : (count : Nat) → Nat → List Char
  | 0, _ => []
  | count + 1, n => hexDigits count (n / 16) ++ [hexDigit (n % 16)]

/-- One character of a shown text. -/
def shownChar (quoteMark c : Char) : List Char :=
  if c = '\\' ∨ c = quoteMark then ['\\', c]
  else if c = '\t' then ['\\', 't']
  else if c = '\n' then ['\\', 'n']
  else if c = '\r' then ['\\', 'r']
  else if isPrintable c then [c]
  else if c.toNat < 0x100 then '\\' :: 'x' :: hexDigits 2 c.toNat
  else if c.toNat < 0x10000 then '\\' :: 'u' :: hexDigits 4 c.toNat
  else '\\' :: 'U' :: hexDigits 8 c.toNat

/-- A text as messages show it: in single quotes, or in double ones when it has single quotes only. -/
def shownText (text : String) : String :=
  let chars := text.toList
  let quoteMark := if chars.contains '\x27' && !chars.contains '\x22' then '\x22' else '\x27'
  String.ofList (quoteMark :: chars.flatMap (shownChar quoteMark) ++ [quoteMark])

/-- The separator-joined form of some texts. -/
def joinTexts (separator : String) (texts : List String) : String := separator.intercalate texts

end BlockCompiler
