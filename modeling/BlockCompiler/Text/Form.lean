import BlockCompiler.Number.Numeral
import BlockCompiler.Text.Lines
import BlockCompiler.Unicode.Word

/-!
Forms of code that the emitter tells apart: numerals, words, and lines that import something.
-/

namespace BlockCompiler

/-- Whether a text is made of digits, at least one. -/
def isDigits (text : List Char) : Bool := !text.isEmpty && text.all isDigit

/-- The sign and blanks around a numeral dropped. -/
def numeralBody (text : String) : List Char :=
  match trimEnds isBlank text.toList with
  | '-' :: body => body
  | body => body

/-- Whether a text is a whole numeral: digits, perhaps with a minus before them. -/
def isWholeNumeral (text : String) : Bool := isDigits (numeralBody text)

/-- Whether a text is a numeral: whole, or with a point and digits behind it. -/
def isNumeral (text : String) : Bool :=
  let body := numeralBody text
  let whole := body.takeWhile isDigit
  isDigits whole &&
    match body.drop whole.length with
    | [] => true
    | '.' :: fraction => isDigits fraction
    | _ => false

/-- Whether a text is a word; a line feed may end it. -/
def isWord (text : String) : Bool :=
  let word := dropLineFeedAtEnd text.toList
  !word.isEmpty && word.all isWordChar

/-- Whether a text starts with a lead that a blank follows. -/
def startsWithWord (lead : String) (text : List Char) : Bool :=
  lead.toList.isPrefixOf text && (text.drop lead.length).head?.any isBlank

/-- Whether a definition imports something, and so belongs at the head of the source. -/
def isImport (definition : String) : Bool :=
  startsWithWord "import" definition.toList || startsWithWord "#include" definition.toList

end BlockCompiler
