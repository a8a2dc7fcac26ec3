import BlockCompiler.Unicode.Blank

/-!
Lines of a text: splitting, putting a lead before each, and the trimming of blank space around them.
-/

namespace BlockCompiler

/-- The pieces of a text between its line feeds; there is always one. -/
def splitLines : List Char → List (List Char)
  | [] => [[]]
  | c :: rest =>
    match splitLines rest with
    | [] => [[c]]
    | line :: lines => if c = '\n' then [] :: line :: lines else (c :: line) :: lines

/-- Put a lead after every line feed but one that ends the text. -/
def leadLaterLines (lead : List Char) : List Char → List Char
  | [] => []
  | ['\n'] => ['\n']
  | c :: rest => if c = '\n' then c :: (lead ++ leadLaterLines lead rest) else c :: leadLaterLines lead rest

/-- Put a lead before every line. A line feed at the end starts no new line. -/
def leadLines (lead text : String) : String :=
  String.ofList (lead.toList ++ leadLaterLines lead.toList text.toList)

/-- Reduce runs of three line feeds or more to two. -/
def collapseBlankLines : List Char → List Char
  | [] => []
  | '\n' :: '\n' :: '\n' :: rest => collapseBlankLines ('\n' :: '\n' :: rest)
  | c :: rest => c :: collapseBlankLines rest

/-- A text without the line feeds at its end. -/
def dropLineFeedsAtEnd (text : List Char) : List Char :=
  (text.reverse.dropWhile (· = '\n')).reverse

/-- A text without the line feed at its end, if it has one. -/
def dropLineFeedAtEnd (text : List Char) : List Char :=
  if text.getLast? = some '\n' then text.dropLast else text

/-- What stands behind the last line feed of a text. -/
def lastLine (text : List Char) : List Char := (text.reverse.takeWhile (· ≠ '\n')).reverse

/-- Drop the blank lines that open a text, up to the last line feed of its leading blanks. A line feed
that is the very first character does not count. -/
def dropOpeningBlankLines (text : List Char) : List Char :=
  let later := (text.takeWhile isBlank).drop 1
  if later.contains '\n' then lastLine later ++ text.dropWhile isBlank else text

/-- Reduce the blank lines that close a text to one line feed: all from the first line feed of its
closing blanks on, unless that is the last character. -/
def closeWithLineFeed (text : List Char) : List Char :=
  let closing := (text.reverse.takeWhile isBlank).reverse
  let body := (text.reverse.dropWhile isBlank).reverse
  let head := closing.takeWhile (· ≠ '\n')
  if 1 < (closing.drop head.length).length then body ++ head ++ ['\n'] else text

/-- Whether a character is a space or a tab. -/
def isSpaceOrTab (c : Char) : Bool := c = ' ' || c = '\t'

/-- Drop the spaces and tabs that stand before line feeds. -/
def trimLineEnds : List Char → List Char
  | [] => []
  | c :: rest =>
    if isSpaceOrTab c && (rest.dropWhile isSpaceOrTab).head? = some '\n' then trimLineEnds rest
    else c :: trimLineEnds rest

end BlockCompiler
