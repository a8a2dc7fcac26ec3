/-!
Text literals of the generated source.
-/

namespace BlockCompiler

/-- One character of a literal: a backslash, a line feed, a dollar sign and a quote are escaped. -/
def literalChar (c : Char) : List Char :=
  if c = '\\' then ['\\', '\\']
  else if c = '\n' then ['\\', 'n']
  else if c = '$' then ['\\', '$']
  else if c = '\x27' then ['\\', '\x27']
  else [c]

/-- The literal of a text, in single quotes. -/
def literal (text : String) : String :=
  String.ofList ('\x27' :: text.toList.flatMap literalChar ++ ['\x27'])

end BlockCompiler
