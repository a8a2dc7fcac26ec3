import BlockCompiler.Unicode.Ranges

/-!
Blank characters: the Unicode white space, the control characters that separate lines, files,
groups, records and units, and the no-break spaces.
-/

namespace BlockCompiler

/-- The blank code points. -/
def blankRanges : List (Nat × Nat) :=
  [(9, 0xd), (0x1c, 0x20), (0x85, 0x85), (0xa0, 0xa0), (0x1680, 0x1680), (0x2000, 0x200a),
  (0x2028, 0x2029), (0x202f, 0x202f), (0x205f, 0x205f), (0x3000, 0x3000)]

/-- Whether a character is blank. -/
def isBlank (c : Char) : Bool := inRanges blankRanges c.toNat

/-- Whether a character is one of the six blanks of plain text: tab, line feed, vertical tab, form feed,
carriage return and space. -/
def isPlainBlank (c : Char) : Bool := c == ' ' || 9 ≤ c.toNat && c.toNat ≤ 13

end BlockCompiler
