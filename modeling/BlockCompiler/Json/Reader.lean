import BlockCompiler.Json.Basic
import BlockCompiler.Text.Utf8

/-!
Reading JSON. Besides the standard's values, the reader takes NaN, Infinity and -Infinity for numbers, and an
escape may give a lone half of a surrogate pair. A text that is no JSON is answered with the first fault and
the place where it shows.
-/

namespace BlockCompiler

/-- What is wrong with a text that should be JSON. -/
inductive JsonFault where
  | byteOrderMark
  | noValue
  | noName
  | noColon
  | noComma
  | openText
  | controlCharacter
  | escape
  | unicodeEscape
  | extraData
  deriving DecidableEq, Repr

/-- Why a text is not read: a fault at a position of the text, a whole number with too many digits, or a lone
half of a surrogate pair where nothing stands in for it. -/
inductive JsonError where
  | malformed (fault : JsonFault) (position line column : Nat)
  | longNumber (digits : Nat)
  | loneHalf
  deriving DecidableEq, Repr

/-- What a fault is called. -/
def JsonFault.message : JsonFault → String
  | .byteOrderMark => "Unexpected UTF-8 BOM (decode using utf-8-sig)"
  | .noValue => "Expecting value"
  | .noName => "Expecting property name enclosed in double quotes"
  | .noColon => "Expecting ':' delimiter"
  | .noComma => "Expecting ',' delimiter"
  | .openText => "Unterminated string starting at"
  | .controlCharacter => "Invalid control character at"
  | .escape => "Invalid \\escape"
  | .unicodeEscape => "Invalid \\uXXXX escape"
  | .extraData => "Extra data"

/-- What a JSON error says. -/
def JsonError.message : JsonError → String
  | .malformed fault position line column =>
    s!"{fault.message}: line {line} column {column} (char {position})"
  | .longNumber digits => (NumeralError.tooLongToRead digits).message
  | .loneHalf => "a lone half of a surrogate pair is no character"

/-- Why the reader stops. A fault is placed by how many characters stand from there to the end. -/
inductive JsonStop where
  | fault (fault : JsonFault) (left : Nat)
  | longNumber (digits : Nat)
  | loneHalf

/-- What a reader goes by: the most digits that a whole number may have, and whether characters stand in for
lone halves of surrogate pairs. -/
structure JsonRules where
  most : Option Nat
  standIns : Bool := false

/-- Stop with a fault at the head of the rest of the text. -/
def stopAt {α : Type} (fault : JsonFault) (rest : List Char) : Except JsonStop α :=
  .error (.fault fault rest.length)

/-- Blanks between the parts of a JSON text. -/
def skipJsonBlanks (text : List Char) : List Char :=
  text.dropWhile fun c => c = ' ' || c = '\t' || c = '\n' || c = '\r'

/-- The value of a hexadecimal digit. -/
def hexValue? (c : Char) : Option Nat :=
  if '0' ≤ c ∧ c ≤ '9' then some (c.toNat - 48)
  else if 'a' ≤ c ∧ c ≤ 'f' then some (c.toNat - 87)
  else if 'A' ≤ c ∧ c ≤ 'F' then some (c.toNat - 55)
  else none

/-- The value of four hexadecimal digits, which must not end the text, and what follows them. -/
def takeHex4? : List Char → Option (Nat × List Char)
  | a :: b :: c :: d :: next :: rest => do
    let code := 4096 * (← hexValue? a) + 256 * (← hexValue? b) + 16 * (← hexValue? c) + (← hexValue? d)
    return (code, next :: rest)
  | _ => none

/-- The character of an escape of one letter. -/
def escapedChar? : Char → Option Char
  | 'b' => some '\x08'
  | 'f' => some '\x0c'
  | 'n' => some '\n'
  | 'r' => some '\r'
  | 't' => some '\t'
  | '\x22' => some '\x22'
  | '\\' => some '\\'
  | '/' => some '/'
  | _ => none

/-- The character that two codes make up as a pair. -/
def charOfPair? (high low : Nat) : Option Char :=
  if 0xd800 ≤ high ∧ high < 0xdc00 ∧ 0xdc00 ≤ low ∧ low < 0xe000 then
    some (Char.ofNat (0x10000 + 0x400 * (high - 0xd800) + (low - 0xdc00)))
  else none

/-- A character that a text has itself. Where characters stand in for halves, it must be none of these. -/
def JsonRules.own (rules : JsonRules) (c : Char) : Except JsonStop Char :=
  if rules.standIns && isStandIn c then .error .loneHalf else .ok c

/-- The character of a single code. -/
def JsonRules.charOf (rules : JsonRules) (code : Nat) : Except JsonStop Char :=
  if 0xd800 ≤ code ∧ code < 0xe000 then
    if rules.standIns then .ok (standIn code) else .error .loneHalf
  else .ok (Char.ofNat code)

/-- Read the character of an escape by code; the text starts at the letter u. Two escapes that make up
one character are joined. -/
def readCode (rules : JsonRules) (text : List Char) : Except JsonStop (Char × List Char) := do
  match takeHex4? (text.drop 1) with
  | none => stopAt .unicodeEscape text
  | some (high, rest) =>
    match rest with
    | '\\' :: 'u' :: more =>
      if 0xd800 ≤ high ∧ high < 0xdc00 ∧ 4 < more.length then
        match takeHex4? more with
        | none => stopAt .unicodeEscape ('u' :: more)
        | some (low, after) =>
          match charOfPair? high low with
          | some c => return (← rules.own c, after)
          | none => return (← rules.charOf high, rest)
      else return (← rules.charOf high, rest)
    | _ => return (← rules.charOf high, rest)

/-- Read the characters of a quoted text up to its closing quote; `left` counts the characters from the
opening quote to the end. -/
def readQuoted (rules : JsonRules) (left : Nat) :
    (fuel : Nat) → List Char → Except JsonStop (List Char × List Char)
  | 0, _ => .error (.fault .openText left)
  | fuel + 1, text =>
    match text with
    | [] => .error (.fault .openText left)
    | '\x22' :: rest => .ok ([], rest)
    | '\\' :: rest =>
      match rest with
      | [] => .error (.fault .openText left)
      | 'u' :: _ => do
        let (c, rest) ← readCode rules rest
        let (more, rest) ← readQuoted rules left fuel rest
        return (c :: more, rest)
      | letter :: rest =>
        match escapedChar? letter with
        | none => stopAt .escape text
        | some c => do
          let (more, rest) ← readQuoted rules left fuel rest
          return (c :: more, rest)
    | c :: rest =>
      if c.toNat < 0x20 then stopAt .controlCharacter text
      else do
        let c ← rules.own c
        let (more, rest) ← readQuoted rules left fuel rest
        return (c :: more, rest)

/-- Read a text after its opening quote. -/
def readJsonText (rules : JsonRules) (rest : List Char) : Except JsonStop (String × List Char) := do
  let (chars, rest) ← readQuoted rules (rest.length + 1) (rest.length + 1) rest
  return (String.ofList chars, rest)

/-- Whether a character is one of the ten digits. -/
def isPlainDigit (c : Char) : Bool := '0' ≤ c && c ≤ '9'

/-- A row of plain digits read as a number. -/
def ofPlainDigits (digits : List Char) : Nat := ofDigits (digits.map fun c => c.toNat - 48)

/-- Split off the whole part of a number: one zero, or digits that start with none. -/
def takeWholePart? : List Char → Option (List Char × List Char)
  | '0' :: rest => some (['0'], rest)
  | text =>
    let digits := text.takeWhile isPlainDigit
    if digits.isEmpty then none else some (digits, text.drop digits.length)

/-- Split off a fraction: a point with digits behind it. -/
def takeFraction : List Char → Option (List Char) × List Char
  | '.' :: rest =>
    let digits := rest.takeWhile isPlainDigit
    if digits.isEmpty then (none, '.' :: rest) else (some digits, rest.drop digits.length)
  | rest => (none, rest)

/-- Split off an exponent: its mark, a sign or none, and digits. -/
def takeExponent (text : List Char) : Option Int × List Char :=
  match text with
  | mark :: rest =>
    if mark = 'e' ∨ mark = 'E' then
      let (negative, body) := takeSign rest
      let digits := body.takeWhile isPlainDigit
      if digits.isEmpty then (none, text)
      else (some (Binary64.signed negative (ofPlainDigits digits)), body.drop digits.length)
    else (none, text)
  | [] => (none, [])

/-- Read a number. One without fraction and exponent is whole. -/
def readJsonNumber (rules : JsonRules) (text : List Char) : Except JsonStop (Json × List Char) :=
  let (negative, body) :=
    match text with
    | '-' :: rest => (true, rest)
    | rest => (false, rest)
  match takeWholePart? body with
  | none => stopAt .noValue text
  | some (whole, rest) =>
    let (fraction, rest) := takeFraction rest
    let (exponent, rest) := takeExponent rest
    if fraction.isSome || exponent.isSome then
      let digits := fraction.getD []
      let power := exponent.getD 0 - digits.length
      .ok (.number (.float (.ofDecimal negative (ofPlainDigits (whole ++ digits)) power)), rest)
    else if rules.most.any (· < whole.length) then .error (.longNumber whole.length)
    else .ok (.int (Binary64.signed negative (ofPlainDigits whole)), rest)

/-- The values that are written as words. -/
def jsonWords : List (String × Json) :=
  [("null", .null), ("true", .bool true), ("false", .bool false), ("NaN", .number (.float .nan)),
    ("Infinity", .number (.float (.infinite false))), ("-Infinity", .number (.float (.infinite true)))]

/-- Read a value that is no text, list or object. -/
def readPlain (rules : JsonRules) (text : List Char) : Except JsonStop (Json × List Char) :=
  match jsonWords.find? fun (word, _) => word.toList.isPrefixOf text with
  | some (word, value) => .ok (value, text.drop word.length)
  | none => readJsonNumber rules text

mutual

/-- Read a value. -/
def readValue (rules : JsonRules) : (fuel : Nat) → List Char → Except JsonStop (Json × List Char)
  | 0, text => stopAt .noValue text
  | fuel + 1, text =>
    match text with
    | '\x22' :: rest => do
      let (value, rest) ← readJsonText rules rest
      return (.text value, rest)
    | '[' :: rest =>
      match skipJsonBlanks rest with
      | ']' :: rest => .ok (.list [], rest)
      | rest => do
        let (items, rest) ← readItems rules fuel rest
        return (.list items, rest)
    | '\x7b' :: rest =>
      match skipJsonBlanks rest with
      | '\x7d' :: rest => .ok (.object [], rest)
      | rest => do
        let (members, rest) ← readMembers rules fuel rest
        return (.object (Table.ofEntries members), rest)
    | text => readPlain rules text

/-- Read the items of a list that is not empty, and its closing bracket. -/
def readItems (rules : JsonRules) : (fuel : Nat) → List Char → Except JsonStop (List Json × List Char)
  | 0, text => stopAt .noValue text
  | fuel + 1, text => do
    let (item, rest) ← readValue rules fuel text
    match skipJsonBlanks rest with
    | ']' :: rest => return ([item], rest)
    | ',' :: rest =>
      let (items, rest) ← readItems rules fuel (skipJsonBlanks rest)
      return (item :: items, rest)
    | rest => stopAt .noComma rest

/-- Read the members of an object that is not empty, and its closing brace. -/
def readMembers (rules : JsonRules) :
    (fuel : Nat) → List Char → Except JsonStop (List (String × Json) × List Char)
  | 0, text => stopAt .noName text
  | fuel + 1, text => do
    match text with
    | '\x22' :: rest =>
      let (name, rest) ← readJsonText rules rest
      match skipJsonBlanks rest with
      | ':' :: rest =>
        let (value, rest) ← readValue rules fuel (skipJsonBlanks rest)
        match skipJsonBlanks rest with
        | '\x7d' :: rest => return ([(name, value)], rest)
        | ',' :: rest =>
          let (members, rest) ← readMembers rules fuel (skipJsonBlanks rest)
          return ((name, value) :: members, rest)
        | rest => stopAt .noComma rest
      | rest => stopAt .noColon rest
    | text => stopAt .noName text

end

/-- Read a whole text, with blanks around its value. -/
def readAll (rules : JsonRules) (text : List Char) : Except JsonStop Json := do
  let (value, rest) ← readValue rules (2 * text.length + 2) (skipJsonBlanks text)
  match skipJsonBlanks rest with
  | [] => return value
  | rest => .error (.fault .extraData rest.length)

/-- A fault with its position, line and column, which count characters; lines and columns from one. -/
def JsonError.ofPosition (fault : JsonFault) (text : List Char) (position : Nat) : JsonError :=
  let before := text.take position
  let sinceLine := before.reverse.takeWhile (· ≠ '\n')
  .malformed fault position (before.count '\n' + 1) (sinceLine.length + 1)

/-- Read JSON from a text. -/
def Json.read (rules : JsonRules) (text : List Char) : Except JsonError Json :=
  if text.head? = some '\ufeff' then .error (.ofPosition .byteOrderMark text 0)
  else
    match readAll rules text with
    | .ok value => .ok value
    | .error .loneHalf => .error .loneHalf
    | .error (.longNumber digits) => .error (.longNumber digits)
    | .error (.fault fault left) => .error (.ofPosition fault text (text.length - left))

/-- What is read from a text: the JSON, and whether characters stand in for lone halves of surrogate pairs in
it. -/
structure Reading where
  data : Json
  halved : Bool

/-- Read JSON from a text that may have lone halves of surrogate pairs. One that has such halves and the
characters that stand in for them is not read. -/
def Reading.ofText (most : Option Nat) (text : List Char) : Except JsonError Reading :=
  match Json.read { most } text with
  | .error .loneHalf => (⟨·, true⟩) <$> Json.read { most, standIns := true } text
  | .error error => .error error
  | .ok data => .ok ⟨data, false⟩

end BlockCompiler
