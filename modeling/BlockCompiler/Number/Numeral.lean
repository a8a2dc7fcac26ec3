import BlockCompiler.Number.Binary64
import BlockCompiler.Text.Shown
import BlockCompiler.Unicode.Blank
import BlockCompiler.Unicode.Digit

/-!
Numerals: reading whole numbers and decimals from text, and writing whole numbers. Digits may come from
any script, single underscores may stand between digits, and blanks may surround the numeral. A whole
number of more than 4300 digits is neither read nor written.
-/

namespace BlockCompiler

/-- A whole number or a binary64 number. -/
inductive Number where
  | int (value : Int)
  | float (value : Binary64)
  deriving DecidableEq, Repr

/-- Why a text is not read as a number, or a number is not written. -/
inductive NumeralError where
  | notWhole (text : String)
  | notDecimal (text : String)
  | tooLongToRead (count : Nat)
  | tooLongToWrite
  deriving DecidableEq, Repr

/-- The most digits that a whole number may have when read or written. -/
def digitLimit : Nat := 4300

/-- What a numeral error says. The text of a failed whole number is cut off after 200 characters. -/
def NumeralError.message : NumeralError → String
  | .notWhole text =>
    "invalid literal for int() with base 10: " ++ String.ofList ((shownText text).toList.take 200)
  | .notDecimal text => "could not convert string to float: " ++ shownText text
  | .tooLongToRead count =>
    s!"Exceeds the limit ({digitLimit} digits) for integer string conversion: value has {count} digits; " ++
      "use sys.set_int_max_str_digits() to increase the limit"
  | .tooLongToWrite =>
    s!"Exceeds the limit ({digitLimit} digits) for integer string conversion; " ++
      "use sys.set_int_max_str_digits() to increase the limit"

/-- Blanks around a numeral: plain ones and those beyond ASCII, but not the four separators. -/
def isNumeralBlank (c : Char) : Bool := isPlainBlank c || (127 < c.toNat && isBlank c)

/-- A text without what satisfies a test at its two ends. -/
def trimEnds (out : Char → Bool) (text : List Char) : List Char :=
  ((text.dropWhile out).reverse.dropWhile out).reverse

/-- The value of a row of digits. -/
def ofDigits (digits : List Nat) : Nat := digits.foldl (fun n d => 10 * n + d) 0

/-- Split a sign off: whether it is a minus, and the rest. -/
def takeSign : List Char → Bool × List Char
  | '-' :: rest => (true, rest)
  | '+' :: rest => (false, rest)
  | rest => (false, rest)

/-- The digits at the head of a text, with single underscores between them, and the rest. -/
def takeDigits : List Char → List Nat × List Char
  | [] => ([], [])
  | '_' :: rest => ([], '_' :: rest)
  | [c] =>
    match digitValue? c with
    | some d => ([d], [])
    | none => ([], [c])
  | c :: '_' :: next :: rest =>
    match digitValue? c with
    | some d =>
      if isDigit next then
        let (ds, rest) := takeDigits (next :: rest)
        (d :: ds, rest)
      else ([d], '_' :: next :: rest)
    | none => ([], c :: '_' :: next :: rest)
  | c :: rest =>
    match digitValue? c with
    | some d =>
      let (ds, rest) := takeDigits rest
      (d :: ds, rest)
    | none => ([], c :: rest)

/-- Read a whole number. -/
def readWhole (text : String) : Except NumeralError Int := do
  let (negative, body) := takeSign (trimEnds isNumeralBlank text.toList)
  let (digits, rest) := takeDigits body
  if digits.isEmpty || rest.head? == some '_' then throw (.notWhole text)
  if digitLimit < digits.length then throw (.tooLongToRead digits.length)
  unless rest.isEmpty do throw (.notWhole text)
  return Binary64.signed negative (ofDigits digits)

/-- Read the exponent of a decimal, which must end the text; a missing one is zero. -/
def readExponent? : List Char → Option Int
  | [] => some 0
  | mark :: rest =>
    if mark == 'e' || mark == 'E' then
      let (negative, body) := takeSign rest
      match takeDigits body with
      | ([], _) => none
      | (digits, []) => some (Binary64.signed negative (ofDigits digits))
      | _ => none
    else none

/-- Read an unsigned decimal: digits with a point somewhere, then an exponent. -/
def readMagnitude? (negative : Bool) (body : List Char) : Option Binary64 :=
  let (whole, rest) := takeDigits body
  let (fraction, rest) :=
    match rest with
    | '.' :: rest => takeDigits rest
    | rest => ([], rest)
  if whole.isEmpty && fraction.isEmpty then none
  else
    (readExponent? rest).map fun power =>
      .ofDecimal negative (ofDigits (whole ++ fraction)) (power - fraction.length)

/-- Read a decimal, an infinity or the word for not a number. -/
def readDecimal (text : String) : Except NumeralError Binary64 :=
  let (negative, body) := takeSign (trimEnds isNumeralBlank text.toList)
  let word := String.ofList (body.map Char.toLower)
  if word = "inf" ∨ word = "infinity" then .ok (.infinite negative)
  else if word = "nan" then .ok .nan
  else
    match readMagnitude? negative body with
    | some value => .ok value
    | none => .error (.notDecimal text)

/-- Write a whole number. -/
def writeWhole (value : Int) : Except NumeralError String :=
  if tenTo digitLimit ≤ value.natAbs then .error .tooLongToWrite else .ok (toString value)

namespace Number

/-- Whether a number is a NaN. -/
def isNan : Number → Bool
  | .float .nan => true
  | _ => false

/-- Whether a number is zero. -/
def isZero : Number → Bool
  | .int i => i == 0
  | .float x => x.isZero

/-- A finite number as a quotient with a positive denominator. -/
def quotient? : Number → Option (Int × Nat)
  | .int i => some (i, 1)
  | .float (.finite negative mantissa exponent) =>
    some (Binary64.signed negative (Binary64.numerator mantissa exponent), Binary64.denominator exponent)
  | .float _ => none

/-- How a number stands to zero from far off: minus one and one for the infinities, zero for all else. -/
def side : Number → Int
  | .float (.infinite negative) => if negative then -1 else 1
  | _ => 0

/-- Whether one number is less than another. Nothing is less or more than a NaN. -/
def lt (a b : Number) : Bool :=
  if a.isNan || b.isNan then false
  else
    match a.quotient?, b.quotient? with
    | some (p, q), some (r, s) => p * s < r * q
    | _, _ => a.side < b.side

/-- Whether two numbers take the same place in an order; all NaNs do. -/
def same (a b : Number) : Bool :=
  if a.isNan || b.isNan then a.isNan && b.isNan else !a.lt b && !b.lt a

end Number

end BlockCompiler
