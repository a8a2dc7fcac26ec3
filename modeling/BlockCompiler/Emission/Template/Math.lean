import BlockCompiler.Emission.Template.Basic

/-!
The templates of numbers and arithmetic.
-/

namespace BlockCompiler

/-- The number that a field holds. Whole numbers stay exact. -/
def numberOf : Json → Except NumeralError Number
  | .bool value => .ok (.int (if value then 1 else 0))
  | .number value => .ok value
  | raw =>
    let text := String.ofList (trimEnds isBlank (raw.asText?.getD raw.shown).toList)
    match readWhole text with
    | .ok whole => .ok (.int whole)
    | .error _ => .float <$> readDecimal text

/-- The literal of a whole number. -/
def wholeLiteral (value : Int) : Emission (Option Output) := do
  expression (← Emission.ofNumeral (writeWhole value)) (if 0 ≤ value then .atomic else .unaryPrefix)

/-- The literal of a number. -/
def numberLiteral : Number → Emission (Option Output)
  | .int value => wholeLiteral value
  | .float (.infinite negative) => do
    Emission.includeHeader "cmath"
    if negative then expression "-INFINITY" .unaryPrefix else expression "INFINITY" .atomic
  | .float value =>
    match if value.isWhole then value.truncate? else none with
    | some whole => wholeLiteral whole
    | none => expression value.text (if value.isNonNegative then .atomic else .unaryPrefix)

namespace Template

def number : Template := fun site => do
  let raw := site.field "NUM"
  numberLiteral (← Emission.ofNumeral (numberOf (if raw.isVoid then .int 0 else raw)))

/-- The operators of arithmetic, with blanks around them. -/
def arithmeticOperators : List (String × String × Order) :=
  [("ADD", " + ", .additive), ("MINUS", " - ", .additive), ("MULTIPLY", " * ", .multiplicative),
    ("DIVIDE", " / ", .multiplicative)]

def arithmetic : Template := fun site => do
  if (site.field "OP").isText "POWER" then
    Emission.includeHeader "cmath"
    let a ← site.value "A" .none "0"
    let b ← site.value "B" .none "0"
    expression s!"pow({a}, {b})" .unaryPostfix
  else
    let (operator, order) ← Emission.choose arithmeticOperators (site.field "OP")
    let a ← site.value "A" order "0"
    let b ← site.value "B" order "0"
    expression (a ++ operator ++ b) order

/-- The functions of one number. -/
def singleFunctions : List (String × String) :=
  [("ABS", "fabs"), ("ROOT", "sqrt"), ("LN", "log"), ("EXP", "exp"), ("LOG10", "log10")]

/-- A minus before an operand. One more minus is kept apart, for two would make a decrement. -/
def negated (operand : String) : String :=
  if operand.toList.head? = some '-' then "- " ++ operand else "-" ++ operand

def single : Template := fun site => do
  if (site.field "OP").isText "NEG" then
    expression (negated (← site.value "NUM" .unaryPrefix "0")) .unaryPrefix
  else
    Emission.includeHeader "cmath"
    let operand ← site.value "NUM" .none "0"
    let function ← Emission.choose singleFunctions (site.field "OP")
    expression s!"{function}({operand})" .unaryPostfix

def change : Template := fun site => do
  let delta ← site.value "DELTA" .assignment "0"
  let target ← site.getVariable
  statement s!"{target} += {delta};\n"

/-- The helper function that gives a random whole number between two others. -/
def randomIntSource : List String :=
  ["int " ++ functionPlaceholder ++ "(int a, int b) \x7b",
    "  if (a > b) \x7b",
    "    // Swap a and b to ensure a is smaller.",
    "    int c = a;",
    "    a = b;",
    "    b = c;",
    "  \x7d",
    "  return a + std::rand() % (b - a + 1);",
    "\x7d"]

def randomInt : Template := fun site => do
  Emission.includeHeader "cstdlib"
  let low ← site.value "FROM" .none "0"
  let high ← site.value "TO" .none "0"
  let function ← Emission.provideFunction "math_random_int" randomIntSource
  expression s!"{function}({low}, {high})" .unaryPostfix

end Template

end BlockCompiler
