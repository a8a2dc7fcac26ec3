import BlockCompiler.Emission.Pass
import BlockCompiler.Order
import BlockCompiler.Stack
import BlockCompiler.Text.Form
import BlockCompiler.Text.Wrap

/-!
Sites: the places where templates do their work. A site shows a template its block, and gives it the
code of what is plugged into the block, with parentheses, indentation and comments where they belong.
-/

namespace BlockCompiler

/-- The code of a block: an expression with the order of its outermost operator, or statements. -/
inductive Output where
  | value (code : String) (order : Order)
  | statements (code : String)
  deriving DecidableEq, Repr

/-- The code of an output. -/
def Output.code : Output → String
  | .value code _ => code
  | .statements code => code

/-- A row of a block at its site: the type of the block plugged in, the comments of all blocks plugged
in there, and how to generate their code. -/
structure Socket where
  kind : RowKind
  name : String
  type? : Option String
  comments : List String
  code : Emission Output

/-- The site of a block: the block, its rows, and the code of the blocks below it. -/
structure Site where
  head : BlockHead
  sockets : List Socket
  below : Emission Output

/-- The columns that a comment may fill. -/
def commentColumns : Nat := 60

/-- What stands before the lines of a nested statement. -/
def indent : String := "  "

/-- The comments of all blocks in a stack, in order. -/
def Stack.comments (stack : Stack BlockHead RowHead) : List String :=
  stack.heads.filterMap (·.comment)

/-- Comments one below the other, each ended by a line feed. -/
def nestedComments (comments : List String) : String :=
  if comments.isEmpty then "" else joinTexts "\n" (comments ++ [""])

/-- A code in parentheses. -/
def parenthesized (code : String) : String := "(" ++ code ++ ")"

namespace Site

/-- The row with a name. -/
def socket? (site : Site) (name : String) : Option Socket := site.sockets.find? (·.name = name)

/-- The value of a field. -/
def field (site : Site) (name : String) : Json := site.head.field name

/-- The code of the expression in a socket, in parentheses if it binds no tighter than the order asks
for. An empty socket, and one whose block gives no code, has the default. -/
def value (site : Site) (name : String) (order : Order) (default : String) : Emission String := do
  match site.socket? name with
  | some { type? := some type, code, .. } =>
    match ← code with
    | .statements "" => return default
    | .statements _ => throw (.notAValue type)
    | .value "" _ => return default
    | .value code inner => return if order.needsParens inner then parenthesized code else code
  | _ => return default

/-- The code of the expression in a socket, for an order that is given by its name. -/
def valueAt (site : Site) (name : String) (order : Json) (default : String) : Emission String :=
  match order.asText?.bind Order.ofName? with
  | some order => site.value name order default
  | none => throw (.notAnOrder name site.head.type order)

/-- The indented code of the stack in a statement row. -/
def statements (site : Site) (name : String) : Emission String := do
  match site.socket? name with
  | some socket =>
    let code := (← socket.code).code
    return if code = "" then "" else leadLines indent code
  | none => return ""

/-- An index shifted by a distance and perhaps negated, as an expression, in parentheses unless the
order asked for is looser than the adjustment. The amount is what is written of the distance. -/
def shifted (index : String) (distance : Int) (amount : String) (negate : Bool) (order : Order) : String :=
  let moved :=
    if 0 < distance then index ++ " + " ++ amount
    else if distance < 0 then index ++ " - " ++ amount
    else index
  let turned := if negate then "-" ++ (if distance ≠ 0 then parenthesized moved else moved) else moved
  let inner : Option Order :=
    if negate then some .unaryPrefix else if distance ≠ 0 then some .additive else none
  if inner.any fun inner => order ≤ inner then parenthesized turned else turned

/-- The whole number that a numeral denotes, without its fraction. -/
def wholeOf (numeral : String) : Emission Int := do
  if isWholeNumeral numeral then Emission.ofNumeral (readWhole numeral)
  else Emission.ofCount (Json.number (.float (← Emission.ofNumeral (readDecimal numeral)))).toWhole

/-- The index in a socket, shifted by a distance and perhaps negated. Where the program counts from one,
all indices move down by one. Numerals are adjusted now, anything else in the code. -/
def adjusted (site : Site) (name : String) (delta : Int) (negate : Bool) (order : Order) :
    Emission String := do
  let oneBased := (← get).oneBased
  let distance := if oneBased then delta - 1 else delta
  let asked := if distance ≠ 0 then .additive else if negate then .unaryPrefix else order
  let index ← site.value name asked (if oneBased then "1" else "0")
  if isNumeral index then
    let moved := (← wholeOf index) + distance
    Emission.ofNumeral (writeWhole (if negate then -moved else moved))
  else
    let amount ← Emission.ofNumeral (writeWhole distance.natAbs)
    return shifted index distance amount negate order

/-- The comment of the block itself, wrapped. -/
def ownComment (site : Site) : String :=
  match site.head.comment with
  | none => ""
  | some comment =>
    let lead := if isProcedureDefinition site.head.type then "/// " else "// "
    leadLines lead (wrap (commentColumns - 3) comment ++ "\n")

/-- The comments of the blocks in a row, if it is a socket of values. -/
def liftedComments (socket : Socket) : String :=
  if socket.kind = .value then
    match nestedComments socket.comments with
    | "" => ""
    | comments => leadLines "// " comments
  else ""

/-- The comments above the code of the block. Values inside others leave theirs to the statement around
them. -/
def comments (site : Site) : String :=
  if site.head.inline then "" else site.ownComment ++ String.join (site.sockets.map liftedComments)

/-- The code of the block with its comments above and the code of the stack below it. -/
def finish (site : Site) (code : String) : Emission String := do
  return site.comments ++ code ++ (← site.below).code

end Site

end BlockCompiler
