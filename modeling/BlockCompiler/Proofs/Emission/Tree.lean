import BlockCompiler.Proofs.Emission.Ready
import BlockCompiler.Proofs.Emission.Sound
import BlockCompiler.Proofs.Number.Layout
import BlockCompiler.Proofs.Syntax.Expr

/-!
The expressions that trees of value blocks stand for. An empty socket stands for what its block takes in its
place, and so does one with a disabled block.
-/

namespace BlockCompiler

namespace Expr

/-- An expression, perhaps with a minus before it. -/
def signed (minus : Bool) (e : Expr) : Expr := if minus then .negative e else e

/-- The literal of a whole number. -/
def ofInt (value : Int) : Expr := signed (value < 0) (.numeral (toString value.natAbs))

/-- The whole part of a literal number that is written without an exponent. -/
def whole? (e : Expr) : Option Int :=
  e.literal?.bind fun (minus, text) =>
    if isNumeral (signText minus ++ text) then wholePart? (signText minus ++ text) else none

/-- An index that the code moves by a distance. -/
def adjusted (index : Expr) (distance : Int) : Expr :=
  if 0 < distance then .binary .add index (.numeral (toString distance.natAbs))
  else if distance < 0 then .binary .subtract index (.numeral (toString distance.natAbs))
  else index

/-- An index moved by a distance: a literal is moved at once, and anything else in the code. -/
def moved (index : Expr) (distance : Int) : Expr :=
  match index.whole? with
  | some whole => ofInt (whole + distance)
  | none => index.adjusted distance

/-- The sum of some expressions, added from the left; without any, it is an empty text. -/
def sum : List Expr → Expr
  | [] => .quoted ""
  | first :: rest => rest.foldl (.binary .add) first

end Expr

/-- The literal of a binary64 number. -/
def Binary64.literal : Binary64 → Expr
  | .nan => .word "nan"
  | .infinite negative => .signed negative (.word "INFINITY")
  | .finite negative mantissa exponent => .signed negative (.numeral (finite false mantissa exponent).text)

/-- The literal of a number. A whole number has the same literal however it is kept. -/
def Number.literal : Number → Expr
  | .int value => .ofInt value
  | .float value =>
    match if value.isWhole then value.truncate? else none with
    | some whole => .ofInt whole
    | none => value.literal

/-- The operators by the words that fields hold for them. -/
def BinaryOp.words : List (String × BinaryOp) :=
  [("ADD", .add), ("MINUS", .subtract), ("MULTIPLY", .multiply), ("DIVIDE", .divide), ("EQ", .equal),
    ("NEQ", .unequal), ("LT", .less), ("LTE", .atMost), ("GT", .greater), ("GTE", .atLeast), ("AND", .and),
    ("OR", .or)]

/-- The operator that a field names. -/
def BinaryOp.ofField (field : Json) : BinaryOp :=
  (field.asText?.bind fun word => List.lookup word words).getD .add

/-- The word of a field. -/
def Json.word (field : Json) : String := field.asText?.getD ""

/-- The identifier that a pass has for a variable. -/
def Pass.variable (pass : Pass) (name : String) : String :=
  (pass.names.assigned.get? (nameKey name .variable)).getD ""

/-- The operands in the rows of a family, in order. -/
def familyOf (operand : String → Option Expr) (stem : String) (count : Nat) (default : Expr) : List Expr :=
  (List.range count).map fun i => (operand (stem ++ toString i)).getD default

namespace BlockHead

variable (pass : Pass) (operand : String → Option Expr) (head : BlockHead)

/-- The operands in the rows of the items that a block has, in order. -/
def items (default : Expr) : List Expr :=
  match itemCount head.mutation with
  | .ok count => familyOf operand "ADD" count.toNat default
  | .error _ => []

/-- The operation on two truth values: where one is missing the operator's identity stands in, and where both
are, the outcome is false. -/
def logical (op : BinaryOp) : Expr :=
  match operand "A", operand "B" with
  | none, none => .binary op (.word "false") (.word "false")
  | a, b =>
    let identity := Expr.word (if op = .and then "true" else "false")
    .binary op (a.getD identity) (b.getD identity)

/-- The index in a socket, moved by a distance. Where the program counts from one, all move down by one. -/
def indexed (distance : Int) : Expr :=
  ((operand "AT").getD (.numeral (if pass.oneBased then "1" else "0"))).moved
    (if pass.oneBased then distance - 1 else distance)

/-- The element of a list that a block takes. -/
def element : Expr :=
  let items := (operand "VALUE").getD (.list [])
  match (head.field "WHERE").word with
  | "FIRST" => .access items .front
  | "LAST" => .access items .back
  | "FROM_END" => .index items (.binary .subtract (.access items .size) (indexed pass operand 1))
  | _ => .index items (indexed pass operand 0)

/-- The expression of a block of a kind, given those in its sockets. -/
def tree (kind : BlockKind) : Expr :=
  let zero := Expr.numeral "0"
  match kind with
  | .number => (numberIn (head.field "NUM")).toOption.elim zero Number.literal
  | .arithmetic =>
    let a := (operand "A").getD zero
    let b := (operand "B").getD zero
    if (head.field "OP").isText "POWER" then .call (.word "pow") [a, b]
    else .binary (.ofField (head.field "OP")) a b
  | .single =>
    let a := (operand "NUM").getD zero
    if (head.field "OP").isText "NEG" then .negative a
    else .call (.word ((Template.singleFunctions.lookup (head.field "OP").word).getD "")) [a]
  | .randomInt =>
    .call (.word (pass.randomInt?.getD "")) [(operand "FROM").getD zero, (operand "TO").getD zero]
  | .boolean => .word (if (head.field "BOOL").isText "TRUE" then "true" else "false")
  | .compare => .binary (.ofField (head.field "OP")) ((operand "A").getD zero) ((operand "B").getD zero)
  | .operation => logical operand (.ofField (head.field "OP"))
  | .negate => .negation ((operand "BOOL").getD (.word "true"))
  | .ternary =>
    .conditional ((operand "IF").getD (.word "false")) ((operand "THEN").getD zero)
      ((operand "ELSE").getD zero)
  | .text => .quoted (head.field "TEXT").word
  | .join => .sum (items operand head (.quoted ""))
  | .readVariable => .word (pass.variable (head.field "VAR").word)
  | .createList => .list (items operand head zero)
  | .getIndex => element pass operand head
  | _ => zero

end BlockHead

mutual

/-- The expression of a tree of value blocks, under the names of a pass. A block of unknown type stands for
zero, and a disabled one for nothing. -/
def Stack.tree? (pass : Pass) : Stack BlockHead RowHead → Option Expr
  | .empty => none
  | .block head rows _ =>
    if head.disabled then none
    else
      match BlockKind.ofName? head.type with
      | some kind => some (head.tree pass (rows.operand? pass) kind)
      | none => some (.numeral "0")

/-- The expression in the row of a name. -/
def Rows.operand? (pass : Pass) : Rows BlockHead RowHead → String → Option Expr
  | .nil, _ => none
  | .cons row plugged rest, name => if row.name = name then plugged.tree? pass else rest.operand? pass name

end

/-- What is in the row of a name. -/
def Rows.at {α : Type} : Rows α RowHead → String → Stack α RowHead
  | .nil, _ => .empty
  | .cons row plugged rest, name => if row.name = name then plugged else rest.at name

theorem Rows.operand?_eq {pass : Pass} (rows : Rows BlockHead RowHead) (name : String) :
    rows.operand? pass name = (rows.at name).tree? pass := by
  match rows with
  | .nil => rfl
  | .cons row plugged rest =>
    rw [Rows.operand?, Rows.at]
    split_ifs
    · rfl
    · exact Rows.operand?_eq rest name

end BlockCompiler
