import BlockCompiler.Block.Connection
import BlockCompiler.Block.Kind
import BlockCompiler.Json.Basic

/-!
Shapes: the sockets, fields and choices that the blocks of a kind have.
-/

namespace BlockCompiler

/-- How the blocks of a kind plug into others: as values, as statements in a stack, or not at all. -/
inductive Plug where
  | value (check : TypeCheck)
  | statement
  | loose
  deriving DecidableEq, Repr

/-- What rows a block has for each item of its mutation. -/
inductive RowFamily where
  | items
  | arms
  | arguments
  deriving DecidableEq, Repr

/-- The shape of a kind. -/
structure Shape where
  plug : Plug
  rows : List (String × RowKind × TypeCheck) := []
  fields : Table Json := []
  /-- A field that takes only some words, with these words. -/
  choices : Option (String × List String) := none
  family : Option RowFamily := none

/-- The check of number sockets. -/
def numberCheck : TypeCheck := some ["Number"]

/-- The check of truth value sockets. -/
def booleanCheck : TypeCheck := some ["Boolean"]

/-- The check of text plugs. -/
def textCheck : TypeCheck := some ["String"]

/-- The check of list sockets. -/
def listCheck : TypeCheck := some ["Array"]

/-- The shape of each kind. -/
def BlockKind.shape : BlockKind → Shape
  | .number => { plug := .value numberCheck, fields := [("NUM", .int 0)] }
  | .arithmetic =>
    { plug := .value numberCheck
      rows := [("A", .value, numberCheck), ("B", .value, numberCheck)]
      fields := [("OP", .text "ADD")]
      choices := some ("OP", ["ADD", "MINUS", "MULTIPLY", "DIVIDE", "POWER"]) }
  | .single =>
    { plug := .value numberCheck
      rows := [("NUM", .value, numberCheck)]
      fields := [("OP", .text "NEG")]
      choices := some ("OP", ["NEG", "ABS", "ROOT", "LN", "EXP", "LOG10"]) }
  | .change =>
    { plug := .statement, rows := [("DELTA", .value, numberCheck)], fields := [("VAR", .text "item")] }
  | .randomInt =>
    { plug := .value numberCheck, rows := [("FROM", .value, numberCheck), ("TO", .value, numberCheck)] }
  | .boolean =>
    { plug := .value booleanCheck
      fields := [("BOOL", .text "TRUE")]
      choices := some ("BOOL", ["TRUE", "FALSE"]) }
  | .compare =>
    { plug := .value booleanCheck
      rows := [("A", .value, none), ("B", .value, none)]
      fields := [("OP", .text "EQ")]
      choices := some ("OP", ["EQ", "NEQ", "LT", "LTE", "GT", "GTE"]) }
  | .operation =>
    { plug := .value booleanCheck
      rows := [("A", .value, booleanCheck), ("B", .value, booleanCheck)]
      fields := [("OP", .text "AND")]
      choices := some ("OP", ["AND", "OR"]) }
  | .negate => { plug := .value booleanCheck, rows := [("BOOL", .value, booleanCheck)] }
  | .ternary =>
    { plug := .value none
      rows := [("IF", .value, booleanCheck), ("THEN", .value, none), ("ELSE", .value, none)] }
  | .text => { plug := .value textCheck, fields := [("TEXT", .text "")] }
  | .join => { plug := .value textCheck, family := some .items }
  | .print => { plug := .statement, rows := [("TEXT", .value, none)] }
  | .readVariable => { plug := .value none, fields := [("VAR", .text "item")] }
  | .setVariable =>
    { plug := .statement, rows := [("VALUE", .value, none)], fields := [("VAR", .text "item")] }
  | .branch => { plug := .statement, family := some .arms }
  | .repeatTimes =>
    { plug := .statement, rows := [("TIMES", .value, numberCheck), ("DO", .statement, none)] }
  | .whileUntil =>
    { plug := .statement
      rows := [("BOOL", .value, booleanCheck), ("DO", .statement, none)]
      fields := [("MODE", .text "WHILE")]
      choices := some ("MODE", ["WHILE", "UNTIL"]) }
  | .createList => { plug := .value listCheck, family := some .items }
  | .getIndex =>
    { plug := .value none
      rows := [("VALUE", .value, listCheck), ("AT", .value, numberCheck)]
      fields := [("WHERE", .text "FROM_START")]
      choices := some ("WHERE", ["FIRST", "LAST", "FROM_START", "FROM_END"]) }
  | .defineProcedure =>
    { plug := .loose, rows := [("STACK", .statement, none)], fields := [("NAME", .text "do_something")] }
  | .callProcedure =>
    { plug := .statement, fields := [("NAME", .text "do_something")], family := some .arguments }

/-- Whether blocks of a shape are values. -/
def Shape.isValue (shape : Shape) : Bool :=
  match shape.plug with
  | .value _ => true
  | _ => false

/-- Whether a type is known and its blocks are values. -/
def isValueType (type : String) : Bool := (BlockKind.ofName? type).any (·.shape.isValue)

/-- Why a mutation tells no number of rows. -/
inductive CountError where
  | numeral (error : NumeralError)
  | notANumber
  | infinite
  | notCountable

/-- What a count error says. -/
def CountError.message : CountError → String
  | .numeral error => error.message
  | .notANumber => "cannot convert float NaN to integer"
  | .infinite => "cannot convert float infinity to integer"
  | .notCountable => "the value has no parts to count"

/-- A value read as a whole number: decimals lose their fraction, and texts are read as numerals. -/
def Json.toWhole : Json → Except CountError Int
  | .bool value => .ok (if value then 1 else 0)
  | .number (.int value) => .ok value
  | .number (.float value) =>
    match value.truncate? with
    | some whole => .ok whole
    | none => .error (if value = .nan then .notANumber else .infinite)
  | .text value =>
    match readWhole value with
    | .ok whole => .ok whole
    | .error error => .error (.numeral error)
  | _ => .error .notCountable

/-- The parts of a value that consists of parts: the items of a list, the characters of a text, the keys
of an object. -/
def Json.parts : Json → Except CountError (List Json)
  | .list items => .ok items
  | .text value => .ok (value.toList.map fun c => .text (String.singleton c))
  | .object members => .ok (members.map fun member => .text member.1)
  | _ => .error .notCountable

/-- The count of items that a mutation tells. -/
def itemCount (mutation : Table Json) : Except CountError Int :=
  ((mutation.get? "items").getD (.int 0)).toWhole

/-- The parameters that a mutation tells. -/
def parameters (mutation : Table Json) : Except CountError (List Json) :=
  ((mutation.get? "params").getD (.list [])).parts

/-- A row to be added to a block: its name, kind and check. -/
abbrev RowSpec := String × RowKind × TypeCheck

/-- The rows of one arm of a branch: its condition and its body. -/
def armRows (arm : Nat) : List RowSpec :=
  [(s!"IF{arm}", .value, booleanCheck), (s!"DO{arm}", .statement, none)]

/-- The rows that a family adds to a block with a mutation, up to what stops it from adding more. -/
def RowFamily.rows (family : RowFamily) (mutation : Table Json) : List RowSpec × Option CountError :=
  match family with
  | .items =>
    match itemCount mutation with
    | .ok count => ((List.range count.toNat).map fun i => (s!"ADD{i}", .value, none), none)
    | .error error => ([], some error)
  | .arguments =>
    match parameters mutation with
    | .ok params => ((List.range params.length).map fun i => (s!"ARG{i}", .value, none), none)
    | .error error => ([], some error)
  | .arms =>
    match ((mutation.get? "elseif").getD (.int 0)).toWhole with
    | .ok count =>
      let arms := (List.range (count.toNat + 1)).flatMap armRows
      let closed := ((mutation.get? "else").getD .null).isVoid
      (if closed then arms else arms ++ [("ELSE", .statement, none)], none)
    | .error error => (armRows 0, some error)

end BlockCompiler
