/-!
The kinds of blocks that the compiler knows.
-/

namespace BlockCompiler

/-- A known kind of block. -/
inductive BlockKind where
  | number
  | arithmetic
  | single
  | change
  | randomInt
  | boolean
  | compare
  | operation
  | negate
  | ternary
  | text
  | join
  | print
  | readVariable
  | setVariable
  | branch
  | repeatTimes
  | whileUntil
  | createList
  | getIndex
  | defineProcedure
  | callProcedure
  deriving DecidableEq, Repr

namespace BlockKind

/-- All kinds, in the order in which they are listed. -/
def all : List BlockKind :=
  [.number, .arithmetic, .single, .change, .randomInt, .boolean, .compare, .operation, .negate, .ternary,
    .text, .join, .print, .readVariable, .setVariable, .branch, .repeatTimes, .whileUntil, .createList,
    .getIndex, .defineProcedure, .callProcedure]

/-- The name by which programs call a kind. -/
def name : BlockKind → String
  | .number => "math_number"
  | .arithmetic => "math_arithmetic"
  | .single => "math_single"
  | .change => "math_change"
  | .randomInt => "math_random_int"
  | .boolean => "logic_boolean"
  | .compare => "logic_compare"
  | .operation => "logic_operation"
  | .negate => "logic_negate"
  | .ternary => "logic_ternary"
  | .text => "text"
  | .join => "text_join"
  | .print => "text_print"
  | .readVariable => "variables_get"
  | .setVariable => "variables_set"
  | .branch => "controls_if"
  | .repeatTimes => "controls_repeat_ext"
  | .whileUntil => "controls_whileUntil"
  | .createList => "lists_create_with"
  | .getIndex => "lists_getIndex"
  | .defineProcedure => "procedures_defnoreturn"
  | .callProcedure => "procedures_callnoreturn"

/-- The kind with a name. -/
def ofName? (name : String) : Option BlockKind := all.find? (·.name = name)

theorem mem_all (kind : BlockKind) : kind ∈ all := by cases kind <;> decide

theorem ofName?_name (kind : BlockKind) : ofName? kind.name = some kind := by cases kind <;> decide

theorem name_of_ofName? {text : String} {kind : BlockKind} (known : ofName? text = some kind) :
    kind.name = text := by
  simpa using List.find?_some known

end BlockKind

/-- Whether a block type is known. -/
def isKnownType (type : String) : Bool := (BlockKind.ofName? type).isSome

/-- Whether a block type defines a procedure, going by how its name starts. -/
def isProcedureDefinition (type : String) : Bool := "procedures_def".toList.isPrefixOf type.toList

end BlockCompiler
