/-!
The kinds of connections by which blocks hang together.
-/

namespace BlockCompiler

/-- Where a connection stands on its block. Value inputs take outputs; next connections, among them
the openings of statement inputs, take previous connections. -/
inductive ConnectionKind where
  | inputValue
  | outputValue
  | nextStatement
  | previousStatement
  deriving DecidableEq, Repr, Inhabited

namespace ConnectionKind

/-- All kinds. -/
def all : List ConnectionKind := [.inputValue, .outputValue, .nextStatement, .previousStatement]

/-- The kind that fits to a kind. -/
def opposite : ConnectionKind → ConnectionKind
  | .inputValue => .outputValue
  | .outputValue => .inputValue
  | .nextStatement => .previousStatement
  | .previousStatement => .nextStatement

/-- The name of a kind. -/
def name : ConnectionKind → String
  | .inputValue => "INPUT_VALUE"
  | .outputValue => "OUTPUT_VALUE"
  | .nextStatement => "NEXT_STATEMENT"
  | .previousStatement => "PREVIOUS_STATEMENT"

theorem opposite_opposite (kind : ConnectionKind) : kind.opposite.opposite = kind := by
  cases kind <;> rfl

end ConnectionKind

/-- A list of the types that a connection takes; none takes all. -/
abbrev TypeCheck := Option (List String)

/-- Whether two connections may meet: one of them takes all, or they share a type. -/
def TypeCheck.meets (a b : TypeCheck) : Bool :=
  match a, b with
  | some names, some others => names.isEmpty || others.isEmpty || names.any others.contains
  | _, _ => true

/-- What a row of a block holds: the socket of a value, the opening of a stack, or no socket. -/
inductive RowKind where
  | value
  | statement
  | dummy
  deriving DecidableEq, Repr, Inhabited

/-- The name of a row kind. -/
def RowKind.name : RowKind → String
  | .value => "value"
  | .statement => "statement"
  | .dummy => "dummy"

end BlockCompiler
