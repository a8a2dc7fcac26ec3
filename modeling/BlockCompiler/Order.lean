/-!
Operator precedence of generated expressions, and where an expression needs parentheses.
-/

namespace BlockCompiler

/-- How tightly the outermost operator of an expression binds, from the tightest to the loosest.
The last one is the order of a place that takes any expression, such as an argument. -/
inductive Order where
  | atomic
  | unaryPostfix
  | unaryPrefix
  | multiplicative
  | additive
  | shift
  | bitwiseAnd
  | bitwiseXor
  | bitwiseOr
  | relational
  | equality
  | logicalAnd
  | logicalOr
  | ifNull
  | conditional
  | cascade
  | assignment
  | none
  deriving DecidableEq, Repr

namespace Order

/-- All orders, from the tightest to the loosest. -/
def all : List Order :=
  [.atomic, .unaryPostfix, .unaryPrefix, .multiplicative, .additive, .shift, .bitwiseAnd, .bitwiseXor,
    .bitwiseOr, .relational, .equality, .logicalAnd, .logicalOr, .ifNull, .conditional, .cascade,
    .assignment, .none]

/-- The rank of an order; lower ranks bind tighter. -/
def rank : Order → Nat
  | .atomic => 0
  | .unaryPostfix => 1
  | .unaryPrefix => 2
  | .multiplicative => 3
  | .additive => 4
  | .shift => 5
  | .bitwiseAnd => 6
  | .bitwiseXor => 7
  | .bitwiseOr => 8
  | .relational => 9
  | .equality => 10
  | .logicalAnd => 11
  | .logicalOr => 12
  | .ifNull => 13
  | .conditional => 14
  | .cascade => 15
  | .assignment => 16
  | .none => 99

/-- The name of an order. -/
def name : Order → String
  | .atomic => "ATOMIC"
  | .unaryPostfix => "UNARY_POSTFIX"
  | .unaryPrefix => "UNARY_PREFIX"
  | .multiplicative => "MULTIPLICATIVE"
  | .additive => "ADDITIVE"
  | .shift => "SHIFT"
  | .bitwiseAnd => "BITWISE_AND"
  | .bitwiseXor => "BITWISE_XOR"
  | .bitwiseOr => "BITWISE_OR"
  | .relational => "RELATIONAL"
  | .equality => "EQUALITY"
  | .logicalAnd => "LOGICAL_AND"
  | .logicalOr => "LOGICAL_OR"
  | .ifNull => "IF_NULL"
  | .conditional => "CONDITIONAL"
  | .cascade => "CASCADE"
  | .assignment => "ASSIGNMENT"
  | .none => "NONE"

/-- The order with a name. -/
def ofName? (name : String) : Option Order := all.find? (·.name = name)

instance : LT Order := ⟨fun a b => a.rank < b.rank⟩

instance : LE Order := ⟨fun a b => a.rank ≤ b.rank⟩

instance (a b : Order) : Decidable (a < b) := inferInstanceAs (Decidable (a.rank < b.rank))

instance (a b : Order) : Decidable (a ≤ b) := inferInstanceAs (Decidable (a.rank ≤ b.rank))

theorem mem_all (a : Order) : a ∈ all := by cases a <;> decide

theorem rank_injective {a b : Order} (same : a.rank = b.rank) : a = b := by
  cases a <;> cases b <;> simp_all [rank]

/-- Whether an operand of equal order may stand without parentheses: calls and subscripts chain, and the
logical operators are associative. -/
def chains (order : Order) : Bool :=
  order = .atomic || order = .none || order = .unaryPostfix || order = .logicalAnd || order = .logicalOr

/-- Whether an expression of the inner order needs parentheses where the outer order is asked for: when
it binds no tighter, unless both orders are the same and chain. -/
def needsParens (outer inner : Order) : Bool :=
  outer ≤ inner && !(outer = inner && outer.chains)

end Order

end BlockCompiler
