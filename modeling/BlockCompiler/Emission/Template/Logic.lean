import BlockCompiler.Emission.Template.Basic

/-!
The templates of truth values.
-/

namespace BlockCompiler

namespace Template

def boolean : Template := fun site =>
  expression (if (site.field "BOOL").isText "TRUE" then "true" else "false") .atomic

/-- The operators of comparison. -/
def comparisonOperators : List (String × String) :=
  [("EQ", "=="), ("NEQ", "!="), ("LT", "<"), ("LTE", "<="), ("GT", ">"), ("GTE", ">=")]

def compare : Template := fun site => do
  let field := site.field "OP"
  let order := if field.isText "EQ" || field.isText "NEQ" then .equality else .relational
  let a ← site.value "A" order "0"
  let b ← site.value "B" order "0"
  let operator ← Emission.choose comparisonOperators field
  expression s!"{a} {operator} {b}" order

/-- Two operands joined by a logical operator. Where one is missing the operator's identity stands in,
and where both are, the outcome is false. -/
def joined (a b operator identity : String) : String :=
  if a = "" ∧ b = "" then s!"false {operator} false"
  else
    let a := if a = "" then identity else a
    let b := if b = "" then identity else b
    s!"{a} {operator} {b}"

def operation : Template := fun site => do
  let conjunction := (site.field "OP").isText "AND"
  let order := if conjunction then .logicalAnd else .logicalOr
  let a ← site.value "A" order ""
  let b ← site.value "B" order ""
  expression (if conjunction then joined a b "&&" "true" else joined a b "||" "false") order

def negate : Template := fun site => do
  expression ("!" ++ (← site.value "BOOL" .unaryPrefix "true")) .unaryPrefix

def ternary : Template := fun site => do
  let condition ← site.value "IF" .conditional "false"
  let yes ← site.value "THEN" .conditional "0"
  let no ← site.value "ELSE" .conditional "0"
  expression s!"{condition} ? {yes} : {no}" .conditional

end Template

end BlockCompiler
