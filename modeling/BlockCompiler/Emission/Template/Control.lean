import BlockCompiler.Emission.Template.Basic

/-!
The templates of variables, branches, loops and procedures.
-/

namespace BlockCompiler

namespace Template

def readVariable : Template := fun site => do
  expression (← site.getVariable) .atomic

def setVariable : Template := fun site => do
  let value ← site.value "VALUE" .assignment "0"
  let target ← site.getVariable
  statement s!"{target} = {value};\n"

/-- The numbers of the arms of a branch: the first is always there, and the others as far as they follow
on each other. -/
def armsOf (site : Site) : List Nat :=
  let more := (List.range site.sockets.length).map (· + 1)
  0 :: more.takeWhile fun i => (site.socket? s!"IF{i}").isSome

/-- The code of one arm. -/
def arm (site : Site) (i : Nat) : Emission String := do
  let condition ← site.value s!"IF{i}" .none "false"
  let body ← site.statements s!"DO{i}"
  return braced s!"if ({condition})" body

def branch : Template := fun site => do
  let arms ← (armsOf site).mapM (arm site)
  let otherwise ←
    if (site.socket? "ELSE").isSome then
      let body ← site.statements "ELSE"
      pure [braced "" body]
    else pure []
  statement (joinTexts " else " arms ++ String.join (otherwise.map (" else" ++ ·)) ++ "\n")

/-- The counting loop that runs its body as often as a count says. -/
def countingLoop (counter count body : String) : String :=
  braced s!"for (int {counter} = 0; {counter} < {count}; {counter}++)" body ++ "\n"

def repeatTimes : Template := fun site => do
  let times ← site.value "TIMES" .assignment "0"
  let body ← site.statements "DO"
  let counter ← Emission.distinctName "count" .variable
  if isWord times || isNumeral times then statement (countingLoop counter times body)
  else
    let bound ← Emission.distinctName "repeat_end" .variable
    statement (s!"int {bound} = {times};\n" ++ countingLoop counter bound body)

def whileUntil : Template := fun site => do
  let isUntil := (site.field "MODE").isText "UNTIL"
  let test ← site.value "BOOL" (if isUntil then .unaryPrefix else .none) "false"
  let test := if isUntil then "!" ++ test else test
  let body ← site.statements "DO"
  statement (braced s!"while ({test})" body ++ "\n")

/-- The identifiers of the parameters of a procedure. -/
def parameterNames (site : Site) : Emission (List String) := do
  let params ← Emission.ofCount (parameters site.head.mutation)
  params.mapM fun param => do Emission.getName (← Emission.textOf param) .variable

/-- The definition of a procedure stands under a key with its identifier, instead of an earlier one that is
there. -/
def defineProcedure : Template := fun site => do
  let name ← Emission.getName (← Emission.textOf (site.field "NAME")) .procedure
  let params ← parameterNames site
  let body ← site.statements "STACK"
  let params := joinTexts ", " params
  let code ← site.finish (braced s!"void {name}({params})" body)
  Emission.define ("%" ++ name) code
  return none

def callProcedure : Template := fun site => do
  let name ← Emission.getName (← Emission.textOf (site.field "NAME")) .procedure
  let params ← Emission.ofCount (parameters site.head.mutation)
  let arguments ← site.values "ARG" params.length .none "0"
  let arguments := joinTexts ", " arguments
  statement s!"{name}({arguments});\n"

end Template

end BlockCompiler
