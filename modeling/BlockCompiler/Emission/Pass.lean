import BlockCompiler.Block.Shape
import BlockCompiler.Name.Registry
import BlockCompiler.Table
import BlockCompiler.Text.Utf8

/-!
Passes: what is kept while the source of one workspace is generated. Names, definitions and helper
functions belong to the pass, so that passes do not see each other.
-/

namespace BlockCompiler

/-- The state of a pass. -/
structure Pass where
  names : Registry := {}
  oneBased : Bool := false
  /-- The texts to stand above the generated code, in order of their keys' first use. -/
  definitions : Table String := []
  /-- The names under which helper functions were defined, by the names that were wanted. -/
  functions : Table String := []
  /-- The types of the blocks for which a placeholder stands in, last first. -/
  placeholders : List String := []

/-- Why code is not generated. -/
inductive EmissionError where
  | noTemplate (type : String)
  | notAValue (type : String)
  | notAnOrder (input type : String) (found : Json)
  | noCode
  | refused (reason : String)
  | numeral (error : NumeralError)
  | count (error : CountError)
  | unknownWord (word : Json)
  | noWord (found : Json)
  | notAText (found : Json)
  | notAFunction (name : String)
  | unordered
  | cyclic
  /-- The name of a key has no bytes in UTF-8. -/
  | unencodable (key : String)

/-- What an emission error says. -/
def EmissionError.message : EmissionError → String
  | .noTemplate type => s!"No template registered for block type '{type}'"
  | .notAValue type => s!"Expecting (code, order) from value block '{type}', got str"
  | .notAnOrder input type found =>
    s!"Expecting an Order for input '{input}' of '{type}', got {found.shown}"
  | .noCode => "BlockTemplate does not implement to_code()"
  | .refused reason => reason
  | .numeral error => error.message
  | .count error => error.message
  | .unknownWord word => word.shown
  | .noWord found => s!"{found.shown} is no word to choose by"
  | .notAText found => s!"{found.shown} is no text"
  | .notAFunction name => shownText name
  | .unordered => "positions that are no numbers have no order"
  | .cyclic => "a block hangs below itself"
  | .unencodable key => unencodableMessage key

/-- Whether an error says that blocks and templates do not fit together. -/
def EmissionError.isRefusal : EmissionError → Bool
  | .noTemplate _ | .notAValue _ | .refused _ => true
  | _ => false

/-- A step of a pass: it may change the state, and it may fail. A failure undoes nothing. -/
abbrev Emission := ExceptT EmissionError (StateM Pass)

namespace Pass

/-- Forget all names, definitions and functions. -/
def clear (pass : Pass) : Pass :=
  { pass with definitions := [], functions := [], names := pass.names.reset }

/-- Add a definition, or replace the one of the same key. -/
def define (pass : Pass) (key code : String) : Pass :=
  { pass with definitions := pass.definitions.set key code }

end Pass

/-- Replace a text wherever it stands, from the left; `skip` characters belong to a hit. -/
def replaceFrom (old new : List Char) : (skip : Nat) → List Char → List Char
  | _, [] => []
  | skip + 1, _ :: rest => replaceFrom old new skip rest
  | 0, c :: rest =>
    if old.isPrefixOf (c :: rest) then new ++ replaceFrom old new (old.length - 1) rest
    else c :: replaceFrom old new 0 rest

/-- What stands for the name of a helper function in its own source. -/
def functionPlaceholder : String := "\x7b%FUNCTION_NAME%\x7d"

namespace Emission

/-- The identifier of a name. -/
def getName (name : String) (category : NameCategory) : Emission String := do
  let pass ← get
  let (chosen, names) := pass.names.getName name category
  set { pass with names }
  return chosen

/-- A fresh identifier for a name. -/
def distinctName (name : String) (category : NameCategory) : Emission String := do
  let pass ← get
  let (chosen, names) := pass.names.distinctName name category
  set { pass with names }
  return chosen

/-- Add a definition. -/
def define (key code : String) : Emission Unit := modify (·.define key code)

/-- Let the source include a header. -/
def includeHeader (header : String) : Emission Unit := define s!"include_{header}" s!"#include <{header}>"

/-- The name of a helper function, which is defined at its first use. -/
def provideFunction (wanted : String) (lines : List String) : Emission String := do
  unless (← get).definitions.has wanted do
    let name ← distinctName wanted .procedure
    modify fun pass => { pass with functions := pass.functions.set wanted name }
    let source := replaceFrom functionPlaceholder.toList name.toList 0 (joinTexts "\n" lines).toList
    define wanted (String.ofList source)
  match (← get).functions.get? wanted with
  | some name => return name
  | none => throw (.notAFunction wanted)

/-- A text that a field must hold. -/
def textOf : Json → Emission String
  | .text value => return value
  | value => throw (.notAText value)

/-- What a table gives for the word that a field holds. -/
def choose {α : Type} (choices : List (String × α)) (field : Json) : Emission α :=
  match field with
  | .text word =>
    match choices.lookup word with
    | some choice => return choice
    | none => throw (.unknownWord field)
  | .list _ | .object _ => throw (.noWord field)
  | _ => throw (.unknownWord field)

/-- Go on with a count, or fail. -/
def ofCount {α : Type} : Except CountError α → Emission α
  | .ok value => return value
  | .error error => throw (.count error)

/-- Go on with a number, or fail. -/
def ofNumeral {α : Type} : Except NumeralError α → Emission α
  | .ok value => return value
  | .error error => throw (.numeral error)

end Emission

end BlockCompiler
