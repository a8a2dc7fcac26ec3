import BlockCompiler.Document.Basic

/-!
The schema of documents: which JSON values are documents, and what is wrong with the others. The checks
go from the top of a value down, and the first that fails decides.
-/

namespace BlockCompiler

/-- What a part of a document should be. -/
inductive SchemaForm where
  | text
  | nonEmptyText
  | list
  | object
  | boolean
  | number
  | naturalNumber
  | nonEmptyTexts
  | oneOf (words : List String)
  deriving DecidableEq, Repr

/-- What is wrong with a value that should be a document. -/
inductive SchemaError where
  | notADocument
  | notAVariable (place : String)
  | notABlock (place : String)
  | missing (place field : String)
  | wrongForm (place : String) (form : SchemaForm)
  | duplicateId (place id : String)
  | unknownType (place type : String)
  deriving DecidableEq, Repr

/-- What a form demands. -/
def SchemaForm.demand : SchemaForm → String
  | .text => "must be a string"
  | .nonEmptyText => "must be a non-empty string"
  | .list => "must be a list"
  | .object => "must be an object"
  | .boolean => "must be a boolean"
  | .number => "must be a number"
  | .naturalNumber => "must be a non-negative integer"
  | .nonEmptyTexts => "must be a list of non-empty strings"
  | .oneOf words => "must be one of " ++ joinTexts ", " words

/-- What a schema error says. -/
def SchemaError.message : SchemaError → String
  | .notADocument => "workspace JSON must be a JSON object at the top level"
  | .notAVariable place => s!"{place}: each variable must be a JSON object"
  | .notABlock place => s!"{place}: each block must be a JSON object"
  | .missing place field => s!"{place}: missing required field '{field}'"
  | .wrongForm place form => s!"{place} {form.demand}"
  | .duplicateId place id => s!"{place}: duplicate block id '{id}'"
  | .unknownType place type => s!"{place}: unknown block type '{type}'"

/-- A block of an unknown type, and where it is. -/
structure UnknownType where
  place : String
  type : String
  deriving DecidableEq, Repr

/-- The warning about a block of an unknown type. -/
def UnknownType.warning (unknown : UnknownType) : String :=
  (SchemaError.unknownType unknown.place unknown.type).message ++ " (compilation will emit a placeholder)"

/-- What a check has seen so far: the ids of blocks, and the unknown types it let pass, last first. -/
structure SchemaState where
  ids : List String := []
  unknown : List UnknownType := []

/-- A check that may fail. -/
abbrev Checking := StateT SchemaState (Except SchemaError)

/-- Fail unless a part of a document has its form. -/
def requireForm (holds : Bool) (place : String) (form : SchemaForm) : Except SchemaError Unit :=
  if holds then .ok () else .error (.wrongForm place form)

namespace Json

def isTextValue : Json → Bool
  | .text _ => true
  | _ => false

def isNonEmptyText : Json → Bool
  | .text value => value ≠ ""
  | _ => false

def isObject : Json → Bool
  | .object _ => true
  | _ => false

def isBool : Json → Bool
  | .bool _ => true
  | _ => false

def isTrue : Json → Bool
  | .bool value => value
  | _ => false

def isNull : Json → Bool
  | .null => true
  | _ => false

/-- Whether a value is a number, or a text that reads as one. -/
def isNumeric : Json → Bool
  | .number _ => true
  | .text value => (readDecimal value).toOption.isSome
  | _ => false

def isNaturalNumber : Json → Bool
  | .number (.int value) => 0 ≤ value
  | _ => false

def isListOfNonEmptyTexts : Json → Bool
  | .list items => items.all isNonEmptyText
  | _ => false

/-- The members of an object; other values have none. -/
def members : Json → Table Json
  | .object members => members
  | _ => []

end Json

/-- Fail unless a member, if present, has its form. -/
def checkMember (members : Table Json) (place key : String) (holds : Json → Bool) (form : SchemaForm) :
    Except SchemaError Unit :=
  match members.get? key with
  | some value => requireForm (holds value) s!"{place}.{key}" form
  | none => .ok ()

/-- Fail unless a member is present. -/
def requireMember (members : Table Json) (place key : String) : Except SchemaError Json :=
  match members.get? key with
  | some value => .ok value
  | none => .error (.missing place key)

/-- Check the fields of a block of a known kind. -/
def checkFields (kind : BlockKind) (fields : Table Json) (place : String) : Except SchemaError Unit := do
  let place := place ++ ".fields"
  match kind.shape.choices with
  | some (name, words) => checkMember fields place name (fun value => words.any value.isText) (.oneOf words)
  | none => pure ()
  checkMember fields place "VAR" Json.isNonEmptyText .nonEmptyText
  checkMember fields place "NAME" Json.isNonEmptyText .nonEmptyText
  checkMember fields place "NUM" Json.isNumeric .number
  checkMember fields place "TEXT" Json.isTextValue .text

/-- Check the mutation of a block of a known kind. -/
def checkMutation (mutation : Table Json) (place : String) : Except SchemaError Unit := do
  let place := place ++ ".mutation"
  checkMember mutation place "items" Json.isNaturalNumber .naturalNumber
  checkMember mutation place "elseif" Json.isNaturalNumber .naturalNumber
  checkMember mutation place "else" Json.isBool .boolean
  checkMember mutation place "params" Json.isListOfNonEmptyTexts .nonEmptyTexts

/-- Check the id of a block, which no other block of the document may have, and remember it. -/
def checkId (members : Table Json) (place : String) : Checking Unit := do
  match members.get? "id" with
  | none => pure ()
  | some (.text id) =>
    let state ← get
    if state.ids.contains id then throw (.duplicateId place id)
    set { state with ids := id :: state.ids }
  | some _ => throw (.wrongForm (place ++ ".id") .text)

/-- Check all of a block but the blocks below it, and read what it says. -/
def checkBlock (strict : Bool) (members : Table Json) (place : String) : Checking BlockSpec := do
  let type ←
    match ← requireMember members place "type" with
    | .text type => pure type
    | _ => throw (.wrongForm (place ++ ".type") .text)
  checkId members place
  checkMember members place "fields" Json.isObject .object
  checkMember members place "mutation" Json.isObject .object
  checkMember members place "inputs" Json.isObject .object
  checkMember members place "comment" (fun value => value.isNull || value.isTextValue) .text
  checkMember members place "disabled" Json.isBool .boolean
  checkMember members place "x" (fun value => value.asNumber?.isSome) .number
  checkMember members place "y" (fun value => value.asNumber?.isSome) .number
  let fields := ((members.get? "fields").getD .null).members
  let mutation := ((members.get? "mutation").getD .null).members
  match BlockKind.ofName? type with
  | some kind =>
    checkFields kind fields place
    checkMutation mutation place
  | none =>
    if strict then throw (.unknownType place type)
    modify fun state => { state with unknown := ⟨place, type⟩ :: state.unknown }
  return {
    type, fields, mutation
    comment := commentOf ((members.get? "comment").bind Json.asText?)
    disabled := ((members.get? "disabled").getD .null).isTrue
    ownId := (members.get? "id").bind Json.asText?
    x := (members.get? "x").getD (.int 0)
    y := (members.get? "y").getD (.int 0) }

mutual

/-- Read a stack from the value of its first block. -/
def readStack (strict : Bool) (place : String) : Json → Checking StackSpec
  | .object members => do
    let spec ← checkBlock strict members place
    let inputs ← readInputs strict place members
    let next ← readNext strict place members
    return .block spec inputs next
  | _ => throw (.notABlock place)

/-- Read what is plugged into a block, given the members of its value. -/
def readInputs (strict : Bool) (place : String) : List (String × Json) → Checking (Rows BlockSpec String)
  | [] => return .nil
  | (key, value) :: rest =>
    if key = "inputs" then
      match value with
      | .object inputs => readSockets strict place inputs
      | _ => return .nil
    else readInputs strict place rest

/-- Read the stacks in the sockets of a block. -/
def readSockets (strict : Bool) (place : String) : List (String × Json) → Checking (Rows BlockSpec String)
  | [] => return .nil
  | (name, value) :: rest => do
    let plugged ← readStack strict s!"{place}.inputs.{name}" value
    return .cons name plugged (← readSockets strict place rest)

/-- Read the stack that follows a block, given the members of its value. -/
def readNext (strict : Bool) (place : String) : List (String × Json) → Checking StackSpec
  | [] => return .empty
  | (key, value) :: rest =>
    if key = "next" then
      match value with
      | .null => return .empty
      | value => readStack strict (place ++ ".next") value
    else readNext strict place rest

end

/-- Read the declaration of a variable. -/
def readVariable (place : String) : Json → Except SchemaError Variable
  | .object entries => do
    let members : Table Json := entries
    let name ← requireMember members place "name"
    requireForm name.isNonEmptyText (place ++ ".name") .nonEmptyText
    return {
      name := name.asText?.getD ""
      type := (members.get? "type").getD (.text "")
      ownId := (members.get? "id").filter fun id => !id.isVoid }
  | _ => .error (.notAVariable place)

/-- Read the items of a list, each at the place of its number. -/
def readItemsAt {m : Type → Type} [Monad m] {α : Type} (read : String → Json → m α) (place : String) :
    Nat → List Json → m (List α)
  | _, [] => return []
  | i, item :: rest => do
    let value ← read s!"{place}[{i}]" item
    return value :: (← readItemsAt read place (i + 1) rest)

/-- Read a document, keeping account of ids and unknown types. -/
def readDocumentValue (strict : Bool) : Json → Checking Document
  | .object entries => do
    let members : Table Json := entries
    let name ← requireMember members "workspace root" "name"
    let blocks ← requireMember members "workspace root" "blocks"
    requireForm name.isTextValue "name" .text
    let .list blocks := blocks | throw (.wrongForm "blocks" .list)
    let options : Json := (members.get? "options").getD (.object [])
    requireForm options.isObject "options" .object
    checkMember options.members "options" "one_based_index" Json.isBool .boolean
    let .list declarations := (members.get? "variables").getD (Json.list [])
      | throw (.wrongForm "variables" .list)
    let declared ← readItemsAt (fun place value => (readVariable place value : Except SchemaError Variable))
      "variables" 0 declarations
    let tops ← readItemsAt (readStack strict) "blocks" 0 blocks
    return {
      name := name.asText?.getD ""
      oneBased := ((options.members.get? "one_based_index").getD .null).isTrue
      declared, tops }
  | _ => throw .notADocument

/-- The document that a value is, with its blocks of unknown type in order. Strictly, all types must be
known. -/
def Document.ofJson (strict : Bool) (value : Json) : Except SchemaError (Document × List UnknownType) := do
  let (document, state) ← (readDocumentValue strict value).run {}
  return (document, state.unknown.reverse)

end BlockCompiler
