import BlockCompiler.Document.Schema
import BlockCompiler.Workspace.Edit

/-!
Building the workspace that a document describes.
-/

namespace BlockCompiler

namespace Edit

/-- The kinds of the rows that a block of unknown type gets: sockets for values of known types, openings
of stacks for all else. -/
def inferredRows : Rows BlockSpec String → List RowSpec
  | .nil => []
  | .cons name plugged rest =>
    let kind := if plugged.head?.any (isValueType ·.type) then RowKind.value else RowKind.statement
    (name, kind, none) :: inferredRows rest

/-- Make a block of unknown type, whose shape is inferred: in the socket of a value it is a value,
elsewhere a statement, and it has a row for each of its inputs. -/
def newUnknownBlock (spec : BlockSpec) (asValue : Bool) (inputs : Rows BlockSpec String) : Edit Nat := do
  let b ← makeBlock spec.type spec.ownId
  modifyBlock b fun block => { block with mutation := block.mutation.update spec.mutation }
  plugIn b (if asValue then .value none else .statement)
  addRows b (inferredRows inputs)
  addMember b
  return b

/-- Make the block that a specification describes, without anything attached to it. -/
def buildBlock (spec : BlockSpec) (asValue : Bool) (inputs : Rows BlockSpec String) : Edit Nat := do
  let b ←
    if isKnownType spec.type then newBlock spec.type spec.ownId spec.mutation []
    else newUnknownBlock spec asValue inputs
  modifyBlock b fun block =>
    { block with
      fields := block.fields.update spec.fields
      comment := spec.comment
      disabled := spec.disabled
      x := spec.x
      y := spec.y }
  return b

/-- Declare the variable that a block uses, if it uses one. -/
def declareUsed (b : Nat) : Edit Unit := do
  match ((← get).block b).field "VAR" with
  | .text name => if name ≠ "" then discard <| declareVariable { name }
  | _ => pure ()

mutual

/-- Build a stack: its first block, what is plugged into that, and then what follows it. The variable
that the block uses is declared last. -/
def buildStack (asValue : Bool) : StackSpec → Edit (Option Nat)
  | .empty => return none
  | .block spec inputs next => do
    let b ← buildBlock spec asValue inputs
    buildInputs b inputs
    match ← buildStack false next with
    | none => pure ()
    | some child => follow b child
    declareUsed b
    return some b

/-- Build the stacks that go into the sockets of a block, and plug them in. -/
def buildInputs (b : Nat) : Rows BlockSpec String → Edit Unit
  | .nil => return ()
  | .cons name plugged rest => do
    let block := (← get).block b
    match block.row? name with
    | some { kind, connection := some _, .. } =>
      match ← buildStack (kind = .value) plugged with
      | none => pure ()
      | some child => plugInto b name child
    | _ => throw (.noSocket block.type name)
    buildInputs b rest

end

/-- Build all that a document describes. -/
def buildDocument (document : Document) : Edit Unit := do
  document.declared.forM fun declared => discard <| declareVariable declared
  document.tops.forM fun stack => discard <| buildStack false stack

end Edit

/-- The workspace that a document describes. The index base can be overridden. -/
def Document.toWorkspace (document : Document) (oneBased : Option Bool) : Except EditError Workspace :=
  let start : Workspace := { name := document.name, oneBased := oneBased.getD document.oneBased }
  match (Edit.buildDocument document).run start with
  | (.ok (), ws) => .ok ws
  | (.error error, _) => .error error

/-- Why a value is not loaded as a workspace. -/
inductive LoadError where
  | schema (error : SchemaError)
  | edit (error : EditError)

/-- Load the workspace that a value describes. -/
def loadWorkspace (strict : Bool) (oneBased : Option Bool) (value : Json) : Except LoadError Workspace :=
  match Document.ofJson strict value with
  | .error error => .error (.schema error)
  | .ok (document, _) =>
    match document.toWorkspace oneBased with
    | .error error => .error (.edit error)
    | .ok ws => .ok ws

end BlockCompiler
