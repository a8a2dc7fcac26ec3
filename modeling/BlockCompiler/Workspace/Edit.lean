import BlockCompiler.Workspace.Basic

/-!
Edits of a workspace: making blocks, giving them rows and plugs, and linking them. An edit that fails
leaves the workspace as it was, save where it says otherwise.
-/

namespace BlockCompiler

/-- Why an edit fails. -/
inductive EditError where
  | rowExists (name type : String)
  | outputAndPrevious (type : String)
  | kindsDiffer (kind : ConnectionKind) (type : String) (other : ConnectionKind) (otherType : String)
  | linkToItself (type : String)
  | checksDiffer (type : String) (check : TypeCheck) (otherType : String) (otherCheck : TypeCheck)
  | inUse (type otherType : String)
  | noSocket (type name : String)
  | cannotPlug (childType name type : String)
  | cannotFollow (childType type : String)
  | idExists (id workspace : String)
  | unknownType (type : String)
  | count (error : CountError)

/-- A check in messages. -/
def TypeCheck.shown : TypeCheck → String
  | none => Json.null.shown
  | some names => (Json.list (names.map Json.text)).shown

/-- What an edit error says. -/
def EditError.message : EditError → String
  | .rowExists name type => s!"Input '{name}' already exists on block '{type}'"
  | .outputAndPrevious type => s!"Block '{type}' cannot have both an output and a previous connection"
  | .kindsDiffer kind type other otherType =>
    s!"Cannot connect {kind.name} on '{type}' to {other.name} on '{otherType}'"
  | .linkToItself type => s!"Cannot connect block '{type}' to itself"
  | .checksDiffer type check otherType otherCheck =>
    s!"Type check failed connecting '{type}' ({check.shown}) to '{otherType}' ({otherCheck.shown})"
  | .inUse type otherType => s!"Connection on '{type}' or '{otherType}' is already in use"
  | .noSocket type name => s!"Block '{type}' has no input socket named '{name}'"
  | .cannotPlug childType name type =>
    s!"Block '{childType}' cannot be plugged into input '{name}' of '{type}'"
  | .cannotFollow childType type => s!"Block '{childType}' cannot follow block '{type}'"
  | .idExists id workspace => s!"Block with id '{id}' already exists in workspace '{workspace}'"
  | .unknownType type => s!"Unknown block type '{type}'"
  | .count error => error.message

/-- An edit: it may change the workspace, and it may fail. -/
abbrev Edit := ExceptT EditError (StateM Workspace)

namespace Edit

/-- An edit that undoes all it did when it fails. -/
def atomically {α : Type} (edit : Edit α) : Edit α := do
  let before ← get
  try edit catch error =>
    set before
    throw error

/-- Change a block. -/
def modifyBlock (b : Nat) (change : Block → Block) : Edit Unit :=
  modify fun ws => { ws with blocks := ws.blocks.modify b change }

/-- Set what a connection is linked with. -/
def setTarget (c : Nat) (target : Option Nat) : Edit Unit :=
  modify fun ws =>
    { ws with connections := ws.connections.modify c fun connection => { connection with target } }

/-- Make a connection of a block. An empty check takes all. -/
def makeConnection (owner : Nat) (kind : ConnectionKind) (check : TypeCheck) : Edit Nat := do
  let ws ← get
  let check := check.filter fun names => !names.isEmpty
  set { ws with connections := ws.connections.push { owner, kind, check } }
  return ws.connections.size

/-- Make a block that is no member yet and has no shape. An empty id counts as none. -/
def makeBlock (type : String) (id : Option String) : Edit Nat := do
  let ws ← get
  set { ws with blocks := ws.blocks.push { type, ownId := id.filter (· ≠ "") } }
  return ws.blocks.size

/-- Add a row to a block. Two rows never have one name, unless it is empty. -/
def addRow (b : Nat) (name : String) (kind : RowKind) (check : TypeCheck) : Edit Unit := do
  let block := (← get).block b
  if name ≠ "" ∧ (block.row? name).isSome then throw (.rowExists name block.type)
  let connection ←
    match kind with
    | .value => some <$> makeConnection b .inputValue check
    | .statement => some <$> makeConnection b .nextStatement check
    | .dummy => pure none
  modifyBlock b fun block => { block with rows := block.rows ++ [{ kind, name, connection }] }

/-- Give a block an output, in place of any it has. -/
def setOutput (b : Nat) (check : TypeCheck) : Edit Unit := do
  let block := (← get).block b
  if block.previous.isSome then throw (.outputAndPrevious block.type)
  let connection ← makeConnection b .outputValue check
  modifyBlock b fun block => { block with output := some connection }

/-- Give a block a previous connection, in place of any it has. -/
def setPrevious (b : Nat) (check : TypeCheck) : Edit Unit := do
  let block := (← get).block b
  if block.output.isSome then throw (.outputAndPrevious block.type)
  let connection ← makeConnection b .previousStatement check
  modifyBlock b fun block => { block with previous := some connection }

/-- Give a block a next connection, in place of any it has. -/
def setNext (b : Nat) (check : TypeCheck) : Edit Unit := do
  let connection ← makeConnection b .nextStatement check
  modifyBlock b fun block => { block with next := some connection }

/-- Link two connections. They must be of opposite kinds, on different blocks, of meeting checks and
both free. -/
def link (c other : Nat) : Edit Unit := do
  let ws ← get
  let here := ws.connection c
  let there := ws.connection other
  let type := (ws.block here.owner).type
  let otherType := (ws.block there.owner).type
  if there.kind ≠ here.kind.opposite then throw (.kindsDiffer here.kind type there.kind otherType)
  if there.owner = here.owner then throw (.linkToItself type)
  unless here.check.meets there.check do throw (.checksDiffer type here.check otherType there.check)
  if here.target.isSome || there.target.isSome then throw (.inUse type otherType)
  setTarget c (some other)
  setTarget other (some c)

/-- Unlink a connection from the one it is linked with, if any. -/
def unlink (c : Nat) : Edit Unit := do
  match ((← get).connection c).target with
  | none => pure ()
  | some other =>
    setTarget other none
    setTarget c none

/-- Plug a block into the socket of a name. -/
def plugInto (b : Nat) (name : String) (child : Nat) : Edit Unit := do
  let ws ← get
  let block := ws.block b
  let childBlock := ws.block child
  match block.row? name with
  | some { kind, connection := some socket, .. } =>
    match if kind = .value then childBlock.output else childBlock.previous with
    | none => throw (.cannotPlug childBlock.type name block.type)
    | some plug => link socket plug
  | _ => throw (.noSocket block.type name)

/-- Let a block follow another. -/
def follow (b child : Nat) : Edit Unit := do
  let ws ← get
  let block := ws.block b
  let childBlock := ws.block child
  match block.next, childBlock.previous with
  | some next, some previous => link next previous
  | _, _ => throw (.cannotFollow childBlock.type block.type)

/-- Make a block a member. Members have different ids. -/
def addMember (b : Nat) : Edit Unit := do
  let ws ← get
  let block := ws.block b
  if ws.members.contains b || block.ownId.any fun id => (ws.memberWithId? id).isSome then
    throw (.idExists (ws.shownId b) ws.name)
  set { ws with members := ws.members ++ [b] }

/-- Give a block the rows of a list, one after another. -/
def addRows (b : Nat) : List RowSpec → Edit Unit
  | [] => pure ()
  | (name, kind, check) :: rest => do
    addRow b name kind check
    addRows b rest

/-- Give a block the connections by which it plugs into others. -/
def plugIn (b : Nat) : Plug → Edit Unit
  | .value check => setOutput b check
  | .statement => do
    setPrevious b none
    setNext b none
  | .loose => pure ()

/-- Give a block what the shape of its type says: plugs, rows, missing fields and the rows that its
mutation calls for. When one of these cannot be had, the block keeps what it was given before. -/
def applyShape (b : Nat) : Edit Unit := do
  let type := ((← get).block b).type
  let some kind := BlockKind.ofName? type | throw (.unknownType type)
  let shape := kind.shape
  plugIn b shape.plug
  addRows b shape.rows
  modifyBlock b fun block => { block with fields := block.fields.fill shape.fields }
  match shape.family with
  | none => pure ()
  | some family =>
    let (rows, stop) := family.rows ((← get).block b).mutation
    addRows b rows
    match stop with
    | none => pure ()
    | some error => throw (.count error)

/-- Make a block of a known type with its shape, and make it a member. -/
def newBlock (type : String) (id : Option String) (mutation fields : Table Json) : Edit Nat :=
  atomically do
    let b ← makeBlock type id
    modifyBlock b fun block => { block with mutation := block.mutation.update mutation }
    applyShape b
    modifyBlock b fun block => { block with fields := block.fields.update fields }
    addMember b
    return b

/-- Declare a variable. -/
def declareVariable (wanted : Variable) : Edit Variable := do
  let (declared, ws) := (← get).declare wanted
  set ws
  return declared

end Edit

end BlockCompiler
