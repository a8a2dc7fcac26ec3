import BlockCompiler.Block.Content
import BlockCompiler.Block.Shape
import BlockCompiler.Unicode.Lower

/-!
Workspaces: the blocks and variables of one program, and how the blocks are connected. Blocks and
connections go by number, and a connection that a block gave up for a new one keeps its number.
-/

namespace BlockCompiler

/-- One point of a block where another can be attached. -/
structure Connection where
  owner : Nat
  kind : ConnectionKind
  check : TypeCheck := none
  /-- The connection it is linked with. -/
  target : Option Nat := none
  deriving Inhabited

/-- A row of a block; all but dummy rows have a connection. -/
structure Row where
  kind : RowKind
  name : String
  connection : Option Nat
  deriving Inhabited

/-- A block. Without an id of its own it gets one that no other block has. -/
structure Block extends BlockContent where
  ownId : Option String := none
  x : Json := .int 0
  y : Json := .int 0
  rows : List Row := []
  output : Option Nat := none
  previous : Option Nat := none
  next : Option Nat := none
  deriving Inhabited

/-- A declared variable. Its type and id are whatever the declaration says; without an id it gets one
that no other variable has. -/
structure Variable where
  name : String
  type : Json := .text ""
  ownId : Option Json := none

/-- A workspace. The members are the blocks added to it, in this order; a block may also be known and
not added. With one-based indices, the first item of a list is number one in the program. -/
structure Workspace where
  name : String := "workspace"
  oneBased : Bool := false
  blocks : Array Block := #[]
  connections : Array Connection := #[]
  members : List Nat := []
  declared : List Variable := []

namespace Block

/-- The first row with a name. -/
def row? (block : Block) (name : String) : Option Row := block.rows.find? (·.name = name)

end Block

namespace Workspace

/-- A block by its number. -/
def block (ws : Workspace) (b : Nat) : Block := (ws.blocks[b]?).getD default

/-- A connection by its number. -/
def connection (ws : Workspace) (c : Nat) : Connection := (ws.connections[c]?).getD default

/-- The block at the other end of a connection. -/
def target? (ws : Workspace) (connection : Option Nat) : Option Nat := do
  let c ← connection
  let t ← (ws.connection c).target
  return (ws.connection t).owner

/-- Whether a connection is linked. -/
def isLinked (ws : Workspace) (connection : Option Nat) : Bool := (ws.target? connection).isSome

/-- The block that a block is plugged into or follows. -/
def parent? (ws : Workspace) (b : Nat) : Option Nat :=
  (ws.target? (ws.block b).output).or (ws.target? (ws.block b).previous)

/-- The block that follows a block. -/
def next? (ws : Workspace) (b : Nat) : Option Nat := ws.target? (ws.block b).next

/-- The block in the socket of a name. -/
def inputTarget? (ws : Workspace) (b : Nat) (name : String) : Option Nat :=
  ((ws.block b).row? name).bind fun row => ws.target? row.connection

/-- The blocks in the sockets of a block, row by row, and then the one that follows it. -/
def children (ws : Workspace) (b : Nat) : List Nat :=
  (ws.block b).rows.filterMap (fun row => ws.target? row.connection) ++ (ws.next? b).toList

/-- A block and all below it, as far as the fuel goes down: the block, then what hangs on it in order. -/
def descendantsWithin (ws : Workspace) : (fuel : Nat) → Nat → Option (List Nat)
  | 0, _ => none
  | fuel + 1, b => do
    let below ← (ws.children b).mapM (ws.descendantsWithin fuel)
    return b :: below.flatten

/-- A block and all below it. There is no answer if a block hangs below itself. -/
def descendants? (ws : Workspace) (b : Nat) : Option (List Nat) := ws.descendantsWithin ws.blocks.size b

/-- Whether the output of a block is plugged into another. -/
def isInline (ws : Workspace) (b : Nat) : Bool := ws.isLinked (ws.block b).output

/-- The member with an id of its own. -/
def memberWithId? (ws : Workspace) (id : String) : Option Nat :=
  ws.members.find? fun b => (ws.block b).ownId = some id

/-- The variable of a name; case does not matter. -/
def variableNamed? (ws : Workspace) (name : String) : Option Variable :=
  ws.declared.find? fun v => lower v.name = lower name

/-- Declare a variable unless one of this name is declared; the declared one is the answer. -/
def declare (ws : Workspace) (wanted : Variable) : Variable × Workspace :=
  match ws.variableNamed? wanted.name with
  | some known => (known, ws)
  | none => (wanted, { ws with declared := ws.declared ++ [wanted] })

/-- The members that hang on no other block. -/
def topBlocks (ws : Workspace) : List Nat := ws.members.filter fun b => (ws.parent? b).isNone

/-- A short description of a workspace. -/
def description (ws : Workspace) : String :=
  let blocks := ws.members.length
  let declared := ws.declared.length
  s!"Workspace({ws.name}, blocks={blocks}, variables={declared})"

/-- The id of a block in messages. One without an id of its own shows its number. -/
def shownId (ws : Workspace) (b : Nat) : String :=
  (ws.block b).ownId.getD (String.ofList (hexDigits 32 b))

/-- A short description of a block. -/
def blockDescription (ws : Workspace) (b : Nat) : String :=
  "Block(" ++ (ws.block b).type ++ ", " ++ ws.shownId b ++ ")"

/-- A short description of a connection. -/
def connectionDescription (ws : Workspace) (c : Nat) : String :=
  let connection := ws.connection c
  "Connection(" ++ (ws.block connection.owner).type ++ "." ++ connection.kind.name ++ ")"

end Workspace

/-- A short description of a row. -/
def Row.description (row : Row) : String := s!"Input({row.name}, {row.kind.name})"

end BlockCompiler
