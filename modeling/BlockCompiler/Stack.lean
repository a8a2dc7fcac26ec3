import BlockCompiler.Workspace.Basic

/-!
Stacks: blocks that hang together, as trees. A stack is read off a workspace by following connections.
-/

namespace BlockCompiler

mutual

/-- A stack is empty, or a block with its rows and the stack that follows it. -/
inductive Stack (α β : Type) where
  | empty
  | block (head : α) (rows : Rows α β) (next : Stack α β)

/-- The rows of a block, each with what is plugged into it. -/
inductive Rows (α β : Type) where
  | nil
  | cons (label : β) (plugged : Stack α β) (rest : Rows α β)

end

variable {α β : Type}

/-- Rows from a list. -/
def Rows.ofList : List (β × Stack α β) → Rows α β
  | [] => .nil
  | (label, plugged) :: rest => .cons label plugged (ofList rest)

/-- The labels of rows. -/
def Rows.labels : Rows α β → List β
  | .nil => []
  | .cons label _ rest => label :: rest.labels

/-- The block at the head of a stack. -/
def Stack.head? : Stack α β → Option α
  | .empty => none
  | .block head _ _ => some head

mutual

/-- The blocks of a stack: the head, the blocks in its rows, and those that follow. -/
def Stack.heads : Stack α β → List α
  | .empty => []
  | .block head rows next => head :: (rows.heads ++ next.heads)

/-- The blocks in some rows. -/
def Rows.heads : Rows α β → List α
  | .nil => []
  | .cons _ plugged rest => plugged.heads ++ rest.heads

end

/-- A block of a stack that is to be compiled: what it says, whether it has an output, and whether that
is plugged into another block. -/
structure BlockHead extends BlockContent where
  hasOutput : Bool
  inline : Bool

/-- A row of a block that is to be compiled. -/
structure RowHead where
  kind : RowKind
  name : String

/-- The head of a block of a workspace. -/
def Workspace.head (ws : Workspace) (b : Nat) : BlockHead :=
  let block := ws.block b
  { block.toBlockContent with hasOutput := block.output.isSome, inline := ws.isInline b }

/-- The stack that starts at a block, as far as the fuel goes down. -/
def Workspace.stackWithin (ws : Workspace) : (fuel : Nat) → Option Nat → Option (Stack BlockHead RowHead)
  | _, none => some .empty
  | 0, some _ => none
  | fuel + 1, some b => do
    let rows ← (ws.block b).rows.mapM fun row => do
      return (⟨row.kind, row.name⟩, ← ws.stackWithin fuel (ws.target? row.connection))
    let next ← ws.stackWithin fuel (ws.next? b)
    return .block (ws.head b) (.ofList rows) next

/-- The stack that starts at a block. There is none if a block hangs below itself, for then a way down
is longer than there are blocks. -/
def Workspace.stack? (ws : Workspace) (b : Option Nat) : Option (Stack BlockHead RowHead) :=
  ws.stackWithin ws.blocks.size b

end BlockCompiler
