import BlockCompiler.Json.Compare
import BlockCompiler.Sorting.Runs
import BlockCompiler.Workspace.Basic

/-!
The order of blocks by where they stand: from top to bottom, then from left to right.
-/

namespace BlockCompiler

/-- Where a block stands: how far down and how far to the right. -/
abbrev Position := Number × Number

/-- Whether a position comes before another. -/
def Position.before (a b : Position) : Bool := if a.1.same b.1 then a.2.lt b.2 else a.1.lt b.1

/-- Whether a coordinate of a position is a NaN, so that positions have no consistent order. -/
def Position.isNan (a : Position) : Bool := a.1.isNan || a.2.isNan

/-- Where a block stands, if its coordinates are numbers and no NaNs. -/
def Block.position? (block : Block) : Option Position := do
  let position : Position := (← block.y.asNumber?, ← block.x.asNumber?)
  if position.isNan then none else some position

/-- Whether a block stands before another. There is no answer if the coordinates that decide it cannot be
compared. -/
def Block.standsBefore? (a b : Block) : Option Bool :=
  if !a.y.same b.y then a.y.less? b.y
  else if !a.x.same b.x then a.x.less? b.x
  else some false

variable {α : Type}

/-- Items sorted by their positions. Items at the same position stay as they are. -/
def sortByPosition (items : List (Position × α)) : List (Position × α) :=
  items.mergeSort fun a b => !b.1.before a.1

/-- The members that hang on no other block, from top to bottom. If the coordinates of some have no
consistent order, the outcome is that of sorting by runs, which may fail. -/
def Workspace.orderedTopBlocks? (ws : Workspace) : Option (List Nat) :=
  let tops := ws.topBlocks
  match tops.mapM fun b => (ws.block b).position?.map (·, b) with
  | some placed => some ((sortByPosition placed).map (·.2))
  | none => sortByRuns (fun a b => (ws.block a).standsBefore? (ws.block b)) tops

end BlockCompiler
