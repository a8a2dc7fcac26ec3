import BlockCompiler.Stack

/-!
Documents: programs as they are written down, checked but not yet built.
-/

namespace BlockCompiler

/-- A block as written down. -/
structure BlockSpec extends BlockContent where
  ownId : Option String := none
  x : Json := .int 0
  y : Json := .int 0

/-- A stack as written down; its rows are labelled with the names of the sockets they go to. -/
abbrev StackSpec := Stack BlockSpec String

/-- A program as written down. -/
structure Document where
  name : String
  oneBased : Bool := false
  declared : List Variable := []
  tops : List StackSpec := []

end BlockCompiler
