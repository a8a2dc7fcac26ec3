import BlockCompiler.Emission.Site

/-!
Templates: what the code of a block is, given its site.
-/

namespace BlockCompiler

/-- A template. Without an output, it has put the code of the block and of all that belongs to it among
the definitions. -/
abbrev Template := Site → Emission (Option Output)

namespace Template

/-- A template that always gives the same. -/
def fixed (output : Option Output) : Template := fun _ => return output

/-- A template that can give no code. -/
def noCode : Template := fun _ => throw .noCode

/-- What stands in for blocks that no template is for. -/
def placeholder : Template := fun site =>
  if site.head.hasOutput then return some (.value "0" .atomic)
  else return some (.statements s!"// TODO: no template for block type '{site.head.type}'\n")

end Template

/-- A value with the order of its outermost operator. -/
def expression (code : String) (order : Order) : Emission (Option Output) :=
  return some (.value code order)

/-- Statements. -/
def statement (code : String) : Emission (Option Output) := return some (.statements code)

/-- Code in braces, after a head. -/
def braced (head body : String) : String := head ++ " \x7b\n" ++ body ++ "\x7d"

namespace Site

/-- The expressions in the rows of a family, in order. -/
def values (site : Site) (stem : String) (count : Nat) (order : Order) (default : String) :
    Emission (List String) :=
  (List.range count).mapM fun i => site.value (stem ++ toString i) order default

/-- The identifier of the variable that a field names. -/
def getVariable (site : Site) : Emission String := do
  Emission.getName (← Emission.textOf (site.field "VAR")) .variable

end Site

end BlockCompiler
