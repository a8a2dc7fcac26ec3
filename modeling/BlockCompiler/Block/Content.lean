import BlockCompiler.Json.Basic

/-!
What a block says about itself, apart from how it is connected.
-/

namespace BlockCompiler

/-- The content of a block. The mutation holds what shapes the single block, such as a count of items. -/
structure BlockContent where
  type : String
  fields : Table Json := []
  mutation : Table Json := []
  comment : Option String := none
  disabled : Bool := false
  deriving Inhabited

/-- A comment, where an empty text is none. -/
def commentOf (text : Option String) : Option String := text.filter (· ≠ "")

/-- The value of a field. A field that is missing is null. -/
def BlockContent.field (content : BlockContent) (name : String) : Json :=
  (content.fields.get? name).getD .null

end BlockCompiler
