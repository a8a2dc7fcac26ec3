import BlockCompiler.Number.Numeral
import BlockCompiler.Number.Shortest
import BlockCompiler.Table
import BlockCompiler.Text.Shown

/-!
JSON values. Whole numbers and decimals are kept apart, and objects keep the order of their members.
-/

namespace BlockCompiler

/-- A JSON value. -/
inductive Json where
  | null
  | bool (value : Bool)
  | number (value : Number)
  | text (value : String)
  | list (items : List Json)
  | object (members : List (String × Json))
  deriving Inhabited

namespace Json

/-- The whole number as a value. -/
abbrev int (value : Int) : Json := .number (.int value)

/-- Whether a value stands for nothing: null, false, zero, or an empty text, list or object. -/
def isVoid : Json → Bool
  | .null => true
  | .bool value => !value
  | .number value => value.isZero
  | .text value => value.isEmpty
  | .list items => items.isEmpty
  | .object members => members.isEmpty

/-- Whether a value is this very text. -/
def isText (value : Json) (wanted : String) : Bool :=
  match value with
  | .text found => found = wanted
  | _ => false

/-- The text that a value is. -/
def asText? : Json → Option String
  | .text value => some value
  | _ => none

/-- A value read as a number, where truth counts as one and falsehood as zero. -/
def asNumber? : Json → Option Number
  | .bool value => some (.int (if value then 1 else 0))
  | .number value => some value
  | _ => none

mutual

/-- Whether all numbers in a value are finite, so that the standard has a way to write it. -/
def isStandard : Json → Bool
  | .number (.float .nan) | .number (.float (.infinite _)) => false
  | .list items => areStandard items
  | .object members => haveStandardValues members
  | _ => true

/-- Whether all numbers in the items of a list are finite. -/
def areStandard : List Json → Bool
  | [] => true
  | item :: rest => isStandard item && areStandard rest

/-- Whether all numbers in the members of an object are finite. -/
def haveStandardValues : List (String × Json) → Bool
  | [] => true
  | (_, value) :: rest => isStandard value && haveStandardValues rest

end

mutual

/-- A value as messages show it. -/
def shown : Json → String
  | .null => "None"
  | .bool value => if value then "True" else "False"
  | .number (.int value) => toString value
  | .number (.float value) => value.text
  | .text value => shownText value
  | .list items => "[" ++ joinTexts ", " (shownItems items) ++ "]"
  | .object members => "\x7b" ++ joinTexts ", " (shownMembers members) ++ "\x7d"

/-- The items of a list as messages show them. -/
def shownItems : List Json → List String
  | [] => []
  | item :: rest => shown item :: shownItems rest

/-- The members of an object as messages show them. -/
def shownMembers : List (String × Json) → List String
  | [] => []
  | (key, value) :: rest => (shownText key ++ ": " ++ shown value) :: shownMembers rest

end

end Json

end BlockCompiler
