import BlockCompiler.Name.Identifier
import BlockCompiler.Number.Numeral
import BlockCompiler.Table
import BlockCompiler.Unicode.Lower

/-!
The registry of names, which maps the names of a program to identifiers that are neither reserved nor
used twice.
-/

namespace BlockCompiler

/-- What a name names. -/
inductive NameCategory where
  | variable
  | procedure
  | developer
  deriving DecidableEq, Repr

/-- The word for a category. -/
def NameCategory.word : NameCategory → String
  | .variable => "VARIABLE"
  | .procedure => "PROCEDURE"
  | .developer => "DEVELOPER_VARIABLE"

/-- The key under which a name is kept: its lower-case form, an underscore and the word for its category. -/
def nameKey (name : String) (category : NameCategory) : String := lower name ++ "_" ++ category.word

/-- The registry of one pass: the reserved words, the identifiers handed out, and which of them belongs to
which key. -/
structure Registry where
  /-- Written before every variable. -/
  variableLead : String := ""
  reserved : List String := []
  taken : List String := []
  assigned : Table String := []

namespace Registry

/-- Reserve some words. Blanks around a word do not belong to it, and an empty word reserves nothing. -/
def reserve (registry : Registry) (words : List String) : Registry :=
  let trimmed := words.map fun word => String.ofList (trimEnds isBlank word.toList)
  { registry with reserved := registry.reserved ++ trimmed.filter (· ≠ "") }

/-- A registry that knows nothing but its reserved words. -/
def ofReserved (words : List String) (variableLead : String) : Registry :=
  reserve ⟨variableLead, [], [], []⟩ words

/-- Whether a word is reserved. -/
def isReserved (registry : Registry) (word : String) : Bool := registry.reserved.contains word

/-- Forget every name but keep the reserved words. -/
def reset (registry : Registry) : Registry := { registry with taken := [], assigned := [] }

/-- What is written before the names of a category. -/
def leadOf (registry : Registry) : NameCategory → String
  | .variable => registry.variableLead
  | _ => ""

/-- Whether an identifier may still be handed out. -/
def isFree (registry : Registry) (candidate : String) : Bool :=
  !registry.taken.contains candidate && !registry.reserved.contains candidate

/-- The first free identifier among a base with the numbers from some number on. -/
def firstFree (registry : Registry) (base : String) : (fuel : Nat) → Nat → String
  | 0, i => base ++ toString i
  | fuel + 1, i =>
    if registry.isFree (base ++ toString i) then base ++ toString i else firstFree registry base fuel (i + 1)

/-- The identifier that a base leads to: the base itself, or else with the least number from two on that
makes it free. So many numbers cannot all be in use. -/
def candidate (registry : Registry) (base : String) : String :=
  if registry.isFree base then base
  else registry.firstFree base (registry.taken.length + registry.reserved.length) 2

/-- An identifier that was never handed out before, without what is written before it, which is now
taken. -/
def allocate (registry : Registry) (name : String) : String × Registry :=
  let chosen := registry.candidate (safeName name)
  (chosen, { registry with taken := chosen :: registry.taken })

/-- A fresh identifier for a name. -/
def distinctName (registry : Registry) (name : String) (category : NameCategory) : String × Registry :=
  let (chosen, registry) := registry.allocate name
  (registry.leadOf category ++ chosen, registry)

/-- The identifier of a name, chosen at its first use. -/
def getName (registry : Registry) (name : String) (category : NameCategory) : String × Registry :=
  let key := nameKey name category
  match registry.assigned.get? key with
  | some chosen => (registry.leadOf category ++ chosen, registry)
  | none =>
    let (chosen, registry) := registry.allocate name
    (registry.leadOf category ++ chosen, { registry with assigned := registry.assigned.set key chosen })

/-- The identifiers of several names, in order. -/
def getNames (registry : Registry) : List String → NameCategory → List String × Registry
  | [], _ => ([], registry)
  | name :: rest, category =>
    let (chosen, registry) := registry.getName name category
    let (others, registry) := registry.getNames rest category
    (chosen :: others, registry)

end Registry

/-- Whether two names are the same name. -/
def sameName (a b : String) : Bool := lower a = lower b

end BlockCompiler
