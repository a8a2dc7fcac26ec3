import BlockCompiler.Number.Numeral
import BlockCompiler.Text.Lines
import BlockCompiler.Unicode.NamePart

/-!
Leads with escapes. The first line gets a lead as it is written, and later lines get it with its escapes
expanded. A lead without backslashes is the same for all lines.
-/

namespace BlockCompiler

/-- Why a lead cannot be expanded. -/
inductive LeadError where
  | badEscape
  | unknownReference (name : String)
  deriving DecidableEq, Repr

/-- The control character that a letter stands for after a backslash. -/
def controlOfLetter? : Char → Option Char
  | 'a' => some '\x07'
  | 'b' => some '\x08'
  | 't' => some '\t'
  | 'n' => some '\n'
  | 'v' => some '\x0b'
  | 'f' => some '\x0c'
  | 'r' => some '\r'
  | _ => none

/-- Whether a character is an octal digit. -/
def isOctalDigit (c : Char) : Bool := '0' ≤ c && c ≤ '7'

/-- The value of a row of octal digits. -/
def ofOctalDigits (digits : List Char) : Nat := digits.foldl (fun n c => 8 * n + (c.toNat - 48)) 0

/-- The character of a code in octal digits: up to three that start with zero, or three that make at
most 255. -/
def readOctal (text : List Char) : Except LeadError (List Char × List Char) :=
  let digits := (text.take 3).takeWhile isOctalDigit
  let code := ofOctalDigits digits
  if text.head? = some '0' ∨ digits.length = 3 ∧ code ≤ 255 then
    .ok ([Char.ofNat code], text.drop digits.length)
  else .error .badEscape

/-- Whether a text is a name. -/
def isReferenceName : List Char → Bool
  | [] => false
  | c :: rest => isNameStart c && rest.all isNamePart

/-- What a reference in angle brackets stands for. Number zero is the line feed that the lead follows;
there is nothing else to refer to. A lone backslash right after the reference is noticed first. -/
def readReference : List Char → Except LeadError (List Char × List Char)
  | '<' :: rest =>
    let name := rest.takeWhile (· ≠ '>')
    let after := rest.drop (name.length + 1)
    if name.isEmpty || name.length = rest.length || after = ['\\'] then .error .badEscape
    else if isReferenceName name then .error (.unknownReference (String.ofList name))
    else
      match readWhole (String.ofList name) with
      | .ok 0 => .ok (['\n'], after)
      | _ => .error .badEscape
  | _ => .error .badEscape

/-- What an escape stands for, given the text after its backslash. Before a character that is no ASCII
letter or digit, the backslash stands for itself. -/
def readEscape : List Char → Except LeadError (List Char × List Char)
  | [] => .error .badEscape
  | '\\' :: rest => .ok (['\\'], rest)
  | 'g' :: rest => readReference rest
  | c :: rest =>
    if c.isDigit then readOctal (c :: rest)
    else
      match controlOfLetter? c with
      | some control => .ok ([control], rest)
      | none => if c.isAlpha then .error .badEscape else .ok (['\\', c], rest)

/-- A lead with its escapes expanded. Every escape takes a character, so its length is fuel enough. -/
def expandEscapes : (fuel : Nat) → List Char → Except LeadError (List Char)
  | 0, _ => .ok []
  | _ + 1, [] => .ok []
  | fuel + 1, '\\' :: rest => do
    let (meaning, rest) ← readEscape rest
    return meaning ++ (← expandEscapes fuel rest)
  | fuel + 1, c :: rest => do return c :: (← expandEscapes fuel rest)

/-- Put a lead before every line, with its escapes expanded in all lines but the first. -/
def leadLinesExpanded (lead text : String) : Except LeadError String := do
  let later ← expandEscapes lead.toList.length lead.toList
  return String.ofList (lead.toList ++ leadLaterLines later text.toList)

theorem expandEscapes_of_plain {lead : List Char} (plain : '\\' ∉ lead) :
    expandEscapes lead.length lead = .ok lead := by
  induction lead with
  | nil => rfl
  | cons c rest ih =>
    have differs : c ≠ '\\' := fun same => plain (by simp [same])
    have inRest : '\\' ∉ rest := fun member => plain (List.mem_cons_of_mem c member)
    have shape : expandEscapes (rest.length + 1) (c :: rest) =
        (do return c :: (← expandEscapes rest.length rest)) := by
      rw [expandEscapes.eq_4]
      intro same
      exact differs same
    rw [List.length_cons, shape, ih inRest]
    rfl

theorem leadLinesExpanded_of_plain {lead : String} (plain : '\\' ∉ lead.toList) (text : String) :
    leadLinesExpanded lead text = .ok (leadLines lead text) := by
  rw [leadLinesExpanded, expandEscapes_of_plain plain]
  rfl

end BlockCompiler
