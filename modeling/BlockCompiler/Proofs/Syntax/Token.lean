import BlockCompiler.Name.Identifier
import BlockCompiler.Unicode.Blank

/-!
Tokens of the generated expressions, and how a text is cut into them.
-/

namespace BlockCompiler

/-- The signs of expressions. Two minus signs in a row are one sign, and so are two plus signs; no
expression has a place for them. -/
inductive Mark where
  | plus
  | minus
  | increment
  | decrement
  | times
  | over
  | less
  | atMost
  | greater
  | atLeast
  | equal
  | unequal
  | and
  | or
  | not
  | question
  | colon
  | comma
  | dot
  | opening
  | closing
  | openSquare
  | closeSquare
  | openBrace
  | closeBrace
  deriving DecidableEq, Repr

/-- A token: a numeral without its sign, a word, a text in quotes with its escapes resolved, or a mark. -/
inductive Token where
  | numeral (text : String)
  | word (name : String)
  | quoted (text : String)
  | mark (mark : Mark)
  deriving DecidableEq, Repr

/-- The longest mark at the head of a text, and the rest. -/
def readMark? : List Char → Option (Mark × List Char)
  | '+' :: '+' :: rest => some (.increment, rest)
  | '+' :: rest => some (.plus, rest)
  | '-' :: '-' :: rest => some (.decrement, rest)
  | '-' :: rest => some (.minus, rest)
  | '*' :: rest => some (.times, rest)
  | '/' :: rest => some (.over, rest)
  | '<' :: '=' :: rest => some (.atMost, rest)
  | '<' :: rest => some (.less, rest)
  | '>' :: '=' :: rest => some (.atLeast, rest)
  | '>' :: rest => some (.greater, rest)
  | '=' :: '=' :: rest => some (.equal, rest)
  | '!' :: '=' :: rest => some (.unequal, rest)
  | '!' :: rest => some (.not, rest)
  | '&' :: '&' :: rest => some (.and, rest)
  | '|' :: '|' :: rest => some (.or, rest)
  | '?' :: rest => some (.question, rest)
  | ':' :: rest => some (.colon, rest)
  | ',' :: rest => some (.comma, rest)
  | '.' :: rest => some (.dot, rest)
  | '(' :: rest => some (.opening, rest)
  | ')' :: rest => some (.closing, rest)
  | '[' :: rest => some (.openSquare, rest)
  | ']' :: rest => some (.closeSquare, rest)
  | '\x7b' :: rest => some (.openBrace, rest)
  | '\x7d' :: rest => some (.closeBrace, rest)
  | _ => none

/-- The fraction at the head of a text, with its point, and the rest. A point without digits behind it
is no fraction. -/
def splitFraction : List Char → List Char × List Char
  | '.' :: rest =>
    match rest.takeWhile Char.isDigit with
    | [] => ([], '.' :: rest)
    | digits => ('.' :: digits, rest.dropWhile Char.isDigit)
  | rest => ([], rest)

/-- The exponent at the head of a text, with its letter and sign, and the rest. -/
def splitExponent : List Char → List Char × List Char
  | 'e' :: sign :: rest =>
    match if sign = '-' ∨ sign = '+' then rest.takeWhile Char.isDigit else [] with
    | [] => ([], 'e' :: sign :: rest)
    | digits => ('e' :: sign :: digits, rest.dropWhile Char.isDigit)
  | rest => ([], rest)

/-- The numeral at the head of a text, and the rest. -/
def splitNumeral (text : List Char) : List Char × List Char :=
  let (fraction, rest) := splitFraction (text.dropWhile Char.isDigit)
  let (exponent, rest) := splitExponent rest
  (text.takeWhile Char.isDigit ++ fraction ++ exponent, rest)

/-- What stands for a character behind a backslash. -/
def unescaped (c : Char) : Char := if c = 'n' then '\n' else c

/-- The text up to the quote that closes it, and what stands behind that. -/
def readQuoted? : List Char → Option (List Char × List Char)
  | [] => none
  | '\\' :: c :: rest => (readQuoted? rest).map fun (text, rest) => (unescaped c :: text, rest)
  | c :: rest =>
    if c = '\x27' then some ([], rest) else (readQuoted? rest).map fun (text, rest) => (c :: text, rest)

/-- What stands at the head of a text, and the rest: a token, or a blank or comment, which are none. -/
def readLexeme? : List Char → Option (Option Token × List Char)
  | [] => none
  | c :: rest =>
    if isPlainBlank c then some (none, rest)
    else if c = '/' ∧ rest.head? = some '/' then some (none, rest.dropWhile (· ≠ '\n'))
    else if c.isDigit then
      let (numeral, rest) := splitNumeral (c :: rest)
      some (some (.numeral (String.ofList numeral)), rest)
    else if isIdentifierChar c then
      some (some (.word (String.ofList (c :: rest.takeWhile isIdentifierChar))),
        rest.dropWhile isIdentifierChar)
    else if c = '\x27' then
      (readQuoted? rest).map fun (text, rest) => (some (.quoted (String.ofList text)), rest)
    else (readMark? (c :: rest)).map fun (mark, rest) => (some (.mark mark), rest)

/-- The tokens of a text. -/
def lex (text : List Char) : Option (List Token) :=
  if text = [] then some []
  else
    match readLexeme? text with
    | some (token, rest) =>
      if rest.length < text.length then (lex rest).map (token.toList ++ ·) else none
    | none => none
termination_by text.length

theorem lex_nil : lex [] = some [] := by
  rw [lex]
  rfl

theorem lex_of_lexeme {text rest : List Char} {token : Option Token}
    (found : readLexeme? text = some (token, rest)) (shorter : rest.length < text.length) :
    lex text = (lex rest).map (token.toList ++ ·) := by
  have filled : text ≠ [] := by
    rintro rfl
    simp at shorter
  rw [lex, if_neg filled, found]
  simp only [if_pos shorter]

/-- A text that ends any token before it: it starts with nothing that could belong to a word or to a
numeral. -/
def Apart (rest : List Char) : Prop :=
  (∀ c ∈ rest.head?, isIdentifierChar c = false) ∧ ∀ d later, rest = '.' :: d :: later → d.isDigit = false

/-- A code is cut into some tokens whatever follows it. -/
def Leads (code : List Char) (tokens : List Token) : Prop :=
  ∀ rest, lex (code ++ rest) = (lex rest).map (tokens ++ ·)

/-- A code is cut into some tokens when what follows it is apart. -/
def Spells (code : List Char) (tokens : List Token) : Prop :=
  ∀ rest, Apart rest → lex (code ++ rest) = (lex rest).map (tokens ++ ·)

variable {code other : List Char} {tokens others : List Token}

theorem apart_nil : Apart [] := by
  constructor
  · intro c headed
    simp at headed
  · intro d later shape
    simp at shape

theorem apart_of_head {c : Char} {rest : List Char} (foreign : isIdentifierChar c = false) (point : c ≠ '.') :
    Apart (c :: rest) := by
  constructor
  · intro d headed
    simp only [List.head?_cons, Option.mem_some_iff] at headed
    exact headed ▸ foreign
  · rintro d later shape
    exact absurd (List.cons.inj shape).1 point

theorem Spells.lex (spells : Spells code tokens) : lex code = some tokens := by
  have whole := spells [] apart_nil
  simpa [lex_nil] using whole

theorem Leads.spells (leads : Leads code tokens) : Spells code tokens := fun rest _ => leads rest

theorem leads_nil : Leads [] [] := by
  intro rest
  simp

theorem Leads.append (first : Leads code tokens) (second : Leads other others) :
    Leads (code ++ other) (tokens ++ others) := by
  intro rest
  rw [List.append_assoc, first, second, Option.map_map]
  simp [Function.comp_def]

theorem Leads.append_spells (first : Leads code tokens) (second : Spells other others) :
    Spells (code ++ other) (tokens ++ others) := by
  intro rest apart
  rw [List.append_assoc, first, second rest apart, Option.map_map]
  simp [Function.comp_def]

theorem Spells.append (first : Spells code tokens) (second : Spells other others)
    (between : ∀ rest, Apart rest → Apart (other ++ rest)) :
    Spells (code ++ other) (tokens ++ others) := by
  intro rest apart
  rw [List.append_assoc, first _ (between rest apart), second rest apart, Option.map_map]
  simp [Function.comp_def]

theorem Spells.append_leads (first : Spells code tokens) (second : Leads other others)
    (between : ∀ rest, Apart (other ++ rest)) : Leads (code ++ other) (tokens ++ others) := by
  intro rest
  rw [List.append_assoc, first _ (between rest), second rest, Option.map_map]
  simp [Function.comp_def]

/-- One character that is a mark whatever follows. -/
theorem leads_mark {c : Char} {mark : Mark}
    (shape : ∀ rest, readLexeme? (c :: rest) = some (some (.mark mark), rest)) :
    Leads [c] [.mark mark] := by
  intro rest
  rw [List.singleton_append, lex_of_lexeme (shape rest) (by simp)]
  rfl

theorem leads_blank : Leads [' '] [] := by
  intro rest
  have found : readLexeme? (' ' :: rest) = some (none, rest) := rfl
  rw [List.singleton_append, lex_of_lexeme found (by simp)]
  rfl

end BlockCompiler
