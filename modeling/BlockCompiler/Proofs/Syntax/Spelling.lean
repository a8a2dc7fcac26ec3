import BlockCompiler.Proofs.Name.Words
import BlockCompiler.Proofs.Syntax.Token
import BlockCompiler.Text.Literal
import BlockCompiler.Text.Lines
import Mathlib.Data.List.TakeWhile

/-!
How words, numerals, texts in quotes, comments and marks are cut into tokens.
-/

namespace BlockCompiler

section Characters

variable {c : Char}

theorem toNat_of_isIdentifierChar (inName : isIdentifierChar c) : 48 ≤ c.toNat := by
  rcases isIdentifierChar_iff.mp inName with range | rfl
  · omega
  · decide

theorem not_isPlainBlank_of_isIdentifierChar (inName : isIdentifierChar c) : isPlainBlank c = false := by
  have late := toNat_of_isIdentifierChar inName
  have space : c ≠ ' ' := by
    rintro rfl
    exact absurd late (by decide)
  have control : ¬ c.toNat ≤ 13 := by omega
  simp [isPlainBlank, space, control]

theorem ne_of_isIdentifierChar {d : Char} (inName : isIdentifierChar c)
    (foreign : isIdentifierChar d = false) :
    c ≠ d := by
  rintro rfl
  rw [foreign] at inName
  cases inName

end Characters

theorem takeWhile_run {p : Char → Bool} {run rest : List Char} (all : ∀ c ∈ run, p c)
    (ends : ∀ c ∈ rest.head?, p c = false) :
    (run ++ rest).takeWhile p = run ∧ (run ++ rest).dropWhile p = rest := by
  have stop : rest.takeWhile p = [] ∧ rest.dropWhile p = rest := by
    cases rest with
    | nil => simp
    | cons c later => simp [ends c rfl]
  rw [List.takeWhile_append_of_pos all, List.dropWhile_append_of_pos all, stop.1, stop.2, List.append_nil]
  exact ⟨rfl, rfl⟩

theorem Apart.ends {rest : List Char} (apart : Apart rest) : ∀ c ∈ rest.head?, c.isDigit = false := by
  intro c headed
  by_contra digit
  have inName := isIdentifierChar_of_isDigit (by simpa using digit)
  rw [apart.1 c headed] at inName
  cases inName

/-- A word is one token. -/
theorem spells_word {name : String} (isName : IsName name.toList) : Spells name.toList [.word name] := by
  intro rest apart
  obtain ⟨filled, all, plain⟩ := isName
  cases shape : name.toList with
  | nil => exact absurd shape filled
  | cons c word =>
    rw [shape] at all plain
    have first := all c (by simp)
    obtain ⟨taken, dropped⟩ := takeWhile_run (fun d inWord => all d (List.mem_cons_of_mem c inWord)) apart.1
    have found : readLexeme? (c :: (word ++ rest)) = some (some (.word name), rest) := by
      have slash : c ≠ '/' := ne_of_isIdentifierChar first (by decide)
      simp only [readLexeme?, not_isPlainBlank_of_isIdentifierChar first, slash, plain c rfl, first,
        taken, dropped]
      simp only [← shape, String.ofList_toList]
      rfl
    rw [List.cons_append, lex_of_lexeme found (by simp only [List.length_append, List.length_cons]; omega)]
    rfl

theorem splitFraction_point {digits rest : List Char} (areDigits : AreDigits digits)
    (ends : ∀ c ∈ rest.head?, c.isDigit = false) :
    splitFraction ('.' :: (digits ++ rest)) = ('.' :: digits, rest) := by
  obtain ⟨taken, dropped⟩ := takeWhile_run areDigits.2 ends
  cases digits with
  | nil => exact absurd rfl areDigits.1
  | cons d digits => simp only [splitFraction, taken, dropped]

theorem splitFraction_apart {rest : List Char} (apart : Apart rest) : splitFraction rest = ([], rest) := by
  unfold splitFraction
  split
  · rename_i later
    have none : later.takeWhile Char.isDigit = [] := by
      cases later with
      | nil => rfl
      | cons d later => simp [apart.2 d later rfl]
    rw [none]
  · rfl

theorem splitExponent_letter {sign : Char} {digits rest : List Char} (signed : sign = '-' ∨ sign = '+')
    (areDigits : AreDigits digits) (ends : ∀ c ∈ rest.head?, c.isDigit = false) :
    splitExponent ('e' :: sign :: (digits ++ rest)) = ('e' :: sign :: digits, rest) := by
  obtain ⟨taken, dropped⟩ := takeWhile_run areDigits.2 ends
  cases digits with
  | nil => exact absurd rfl areDigits.1
  | cons d digits => simp only [splitExponent, if_pos signed, taken, dropped]

theorem splitExponent_apart {rest : List Char} (apart : Apart rest) : splitExponent rest = ([], rest) := by
  unfold splitExponent
  split
  · exact absurd (apart.1 'e' rfl) (by decide)
  · rfl

/-- A numeral is one token. -/
theorem spells_numeral {text : String} (isNumeral : IsNumeralText text.toList) :
    Spells text.toList [.numeral text] := by
  intro rest apart
  obtain ⟨whole, fraction, exponent, shape, wholeDigits, fractionForm, exponentForm⟩ := isNumeral.parts
  have letter : ∀ later : List Char, ∀ c ∈ ('e' :: later).head?, c.isDigit = false := by
    rintro later c headed
    cases headed
    rfl
  have fromExponent : splitExponent (exponent ++ rest) = (exponent, rest) := by
    rcases exponentForm with rfl | ⟨sign, digits, rfl, signed, areDigits⟩
    · exact splitExponent_apart apart
    · exact splitExponent_letter signed areDigits apart.ends
  have endsExponent : ∀ c ∈ (exponent ++ rest).head?, c.isDigit = false := by
    rcases exponentForm with rfl | ⟨sign, digits, rfl, _, _⟩
    · exact apart.ends
    · exact letter _
  have fromFraction : splitFraction (fraction ++ (exponent ++ rest)) = (fraction, exponent ++ rest) := by
    rcases fractionForm with rfl | ⟨digits, rfl, areDigits⟩
    · rcases exponentForm with rfl | ⟨sign, digits, rfl, _, _⟩
      · exact splitFraction_apart apart
      · rfl
    · exact splitFraction_point areDigits endsExponent
  have endsFraction : ∀ c ∈ (fraction ++ (exponent ++ rest)).head?, c.isDigit = false := by
    rcases fractionForm with rfl | ⟨digits, rfl, areDigits⟩
    · exact endsExponent
    · rintro c headed
      cases headed
      rfl
  obtain ⟨taken, dropped⟩ := takeWhile_run wholeDigits.2 endsFraction
  have split : splitNumeral (text.toList ++ rest) = (text.toList, rest) := by
    rw [shape, List.append_assoc, List.append_assoc]
    simp only [splitNumeral, taken, dropped, fromFraction, fromExponent, List.append_assoc]
  cases wholeShape : whole with
  | nil => exact absurd wholeShape wholeDigits.1
  | cons c later =>
    have digit : c.isDigit := wholeDigits.2 c (by simp [wholeShape])
    have first := isIdentifierChar_of_isDigit digit
    have slash : c ≠ '/' := ne_of_isIdentifierChar first (by decide)
    have headed : text.toList ++ rest = c :: (later ++ (fraction ++ exponent) ++ rest) := by
      rw [shape, wholeShape]
      simp
    have found : readLexeme? (text.toList ++ rest) = some (some (.numeral text), rest) := by
      rw [headed] at split ⊢
      simp only [readLexeme?, not_isPlainBlank_of_isIdentifierChar first, slash, digit, split]
      simp
    have filled : 0 < text.toList.length := by
      rw [shape, wholeShape]
      simp
    rw [lex_of_lexeme found (by simp only [List.length_append]; omega)]
    rfl

theorem readQuoted?_literal (text rest : List Char) :
    readQuoted? (text.flatMap literalChar ++ '\x27' :: rest) = some (text, rest) := by
  induction text with
  | nil => simp [readQuoted?]
  | cons c text ih =>
    rw [List.flatMap_cons, List.append_assoc]
    generalize text.flatMap literalChar ++ '\x27' :: rest = later at ih ⊢
    unfold literalChar
    split_ifs with backslash feed dollar quote
    · simp [readQuoted?, ih, unescaped, backslash]
    · simp [readQuoted?, ih, unescaped, feed]
    · simp [readQuoted?, ih, unescaped, dollar]
    · simp [readQuoted?, ih, unescaped, quote]
    · simp [readQuoted?, ih, backslash, quote]

/-- A literal is read up to its last quote, whatever stands behind it. -/
theorem readLexeme?_literal (text : String) (rest : List Char) :
    readLexeme? ((literal text).toList ++ rest) = some (some (.quoted text), rest) := by
  have shape : (literal text).toList ++ rest =
      '\x27' :: (text.toList.flatMap literalChar ++ '\x27' :: rest) := by
    simp [literal]
  rw [shape]
  simp only [readLexeme?, readQuoted?_literal, Option.map_some, String.ofList_toList]
  rfl

/-- A literal is one token, whatever follows it. -/
theorem leads_literal (text : String) : Leads (literal text).toList [.quoted text] := by
  intro rest
  rw [lex_of_lexeme (readLexeme?_literal text rest) (by simp [literal]; omega)]
  rfl

/-- A comment is no token. -/
theorem leads_comment {text : List Char} (oneLine : '\n' ∉ text) :
    Leads ('/' :: '/' :: (text ++ ['\n'])) [] := by
  intro rest
  have dropped : ('/' :: (text ++ '\n' :: rest)).dropWhile (· ≠ '\n') = '\n' :: rest := by
    rw [List.dropWhile_cons, if_pos (by decide),
      List.dropWhile_append_of_pos fun c inText => by simpa using ne_of_mem_of_not_mem inText oneLine]
    simp
  have first : readLexeme? ('/' :: '/' :: (text ++ '\n' :: rest)) = some (none, '\n' :: rest) := by
    simp only [readLexeme?, dropped]
    rfl
  have second : readLexeme? ('\n' :: rest) = some (none, rest) := rfl
  have shape : '/' :: '/' :: (text ++ ['\n']) ++ rest = '/' :: '/' :: (text ++ '\n' :: rest) := by simp
  rw [shape, lex_of_lexeme first (by simp; omega), lex_of_lexeme second (by simp)]
  simp

end BlockCompiler
