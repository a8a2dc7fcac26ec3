import BlockCompiler.Proofs.Emission.Generated
import BlockCompiler.Proofs.Emission.Numerals
import BlockCompiler.Proofs.Text.Brackets

/-!
Neat codes: those of one line that close what they open, and that start as an expression does.
-/

namespace BlockCompiler

/-- A code on one line that closes what it opens. -/
structure Whole (code : String) : Prop where
  oneLine : OneLine code
  balanced : Balanced code.toList

/-- A character that is no part of a word and does not open a parenthesis. -/
def IsApart (c : Char) : Prop := isIdentifierChar c = false ∧ c ≠ '('

/-- A code that may stand behind any other: it goes on with no word, nor does it put a blank before another
word or before a parenthesis. -/
def Follows (code : List Char) : Prop :=
  (∀ c ∈ code.head?, isIdentifierChar c = false) ∧ ∀ later, code = ' ' :: later → ∃ c ∈ later.head?, IsApart c

/-- Signs that an expression may start with. -/
def openingSigns : List Char := ['\x27', '(', '\x7b', '-', '!']

/-- A code that starts with a word or with a sign that expressions start with. Behind the word there is no
blank with another word or with a parenthesis behind it. -/
def Opens (code : List Char) : Prop :=
  (∃ c ∈ code.head?, isIdentifierChar c ∨ c ∈ openingSigns) ∧
    ∀ word later, (∀ c ∈ word, isIdentifierChar c) → code = word ++ ' ' :: later →
      ∃ c ∈ later.head?, IsApart c

/-- A code on one line that closes what it opens and starts as an expression does. -/
structure Neat (code : String) : Prop extends Whole code where
  opens : Opens code.toList

section Whole

variable {code more : String}

theorem Whole.append (first : Whole code) (second : Whole more) : Whole (code ++ more) :=
  ⟨oneLine_append.mpr ⟨first.oneLine, second.oneLine⟩,
    by rw [String.toList_append]; exact first.balanced.append second.balanced⟩

/-- Whether a character is a line feed, a bracket or a quote. -/
def isSpecial (c : Char) : Bool := "\n\x27()[]\x7b\x7d".toList.contains c

/-- A code without line feeds, brackets and quotes. -/
theorem whole_of_plain (plain : ∀ c ∈ code.toList, isSpecial c = false) : Whole code := by
  have differs : ∀ c ∈ code.toList, c ∉ "\n\x27()[]\x7b\x7d".toList := by
    intro c member among
    have special := plain c member
    rw [isSpecial, List.contains_iff_mem.mpr among] at special
    cases special
  have within : ∀ c, isBracket c ∨ c = '\x27' ∨ c = '\n' → c ∈ "\n\x27()[]\x7b\x7d".toList := by
    simp only [isBracket, List.contains_iff_mem]
    simp
    tauto
  refine ⟨fun feed => differs _ feed (by decide), balanced_of_plain fun c member => ⟨?_, fun quote => ?_⟩⟩
  · by_contra bracket
    exact differs c member (within c (.inl (by simpa using bracket)))
  · exact differs c member (within c (.inr (.inl quote)))

theorem whole_empty : Whole "" := whole_of_plain (by simp)

theorem isSpecial_of_isIdentifierChar {c : Char} (inName : isIdentifierChar c) : isSpecial c = false := by
  by_contra special
  rw [Bool.not_eq_false, isSpecial, List.contains_iff_mem] at special
  have outside : ∀ d ∈ "\n\x27()[]\x7b\x7d".toList, isIdentifierChar d = false := by decide
  rw [outside c special] at inName
  cases inName

theorem whole_word (isName : IsName code.toList) : Whole code :=
  whole_of_plain fun c member => isSpecial_of_isIdentifierChar (isName.2.1 c member)

theorem Whole.enclosed (whole : Whole code) (opener closer : String)
    (pair : (opener, closer) ∈ [("(", ")"), ("[", "]"), ("\x7b", "\x7d")]) :
    Whole (opener ++ code ++ closer) := by
  simp only [List.mem_cons, Prod.mk.injEq, List.not_mem_nil, or_false] at pair
  have inner := whole.balanced
  have oneLine := whole.oneLine
  rcases pair with ⟨rfl, rfl⟩ | ⟨rfl, rfl⟩ | ⟨rfl, rfl⟩
  · exact ⟨oneLine_append.mpr ⟨oneLine_append.mpr ⟨by decide, oneLine⟩, by decide⟩, by
      simpa using inner.enclosed '(' ')' (by simp)⟩
  · exact ⟨oneLine_append.mpr ⟨oneLine_append.mpr ⟨by decide, oneLine⟩, by decide⟩, by
      simpa using inner.enclosed '[' ']' (by simp)⟩
  · exact ⟨oneLine_append.mpr ⟨oneLine_append.mpr ⟨by decide, oneLine⟩, by decide⟩, by
      simpa using inner.enclosed '\x7b' '\x7d' (by simp)⟩

theorem whole_joinTexts {separator : String} {codes : List String} (between : Whole separator)
    (each : ∀ code ∈ codes, Whole code) :
    Whole (joinTexts separator codes) := by
  induction codes with
  | nil => exact whole_of_plain (by simp [joinTexts])
  | cons code rest ih =>
    obtain ⟨first, others⟩ := List.forall_mem_cons.mp each
    cases rest with
    | nil => simpa [joinTexts] using first
    | cons next rest =>
      rw [joinTexts, String.intercalate_cons_cons]
      exact (first.append between).append (ih others)

theorem whole_literal (text : String) : Whole (literal text) := ⟨oneLine_literal text, balanced_literal text⟩

theorem whole_numeral (form : IsNumeralText code.toList) : Whole code := by
  refine whole_of_plain fun c member => ?_
  obtain ⟨whole, fraction, exponent, shape, wholeDigits, fractionForm, exponentForm⟩ := form.parts
  have digits : ∀ {text : List Char}, AreDigits text → c ∈ text → c.isDigit := fun areDigits => areDigits.2 c
  have chars : c.isDigit ∨ c ∈ ['.', 'e', '-', '+'] := by
    rw [shape, List.mem_append, List.mem_append] at member
    rcases member with here | here | here
    · exact .inl (digits wholeDigits here)
    · rcases fractionForm with rfl | ⟨behind, rfl, areDigits⟩
      · cases here
      · rcases List.mem_cons.mp here with rfl | later
        · exact .inr (by decide)
        · exact .inl (digits areDigits later)
    · rcases exponentForm with rfl | ⟨sign, behind, rfl, signs, areDigits⟩
      · cases here
      · rcases List.mem_cons.mp here with rfl | later
        · exact .inr (by decide)
        · rcases List.mem_cons.mp later with rfl | last
          · rcases signs with rfl | rfl <;> exact .inr (by decide)
          · exact .inl (digits areDigits last)
  rcases chars with digit | sign
  · exact isSpecial_of_isIdentifierChar (isIdentifierChar_of_isDigit digit)
  · have signs : ∀ c ∈ ['.', 'e', '-', '+'], isSpecial c = false := by decide
    exact signs c sign

end Whole

section Opens

variable {code more : List Char} {c d : Char}

theorem follows_cons (foreign : isIdentifierChar c = false) (filled : c ≠ ' ') : Follows (c :: more) := by
  refine ⟨by simpa using foreign, ?_⟩
  rintro later same
  exact absurd (List.cons.inj same).1 filled

theorem follows_blank (apart : IsApart c) : Follows (' ' :: c :: more) := by
  refine ⟨by simp; decide, ?_⟩
  rintro later same
  cases same
  exact ⟨c, rfl, apart⟩

theorem opens_sign (sign : c ∈ openingSigns) : Opens (c :: more) := by
  refine ⟨⟨c, rfl, .inr sign⟩, ?_⟩
  rintro word later inWord same
  have facts : ∀ c ∈ openingSigns, c ≠ ' ' ∧ isIdentifierChar c = false := by decide
  obtain ⟨filled, foreign⟩ := facts c sign
  cases word with
  | nil => exact absurd (List.cons.inj same).1 filled
  | cons x word =>
    obtain rfl : c = x := (List.cons.inj same).1
    rw [inWord c (List.mem_cons_self ..)] at foreign
    cases foreign

/-- A code without blanks that starts with a word. -/
theorem opens_word {first : Char} (headed : code.head? = some first) (inWord : isIdentifierChar first)
    (unbroken : ' ' ∉ code) :
    Opens code := by
  refine ⟨⟨first, headed, .inl inWord⟩, ?_⟩
  rintro word later _ rfl
  simp at unbroken

/-- What follows a code changes nothing about its start. -/
theorem Opens.append (opens : Opens code) (follows : Follows more) : Opens (code ++ more) := by
  obtain ⟨⟨c, headed, first⟩, alone⟩ := opens
  have filled : code ≠ [] := by
    rintro rfl
    cases headed
  refine ⟨⟨c, by rw [List.head?_append_of_ne_nil _ filled]; exact headed, first⟩, ?_⟩
  rintro word later inWord same
  rcases List.append_eq_append_iff.mp same with ⟨rest, rfl, back⟩ | ⟨rest, front, back⟩
  · -- The word reaches up to the end of the code or beyond it.
    cases rest with
    | nil => exact follows.2 later back
    | cons x rest =>
      have inside := inWord x (by simp)
      rw [follows.1 x (by rw [back]; rfl)] at inside
      cases inside
  · cases rest with
    | nil => exact follows.2 later back.symm
    | cons x rest =>
      obtain rfl : ' ' = x := (List.cons.inj back).1
      have behind : later = rest ++ more := (List.cons.inj back).2
      obtain ⟨e, headedThere, apart⟩ := alone word rest inWord front
      refine ⟨e, ?_, apart⟩
      rw [behind, List.head?_append_of_ne_nil]
      · exact headedThere
      · rintro rfl
        cases headedThere

end Opens

section Neat

variable {code more : String}

theorem neat_word (isName : IsName code.toList) : Neat code := by
  refine ⟨whole_word isName, ?_⟩
  obtain ⟨filled, inWord, _⟩ := isName
  cases shape : code.toList with
  | nil => exact absurd shape filled
  | cons c rest =>
    rw [shape] at inWord
    refine opens_word rfl (inWord c (List.mem_cons_self ..)) fun blank => ?_
    cases inWord ' ' blank

theorem neat_literal (text : String) : Neat (literal text) :=
  ⟨whole_literal text, by rw [literal, String.toList_ofList]; exact opens_sign (by decide)⟩

/-- A literal number. -/
theorem neat_signed (minus : Bool) (form : IsNumeralText code.toList) : Neat (signText minus ++ code) := by
  cases minus with
  | true =>
    refine ⟨(whole_of_plain (by decide)).append (whole_numeral form), ?_⟩
    rw [String.toList_append]
    exact opens_sign (by decide)
  | false =>
    rw [show signText false = "" from rfl, String.empty_append]
    refine ⟨whole_numeral form, ?_⟩
    obtain ⟨c, rest, shape, digit⟩ := digit_of_isNumeralText form
    refine opens_word (by simp [shape]) (isIdentifierChar_of_isDigit digit) fun blank => ?_
    obtain ⟨whole, fraction, exponent, parts, wholeDigits, fractionForm, exponentForm⟩ := form.parts
    have digits : ∀ {text : List Char}, AreDigits text → ' ' ∉ text := fun areDigits member => by
      cases areDigits.2 _ member
    rw [parts, List.mem_append, List.mem_append] at blank
    rcases blank with here | here | here
    · exact digits wholeDigits here
    · rcases fractionForm with rfl | ⟨behind, rfl, areDigits⟩
      · cases here
      · exact digits areDigits (by simpa using here)
    · rcases exponentForm with rfl | ⟨sign, behind, rfl, rfl | rfl, areDigits⟩
      · cases here
      · exact digits areDigits (by simpa using here)
      · exact digits areDigits (by simpa using here)

theorem neat_int (value : Int) : Neat (toString value) := by
  rw [toString_int]
  exact neat_signed _ (isNumeralText_toString _)

theorem neat_zero : Neat "0" := neat_int 0

/-- A number that is not whole is shown as a literal. -/
theorem neat_broken {negative : Bool} {mantissa : Nat} {exponent : Int}
    (broken : (Binary64.finite negative mantissa exponent).isWhole = false) :
    Neat (Binary64.finite negative mantissa exponent).text := by
  obtain ⟨digits, power, shown⟩ := Binary64.text_finite (Binary64.mantissa_ne_zero broken) exponent
  rw [shown]
  exact neat_signed negative (Binary64.isNumeralText_layout digits power)

/-- A code that follows another. -/
theorem Neat.append (neat : Neat code) (whole : Whole more) (follows : Follows more.toList) :
    Neat (code ++ more) :=
  ⟨neat.toWhole.append whole, by rw [String.toList_append]; exact neat.opens.append follows⟩

/-- A code behind a sign. -/
theorem Whole.signed (whole : Whole code) (lead : String) (among : lead ∈ ["-", "- ", "!"]) :
    Neat (lead ++ code) := by
  simp only [List.mem_cons, List.not_mem_nil, or_false] at among
  rcases among with rfl | rfl | rfl
  all_goals exact ⟨(whole_of_plain (by decide)).append whole,
    by rw [String.toList_append]; exact opens_sign (by decide)⟩

theorem Whole.parenthesized (whole : Whole code) : Neat (parenthesized code) := by
  refine ⟨whole.enclosed "(" ")" (by simp), ?_⟩
  rw [BlockCompiler.parenthesized, String.append_assoc, String.toList_append]
  exact opens_sign (by decide)

theorem Whole.listed (whole : Whole code) : Neat ("\x7b" ++ code ++ "\x7d") := by
  refine ⟨whole.enclosed "\x7b" "\x7d" (by simp), ?_⟩
  rw [String.append_assoc, String.toList_append]
  exact opens_sign (by decide)

/-- A code with parentheses or square brackets behind it. -/
theorem Neat.applied (neat : Neat code) (whole : Whole more) (opener closer : String)
    (pair : (opener, closer) ∈ [("(", ")"), ("[", "]")]) : Neat (code ++ (opener ++ more ++ closer)) := by
  refine neat.append (whole.enclosed opener closer (by revert pair; simp; tauto)) ?_
  simp only [List.mem_cons, Prod.mk.injEq, List.not_mem_nil, or_false] at pair
  rcases pair with ⟨rfl, rfl⟩ | ⟨rfl, rfl⟩
  all_goals
    rw [String.append_assoc, String.toList_append]
    exact follows_cons (by decide) (by decide)

end Neat

end BlockCompiler
