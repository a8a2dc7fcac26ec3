import BlockCompiler.Emission.Template.Math
import BlockCompiler.Proofs.Number.Layout
import BlockCompiler.Proofs.Syntax.Spelling
import BlockCompiler.Proofs.Syntax.Written

/-!
Codes of expressions: what they are cut into, with what they start, and which of them are numerals.
-/

namespace BlockCompiler

/-- A code starts with something that is neither a blank nor an equals sign. -/
def Starts (code : String) : Prop := ∃ c rest, code.toList = c :: rest ∧ isBlank c = false ∧ c ≠ '='

/-- A code has no line feed in it. -/
def OneLine (code : String) : Prop := '\n' ∉ code.toList

instance (code : String) : Decidable (OneLine code) := inferInstanceAs (Decidable (¬ '\n' ∈ code.toList))

@[simp] theorem oneLine_append {code other : String} :
    OneLine (code ++ other) ↔ OneLine code ∧ OneLine other := by
  simp [OneLine]

theorem oneLine_joinTexts {separator : String} {codes : List String} (between : OneLine separator)
    (each : ∀ code ∈ codes, OneLine code) : OneLine (joinTexts separator codes) := by
  induction codes with
  | nil => simp [joinTexts, OneLine]
  | cons code rest ih =>
    obtain ⟨first, others⟩ := List.forall_mem_cons.mp each
    cases rest with
    | nil => simpa [joinTexts] using first
    | cons next rest =>
      rw [joinTexts, String.intercalate_cons_cons, oneLine_append, oneLine_append]
      exact ⟨⟨first, between⟩, ih others⟩

/-- A code is written for an expression, up to association, and is an expression of an order. It is on one
line. -/
structure Writes (code : String) (order : Order) (e : Expr) : Prop where
  written : ∃ f level tokens, Spells code.toList tokens ∧ Written f level tokens ∧ level ≤ order ∧ f.Alike e
  start : Starts code
  oneLine : OneLine code

/-- A code that is a numeral is that of the literal that an expression is, which is a plain one. -/
def Literally (tight : Prop) (code : String) (e : Expr) : Prop :=
  isNumeral code → ∃ minus text, e.literal? = some (minus, text) ∧ code = signText minus ++ text ∧
    PlainNumeral tight text

/-- The code of an expression that is a literal has nothing around the literal, and is of its order. -/
def Exact (code : String) (order : Order) (e : Expr) : Prop :=
  ∀ minus text, e.literal? = some (minus, text) → code = signText minus ++ text ∧ order = e.level ∧
    ∃ c ∈ text.toList.head?, c.isDigit

/-- A character that stands in no numeral, except a minus at its head. -/
def IsForeign (c : Char) : Prop := isBlank c = false ∧ isDigit c = false ∧ c ≠ '.'

section Fits

variable {outer inner : Order}

theorem le_of_fits (fits : outer.needsParens inner = false) : inner ≤ outer := by
  by_contra looser
  have le : outer ≤ inner := Nat.le_of_lt (Nat.lt_of_not_le looser)
  have differs : outer ≠ inner := by
    rintro rfl
    exact looser (Nat.le_refl _)
  simp [Order.needsParens, le, differs] at fits

theorem lt_of_fits (fits : outer.needsParens inner = false) (unchained : outer.chains = false) :
    inner < outer := by
  by_contra looser
  have le : outer ≤ inner := Nat.le_of_not_lt looser
  simp [Order.needsParens, le, unchained] at fits

/-- What binds tighter than what fits does, too. -/
theorem fits_of_le {tighter : Order} (le : tighter ≤ inner) (fits : outer.needsParens inner = false) :
    outer.needsParens tighter = false := by
  rcases Nat.eq_or_lt_of_le le with same | lt
  · rwa [Order.rank_injective same]
  · have apart : ¬ outer ≤ tighter := Nat.not_le_of_lt (Nat.lt_of_lt_of_le lt (le_of_fits fits))
    simp [Order.needsParens, apart]

theorem fits_atomic (outer : Order) : outer.needsParens .atomic = false := by cases outer <;> decide

end Fits

section Starts

variable {code more : String}

theorem Starts.append (starts : Starts code) (more : String) : Starts (code ++ more) := by
  obtain ⟨c, rest, shape, filled, differs⟩ := starts
  exact ⟨c, rest ++ more.toList, by rw [String.toList_append, shape, List.cons_append], filled, differs⟩

theorem starts_digit {c : Char} {rest : List Char} (shape : code.toList = c :: rest) (digit : c.isDigit) :
    Starts code := by
  obtain ⟨low, high⟩ := toNat_of_isDigit digit
  refine ⟨c, rest, shape, not_isBlank_of_range (by omega) (by omega), ?_⟩
  rintro rfl
  cases digit

theorem toNat_le_of_isIdentifierChar {c : Char} (inName : isIdentifierChar c) : c.toNat ≤ 126 := by
  rcases isIdentifierChar_iff.mp inName with range | rfl
  · omega
  · decide

theorem not_isBlank_of_isIdentifierChar {c : Char} (inName : isIdentifierChar c) : isBlank c = false := by
  have low := toNat_of_isIdentifierChar inName
  exact not_isBlank_of_range (by omega) (toNat_le_of_isIdentifierChar inName)

theorem starts_word (isName : IsName code.toList) : Starts code := by
  obtain ⟨filled, all, _⟩ := isName
  cases shape : code.toList with
  | nil => exact absurd shape filled
  | cons c rest =>
    have first := all c (by simp [shape])
    exact ⟨c, rest, shape, not_isBlank_of_isIdentifierChar first, ne_of_isIdentifierChar first (by decide)⟩

/-- A code with a foreign character behind its first is no numeral. -/
theorem Starts.not_isNumeral (starts : Starts code) {c : Char} (among : c ∈ code.toList.tail)
    (foreign : IsForeign c) :
    isNumeral code = false := by
  obtain ⟨first, rest, shape, filled, _⟩ := starts
  by_contra numeral
  have chars := (isNumeral_tail (by simpa using numeral) shape filled).2 c (by simpa [shape] using among)
  obtain ⟨blank, digit, point⟩ := foreign
  rcases chars with isBlank | isDigit | same
  · rw [blank] at isBlank
    cases isBlank
  · rw [digit] at isDigit
    cases isDigit
  · exact point same

/-- What follows a code makes it no numeral if it holds a foreign character. -/
theorem Starts.not_isNumeral_append (starts : Starts code) {c : Char} (among : c ∈ more.toList)
    (foreign : IsForeign c) :
    isNumeral (code ++ more) = false := by
  refine (starts.append more).not_isNumeral ?_ foreign
  obtain ⟨first, rest, shape, _⟩ := starts
  rw [String.toList_append, shape, List.cons_append, List.tail_cons]
  exact List.mem_append_right _ among

/-- A code that starts with a character that starts no numeral is none. -/
theorem not_isNumeral_of_head {c : Char} {rest : List Char} (shape : code.toList = c :: rest)
    (foreign : IsForeign c) (minus : c ≠ '-') : isNumeral code = false := by
  by_contra numeral
  obtain ⟨blank, digit, _⟩ := foreign
  rcases (isNumeral_tail (by simpa using numeral) shape blank).1 with isDigit | same
  · rw [digit] at isDigit
    cases isDigit
  · exact minus same

end Starts

theorem literally_of_not_isNumeral {tight : Prop} {code : String} {e : Expr} (none : isNumeral code = false) :
    Literally tight code e := by
  intro numeral
  rw [none] at numeral
  cases numeral

theorem exact_of_no_literal {code : String} {order : Order} {e : Expr} (none : e.literal? = none) :
    Exact code order e := by
  intro minus text literal
  rw [none] at literal
  cases literal

end BlockCompiler
