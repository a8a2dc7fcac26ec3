import BlockCompiler.Proofs.Syntax.Spelling
import BlockCompiler.Proofs.Syntax.Written
import BlockCompiler.Unicode.Word

/-!
Runs of word characters: they are cut into words and numerals, and a run that is an expression is one of
these.
-/

namespace BlockCompiler

/-- Whether a token is a word or a numeral. -/
def Token.isPlain : Token → Bool
  | .numeral _ | .word _ => true
  | _ => false

section Characters

variable {c : Char}

theorem toNat_of_isWordChar (inWord : isWordChar c) : 48 ≤ c.toNat := by
  by_contra small
  have none : ∀ n < 48, inRanges wordRanges n = false := by decide
  rw [isWordChar, none _ (by omega)] at inWord
  cases inWord

theorem isWordChar_of_isIdentifierChar (inName : isIdentifierChar c) : isWordChar c := by
  have letters : ∀ n < 123, (65 ≤ n ∧ n ≤ 90 ∨ 97 ≤ n ∧ n ≤ 122) ∨ (48 ≤ n ∧ n ≤ 57) →
      inRanges wordRanges n := by decide
  rcases isIdentifierChar_iff.mp inName with range | rfl
  · exact letters c.toNat (by omega) range
  · decide

theorem ne_of_isWordChar {d : Char} (inWord : isWordChar c) (foreign : isWordChar d = false) : c ≠ d := by
  rintro rfl
  rw [foreign] at inWord
  cases inWord

theorem not_isPlainBlank_of_isWordChar (inWord : isWordChar c) : isPlainBlank c = false := by
  have late := toNat_of_isWordChar inWord
  have space : c ≠ ' ' := ne_of_isWordChar inWord (by decide)
  have control : ¬ c.toNat ≤ 13 := by omega
  simp [isPlainBlank, space, control]

/-- Word characters are no marks. -/
theorem readMark?_of_isWordChar (inWord : isWordChar c) (rest : List Char) :
    readMark? (c :: rest) = none := by
  have foreign : ∀ d ∈ "+-*/<>=!&|?:,.()[]\x7b\x7d".toList, c ≠ d := by
    have none : ∀ d ∈ "+-*/<>=!&|?:,.()[]\x7b\x7d".toList, isWordChar d = false :=
      List.forall_iff_forall_mem.mp (by decide)
    exact fun d among => ne_of_isWordChar inWord (none d among)
  unfold readMark?
  split
  all_goals first | rfl | exact absurd (List.cons.inj ‹_ :: _ = _ :: _›).1 (foreign _ (by decide))

end Characters

section Runs

variable {c : Char} {run rest : List Char} {tokens : List Token}

theorem lex_of_none {text : List Char} (unread : readLexeme? text = none) (filled : text ≠ []) :
    lex text = none := by
  rw [lex, if_neg filled, unread]

/-- How a run of word characters goes on where it ends or a blank follows. -/
theorem head?_run (all : ∀ d ∈ run, isWordChar d) (ends : ∀ d ∈ rest.head?, d = ' ') :
    ∀ d ∈ (run ++ rest).head?, isWordChar d ∨ d = ' ' := by
  intro d headed
  cases run with
  | nil => exact .inr (ends d headed)
  | cons e run =>
    obtain rfl : e = d := by simpa using headed
    exact .inl (all e (List.mem_cons_self ..))

theorem splitFraction_run (all : ∀ d ∈ run, isWordChar d) (ends : ∀ d ∈ rest.head?, d = ' ') :
    splitFraction (run ++ rest) = ([], run ++ rest) := by
  have headed := head?_run all ends
  unfold splitFraction
  split
  · rename_i later shape
    rw [shape] at headed
    rcases headed '.' rfl with inWord | blank
    · cases inWord
    · cases blank
  · rfl

theorem splitExponent_run (all : ∀ d ∈ run, isWordChar d) (ends : ∀ d ∈ rest.head?, d = ' ') :
    splitExponent (run ++ rest) = ([], run ++ rest) := by
  unfold splitExponent
  split
  · rename_i sign later shape
    have unsigned : ¬ (sign = '-' ∨ sign = '+') := by
      cases run with
      | nil =>
        rw [List.nil_append] at shape
        cases ends 'e' (by rw [shape]; rfl)
      | cons e run =>
        rw [List.cons_append, List.cons.injEq] at shape
        have headed := head?_run (fun d inRun => all d (List.mem_cons_of_mem _ inRun)) ends sign
          (by rw [shape.2]; rfl)
        rintro (rfl | rfl) <;> rcases headed with inWord | blank
        · cases inWord
        · cases blank
        · cases inWord
        · cases blank
    simp only [if_neg unsigned, shape]
  · rfl

/-- What a test takes from a run ends in the run, if no blank passes the test. -/
theorem takeWhile_inside {p : Char → Bool} (all : ∀ d ∈ run, isWordChar d)
    (ends : ∀ d ∈ rest.head?, d = ' ') (space : p ' ' = false) :
    (run ++ rest).takeWhile p = run.takeWhile p ∧ (run ++ rest).dropWhile p = run.dropWhile p ++ rest ∧
      ∀ d ∈ run.dropWhile p, isWordChar d := by
  have stops : ∀ d ∈ (run.dropWhile p ++ rest).head?, p d = false := by
    intro d headed
    cases left : run.dropWhile p with
    | nil =>
      rw [left, List.nil_append] at headed
      rwa [ends d headed]
    | cons e later =>
      rw [left] at headed
      obtain rfl : e = d := by simpa using headed
      have first := List.head?_dropWhile_not p run
      rw [left] at first
      simpa using first
  have inside : ∀ d ∈ run.takeWhile p, p d :=
    fun d inFront => List.all_eq_true.mp List.all_takeWhile d inFront
  have split := takeWhile_run inside stops
  rw [← List.append_assoc, List.takeWhile_append_dropWhile] at split
  exact ⟨split.1, split.2, fun d left => all d ((List.dropWhile_sublist p).subset left)⟩

/-- The first token of a run is a word or a numeral, and the rest of the run is cut in its turn. -/
theorem exists_first_of_lex (all : ∀ d ∈ c :: run, isWordChar d) (ends : ∀ d ∈ rest.head?, d = ' ')
    (found : lex (c :: run ++ rest) = some tokens) :
    ∃ front back token later, c :: run = front ++ back ∧ front ≠ [] ∧
      tokens = token :: later ∧ lex (back ++ rest) = some later ∧ token.isPlain ∧
      (IsName front ∨ AreDigits front) := by
  obtain ⟨inWord, others⟩ := List.forall_mem_cons.mp all
  have blank := not_isPlainBlank_of_isWordChar inWord
  have slash : c ≠ '/' := ne_of_isWordChar inWord (by decide)
  have quote : c ≠ '\x27' := ne_of_isWordChar inWord (by decide)
  have proceeds : ∀ (token : Token) {front back : List Char}, run = front ++ back →
      readLexeme? (c :: run ++ rest) = some (some token, back ++ rest) → ∃ later, tokens = token :: later ∧
        lex (back ++ rest) = some later := by
    intro token front back shape lexeme
    have shorter : (back ++ rest).length < (c :: run ++ rest).length := by
      rw [shape]
      simp only [List.length_append, List.length_cons]
      omega
    rw [lex_of_lexeme lexeme shorter] at found
    obtain ⟨later, rest, same⟩ := Option.map_eq_some_iff.mp found
    exact ⟨later, same.symm, rest⟩
  by_cases digit : c.isDigit
  · obtain ⟨taken, dropped, left⟩ := takeWhile_inside others ends (show Char.isDigit ' ' = false by decide)
    have numeral : splitNumeral (c :: run ++ rest) =
        (c :: run.takeWhile Char.isDigit, run.dropWhile Char.isDigit ++ rest) := by
      simp only [splitNumeral, List.cons_append, List.takeWhile_cons_of_pos digit,
        List.dropWhile_cons_of_pos digit, taken, dropped,
        splitFraction_run left ends, splitExponent_run left ends, List.append_nil]
    obtain ⟨later, shape, rest⟩ := proceeds (.numeral (String.ofList (c :: run.takeWhile Char.isDigit)))
      (List.takeWhile_append_dropWhile (p := Char.isDigit)).symm (by
        rw [List.cons_append] at numeral ⊢
        simp only [readLexeme?, blank, slash, digit, numeral]
        simp)
    refine ⟨c :: run.takeWhile Char.isDigit, _, _, later, ?_,
      by simp, shape, rest, rfl, .inr ⟨by simp, List.forall_mem_cons.mpr ⟨digit, fun d inFront => ?_⟩⟩⟩
    · rw [List.cons_append, List.takeWhile_append_dropWhile]
    · exact List.all_eq_true.mp List.all_takeWhile d inFront
  · by_cases inName : isIdentifierChar c
    · obtain ⟨taken, dropped, left⟩ :=
        takeWhile_inside others ends (show isIdentifierChar ' ' = false by decide)
      obtain ⟨later, shape, rest⟩ := proceeds (.word (String.ofList (c :: run.takeWhile isIdentifierChar)))
        (List.takeWhile_append_dropWhile (p := isIdentifierChar)).symm (by
          rw [List.cons_append]
          simp only [readLexeme?, blank, slash, digit, inName, taken, dropped]
          simp)
      refine ⟨c :: run.takeWhile isIdentifierChar, _, _, later, ?_,
        by simp, shape, rest, rfl, .inl ⟨by simp, List.forall_mem_cons.mpr ⟨inName, fun d inFront => ?_⟩, ?_⟩⟩
      · rw [List.cons_append, List.takeWhile_append_dropWhile]
      · exact List.all_eq_true.mp List.all_takeWhile d inFront
      · simpa using digit
    · have none : readLexeme? (c :: run ++ rest) = none := by
        rw [List.cons_append]
        simp only [readLexeme?, blank, slash, digit, inName, quote, readMark?_of_isWordChar inWord]
        simp
      rw [lex_of_none none (by simp)] at found
      cases found

/-- A run of word characters is cut into words and numerals. If it is a single one, the run is a name or made
of digits. -/
theorem exists_tokens_of_lex (all : ∀ d ∈ run, isWordChar d) (ends : ∀ d ∈ rest.head?, d = ' ')
    (found : lex (run ++ rest) = some tokens) :
    ∃ first later, tokens = first ++ later ∧ lex rest = some later ∧
      (∀ token ∈ first, token.isPlain) ∧ (first = [] → run = []) ∧
      (first.length = 1 → IsName run ∨ AreDigits run) := by
  induction length : run.length using Nat.strong_induction_on generalizing run tokens with
  | _ size ih =>
    cases run with
    | nil => exact ⟨[], tokens, rfl, found, by simp, fun _ => rfl, by simp⟩
    | cons c run =>
      obtain ⟨front, back, token, later, shape, filled, rfl, left, plain, form⟩ :=
        exists_first_of_lex all ends found
      have smaller : back.length < size := by
        have positive := List.length_pos_iff.mpr filled
        rw [← length, shape, List.length_append]
        omega
      have allBack : ∀ d ∈ back, isWordChar d :=
        fun d inBack => all d (by rw [shape]; exact List.mem_append_right _ inBack)
      obtain ⟨first, last, rfl, here, each, none, _⟩ := ih back.length smaller allBack left rfl
      refine ⟨token :: first, last, rfl, here, List.forall_mem_cons.mpr ⟨plain, each⟩, by simp, fun one => ?_⟩
      obtain rfl : first = [] := by simpa using one
      rw [shape, none rfl, List.append_nil]
      exact form

/-- Words and numerals alone are an expression only one at a time. -/
theorem Written.length_of_plain {e : Expr} {level : Order} (written : Written e level tokens)
    (plain : ∀ token ∈ tokens, token.isPlain) :
    tokens.length = 1 := by
  have foreign : ∀ mark, ¬ Token.mark mark ∈ tokens := by
    intro mark among
    cases plain _ among
  cases written with
  | numeral | word | quoted => rfl
  | parenthesized => exact absurd (List.mem_cons_self ..) (foreign .opening)
  | list => exact absurd (List.mem_cons_self ..) (foreign .openBrace)
  | call => exact absurd (by simp) (foreign .opening)
  | index => exact absurd (by simp) (foreign .openSquare)
  | access => exact absurd (by simp) (foreign .dot)
  | negative => exact absurd (List.mem_cons_self ..) (foreign .minus)
  | negation => exact absurd (List.mem_cons_self ..) (foreign .not)
  | binary op => exact absurd (by simp) (foreign op.mark)
  | conditional => exact absurd (by simp) (foreign .question)

/-- An expression of word characters is a name, or made of digits. -/
theorem name_or_digits {e : Expr} {level : Order} (spells : Spells run tokens)
    (written : Written e level tokens) (all : ∀ d ∈ run, isWordChar d) : IsName run ∨ AreDigits run := by
  have found := spells.lex
  rw [← List.append_nil run] at found
  obtain ⟨first, later, rfl, last, plain, _, form⟩ := exists_tokens_of_lex all (by simp) found
  rw [lex_nil] at last
  cases last
  rw [List.append_nil] at written
  exact form (written.length_of_plain plain)

end Runs

end BlockCompiler
