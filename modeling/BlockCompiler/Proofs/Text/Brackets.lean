import BlockCompiler.Proofs.Text.Firm
import BlockCompiler.Text.Literal

/-!
Brackets and indentation: which brackets of a code are open behind its lines, and how far in a line starts for
the braces that are open before it. What stands in quotes or in comments does not count.
-/

namespace BlockCompiler

/-- The brackets that open something, by those that close it. -/
def openerOf? : Char → Option Char
  | ')' => some '('
  | ']' => some '['
  | '\x7d' => some '\x7b'
  | _ => none

/-- Whether a character is a bracket. -/
def isBracket (c : Char) : Bool := "()[]\x7b\x7d".toList.contains c

section Letters

variable (p : Char → Prop) [DecidablePred p]

/-- What holds for the characters of a text is told by them one by one, not by all characters there are. -/
instance decidableForallLetter (text : List Char) : Decidable (∀ c ∈ text, p c) := text.decidableBAll p

instance decidableForallLetter? (letter : Option Char) : Decidable (∀ c ∈ letter, p c) :=
  Option.decidableForallMem letter

instance decidableExistsLetter? (letter : Option Char) : Decidable (∃ c ∈ letter, p c) :=
  Option.decidableExistsMem letter

end Letters

/-- The brackets of a code that are not in quotes, given whether the code starts in quotes. There is no answer
if it ends in quotes. -/
def bracketsFrom : (quoted : Bool) → List Char → Option (List Char)
  | true, [] => none
  | false, [] => some []
  | true, '\\' :: _ :: rest => bracketsFrom true rest
  | true, c :: rest => bracketsFrom (c ≠ '\x27') rest
  | false, c :: rest =>
    if c = '\x27' then bracketsFrom true rest
    else if isBracket c then (bracketsFrom false rest).map (c :: ·)
    else bracketsFrom false rest

/-- The brackets that are open behind some more, the last first, if each that closes meets its own. -/
def closeBrackets : (pending : List Char) → List Char → Option (List Char)
  | pending, [] => some pending
  | pending, c :: rest =>
    match openerOf? c with
    | none => closeBrackets (c :: pending) rest
    | some opener =>
      match pending with
      | [] => none
      | last :: pending => if last = opener then closeBrackets pending rest else none

/-- The brackets of a line. A comment has none. -/
def lineBrackets? (line : List Char) : Option (List Char) :=
  if isCommentLine line then some [] else bracketsFrom false line

/-- The spaces that a line is to start with: two for each brace that is open before it, or for one brace fewer
if the line starts with a brace that closes. -/
def properIndent (pending line : List Char) : Nat :=
  2 * (pending.count '\x7b' - if (line.dropWhile (· = ' ')).head? = some '\x7d' then 1 else 0)

/-- The brackets that are open behind some lines, if those on the lines nest and every line that is not blank
starts with its proper indentation. -/
def openAfter : (pending : List Char) → List (List Char) → Option (List Char)
  | pending, [] => some pending
  | pending, line :: rest =>
    if isSolid line then
      if (line.takeWhile (· = ' ')).length = properIndent pending line then
        ((lineBrackets? line).bind (closeBrackets pending)).bind (openAfter · rest)
      else none
    else openAfter pending rest

section Brackets

variable {code more : List Char} {found others pending later : List Char} {a b c : Nat}

theorem bracketsFrom_append {quoted : Bool} (brackets : bracketsFrom quoted code = some found)
    (more : List Char) :
    bracketsFrom quoted (code ++ more) = (bracketsFrom false more).map (found ++ ·) := by
  induction quoted, code using bracketsFrom.induct generalizing found with
  | case1 => cases brackets
  | case2 =>
    cases brackets
    simp
  | case3 c rest ih =>
    rw [bracketsFrom] at brackets
    simpa [bracketsFrom] using ih brackets
  | case4 c rest plain ih =>
    rw [bracketsFrom.eq_4 _ _ plain] at brackets
    rw [List.cons_append, bracketsFrom.eq_4]
    · exact ih brackets
    · rintro d later rfl same
      cases rest with
      | nil =>
        rw [bracketsFrom.eq_def] at brackets
        cases brackets
      | cons e rest => exact plain e rest rfl rfl
  | case5 rest ih =>
    rw [bracketsFrom, if_pos rfl] at brackets
    simpa [bracketsFrom] using ih brackets
  | case6 c rest plain bracket ih =>
    rw [bracketsFrom, if_neg plain, if_pos bracket] at brackets
    obtain ⟨inner, here, rfl⟩ := Option.map_eq_some_iff.mp brackets
    rw [List.cons_append, bracketsFrom, if_neg plain, if_pos bracket, ih here, Option.map_map]
    rfl
  | case7 c rest plain bracket ih =>
    rw [bracketsFrom, if_neg plain, if_neg bracket] at brackets
    rw [List.cons_append, bracketsFrom, if_neg plain, if_neg bracket]
    exact ih brackets

theorem closeBrackets_append (first : closeBrackets pending found = some later) (others : List Char) :
    closeBrackets pending (found ++ others) = closeBrackets later others := by
  induction pending, found using closeBrackets.induct with
  | case1 pending =>
    cases first
    rfl
  | case2 pending c rest opens ih =>
    simp only [closeBrackets, opens] at first
    simp only [List.cons_append, closeBrackets, opens]
    exact ih first
  | case3 c rest opener closes =>
    simp [closeBrackets, closes] at first
  | case4 c rest last pending closes ih =>
    simp only [closeBrackets, closes, if_true] at first
    simp only [List.cons_append, closeBrackets, closes, if_true]
    exact ih first
  | case5 c rest opener closes last pending differs =>
    simp [closeBrackets, closes, differs] at first

/-- A code closes some braces that were open before it, and opens others. All else that it opens it closes
itself. -/
def Shifts (a b : Nat) (code : List Char) : Prop :=
  ∃ found, bracketsFrom false code = some found ∧ ∀ pending,
    closeBrackets (List.replicate a '\x7b' ++ pending) found = some (List.replicate b '\x7b' ++ pending)

/-- A code closes what it opens. -/
def Balanced (code : List Char) : Prop := Shifts 0 0 code

theorem Shifts.append (first : Shifts a b code) (second : Shifts b c more) : Shifts a c (code ++ more) := by
  obtain ⟨found, brackets, closes⟩ := first
  obtain ⟨others, bracketsMore, closesMore⟩ := second
  refine ⟨found ++ others, ?_, fun pending => ?_⟩
  · rw [bracketsFrom_append brackets, bracketsMore]
    rfl
  · rw [closeBrackets_append (closes pending), closesMore]

theorem Balanced.append (first : Balanced code) (second : Balanced more) : Balanced (code ++ more) :=
  Shifts.append first second

theorem bracketsFrom_of_plain (plain : ∀ c ∈ code, isBracket c = false ∧ c ≠ '\x27') :
    bracketsFrom false code = some [] := by
  induction code with
  | nil => rfl
  | cons c code ih =>
    obtain ⟨⟨none, unquoted⟩, others⟩ := List.forall_mem_cons.mp plain
    rw [bracketsFrom, if_neg unquoted, none, if_neg (by simp)]
    exact ih others

/-- A code without brackets and quotes is balanced. -/
theorem balanced_of_plain (plain : ∀ c ∈ code, isBracket c = false ∧ c ≠ '\x27') : Balanced code :=
  ⟨[], bracketsFrom_of_plain plain, fun _ => rfl⟩

/-- A code between brackets that belong together. -/
theorem Balanced.enclosed (balanced : Balanced code) (opener closer : Char)
    (pair : (opener, closer) ∈ [('(', ')'), ('[', ']'), ('\x7b', '\x7d')]) :
    Balanced (opener :: (code ++ [closer])) := by
  obtain ⟨found, brackets, closes⟩ := balanced
  have facts : isBracket opener ∧ opener ≠ '\x27' ∧ isBracket closer ∧ closer ≠ '\x27' ∧
      openerOf? opener = none ∧
      openerOf? closer = some opener := by
    simp only [List.mem_cons, Prod.mk.injEq, List.not_mem_nil, or_false] at pair
    rcases pair with ⟨rfl, rfl⟩ | ⟨rfl, rfl⟩ | ⟨rfl, rfl⟩ <;> decide
  obtain ⟨isOpener, unquoted, isCloser, unquotedCloser, opens, closing⟩ := facts
  refine ⟨opener :: (found ++ [closer]), ?_, fun pending => ?_⟩
  · have last : bracketsFrom false [closer] = some [closer] := by
      simp [bracketsFrom, isCloser, unquotedCloser]
    rw [bracketsFrom, if_neg unquoted, if_pos isOpener, bracketsFrom_append brackets, last]
    rfl
  · have inner := closes (opener :: pending)
    simp only [List.replicate_zero, List.nil_append] at inner ⊢
    rw [closeBrackets, opens]
    dsimp only
    rw [closeBrackets_append inner, closeBrackets, closing]
    simp [closeBrackets]

theorem balanced_literal (text : String) : Balanced (literal text).toList := by
  refine ⟨[], ?_, fun pending => rfl⟩
  rw [literal, String.toList_ofList, List.cons_append, bracketsFrom, if_pos rfl]
  generalize text.toList = chars
  induction chars with
  | nil => rfl
  | cons c chars ih =>
    rw [List.flatMap_cons, List.append_assoc]
    unfold literalChar
    split_ifs with slash feed dollar quote
    all_goals first
      | exact ih
      | skip
    rw [List.cons_append, List.nil_append, bracketsFrom.eq_4, decide_eq_true quote]
    · exact ih
    · rintro d later rfl
      exact absurd rfl slash

theorem shifts_opening : Shifts 0 1 ['\x7b'] := ⟨['\x7b'], rfl, fun _ => rfl⟩

theorem shifts_closing : Shifts 1 0 ['\x7d'] := ⟨['\x7d'], rfl, fun _ => rfl⟩

end Brackets

section Lines

variable {lines others : List (List Char)} {pending later : List Char} {a b c : Nat}

theorem openAfter_append (first : openAfter pending lines = some later) (others : List (List Char)) :
    openAfter pending (lines ++ others) = openAfter later others := by
  induction lines generalizing pending with
  | nil =>
    cases first
    rfl
  | cons line lines ih =>
    rw [List.cons_append, openAfter]
    rw [openAfter] at first
    split_ifs at first ⊢ with solid proper
    · obtain ⟨inner, here, rest⟩ := Option.bind_eq_some_iff.mp first
      rw [here]
      exact ih rest
    · exact ih first

/-- Some lines that stand two spaces further in for each brace around them nest, from some braces of their own
that are open before them to some that are open behind them. -/
def Nests (a b : Nat) (lines : List (List Char)) : Prop :=
  ∀ d, openAfter (List.replicate (d + a) '\x7b') (lines.map (List.replicate (2 * d) ' ' ++ ·)) =
    some (List.replicate (d + b) '\x7b')

theorem nests_nil : Nests a a [] := fun _ => rfl

theorem Nests.append (first : Nests a b lines) (second : Nests b c others) : Nests a c (lines ++ others) := by
  intro d
  rw [List.map_append, openAfter_append (first d), second d]

/-- Lines that are put two spaces further in stand inside one brace more. -/
theorem Nests.indented (nests : Nests 0 0 lines) : Nests 1 1 (lines.map ("  ".toList ++ ·)) := by
  intro d
  have inner := nests (d + 1)
  have spaces : List.replicate (2 * (d + 1)) ' ' = List.replicate (2 * d) ' ' ++ "  ".toList := by
    rw [show "  ".toList = List.replicate 2 ' ' from rfl, List.replicate_append_replicate]
    rfl
  rw [spaces] at inner
  rw [List.map_map]
  simpa [Function.comp_def] using inner

section One

variable {line : List Char} {first : Char}

theorem isSolid_spaces (n : Nat) (headed : line.head? = some first) (solid : isBlank first = false) :
    isSolid (List.replicate n ' ' ++ line) := by
  have member : first ∈ line := List.mem_of_head? headed
  rw [isSolid, List.any_append, Bool.or_eq_true]
  exact .inr (List.any_eq_true.mpr ⟨first, member, by simp [solid]⟩)

theorem takeWhile_spaces (n : Nat) (headed : line.head? = some first) (solid : isBlank first = false) :
    (List.replicate n ' ' ++ line).takeWhile (· = ' ') = List.replicate n ' ' ∧
      (List.replicate n ' ' ++ line).dropWhile (· = ' ') = line := by
  have differs : first ≠ ' ' := by
    rintro rfl
    cases solid
  cases line with
  | nil => cases headed
  | cons d line =>
    obtain rfl : d = first := by simpa using headed
    have spaces : ∀ c ∈ List.replicate n ' ', decide (c = ' ') = true := by simp
    rw [List.takeWhile_append_of_pos spaces, List.dropWhile_append_of_pos spaces,
      List.takeWhile_cons_of_neg (by simpa using differs),
      List.dropWhile_cons_of_neg (by simpa using differs), List.append_nil]
    exact ⟨rfl, rfl⟩

/-- A line nests by its brackets if the brace it starts with, if any, is the only one that it closes. -/
theorem nests_line (first : Char) (headed : line.head? = some first) (solid : isBlank first = false)
    (code : isCommentLine line = false) (closing : a = if first = '\x7d' then 1 else 0)
    (shifts : Shifts a b line) :
    Nests a b [line] := by
  intro d
  obtain ⟨found, brackets, closes⟩ := shifts
  obtain ⟨spaces, bare⟩ := takeWhile_spaces (2 * d) headed solid
  have comment : isCommentLine (List.replicate (2 * d) ' ' ++ line) = false := by
    rw [isCommentLine, bare]
    rw [isCommentLine] at code
    have whole : line.dropWhile (· = ' ') = line := (takeWhile_spaces 0 headed solid).2
    rwa [whole] at code
  have outside : bracketsFrom false (List.replicate (2 * d) ' ' ++ line) = some found := by
    have none : bracketsFrom false (List.replicate (2 * d) ' ') = some [] :=
      bracketsFrom_of_plain fun c member => by rw [List.eq_of_mem_replicate member]; decide
    rw [bracketsFrom_append none, brackets]
    rfl
  have deep := closes (List.replicate d '\x7b')
  rw [List.replicate_append_replicate, List.replicate_append_replicate, Nat.add_comm a,
    Nat.add_comm b] at deep
  rw [List.map_singleton, BlockCompiler.openAfter, if_pos (isSolid_spaces _ headed solid), if_pos,
    lineBrackets?, comment,
    if_neg (by simp), outside, Option.bind_some, deep]
  · rfl
  · rw [spaces, List.length_replicate, properIndent, bare, headed, List.count_replicate_self, closing]
    by_cases closes : first = '\x7d'
    · simp [closes]
    · simp [closes]

/-- A comment opens and closes nothing. -/
theorem nests_comment (comment : "//".toList <+: line) : Nests 0 0 [line] := by
  intro d
  obtain ⟨words, rfl⟩ := comment
  have headed : ("//".toList ++ words).head? = some '/' := rfl
  obtain ⟨spaces, bare⟩ := takeWhile_spaces (2 * d) headed (by decide)
  have comment : isCommentLine (List.replicate (2 * d) ' ' ++ ("//".toList ++ words)) :=
    isCommentLine_iff.mpr ⟨_, words, rfl⟩
  rw [List.map_singleton, BlockCompiler.openAfter, if_pos (isSolid_spaces _ headed (by decide)), if_pos,
    lineBrackets?,
    if_pos comment]
  · rfl
  · rw [spaces, List.length_replicate, properIndent, bare, headed, List.count_replicate_self]
    rfl

theorem nests_comments (comments : ∀ line ∈ lines, "//".toList <+: line) : Nests 0 0 lines := by
  induction lines with
  | nil => exact nests_nil
  | cons line lines ih =>
    obtain ⟨here, rest⟩ := List.forall_mem_cons.mp comments
    exact (nests_comment here).append (ih rest)

end One

section Trimmed

variable {line blanks : List Char}

/-- Spaces behind a code change nothing about its brackets. -/
theorem bracketsFrom_spaces (spaces : ∀ c ∈ blanks, isSpaceOrTab c) (quoted : Bool) (code : List Char) :
    bracketsFrom quoted (code ++ blanks) = bracketsFrom quoted code := by
  have plain : ∀ c ∈ blanks, c ≠ '\\' ∧ c ≠ '\x27' ∧ isBracket c = false := by
    intro c member
    have space := spaces c member
    simp only [isSpaceOrTab, Bool.or_eq_true, decide_eq_true_eq] at space
    rcases space with rfl | rfl <;> decide
  have endless : bracketsFrom true blanks = none := by
    clear spaces
    induction blanks with
    | nil => rfl
    | cons c rest ih =>
      obtain ⟨⟨slash, quote, _⟩, others⟩ := List.forall_mem_cons.mp plain
      rw [bracketsFrom.eq_4 _ _ fun d later same => absurd same slash, decide_eq_true quote]
      exact ih others
  induction quoted, code using bracketsFrom.induct with
  | case1 => exact endless
  | case2 =>
    exact bracketsFrom_of_plain fun c member => ⟨(plain c member).2.2, (plain c member).2.1⟩
  | case3 c rest ih =>
    rw [List.cons_append, List.cons_append, bracketsFrom, bracketsFrom]
    exact ih
  | case4 c rest whole ih =>
    rw [bracketsFrom.eq_4 _ _ whole, List.cons_append]
    by_cases escape : c = '\\' ∧ rest = []
    · obtain ⟨rfl, rfl⟩ := escape
      cases blanks with
      | nil => rfl
      | cons d blanks =>
        -- The escaped character is the first of the spaces, and the code ends in quotes all the same.
        have later : bracketsFrom true blanks = none := by
          obtain ⟨⟨slash, quote, _⟩, _⟩ := List.forall_mem_cons.mp plain
          rwa [bracketsFrom.eq_4 _ _ fun e after same => absurd same slash, decide_eq_true quote] at endless
        rw [List.nil_append, bracketsFrom, later]
        rfl
    · rw [bracketsFrom.eq_4, ih]
      rintro d later rfl same
      cases rest with
      | nil => exact escape ⟨rfl, rfl⟩
      | cons e rest => exact whole e rest rfl rfl
  | case5 rest ih =>
    rw [List.cons_append, bracketsFrom, if_pos rfl, bracketsFrom, if_pos rfl]
    exact ih
  | case6 c rest differs bracket ih =>
    rw [List.cons_append, bracketsFrom, if_neg differs, if_pos bracket, bracketsFrom, if_neg differs,
      if_pos bracket, ih]
  | case7 c rest differs bracket ih =>
    rw [List.cons_append, bracketsFrom, if_neg differs, if_neg bracket, bracketsFrom, if_neg differs,
      if_neg bracket, ih]

/-- A line that is not blank starts as it does, whatever follows it. -/
theorem leading_append (solid : isSolid line) (more : List Char) :
    (line ++ more).takeWhile (· = ' ') = line.takeWhile (· = ' ') ∧
      (line ++ more).dropWhile (· = ' ') = line.dropWhile (· = ' ') ++ more ∧
      line.dropWhile (· = ' ') ≠ [] := by
  induction line with
  | nil => cases solid
  | cons c line ih =>
    by_cases space : c = ' '
    · subst space
      have later : isSolid line := by simpa [isSolid, show isBlank ' ' = true by decide] using solid
      simpa using ih later
    · simp [space]

theorem exists_trimEnd (line : List Char) :
    ∃ blanks, line = trimEnd line ++ blanks ∧ ∀ c ∈ blanks, isSpaceOrTab c :=
  ⟨line.rtakeWhile isSpaceOrTab, (List.rdropWhile_append_rtakeWhile ..).symm,
    fun _ => List.mem_rtakeWhile_imp⟩

/-- Trimming keeps how a line starts. -/
theorem head?_trimEnd (solid : isSolid line) :
    ((trimEnd line).dropWhile (· = ' ')).head? = (line.dropWhile (· = ' ')).head? := by
  obtain ⟨blanks, shape, _⟩ := exists_trimEnd line
  obtain ⟨_, dropped, filled⟩ := leading_append ((isSolid_trimEnd line).trans solid) blanks
  conv_rhs => rw [shape, dropped, List.head?_append_of_ne_nil _ filled]

/-- Trimming keeps comments and what is none. -/
theorem isCommentLine_trimEnd (line : List Char) : isCommentLine (trimEnd line) = isCommentLine line := by
  obtain ⟨blanks, shape, spaces⟩ := exists_trimEnd line
  have slash : ∀ c ∈ blanks.head?, c ≠ '/' := by
    rintro c headed rfl
    exact absurd (spaces '/' (List.mem_of_mem_head? headed)) (by decide)
  conv_rhs => rw [shape]
  by_cases solid : isSolid (trimEnd line)
  · obtain ⟨_, bare, filled⟩ := leading_append solid blanks
    rw [isCommentLine, isCommentLine, bare]
    generalize (trimEnd line).dropWhile (· = ' ') = body at filled
    match body, filled with
    | [c], _ =>
      cases blanks with
      | nil => rfl
      | cons d blanks => simp [List.isPrefixOf, Ne.symm (slash d rfl)]
    | c :: d :: body, _ => rfl
  · -- Comments are not blank.
    have none : ∀ rest, (∀ c ∈ rest, isBlank c) → isCommentLine rest = false := by
      intro rest blank
      by_contra comment
      obtain ⟨c, member, filled⟩ := (filled_comment (by simpa using comment) []).exists
      rw [List.append_nil] at member
      rw [blank c member] at filled
      cases filled
    have blank := isSolid_eq_false.mp (Bool.not_eq_true _ ▸ solid)
    rw [none _ blank,
      none _ (List.forall_mem_append.mpr ⟨blank, fun c member => isBlank_of_isSpaceOrTab (spaces c member)⟩)]

/-- Blanks at the ends of lines and blank lines do not count. -/
theorem openAfter_firmOf (lines : List (List Char)) (pending : List Char) :
    openAfter pending (firmOf lines) = openAfter pending lines := by
  induction lines generalizing pending with
  | nil => rfl
  | cons line lines ih =>
    rw [firmOf_cons]
    cases solid : isSolid line with
    | false =>
      rw [firmOf_blank (by simpa using solid), List.nil_append, openAfter, solid, if_neg (by simp)]
      exact ih pending
    | true =>
      have one : firmOf [line] = [trimEnd line] := by simp [firmOf, solid]
      have trimmed : isSolid (trimEnd line) := by simpa using solid
      obtain ⟨blanks, shape, spaces⟩ := exists_trimEnd line
      obtain ⟨taken, _, _⟩ := leading_append trimmed blanks
      rw [← shape] at taken
      have indent : properIndent pending line = properIndent pending (trimEnd line) := by
        rw [properIndent, properIndent, head?_trimEnd solid]
      have brackets : lineBrackets? line = lineBrackets? (trimEnd line) := by
        have outside : bracketsFrom false line = bracketsFrom false (trimEnd line) := by
          conv_lhs => rw [shape]
          exact bracketsFrom_spaces spaces false _
        rw [lineBrackets?, lineBrackets?, isCommentLine_trimEnd, outside]
      rw [one, List.singleton_append, openAfter, openAfter, if_pos trimmed, if_pos solid, taken,
        indent, brackets]
      simp only [ih]

end Trimmed

end Lines

end BlockCompiler
