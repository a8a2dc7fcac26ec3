import BlockCompiler.Proofs.Emission.Tree
import BlockCompiler.Proofs.Emission.Writes

/-!
The forms of expressions in the generated code: each is written for what it is made of.
-/

namespace BlockCompiler

/-- The sign of an operator. -/
def BinaryOp.sign : BinaryOp → String
  | .add => "+"
  | .subtract => "-"
  | .multiply => "*"
  | .divide => "/"
  | .less => "<"
  | .atMost => "<="
  | .greater => ">"
  | .atLeast => ">="
  | .equal => "=="
  | .unequal => "!="
  | .and => "&&"
  | .or => "||"

/-- A sign with blanks around it. -/
def spaced (sign : String) : String := " " ++ sign ++ " "

/-- A sign is one token when a blank follows it. -/
def IsSign (sign : String) (mark : Mark) : Prop :=
  sign ≠ "" ∧ ∀ rest, readLexeme? (sign.toList ++ ' ' :: rest) = some (some (.mark mark), ' ' :: rest)

theorem BinaryOp.isSign (op : BinaryOp) : IsSign op.sign op.mark := by
  cases op <;> exact ⟨by decide, fun _ => rfl⟩

theorem isSign_question : IsSign "?" .question := ⟨by decide, fun _ => rfl⟩

theorem isSign_colon : IsSign ":" .colon := ⟨by decide, fun _ => rfl⟩

theorem toList_spaced (sign : String) : (spaced sign).toList = ' ' :: (sign.toList ++ [' ']) := by
  simp [spaced]

theorem BinaryOp.foreign_sign (op : BinaryOp) : ∃ c ∈ (spaced op.sign).toList, IsForeign c := by
  cases op <;> exact ⟨_, List.mem_cons_of_mem _ (List.mem_cons_self ..), by decide, by decide, by decide⟩

/-- Codes with a sign between them are cut one by one. -/
theorem IsSign.spells {sign : String} {mark : Mark} (isSign : IsSign sign mark) {code other : String}
    {tokens others : List Token} (first : Spells code.toList tokens) (second : Spells other.toList others) :
    Spells (code ++ spaced sign ++ other).toList (tokens ++ .mark mark :: others) := by
  obtain ⟨filled, signed⟩ := isSign
  have longer : 0 < sign.toList.length := List.length_pos_iff.mpr (by simpa using filled)
  have between : Leads (spaced sign).toList [.mark mark] := by
    intro rest
    have blank := leads_blank (sign.toList ++ ' ' :: rest)
    have last := leads_blank rest
    rw [List.singleton_append] at blank last
    rw [toList_spaced, List.cons_append, List.append_assoc, List.singleton_append, blank,
      lex_of_lexeme (signed rest) (by simp; omega), last]
    simp [Function.comp_def]
  have apart : ∀ rest, Apart ((spaced sign).toList ++ rest) := by
    intro rest
    rw [toList_spaced]
    exact apart_of_head (by decide) (by decide)
  have whole := (first.append_leads between apart).append_spells second
  rwa [String.toList_append, String.toList_append, ← List.singleton_append, ← List.append_assoc]

/-- A sign right before a code is a token of its own where the code does not change it. -/
theorem Spells.signed {c : Char} {mark : Mark} {code : List Char} {tokens : List Token}
    (spells : Spells code tokens)
    (found : ∀ later, readLexeme? (c :: (code ++ later)) = some (some (.mark mark), code ++ later)) :
    Spells (c :: code) (.mark mark :: tokens) := by
  intro later apart
  rw [List.cons_append, lex_of_lexeme (found later) (by simp), spells later apart, Option.map_map]
  simp [Function.comp_def]

theorem readLexeme?_not {c : Char} (differs : c ≠ '=') (rest : List Char) :
    readLexeme? ('!' :: c :: rest) = some (some (.mark .not), c :: rest) := by
  have read : readMark? ('!' :: c :: rest) = some (.not, c :: rest) := by
    unfold readMark?
    split <;> simp_all
  show (readMark? ('!' :: c :: rest)).map _ = _
  rw [read]
  rfl

theorem readLexeme?_minus {c : Char} (differs : c ≠ '-') (rest : List Char) :
    readLexeme? ('-' :: c :: rest) = some (some (.mark .minus), c :: rest) := by
  have read : readMark? ('-' :: c :: rest) = some (.minus, c :: rest) := by
    unfold readMark?
    split <;> simp_all
  show (readMark? ('-' :: c :: rest)).map _ = _
  rw [read]
  rfl

theorem leads_opening : Leads ['('] [.mark .opening] := leads_mark fun _ => rfl

theorem leads_closing : Leads [')'] [.mark .closing] := leads_mark fun _ => rfl

theorem leads_comma : Leads ", ".toList [.mark .comma] :=
  have comma : Leads [','] [.mark .comma] := leads_mark fun _ => rfl
  comma.append leads_blank

theorem BinaryOp.oneLine_spaced (op : BinaryOp) : OneLine (spaced op.sign) := by
  cases op <;> decide

theorem oneLine_word {code : String} (isName : IsName code.toList) : OneLine code := by
  intro feed
  exact absurd (isName.2.1 _ feed) (by decide)

theorem oneLine_literal (text : String) : OneLine (literal text) := by
  have escaped : ∀ c, '\n' ∉ literalChar c := by
    intro c
    unfold literalChar
    split_ifs with slash feed
    · decide
    · decide
    · decide
    · decide
    · simpa using fun same => feed same.symm
  simp only [OneLine, literal, String.toList_ofList, List.mem_append, List.mem_cons, List.mem_flatMap,
    List.not_mem_nil,
    or_false, not_or, not_exists, not_and]
  exact ⟨⟨by decide, fun c _ => escaped c⟩, by decide⟩

theorem oneLine_numeral {code : String} (form : IsNumeralText code.toList) : OneLine code := by
  obtain ⟨whole, fraction, exponent, shape, wholeDigits, fractionForm, exponentForm⟩ := form.parts
  have digits : ∀ {text : List Char}, AreDigits text → '\n' ∉ text := fun areDigits feed =>
    absurd (areDigits.2 _ feed) (by decide)
  rw [OneLine, shape, List.mem_append, List.mem_append, not_or, not_or]
  refine ⟨digits wholeDigits, ?_, ?_⟩
  · rcases fractionForm with rfl | ⟨behind, rfl, areDigits⟩
    · simp
    · simpa using digits areDigits
  · rcases exponentForm with rfl | ⟨sign, behind, rfl, rfl | rfl, areDigits⟩
    · simp
    · simpa using digits areDigits
    · simpa using digits areDigits

theorem oneLine_negated {code : String} (oneLine : OneLine code) : OneLine (Template.negated code) := by
  unfold Template.negated
  split_ifs
  · exact oneLine_append.mpr ⟨by decide, oneLine⟩
  · exact oneLine_append.mpr ⟨by decide, oneLine⟩

namespace Writes

variable {tight : Prop} {code other : String} {order inner : Order} {e f : Expr}

theorem loosen (writes : Writes code order e) (le : order ≤ inner) : Writes code inner e := by
  obtain ⟨g, level, tokens, spells, written, below, alike⟩ := writes.written
  exact ⟨⟨g, level, tokens, spells, written, Nat.le_trans below le, alike⟩, writes.start, writes.oneLine⟩

theorem parenthesized (writes : Writes code order e) : Writes (parenthesized code) .atomic e := by
  obtain ⟨g, level, tokens, spells, written, _, alike⟩ := writes.written
  have shape : (BlockCompiler.parenthesized code).toList = ['('] ++ (code.toList ++ [')']) := by
    simp [BlockCompiler.parenthesized]
  have closed : Leads (code.toList ++ [')']) (tokens ++ [.mark .closing]) :=
    spells.append_leads leads_closing fun rest => apart_of_head (by decide) (by decide)
  refine ⟨⟨g, .atomic, _, ?_, .parenthesized written, Nat.le_refl _, alike⟩, ?_, ?_⟩
  · rw [shape]
    exact (leads_opening.append closed).spells
  · exact ⟨'(', _, shape, by decide, by decide⟩
  · exact oneLine_append.mpr ⟨oneLine_append.mpr ⟨by decide, writes.oneLine⟩, by decide⟩

theorem word (isName : IsName code.toList) : Writes code .atomic (.word code) :=
  ⟨⟨_, _, _, spells_word isName, .word code, Nat.le_refl _, .refl _⟩, starts_word isName, oneLine_word isName⟩

theorem quoted (text : String) : Writes (literal text) .atomic (.quoted text) := by
  refine ⟨⟨_, _, _, (leads_literal text).spells, .quoted text, Nat.le_refl _, .refl _⟩, ?_,
    oneLine_literal text⟩
  exact ⟨'\x27', text.toList.flatMap literalChar ++ ['\x27'], by simp [literal], by decide, by decide⟩

theorem numeral (form : IsNumeralText code.toList) : Writes code .atomic (.numeral code) := by
  refine ⟨⟨_, _, _, spells_numeral form, .numeral code, Nat.le_refl _, .refl _⟩, ?_, oneLine_numeral form⟩
  obtain ⟨whole, fraction, exponent, shape, wholeDigits, _⟩ := form.parts
  cases split : whole with
  | nil => exact absurd split wholeDigits.1
  | cons c rest =>
    have headed : code.toList = c :: (rest ++ (fraction ++ exponent)) := by
      rw [shape, split, List.cons_append]
    exact starts_digit headed (wholeDigits.2 c (by simp [split]))

/-- Two operands that fit an operator, the second so that it would not go on with the first. -/
theorem binary (op : BinaryOp) (left : Writes code order e) (le : order ≤ op.level)
    (right : Writes other inner f) (lt : inner < op.level) :
    Writes (code ++ spaced op.sign ++ other) op.level (.binary op e f) := by
  obtain ⟨g, level, tokens, spells, written, below, alike⟩ := left.written
  obtain ⟨h, bound, others, spellsOther, writtenOther, belowOther, alikeOther⟩ := right.written
  have whole := Written.binary op written (Nat.le_trans below le) writtenOther
    (Nat.lt_of_le_of_lt belowOther lt)
  exact ⟨⟨_, _, _, op.isSign.spells spells spellsOther, whole, Nat.le_refl _, .binary op alike alikeOther⟩,
    (left.start.append _).append _, by simp [left.oneLine, right.oneLine, op.oneLine_spaced]⟩

/-- Two operands of a logical operator. A second that goes on with the first is only associated otherwise. -/
theorem logical {op : BinaryOp} (logical : op.IsLogical) (left : Writes code order e) (le : order ≤ op.level)
    (right : Writes other inner f) (leOther : inner ≤ op.level) :
    Writes (code ++ spaced op.sign ++ other) op.level (.binary op e f) := by
  obtain ⟨g, level, tokens, spells, written, below, alike⟩ := left.written
  obtain ⟨h, bound, others, spellsOther, writtenOther, belowOther, alikeOther⟩ := right.written
  obtain ⟨chain, whole, same⟩ :=
    Written.logical logical written (Nat.le_trans below le) writtenOther (Nat.le_trans belowOther leOther)
  exact ⟨⟨_, _, _, op.isSign.spells spells spellsOther, whole, Nat.le_refl _,
    same.trans (.binary op alike alikeOther)⟩, (left.start.append _).append _,
    by simp [left.oneLine, right.oneLine, op.oneLine_spaced]⟩

theorem conditional {last : String} {third : Order} {g : Expr} (condition : Writes code order e)
    (lt : order < .conditional) (yes : Writes other inner f) (no : Writes last third g)
    (le : third ≤ .conditional) :
    Writes (code ++ spaced "?" ++ (other ++ spaced ":" ++ last)) .conditional (.conditional e f g) := by
  obtain ⟨e', level, tokens, spells, written, below, alike⟩ := condition.written
  obtain ⟨f', bound, others, spellsYes, writtenYes, belowYes, alikeYes⟩ := yes.written
  obtain ⟨g', bottom, thirds, spellsNo, writtenNo, belowNo, alikeNo⟩ := no.written
  have whole := Written.conditional written (Nat.lt_of_le_of_lt below lt) writtenYes writtenNo
    (Nat.le_trans belowNo le)
  have parts := isSign_question.spells spells (isSign_colon.spells spellsYes spellsNo)
  exact ⟨⟨_, _, _, parts, whole, Nat.le_refl _, .conditional alike alikeYes alikeNo⟩,
    (condition.start.append _).append _, by
      simp only [oneLine_append]
      exact ⟨⟨condition.oneLine, by decide⟩, ⟨yes.oneLine, by decide⟩, no.oneLine⟩⟩

theorem negation (operand : Writes code order e) (le : order ≤ .unaryPrefix) :
    Writes ("!" ++ code) .unaryPrefix (.negation e) := by
  obtain ⟨f, level, tokens, spells, written, below, alike⟩ := operand.written
  obtain ⟨c, rest, shape, filled, differs⟩ := operand.start
  have sign : Spells ("!" ++ code).toList (.mark .not :: tokens) := by
    have signed := spells.signed (c := '!') fun later => by
      rw [shape, List.cons_append]
      exact readLexeme?_not differs _
    simpa using signed
  exact ⟨⟨_, _, _, sign, .negation written (Nat.le_trans below le), Nat.le_refl _, .negation alike⟩,
    ⟨'!', code.toList, by simp, by decide, by decide⟩, oneLine_append.mpr ⟨by decide, operand.oneLine⟩⟩

/-- A minus before an operand; before one with a minus of its own it is kept apart. -/
theorem negative (operand : Writes code order e) (le : order ≤ .unaryPrefix) :
    Writes (Template.negated code) .unaryPrefix (.negative e) := by
  obtain ⟨f, level, tokens, spells, written, below, alike⟩ := operand.written
  obtain ⟨c, rest, shape, filled, differs⟩ := operand.start
  have signed : Spells (Template.negated code).toList (.mark .minus :: tokens) := by
    unfold Template.negated
    split_ifs with minus
    · have apart := (leads_blank.append_spells spells).signed (c := '-') fun later =>
        readLexeme?_minus (by decide) _
      simpa using apart
    · have close := spells.signed (c := '-') fun later => by
        rw [shape, List.cons_append]
        exact readLexeme?_minus (by simpa [shape] using minus) _
      simpa using close
  refine ⟨⟨_, _, _, signed, .negative written (Nat.le_trans below le), Nat.le_refl _, .negative alike⟩, ?_,
    oneLine_negated operand.oneLine⟩
  unfold Template.negated
  split_ifs
  · exact ⟨'-', ' ' :: code.toList, by simp, by decide, by decide⟩
  · exact ⟨'-', code.toList, by simp, by decide, by decide⟩

/-- The codes of some expressions, one by one. -/
def All (codes : List String) (es : List Expr) : Prop :=
  List.Forall₂ (fun code e => ∃ order, Writes code order e) codes es

theorem All.oneLine {codes : List String} {es : List Expr} (all : All codes es) :
    OneLine (joinTexts ", " codes) := by
  refine oneLine_joinTexts (by decide) ?_
  induction all with
  | nil => simp
  | cons first _ ih =>
    obtain ⟨_, writes⟩ := first
    exact List.forall_mem_cons.mpr ⟨writes.oneLine, ih⟩

/-- Codes with commas between them are cut into rows of tokens with commas between them. -/
theorem All.row {codes : List String} {es : List Expr} (all : All codes es) :
    ∃ items : List Piece, (∀ item ∈ items, Written item.expr item.level item.tokens) ∧
      List.Forall₂ Expr.Alike (items.map (·.expr)) es ∧
      Spells (joinTexts ", " codes).toList (commas (items.map (·.tokens))) := by
  induction all with
  | nil => exact ⟨[], by simp, .nil, by simpa [joinTexts, commas] using leads_nil.spells⟩
  | @cons code e codes es first others ih =>
    obtain ⟨order, writes⟩ := first
    obtain ⟨f, level, tokens, spells, written, _, alike⟩ := writes.written
    obtain ⟨items, each, same, spellsOthers⟩ := ih
    refine ⟨⟨f, level, tokens⟩ :: items, ?_, .cons alike same, ?_⟩
    · intro item among
      rcases List.mem_cons.mp among with rfl | later
      · exact written
      · exact each item later
    · cases others with
      | nil =>
        cases items with
        | nil => simpa [joinTexts, commas] using spells
        | cons item items => cases same
      | @cons next _ codes _ _ _ =>
        cases items with
        | nil => cases same
        | cons item items =>
          have comma : ∀ rest, Apart (", ".toList ++ rest) :=
            fun rest => apart_of_head (by decide) (by decide)
          have whole := (spells.append_leads leads_comma comma).append_spells spellsOthers
          simpa [joinTexts, String.intercalate_cons_cons, commas] using whole

/-- A call of a function that has a name. -/
theorem call {function : String} (isName : IsName function.toList) {codes : List String} {es : List Expr}
    (all : All codes es) :
    Writes (function ++ ("(" ++ joinTexts ", " codes ++ ")")) .unaryPostfix (.call (.word function) es) := by
  obtain ⟨items, each, alike, spells⟩ := all.row
  have closed := spells.append_leads leads_closing fun rest => apart_of_head (by decide) (by decide)
  have named := (spells_word isName).append_leads leads_opening fun rest =>
    apart_of_head (by decide) (by decide)
  have whole := Written.call items (.word function) (by decide) each
  refine ⟨⟨_, _, _, ?_, whole, Nat.le_refl _,
    .row alike fun before after one => .argument _ before after one⟩,
    (starts_word isName).append _, ?_⟩
  · simpa using (named.append closed).spells
  · simp only [oneLine_append]
    exact ⟨oneLine_word isName, ⟨by decide, all.oneLine⟩, by decide⟩

/-- Items in braces. -/
theorem list {codes : List String} {es : List Expr} (all : All codes es) :
    Writes ("\x7b" ++ joinTexts ", " codes ++ "\x7d") .atomic (.list es) := by
  obtain ⟨items, each, alike, spells⟩ := all.row
  have closing : Leads ['\x7d'] [.mark .closeBrace] := leads_mark fun _ => rfl
  have opening : Leads ['\x7b'] [.mark .openBrace] := leads_mark fun _ => rfl
  have closed := spells.append_leads closing fun rest => apart_of_head (by decide) (by decide)
  refine ⟨⟨_, _, _, ?_, .list items each, Nat.le_refl _,
    .row alike fun before after one => .item before after one⟩,
    ⟨'\x7b', (joinTexts ", " codes ++ "\x7d").toList, by simp, by decide, by decide⟩, ?_⟩
  · simpa using (opening.append closed).spells
  · simp only [oneLine_append]
    exact ⟨⟨by decide, all.oneLine⟩, by decide⟩

theorem index (items : Writes code order e) (le : order ≤ .unaryPostfix) (place : Writes other inner f) :
    Writes (code ++ ("[" ++ other ++ "]")) .unaryPostfix (.index e f) := by
  obtain ⟨g, level, tokens, spells, written, below, alike⟩ := items.written
  obtain ⟨h, bound, others, spellsPlace, writtenPlace, _, alikePlace⟩ := place.written
  have closing : Leads [']'] [.mark .closeSquare] := leads_mark fun _ => rfl
  have opening : Leads ['['] [.mark .openSquare] := leads_mark fun _ => rfl
  have closed := spellsPlace.append_leads closing fun rest => apart_of_head (by decide) (by decide)
  have opened := spells.append_leads opening fun rest => apart_of_head (by decide) (by decide)
  have whole := Written.index written (Nat.le_trans below le) writtenPlace
  refine ⟨⟨_, _, _, ?_, whole, Nat.le_refl _, .index alike alikePlace⟩, items.start.append _, ?_⟩
  · simpa using (opened.append closed).spells
  · simp only [oneLine_append]
    exact ⟨items.oneLine, ⟨by decide, place.oneLine⟩, by decide⟩

theorem isName_accessor (accessor : Accessor) : IsName accessor.name.toList := by
  cases accessor <;> decide

theorem access (accessor : Accessor) (items : Writes code order e) (le : order ≤ .unaryPostfix) :
    Writes (code ++ ("." ++ accessor.name ++ "()")) .unaryPostfix (.access e accessor) := by
  obtain ⟨f, level, tokens, spells, written, below, alike⟩ := items.written
  have point : Leads ['.'] [.mark .dot] := leads_mark fun _ => rfl
  have apart : ∀ rest, Apart (('.' :: accessor.name.toList) ++ rest) := by
    intro rest
    refine ⟨by rintro c ⟨⟩; decide, ?_⟩
    rintro d later shape
    cases accessor <;> cases shape <;> rfl
  have called : Leads (accessor.name.toList ++ ['(']) [.word accessor.name, .mark .opening] :=
    (spells_word (isName_accessor accessor)).append_leads leads_opening fun rest =>
      apart_of_head (by decide) (by decide)
  have pointed := Leads.append point (called.append leads_closing)
  have whole := Written.access accessor written (Nat.le_trans below le)
  refine ⟨⟨_, _, _, ?_, whole, Nat.le_refl _, .access accessor alike⟩, items.start.append _, ?_⟩
  · have parts := spells.append_leads pointed fun rest => by simpa using apart (['('] ++ ([')'] ++ rest))
    simpa using parts.spells
  · simp only [oneLine_append]
    exact ⟨items.oneLine, ⟨by decide, oneLine_word (isName_accessor accessor)⟩, by decide⟩

/-- A sum goes on with further operands. -/
theorem plus {codes : List String} {es : List Expr} (first : Writes code .additive e)
    (others : List.Forall₂ (fun code e => ∃ order, Writes code order e ∧ order < .additive) codes es) :
    Writes (joinTexts " + " (code :: codes)) .additive (es.foldl (.binary .add) e) := by
  induction others generalizing code e with
  | nil => simpa [joinTexts] using first
  | @cons next f codes es second _ ih =>
    obtain ⟨order, writes, lt⟩ := second
    have sum := ih (Writes.binary .add first (Nat.le_refl _) writes lt)
    have same : joinTexts " + " (code :: next :: codes) =
        joinTexts " + " ((code ++ spaced "+" ++ next) :: codes) := by
      rw [joinTexts, joinTexts, String.intercalate_cons_cons, String.intercalate_cons_append]
      rfl
    rw [same]
    exact sum

/-- Operands with plus signs between them are their sum. -/
theorem sum {codes : List String} {es : List Expr} (filled : codes ≠ [])
    (each : List.Forall₂ (fun code e => ∃ order, Writes code order e ∧ order < .additive) codes es) :
    Writes (joinTexts " + " codes) .additive (.sum es) := by
  cases each with
  | nil => exact absurd rfl filled
  | cons first others =>
    obtain ⟨order, writes, lt⟩ := first
    exact (writes.loosen (Nat.le_of_lt lt)).plus others

end Writes

end BlockCompiler
