import BlockCompiler.Proofs.Emission.Defined
import BlockCompiler.Proofs.Emission.Displayed
import BlockCompiler.Proofs.Emission.Loops
import BlockCompiler.Proofs.Emission.Remarks
import BlockCompiler.Proofs.Syntax.Plain

/-!
Emitting loops: each template keeps the assignments and the loops of the statements that it holds together,
and so does, by induction on the stack, what is emitted for statements.
-/

namespace BlockCompiler

/-- A text has the assignments of some statements and the loops of some blocks, in whole lines. -/
def Turns (before after : Pass) (leaves : List Leaf) (repeats : List (Rows BlockHead RowHead))
    (text : String) : Prop :=
  ∃ lines, text.toList = unlines lines ∧ Winds before after leaves repeats lines

/-- A text has the lines of arms up to the brace that closes the last of them, at the start of a line or
behind an earlier brace. -/
def Folds (before after : Pass) (leaves : List Leaf) (repeats : List (Rows BlockHead RowHead))
    (text : String) : Prop :=
  ∃ front, text = front ++ "\x7d" ∧ ∀ entry ∈ armLeads, Turns before after leaves repeats (entry.1 ++ front)

section Turns

variable {s t u : Pass} {leaves more : List Leaf} {repeats others : List (Rows BlockHead RowHead)}
  {text other body : String}

theorem Turns.stretch {r : Pass} (turns : Turns s t leaves repeats text) (before : r.Precedes s)
    (after : t.Precedes u) :
    Turns r u leaves repeats text := by
  obtain ⟨lines, shape, winds⟩ := turns
  exact ⟨lines, shape, winds.stretch before after⟩

theorem stretches_turns (leaves : List Leaf) (repeats : List (Rows BlockHead RowHead)) :
    Stretches fun s t text => Turns s t leaves repeats text :=
  fun _ _ _ _ _ before after turns => turns.stretch before after

theorem turns_nothing : Turns s t [] [] "" := ⟨[], rfl, winds_idle (by simp)⟩

theorem turns_idle {line : String} (idle : IsIdle line.toList) : Turns s t [] [] (line ++ "\n") :=
  ⟨[line.toList], by simp [unlines], winds_idle (List.forall_mem_singleton.mpr idle)⟩

theorem Turns.append (first : Turns s t leaves repeats text) (second : Turns t u more others other)
    (before : s.Precedes t) (after : t.Precedes u) :
    Turns s u (leaves ++ more) (repeats ++ others) (text ++ other) := by
  obtain ⟨lines, shape, winds⟩ := first
  obtain ⟨linesOther, shapeOther, windsOther⟩ := second
  refine ⟨lines ++ linesOther, ?_, winds.append windsOther before after⟩
  rw [String.toList_append, shape, shapeOther, unlines, unlines, unlines, List.flatMap_append]

/-- Lines that turn nothing may stand before others. -/
theorem Turns.behind (second : Turns s t leaves repeats other) (first : Turns s s [] [] text)
    (precedes : s.Precedes t) :
    Turns s t leaves repeats (text ++ other) := first.append second .refl precedes

/-- Lines that turn nothing may stand behind others. -/
theorem Turns.before (first : Turns s t leaves repeats text) (second : Turns t t [] [] other)
    (precedes : s.Precedes t) :
    Turns s t leaves repeats (text ++ other) := by
  have whole := first.append second precedes .refl
  rwa [List.append_nil, List.append_nil] at whole

theorem Turns.indented (turns : Turns s t leaves repeats text) :
    Turns s t leaves repeats (if text = "" then "" else leadLines indent text) := by
  obtain ⟨lines, shape, winds⟩ := turns
  exact ⟨_, ite_leadLines_unlines winds.oneLine shape, winds.indented⟩

theorem isIdle_comment {line : List Char} (slashed : "//".toList <+: line) (oneLine : '\n' ∉ line) :
    IsIdle line := by
  obtain ⟨words, rfl⟩ := slashed
  exact isIdle_of_foreign oneLine rfl (by decide) (by decide)

theorem turns_comments (site : Site) : Turns s t [] [] site.comments := by
  obtain ⟨lines, shape, each⟩ := site.exists_slashedLines
  exact ⟨lines, shape, winds_idle fun line member => isIdle_comment (each line member).1 (each line member).2⟩

theorem isIdle_closing : IsIdle "\x7d".toList := isIdle_of_foreign (by decide) rfl (by decide) (by decide)

/-- The lines of a block in braces. -/
theorem turns_braced {head : String} (idle : IsIdle (head ++ " \x7b").toList)
    (inside : Turns s t leaves repeats body) (precedes : s.Precedes t) :
    Turns s t leaves repeats (braced head body ++ "\n") := by
  have whole := (inside.behind (turns_idle idle) precedes).before (turns_idle isIdle_closing) precedes
  rwa [braced_eq, @String.append_assoc _ "\x7d"]

/-- The lines of a loop are those of its body, in its own. -/
theorem Turns.looped {rows : Rows BlockHead RowHead} {counter bound : String} {taken? : Option String}
    (inside : Turns s u (rows.leavesAt "DO") repeats body) (before : s.Precedes u) (after : u.Precedes t)
    (counts : ∀ lines, t.Assigns (rows.leavesAt "DO") lines → t.Counts rows ⟨counter, bound, taken?, lines⟩)
    (oneLine : OneLine (taken?.getD bound)) (counted : u.Mints t "count" counter)
    (minted : taken?.isSome → u.Mints t "repeat_end" bound ∧ bound ≠ counter) :
    Turns s t (rows.leavesAt "DO") (rows :: repeats)
      ((taken?.elim "" fun code => "int " ++ bound ++ " = " ++ code ++ ";" ++ "\n") ++
      Template.countingLoop counter bound body) := by
  obtain ⟨lines, shape, winds⟩ := inside
  have inLoop := counts lines (winds.assigns.later after)
  refine ⟨Loop.lines ⟨counter, bound, taken?, lines⟩, ?_,
    Winds.looped winds before after inLoop oneLine counted minted⟩
  have loop : (Template.countingLoop counter bound body).toList =
      unlines (Loop.header ⟨counter, bound, taken?, lines⟩ :: (lines ++ [['\x7d']])) := by
    rw [Template.countingLoop, braced_eq]
    simp only [Loop.header, String.toList_append, shape, unlines, List.flatMap_cons, List.flatMap_append,
      List.flatMap_nil]
    simp
  rw [String.toList_append, loop, Loop.lines, Loop.opening]
  cases taken? with
  | none => simp [unlines]
  | some code => simp [unlines]

end Turns

section Arms

variable {s t u : Pass} {leaves more : List Leaf} {repeats others : List (Rows BlockHead RowHead)}
  {code text other body : String}

/-- An arm with a condition. -/
theorem Turns.folds (inside : Turns s t leaves repeats body) (oneLine : OneLine code)
    (precedes : s.Precedes t) :
    Folds s t leaves repeats (braced ("if (" ++ code ++ ")") body) := by
  refine ⟨"if (" ++ code ++ ")" ++ " \x7b" ++ "\n" ++ body, ?_, fun entry among => ?_⟩
  · rw [braced_eq]
  · have single : OneLine (code ++ ")" ++ " \x7b") := by
      simp only [oneLine_append]
      exact ⟨⟨oneLine, by decide⟩, by decide⟩
    have idle : IsIdle (entry.1 ++ ("if (" ++ code ++ ")" ++ " \x7b")).toList := by
      have test : ("if (" ++ code ++ ")" ++ " \x7b").toList =
          "if ".toList ++ '(' :: (code ++ ")" ++ " \x7b").toList := by
        simp
      simp only [armLeads, List.mem_cons, List.not_mem_nil, or_false] at among
      rcases among with rfl | rfl
      · rw [String.empty_append, test]
        exact isIdle_test (by simp) single
      · have oneLine : '\n' ∉ ("\x7d else " ++ ("if (" ++ code ++ ")" ++ " \x7b")).toList := by
          rw [String.toList_append, test]
          exact List.not_mem_append (by decide)
            (List.not_mem_append (by decide) fun member => (List.mem_cons.mp member).elim (by decide) single)
        have headed : ("\x7d else " ++ ("if (" ++ code ++ ")" ++ " \x7b")).toList.head? = some '\x7d' := by
          simp
        exact isIdle_of_foreign oneLine headed (by decide) (by decide)
    have whole := inside.behind (turns_idle idle) precedes
    simpa only [String.append_assoc] using whole

theorem Folds.stretch {r v : Pass} (folds : Folds s t leaves repeats text) (before : r.Precedes s)
    (after : t.Precedes v) :
    Folds r v leaves repeats text := by
  obtain ⟨front, shape, turns⟩ := folds
  exact ⟨front, shape, fun entry among => (turns entry among).stretch before after⟩

/-- What comes after the brace of an arm starts in the line of the brace. -/
theorem Folds.followed (first : Folds s t leaves repeats text) (second : Folds t u more others other)
    (before : s.Precedes t) (after : t.Precedes u) :
    Folds s u (leaves ++ more) (repeats ++ others) (text ++ " else " ++ other) := by
  obtain ⟨front, rfl, turns⟩ := first
  obtain ⟨back, rfl, turnsOther⟩ := second
  refine ⟨front ++ ("\x7d else " ++ back), ?_, fun entry among => ?_⟩
  · have brace : "\x7d else " = "\x7d" ++ " else " := rfl
    simp only [brace, String.append_assoc]
  · rw [← String.append_assoc]
    exact (turns entry among).append (turnsOther ("\x7d else ", 1) (by simp [armLeads])) before after

/-- A last body without a condition. -/
theorem Folds.otherwise (folds : Folds s t leaves repeats text) (inside : Turns t u more others body)
    (before : s.Precedes t) (after : t.Precedes u) :
    Folds s u (leaves ++ more) (repeats ++ others) (text ++ (" else" ++ braced "" body)) := by
  obtain ⟨front, rfl, turns⟩ := folds
  refine ⟨front ++ ("\x7d else \x7b" ++ "\n" ++ body), ?_, fun entry among => ?_⟩
  · have brace : "\x7d else \x7b" ++ "\n" = "\x7d" ++ (" else" ++ " \x7b\n") := rfl
    rw [brace, braced, String.empty_append]
    simp only [String.append_assoc]
  · have idle : IsIdle "\x7d else \x7b".toList := isIdle_of_foreign (by decide) rfl (by decide) (by decide)
    have whole := (turns entry among).append (inside.behind (turns_idle idle) after) before after
    simpa only [String.append_assoc] using whole

/-- A line feed behind the last brace ends the last line. -/
theorem Folds.ended (folds : Folds s t leaves repeats text) (precedes : s.Precedes t) :
    Turns s t leaves repeats (text ++ "\n") := by
  obtain ⟨front, rfl, turns⟩ := folds
  have first := turns ("", 0) (by simp [armLeads])
  rw [String.empty_append] at first
  have whole := first.before (turns_idle isIdle_closing) precedes
  rwa [← String.append_assoc] at whole

theorem folds_joinTexts {α : Type} {items : List α} {texts : List String} {inside : α → List Leaf}
    {loops : α → List (Rows BlockHead RowHead)}
    (linked : Linked (fun a s t text => Folds s t (inside a) (loops a) text) items s t texts)
    (filled : texts ≠ []) :
    Folds s t (items.flatMap inside) (items.flatMap loops) (joinTexts " else " texts) := by
  induction linked with
  | nil => exact absurd rfl filled
  | @cons item text items texts r t u first precedes rest ih =>
    cases rest with
    | nil => simpa [joinTexts] using first
    | cons next later others =>
      rw [List.flatMap_cons, List.flatMap_cons, joinTexts, String.intercalate_cons_cons]
      exact first.followed (ih (by simp)) precedes (later.trans others.precedes)

end Arms

section Words

variable {code : String} {order : Order} {e : Expr} {rest : List Char}

/-- Word characters that are an expression are a name or a numeral. -/
theorem Writes.name_or_numeral (writes : Writes code order e) (word : isWord code) :
    IsName code.toList ∨ isNumeral code := by
  have same : dropLineFeedAtEnd code.toList = code.toList :=
    if_neg fun ends => writes.oneLine (List.mem_of_getLast? ends)
  have all : ∀ c ∈ code.toList, isWordChar c := by
    rw [isWord, same, Bool.and_eq_true, List.all_eq_true] at word
    exact word.2
  obtain ⟨f, level, tokens, spells, written, _⟩ := writes.written
  rcases name_or_digits spells written all with isName | areDigits
  · exact .inl isName
  · have whole := isWholeNumeral_digits false areDigits
    rw [signText, if_neg (by simp), String.empty_append] at whole
    exact .inr (isNumeral_of_isWholeNumeral whole)

theorem lex_of_startsWithEquals (starts : startsWithEquals rest) : lex rest = none := by
  match rest with
  | [] => cases starts
  | [c] =>
    by_cases equals : c = '='
    · subst equals
      exact lex_of_none rfl (by simp)
    · simp [startsWithEquals, equals] at starts
  | c :: d :: rest =>
    by_cases equals : c = '='
    · subst equals
      have differs : d ≠ '=' := by simpa [startsWithEquals] using starts
      refine lex_of_none ?_ (by simp)
      have blank : isPlainBlank '=' = false := by decide
      have outside : isIdentifierChar '=' = false := by decide
      have digit : '='.isDigit = false := by decide
      simp [readLexeme?, blank, digit, outside, readMark?, differs]
    · simp [startsWithEquals, equals] at starts

/-- No expression goes on with an equals sign on its own. -/
theorem lex_of_isGiven (given : isGiven rest) : lex rest = none := by
  unfold isGiven at given
  split at given
  · rename_i later
    have equals : later.head? = some '=' := by
      unfold startsWithEquals at given
      split at given
      · rfl
      · cases given
    have plus : readLexeme? ('+' :: later) = some (some (.mark .plus), later) := by
      cases later with
      | nil => cases equals
      | cons c later =>
        obtain rfl : c = '=' := by simpa using equals
        rfl
    rw [lex_of_lexeme (show readLexeme? (' ' :: '+' :: later) = some (none, '+' :: later) from rfl) (by simp),
      lex_of_lexeme plus (by simp), lex_of_startsWithEquals given]
    rfl
  · rename_i later _
    rw [lex_of_lexeme (show readLexeme? (' ' :: later) = some (none, later) from rfl) (by simp),
      lex_of_startsWithEquals given]
    rfl
  · cases given

/-- An expression as a statement gives nothing a value. -/
theorem Writes.assignee?_eq_none (writes : Writes code order e) : assignee? (code ++ ";").toList = none := by
  obtain ⟨c, more, shape, solid, _⟩ := writes.start
  have bare : code.toList.dropWhile (· = ' ') = code.toList := dropWhile_of_solid (by rw [shape]; rfl) solid
  have headed : (code ++ ";").toList.head? = some c := by
    rw [String.toList_append, shape]
    rfl
  have bareEnded : (code ++ ";").toList.dropWhile (· = ' ') = code.toList.dropWhile (· = ' ') ++ [';'] := by
    rw [bare, dropWhile_of_solid headed solid, String.toList_append]
    rfl
  rw [assignee?_of_bare bareEnded (by simp; decide)]
  simp only [assignee?, bare, ite_eq_right_iff]
  rintro ⟨filled, given⟩
  obtain ⟨f, level, tokens, spells, written, _⟩ := writes.written
  have found := spells.lex
  rw [← List.takeWhile_append_dropWhile (p := isIdentifierChar) (l := code.toList)] at found
  have all : ∀ d ∈ code.toList.takeWhile isIdentifierChar, isWordChar d := fun d member =>
    isWordChar_of_isIdentifierChar (List.all_eq_true.mp List.all_takeWhile d member)
  have ends : ∀ d ∈ (code.toList.dropWhile isIdentifierChar).head?, d = ' ' := by
    intro d headed
    unfold isGiven at given
    split at given
    · rename_i same
      rw [same] at headed
      simpa using headed.symm
    · rename_i same
      rw [same] at headed
      simpa using headed.symm
    · cases given
  obtain ⟨_, later, _, left, _⟩ := exists_tokens_of_lex all ends found
  rw [lex_of_isGiven given] at left
  cases left

end Words

/-- What a template of statements gives has the assignments of some statements and the loops of some
blocks. -/
def Rolls (before after : Pass) (leaves : List Leaf) (repeats : List (Rows BlockHead RowHead))
    (output : Option Output) : Prop :=
  ∃ text, output = some (.statements text) ∧ Turns before after leaves repeats text

/-- What is emitted for a stack of statements has its assignments and its loops. -/
def Rolled (stack : Stack BlockHead RowHead) (before : Pass) (output : Output) (after : Pass) : Prop :=
  ∃ code, output = .statements code ∧ Turns before after stack.leaves stack.repeats code

/-- A site gives the lines of the opening of a name with their assignments and loops. -/
def Site.TurnsAt (site : Site) (name : String) (leaves : List Leaf)
    (repeats : List (Rows BlockHead RowHead)) : Prop :=
  site.GivesAt name fun s t text => Turns s t leaves repeats text

/-- The loops of a block: itself, if it is one, and those in its openings. -/
def repeatsOf (head : BlockHead) (rows : Rows BlockHead RowHead) : List (Rows BlockHead RowHead) :=
  (if BlockKind.ofName? head.type = some .repeatTimes then [rows] else []) ++
    head.bodies.flatMap rows.repeatsAt

section Leaves

variable {leaf : Leaf} {heads : List BlockHead} {code target value : String} {s : Pass}

/-- The line of a statement that gives nothing a value. -/
theorem assigns_nothing (other : leaf.head.assigns = false) {line : List Char}
    (none : assignee? line = none) :
    s.Assigns [leaf] [line] := by
  unfold Pass.Assigns
  rw [List.filter_cons_of_neg (by simp [other]), List.filterMap_cons_none none]
  exact .nil

/-- The line of a statement that gives a value to its variable. -/
theorem assigns_target (assigning : leaf.head.assigns)
    (assigned : s.names.assigned.get? (nameKey (leaf.head.field "VAR").word .variable) = some target)
    {line : List Char} (given : assignee? line = some target) : s.Assigns [leaf] [line] := by
  unfold Pass.Assigns
  rw [List.filter_cons_of_pos (by simpa using assigning), List.filterMap_cons_some given]
  exact .cons assigned .nil

/-- An expression as a statement. -/
theorem Shows.turns (shows : Shows heads code s) (assigns : s.Assigns [leaf] [(code ++ ";").toList]) :
    Turns s s [leaf] [] (code ++ ";" ++ "\n") := by
  obtain ⟨opens, oneLine⟩ := shows.opens_ended
  exact ⟨[(code ++ ";").toList], by simp [unlines], winds_leaf oneLine opens.declared?_eq_none assigns⟩

theorem assignee?_assignment {sign : String} (isName : IsName target.toList) (among : sign ∈ ["=", "+="]) :
    assignee? (target ++ spaced sign ++ value ++ ";").toList = some target := by
  have shape : (target ++ spaced sign ++ value ++ ";").toList =
      target.toList ++ ' ' :: (sign.toList ++ ' ' :: (value ++ ";").toList) := by
    simp [spaced]
  rw [shape, assignee?_word isName.1 isName.2.1 (by simp; decide)]
  simp only [List.mem_cons, List.not_mem_nil, or_false] at among
  rcases among with rfl | rfl
  · rw [if_pos (by rfl), String.ofList_toList]
  · rw [if_pos (by rfl), String.ofList_toList]

theorem Shows.turns_assigned (shows : Shows heads value s) {sign : String} (among : sign ∈ ["=", "+="])
    (isName : IsName target.toList) (assigning : leaf.head.assigns)
    (assigned : s.names.assigned.get? (nameKey (leaf.head.field "VAR").word .variable) = some target) :
    Turns s s [leaf] [] (target ++ spaced sign ++ value ++ ";" ++ "\n") :=
  (shows.assigned isName among).turns (assigns_target assigning assigned (assignee?_assignment isName among))

/-- A word that is given nothing starts a line that gives nothing a value. -/
theorem assignee?_other {word rest : List Char} (isName : IsName word) {c : Char}
    (foreign : isIdentifierChar c = false) (other : c ≠ ' ') :
    assignee? (word ++ c :: rest) = none := by
  have none : isGiven (c :: rest) = false := by
    unfold isGiven
    split
    · exact absurd ‹_ :: _ = _ :: _› fun same => other (List.cons.inj same).1
    · exact absurd ‹_ :: _ = _ :: _› fun same => other (List.cons.inj same).1
    · rfl
  rw [assignee?_word isName.1 isName.2.1 (by simpa using foreign), none]
  rfl

end Leaves

section Templates

variable {site : Site} {rows : Rows BlockHead RowHead} {heads : List BlockHead} {inside : String → List Leaf}
  {loops : String → List (Rows BlockHead RowHead)} {s : Pass}

theorem turns_print (named : BlockKind.ofName? site.head.type = some .print)
    (showsAt : site.ShowsAt "TEXT" heads) :
    Gives (Template.print site) s fun output t => Rolls s t [⟨site.head, rows⟩] [] output := by
  refine (gives_print showsAt).imp ?_
  rintro _ t precedes ⟨message, rfl, shows, _⟩
  refine ⟨_, rfl, (shows.printed.turns (assigns_nothing ?_ ?_)).stretch precedes .refl⟩
  · simp [BlockHead.assigns, named]
  · have shape : ("std::cout" ++ spaced "<<" ++ message ++ spaced "<<" ++ "std::endl" ++ ";").toList =
        "std".toList ++ ':' ::
          (":cout" ++ spaced "<<" ++ message ++ spaced "<<" ++ "std::endl" ++ ";").toList := by simp
    rw [shape, assignee?_other (by decide) (by decide) (by decide)]

theorem turns_setVariable (named : BlockKind.ofName? site.head.type = some .setVariable)
    (showsAt : site.ShowsAt "VALUE" heads) :
    Gives (Template.setVariable site) s fun output t => Rolls s t [⟨site.head, rows⟩] [] output := by
  refine (gives_setVariable showsAt).imp ?_
  rintro _ t precedes ⟨target, value, rfl, isName, assigned, shows⟩
  have turns := @Shows.turns_assigned ⟨site.head, rows⟩ _ _ _ _ shows "=" (by simp) isName
    (by simp [BlockHead.assigns, named]) assigned
  exact ⟨_, rfl, turns.stretch precedes .refl⟩

theorem turns_change (named : BlockKind.ofName? site.head.type = some .change)
    (showsAt : site.ShowsAt "DELTA" heads) :
    Gives (Template.change site) s fun output t => Rolls s t [⟨site.head, rows⟩] [] output := by
  refine (gives_change showsAt).imp ?_
  rintro _ t precedes ⟨target, value, rfl, isName, assigned, shows⟩
  have turns := @Shows.turns_assigned ⟨site.head, rows⟩ _ _ _ _ shows "+=" (by simp) isName
    (by simp [BlockHead.assigns, named]) assigned
  exact ⟨_, rfl, turns.stretch precedes .refl⟩

theorem turns_callProcedure {tight : Prop} {below : String → List BlockHead}
    (named : BlockKind.ofName? site.head.type = some .callProcedure)
    (valid : site.head.Valid tight .callProcedure)
    (showsAt : ∀ i : Nat, site.ShowsAt ("ARG" ++ toString i) (below ("ARG" ++ toString i))) :
    Gives (Template.callProcedure site) s fun output t => Rolls s t [⟨site.head, rows⟩] [] output := by
  refine (gives_callProcedure named valid showsAt).imp ?_
  rintro _ t precedes ⟨function, arguments, rfl, isName, _, each⟩
  refine ⟨_, rfl, ((shows_call isName each).turns (assigns_nothing ?_ ?_)).stretch precedes .refl⟩
  · simp [BlockHead.assigns, named]
  · have shape : (function ++ "(" ++ joinTexts ", " arguments ++ ")" ++ ";").toList =
        function.toList ++ '(' :: (joinTexts ", " arguments ++ ")" ++ ";").toList := by simp
    rw [shape, assignee?_other isName (by decide) (by decide)]

/-- A branch has what is in its arms, and then what is done otherwise. -/
theorem turns_branch {count : Nat} (arms : Template.armsOf site = List.range (count + 1))
    (showsAt : ∀ arm : Nat, ∃ heads, site.ShowsAt s!"IF{arm}" heads)
    (turnsAt : ∀ arm : Nat, site.TurnsAt s!"DO{arm}" (inside s!"DO{arm}") (loops s!"DO{arm}"))
    (turnsLast : site.TurnsAt "ELSE" (inside "ELSE") (loops "ELSE")) :
    let openings := ((List.range (count + 1)).map fun arm => s!"DO{arm}") ++
    if (site.socket? "ELSE").isSome then ["ELSE"] else []
    Gives (Template.branch site) s fun output t =>
      Rolls s t (openings.flatMap inside) (openings.flatMap loops) output := by
  intro openings
  have each : ∀ (arm : Nat) s, Gives (Template.arm site arm) s
      fun text t => Folds s t (inside s!"DO{arm}") (loops s!"DO{arm}") text := by
    intro arm s
    obtain ⟨heads, shows⟩ := showsAt arm
    refine (gives_arm (stretches_turns _ _) shows (turnsAt arm)).imp ?_
    rintro _ t precedes ⟨condition, body, rfl, shows, turns⟩
    exact turns.folds shows.neat.oneLine precedes
  refine (gives_arms arms each turnsLast).imp ?_
  rintro output t precedes ⟨texts, u, linked, rest⟩
  have filled : texts ≠ [] := by
    rintro rfl
    rw [List.range_succ_eq_map] at linked
    cases linked
  have joined := folds_joinTexts linked filled
  simp only [openings, List.flatMap_append, List.flatMap_map]
  by_cases otherwise : (site.socket? "ELSE").isSome
  · rw [if_pos otherwise] at rest
    obtain ⟨body, later, turns, rfl⟩ := rest
    rw [if_pos otherwise, List.flatMap_singleton, List.flatMap_singleton]
    exact ⟨_, rfl, (joined.otherwise turns linked.precedes later).ended precedes⟩
  · rw [if_neg otherwise] at rest
    obtain ⟨rfl, rfl⟩ := rest
    rw [if_neg otherwise, List.flatMap_nil, List.flatMap_nil, List.append_nil, List.append_nil]
    exact ⟨_, rfl, joined.ended precedes⟩

theorem turns_whileUntil (showsAt : site.ShowsAt "BOOL" heads)
    (turnsAt : site.TurnsAt "DO" (inside "DO") (loops "DO")) :
    Gives (Template.whileUntil site) s fun output t => Rolls s t (inside "DO") (loops "DO") output := by
  refine (gives_whileUntil (stretches_turns _ _) showsAt turnsAt).imp ?_
  rintro _ t precedes ⟨test, body, rfl, shows, turns⟩
  refine ⟨_, rfl, turns_braced ?_ turns precedes⟩
  have shape : ("while (" ++ test ++ ")" ++ " \x7b").toList =
      "while ".toList ++ '(' :: (test ++ ")" ++ " \x7b").toList := by simp
  have oneLine : OneLine (test ++ ")" ++ " \x7b") := by
    simp only [oneLine_append]
    exact ⟨⟨shows.neat.oneLine, by decide⟩, by decide⟩
  rw [shape]
  exact isIdle_test (by simp) oneLine

/-- A counting loop counts to what it is given. -/
theorem turns_repeatTimes {tight typed numeric : Prop} (isTyped : typed)
    (showsAt : site.ShowsAt "TIMES" heads)
    (offers : site.OffersAt tight typed numeric "TIMES" (rows.operand? · "TIMES"))
    (turnsAt : site.TurnsAt "DO" (rows.leavesAt "DO") (rows.repeatsAt "DO")) :
    Gives (Template.repeatTimes site) s fun output t =>
      Rolls s t (rows.leavesAt "DO") (rows :: rows.repeatsAt "DO") output := by
  have times : ∀ s, Gives (site.value "TIMES" .assignment "0") s fun code t =>
      Fills typed .assignment (fun pass => (rows.operand? pass "TIMES").getD (.numeral "0")) code t := by
    intro s
    exact ((showsAt.shows neat_zero .assignment).and_emits (offers.fills isLiteral_zero .assignment)).imp
      fun _ _ _ both => both.2
  refine (gives_repeatTimes (stretches_turns _ _) (fun _ _ _ _ _ _ later fills => fills.later later.grows)
    times turnsAt).imp ?_
  rintro output t _ ⟨code, body, counter, u, before, after, fills, turns, counted, rest⟩
  obtain ⟨oneLine, isRead⟩ := fills.reads isTyped
  split_ifs at rest with plain
  · subst rest
    have bound : IsName code.toList ∨ isNumeral code := by
      obtain ⟨e, inner, writes, _⟩ := fills
      rcases Bool.or_eq_true _ _ ▸ plain with word | numeral
      · exact writes.name_or_numeral word
      · exact .inr numeral
    have counts : ∀ lines, t.Assigns (rows.leavesAt "DO") lines →
        t.Counts rows ⟨counter, code, none, lines⟩ :=
      fun lines assigns => ⟨bound, iff_of_true rfl plain, isRead, assigns⟩
    have whole := turns.looped before after counts oneLine counted fun taken => by cases taken
    rw [Option.elim_none, String.empty_append] at whole
    exact ⟨_, rfl, whole⟩
  · obtain ⟨bound, mints, differs, rfl⟩ := rest
    have counts : ∀ lines, t.Assigns (rows.leavesAt "DO") lines →
        t.Counts rows ⟨counter, bound, some code, lines⟩ :=
      fun lines assigns => ⟨.inl mints.isName, iff_of_false (by simp) plain, isRead, assigns⟩
    have whole := turns.looped before after counts oneLine counted fun _ => ⟨mints, differs⟩
    rw [Option.elim_some] at whole
    exact ⟨_, rfl, whole⟩

end Templates

section Stacks

variable {known : Bool} {tight : Prop} {emitter : Emitter}

/-- A site gives what is emitted for the stack in an opening. -/
theorem turnsAt_row {head : BlockHead} {rows : Rows BlockHead RowHead} {below : Emission Output}
    {name : String} (each : ∀ s, Gives (emitter.emit (rows.at name)) s (Rolled (rows.at name) s)) :
    Site.TurnsAt ⟨head, emitter.sockets rows, below⟩ name (rows.leavesAt name) (rows.repeatsAt name) := by
  intro s
  rw [statements_row, Rows.leavesAt_eq, Rows.repeatsAt_eq]
  refine (each s).bind ?_
  rintro output t precedes ⟨code, rfl, turns⟩
  exact gives_return turns.indented

/-- The template for a statement gives its assignments and its loops, or those of the statements inside. -/
theorem turns_statement (templates : emitter.templates = knownTemplates) (strict : emitter.strict → known)
    {head : BlockHead} {rows : Rows BlockHead RowHead} {below : Emission Output} {kind : BlockKind}
    (named : BlockKind.ofName? head.type = some kind) (isStatement : kind.shape.plug = .statement)
    (valid : head.Valid tight kind) (ready : rows.Ready known tight (kind.rows head.mutation))
    (fit : rows.Fit)
    (meets : rows.Meets (kind.rows head.mutation))
    (each : ∀ name, (rows.at name).Ready known tight → (rows.at name).Fits → (rows.at name).IsStatement →
      ∀ s, Gives (emitter.emit (rows.at name)) s (Rolled (rows.at name) s)) (s : Pass) :
    Gives (kind.template ⟨head, emitter.sockets rows, below⟩) s
      fun output t => Rolls s t (leavesOf head rows) (repeatsOf head rows) output := by
  have showsAt : ∀ name, (∀ spec ∈ kind.rows head.mutation, spec.1 = name → spec.2.1 = .value) →
      Site.ShowsAt ⟨head, emitter.sockets rows, below⟩ name (rows.generatedAt name) := by
    intro name isValue
    exact showsAt_row (kind_of_find? isValue) ready (gives_operands templates rows)
  have turnsAt : ∀ name, (∀ spec ∈ kind.rows head.mutation, spec.1 = name → spec.2.1 = .statement) →
      Site.TurnsAt ⟨head, emitter.sockets rows, below⟩ name (rows.leavesAt name) (rows.repeatsAt name) := by
    intro name isOpening
    obtain ⟨readyThere, fits, there⟩ := ready.opening fit (kind_of_find? isOpening)
    exact turnsAt_row (each name readyThere fits there)
  have leaf : kind.isLeaf → leavesOf head rows = [⟨head, rows⟩] ∧ repeatsOf head rows = [] := by
    intro isLeaf
    rw [leavesOf, BlockHead.isLeaf, repeatsOf, BlockHead.bodies, BlockHead.openings, named, Option.any_some,
      if_pos isLeaf]
    cases kind <;> simp [BlockKind.isLeaf] at isLeaf ⊢
  have control : kind.isLeaf = false → leavesOf head rows = head.openings.flatMap rows.leavesAt := by
    intro isLeaf
    rw [leavesOf, BlockHead.isLeaf, named, Option.any_some, isLeaf, if_neg (by simp)]
  have nested : kind ≠ .repeatTimes → repeatsOf head rows = head.openings.flatMap rows.repeatsAt := by
    intro other
    have noDefinition : kind ≠ .defineProcedure := by
      rintro rfl
      cases isStatement
    rw [repeatsOf, BlockHead.bodies, named, if_neg (by simpa using other),
      if_neg (by simpa using noDefinition), List.nil_append]
  cases kind with
  | print =>
    rw [(leaf rfl).1, (leaf rfl).2]
    exact turns_print named (showsAt "TEXT" (by simp [BlockKind.rows, BlockKind.shape]))
  | setVariable =>
    rw [(leaf rfl).1, (leaf rfl).2]
    exact turns_setVariable named (showsAt "VALUE" (by simp [BlockKind.rows, BlockKind.shape]))
  | change =>
    rw [(leaf rfl).1, (leaf rfl).2]
    exact turns_change named (showsAt "DELTA" (by simp [BlockKind.rows, BlockKind.shape]))
  | callProcedure =>
    rw [(leaf rfl).1, (leaf rfl).2]
    exact turns_callProcedure named valid fun i => showsAt _ fun spec member _ =>
      kind_of_mem_arguments spec member
  | repeatTimes =>
    have openings : head.openings = ["DO"] := by simp [BlockHead.openings, named]
    have own : repeatsOf head rows = rows :: rows.repeatsAt "DO" := by
      rw [repeatsOf, BlockHead.bodies, named, openings, if_pos rfl, if_neg (by simp), List.flatMap_singleton,
        List.singleton_append]
    rw [control rfl, openings, List.flatMap_singleton, own]
    have isValue : ∀ spec ∈ BlockKind.repeatTimes.rows head.mutation, spec.1 = "TIMES" →
        spec.2.1 = .value := by
      simp [BlockKind.rows, BlockKind.shape]
    exact turns_repeatTimes meets (showsAt "TIMES" isValue) (offersAt_row (kind_of_find? isValue) ready
      (emits_operands templates strict rows)) (turnsAt "DO" (by simp [BlockKind.rows, BlockKind.shape]))
  | whileUntil =>
    have openings : head.openings = ["DO"] := by simp [BlockHead.openings, named]
    rw [control rfl, nested (by simp), openings, List.flatMap_singleton, List.flatMap_singleton]
    exact turns_whileUntil (showsAt "BOOL" (by simp [BlockKind.rows, BlockKind.shape]))
      (turnsAt "DO" (by simp [BlockKind.rows, BlockKind.shape]))
  | branch =>
    obtain ⟨count, counted⟩ := valid.arms
    have branches := @branches_of_count known tight emitter head rows below count named ready counted
    rw [control rfl, nested (by simp), branches.openings]
    exact turns_branch branches.arms (fun arm => ⟨_, showsAt _ (branches.conditions arm)⟩)
      (fun arm => turnsAt _ (branches.bodies arm))
      (turnsAt "ELSE" branches.last)
  | _ => cases isStatement

/-- What is emitted for a statement is what its template gives, between its comments and what follows. -/
theorem turns_chained (templates : emitter.templates = knownTemplates) (strict : emitter.strict → known)
    {head : BlockHead} {rows : Rows BlockHead RowHead} {next : Stack BlockHead RowHead}
    (enabled : head.disabled = false)
    (ready : (Stack.block head rows next).Ready known tight) (fits : (Stack.block head rows next).Fits)
    (isStatement : head.isStatement) (oneLine : OneLine head.type)
    (each : ∀ name, (rows.at name).Ready known tight → (rows.at name).Fits → (rows.at name).IsStatement →
      ∀ s, Gives (emitter.emit (rows.at name)) s (Rolled (rows.at name) s))
    (below : ∀ s, Gives (emitter.emit next) s (Rolled next s)) (s : Pass) :
    Gives (emitter.emit (.block head rows next)) s (Rolled (.block head rows next) s) := by
  obtain ⟨meets, fit, _⟩ := fits
  have readyHere := ready.1
  have leaves : (Stack.block head rows next).leaves = leavesOf head rows ++ next.leaves := by
    rw [Stack.leaves, enabled, if_neg (by simp)]
    rfl
  have repeats : (Stack.block head rows next).repeats = repeatsOf head rows ++ next.repeats := by
    rw [Stack.repeats, enabled, if_neg (by simp)]
    rfl
  have given :
      Gives (emitter.templateOf head.type >>= fun template =>
      template ⟨head, emitter.sockets rows, emitter.emit next⟩) s
      fun output t => Rolls s t (leavesOf head rows) (repeatsOf head rows) output := by
    cases named : BlockKind.ofName? head.type with
    | none =>
      refine (gives_unknown templates named s).imp ?_
      rintro _ t precedes rfl
      have output : head.hasOutput = false := by simpa [BlockHead.isStatement, named] using isStatement
      have text : "// TODO: no template for block type '" ++ head.type ++ "'\n" =
          "// TODO: no template for block type '" ++ head.type ++ "'" ++ "\n" := by
        rw [@String.append_assoc _ "'" "\n"]
        rfl
      rw [if_neg (by simp [output]), text, leavesOf, BlockHead.isLeaf, repeatsOf, BlockHead.bodies,
        BlockHead.openings, named]
      refine ⟨_, rfl, (turns_idle (isIdle_comment ?_ ?_)).stretch precedes .refl⟩
      · simp
      · exact oneLine_append.mpr ⟨oneLine_append.mpr ⟨by decide, oneLine⟩, by decide⟩
    | some kind =>
      rw [named] at readyHere
      obtain ⟨valid, readyRows⟩ := readyHere
      have plug : kind.shape.plug = .statement := by simpa [BlockHead.isStatement, named] using isStatement
      rw [Emitter.templateOf, templates, get?_knownTemplates, named]
      simp only [Option.map_some, pure_bind]
      exact turns_statement templates strict named plug valid readyRows fit (meets kind named) each s
  rw [Emitter.emit.eq_2, enabled, if_neg (by simp), emitSite_eq]
  refine given.bind ?_
  rintro output t precedes ⟨code, rfl, turns⟩
  dsimp only
  rw [Site.finish, bind_assoc]
  refine (below t).bind ?_
  rintro output u later ⟨others, rfl, turnsOthers⟩
  refine gives_return ⟨_, rfl, ?_⟩
  rw [leaves, repeats]
  exact (turns.behind (turns_comments _) precedes).append turnsOthers precedes later

mutual

/-- What is emitted for a stack of statements has its assignments and its loops. -/
theorem turns_stack (templates : emitter.templates = knownTemplates) (strict : emitter.strict → known)
    (stack : Stack BlockHead RowHead) (ready : stack.Ready known tight) (fits : stack.Fits)
    (isStatement : stack.IsStatement) (oneLine : ∀ head ∈ stack.heads, OneLine head.type) (s : Pass) :
    Gives (emitter.emit stack) s (Rolled stack s) := by
  match stack with
  | .empty =>
    rw [Emitter.emit]
    refine gives_return ⟨"", rfl, ?_⟩
    rw [Stack.leaves, Stack.repeats]
    exact turns_nothing
  | .block head rows next =>
    obtain ⟨oneLineHere, oneLineBelow⟩ := List.forall_mem_cons.mp oneLine
    obtain ⟨oneLineRows, oneLineNext⟩ := List.forall_mem_append.mp oneLineBelow
    have below := turns_stack templates strict next ready.2 fits.2.2.2.2 fits.2.2.1 oneLineNext
    cases enabled : head.disabled with
    | true =>
      rw [Emitter.emit, enabled, if_pos rfl]
      refine (below s).imp ?_
      rintro output t _ ⟨code, rfl, turns⟩
      refine ⟨code, rfl, ?_⟩
      rwa [Stack.leaves, Stack.repeats, enabled, if_pos rfl, if_pos rfl, List.nil_append, List.nil_append]
    | false =>
      refine turns_chained templates strict enabled ready fits isStatement.1 oneLineHere
        (fun name readyThere fitsThere there => ?_) below s
      exact turns_openings templates strict rows name readyThere fitsThere there fun other among =>
        oneLineRows other (rows.heads_at name among)

/-- What is emitted for the statements in some rows has their assignments and their loops. -/
theorem turns_openings (templates : emitter.templates = knownTemplates) (strict : emitter.strict → known)
    (rows : Rows BlockHead RowHead) (name : String) (ready : (rows.at name).Ready known tight)
    (fits : (rows.at name).Fits) (isStatement : (rows.at name).IsStatement)
    (oneLine : ∀ head ∈ (rows.at name).heads, OneLine head.type) (s : Pass) :
    Gives (emitter.emit (rows.at name)) s (Rolled (rows.at name) s) := by
  match rows with
  | .nil => exact turns_stack templates strict .empty ready fits isStatement oneLine s
  | .cons row plugged rest =>
    rw [Rows.at] at ready fits isStatement oneLine ⊢
    by_cases named : row.name = name
    · rw [if_pos named] at ready fits isStatement oneLine ⊢
      exact turns_stack templates strict plugged ready fits isStatement oneLine s
    · rw [if_neg named] at ready fits isStatement oneLine ⊢
      exact turns_openings templates strict rest name ready fits isStatement oneLine s

end

end Stacks

end BlockCompiler
