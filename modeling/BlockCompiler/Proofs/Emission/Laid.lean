import BlockCompiler.Proofs.Emission.Exhibits
import BlockCompiler.Proofs.Emission.Listing

/-!
The lines of statements: they nest, none of them says what only definitions say, and each block of the
statements is shown in one of them.
-/

namespace BlockCompiler

/-- The word behind a lead at the start of a line, spaces apart. -/
def wordBehind? (lead : String) (line : List Char) : Option String :=
  let bare := line.dropWhile (· = ' ')
  if lead.toList.isPrefixOf bare then
    match (bare.drop lead.toList.length).takeWhile isIdentifierChar with
    | [] => none
    | word => some (String.ofList word)
  else none

/-- What stands before the name of a procedure, where it is defined. -/
def procedureLead : String := "void "

/-- What stands before the names of whole numbers and of functions that give one, where these are declared. -/
def countLeads : List String := ["int ", "for (int "]

/-- A line as statements have it: it includes nothing, defines no procedure, and declares only counters. -/
structure Pass.IsSteady (pass : Pass) (line : List Char) : Prop where
  oneLine : '\n' ∉ line
  solid : isSolid line
  plain : (line.dropWhile (· = ' ')).head? ≠ some '#'
  defines : wordBehind? procedureLead line = none
  counts : ∀ lead ∈ countLeads, ∀ name, wordBehind? lead line = some name → pass.IsCounter name

/-- A text is made of whole lines that nest and are steady, and each of some blocks is shown in one of
them. -/
def Lays (a b : Nat) (heads : List BlockHead) (pass : Pass) (text : String) : Prop :=
  ∃ lines, text.toList = unlines lines ∧ Nests a b lines ∧ (∀ line ∈ lines, pass.IsSteady line) ∧
    ∀ head ∈ heads, ∃ line ∈ lines, head.ShownIn pass line

section Words

variable {lead : String} {line : List Char}

theorem wordBehind?_spaces (n : Nat) :
    wordBehind? lead (List.replicate n ' ' ++ line) = wordBehind? lead line := by
  unfold wordBehind?
  rw [List.dropWhile_append_of_pos (by simp)]

theorem wordBehind?_of_not_led (differs : ¬ lead.toList <+: line.dropWhile (· = ' ')) :
    wordBehind? lead line = none := by
  unfold wordBehind?
  exact if_neg fun leads => differs (List.isPrefixOf_iff_prefix.mp leads)

theorem wordBehind?_of_apart (apart : ∀ later, line.dropWhile (· = ' ') = lead.toList ++ later →
    ∀ c ∈ later.head?, isIdentifierChar c = false) : wordBehind? lead line = none := by
  by_cases leads : lead.toList <+: line.dropWhile (· = ' ')
  · obtain ⟨later, shape⟩ := leads
    have none : later.takeWhile isIdentifierChar = [] := by
      cases later with
      | nil => rfl
      | cons c later => rw [List.takeWhile_cons_of_neg (by simpa using apart _ shape.symm c rfl)]
    simp only [wordBehind?, ← shape, List.drop_left, none]
    split_ifs <;> rfl
  · exact wordBehind?_of_not_led leads

/-- Blanks at the end of a line are all that trimming takes from what comes behind the spaces at its start. -/
theorem exists_bare_trimEnd (line : List Char) :
    ∃ blanks, line.dropWhile (· = ' ') = (trimEnd line).dropWhile (· = ' ') ++ blanks ∧
    ∀ c ∈ blanks, isSpaceOrTab c := by
  obtain ⟨blanks, shape, spaces⟩ := exists_trimEnd line
  conv in line.dropWhile _ => rw [shape]
  rw [List.dropWhile_append]
  split_ifs with none
  · rw [List.isEmpty_iff] at none
    exact ⟨_,
      by rw [none, List.nil_append], fun c member => spaces c ((List.dropWhile_sublist _).subset member)⟩
  · exact ⟨blanks, rfl, spaces⟩

theorem isIdentifierChar_of_isSpaceOrTab {c : Char} (space : isSpaceOrTab c) :
    isIdentifierChar c = false := by
  simp only [isSpaceOrTab, Bool.or_eq_true, decide_eq_true_eq] at space
  rcases space with rfl | rfl <;> decide

/-- Blanks at the end of a line change nothing about the words in it. -/
theorem wordBehind?_trimEnd (lead : String) (line : List Char) :
    wordBehind? lead (trimEnd line) = wordBehind? lead line := by
  obtain ⟨rest, whole, spaces⟩ := exists_bare_trimEnd line
  have outside : ∀ c ∈ rest, isIdentifierChar c = false :=
    fun c member => isIdentifierChar_of_isSpaceOrTab (spaces c member)
  have none : ∀ {text : List Char}, (∀ c ∈ text, isIdentifierChar c = false) →
      text.takeWhile isIdentifierChar = [] := by
    intro text all
    cases text with
    | nil => rfl
    | cons c text => rw [List.takeWhile_cons_of_neg (by simpa using all c (List.mem_cons_self ..))]
  by_cases leads : lead.toList <+: (trimEnd line).dropWhile (· = ' ')
  · obtain ⟨later, front⟩ := leads
    have word : (later ++ rest).takeWhile isIdentifierChar = later.takeWhile isIdentifierChar := by
      rw [List.takeWhile_append, none outside, List.append_nil]
      split_ifs with all
      · exact ((List.takeWhile_prefix _).eq_of_length all).symm
      · rfl
    simp only [wordBehind?, whole, ← front, List.append_assoc, List.drop_left, word]
    rw [if_pos (by simp), if_pos (by simp)]
  · rw [wordBehind?_of_not_led leads, wordBehind?_of_apart]
    intro later same c headed
    rw [whole] at same
    have short : ((trimEnd line).dropWhile (· = ' ')).length ≤ lead.toList.length := by
      by_contra long
      exact leads (List.prefix_of_prefix_length_le ⟨later, same.symm⟩ (List.prefix_append ..) (by omega))
    obtain ⟨between, _, back⟩ : ∃ between, lead.toList = (trimEnd line).dropWhile (· = ' ') ++ between ∧
      rest = between ++ later := by
      rcases List.append_eq_append_iff.mp same with ⟨between, front, back⟩ | ⟨between, front, back⟩
      · exact ⟨between, front, back⟩
      · have length := congrArg List.length front
        rw [List.length_append] at length
        obtain rfl : between = [] := List.length_eq_zero_iff.mp (by omega)
        exact ⟨[], by simpa using front.symm, by simpa using back.symm⟩
    exact outside c (by rw [back]; exact List.mem_append_right _ (List.mem_of_mem_head? headed))

end Words

section Steady

variable {line : List Char} {first : Char} {s t : Pass}

theorem dropWhile_of_solid (headed : line.head? = some first) (solid : isBlank first = false) :
    line.dropWhile (· = ' ') = line :=
  (takeWhile_spaces 0 headed solid).2

namespace Pass.IsSteady

theorem later (steady : s.IsSteady line) (precedes : s.Precedes t) : t.IsSteady line :=
  ⟨steady.oneLine, steady.solid, steady.plain, steady.defines, fun lead among name found =>
    (steady.counts lead among name found).later precedes⟩

theorem spaces (steady : s.IsSteady line) (n : Nat) : s.IsSteady (List.replicate n ' ' ++ line) := by
  refine ⟨List.not_mem_append (by simp) steady.oneLine, ?_, ?_, ?_, fun lead among name found => ?_⟩
  · rw [isSolid, List.any_append, Bool.or_eq_true]
    exact .inr steady.solid
  · rw [List.dropWhile_append_of_pos (by simp)]
    exact steady.plain
  · rw [wordBehind?_spaces]
    exact steady.defines
  · rw [wordBehind?_spaces] at found
    exact steady.counts lead among name found

end Pass.IsSteady

theorem isCommentLine_of_head (headed : line.head? = some first) (solid : isBlank first = false)
    (code : first ≠ '/') :
    isCommentLine line = false := by
  by_contra comment
  obtain ⟨words, start⟩ := List.isPrefixOf_iff_prefix.mp (Bool.not_eq_false _ ▸ comment)
  rw [dropWhile_of_solid headed solid] at start
  rw [← start] at headed
  exact code (Option.some.inj headed).symm

theorem wordBehind?_of_head {lead : String} (led : Char) (headed : line.head? = some first)
    (solid : isBlank first = false) (leads : lead.toList.head? = some led) (differs : led ≠ first) :
    wordBehind? lead line = none := by
  apply wordBehind?_of_not_led
  rintro ⟨later, shape⟩
  rw [dropWhile_of_solid headed solid] at shape
  rw [← shape, List.head?_append, leads] at headed
  exact differs (Option.some.inj headed)

/-- A line is steady if its first character tells that it is none of the others. -/
theorem isSteady_of_head (first : Char) (oneLine : '\n' ∉ line) (headed : line.head? = some first)
    (solid : isBlank first = false) (other : first ∉ ['#', 'v', 'i', 'f']) : s.IsSteady line := by
  have bare := dropWhile_of_solid headed solid
  have differs : ∀ lead : String, (∃ c ∈ lead.toList.head?, c ∈ ['v', 'i', 'f']) →
      wordBehind? lead line = none := by
    rintro lead ⟨c, led, among⟩
    refine wordBehind?_of_head c headed solid led ?_
    rintro rfl
    exact other (List.mem_cons_of_mem _ among)
  refine ⟨oneLine, isSolid_spaces 0 headed solid, ?_, differs _ ⟨'v', rfl, by decide⟩,
    fun lead among name found => ?_⟩
  · rw [bare, headed]
    rintro ⟨⟩
    exact other (by simp)
  · have leads : ∀ lead ∈ countLeads, ∃ c ∈ lead.toList.head?, c ∈ ['v', 'i', 'f'] := by decide
    rw [differs lead (leads lead among)] at found
    cases found

/-- What a code opens with, as a line starts. -/
theorem Opens.exists_first (opens : Opens line) :
    ∃ c, line.head? = some c ∧ isBlank c = false ∧ c ∉ ['/', '#', '\x7d'] := by
  obtain ⟨⟨c, headed, start⟩, _⟩ := opens
  have facts : ∀ c ∈ openingSigns, isBlank c = false ∧ c ∉ ['/', '#', '\x7d'] := by decide
  have foreign : ∀ c ∈ ['/', '#', '\x7d'], isIdentifierChar c = false := by decide
  rcases start with inWord | sign
  · refine ⟨c, headed, not_isBlank_of_isIdentifierChar inWord, fun among => ?_⟩
    rw [foreign c among] at inWord
    cases inWord
  · exact ⟨c, headed, facts c sign⟩

/-- A line that starts as an expression does declares and defines nothing. -/
theorem Opens.wordBehind?_eq_none (opens : Opens line) {lead : String}
    (among : lead ∈ procedureLead :: countLeads) :
    wordBehind? lead line = none := by
  obtain ⟨c, headed, solid, _⟩ := opens.exists_first
  have bare := dropWhile_of_solid headed solid
  have none : ∀ word back : String, (∀ c ∈ word.toList, isIdentifierChar c) →
      (∀ c ∈ back.toList.head?, c = '(') →
      wordBehind? (word ++ " " ++ back) line = none := by
    intro word back inWord bracket
    apply wordBehind?_of_apart
    intro later shape d next
    rw [bare] at shape
    obtain ⟨e, front, apart⟩ := opens.2 word.toList (back.toList ++ later) inWord (by rw [shape]; simp)
    cases letters : back.toList with
    | nil =>
      rw [letters, List.nil_append] at front
      cases front.symm.trans next
      exact apart.1
    | cons f more =>
      rw [letters] at front bracket
      obtain rfl : f = e := by simpa using front
      exact absurd (bracket f rfl) apart.2
  have leads : ∀ lead ∈ procedureLead :: countLeads, ∃ word ∈ ["void", "int", "for"], ∃ back ∈ ["", "(int "],
      lead = word ++ " " ++ back := by decide
  obtain ⟨word, amongWords, back, amongBacks, rfl⟩ := leads lead among
  have inWord : ∀ word ∈ ["void", "int", "for"], ∀ c ∈ word.toList, isIdentifierChar c := by decide
  have bracket : ∀ back ∈ ["", "(int "], ∀ c ∈ back.toList.head?, c = '(' := by decide
  exact none word back (inWord word amongWords) (bracket back amongBacks)

/-- A line that starts as an expression does is steady. -/
theorem Opens.isSteady (opens : Opens line) (oneLine : '\n' ∉ line) : s.IsSteady line := by
  obtain ⟨c, headed, solid, other⟩ := opens.exists_first
  refine ⟨oneLine, isSolid_spaces 0 headed solid, ?_, opens.wordBehind?_eq_none (List.mem_cons_self ..),
    fun lead among name found => ?_⟩
  · rw [dropWhile_of_solid headed solid, headed]
    rintro ⟨⟩
    exact other (by simp)
  · rw [opens.wordBehind?_eq_none (List.mem_cons_of_mem _ among)] at found
    cases found

theorem wordBehind?_word {lead name : String} {rest : List Char}
    (led : ∃ c ∈ lead.toList.head?, isBlank c = false) (isName : IsName name.toList)
    (apart : ∀ c ∈ rest.head?, isIdentifierChar c = false) :
    wordBehind? lead (lead.toList ++ (name.toList ++ rest)) = some name := by
  obtain ⟨c, front, solid⟩ := led
  obtain ⟨filled, inName, _⟩ := isName
  have bare : (lead.toList ++ (name.toList ++ rest)).dropWhile (· = ' ') =
      lead.toList ++ (name.toList ++ rest) :=
    dropWhile_of_solid (by rw [List.head?_append, front]; rfl) solid
  have word : (name.toList ++ rest).takeWhile isIdentifierChar = name.toList := by
    rw [List.takeWhile_append_of_pos inName]
    cases rest with
    | nil => simp
    | cons d rest => rw [List.takeWhile_cons_of_neg (by simpa using apart d rfl), List.append_nil]
  simp only [wordBehind?, bare, List.drop_left, word]
  rw [if_pos (by simp)]
  simp

/-- The line of a counter is steady. -/
theorem isSteady_counter {lead name : String} {rest : List Char} (among : lead ∈ countLeads)
    (isName : IsName name.toList) (apart : ∀ c ∈ rest.head?, isIdentifierChar c = false)
    (isCounter : s.IsCounter name) (oneLine : '\n' ∉ rest) :
    s.IsSteady (lead.toList ++ (name.toList ++ rest)) := by
  have facts : ∀ lead ∈ countLeads, '\n' ∉ lead.toList ∧ ∃ c, lead.toList.head? = some c ∧
      isBlank c = false ∧ c ≠ '#' ∧
      c ≠ 'v' := by decide
  have distinct : ∀ lead ∈ countLeads, ∀ other ∈ countLeads, lead.toList.head? = other.toList.head? →
      lead = other := by decide
  obtain ⟨oneLineLead, c, front, solid, noHash, noVoid⟩ := facts lead among
  have headed : (lead.toList ++ (name.toList ++ rest)).head? = some c := by rw [List.head?_append, front]; rfl
  have bare := dropWhile_of_solid headed solid
  have leads : ∀ other : String, (∃ d, other.toList.head? = some d) →
      other.toList <+: (lead.toList ++ (name.toList ++ rest)).dropWhile (· = ' ') →
        other.toList.head? = some c := by
    rintro other ⟨d, first⟩ ⟨later, shape⟩
    rw [bare] at shape
    rw [← headed, ← shape, List.head?_append, first]
    rfl
  refine ⟨?_, isSolid_spaces 0 headed solid, ?_, ?_, fun other inLeads word found => ?_⟩
  · refine List.not_mem_append oneLineLead (List.not_mem_append ?_ oneLine)
    exact oneLine_word isName
  · rw [bare, headed]
    rintro ⟨⟩
    exact noHash rfl
  · apply wordBehind?_of_not_led
    intro start
    cases leads procedureLead ⟨'v', rfl⟩ start
    exact noVoid rfl
  · by_cases same : other = lead
    · subst same
      rw [wordBehind?_word ⟨c, front, solid⟩ isName apart] at found
      cases found
      exact isCounter
    · rw [wordBehind?_of_not_led] at found
      · cases found
      · intro start
        obtain ⟨_, d, first, _⟩ := facts other inLeads
        exact same (distinct other inLeads lead among ((leads other ⟨d, first⟩ start).trans front.symm))

end Steady

section Lays

variable {a b c : Nat} {heads more : List BlockHead} {s t : Pass} {text other code : String}

theorem lays_nothing : Lays a a [] s "" := ⟨[], rfl, nests_nil, by simp, by simp⟩

theorem Lays.later (lays : Lays a b heads s text) (precedes : s.Precedes t) : Lays a b heads t text := by
  obtain ⟨lines, shape, nests, steady, shown⟩ := lays
  refine ⟨lines, shape, nests, fun line member => (steady line member).later precedes, fun head among => ?_⟩
  obtain ⟨line, member, holds⟩ := shown head among
  exact ⟨line, member, holds.later precedes⟩

/-- Each block is shown in a line of the text that is not blank and defines no procedure. -/
theorem Lays.exists_line (lays : Lays a b heads s text) : ∀ head ∈ heads,
    ∃ line ∈ firmLines text.toList, wordBehind? procedureLead line = none ∧ head.ShownIn s line := by
  obtain ⟨lines, shape, _, steady, shown⟩ := lays
  intro head among
  obtain ⟨line, member, holds⟩ := shown head among
  rw [shape, firmLines_unlines fun line member => (steady line member).oneLine]
  refine ⟨_, mem_firmOf.mpr ⟨line, member, (steady line member).solid, rfl⟩, ?_, holds.trimEnd⟩
  rw [wordBehind?_trimEnd]
  exact (steady line member).defines

theorem Lays.append (first : Lays a b heads s text) (second : Lays b c more s other) :
    Lays a c (heads ++ more) s (text ++ other) := by
  obtain ⟨lines, shape, nests, steady, shown⟩ := first
  obtain ⟨linesOther, shapeOther, nestsOther, steadyOther, shownOther⟩ := second
  refine ⟨lines ++ linesOther, ?_, nests.append nestsOther, List.forall_mem_append.mpr ⟨steady, steadyOther⟩,
    List.forall_mem_append.mpr ⟨fun head among => ?_, fun head among => ?_⟩⟩
  · rw [String.toList_append, shape, shapeOther, unlines, unlines, unlines, List.flatMap_append]
  · obtain ⟨line, member, holds⟩ := shown head among
    exact ⟨line, List.mem_append_left _ member, holds⟩
  · obtain ⟨line, member, holds⟩ := shownOther head among
    exact ⟨line, List.mem_append_right _ member, holds⟩

/-- Lines that are put two spaces further in stand inside one brace more. -/
theorem Lays.indented (lays : Lays 0 0 heads s text) :
    Lays 1 1 heads s (if text = "" then "" else leadLines indent text) := by
  obtain ⟨lines, shape, nests, steady, shown⟩ := lays
  refine ⟨lines.map ("  ".toList ++ ·),
    ite_leadLines_unlines (fun line member => (steady line member).oneLine) shape,
    nests.indented, fun line member => ?_, fun head among => ?_⟩
  · obtain ⟨old, there, rfl⟩ := List.mem_map.mp member
    exact (steady old there).spaces 2
  · obtain ⟨line, member, holds⟩ := shown head among
    have edged : Edged "  ".toList := by simp [Edged]; decide
    exact ⟨_, List.mem_map_of_mem member, holds.within (within_refl.behind edged)⟩

theorem lays_comments (site : Site) : Lays 0 0 [] s site.comments := by
  obtain ⟨lines, shape, each⟩ := site.exists_slashedLines
  refine ⟨lines, shape, nests_comments fun line member => (each line member).1,
    fun line member => ?_, by simp⟩
  obtain ⟨⟨words, rfl⟩, oneLine⟩ := each line member
  exact isSteady_of_head '/' oneLine rfl (by decide) (by decide)

/-- A single line. -/
theorem lays_line {line : String} (first : Char) (headed : line.toList.head? = some first)
    (solid : isBlank first = false) (code : first ≠ '/') (closing : a = if first = '\x7d' then 1 else 0)
    (shifts : Shifts a b line.toList) (steady : s.IsSteady line.toList)
    (shown : ∀ head ∈ heads, head.ShownIn s line.toList) : Lays a b heads s (line ++ "\n") := by
  have noComment := isCommentLine_of_head headed solid code
  refine ⟨[line.toList],
    by simp [unlines], nests_line first headed solid noComment closing shifts, ?_, fun head among => ?_⟩
  · exact List.forall_mem_singleton.mpr steady
  · exact ⟨_, List.mem_singleton_self _, shown head among⟩

/-- An expression opens its line as a statement. -/
theorem Shows.opens_ended (shows : Shows heads code s) :
    Opens (code ++ ";").toList ∧ OneLine (code ++ ";") := by
  refine ⟨?_, oneLine_append.mpr ⟨shows.neat.oneLine, by decide⟩⟩
  rw [String.toList_append]
  exact shows.neat.opens.append (follows_cons (by decide) (by decide))

/-- An expression as a statement. -/
theorem Shows.lays (shows : Shows heads code s) : Lays 0 0 heads s (code ++ ";" ++ "\n") := by
  obtain ⟨opens, oneLine⟩ := shows.opens_ended
  have balanced : Balanced (code ++ ";").toList := by
    rw [String.toList_append]
    exact shows.neat.balanced.append (balanced_of_plain (by decide))
  obtain ⟨c, headed, solid, other⟩ := opens.exists_first
  refine lays_line _ headed solid ?_ ?_ balanced (opens.isSteady oneLine) (shows.within (within_front code _))
  · rintro rfl
    exact other (by simp)
  · rw [if_neg]
    rintro rfl
    exact other (by simp)

/-- What may stand before the head of an arm, and how many braces it closes. -/
def armLeads : List (String × Nat) := [("", 0), ("\x7d else ", 1)]

/-- A line with a word, something in parentheses and a brace that opens. -/
theorem shifts_opening_line {before word : String} (among : (before, a) ∈ armLeads)
    (words : word ∈ ["if ", "while ", "for "]) (balanced : Balanced code.toList) :
    Shifts a 1 (before ++ word ++ "(" ++ code ++ ") \x7b").toList := by
  have front : Shifts a 0 (before ++ word).toList := by
    have plain : ∀ word ∈ ["if ", "while ", "for "], ∀ c ∈ word.toList, isBracket c = false ∧
        c ≠ '\x27' := by decide
    have isPlain := balanced_of_plain (plain word words)
    simp only [armLeads, List.mem_cons, Prod.mk.injEq, List.not_mem_nil, or_false] at among
    rcases among with ⟨rfl, rfl⟩ | ⟨rfl, rfl⟩
    · rw [String.empty_append]
      exact isPlain
    · rw [String.toList_append]
      exact (shifts_closing.append (balanced_of_plain (by decide) : Balanced " else ".toList)).append isPlain
  have inner : Balanced ('(' :: (code.toList ++ [')'])) := balanced.enclosed '(' ')' (by simp)
  have blank : Balanced [' '] := balanced_of_plain (by decide)
  have whole := front.append (Shifts.append inner (Shifts.append blank shifts_opening))
  simpa using whole

/-- The head of a branch declares and defines nothing. -/
theorem wordBehind?_if {lead : String} (among : lead ∈ procedureLead :: countLeads) (rest : List Char) :
    wordBehind? lead ("if (".toList ++ rest) = none := by
  apply wordBehind?_of_not_led
  rw [dropWhile_of_solid (show ("if (".toList ++ rest).head? = some 'i' from rfl) (by decide)]
  simp only [procedureLead, countLeads, List.mem_cons, List.not_mem_nil, or_false] at among
  rcases among with rfl | rfl | rfl <;> simp

/-- The head of a branch is steady. -/
theorem isSteady_if {rest : List Char} (oneLine : '\n' ∉ rest) : s.IsSteady ("if (".toList ++ rest) := by
  have headed : ("if (".toList ++ rest).head? = some 'i' := rfl
  refine ⟨List.not_mem_append (by decide) oneLine, isSolid_spaces 0 headed (by decide), ?_,
    wordBehind?_if (List.mem_cons_self ..) rest,
    fun lead among name found => ?_⟩
  · rw [dropWhile_of_solid headed (by decide)]
    exact fun same => absurd same (by simp)
  · rw [wordBehind?_if (List.mem_cons_of_mem _ among)] at found
    cases found

/-- The head of a branch or of a loop with a test. -/
theorem Shows.lays_test (shows : Shows heads code s) (before word : String) (among : (before, a) ∈ armLeads)
    (words : word ∈ ["if ", "while "]) :
    Lays a 1 heads s (before ++ word ++ "(" ++ code ++ ") \x7b" ++ "\n") := by
  have oneLine : OneLine (before ++ word ++ "(" ++ code ++ ") \x7b") := by
    have plain : ∀ entry ∈ armLeads, ∀ word ∈ ["if ", "while "], '\n' ∉ (entry.1 ++ word ++ "(").toList := by
      decide
    exact oneLine_append.mpr ⟨oneLine_append.mpr ⟨plain _ among word words, shows.neat.oneLine⟩, by decide⟩
  have wider : ∀ word ∈ ["if ", "while "], word ∈ ["if ", "while ", "for "] := by decide
  have shifts := shifts_opening_line among (wider word words) shows.neat.balanced
  have shown : ∀ head ∈ heads, head.ShownIn s (before ++ word ++ "(" ++ code ++ ") \x7b").toList :=
    shows.within (within_between (edged_text ⟨'(', rfl, by decide⟩) _)
  simp only [armLeads, List.mem_cons, Prod.mk.injEq, List.not_mem_nil, or_false] at among words
  rcases among with ⟨rfl, rfl⟩ | ⟨rfl, rfl⟩
  · rcases words with rfl | rfl
    · refine lays_line 'i' (by simp) (by decide) (by decide) rfl shifts ?_ shown
      have steady :=
        @isSteady_if s (code ++ ") \x7b").toList (oneLine_append.mpr ⟨shows.neat.oneLine, by decide⟩)
      simpa using steady
    · exact lays_line 'w' (by simp) (by decide) (by decide) rfl shifts
        (isSteady_of_head 'w' oneLine (by simp) (by decide) (by decide)) shown
  · exact lays_line '\x7d' (by simp) (by decide) (by decide) rfl shifts
      (isSteady_of_head '\x7d' oneLine (by simp) (by decide) (by decide)) shown

/-- A last brace. -/
theorem lays_closing : Lays 1 0 [] s ("\x7d" ++ "\n") :=
  lays_line '\x7d' rfl (by decide) (by decide) rfl shifts_closing
    (isSteady_of_head '\x7d' (by decide) rfl (by decide) (by decide)) (by simp)

/-- What comes before what is done otherwise. -/
theorem lays_otherwise : Lays 1 1 [] s ("\x7d else \x7b" ++ "\n") := by
  have shifts : Shifts 1 1 "\x7d else \x7b".toList :=
    Shifts.append shifts_closing
      (Shifts.append (balanced_of_plain (by decide) : Balanced " else ".toList) shifts_opening)
  exact lays_line '\x7d' rfl (by decide) (by decide) rfl shifts
    (isSteady_of_head '\x7d' (by decide) rfl (by decide) (by decide)) (by simp)

/-- A block in braces, cut after its head. -/
theorem braced_eq (head body : String) : braced head body = head ++ " \x7b" ++ "\n" ++ body ++ "\x7d" := by
  have feed : " \x7b\n" = " \x7b" ++ "\n" := rfl
  simp only [braced, feed, ← String.append_assoc]

/-- The lines of a block in braces. -/
theorem lays_braced {head body : String} (opening : Lays 0 1 heads s (head ++ " \x7b" ++ "\n"))
    (inside : Lays 1 1 more s body) :
    Lays 0 0 (heads ++ more) s (braced head body ++ "\n") := by
  have whole := (opening.append inside).append lays_closing
  rw [List.append_nil] at whole
  rwa [braced_eq, @String.append_assoc _ "\x7d"]

/-- A text has the lines of a block up to the brace that closes it, at the start of a line or behind an
earlier brace. -/
def Encloses (heads : List BlockHead) (pass : Pass) (text : String) : Prop :=
  ∃ front, text = front ++ "\x7d" ∧ ∀ entry ∈ armLeads, Lays entry.2 1 heads pass (entry.1 ++ front)

theorem Encloses.later (encloses : Encloses heads s text) (precedes : s.Precedes t) :
    Encloses heads t text := by
  obtain ⟨front, shape, lays⟩ := encloses
  exact ⟨front, shape, fun entry among => (lays entry among).later precedes⟩

theorem Shows.encloses {body : String} (shows : Shows heads code s) (inside : Lays 1 1 more s body) :
    Encloses (heads ++ more) s (braced ("if (" ++ code ++ ")") body) := by
  refine ⟨"if (" ++ code ++ ")" ++ " \x7b" ++ "\n" ++ body, ?_, fun entry among => ?_⟩
  · rw [braced_eq]
  · have whole := (shows.lays_test entry.1 "if " among (by simp)).append inside
    have lead : "if (" = "if " ++ "(" := rfl
    have brace : ") \x7b" = ")" ++ " \x7b" := rfl
    simpa only [lead, brace, ← String.append_assoc] using whole

/-- What comes after the brace of a block starts in the line of the brace. -/
theorem Encloses.followed (encloses : Encloses heads s text) (others : Encloses more s other) :
    Encloses (heads ++ more) s (text ++ " else " ++ other) := by
  obtain ⟨front, rfl, lays⟩ := encloses
  obtain ⟨back, rfl, laysOther⟩ := others
  refine ⟨front ++ ("\x7d else " ++ back), ?_, fun entry among => ?_⟩
  · have brace : "\x7d else " = "\x7d" ++ " else " := rfl
    simp only [brace, String.append_assoc]
  · rw [← String.append_assoc]
    exact (lays entry among).append (laysOther ("\x7d else ", 1) (by simp [armLeads]))

/-- A last block without a condition. -/
theorem Encloses.otherwise {body : String} (encloses : Encloses heads s text)
    (inside : Lays 1 1 more s body) :
    Encloses (heads ++ more) s (text ++ (" else" ++ braced "" body)) := by
  obtain ⟨front, rfl, lays⟩ := encloses
  refine ⟨front ++ ("\x7d else \x7b" ++ "\n" ++ body), ?_, fun entry among => ?_⟩
  · have brace : "\x7d else \x7b" ++ "\n" = "\x7d" ++ (" else" ++ " \x7b\n") := rfl
    rw [brace, braced, String.empty_append]
    simp only [String.append_assoc]
  · have whole := (lays entry among).append (lays_otherwise.append inside)
    rw [List.nil_append] at whole
    simpa only [String.append_assoc] using whole

/-- A line feed behind the last brace ends the last line. -/
theorem Encloses.ended (encloses : Encloses heads s text) : Lays 0 0 heads s (text ++ "\n") := by
  obtain ⟨front, rfl, lays⟩ := encloses
  have first := lays ("", 0) (by simp [armLeads])
  rw [String.empty_append] at first
  have whole := first.append lays_closing
  rwa [List.append_nil, ← String.append_assoc] at whole

theorem encloses_joinTexts {α : Type} {items : List α} {texts : List String} {inside : α → List BlockHead}
    (filled : texts ≠ []) (each : List.Forall₂ (fun item text => Encloses (inside item) s text) items texts) :
    Encloses (items.flatMap inside) s (joinTexts " else " texts) := by
  induction each with
  | nil => exact absurd rfl filled
  | @cons item text items texts first others ih =>
    cases others with
    | nil => simpa [joinTexts] using first
    | @cons next other items texts _ _ =>
      rw [List.flatMap_cons, joinTexts, String.intercalate_cons_cons]
      exact first.followed (ih (by simp))

end Lays

end BlockCompiler
