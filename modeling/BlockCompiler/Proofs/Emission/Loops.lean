import BlockCompiler.Proofs.Emission.Laid

/-!
Loops that count: which lines give a value to a name, which declare a number, and how the loops stand in the
lines of statements. The lines of statements give values to variables only, and the numbers that they declare
are those of their loops, each under a name that was handed out for it alone.
-/

namespace BlockCompiler

/-- Whether a text starts with an equals sign that is not doubled. -/
def startsWithEquals : List Char → Bool
  | '=' :: rest => rest.head? ≠ some '='
  | _ => false

/-- Whether what stands behind a name gives it a value, or adds one to it. -/
def isGiven : List Char → Bool
  | ' ' :: '+' :: rest => startsWithEquals rest
  | ' ' :: rest => startsWithEquals rest
  | _ => false

/-- The name that a line gives or adds a value to, spaces apart. -/
def assignee? (line : List Char) : Option String :=
  let bare := line.dropWhile (· = ' ')
  let word := bare.takeWhile isIdentifierChar
  if word ≠ [] ∧ isGiven (bare.dropWhile isIdentifierChar) then some (String.ofList word) else none

/-- The name that a line declares for a whole number, or for a function that gives one. -/
def declared? (line : List Char) : Option String := countLeads.findSome? (wordBehind? · line)

/-- A line on its own that neither declares a number nor gives anything a value. -/
structure IsIdle (line : List Char) : Prop where
  oneLine : '\n' ∉ line
  gives : assignee? line = none
  declares : declared? line = none

section Words

variable {line word rest : List Char}

theorem assignee?_spaces (n : Nat) : assignee? (List.replicate n ' ' ++ line) = assignee? line := by
  unfold assignee?
  rw [List.dropWhile_append_of_pos (by simp)]

theorem declared?_spaces (n : Nat) : declared? (List.replicate n ' ' ++ line) = declared? line := by
  unfold declared?
  simp only [wordBehind?_spaces]

theorem declared?_trimEnd (line : List Char) : declared? (trimEnd line) = declared? line := by
  unfold declared?
  simp only [wordBehind?_trimEnd]

theorem startsWithEquals_of_head {c : Char} (differs : c ≠ '=') : startsWithEquals (c :: rest) = false := by
  simp [startsWithEquals, differs]

theorem isGiven_of_head {c : Char} (noPlus : c ≠ '+') (noEquals : c ≠ '=') :
    isGiven (' ' :: c :: rest) = false := by
  simp [isGiven, noPlus, startsWithEquals_of_head noEquals]

theorem isGiven_append (rest : List Char) {more : List Char} (sign : ∀ c ∈ more, c ≠ '=' ∧ c ≠ '+') :
    isGiven (rest ++ more) = isGiven rest := by
  have same : ∀ text, startsWithEquals (text ++ more) = startsWithEquals text := by
    intro text
    match text, more with
    | [], [] => rfl
    | [], c :: more => exact startsWithEquals_of_head (sign c (List.mem_cons_self ..)).1
    | [c], [] => rfl
    | [c], d :: more =>
      have differs := (sign d (List.mem_cons_self ..)).1
      by_cases equals : c = '='
      · simp [startsWithEquals, equals, differs]
      · simp [startsWithEquals, equals]
    | c :: d :: text, more =>
      by_cases equals : c = '='
      · simp [startsWithEquals, equals]
      · simp [startsWithEquals, equals]
  match rest, more with
  | [], [] => rfl
  | [], [c] =>
    by_cases space : c = ' '
    · rw [space]
      rfl
    · simp [isGiven, space]
  | [], c :: d :: more =>
    obtain ⟨noEquals, noPlus⟩ := sign d (by simp)
    by_cases space : c = ' '
    · rw [List.nil_append, space, isGiven_of_head noPlus noEquals]
      rfl
    · simp [isGiven, space]
  | [c], [] => rfl
  | [c], d :: more =>
    obtain ⟨noEquals, noPlus⟩ := sign d (by simp)
    by_cases space : c = ' '
    · rw [List.singleton_append, space, isGiven_of_head noPlus noEquals]
      rfl
    · simp [isGiven, space]
  | c :: d :: rest, more =>
    by_cases space : c = ' '
    · by_cases plus : d = '+'
      · simpa [isGiven, space, plus] using same rest
      · simpa [isGiven, space, plus] using same (d :: rest)
    · simp [isGiven, space]

/-- What neither goes on with a word nor gives anything changes nothing at the end of a line. -/
theorem assignee?_of_bare {other more : List Char}
    (whole : other.dropWhile (· = ' ') = line.dropWhile (· = ' ') ++ more)
    (foreign : ∀ c ∈ more, isIdentifierChar c = false ∧ c ≠ '=' ∧ c ≠ '+') :
    assignee? other = assignee? line := by
  have none := @takeWhile_run isIdentifierChar [] more (by simp) fun c headed =>
    (foreign c (List.mem_of_mem_head? headed)).1
  rw [List.nil_append] at none
  unfold assignee?
  rw [whole]
  generalize line.dropWhile (· = ' ') = bare
  have word : (bare ++ more).takeWhile isIdentifierChar = bare.takeWhile isIdentifierChar := by
    rw [List.takeWhile_append, none.1, List.append_nil]
    split_ifs with all
    · exact ((List.takeWhile_prefix _).eq_of_length all).symm
    · rfl
  have rest : (bare ++ more).dropWhile isIdentifierChar = bare.dropWhile isIdentifierChar ++ more := by
    rw [List.dropWhile_append]
    split_ifs with all
    · rw [List.isEmpty_iff] at all
      rw [all, none.2, List.nil_append]
    · rfl
  simp only [word, rest, isGiven_append _ fun c member => (foreign c member).2]

/-- Blanks at the end of a line change nothing about what it gives a value to. -/
theorem assignee?_trimEnd (line : List Char) : assignee? (trimEnd line) = assignee? line := by
  obtain ⟨blanks, whole, spaces⟩ := exists_bare_trimEnd line
  refine (assignee?_of_bare whole fun c member => ?_).symm
  have space := spaces c member
  refine ⟨isIdentifierChar_of_isSpaceOrTab space, ?_, ?_⟩ <;> rintro rfl <;> cases space

/-- What a line starts with is given a value if what stands behind the word says so. -/
theorem assignee?_word (filled : word ≠ []) (inWord : ∀ c ∈ word, isIdentifierChar c)
    (apart : ∀ c ∈ rest.head?, isIdentifierChar c = false) :
    assignee? (word ++ rest) = if isGiven rest then some (String.ofList word) else none := by
  obtain ⟨c, more, rfl⟩ := List.exists_cons_of_ne_nil filled
  have solid := not_isBlank_of_isIdentifierChar (inWord c (List.mem_cons_self ..))
  have bare : (c :: more ++ rest).dropWhile (· = ' ') = c :: more ++ rest := dropWhile_of_solid rfl solid
  obtain ⟨taken, dropped⟩ := takeWhile_run inWord apart
  simp only [assignee?, bare, taken, dropped]
  simp

theorem assignee?_of_foreign {first : Char} (headed : line.head? = some first) (solid : isBlank first = false)
    (foreign : isIdentifierChar first = false) : assignee? line = none := by
  have none : line.takeWhile isIdentifierChar = [] := by
    cases line with
    | nil => rfl
    | cons c line =>
      obtain rfl : c = first := by simpa using headed
      exact List.takeWhile_cons_of_neg (by simpa using foreign)
  simp only [assignee?, dropWhile_of_solid headed solid, none]
  simp

theorem declared?_eq_none (each : ∀ lead ∈ countLeads, wordBehind? lead line = none) :
    declared? line = none :=
  List.findSome?_eq_none_iff.mpr each

theorem Opens.declared?_eq_none (opens : Opens line) : declared? line = none :=
  BlockCompiler.declared?_eq_none fun _ among => opens.wordBehind?_eq_none (List.mem_cons_of_mem _ among)

/-- A line that starts with a sign is idle. -/
theorem isIdle_of_foreign {first : Char} (oneLine : '\n' ∉ line) (headed : line.head? = some first)
    (solid : isBlank first = false) (foreign : isIdentifierChar first = false) : IsIdle line := by
  refine ⟨oneLine, assignee?_of_foreign headed solid foreign, declared?_eq_none fun lead among => ?_⟩
  have leads : ∀ lead ∈ countLeads, ∃ c, lead.toList.head? = some c ∧ isIdentifierChar c := by decide
  obtain ⟨c, led, inWord⟩ := leads lead among
  refine wordBehind?_of_head c headed solid led ?_
  rintro rfl
  rw [inWord] at foreign
  cases foreign

/-- The head of a branch or of a loop with a test is idle. -/
theorem isIdle_test {word : String} (among : word ∈ ["if ", "while "]) (oneLine : '\n' ∉ rest) :
    IsIdle (word.toList ++ '(' :: rest) := by
  have names : ∀ word ∈ ["if ", "while "], ∃ name : String, word = name ++ " " ∧ name.toList ≠ [] ∧
      ∀ c ∈ name.toList, isIdentifierChar c := by
    simp only [List.mem_cons, List.not_mem_nil, or_false]
    rintro word (rfl | rfl)
    · exact ⟨"if", rfl, by decide, by decide⟩
    · exact ⟨"while", rfl, by decide, by decide⟩
  refine ⟨?_, ?_, declared?_eq_none fun lead inLeads => ?_⟩
  · have plain : ∀ word ∈ ["if ", "while "], '\n' ∉ word.toList := by decide
    exact List.not_mem_append (plain word among) (by simpa using oneLine)
  · obtain ⟨name, rfl, filled, inWord⟩ := names word among
    rw [String.toList_append, List.append_assoc, assignee?_word filled inWord (by simp; decide)]
    rfl
  · simp only [List.mem_cons, List.not_mem_nil, or_false] at among
    rcases among with rfl | rfl
    · exact wordBehind?_if (List.mem_cons_of_mem _ inLeads) rest
    · have leads : ∀ lead ∈ countLeads, ∃ c, lead.toList.head? = some c ∧ c ≠ 'w' := by decide
      obtain ⟨c, led, differs⟩ := leads lead inLeads
      exact wordBehind?_of_head c (show ("while ".toList ++ '(' :: rest).head? = some 'w' from rfl)
        (by decide) led differs

/-- A line that declares a name gives nothing a value. -/
theorem assignee?_declaration {name : List Char} (filled : word ≠ [])
    (inWord : ∀ c ∈ word, isIdentifierChar c) (isName : IsName name) (rest : List Char) :
    assignee? (word ++ ' ' :: (name ++ rest)) = none := by
  obtain ⟨filledName, inName, _⟩ := isName
  obtain ⟨c, more, rfl⟩ := List.exists_cons_of_ne_nil filledName
  have inside := inName c (List.mem_cons_self ..)
  have none : isGiven (' ' :: (c :: more ++ rest)) = false :=
    isGiven_of_head (ne_of_isIdentifierChar inside (by decide)) (ne_of_isIdentifierChar inside (by decide))
  rw [assignee?_word filled inWord (by simp; decide), none]
  rfl

theorem declared?_of_lead {lead name : String} (among : lead ∈ countLeads) (isName : IsName name.toList)
    (apart : ∀ c ∈ rest.head?, isIdentifierChar c = false) :
    declared? (lead.toList ++ (name.toList ++ rest)) = some name := by
  have here : wordBehind? lead (lead.toList ++ (name.toList ++ rest)) = some name := by
    have solid : ∀ lead ∈ countLeads, ∃ c ∈ lead.toList.head?, isBlank c = false := by decide
    exact wordBehind?_word (solid lead among) isName apart
  simp only [countLeads, List.mem_cons, List.not_mem_nil, or_false] at among
  unfold declared? countLeads
  rcases among with rfl | rfl
  · rw [List.findSome?_cons, here]
  · have other : wordBehind? "int " ("for (int ".toList ++ (name.toList ++ rest)) = none :=
      wordBehind?_of_head 'i' (show ("for (int ".toList ++ (name.toList ++ rest)).head? = some 'f' from rfl)
        (by decide) rfl (by decide)
    rw [List.findSome?_cons, other, List.findSome?_cons, here]

end Words

/-- A loop that counts: its counter, what that is compared with, the count if that is taken before the loop,
and the lines of the body. -/
structure Loop where
  counter : String
  bound : String
  taken? : Option String
  body : List (List Char)

namespace Loop

/-- What the loop counts to, as it is written where that is computed. -/
def count (loop : Loop) : String := loop.taken?.getD loop.bound

/-- The names that are declared for a loop. -/
def names (loop : Loop) : List String := (loop.taken?.map fun _ => loop.bound).toList ++ [loop.counter]

/-- The line of a count that is taken before the loop. -/
def opening (loop : Loop) : List (List Char) :=
  (loop.taken?.map fun code => ("int " ++ loop.bound ++ " = " ++ code ++ ";").toList).toList

/-- The head of a loop, in which the counter is compared with the bound. -/
def header (loop : Loop) : List Char :=
  (s!"for (int {loop.counter} = 0; {loop.counter} < {loop.bound}; {loop.counter}++)" ++ " \x7b").toList

/-- The lines of a loop. -/
def lines (loop : Loop) : List (List Char) := loop.opening ++ loop.header :: (loop.body ++ [['\x7d']])

/-- A loop stands among some lines, perhaps further in. -/
def StandsIn (loop : Loop) (lines : List (List Char)) : Prop :=
  ∃ n, loop.lines.map (List.replicate n ' ' ++ ·) <:+: lines

end Loop

/-- Whether a block gives a value to a variable, or adds one to it. -/
def BlockHead.assigns (head : BlockHead) : Bool :=
  BlockKind.ofName? head.type = some .setVariable || BlockKind.ofName? head.type = some .change

/-- The names of the openings of a block in which statements are generated. -/
def BlockHead.bodies (head : BlockHead) : List String :=
  if BlockKind.ofName? head.type = some .defineProcedure then ["STACK"] else head.openings

mutual

/-- The loops of a stack that count, each by its rows, before those inside it. Nothing inside a disabled block
counts, but what follows it does. -/
def Stack.repeats : Stack BlockHead RowHead → List (Rows BlockHead RowHead)
  | .empty => []
  | .block head rows next =>
    (if head.disabled then [] else
      (if BlockKind.ofName? head.type = some .repeatTimes then [rows] else []) ++
      head.bodies.flatMap rows.repeatsAt) ++
      next.repeats

/-- The loops in the row of a name that count. -/
def Rows.repeatsAt : Rows BlockHead RowHead → String → List (Rows BlockHead RowHead)
  | .nil, _ => []
  | .cons row plugged rest, name => if row.name = name then plugged.repeats else rest.repeatsAt name

end

theorem Rows.repeatsAt_eq (rows : Rows BlockHead RowHead) (name : String) :
    rows.repeatsAt name = (rows.at name).repeats := by
  match rows with
  | .nil =>
    rw [repeatsAt, Rows.at, Stack.repeats]
  | .cons row plugged rest =>
    rw [repeatsAt, Rows.at]
    split_ifs
    · rfl
    · exact repeatsAt_eq rest name

/-- The lines that give values are those of the blocks that do so, one for each, with their variables under
the names of a pass. -/
def Pass.Assigns (pass : Pass) (leaves : List Leaf) (lines : List (List Char)) : Prop :=
  List.Forall₂ (fun leaf name => pass.names.assigned.get? (nameKey (leaf.head.field "VAR").word .variable) =
    some name)
    (leaves.filter (·.head.assigns)) (lines.filterMap assignee?)

/-- A loop counts to what its block is given, and takes the count before it starts unless that is a word or a
numeral. Its body has the assignments of all blocks in its opening. -/
structure Pass.Counts (pass : Pass) (rows : Rows BlockHead RowHead) (loop : Loop) : Prop where
  bound : IsName loop.bound.toList ∨ isNumeral loop.bound
  taken : loop.taken? = none ↔ isWord loop.count || isNumeral loop.count
  count : ∀ later, pass.Grows later → IsReadAs loop.count ((rows.operand? later "TIMES").getD (.numeral "0"))
  assigns : pass.Assigns (rows.leavesAt "DO") loop.body

/-- The names that loops ask for. -/
def loopWords : List String := ["count", "repeat_end"]

/-- Different names have been handed out for loops between two states of a pass, each for itself alone. -/
structure Pass.Reserves (before after : Pass) (names : List String) : Prop where
  once : names.Nodup
  each : ∀ name ∈ names, ∃ wanted ∈ loopWords, before.Mints after wanted name

/-- Some lines have the assignments of some statements and the loops of some blocks, and declare what these
loops need. -/
structure Winds (before after : Pass) (leaves : List Leaf) (repeats : List (Rows BlockHead RowHead))
    (lines : List (List Char)) :
    Prop where
  oneLine : ∀ line ∈ lines, '\n' ∉ line
  assigns : after.Assigns leaves lines
  loops : ∃ loops, List.Forall₂ (fun rows loop => after.Counts rows loop ∧ loop.StandsIn lines)
    repeats loops ∧
    lines.filterMap declared? = loops.flatMap Loop.names ∧ before.Reserves after (loops.flatMap Loop.names)

section Winds

variable {r s t u : Pass} {leaves more : List Leaf} {repeats others : List (Rows BlockHead RowHead)}
  {rows : Rows BlockHead RowHead} {lines rest : List (List Char)} {line : List Char} {names : List String}
  {loop : Loop}

theorem Pass.Assigns.later (assigns : s.Assigns leaves lines) (precedes : s.Precedes t) :
    t.Assigns leaves lines :=
  assigns.imp fun _ _ assigned => precedes.grows.names _ _ assigned

theorem Pass.Assigns.append (first : s.Assigns leaves lines) (second : s.Assigns more rest) :
    s.Assigns (leaves ++ more) (lines ++ rest) := by
  unfold Pass.Assigns
  rw [List.filter_append, List.filterMap_append]
  exact List.rel_append first second

/-- What is given a value in lines that assign to variables is a variable. -/
theorem Pass.Assigns.exists_key (assigns : s.Assigns leaves lines) (among : line ∈ lines) {name : String}
    (given : assignee? line = some name) : ∃ key, s.names.assigned.get? key = some name := by
  have member : name ∈ lines.filterMap assignee? := List.mem_filterMap.mpr ⟨line, among, given⟩
  obtain ⟨leaf, _, assigned⟩ := exists_related assigns.flip member
  exact ⟨_, assigned⟩

theorem Pass.Counts.later (counts : s.Counts rows loop) (precedes : s.Precedes t) : t.Counts rows loop :=
  ⟨counts.bound, counts.taken, fun later grows => counts.count later (precedes.grows.trans grows),
    counts.assigns.later precedes⟩

theorem reserves_nothing : s.Reserves t [] := ⟨.nil, by simp⟩

theorem Pass.Reserves.stretch (reserves : s.Reserves t names) (before : r.Precedes s) (after : t.Precedes u) :
    r.Reserves u names := by
  refine ⟨reserves.once, fun name among => ?_⟩
  obtain ⟨wanted, inWords, mints⟩ := reserves.each name among
  exact ⟨wanted, inWords, (mints.earlier before).later after⟩

theorem Pass.Reserves.perm {others : List String} (reserves : s.Reserves t names) (perm : names.Perm others) :
    s.Reserves t others :=
  ⟨perm.nodup_iff.mp reserves.once, fun name among => reserves.each name (perm.mem_iff.mpr among)⟩

/-- Names that are handed out later differ from those before. -/
theorem Pass.Reserves.append {others : List String} (first : s.Reserves t names)
    (second : t.Reserves u others) (before : s.Precedes t) (after : t.Precedes u) :
    s.Reserves u (names ++ others) := by
  refine ⟨first.once.append second.once fun name early late => ?_, List.forall_mem_append.mpr
    ⟨(first.stretch .refl after).each, (second.stretch before .refl).each⟩⟩
  obtain ⟨_, _, mints⟩ := first.each name early
  obtain ⟨_, _, mintsLate⟩ := second.each name late
  exact mintsLate.fresh mints.isPrivate.1

theorem Loop.StandsIn.mono (stands : loop.StandsIn lines) (inside : lines <:+: rest) :
    loop.StandsIn rest := by
  obtain ⟨n, here⟩ := stands
  exact ⟨n, here.trans inside⟩

theorem Loop.StandsIn.indented (stands : loop.StandsIn lines) :
    loop.StandsIn (lines.map (List.replicate 2 ' ' ++ ·)) := by
  obtain ⟨n, here⟩ := stands
  refine ⟨2 + n, ?_⟩
  have further := here.map (List.replicate 2 ' ' ++ ·)
  rw [List.map_map] at further
  simpa only [List.replicate_add, List.append_assoc, Function.comp_def] using further

theorem winds_idle (idle : ∀ line ∈ lines, IsIdle line) : Winds s t [] [] lines := by
  refine ⟨fun line member => (idle line member).oneLine, ?_, [], .nil, ?_, reserves_nothing⟩
  · unfold Pass.Assigns
    rw [List.filterMap_eq_nil_iff.mpr fun line member => (idle line member).gives]
    exact .nil
  · rw [List.filterMap_eq_nil_iff.mpr fun line member => (idle line member).declares]
    rfl

/-- The line of a statement. -/
theorem winds_leaf {leaf : Leaf} (oneLine : '\n' ∉ line) (declares : declared? line = none)
    (assigns : s.Assigns [leaf] [line]) :
    Winds s s [leaf] [] [line] :=
  ⟨List.forall_mem_singleton.mpr oneLine, assigns, [], .nil, by simp [declares], reserves_nothing⟩

theorem Winds.stretch (winds : Winds s t leaves repeats lines) (before : r.Precedes s)
    (after : t.Precedes u) :
    Winds r u leaves repeats lines := by
  obtain ⟨loops, counted, declares, reserves⟩ := winds.loops
  exact ⟨winds.oneLine, winds.assigns.later after, loops,
    counted.imp fun _ _ both => ⟨both.1.later after, both.2⟩, declares,
    reserves.stretch before after⟩

theorem Winds.append (first : Winds s t leaves repeats lines) (second : Winds t u more others rest)
    (before : s.Precedes t) (after : t.Precedes u) :
    Winds s u (leaves ++ more) (repeats ++ others) (lines ++ rest) := by
  obtain ⟨loops, counted, declares, reserves⟩ := first.loops
  obtain ⟨loopsMore, countedMore, declaresMore, reservesMore⟩ := second.loops
  refine ⟨List.forall_mem_append.mpr ⟨first.oneLine, second.oneLine⟩,
    (first.assigns.later after).append second.assigns,
    loops ++ loopsMore, List.rel_append ?_ ?_, ?_, ?_⟩
  · exact counted.imp fun _ _ both => ⟨both.1.later after, both.2.mono (List.infix_append' [] _ _)⟩
  · exact countedMore.imp fun _ _ both => ⟨both.1, both.2.mono (List.suffix_append ..).isInfix⟩
  · rw [List.filterMap_append, declares, declaresMore, List.flatMap_append]
  · rw [List.flatMap_append]
    exact reserves.append reservesMore before after

theorem Winds.indented (winds : Winds s t leaves repeats lines) :
    Winds s t leaves repeats (lines.map (List.replicate 2 ' ' ++ ·)) := by
  obtain ⟨loops, counted, declares, reserves⟩ := winds.loops
  refine ⟨fun line member => ?_, ?_, loops, counted.imp fun _ _ both => ⟨both.1, both.2.indented⟩, ?_,
    reserves⟩
  · obtain ⟨old, among, rfl⟩ := List.mem_map.mp member
    exact List.not_mem_append (by simp) (winds.oneLine old among)
  · unfold Pass.Assigns
    rw [List.filterMap_map]
    simp only [Function.comp_def, assignee?_spaces]
    exact winds.assigns
  · rw [List.filterMap_map]
    simp only [Function.comp_def, declared?_spaces]
    exact declares

section Own

variable (loop : Loop)

theorem Loop.header_eq : loop.header = "for (int ".toList ++ (loop.counter.toList ++
    (" = 0; " ++ loop.counter ++ " < " ++ loop.bound ++ "; " ++ loop.counter ++ "++)" ++
    " \x7b").toList) := by
  rw [← String.toList_append, ← String.toList_append]
  show ("for (int " ++ loop.counter ++ " = 0; " ++ loop.counter ++ " < " ++ loop.bound ++ "; " ++
    loop.counter ++ "++)" ++ " \x7b").toList = _
  simp only [String.append_assoc]

/-- The head of a loop declares the counter. -/
theorem Loop.facts_header (isName : IsName loop.counter.toList) (oneLine : OneLine loop.bound) :
    '\n' ∉ loop.header ∧ assignee? loop.header = none ∧ declared? loop.header = some loop.counter := by
  rw [loop.header_eq]
  refine ⟨?_, ?_, declared?_of_lead (by simp [countLeads]) isName (by simp; decide)⟩
  · have counter : OneLine loop.counter := oneLine_word isName
    have rest :
        OneLine (" = 0; " ++ loop.counter ++ " < " ++ loop.bound ++ "; " ++ loop.counter ++ "++)" ++
        " \x7b") := by
      simp only [oneLine_append]
      exact ⟨⟨⟨⟨⟨⟨⟨by decide, counter⟩, by decide⟩, oneLine⟩, by decide⟩, counter⟩, by decide⟩, by decide⟩
    exact List.not_mem_append (by decide) (List.not_mem_append counter rest)
  · have word : "for (int ".toList = "for".toList ++ " (int ".toList := rfl
    rw [word, List.append_assoc, assignee?_word (by decide) (by decide) (by simp; decide)]
    rfl

/-- The line of a count that is taken before a loop declares the bound. -/
theorem Loop.facts_opening (named : loop.taken?.isSome → IsName loop.bound.toList)
    (oneLine : OneLine loop.count) :
    (∀ line ∈ loop.opening, '\n' ∉ line ∧ assignee? line = none) ∧
      loop.opening.filterMap declared? = (loop.taken?.map fun _ => loop.bound).toList := by
  cases taken : loop.taken? with
  | none => simp [Loop.opening, taken]
  | some code =>
    have isName := named (by rw [taken]; rfl)
    have shape : ("int " ++ loop.bound ++ " = " ++ code ++ ";").toList =
        "int ".toList ++ (loop.bound.toList ++ (" = " ++ code ++ ";").toList) := by
      simp only [← String.toList_append, String.append_assoc]
    have declares : declared? ("int " ++ loop.bound ++ " = " ++ code ++ ";").toList = some loop.bound := by
      rw [shape]
      exact declared?_of_lead (by simp [countLeads]) isName (by simp; decide)
    have lead : "int ".toList = "int".toList ++ [' '] := rfl
    have gives : assignee? ("int " ++ loop.bound ++ " = " ++ code ++ ";").toList = none := by
      rw [shape, lead, List.append_assoc]
      exact assignee?_declaration (by decide) (by decide) isName _
    have single : OneLine ("int " ++ loop.bound ++ " = " ++ code ++ ";") := by
      rw [Loop.count, taken, Option.getD_some] at oneLine
      simp only [oneLine_append]
      exact ⟨⟨⟨⟨by decide, oneLine_word isName⟩, by decide⟩, oneLine⟩, by decide⟩
    simp only [Loop.opening, taken, Option.map_some, Option.toList_some, List.mem_singleton, forall_eq,
      List.filterMap_cons, declares,
      List.filterMap_nil]
    exact ⟨⟨single, gives⟩, trivial⟩

end Own

/-- The names of a loop are handed out one after the other. -/
theorem reserves_names (counter : u.Mints t "count" loop.counter)
    (minted : loop.taken?.isSome → u.Mints t "repeat_end" loop.bound ∧ loop.bound ≠ loop.counter) :
    u.Reserves t loop.names := by
  have own : ∃ wanted ∈ loopWords, u.Mints t wanted loop.counter := ⟨"count", by simp [loopWords], counter⟩
  unfold Loop.names
  cases taken : loop.taken? with
  | none => exact ⟨by simp, by simpa using own⟩
  | some code =>
    obtain ⟨mints, differs⟩ := minted (by rw [taken]; rfl)
    refine ⟨by simpa using differs, List.forall_mem_cons.mpr ⟨⟨"repeat_end", by simp [loopWords], mints⟩, ?_⟩⟩
    exact List.forall_mem_singleton.mpr own

/-- A loop around some lines. -/
theorem Winds.looped (inside : Winds s u (rows.leavesAt "DO") repeats loop.body) (before : s.Precedes u)
    (after : u.Precedes t) (counts : t.Counts rows loop) (oneLine : OneLine loop.count)
    (counter : u.Mints t "count" loop.counter)
    (minted : loop.taken?.isSome → u.Mints t "repeat_end" loop.bound ∧ loop.bound ≠ loop.counter) :
    Winds s t (rows.leavesAt "DO") (rows :: repeats) loop.lines := by
  obtain ⟨loops, counted, declares, reserves⟩ := inside.loops
  have single : OneLine loop.bound := by
    cases taken : loop.taken? with
    | none => simpa only [Loop.count, taken, Option.getD_none] using oneLine
    | some code => exact oneLine_word (minted (by rw [taken]; rfl)).1.isName
  have opening := loop.facts_opening (fun some => (minted some).1.isName) oneLine
  obtain ⟨headerLine, headerGives, headerDeclares⟩ := loop.facts_header counter.isName single
  have closing : IsIdle ['\x7d'] := isIdle_of_foreign (by decide) rfl (by decide) (by decide)
  have body : loop.body <:+: loop.lines := ⟨loop.opening ++ [loop.header], [['\x7d']], by simp [Loop.lines]⟩
  refine ⟨?_, ?_, loop :: loops, .cons ⟨counts, 0, by simp⟩ ?_, ?_, ?_⟩
  · refine List.forall_mem_append.mpr
      ⟨fun line member => (opening.1 line member).1, List.forall_mem_cons.mpr ⟨headerLine, ?_⟩⟩
    exact List.forall_mem_append.mpr ⟨inside.oneLine, List.forall_mem_singleton.mpr closing.oneLine⟩
  · have given : loop.lines.filterMap assignee? = loop.body.filterMap assignee? := by
      rw [Loop.lines, List.filterMap_append,
        List.filterMap_eq_nil_iff.mpr fun line member => (opening.1 line member).2,
        List.filterMap_cons_none headerGives, List.filterMap_append, List.nil_append,
        List.filterMap_cons_none closing.gives]
      simp
    unfold Pass.Assigns
    rw [given]
    exact inside.assigns.later after
  · exact counted.imp fun _ _ both => ⟨both.1.later after, both.2.mono body⟩
  · rw [Loop.lines, List.filterMap_append, opening.2, List.filterMap_cons_some headerDeclares,
      List.filterMap_append, declares,
      List.filterMap_cons_none closing.declares]
    simp [Loop.names]
  · rw [List.flatMap_cons]
    exact (reserves.append (reserves_names counter minted) before after).perm List.perm_append_comm

end Winds

end BlockCompiler
