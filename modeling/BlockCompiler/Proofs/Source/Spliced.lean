import BlockCompiler.Proofs.Coupling.Stripped
import BlockCompiler.Proofs.Source.Gathered
import BlockCompiler.Proofs.Text.Wrapped

/-!
Comments and line ends: only lines of comments end with a backslash, and only those that a word of a comment
ends. Where none does, the code is read as it is without comments.
-/

namespace BlockCompiler

section Lines

variable {lead line : List Char} {lines : List (List Char)} {stack : Stack BlockHead RowHead}

/-- How a line ends does not depend on what stands before it, unless that has backslashes. -/
theorem goesOn_trimEnd_append (other : '\\' ∉ lead) :
    GoesOn (trimEnd (lead ++ line)) ↔ GoesOn (trimEnd line) := by
  induction lead with
  | nil => rfl
  | cons c lead ih =>
    simp only [List.mem_cons, not_or] at other
    rw [List.cons_append, trimEnd_cons, ← ih other.2]
    cases rest : trimEnd (lead ++ line) with
    | nil =>
      have nothing : ¬ GoesOn [] := by simp [GoesOn]
      rw [iff_false_right nothing]
      split_ifs
      · exact nothing
      · simpa [GoesOn] using Ne.symm other.1
    | cons d rest =>
      rw [if_neg (by simp), GoesOn, GoesOn, List.getLast?_cons_cons]

/-- A line whose last character is no space has no spaces at its end. -/
theorem trimEnd_of_solid (solid : ∀ c ∈ line.getLast?, isSpaceOrTab c = false) (filled : line ≠ []) :
    trimEnd line = line := by
  have whole := trimEnd_append [] solid filled
  rwa [List.append_nil, show trimEnd [] = [] from rfl, List.append_nil] at whole

/-- A line that ends with a backslash has no spaces at its end, and is not blank. -/
theorem trimEnd_of_goesOn (goesOn : GoesOn line) : trimEnd line = line ∧ isSolid line := by
  have filled : line ≠ [] := by
    rintro rfl
    cases goesOn
  have solid : isBlank '\\' = false := by decide
  refine ⟨?_, List.any_eq_true.mpr ⟨'\\', List.mem_of_getLast? goesOn, by rw [solid]; rfl⟩⟩
  refine trimEnd_of_solid (fun c last => ?_) filled
  obtain rfl : '\\' = c := Option.some.inj (goesOn.symm.trans last)
  decide

theorem EndsStatement.not_goesOn (ends : EndsStatement line) : ¬ GoesOn (trimEnd line) := by
  obtain ⟨c, among, last⟩ := ends
  have filled : line ≠ [] := by
    rintro rfl
    cases last
  have chars : ∀ c ∈ [';', '\x7b', '\x7d'], isSpaceOrTab c = false ∧ c ≠ '\\' := by decide
  have whole : trimEnd line = line := by
    refine trimEnd_of_solid (fun d same => ?_) filled
    obtain rfl : c = d := Option.some.inj (last.symm.trans same)
    exact (chars c among).1
  rw [whole]
  exact fun goesOn => (chars c among).2 (Option.some.inj (last.symm.trans goesOn))

theorem EndsStatement.isSolid (ends : EndsStatement line) : isSolid line := by
  obtain ⟨c, among, last⟩ := ends
  have solid : ∀ c ∈ [';', '\x7b', '\x7d'], isBlank c = false := by decide
  exact List.any_eq_true.mpr ⟨c, List.mem_of_getLast? last, by rw [solid c among]; rfl⟩

/-- A line of a rendered stack that ends with a backslash is one of its comments. -/
theorem Stack.Renders.goesOn_iff (renders : stack.Renders lines) :
    (∃ line ∈ firmOf lines, GoesOn line) ↔ ∃ line ∈ stack.noted, GoesOn (trimEnd line) := by
  have spaces : ∀ line : List Char, GoesOn (trimEnd line) ↔ GoesOn (trimEnd (line.dropWhile (· = ' '))) := by
    intro line
    have leads : '\\' ∉ line.takeWhile (· = ' ') := fun member => by
      simpa using List.all_eq_true.mp List.all_takeWhile _ member
    calc GoesOn (trimEnd line)
        ↔ GoesOn (trimEnd (line.takeWhile (· = ' ') ++ line.dropWhile (· = ' '))) := by
          rw [List.takeWhile_append_dropWhile]
      _ ↔ _ := goesOn_trimEnd_append leads
  rw [← renders.remarkLines]
  constructor
  · rintro ⟨_, member, goesOn⟩
    obtain ⟨line, among, _, rfl⟩ := mem_firmOf.mp member
    refine ⟨_, List.mem_map_of_mem (f := (·.dropWhile (· = ' '))) (List.mem_filter.mpr ⟨among, ?_⟩),
      (spaces line).mp goesOn⟩
    exact (renders.lines_end line among).resolve_right fun ends => ends.not_goesOn goesOn
  · rintro ⟨_, member, goesOn⟩
    obtain ⟨line, among, rfl⟩ := List.mem_map.mp member
    have ends := (spaces line).mpr goesOn
    refine ⟨_, mem_firmOf.mpr ⟨line, (List.mem_filter.mp among).1, ?_, rfl⟩, ends⟩
    rw [← isSolid_trimEnd]
    exact (trimEnd_of_goesOn ends).2

theorem Stack.Renders.isCommentLine_of_goesOn (renders : stack.Renders lines) (member : line ∈ firmOf lines)
    (goesOn : GoesOn line) :
    isCommentLine line := by
  obtain ⟨line, among, _, rfl⟩ := mem_firmOf.mp member
  rw [isCommentLine_trimEnd]
  exact (renders.lines_end line among).resolve_right fun ends => ends.not_goesOn goesOn

end Lines

section Comments

/-- The comments that a block lifts are those of blocks in its rows. -/
theorem Rows.lifted_subset (rows : Rows BlockHead RowHead) : rows.lifted ⊆ rows.comments := by
  cases rows with
  | nil =>
    rw [Rows.lifted]
    exact List.nil_subset _
  | cons row plugged rest =>
    rw [Rows.lifted, Rows.comments_cons]
    refine List.append_subset.mpr ⟨List.Subset.trans ?_ (List.subset_append_left ..),
      List.Subset.trans (Rows.lifted_subset rest) (List.subset_append_right ..)⟩
    split_ifs
    · exact List.Subset.refl _
    · exact List.nil_subset _

/-- A line above the code of a block ends with a backslash only if a word of a comment does. -/
theorem exists_breaksOff_above {head : BlockHead} {rows : Rows BlockHead RowHead} {line : List Char}
    (member : line ∈ linesAbove head rows) (ends : GoesOn (trimEnd line)) :
    ∃ comment ∈ head.comment.toList ++ rows.comments, BreaksOff comment.toList := by
  obtain ⟨texts, shape, leads, wraps⟩ := exists_ledLines head rows
  rw [shape] at member
  obtain ⟨entry, among, inLines⟩ := List.mem_flatMap.mp member
  obtain ⟨words, inText, rfl⟩ := List.mem_map.mp inLines
  have plain : ∀ lead ∈ ["// ", "/// "], '\\' ∉ lead.toList := by decide
  have breaks := breaksOff_of_trimEnd ((goesOn_trimEnd_append (plain _ (leads entry among))).mp ends)
  rcases wraps entry among with ⟨comment, own, wrapped⟩ | lifted
  · rw [wrapped] at inText
    exact ⟨comment, List.mem_append_left _ (Option.mem_toList.mpr own), breaks.of_mem_wrap inText⟩
  · exact ⟨_, List.mem_append_right _ (rows.lifted_subset lifted), breaks.of_mem_splitLines inText⟩

/-- What stands for a block of an unknown type does not end with a backslash. -/
theorem BlockHead.standIn_ends (head : BlockHead) {line : List Char}
    (member : line ∈ remarkLines [head.standIn]) : ¬ GoesOn (trimEnd line) := by
  unfold BlockHead.standIn at member
  split_ifs at member
  · cases member
  · have comment : remarkLines [("// TODO: no template for block type '" ++ head.type ++ "'").toList] =
        [("// TODO: no template for block type '" ++ head.type ++ "'").toList] := by
      simp [remarkLines, isCommentLine]
    rw [comment, List.mem_singleton] at member
    have last : line.getLast? = some '\'' := by
      rw [member, String.toList_append, List.getLast?_append]
      rfl
    have whole : trimEnd line = line := by
      refine trimEnd_of_solid (fun c ends => ?_) (by rintro rfl; cases last)
      obtain rfl : '\'' = c := Option.some.inj (last.symm.trans ends)
      decide
    rw [whole, GoesOn, last]
    decide

mutual

/-- A comment line of a stack ends with a backslash only if a word of a comment does. -/
theorem Stack.exists_breaksOff {stack : Stack BlockHead RowHead} {line : List Char}
    (member : line ∈ stack.noted) (ends : GoesOn (trimEnd line)) :
    ∃ comment ∈ stack.comments, BreaksOff comment.toList := by
  match stack with
  | .empty =>
    rw [Stack.noted] at member
    cases member
  | .block head rows next =>
    rw [Stack.comments_block, ← List.append_assoc]
    have within : ∀ comments, comments ⊆ head.comment.toList ++ rows.comments →
        (∃ comment ∈ comments, BreaksOff comment.toList) →
        ∃ comment ∈ head.comment.toList ++ rows.comments ++ next.comments, BreaksOff comment.toList :=
      fun comments inside ⟨comment, among, breaks⟩ => ⟨comment, List.mem_append_left _ (inside among), breaks⟩
    rw [Stack.noted, List.mem_append] at member
    rcases member with here | later
    · split_ifs at here with disabled unknown
      · cases here
      · rcases List.mem_append.mp here with above | standIn
        · exact within _ (List.Subset.refl _) (exists_breaksOff_above above ends)
        · exact absurd ends (head.standIn_ends standIn)
      · rcases List.mem_append.mp here with above | inside
        · exact within _ (List.Subset.refl _) (exists_breaksOff_above above ends)
        · obtain ⟨name, _, inRow⟩ := List.mem_flatMap.mp inside
          exact within _ (List.subset_append_right ..) (Rows.exists_breaksOff inRow ends)
    · obtain ⟨comment, among, breaks⟩ := Stack.exists_breaksOff later ends
      exact ⟨comment, List.mem_append_right _ among, breaks⟩

/-- A comment line in the row of a name ends with a backslash only if a word of a comment does. -/
theorem Rows.exists_breaksOff {rows : Rows BlockHead RowHead} {name : String} {line : List Char}
    (member : line ∈ rows.notedAt name) (ends : GoesOn (trimEnd line)) :
    ∃ comment ∈ rows.comments, BreaksOff comment.toList := by
  match rows with
  | .nil =>
    rw [Rows.notedAt] at member
    cases member
  | .cons row plugged rest =>
    rw [Rows.notedAt] at member
    rw [Rows.comments_cons]
    split_ifs at member
    · obtain ⟨comment, among, breaks⟩ := Stack.exists_breaksOff member ends
      exact ⟨comment, List.mem_append_left _ among, breaks⟩
    · obtain ⟨comment, among, breaks⟩ := Rows.exists_breaksOff member ends
      exact ⟨comment, List.mem_append_right _ among, breaks⟩

end

end Comments

section Definitions

variable {last : Pass} {entry : String × String}

/-- The lines of the helper function are not blank and do not end with backslashes. -/
theorem helperLines_end (name : String) :
    ∀ line ∈ helperLines name, isSolid line ∧ ¬ GoesOn (trimEnd line) := by
  have inside : ∀ line ∈ helperBody.map String.toList, isSolid line ∧ ¬ GoesOn (trimEnd line) := by
    decide +kernel
  have ends : EndsStatement ("int ".toList ++ (name.toList ++ "(int a, int b) \x7b".toList)) := by
    refine ⟨'\x7b', by simp, ?_⟩
    rw [List.getLast?_append, List.getLast?_append]
    rfl
  exact List.forall_mem_cons.mpr ⟨⟨ends.isSolid, ends.not_goesOn⟩, inside⟩

/-- A definition that is none of a procedure is made of lines that are not blank and do not end with
backslashes. -/
theorem Pass.Settled.exists_lines (settled : last.Settled) (member : entry ∈ last.definitions)
    (other : ∀ name, entry.1 ≠ procedureKey name) :
    ∃ lines, (∀ line ∈ lines, '\n' ∉ line) ∧ entry.2.toList ++ ['\n'] = unlines lines ∧
      ∀ line ∈ lines, isSolid line ∧ ¬ GoesOn (trimEnd line) := by
  have single : ∀ text : String, OneLine text → isSolid text.toList → ¬ GoesOn (trimEnd text.toList) →
      ∃ lines, (∀ line ∈ lines, '\n' ∉ line) ∧ text.toList ++ ['\n'] = unlines lines ∧
        ∀ line ∈ lines, isSolid line ∧ ¬ GoesOn (trimEnd line) :=
    fun text oneLine solid ends => ⟨[text.toList], List.forall_mem_singleton.mpr oneLine, by simp [unlines],
      List.forall_mem_singleton.mpr ⟨solid, ends⟩⟩
  cases settled.entries entry member with
  | declaration words =>
    exact single _ (isIdle_declaration words).oneLine (ends_semicolon _).isSolid (ends_semicolon _).not_goesOn
  | @header name among =>
    have lines : ∀ name ∈ knownHeaders, OneLine ("#include <" ++ name ++ ">") ∧
        isSolid ("#include <" ++ name ++ ">").toList ∧
        ¬ GoesOn (trimEnd ("#include <" ++ name ++ ">").toList) := by decide
    obtain ⟨oneLine, solid, ends⟩ := lines name among
    exact single _ oneLine solid ends
  | @helper name defined =>
    obtain ⟨_, leads⟩ := settled.apart name defined
    obtain ⟨known, found, isName⟩ :=
      settled.sound.helper (Table.has_iff_mem_keys.mpr (List.mem_map_of_mem (f := (·.1)) member))
    cases defined.symm.trans found
    have states := states_helper defined isName leads
    refine ⟨helperLines name, states.oneLine,
      by rw [← Emission.sourceUnder_randomInt, String.toList_append]; rfl, helperLines_end name⟩
  | @procedure name => exact absurd rfl (other name)

/-- The lines of a definition that is none of a procedure do not end with backslashes. -/
theorem Pass.Settled.not_goesOn (settled : last.Settled) (member : entry ∈ last.definitions)
    (other : ∀ name, entry.1 ≠ procedureKey name) :
    ∀ line ∈ firmLines entry.2.toList, ¬ GoesOn line := by
  obtain ⟨lines, oneLine, closed, each⟩ := settled.exists_lines member other
  rw [firmLines_of_closed oneLine closed]
  intro line inside
  obtain ⟨whole, among, _, rfl⟩ := mem_firmOf.mp inside
  exact (each whole among).2

end Definitions

/-- Which lines of a source end with backslashes, for the stacks that it is made of, and how the source is
read, given what comes of the workspace without comments. -/
structure Workspace.Splices (ws : Workspace) (tops : List (Stack BlockHead RowHead))
    (bare : Except EmissionError String) (source : String) :
    Prop where
  comments : ∀ line ∈ splitLines source.toList, GoesOn line → isCommentLine line
  noted : (∃ line ∈ splitLines source.toList, GoesOn line) ↔
    ∃ stack ∈ standing tops, ∃ line ∈ stack.noted, GoesOn (trimEnd line)
  words : (∀ b < ws.blocks.size, ∀ comment ∈ (ws.block b).comment, ¬ BreaksOff comment.toList) →
    ∀ line ∈ splitLines source.toList, ¬ GoesOn line
  reads : (∀ line ∈ splitLines source.toList, ¬ GoesOn line) →
    ∃ other, bare = .ok other ∧ readLines source.toList = readLines other.toList

section Sources

variable {known : Bool} {tight : Prop} {emitter : Emitter} {ws : Workspace} {order : List Nat}
  {tops : List (Stack BlockHead RowHead)} {codes : List String} {s last : Pass} {source : String}

/-- The lines of a source have no spaces at their ends. -/
theorem trimEnd_of_source {code : String} (yields : Yields (emitter.emitTops ws) (emitter.start ws) code last)
    (closed : code = "" ∨ code.toList.getLast? = some '\n') (ended : (emitter.source ws).1 = .ok source) :
    ∀ line ∈ splitLines source.toList, trimEnd line = line := by
  rw [source_of_yields yields] at ended
  rw [← Except.ok.inj ended]
  generalize preamble (last.definitions.map (·.2)) = above
  refine fun line => trimEnd_of_tidy ?_
  rw [String.toList_append, List.getLast?_append]
  rcases closed with none | closed
  · rw [none, String.toList_append, List.getLast?_append]
    rfl
  · rw [closed]
    rfl

/-- Where lines have no spaces at their ends, those that end with a backslash are firm as they stand. -/
theorem mem_firmLines_of_goesOn (raw : ∀ line ∈ splitLines source.toList, trimEnd line = line)
    {line : List Char} (goesOn : GoesOn line) :
    line ∈ firmLines source.toList ↔ line ∈ splitLines source.toList := by
  rw [firmLines, mem_firmOf]
  constructor
  · rintro ⟨whole, member, _, rfl⟩
    rwa [raw whole member]
  · intro member
    obtain ⟨same, solid⟩ := trimEnd_of_goesOn goesOn
    exact ⟨line, member, solid, same⟩

/-- A line of a source that ends with a backslash is one of a stack as it is rendered. -/
theorem Gathered.exists_rendered (gathered : Gathered Stack.RendersAs s last tops codes)
    (none : ∀ name, s.definitions.get? (procedureKey name) = none) (heads : last.Heads codes source)
    {line : List Char} (member : line ∈ firmLines source.toList) (goesOn : GoesOn line) :
    ∃ stack ∈ standing tops, ∃ lines, stack.Renders lines ∧ line ∈ firmOf lines := by
  rcases gathered.line_of_source none heads member with ⟨stack, stands, text, rendersAs, inText⟩ | defined
  · obtain ⟨lines, renders, shape⟩ := rendersAs.firmly
    exact ⟨stack, stands, lines, renders, shape ▸ inText⟩
  · obtain ⟨entry, among, other, inText⟩ := defined
    exact absurd goesOn (gathered.settled.not_goesOn among other line inText)

/-- What is known of the lines of a source, where the stacks in it are rendered. -/
theorem Gathered.splices {bare : Except EmissionError String}
    (gathered : Gathered Stack.RendersAs s last tops codes)
    (none : ∀ name, s.definitions.get? (procedureKey name) = none) (heads : last.Heads codes source)
    (raw : ∀ line ∈ splitLines source.toList, trimEnd line = line)
    (own : ∀ stack ∈ tops, ∀ head ∈ stack.heads, ∃ b, head = ws.head b)
    (commented : SameResult (fun error other => other = error) (SameText true) (.ok source) bare) :
    ws.Splices tops bare source := by
  have rendered : ∀ line ∈ splitLines source.toList, GoesOn line →
      ∃ stack ∈ standing tops, ∃ lines, stack.Renders lines ∧ line ∈ firmOf lines :=
    fun line member goesOn =>
      gathered.exists_rendered none heads ((mem_firmLines_of_goesOn raw goesOn).mpr member) goesOn
  have noted : (∃ line ∈ splitLines source.toList, GoesOn line) ↔
      ∃ stack ∈ standing tops, ∃ line ∈ stack.noted, GoesOn (trimEnd line) := by
    constructor
    · rintro ⟨line, member, goesOn⟩
      obtain ⟨stack, stands, lines, renders, inLines⟩ := rendered line member goesOn
      exact ⟨stack, stands, renders.goesOn_iff.mp ⟨line, inLines, goesOn⟩⟩
    · rintro ⟨stack, stands, ends⟩
      obtain ⟨text, rendersAs, inside⟩ := gathered.exists_infix heads stack stands
      obtain ⟨lines, renders, shape⟩ := rendersAs.firmly
      obtain ⟨line, inLines, goesOn⟩ := renders.goesOn_iff.mpr ends
      exact ⟨line, (mem_firmLines_of_goesOn raw goesOn).mp (inside.subset (shape ▸ inLines)), goesOn⟩
  refine ⟨fun line member goesOn => ?_, noted, fun words line member goesOn => ?_, fun whole => ?_⟩
  · obtain ⟨_, _, lines, renders, inLines⟩ := rendered line member goesOn
    exact renders.isCommentLine_of_goesOn inLines goesOn
  · obtain ⟨stack, stands, remark, inNoted, ends⟩ := noted.mp ⟨line, member, goesOn⟩
    obtain ⟨comment, among, breaks⟩ := Stack.exists_breaksOff inNoted ends
    obtain ⟨head, inHeads, written⟩ := List.mem_filterMap.mp among
    obtain ⟨b, rfl⟩ := own stack (mem_of_standing stands) head inHeads
    by_cases exist : b < ws.blocks.size
    · exact words b exist comment written breaks
    · have outside : ws.block b = default := by simp [Workspace.block, exist]
      have written : (ws.block b).comment = some comment := written
      rw [outside] at written
      cases written
  · cases commented with
    | ok same =>
      refine ⟨_, rfl, ?_⟩
      rw [readLines_eq_codeLines whole, readLines_eq_codeLines (Commented.not_goesOn same whole)]
      exact Commented.codeLines_eq same

end Sources

/-- In the source of a loaded workspace of known types, only lines of comments end with a backslash. Some line
does just if a comment line of a stack does, and so none does if no word of a comment does. Then the code is
read as that of the workspace without comments. -/
theorem Emitter.source_splices {emitter : Emitter} (templates : emitter.templates = knownTemplates)
    {strict : Bool} {oneBased : Option Bool} {data : Json} {ws : Workspace}
    (loaded : loadWorkspace strict oneBased data = .ok ws) (proper : data.All Json.IsProper)
    (isKnown : ws.IsKnown) {tight : Prop} (short : tight → data.All Json.IsShort) :
    ∃ tops bare, ws.orderedStacks? = some tops ∧
      loadWorkspace strict oneBased data.withoutComments = .ok bare ∧
      emitter.Compiles ws tight (ws.Splices tops (emitter.source bare).1) := by
  obtain ⟨document, bare, described, loads, loadedBare, loadsBare⟩ := exists_loads_uncommented loaded
  have commented := loads.source_commented templates loadsBare described proper
  obtain ⟨tops, found, own, compiles⟩ :=
    Emitter.compiles_gathered templates (fun _ => rfl) loaded proper (fun _ : true = true => isKnown)
      (fun b inside => isKnownType_oneLine (isKnown b inside)) short
  refine ⟨tops, bare, found, loadedBare, compiles.imp_source ?_⟩
  rintro source ended ⟨code, codes, last, yields, closed, gathered, heads⟩
  rw [ended] at commented
  exact gathered.splices (emitter.settled_start ws).2 heads
    (trimEnd_of_source yields closed ended) own commented

/-- Words with a path in their comment are printed in a loop with a comment that ends a word with a backslash,
but not the text. -/
theorem Emitter.source_splices_path :
    let word := Json.object [("type", .text "text"), ("comment", .text "as in C:\\temp")]
    let printed := Json.object [("type", .text "text_print"), ("inputs", .object [("TEXT", word)])]
    let loop := Json.object [("comment", .text "goes\\ on"), ("type", .text "controls_repeat_ext"),
      ("inputs", .object [("DO", printed)])]
    let data := Json.object [("name", .text "notes"), ("blocks", .list [loop])]
    let emitter : Emitter := {}
    ∃ ws, loadWorkspace true none data = .ok ws ∧ ∃ tops bare, ws.orderedStacks? = some tops ∧
      loadWorkspace true none data.withoutComments = .ok bare ∧
        emitter.Compiles ws True (ws.Splices tops (emitter.source bare).1) := by
  intro word printed loop data emitter
  have loads : (loadWorkspace true none data).toOption.any fun ws =>
      (List.range ws.blocks.size).all fun b => isKnownType (ws.block b).type := by decide +kernel
  obtain ⟨ws, loaded, isKnown⟩ := exists_ok_of_any loads
  simp only [List.all_eq_true, List.mem_range] at isKnown
  have proper : data.All Json.IsProper := by
    simp [data, loop, printed, word, Json.All, Json.AllMembers, Json.AllItems, Json.IsProper, Table.keys]
  have noNumbers : ∀ text ∈
      ["notes", "controls_repeat_ext", "goes\\ on", "text_print", "text", "as in C:\\temp"],
      (numberOf (.text text)).toOption.isNone := by decide +kernel
  have short : data.All Json.IsShort := by
    have words := fun text member => Json.isShort_text (noNumbers text member)
    simp [data, loop, printed, word, Json.All, Json.AllMembers, Json.AllItems, words]
    simp [Json.IsShort]
  exact ⟨ws, loaded, emitter.source_splices rfl loaded proper isKnown fun _ => short⟩

/-- A comment that ends with a backslash takes the code below it with it: the line that prints is read as a
part of the comment. -/
theorem Emitter.source_swallows :
    let printed := Json.object [("type", .text "text_print"), ("comment", .text "a\\")]
    let data := Json.object [("name", .text "w"), ("blocks", .list [printed])]
    let source := "#include <iostream>\n\n\n// a\\\nstd::cout << '' << std::endl;\n"
    let other := "#include <iostream>\n\n\nstd::cout << '' << std::endl;\n"
    ∃ ws bare, loadWorkspace true none data = .ok ws ∧ (({} : Emitter).source ws).1 = .ok source ∧
      loadWorkspace true none data.withoutComments = .ok bare ∧ (({} : Emitter).source bare).1 = .ok other ∧
      (∃ line ∈ splitLines source.toList, isCommentLine line ∧ GoesOn line) ∧
        readLines source.toList ≠ readLines other.toList := by
  intro printed data source other
  have sources : ∀ text data,
      (loadWorkspace true none data).toOption.any
      (fun ws => (({} : Emitter).source ws).1.toOption = some text) →
      ∃ ws, loadWorkspace true none data = .ok ws ∧ (({} : Emitter).source ws).1 = .ok text := by
    intro text data yields
    obtain ⟨ws, loaded, shown⟩ := exists_ok_of_any yields
    refine ⟨ws, loaded, ?_⟩
    cases ended : (({} : Emitter).source ws).1 with
    | error => simp [ended, Except.toOption] at shown
    | ok text => simpa [ended, Except.toOption] using shown
  obtain ⟨ws, loaded, shown⟩ := sources source data (by decide +kernel)
  obtain ⟨bare, loadedBare, shownBare⟩ := sources other data.withoutComments (by decide +kernel)
  exact ⟨ws, bare, loaded, shown, loadedBare, shownBare, by decide +kernel, by decide +kernel⟩

end BlockCompiler
