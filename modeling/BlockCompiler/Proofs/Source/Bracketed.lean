import BlockCompiler.Proofs.Source.Said

/-!
Brackets of sources: they belong together, and each line stands as far in as braces are open before it. The
code of statements is made of whole lines. A literal is one token, however it goes on behind it, and those of
all texts that are generated stand in the source as they were written.
-/

namespace BlockCompiler

mutual

/-- A stack and all stacks in it: those in rows, and those that follow a block. -/
def Stack.parts {α β : Type} : Stack α β → List (Stack α β)
  | .empty => [.empty]
  | .block head rows next => .block head rows next :: (rows.parts ++ next.parts)

/-- The stacks in some rows. -/
def Rows.parts {α β : Type} : Rows α β → List (Stack α β)
  | .nil => []
  | .cons _ plugged rest => plugged.parts ++ rest.parts

end

/-- A text that is empty or ends with a line feed. -/
def EndsLine (text : String) : Prop := text = "" ∨ text.toList.getLast? = some '\n'

section Parts

variable {tight : Prop}

mutual

/-- The stacks in a stack that is ready are ready. -/
theorem Stack.Ready.parts {stack : Stack BlockHead RowHead} (ready : stack.Ready true tight)
    (fits : stack.Fits) :
    ∀ part ∈ stack.parts, part.Ready true tight ∧ part.Fits := by
  match stack with
  | .empty =>
    rw [Stack.parts]
    exact List.forall_mem_singleton.mpr ⟨ready, fits⟩
  | .block head rows next =>
    have readyRows : ∃ specs, rows.Ready true tight specs := by
      have here := ready.1
      split at here
      · exact ⟨_, here.2⟩
      · cases here
    obtain ⟨specs, readyRows⟩ := readyRows
    rw [Stack.parts]
    refine List.forall_mem_cons.mpr ⟨⟨ready, fits⟩, List.forall_mem_append.mpr ⟨?_, ?_⟩⟩
    · exact Rows.Ready.parts readyRows fits.2.1
    · exact Stack.Ready.parts ready.2 fits.2.2.2.2

/-- The stacks in rows that are ready are ready. -/
theorem Rows.Ready.parts {rows : Rows BlockHead RowHead} {specs : List RowSpec}
    (ready : rows.Ready true tight specs) (fit : rows.Fit) :
    ∀ part ∈ rows.parts, part.Ready true tight ∧ part.Fits := by
  match rows with
  | .nil => simp [Rows.parts]
  | .cons row plugged rest =>
    obtain ⟨_, others, _, _, _, readyHere, readyRest⟩ := ready
    rw [Rows.parts]
    exact List.forall_mem_append.mpr
      ⟨Stack.Ready.parts readyHere fit.2.2.1, Rows.Ready.parts readyRest fit.2.2.2⟩

end

end Parts

section Ends

variable {lines : List (List Char)} {text : String}

/-- A text that is made of whole lines. -/
theorem endsLine_unlines (shape : text.toList = unlines lines) : EndsLine text := by
  rcases List.eq_nil_or_concat lines with rfl | ⟨front, last, rfl⟩
  · exact .inl (String.toList_inj.mp shape)
  · right
    rw [shape, unlines, List.concat_eq_append, List.flatMap_append]
    simp

/-- Whole lines stay whole when they are put further in. -/
theorem endsLine_indented (shape : text.toList = unlines lines) (each : ∀ line ∈ lines, '\n' ∉ line) :
    EndsLine (if text = "" then "" else leadLines indent text) :=
  endsLine_unlines (ite_leadLines_unlines each shape)

/-- What is emitted for statements is made of whole lines, and so is what stands in an opening for them. -/
theorem runs_emit_endsLine {emitter : Emitter} (templates : emitter.templates = knownTemplates)
    {tight : Prop} {stack : Stack BlockHead RowHead} (ready : stack.Ready true tight) (fits : stack.Fits)
    (isStatement : stack.IsStatement) {s : Pass} (sound : s.Sound) :
    Runs (Excused tight) (emitter.emit stack) s fun output _ =>
      EndsLine output.code ∧ EndsLine (if output.code = "" then "" else leadLines indent output.code) := by
  refine (emits_stack templates (fun _ => rfl) stack ready fits isStatement s sound).imp ?_
  rintro _ _ ⟨_, _, code, rfl, lists⟩
  obtain ⟨lines, shape, each, _⟩ := lists rfl
  exact ⟨endsLine_unlines shape, endsLine_indented shape each⟩

end Ends

/-- The brackets of a source nest. -/
theorem Pass.Sourced.openAfter {last : Pass} {source : String} {headers procedures : List String}
    {lines : List (List Char)} (sourced : last.Sourced source headers procedures lines) :
    openAfter [] (splitLines source.toList) = some [] := by
  have known : ∀ name ∈ headers, name ∈ knownHeaders := fun name among => ((sourced.included name).mp among).1
  have above : BlockCompiler.openAfter [] (headers.map fun name => (includeLine name).toList) = some [] := by
    have each : ∀ name ∈ knownHeaders, BlockCompiler.openAfter [] [(includeLine name).toList] = some [] := by
      decide +kernel
    generalize headers = names at known
    induction names with
    | nil => rfl
    | cons name names ih =>
      obtain ⟨here, others⟩ := List.forall_mem_cons.mp known
      rw [List.map_cons, ← List.singleton_append, openAfter_append (each name here), ih others]
  rw [← openAfter_firmOf, ← firmLines, sourced.whole, openAfter_append above, openAfter_firmOf]
  exact sourced.states.nests

/-- In the source of a loaded workspace of known types brackets nest, apart from those in quotes and comments,
and each line that is not blank starts with two spaces for each brace that is open before it. The code of any
statements in it is empty or ends with a line feed, whether it stands further in or not. -/
theorem Emitter.source_nests {emitter : Emitter} (templates : emitter.templates = knownTemplates)
    {strict : Bool} {oneBased : Option Bool} {data : Json} {ws : Workspace}
    (loaded : loadWorkspace strict oneBased data = .ok ws) (proper : data.All Json.IsProper)
    (isKnown : ws.IsKnown) {tight : Prop} (short : tight → data.All Json.IsShort) :
    emitter.Compiles ws tight (fun source => openAfter [] (splitLines source.toList) = some []) ∧
    ∃ tops, ws.orderedStacks? = some tops ∧ ∀ stack ∈ tops, ∀ part ∈ stack.parts, part.IsStatement →
      ∀ s : Pass, s.Sound →
      Runs (Excused tight) (emitter.emit part) s fun output _ =>
        EndsLine output.code ∧ EndsLine (if output.code = "" then "" else leadLines indent output.code) := by
  obtain ⟨order, tops, ordered, _, found, isTops⟩ :=
    exists_orderedStacks loaded proper short fun _ : true = true => isKnown
  refine ⟨(emitter.compiles_assembled templates ordered isTops).imp ?_, tops, found,
    fun stack among part inside isStatement s sound => ?_⟩
  · rintro source ⟨_, codes, last, _, assembled, heads⟩
    obtain ⟨_, _, _, sourced⟩ := assembled.exists_sourced (emitter.settled_start ws).2 heads
    exact sourced.openAfter
  · obtain ⟨_, _, isTop⟩ := exists_related isTops.flip among
    obtain ⟨ready, fits⟩ := isTop.ready.parts isTop.fits part inside
    exact runs_emit_endsLine templates ready fits isStatement sound

/-- A branch with a comment in a loop, with a list and an opening brace in a text inside. -/
theorem Emitter.source_nests_branch :
    let brace := Json.object [("type", .text "text"), ("fields", .object [("TEXT", .text "\x7b")])]
    let listed := Json.object [("type", .text "lists_create_with"), ("mutation", .object [("items", .int 1)]),
      ("inputs", .object [("ADD0", brace)])]
    let printed := Json.object [("type", .text "text_print"), ("inputs", .object [("TEXT", listed)])]
    let branch := Json.object [("type", .text "controls_if"), ("comment", .text "a \x7b to show"),
      ("mutation", .object [("else", .bool true)]),
      ("inputs", .object [("DO0", printed), ("ELSE", printed)])]
    let loop := Json.object [("type", .text "controls_repeat_ext"), ("inputs", .object [("DO", branch)]),
      ("next", printed)]
    let data := Json.object [("name", .text "braces"), ("blocks", .list [loop])]
    let emitter : Emitter := {}
    ∃ ws, loadWorkspace true none data = .ok ws ∧
      emitter.Compiles ws True (fun source => openAfter [] (splitLines source.toList) = some []) ∧
      ∃ tops, ws.orderedStacks? = some tops ∧ ∀ stack ∈ tops, ∀ part ∈ stack.parts, part.IsStatement →
        ∀ s : Pass, s.Sound →
        Runs (Excused True) (emitter.emit part) s fun output _ =>
          EndsLine output.code ∧ EndsLine
            (if output.code = "" then "" else leadLines indent output.code) := by
  intro brace listed printed branch loop data emitter
  have loads : (loadWorkspace true none data).toOption.any fun ws =>
      (List.range ws.blocks.size).all fun b => isKnownType (ws.block b).type := by decide +kernel
  obtain ⟨ws, loaded, holds⟩ := exists_ok_of_any loads
  simp only [List.all_eq_true, List.mem_range] at holds
  have proper : data.All Json.IsProper := by
    simp [data, loop, branch, printed, listed, brace, Json.All, Json.AllMembers, Json.AllItems,
      Json.IsProper, Table.keys]
  have noNumbers : ∀ text ∈
      ["braces", "controls_repeat_ext", "controls_if", "a \x7b to show", "text_print",
      "lists_create_with", "text",
      "\x7b"], (numberOf (.text text)).toOption.isNone := by decide +kernel
  have short : data.All Json.IsShort := by
    have words := fun text member => Json.isShort_text (noNumbers text member)
    have one : (Json.number (.int 1)).IsShort :=
      Nat.lt_of_lt_of_le (show (1 : Int).natAbs < tenTo 1 by decide) (tenTo_mono (by decide))
    simp [data, loop, branch, printed, listed, brace, Json.All, Json.AllMembers, Json.AllItems, words]
    simp [Json.IsShort]
    exact one
  exact ⟨ws, loaded, emitter.source_nests rfl loaded proper holds fun _ => short⟩

/-- A character replaced by others wherever it stands. -/
def replaceEach (c : Char) (others text : List Char) : List Char :=
  text.flatMap fun d => if d = c then others else [d]

section Literals

theorem replaceEach_flatMap (c : Char) (others text : List Char) (f : Char → List Char) :
    replaceEach c others (text.flatMap f) = text.flatMap fun d => replaceEach c others (f d) :=
  List.flatMap_assoc

/-- Four replacements in turn write a literal, if backslashes are replaced first. -/
theorem flatMap_literalChar (text : List Char) :
    text.flatMap literalChar = replaceEach '\x27' ['\\', '\x27'] (replaceEach '$' ['\\', '$']
      (replaceEach '\n' ['\\', 'n'] (replaceEach '\\' ['\\', '\\'] text))) := by
  have first : replaceEach '\\' ['\\', '\\'] text = text.flatMap fun c => if c = '\\' then ['\\', '\\']
      else [c] := rfl
  rw [first, replaceEach_flatMap, replaceEach_flatMap, replaceEach_flatMap]
  congr 1
  funext c
  unfold literalChar
  split_ifs with backslash feed dollar quote
  · rfl
  · subst feed
    rfl
  · subst dollar
    rfl
  · subst quote
    rfl
  · simp [replaceEach, feed, dollar, quote]

end Literals

/-- A literal has no line feed, and it is read as its text, whatever stands behind it. The literals of all
texts that are generated stand in the source of a loaded workspace of known types, if it defines no procedure
twice. -/
theorem Emitter.source_quotes {emitter : Emitter} (templates : emitter.templates = knownTemplates)
    {strict : Bool} {oneBased : Option Bool} {data : Json} {ws : Workspace}
    (loaded : loadWorkspace strict oneBased data = .ok ws) (proper : data.All Json.IsProper)
    (isKnown : ws.IsKnown) {tight : Prop} (short : tight → data.All Json.IsShort)
    (distinct : ws.definedNames.Nodup) :
    (∀ text : String, OneLine (literal text) ∧
      (literal text).toList = '\x27' :: replaceEach '\x27' ['\\', '\x27'] (replaceEach '$' ['\\', '$']
        (replaceEach '\n' ['\\', 'n'] (replaceEach '\\' ['\\', '\\'] text.toList))) ++ ['\x27'] ∧
      ∀ rest, readLexeme? ((literal text).toList ++ rest) = some (some (.quoted text), rest)) ∧
    ∃ tops, ws.orderedStacks? = some tops ∧ ws.HangAtTops tops ∧ emitter.Compiles ws tight fun source =>
      ∀ stack ∈ tops, ∀ head ∈ stack.generated, BlockKind.ofName? head.type = some .text →
        (literal (head.field "TEXT").word).toList <:+: source.toList := by
  refine ⟨fun text => ⟨oneLine_literal text, ?_, readLexeme?_literal text⟩, ?_⟩
  · rw [← flatMap_literalChar]
    exact String.toList_ofList
  · obtain ⟨order, tops, ordered, perm, found, isTops⟩ :=
      exists_orderedStacks loaded proper short fun _ : true = true => isKnown
    refine ⟨tops, found, hangAtTops ordered perm isTops,
      (emitter.compiles_assembled templates ordered isTops).imp ?_⟩
    rintro source ⟨_, codes, last, _, assembled, heads⟩ stack among head generated named
    have stands : stack ∈ standing tops := by
      rwa [standing_of_nodup ((perm_definedNames perm isTops).nodup_iff.mpr distinct)]
    obtain ⟨line, member, _, seen, _⟩ := assembled.exists_line heads stands generated
    rw [BlockHead.IsSeen, named] at seen
    exact seen.isInfix.trans (infix_of_mem_firmLines member)

/-- A text with a quote, a dollar, a backslash and a line feed, printed in the body of a procedure. -/
theorem Emitter.source_quotes_procedure :
    let word :=
      Json.object [("type", .text "text"), ("fields", .object [("TEXT", .text "it\x27s $5\\day\n")])]
    let printed := Json.object [("type", .text "text_print"), ("inputs", .object [("TEXT", word)])]
    let define :=
      Json.object [("type", .text "procedures_defnoreturn"), ("fields", .object [("NAME", .text "charge")]),
      ("inputs", .object [("STACK", printed)])]
    let data := Json.object [("name", .text "fees"), ("blocks", .list [define, printed])]
    let emitter : Emitter := {}
    ∃ ws, loadWorkspace true none data = .ok ws ∧
      (∀ text : String, OneLine (literal text) ∧
        (literal text).toList = '\x27' :: replaceEach '\x27' ['\\', '\x27'] (replaceEach '$' ['\\', '$']
          (replaceEach '\n' ['\\', 'n'] (replaceEach '\\' ['\\', '\\'] text.toList))) ++ ['\x27'] ∧
        ∀ rest, readLexeme? ((literal text).toList ++ rest) = some (some (.quoted text), rest)) ∧
      ∃ tops, ws.orderedStacks? = some tops ∧ ws.HangAtTops tops ∧ emitter.Compiles ws True fun source =>
        ∀ stack ∈ tops, ∀ head ∈ stack.generated, BlockKind.ofName? head.type = some .text →
          (literal (head.field "TEXT").word).toList <:+: source.toList := by
  intro word printed define data emitter
  have loads : (loadWorkspace true none data).toOption.any fun ws =>
      (List.range ws.blocks.size).all (fun b => isKnownType (ws.block b).type) &&
        decide ws.definedNames.Nodup := by
    decide +kernel
  obtain ⟨ws, loaded, holds⟩ := exists_ok_of_any loads
  simp only [Bool.and_eq_true, List.all_eq_true, List.mem_range, decide_eq_true_eq] at holds
  have proper : data.All Json.IsProper := by
    simp [data, define, printed, word, Json.All, Json.AllMembers, Json.AllItems, Json.IsProper, Table.keys]
  have noNumbers : ∀ text ∈
      ["fees", "procedures_defnoreturn", "charge", "text_print", "text", "it\x27s $5\\day\n"],
      (numberOf (.text text)).toOption.isNone := by decide +kernel
  have short : data.All Json.IsShort := by
    have words := fun text member => Json.isShort_text (noNumbers text member)
    simp [data, define, printed, word, Json.All, Json.AllMembers, Json.AllItems, words]
    simp [Json.IsShort]
  exact ⟨ws, loaded, emitter.source_quotes rfl loaded proper holds.1 (fun _ => short) holds.2⟩

end BlockCompiler
