import BlockCompiler.Proofs.Sorting.Placed
import BlockCompiler.Proofs.Source.Spliced
import BlockCompiler.Proofs.Text.Layout

/-!
The layout of whole sources: the definitions and the codes of the stacks have no blank lines, so that a source
is made of them as they are, and the codes come in the order of the positions of their blocks.
-/

namespace BlockCompiler

/-- Blocks are those at the top from top to bottom and from left to right. Those at the same position are in
the order in which they are at the top. -/
structure Workspace.InOrder (ws : Workspace) (order : List Nat) : Prop where
  sorted : order.Pairwise fun b c => ∀ p ∈ (ws.block b).position?, ∀ q ∈ (ws.block c).position?,
    p.rank ≤ q.rank
  stable : ∀ place, order.filter (fun b => (ws.block b).position?.map Position.rank = some place) =
    ws.topBlocks.filter fun b => (ws.block b).position?.map Position.rank = some place

section Order

variable {ws : Workspace}

/-- Blocks that have positions are compiled in their order. -/
theorem Workspace.inOrder_ordered (placed : ∀ b ∈ ws.topBlocks, (ws.block b).position?.isSome)
    {order : List Nat} (ordered : ws.orderedTopBlocks? = some order) : ws.InOrder order := by
  let items := ws.topBlocks.map fun b => (((ws.block b).position?).getD (.int 0, .int 0), b)
  have known : ∀ item ∈ items, (ws.block item.2).position? = some item.1 := by
    intro item member
    obtain ⟨b, among, rfl⟩ := List.mem_map.mp member
    obtain ⟨position, found⟩ := Option.isSome_iff_exists.mp (placed b among)
    simp only [found, Option.getD_some]
  have tops : items.map (·.2) = ws.topBlocks := by
    rw [List.map_map]
    exact List.map_id _
  have numbers : ∀ item ∈ items, item.1.isNan = false :=
    fun item member => Block.isNan_of_position? (known item member)
  obtain rfl : (sortByPosition items).map (·.2) = order :=
    Option.some.inj ((@Workspace.orderedTopBlocks?_eq Nat items ws id tops.symm known).symm.trans ordered)
  rw [sortByPosition_eq numbers]
  have inItems : ∀ item ∈ items.mergeSort fun a b => decide (a.1.rank ≤ b.1.rank), item ∈ items :=
    fun item => (List.mergeSort_perm items _).mem_iff.mp
  refine ⟨List.pairwise_map.mpr ?_, fun place => ?_⟩
  · refine (List.pairwise_mergeSort rank_trans rank_total items).imp_of_mem fun {a b} first second before p
      found q there => ?_
    rw [known a (inItems a first)] at found
    rw [known b (inItems b second)] at there
    cases found
    cases there
    exact of_decide_eq_true before
  · -- the items at one place are sorted as they are
    let keep : Position × Nat → Bool := fun item => (ws.block item.2).position?.map Position.rank = some place
    have level : ∀ item ∈ items.filter keep, item.1.rank = place := by
      intro item member
      obtain ⟨among, kept⟩ := List.mem_filter.mp member
      have same := of_decide_eq_true kept
      rw [known item among] at same
      exact Option.some.inj same
    have whole := @filter_mergeSort (Position × Nat) (fun a b => decide (a.1.rank ≤ b.1.rank)) rank_trans
      rank_total keep items
    have pairs : (items.filter keep).Pairwise fun a b => decide (a.1.rank ≤ b.1.rank) :=
      List.pairwise_of_forall_mem_list fun a first b second => by
        rw [level a first, level b second]
        exact decide_eq_true (le_refl place)
    rw [List.mergeSort_of_pairwise pairs] at whole
    have mapped := congrArg (List.map Prod.snd) whole
    rw [← tops, List.filter_map, List.filter_map]
    exact mapped

end Order

section Blank

variable {stack : Stack BlockHead RowHead} {lines : List (List Char)} {text : String}

/-- No line of a rendered stack is blank. -/
theorem Stack.Renders.isSolid (renders : stack.Renders lines) : ∀ line ∈ lines, isSolid line := by
  intro line member
  rcases renders.lines_end line member with comment | ends
  · have filled := filled_comment comment []
    rw [List.append_nil] at filled
    obtain ⟨c, among, solid⟩ := filled.exists
    exact List.any_eq_true.mpr ⟨c, among, by rw [solid]; rfl⟩
  · exact ends.isSolid

/-- The code of a stack is made of lines that are not blank. -/
theorem Stack.RendersAs.allSolid (rendersAs : stack.RendersAs text)
    (closed : text = "" ∨ text.toList.getLast? = some '\n') :
    AllSolid text.toList := by
  obtain ⟨lines, shape, oneLine, renders⟩ := rendersAs
  split_ifs at shape with defines
  · -- with one more line feed, the last line would be blank
    have split : splitLines text.toList = lines := splitLines_of_closed oneLine (by simpa using shape)
    have filled : lines ≠ [] := split ▸ (exists_splitLines _).1
    have framed : Framed 0 (splitLines text.toList) := split ▸ framed_of_solid filled renders.isSolid
    rcases closed with rfl | closed
    · exact absurd rfl framed.ne_nil
    · exact absurd closed framed.feeds.2.1
  · rw [shape]
    exact allSolid_unlines oneLine renders.isSolid

/-- The definition of a procedure has no blank lines. -/
theorem Stack.RendersAs.unbroken (rendersAs : stack.RendersAs text) (defines : stack.defined?.isSome) :
    Unbroken text.toList := by
  obtain ⟨lines, shape, oneLine, renders⟩ := rendersAs
  rw [if_pos defines] at shape
  exact unbroken_of_closed oneLine renders.isSolid (by simpa using shape)

variable {s last : Pass} {tops : List (Stack BlockHead RowHead)} {codes : List String}

/-- There are no blank lines in the codes of stacks and in what is defined. -/
theorem Gathered.not_blank (gathered : Gathered Stack.RendersAs s last tops codes)
    (bare : ∀ name, s.definitions.get? (procedureKey name) = none) :
    (∀ text ∈ last.definitions.map (·.2), Unbroken text.toList) ∧ ∀ code ∈ codes, AllSolid code.toList := by
  constructor
  · intro text member
    obtain ⟨entry, among, rfl⟩ := List.mem_map.mp member
    by_cases other : ∀ name, entry.1 ≠ procedureKey name
    · obtain ⟨lines, oneLine, closed, each⟩ := gathered.settled.exists_lines among other
      exact unbroken_of_closed oneLine (fun line inside => (each line inside).1) closed
    · obtain ⟨key, text⟩ := entry
      obtain ⟨identifier, rfl⟩ : ∃ name, key = procedureKey name := by simpa using other
      rcases gathered.procedures identifier text
        (Table.get?_of_mem gathered.settled.distinct among) with earlier | ⟨_, _, defines, tells⟩
      · rw [bare identifier] at earlier
        cases earlier
      · exact tells.unbroken defines
  · intro code member
    rcases gathered.left code member with rfl | ⟨stack, _, tells⟩
    · exact @allSolid_unlines [] (by simp) (by simp)
    · exact tells.allSolid (gathered.closed code member)

end Blank

/-- The source of a loaded workspace of known types is laid out of the codes of its stacks and of what they
define. The stacks are in the order of their positions, if no coordinate at the top is a NaN. Tidying leaves
all that is not blank, and what is tidy as it is. -/
theorem Emitter.source_laid_out {emitter : Emitter} (templates : emitter.templates = knownTemplates)
    {strict : Bool} {oneBased : Option Bool} {data : Json} {ws : Workspace}
    (loaded : loadWorkspace strict oneBased data = .ok ws) (proper : data.All Json.IsProper)
    (isKnown : ws.IsKnown) {tight : Prop} (short : tight → data.All Json.IsShort) :
    (∃ order, order.Perm ws.topBlocks ∧
      ((∀ b ∈ ws.topBlocks, (ws.block b).position?.isSome) → ws.InOrder order) ∧
      emitter.Compiles ws tight fun source => ∃ codes last,
        Yields (order.mapM (emitter.emitTop ws)) (emitter.start ws) codes last ∧
        IsLaidOut (last.definitions.map (·.2)) codes source) ∧
    ∀ text : String, tidy (tidy text) = tidy text ∧ (tidy text).toList.Sublist text.toList ∧
      (tidy text).toList.filter (fun c => !isBlank c) = text.toList.filter fun c => !isBlank c := by
  refine ⟨?_,
    fun text => ⟨tidy_tidy text, (losesBlanks_tidy text).sublist, (losesBlanks_tidy text).filter_eq⟩⟩
  obtain ⟨order, tops, ordered, perm, _, isTops, _, gathers⟩ :=
    emitter.exists_gathered templates (fun _ => rfl) loaded proper
      (fun _ : true = true => isKnown) (fun b inside => isKnownType_oneLine (isKnown b inside)) short
  refine ⟨order, perm, fun placed => Workspace.inOrder_ordered placed ordered, ?_⟩
  refine (emitter.compiles_ordered templates (fun _ => rfl) ordered isTops
    (gathers.and gathers.traced)).imp_source ?_
  rintro source ended ⟨_, codes, last, _, ⟨gathered, emitted⟩, _⟩
  obtain ⟨unbroken, solid⟩ := gathered.not_blank (emitter.settled_start ws).2
  have joined :
      Yields (emitter.emitTops ws) (emitter.start ws) (joinTexts "\n" (codes.filter (· ≠ ""))) last := by
    unfold Emitter.emitTops
    rw [ordered]
    exact yields_bind.mpr ⟨codes, last, emitted, rfl⟩
  rw [source_of_yields joined] at ended
  rw [← Except.ok.inj ended]
  exact ⟨codes, last, emitted, isLaidOut_tidy unbroken solid⟩

/-- A variable, a printed text and a procedure give definitions, and two statements and a value at the top
come from top to bottom. -/
theorem Emitter.source_laid_out_greeting :
    let assigned :=
      Json.object [("type", .text "variables_set"), ("fields", .object [("VAR", .text "count")]),
      ("y", .int 40),
      ("comment", .text "starts over  ")]
    let printed := Json.object [("type", .text "text_print"), ("y", .int 10)]
    let greets :=
      Json.object [("type", .text "procedures_defnoreturn"), ("fields", .object [("NAME", .text "greet")])]
    let truth := Json.object [("type", .text "logic_boolean"), ("y", .int 10)]
    let data :=
      Json.object [("name", .text "greeting"), ("variables", .list [.object [("name", .text "count")]]),
      ("blocks", .list [assigned, printed, greets, truth])]
    let emitter : Emitter := {}
    ∃ ws, loadWorkspace true none data = .ok ws ∧
      (∃ order, order.Perm ws.topBlocks ∧ ws.InOrder order ∧ emitter.Compiles ws True fun source =>
        ∃ codes last, Yields (order.mapM (emitter.emitTop ws)) (emitter.start ws) codes last ∧
          IsLaidOut (last.definitions.map (·.2)) codes source) ∧
      tidy (tidy " \n greet();\t\n\n") = tidy " \n greet();\t\n\n" := by
  intro assigned printed greets truth data emitter
  have loads : (loadWorkspace true none data).toOption.any fun ws =>
      (List.range ws.blocks.size).all (fun b => isKnownType (ws.block b).type) &&
        ws.topBlocks.all (fun b => (ws.block b).position?.isSome) := by decide +kernel
  obtain ⟨ws, loaded, holds⟩ := exists_ok_of_any loads
  simp only [Bool.and_eq_true, List.all_eq_true, List.mem_range] at holds
  obtain ⟨isKnown, placed⟩ := holds
  have proper : data.All Json.IsProper := by
    simp [data, assigned, printed, greets, truth, Json.All, Json.AllMembers, Json.AllItems,
      Json.IsProper, Table.keys]
  have noNumbers : ∀ text ∈
      ["greeting", "count", "variables_set", "starts over  ", "text_print", "procedures_defnoreturn", "greet",
      "logic_boolean"], (numberOf (.text text)).toOption.isNone := by decide +kernel
  have short : data.All Json.IsShort := by
    have words := fun text member => Json.isShort_text (noNumbers text member)
    have many : 100 ≤ tenTo (digitLimit - 1) := (show 100 ≤ tenTo 2 by decide).trans (tenTo_mono (by decide))
    have numbers : ∀ n : Int, n.natAbs < 100 → (Json.number (.int n)).IsShort :=
      fun n few => Nat.lt_of_lt_of_le few many
    simp [data, assigned, printed, greets, truth, Json.All, Json.AllMembers, Json.AllItems, words, numbers]
    simp [Json.IsShort]
  obtain ⟨⟨order, perm, inOrder, compiles⟩, tidies⟩ :=
    emitter.source_laid_out rfl loaded proper isKnown fun _ : True => short
  exact ⟨ws, loaded, ⟨order, perm, inOrder placed, compiles⟩, (tidies _).1⟩

/-- A disabled block at a place that is no number stands between two others, which come in the order in which
they were made. -/
theorem Emitter.source_out_of_order :
    let first := Json.object [("type", .text "logic_boolean"), ("y", .int 2)]
    let skipped :=
      Json.object [("type", .text "logic_boolean"), ("disabled", .bool true), ("y", .number (.float .nan))]
    let last := Json.object [("type", .text "math_number"), ("y", .int 1)]
    let data := Json.object [("name", .text "nowhere"), ("blocks", .list [first, skipped, last])]
    let emitter : Emitter := {}
    ∃ ws, loadWorkspace true none data = .ok ws ∧ data.All Json.IsProper ∧ ws.IsKnown ∧
      (ws.block 0).position? = some (.int 2, .int 0) ∧ (ws.block 2).position? = some (.int 1, .int 0) ∧
      ws.orderedTopBlocks? = some [0, 1, 2] ∧ ¬ ws.InOrder [0, 1, 2] ∧
        (emitter.source ws).1 = .ok "true;\n\n0;\n" := by
  intro first skipped last data emitter
  have proper : data.All Json.IsProper := by
    simp [data, first, skipped, last, Json.All, Json.AllMembers, Json.AllItems, Json.IsProper, Table.keys,
      Binary64.IsBounded]
  have holds : (loadWorkspace true none data).toOption.any fun ws =>
      (List.range ws.blocks.size).all (fun b => isKnownType (ws.block b).type) &&
        (ws.block 0).position? = some (.int 2, .int 0) && (ws.block 2).position? = some (.int 1, .int 0) &&
          ws.orderedTopBlocks? = some [0, 1, 2] && (emitter.source ws).1.toOption.any
            (· = "true;\n\n0;\n") := by decide +kernel
  obtain ⟨ws, loaded, holds⟩ := exists_ok_of_any holds
  simp only [Bool.and_eq_true, List.all_eq_true, List.mem_range, decide_eq_true_eq] at holds
  obtain ⟨⟨⟨⟨isKnown, high⟩, low⟩, ordered⟩, text⟩ := holds
  obtain ⟨_, source, same⟩ := exists_ok_of_any text
  obtain rfl := of_decide_eq_true same
  refine ⟨ws, loaded, proper, isKnown, high, low, ordered, fun inOrder => ?_, source⟩
  have pairs := inOrder.sorted
  simp only [List.pairwise_cons, List.mem_cons, List.not_mem_nil, or_false, forall_eq_or_imp,
    forall_eq] at pairs
  have above := pairs.1.2 _ high _ low
  have before : Position.before (.int 1, .int 0) (.int 2, .int 0) := by decide
  exact absurd ((Position.before_iff rfl rfl).mp before) (not_lt.mpr above)

end BlockCompiler
