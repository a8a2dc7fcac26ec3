import BlockCompiler.Proofs.Sorting.Placed
import BlockCompiler.Proofs.Source.Said

/-!
Procedures in sources: each name has one definition, which is that of the last block that defines it, and it
is called by the identifier that it is defined under.
-/

namespace BlockCompiler

/-- The identifiers of the procedures that a source defines, one for each head of a definition. -/
def definedIn (source : String) : List String :=
  (firmLines source.toList).filterMap (wordBehind? procedureLead)

/-- The identifier of a procedure in a pass. -/
def Pass.procedure? (pass : Pass) (name : String) : Option String :=
  pass.names.assigned.get? (nameKey name .procedure)

/-- A source holds the procedures that some stacks define, under the identifiers that they have in a pass: one
for each name. The definitions that stand are there with all their lines. Each call of a procedure stands in a
line that defines none, with an argument for each row of its block, and calls what is defined under its
name. -/
structure Pass.Hoists (last : Pass) (tops : List (Stack BlockHead RowHead)) (source : String) : Prop where
  once : (definedIn source).Nodup
  named : ∀ stack ∈ tops, ∀ name, stack.defined? = some name →
    ∃ identifier ∈ definedIn source, ∀ word, lower word = name → last.procedure? word = some identifier
  only : ∀ identifier ∈ definedIn source, ∃ stack ∈ tops, ∃ name, stack.defined? = some name ∧
    ∀ word, lower word = name → last.procedure? word = some identifier
  whole : ∀ head rows next, .block head rows next ∈ standing tops →
    (Stack.block head rows next).defined?.isSome →
    ∃ identifier comments names body, last.procedure? (head.field "NAME").word = some identifier ∧
      last.IsDefinition head rows comments names body ∧
      firmOf (procedureLines identifier comments names body) <:+: firmLines source.toList
  called : ∀ stack ∈ standing tops, ∀ head ∈ stack.generated,
    BlockKind.ofName? head.type = some .callProcedure →
    ∃ identifier arguments, last.procedure? (head.field "NAME").word = some identifier ∧
      arguments.length = head.reads.length ∧
      (∃ line ∈ firmLines source.toList, wordBehind? procedureLead line = none ∧
        Within (callCode identifier arguments).toList line) ∧
      ∀ definer ∈ tops, definer.defined? = some (lower (head.field "NAME").word) →
        identifier ∈ definedIn source

section Hoists

variable {s last : Pass} {tops : List (Stack BlockHead RowHead)} {codes : List String} {source : String}

/-- The case of a name does not matter for the identifier of its procedure. -/
theorem Pass.procedure?_congr {word name : String} (same : lower word = lower name) :
    last.procedure? word = last.procedure? name := by
  have key : nameKey word .procedure = nameKey name .procedure := nameKey_inj.mpr ⟨same, rfl⟩
  rw [procedure?, procedure?, key]

theorem Stack.defined?_eq {head : BlockHead} {rows : Rows BlockHead RowHead}
    {next : Stack BlockHead RowHead} {name : String}
    (defined : (Stack.block head rows next).defined? = some name) :
    lower (head.field "NAME").word = name := by
  rw [Stack.defined?] at defined
  split_ifs at defined
  exact Option.some.inj defined

/-- What stands of the stacks holds their procedures. -/
theorem Assembled.hoists (assembled : Assembled s last tops codes)
    (bare : ∀ name, s.definitions.get? (procedureKey name) = none) (heads : last.Heads codes source) :
    last.Hoists tops source := by
  obtain ⟨headers, procedures, lines, sourced⟩ := assembled.exists_sourced bare heads
  have listed : definedIn source = procedures := by
    rw [definedIn, sourced.filterMap_wordBehind? 'v' rfl (by decide)]
    exact sourced.states.procedures
  have isListed : ∀ identifier, identifier ∈ definedIn source ↔
      last.definitions.has (procedureKey identifier) :=
    fun identifier => listed ▸ sourced.defined identifier
  have has : ∀ {key text}, last.definitions.get? key = some text → last.definitions.has key := fun found => by
    rw [Table.has, found]
    rfl
  have named : ∀ stack ∈ tops, ∀ name, stack.defined? = some name →
      ∃ identifier ∈ definedIn source, ∀ word, lower word = name →
        last.procedure? word = some identifier := by
    intro stack among name defined
    obtain ⟨other, stands, definedOther⟩ := exists_standing among defined
    obtain ⟨head, rows, identifier, text, rfl, defines, found⟩ :=
      assembled.stands other stands (by rw [definedOther]; rfl)
    refine ⟨identifier, (isListed identifier).mpr (has found), fun word same => ?_⟩
    rw [Pass.procedure?_congr (same.trans (Stack.defined?_eq definedOther).symm)]
    exact defines.2.1
  refine ⟨listed ▸ sourced.proceduresOnce, named, fun identifier member => ?_,
    fun head rows next stands some => ?_,
    fun stack stands head generated kind => ?_⟩
  · obtain ⟨text, found⟩ := Option.isSome_iff_exists.mp ((isListed identifier).mp member)
    rcases assembled.procedures identifier text found with earlier | ⟨head, rows, among, defined, defines⟩
    · rw [bare identifier] at earlier
      cases earlier
    · obtain ⟨name, defined⟩ := Option.isSome_iff_exists.mp defined
      refine ⟨_, among, name, defined, fun word same => ?_⟩
      rw [Pass.procedure?_congr (same.trans (Stack.defined?_eq defined).symm)]
      exact defines.2.1
  · obtain ⟨_, _, identifier, text, same, defines, found⟩ := assembled.stands _ stands some
    cases same
    obtain ⟨isName, assigned, comments, names, body, definition, shape⟩ := defines
    refine ⟨identifier, comments, names, body, assigned, definition, ?_⟩
    rw [← firmLines_definition isName definition shape]
    exact infix_of_heads heads (.inl ⟨_, found⟩)
  · obtain ⟨line, member, apart, seen, _⟩ := assembled.exists_line heads stands generated
    rw [BlockHead.IsSeen, kind] at seen
    obtain ⟨identifier, arguments, assigned, each, within⟩ := seen
    refine ⟨identifier, arguments, assigned, each, ⟨line, member, apart, within⟩,
      fun definer among defined => ?_⟩
    obtain ⟨other, inSource, known⟩ := named definer among _ defined
    rwa [← Option.some.inj ((known _ rfl).symm.trans assigned)]

end Hoists

/-- The source of a loaded workspace of known types has one definition for each name of a procedure that the
workspace defines, that of the last block that defines it, and its calls are by the identifiers of these. If
all names are different, the definitions of all blocks are there. -/
theorem Emitter.source_hoists {emitter : Emitter} (templates : emitter.templates = knownTemplates)
    {strict : Bool} {oneBased : Option Bool} {data : Json} {ws : Workspace}
    (loaded : loadWorkspace strict oneBased data = .ok ws) (proper : data.All Json.IsProper)
    (isKnown : ws.IsKnown) {tight : Prop} (short : tight → data.All Json.IsShort) :
    ∃ tops, ws.orderedStacks? = some tops ∧ ws.HangAtTops tops ∧
      (ws.definedNames.Nodup → standing tops = tops) ∧
      emitter.Compiles ws tight fun source => ∃ code last,
        Yields (emitter.emitTops ws) (emitter.start ws) code last ∧
        last.Hoists tops source := by
  obtain ⟨order, tops, ordered, perm, found, isTops⟩ :=
    exists_orderedStacks loaded proper short fun _ : true = true => isKnown
  refine ⟨tops, found, hangAtTops ordered perm isTops, fun distinct => ?_,
    (emitter.compiles_assembled templates ordered isTops).imp ?_⟩
  · exact standing_of_nodup ((perm_definedNames perm isTops).nodup_iff.mpr distinct)
  · rintro source ⟨code, codes, last, yields, assembled, heads⟩
    exact ⟨code, last, yields, assembled.hoists (emitter.settled_start ws).2 heads⟩

/-- A call of a procedure above its definition, with its name in another case. -/
theorem Emitter.source_hoists_call :
    let call :=
      Json.object [("type", .text "procedures_callnoreturn"), ("fields", .object [("NAME", .text "GREET")])]
    let printed := Json.object [("type", .text "text_print")]
    let define :=
      Json.object [("type", .text "procedures_defnoreturn"), ("y", .int 1),
        ("fields", .object [("NAME", .text "greet")]),
      ("inputs", .object [("STACK", printed)])]
    let data := Json.object [("name", .text "manners"), ("blocks", .list [call, define])]
    let emitter : Emitter := {}
    ∃ ws, loadWorkspace true none data = .ok ws ∧ ∃ tops, ws.orderedStacks? = some tops ∧
      ws.HangAtTops tops ∧ (ws.definedNames.Nodup → standing tops = tops) ∧
      emitter.Compiles ws True fun source => ∃ code last,
        Yields (emitter.emitTops ws) (emitter.start ws) code last ∧
        last.Hoists tops source := by
  intro call printed define data emitter
  have loads : (loadWorkspace true none data).toOption.any fun ws =>
      (List.range ws.blocks.size).all fun b => isKnownType (ws.block b).type := by decide +kernel
  obtain ⟨ws, loaded, holds⟩ := exists_ok_of_any loads
  simp only [List.all_eq_true, List.mem_range] at holds
  have proper : data.All Json.IsProper := by
    simp [data, define, printed, call, Json.All, Json.AllMembers, Json.AllItems, Json.IsProper, Table.keys]
  have noNumbers : ∀ text ∈
      ["manners", "procedures_callnoreturn", "procedures_defnoreturn", "GREET", "greet", "text_print"],
      (numberOf (.text text)).toOption.isNone := by decide +kernel
  have short : data.All Json.IsShort := by
    have words := fun text member => Json.isShort_text (noNumbers text member)
    have one : (Json.number (.int 1)).IsShort :=
      Nat.lt_of_lt_of_le (show (1 : Int).natAbs < tenTo 1 by decide) (tenTo_mono (by decide))
    simp [data, define, printed, call, Json.All, Json.AllMembers, Json.AllItems, words]
    simp [Json.IsShort]
    exact one
  exact ⟨ws, loaded, emitter.source_hoists rfl loaded proper holds fun _ => short⟩

/-- Of two definitions of one name the first is dropped with its body, and only what its body includes is left
of it. -/
theorem Emitter.source_drops :
    let printed := Json.object [("type", .text "text_print")]
    let later :=
      Json.object [("type", .text "procedures_defnoreturn"), ("y", .int 1),
        ("fields", .object [("NAME", .text "A")])]
    let first :=
      Json.object [("type", .text "procedures_defnoreturn"), ("y", .int 0),
        ("fields", .object [("NAME", .text "a")]),
      ("inputs", .object [("STACK", printed)])]
    let data := Json.object [("name", .text "twice"), ("blocks", .list [later, first])]
    let emitter : Emitter := {}
    ∃ ws, loadWorkspace true none data = .ok ws ∧ data.All Json.IsProper ∧ ws.IsKnown ∧
      ws.definedNames = ["a", "a"] ∧
      (emitter.source ws).1 = .ok "#include <iostream>\n\nvoid a() \x7b\n\x7d\n" := by
  intro printed later first data emitter
  have proper : data.All Json.IsProper := by
    simp [data, later, first, printed, Json.All, Json.AllMembers, Json.AllItems, Json.IsProper, Table.keys]
  -- The order of the two blocks is known, and all else is computed.
  have holds : (loadWorkspace true none data).toOption.any fun ws =>
      (List.range ws.blocks.size).all (fun b => isKnownType (ws.block b).type) &&
        ws.definedNames = ["a", "a"] &&
        ws.topBlocks = [0, 1] && (ws.block 0).position? = some (.int 1, .int 0) && (ws.block 1).position? =
          some (.int 0, .int 0) &&
        (emitter.inPass ws do
          let codes ← [1, 0].mapM (emitter.emitTop ws)
          return tidy (← Emission.finish (joinTexts "\n" (codes.filter (· ≠ ""))))).1.toOption.any
            (· = "#include <iostream>\n\nvoid a() \x7b\n\x7d\n") := by
    decide +kernel
  obtain ⟨ws, loaded, holds⟩ := exists_ok_of_any holds
  simp only [Bool.and_eq_true, decide_eq_true_eq, List.all_eq_true, List.mem_range] at holds
  obtain ⟨⟨⟨⟨⟨isKnown, twice⟩, tops⟩, front⟩, back⟩, text⟩ := holds
  obtain ⟨_, source, same⟩ := exists_ok_of_any text
  obtain rfl := of_decide_eq_true same
  let items : List (Position × Nat) := [((.int 1, .int 0), 0), ((.int 0, .int 0), 1)]
  have ordered : ws.orderedTopBlocks? = some [1, 0] := by
    rw [@Workspace.orderedTopBlocks?_eq _ items ws id tops (by simpa [items] using ⟨front, back⟩),
      sortByPosition_swap (by decide)]
    rfl
  refine ⟨ws, loaded, proper, isKnown, twice, ?_⟩
  rw [← source]
  unfold Emitter.source Emitter.emitTops
  simp only [ordered, bind_assoc, pure_bind]

end BlockCompiler
