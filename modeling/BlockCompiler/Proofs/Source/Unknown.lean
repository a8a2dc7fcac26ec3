import BlockCompiler.Proofs.Coupling.Stripped
import BlockCompiler.Proofs.Source.Gathered

/-!
Unknown types in sources: one comment line stands for each block of an unknown type that is a statement,
however deep it is, and no line of code depends on the names of unknown types. Both hold where no type has a
line feed in it.
-/

namespace BlockCompiler

/-- The line that stands for a statement of an unknown type is a comment, and ends with the quotation mark
behind the name. -/
theorem BlockHead.isRemark_standIn {head : BlockHead} (statement : head.hasOutput = false)
    (oneLine : OneLine head.type) :
    IsRemark head.standIn := by
  rw [BlockHead.standIn, if_neg (by simp [statement])]
  refine ⟨?_, ?_, '\'', ?_, by decide, by decide⟩
  · rw [String.toList_append, String.toList_append, List.append_assoc]
    exact isCommentLine_append (by decide) _
  · exact oneLine_append.mpr ⟨oneLine_append.mpr ⟨by decide, oneLine⟩, by decide⟩
  · rw [String.toList_append, List.getLast?_append]
    rfl

/-- How blocks of unknown types stand in a source, for the stacks that it is made of: the lines of each stack
that stands are in it, where a comment line is rendered for each statement of an unknown type. All documents
that differ in the names of unknown types only have the same lines of code. -/
structure Emitter.Confines (emitter : Emitter) (strict : Bool) (oneBased : Option Bool) (data : Json)
    (tops : List (Stack BlockHead RowHead)) (source : String) : Prop where
  rendered : ∀ stack ∈ standing tops, ∃ lines, stack.Renders lines ∧ firmOf lines <:+: firmLines source.toList
  remarks : ∀ stack ∈ standing tops, ∀ head ∈ stack.heads, BlockKind.ofName? head.type = none →
    head.hasOutput = false →
    IsRemark head.standIn
  others : ∀ other ws, other.unnamed = data.unnamed → loadWorkspace strict oneBased other = .ok ws →
    other.All Json.IsProper →
    (∀ b < ws.blocks.size, OneLine (ws.block b).type) →
      ∃ text, (emitter.source ws).1 = .ok text ∧ codeLines text.toList = codeLines source.toList

/-- In the source of a loaded workspace, a comment line stands for each statement of an unknown type, and no
line of code depends on the names of unknown types, if no types have line feeds in them. -/
theorem Emitter.source_confines {emitter : Emitter} (templates : emitter.templates = knownTemplates)
    (lenient : emitter.strict = false) {strict : Bool} {oneBased : Option Bool} {data : Json}
    {ws : Workspace} (loaded : loadWorkspace strict oneBased data = .ok ws)
    (proper : data.All Json.IsProper) (oneLine : ∀ b < ws.blocks.size, OneLine (ws.block b).type)
    {tight : Prop} (short : tight → data.All Json.IsShort) :
    ∃ tops, ws.orderedStacks? = some tops ∧
    emitter.Compiles ws tight (emitter.Confines strict oneBased data tops) := by
  have isStrict : emitter.strict → (false : Bool) := by simp [lenient]
  obtain ⟨tops, found, own, compiles⟩ :=
    emitter.compiles_gathered templates isStrict loaded proper (by simp) oneLine short
  obtain ⟨bare, loadedBare, unnamed⟩ := Emitter.source_unnamed templates loaded proper oneLine
  refine ⟨tops, found, compiles.imp_source ?_⟩
  rintro source ended ⟨_, codes, last, _, _, gathered, heads⟩
  refine ⟨fun stack stands => ?_, fun stack stands head among _ statement => ?_,
    fun other ws' same loaded' proper' oneLine' => ?_⟩
  · obtain ⟨text, rendersAs, inside⟩ := gathered.exists_infix heads stack stands
    obtain ⟨lines, renders, shape⟩ := rendersAs.firmly
    exact ⟨lines, renders, shape ▸ inside⟩
  · refine BlockHead.isRemark_standIn statement ?_
    obtain ⟨b, rfl⟩ := own stack (mem_of_standing stands) head among
    exact ws.oneLine_head oneLine b
  · obtain ⟨bare', loadedBare', unnamed'⟩ := Emitter.source_unnamed templates loaded' proper' oneLine'
    rw [same, loadedBare] at loadedBare'
    obtain rfl : bare = bare' := Except.ok.inj loadedBare'
    rw [ended] at unnamed
    generalize (emitter.source bare).1 = middle at unnamed unnamed'
    cases unnamed with
    | ok here =>
      generalize (emitter.source ws').1 = result at unnamed'
      cases unnamed' with
      | ok there => exact ⟨_, rfl, there.trans here.symm⟩

/-- A loop with a statement of an unknown type in it, and a value of one that is printed. Other names give the
same code. -/
theorem Emitter.source_confines_nested :
    let data := fun name : String =>
      let value := Json.object [("type", .text name)]
      let printed := Json.object [("type", .text "text_print"), ("inputs", .object [("TEXT", value)])]
      let told := Json.object [("type", .text name), ("comment", .text "whatever it is"), ("next", printed)]
      let loop := Json.object [("type", .text "controls_repeat_ext"), ("inputs", .object [("DO", told)])]
      Json.object [("name", .text "notes"), ("blocks", .list [loop])]
    let emitter : Emitter := {}
    ∃ ws, loadWorkspace false none (data "robot_say") = .ok ws ∧ (∃ tops, ws.orderedStacks? = some tops ∧
      emitter.Compiles ws True (emitter.Confines false none (data "robot_say") tops)) ∧
      (data "robot_ask").unnamed = (data "robot_say").unnamed ∧
        ∃ other, loadWorkspace false none (data "robot_ask") = .ok other ∧
        ∀ b < other.blocks.size, OneLine (other.block b).type := by
  intro data emitter
  have loads : ∀ name ∈ ["robot_say", "robot_ask"],
    (loadWorkspace false none (data name)).toOption.any fun ws =>
      (List.range ws.blocks.size).all fun b => '\n' ∉ (ws.block b).type.toList := by decide +kernel
  obtain ⟨ws, loaded, oneLine⟩ := exists_ok_of_any (loads "robot_say" (by simp))
  obtain ⟨other, loadedOther, oneLineOther⟩ := exists_ok_of_any (loads "robot_ask" (by simp))
  simp only [List.all_eq_true, List.mem_range, decide_eq_true_eq] at oneLine oneLineOther
  have proper : (data "robot_say").All Json.IsProper := by
    simp [data, Json.All, Json.AllMembers, Json.AllItems, Json.IsProper, Table.keys]
  have noNumbers : ∀ text ∈ ["notes", "controls_repeat_ext", "robot_say", "whatever it is", "text_print"],
      (numberOf (.text text)).toOption.isNone := by decide +kernel
  have short : (data "robot_say").All Json.IsShort := by
    have words := fun text member => Json.isShort_text (noNumbers text member)
    simp [data, Json.All, Json.AllMembers, Json.AllItems, words]
    simp [Json.IsShort]
  have unnamed : ∀ name ∈ ["robot_say", "robot_ask"], unnamedType name = "?" := by decide +kernel
  have same : (data "robot_ask").unnamed = (data "robot_say").unnamed := by
    simp [data, Json.unnamed, Json.editedDocument, Json.editedBlocks, Json.edited, Json.editedMembers,
      Json.editedInputs,
      Json.editedSockets, unnameTypes, Json.unnamedType, unnamed]
  exact ⟨ws, loaded, emitter.source_confines rfl rfl loaded proper oneLine fun _ => short, same, other,
    loadedOther, oneLineOther⟩

/-- A line feed in the name of an unknown type starts a line of code. -/
theorem Emitter.source_unconfined :
    let data :=
      Json.object [("name", .text "w"), ("blocks", .list [.object [("type", .text "zzz\ncount = 5; //")]])]
    let source := "// TODO: no template for block type 'zzz\ncount = 5; //'\n"
    ∃ ws, loadWorkspace false none data = .ok ws ∧ (({} : Emitter).source ws).1 = .ok source ∧
      "count = 5; //'".toList ∈ codeLines source.toList := by
  intro data source
  have yields : (loadWorkspace false none data).toOption.any fun ws => (({} : Emitter).source ws).1.toOption =
      some source := by
    decide +kernel
  obtain ⟨ws, loaded, shown⟩ := exists_ok_of_any yields
  refine ⟨ws, loaded, ?_, by decide +kernel⟩
  cases ended : (({} : Emitter).source ws).1 with
  | error => simp [ended, Except.toOption] at shown
  | ok text => simpa [ended, Except.toOption] using shown

end BlockCompiler
