import BlockCompiler.Proofs.Document.Loaded
import BlockCompiler.Proofs.Emission.Stacks

/-!
Workspaces that are loaded from documents: the stacks at their tops are ready to be compiled, and the code of
a stack of statements is its listing.
-/

namespace BlockCompiler

/-- All blocks of a workspace are of known types. -/
def Workspace.IsKnown (ws : Workspace) : Prop := ∀ b < ws.blocks.size, isKnownType (ws.block b).type

/-- The stack that starts at a block has the block at its head. -/
theorem Workspace.head_of_stack? {ws : Workspace} {b : Nat} {head : BlockHead}
    {rows : Rows BlockHead RowHead} {next : Stack BlockHead RowHead}
    (stack : ws.stack? (some b) = some (.block head rows next)) : head = ws.head b := by
  cases Workspace.hangs_of_stack? stack
  rfl

section Loads

variable {strict : Bool} {tight : Prop} {oneBased : Option Bool} {data : Json} {document : Document}
  {ws : Workspace}

/-- The blocks of a document have passed the schema. -/
theorem Document.DescribedBy.checked (described : document.DescribedBy strict data)
    (proper : data.All Json.IsProper) (short : tight → data.All Json.IsShort) :
    ∀ top ∈ document.tops, ∀ spec ∈ top.heads, spec.Checked strict tight := by
  intro top member spec among
  obtain ⟨value, part, describes⟩ := exists_related described.tops member
  have properPart := proper.tops value part
  by_cases isTight : tight
  · have both := (Json.all_and value).mpr ⟨properPart, (short isTight).tops value part⟩
    obtain ⟨inner, all, reads⟩ := describes.parts both spec among
    exact reads.checked ((Json.all_and inner).mp all).1 fun _ => ((Json.all_and inner).mp all).2
  · obtain ⟨inner, all, reads⟩ := describes.parts properPart spec among
    exact reads.checked all fun holds => absurd holds isTight

namespace Workspace.Loads

/-- The stack at a top block is one of the document. -/
theorem top (loads : ws.Loads oneBased document) {b : Nat} (member : b ∈ ws.topBlocks) :
    ∃ top ∈ document.tops, ws.HasTop b top := by
  rw [loads.tops] at member
  exact exists_related loads.shown member

/-- Blocks are of known types if those of the document are. -/
theorem isKnown_iff (loads : ws.Loads oneBased document) :
    ws.IsKnown ↔ ∀ top ∈ document.tops, ∀ spec ∈ top.heads, isKnownType spec.type := by
  have same : ∀ {bs : List Nat} {specs : List BlockSpec}, List.Forall₂ ws.Makes bs specs →
      ((∀ b ∈ bs, isKnownType (ws.block b).type) ↔ ∀ spec ∈ specs, isKnownType spec.type) := by
    intro bs specs made
    induction made with
    | nil => simp
    | cons first _ ih =>
      obtain ⟨_, _, renders⟩ := first
      have type := congrArg BlockContent.type renders.content
      simp only [List.forall_mem_cons, ih]
      rw [type]
      rfl
  have blocks := same loads.blocks
  simp only [List.mem_range, List.mem_flatMap, forall_exists_index, and_imp] at blocks
  unfold Workspace.IsKnown
  rw [blocks]
  exact ⟨fun all top member spec among => all spec top member among,
    fun all spec top member among => all top member spec among⟩

/-- The blocks of a loaded document have passed the schema, and are known where all blocks must be. -/
theorem checked (loads : ws.Loads oneBased document) (described : document.DescribedBy strict data)
    (proper : data.All Json.IsProper) (short : tight → data.All Json.IsShort) {known : Bool}
    (isKnown : known → ws.IsKnown) :
    ∀ top ∈ document.tops, ∀ spec ∈ top.heads, spec.Checked known tight := by
  intro top among spec inside
  obtain ⟨fieldKeys, mutationKeys, passes, _, small⟩ := described.checked proper short top among spec inside
  refine ⟨fieldKeys, mutationKeys, passes, fun unknown => ?_, small⟩
  by_contra all
  have isKnownSpec := loads.isKnown_iff.mp (isKnown (by simpa using all)) top among spec inside
  rw [isKnownType, unknown] at isKnownSpec
  cases isKnownSpec

/-- The stack at a top block is ready to be compiled, and starts with the block. -/
theorem ready (loads : ws.Loads oneBased document) (described : document.DescribedBy strict data)
    (proper : data.All Json.IsProper) (short : tight → data.All Json.IsShort) {known : Bool}
    (isKnown : known → ws.IsKnown) {b : Nat} (member : b ∈ ws.topBlocks) :
    ∃ rows next, ws.stack? (some b) = some (.block (ws.head b) rows next) ∧ (ws.head b).inline = false ∧
      (Stack.block (ws.head b) rows next).Ready known tight ∧ (Stack.block (ws.head b) rows next).Fits := by
  obtain ⟨top, among, hasTop⟩ := loads.top member
  obtain ⟨ready, fits⟩ :=
    (loads.builds top among).2.2.ready (loads.checked described proper short isKnown top among)
  obtain ⟨spec, inputs, next, rfl, _⟩ := hasTop.root
  have stack := hasTop.stack
  rw [Stack.shown] at stack ready fits
  have head := Workspace.head_of_stack? stack
  rw [head] at stack ready fits
  exact ⟨_, _, stack, by rw [← head], ready, fits⟩

/-- Where all types must be known, they are. -/
theorem isKnown (loads : ws.Loads oneBased document) (described : document.DescribedBy true data)
    (proper : data.All Json.IsProper) :
    ws.IsKnown := by
  refine loads.isKnown_iff.mpr fun top member spec among => ?_
  have checked : spec.Checked true False := described.checked proper False.elim top member spec among
  rw [isKnownType]
  by_contra unknown
  cases checked.unknown (by simpa using unknown)

end Workspace.Loads

end Loads

/-- The code of a stack of statements in a loaded workspace of known types has one line for each statement
without statements inside that is not disabled, in source order, and otherwise only lines that hold these
together. -/
theorem Emitter.emitBlock_lists {emitter : Emitter} (templates : emitter.templates = knownTemplates)
    {strict : Bool} {oneBased : Option Bool} {data : Json} {ws : Workspace}
    (loaded : loadWorkspace strict oneBased data = .ok ws) (proper : data.All Json.IsProper)
    (isKnown : ws.IsKnown) {tight : Prop} (short : tight → data.All Json.IsShort) {b : Nat}
    (top : b ∈ ws.topBlocks) (isStatement : (ws.head b).isStatement) {before : Pass} (sound : before.Sound) :
    ∃ stack, ws.stack? (some b) = some stack ∧ ws.Hangs (some b) stack ∧
      Runs (fun error => ¬ tight ∧ error = .numeral .tooLongToWrite) (emitter.emitBlock ws (some b)) before
        fun output after => ∃ code lines, output = .statements code ∧ after.Sound ∧
          splitLines code.toList = lines ++ [[]] ∧
          List.Forall₂ (fun leaf line => leaf.IsLine after line) stack.leaves (bareLines lines) := by
  obtain ⟨document, described, _, loads⟩ := loads_of_loadWorkspace loaded
  obtain ⟨rows, next, stack, inline, ready, fits⟩ :=
    loads.ready described proper short (fun _ : true = true => isKnown) top
  refine ⟨_, stack, Workspace.hangs_of_stack? stack, ?_⟩
  have emits := emits_stack templates (fun _ => rfl) _ ready fits ⟨isStatement, inline⟩ before
  rw [Emitter.emitBlock, stack]
  refine (emits sound).imp ?_
  rintro output after ⟨soundAfter, _, code, rfl, lists⟩
  obtain ⟨lines, shape, each, related⟩ := lists rfl
  refine ⟨code, lines, rfl, soundAfter, ?_, related.imp fun _ _ holds => holds after .refl⟩
  rw [shape, splitLines_unlines each]

/-- A branch that prints or changes a variable, then a disabled loop, then another print. -/
theorem Emitter.emitBlock_lists_branch :
    let printed := Json.object [("type", .text "text_print")]
    let changed := Json.object [("type", .text "math_change"), ("next", printed)]
    let last :=
      Json.object [("type", .text "controls_repeat_ext"), ("disabled", .bool true), ("next", printed),
      ("inputs", .object [("DO", changed)])]
    let branch := Json.object [("type", .text "controls_if"), ("mutation", .object [("else", .bool true)]),
      ("inputs", .object [("ELSE", changed), ("DO0", printed)]), ("next", last)]
    let data := Json.object [("name", .text "arms"), ("blocks", .list [branch])]
    let emitter : Emitter := {}
    ∃ ws, loadWorkspace true none data = .ok ws ∧ ∃ stack, ws.stack? (some 0) = some stack ∧
      ws.Hangs (some 0) stack ∧
        Runs (fun error => ¬ False ∧ error = .numeral .tooLongToWrite) (emitter.emitBlock ws (some 0))
        (emitter.start ws)
        fun output after => ∃ code lines, output = .statements code ∧ after.Sound ∧
          splitLines code.toList = lines ++ [[]] ∧
          List.Forall₂ (fun leaf line => leaf.IsLine after line) stack.leaves (bareLines lines) := by
  intro printed changed last branch data emitter
  have holds : (loadWorkspace true none data).toOption.any fun ws =>
      (List.range ws.blocks.size).all (fun b => isKnownType (ws.block b).type) && ws.topBlocks.contains 0 &&
        (ws.head 0).isStatement := by decide +kernel
  cases loaded : loadWorkspace true none data with
  | error error =>
    rw [loaded] at holds
    cases holds
  | ok ws =>
    rw [loaded] at holds
    simp only [Except.toOption, Option.any_some, Bool.and_eq_true, List.all_eq_true, List.mem_range,
      List.contains_iff_mem] at holds
    obtain ⟨⟨isKnown, top⟩, isStatement⟩ := holds
    have proper : data.All Json.IsProper := by
      simp [data, branch, last, changed, printed, Json.All, Json.AllMembers, Json.AllItems,
        Json.IsProper, Table.keys]
    exact ⟨ws, rfl, emitter.emitBlock_lists rfl loaded proper isKnown False.elim top isStatement
      (emitter.sound_start ws)⟩

end BlockCompiler
