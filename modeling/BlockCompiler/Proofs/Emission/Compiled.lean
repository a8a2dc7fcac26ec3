import BlockCompiler.Proofs.Emission.Loaded
import BlockCompiler.Proofs.Sorting.Sorted

/-!
What is loaded is compiled: no block of a loaded workspace is refused, and all its stacks have an order.
-/

namespace BlockCompiler

section Positions

variable {ws : Workspace} {oneBased : Option Bool} {document : Document} {strict : Bool} {data : Json}

theorem Json.exists_less? {a b : Json} (first : a.asNumber?.isSome) (second : b.asNumber?.isSome) :
    ∃ answer, a.less? b = some answer := by
  obtain ⟨m, isNumber⟩ := Option.isSome_iff_exists.mp first
  obtain ⟨n, isNumberOther⟩ := Option.isSome_iff_exists.mp second
  refine ⟨m.lt n, ?_⟩
  have shape : a.less? b = do return (← a.asNumber?).lt (← b.asNumber?) := by
    cases a with
    | bool | number => rw [Json.less?] <;> simp
    | _ => cases first
  rw [shape, isNumber, isNumberOther]
  rfl

/-- Blocks whose coordinates are numbers compare. -/
theorem answers_standsBefore?
    (placed : ∀ b, (ws.block b).x.asNumber?.isSome ∧ (ws.block b).y.asNumber?.isSome) :
    Answers fun a b => (ws.block a).standsBefore? (ws.block b) := by
  intro a b
  unfold Block.standsBefore?
  dsimp only
  split_ifs
  · exact Json.exists_less? (placed a).2 (placed b).2
  · exact Json.exists_less? (placed a).1 (placed b).1
  · exact ⟨false, rfl⟩

/-- The top blocks have an order if their coordinates are numbers, even if some of these are NaNs. -/
theorem exists_orderedTopBlocks?
    (placed : ∀ b, (ws.block b).x.asNumber?.isSome ∧ (ws.block b).y.asNumber?.isSome) :
    ∃ order, ws.orderedTopBlocks? = some order ∧ order.Perm ws.topBlocks := by
  unfold Workspace.orderedTopBlocks?
  dsimp only
  cases positions : ws.topBlocks.mapM fun b => (ws.block b).position?.map (·, b) with
  | none => exact exists_sortByRuns (answers_standsBefore? placed) ws.topBlocks
  | some items =>
    have blocks : items.map (·.2) = ws.topBlocks := by
      generalize ws.topBlocks = tops at positions
      induction tops generalizing items with
      | nil =>
        cases positions
        rfl
      | cons b rest ih =>
        rw [List.mapM_cons] at positions
        obtain ⟨item, here, positions⟩ := Option.bind_eq_some_iff.mp positions
        obtain ⟨others, later, positions⟩ := Option.bind_eq_some_iff.mp positions
        cases positions
        obtain ⟨position, _, rfl⟩ := Option.map_eq_some_iff.mp here
        rw [List.map_cons, ih others later]
    refine ⟨_, rfl, ?_⟩
    rw [← blocks]
    exact (List.mergeSort_perm ..).map _

/-- The coordinates of the blocks that are loaded are numbers. -/
theorem Workspace.Loads.placed {P : Json → Prop} (loads : ws.Loads oneBased document)
    (described : document.DescribedBy strict data) (proper : data.All P) (b : Nat) :
    (ws.block b).x.asNumber?.isSome ∧ (ws.block b).y.asNumber?.isSome := by
  by_cases inside : b < ws.blocks.size
  · obtain ⟨spec, among, _, _, renders⟩ := exists_related loads.blocks (List.mem_range.mpr inside)
    obtain ⟨top, member, here⟩ := List.mem_flatMap.mp among
    obtain ⟨value, part, describes⟩ := exists_related described.tops member
    obtain ⟨_, _, reads⟩ := describes.parts (proper.tops value part) spec here
    rw [renders.position.1, renders.position.2]
    exact reads.placed
  · have missing : ws.block b = default := by
      rw [Workspace.block, Array.getElem?_eq_none (Nat.le_of_not_lt inside)]
      rfl
    rw [missing]
    exact ⟨rfl, rfl⟩

end Positions

section Tops

variable {known : Bool} {tight : Prop} {emitter : Emitter}

/-- What plugs a block at the top has: it is a value, a statement or the definition of a procedure. -/
theorem BlockHead.form (head : BlockHead) :
    head.isValue ∨ head.isStatement ∨ BlockKind.ofName? head.type = some .defineProcedure := by
  unfold BlockHead.isValue BlockHead.isStatement
  cases BlockKind.ofName? head.type with
  | none => cases head.hasOutput <;> simp
  | some kind => cases kind <;> simp [BlockKind.shape, Shape.isValue]

/-- The definition of a procedure gives no code where it stands. -/
theorem emits_defined (templates : emitter.templates = knownTemplates) (strict : emitter.strict → known)
    {head : BlockHead} {rows : Rows BlockHead RowHead}
    (named : BlockKind.ofName? head.type = some .defineProcedure) (enabled : head.disabled = false)
    (ready : (Stack.block head rows .empty).Ready known tight) (fit : rows.Fit) (s : Pass) :
    Emits tight (emitter.emit (.block head rows .empty)) s fun output _ => output = .statements "" := by
  have bare : ∀ s, Emits tight (emitter.emit .empty) s fun _ _ => True := by
    intro s
    rw [Emitter.emit]
    exact emits_pure trivial
  have readyHere := ready.1
  rw [named] at readyHere
  obtain ⟨valid, readyRows⟩ := readyHere
  rw [Emitter.emit.eq_2, enabled, if_neg (by simp), emitSite_eq, Emitter.templateOf, templates,
    get?_knownTemplates, named]
  simp only [Option.map_some, pure_bind]
  have opens := @opensAt_row known tight emitter head rows (emitter.emit .empty) _ "STACK"
    (by simp [BlockKind.rows, BlockKind.shape]) readyRows fit (emits_openings templates strict rows)
  refine (emits_defineProcedure valid ⟨_, opens⟩ bare).bind ?_
  rintro output t _ rfl
  exact emits_pure rfl

/-- A stack at the top is emitted. -/
theorem emits_ready (templates : emitter.templates = knownTemplates) (strict : emitter.strict → known)
    {head : BlockHead} {rows : Rows BlockHead RowHead} {next : Stack BlockHead RowHead}
    (ready : (Stack.block head rows next).Ready known tight) (fits : (Stack.block head rows next).Fits)
    (loose : head.inline = false) (s : Pass) :
    Emits tight (emitter.emit (.block head rows next)) s fun _ _ => True := by
  cases isStatement : head.isStatement with
  | true =>
    exact (emits_stack templates strict _ ready fits ⟨isStatement, loose⟩ s).imp fun _ _ _ _ => trivial
  | false =>
    obtain ⟨_, fit, _, follows, _⟩ := fits
    obtain rfl : next = .empty := follows.resolve_left (by simp [isStatement])
    cases enabled : head.disabled with
    | true =>
      rw [Emitter.emit, enabled, if_pos rfl, Emitter.emit]
      exact emits_pure trivial
    | false =>
      rcases head.form with isValue | other | named
      · exact (emits_alone templates strict isValue enabled ready
          (emits_operands templates strict rows) s).imp
          fun _ _ _ _ => trivial
      · rw [isStatement] at other
        cases other
      · exact (emits_defined templates strict named enabled ready fit s).imp fun _ _ _ _ => trivial

/-- The source of a workspace is the code of its stacks below the definitions of the pass. -/
theorem source_of_yields {ws : Workspace} {code : String} {last : Pass}
    (yields : Yields (emitter.emitTops ws) (emitter.start ws) code last) :
    (emitter.source ws).1 = .ok (tidy (preamble (last.definitions.map (·.2)) ++ "\n\n\n" ++ code)) := by
  have finished : Yields (do return tidy (← Emission.finish (← emitter.emitTops ws))) (emitter.start ws)
      (tidy (preamble (last.definitions.map (·.2)) ++ "\n\n\n" ++ code)) last.clear :=
    yields_bind.mpr ⟨code, last, yields, rfl⟩
  unfold Emitter.source Emitter.inPass
  rw [finished]

/-- The stacks of a workspace are emitted if each of its top blocks is. -/
theorem emits_emitTops {ws : Workspace} {order : List Nat} (ordered : ws.orderedTopBlocks? = some order)
    (each : ∀ b ∈ order, ∀ s, Emits tight (emitter.emitBlock ws (some b)) s fun _ _ => True) (s : Pass) :
    Emits tight (emitter.emitTops ws) s fun _ _ => True := by
  unfold Emitter.emitTops
  rw [ordered]
  have codes : ∀ b ∈ order, ∀ s, Emits tight (emitter.emitTop ws b) s fun _ _ => True := by
    intro b among s
    unfold Emitter.emitTop
    refine (each b among s).bind fun output t _ _ => ?_
    exact emits_pure trivial
  exact (emits_mapM order codes fun _ _ _ _ _ _ => trivial).bind fun _ _ _ _ => emits_pure trivial

/-- A workspace whose top blocks can all be emitted is compiled. -/
theorem exists_source_of_emits {ws : Workspace} {order : List Nat}
    (ordered : ws.orderedTopBlocks? = some order)
    (each : ∀ b ∈ order, ∀ s, Emits True (emitter.emitBlock ws (some b)) s fun _ _ => True) :
    ∃ text, (emitter.source ws).1 = .ok text := by
  have tops := emits_emitTops ordered each (emitter.start ws)
  obtain ⟨code, last, yields, _⟩ :=
    (tops (emitter.sound_start ws)).exists_yields fun error excused => excused.1 trivial
  exact ⟨_, source_of_yields yields⟩

end Tops

/-- What is loaded has a source, if all whole numbers in it have fewer than 4300 digits and each character
stands for itself. -/
theorem Emitter.exists_source_of_loadWorkspace {strict : Bool} {oneBased : Option Bool} {data : Json}
    {ws : Workspace} (loaded : loadWorkspace strict oneBased data = .ok ws)
    (proper : data.All Json.IsProper) (short : data.All Json.IsShort) :
    ∃ text, (Emitter.source { strict } ws).1 = .ok text := by
  obtain ⟨document, described, _, loads⟩ := loads_of_loadWorkspace loaded
  obtain ⟨order, ordered, perm⟩ := exists_orderedTopBlocks? (loads.placed described proper)
  have isKnown : strict = true → ws.IsKnown := by
    rintro rfl
    exact loads.isKnown described proper
  refine exists_source_of_emits ordered fun b among s => ?_
  obtain ⟨rows, next, stack, loose, ready, fits⟩ :=
    loads.ready described proper (fun _ => short) isKnown (perm.mem_iff.mp among)
  rw [Emitter.emitBlock, stack]
  exact emits_ready rfl id ready fits loose s

end BlockCompiler
