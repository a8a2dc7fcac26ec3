import BlockCompiler.Proofs.Coupling.Variables
import BlockCompiler.Proofs.Source.Assembled

/-!
Whole sources: the source of a loaded workspace has the lines of the definitions of the last state of its
pass, those that import something first, and below them the lines of its stacks.
-/

namespace BlockCompiler

/-- The stacks of a workspace, in the order in which they are compiled. -/
def Workspace.orderedStacks? (ws : Workspace) : Option (List (Stack BlockHead RowHead)) := do
  (← ws.orderedTopBlocks?).mapM fun b => ws.stack? (some b)

/-- Some stacks are what hangs at the top blocks of a workspace, in the order in which these are compiled. -/
def Workspace.HangAtTops (ws : Workspace) (tops : List (Stack BlockHead RowHead)) : Prop :=
  ∃ order, ws.orderedTopBlocks? = some order ∧ order.Perm ws.topBlocks ∧
    List.Forall₂ (fun b stack => ws.Hangs (some b) stack) order tops

/-- The names, in lower case, of the procedures that a workspace defines. -/
def Workspace.definedNames (ws : Workspace) : List String :=
  ws.topBlocks.filterMap fun b => (ws.stack? (some b)).bind Stack.defined?

/-- A source has the lines of what a pass defines, of what imports something first, and then those of some
codes. -/
def Pass.Heads (pass : Pass) (codes : List String) (source : String) : Prop :=
  firmLines source.toList = ((pass.definitions.map (·.2)).filter isImport ++
    (pass.definitions.map (·.2)).filter (!isImport ·) ++ codes).flatMap fun text => firmLines text.toList

/-- The compilation of a workspace ends with a source of which something holds. A numeral that is too long may
stop it, if there is one. -/
def Emitter.Compiles (emitter : Emitter) (ws : Workspace) (tight : Prop) (Holds : String → Prop) : Prop :=
  match (emitter.source ws).1 with
  | .ok source => Holds source
  | .error error => Excused tight error

section Tops

variable {known : Bool} {tight : Prop} {strict : Bool} {oneBased : Option Bool} {data : Json}
  {document : Document} {emitter : Emitter} {ws : Workspace}

/-- A loaded block at the top has a stack that is ready to be compiled. -/
theorem Workspace.Loads.exists_isTop (loads : ws.Loads oneBased document)
    (described : document.DescribedBy strict data) (proper : data.All Json.IsProper)
    (short : tight → data.All Json.IsShort) (isKnown : known = true → ws.IsKnown) {b : Nat}
    (member : b ∈ ws.topBlocks) : ∃ stack, ws.IsTop known tight b stack := by
  obtain ⟨rows, next, found, loose, ready, fits⟩ := loads.ready described proper short isKnown member
  refine ⟨_, found, ⟨rows, next, rfl⟩, loose, ready, fits, ?_⟩
  obtain ⟨top, _, hasTop⟩ := loads.top member
  obtain ⟨spec, inputs, after, rfl, _⟩ := hasTop.root
  have shown := hasTop.stack
  rw [Stack.shown] at shown
  have head := Workspace.head_of_stack? shown
  have output : (ws.head b).hasOutput = (ws.block b).output.isSome := rfl
  rw [← output, ← head, isValue_content]

/-- All stacks of a loaded workspace are ready to be compiled. -/
theorem exists_orderedStacks (loaded : loadWorkspace strict oneBased data = .ok ws)
    (proper : data.All Json.IsProper) (short : tight → data.All Json.IsShort)
    (isKnown : known = true → ws.IsKnown) :
    ∃ order tops, ws.orderedTopBlocks? = some order ∧ order.Perm ws.topBlocks ∧
      ws.orderedStacks? = some tops ∧
      List.Forall₂ (ws.IsTop known tight) order tops := by
  obtain ⟨document, described, _, loads⟩ := loads_of_loadWorkspace loaded
  obtain ⟨order, ordered, perm⟩ := exists_orderedTopBlocks? (loads.placed described proper)
  have each : ∀ b ∈ order, ∃ stack, ws.IsTop known tight b stack := fun b among =>
    loads.exists_isTop described proper short isKnown (perm.mem_iff.mp among)
  obtain ⟨tops, found, isTops⟩ : ∃ tops, order.mapM (fun b => ws.stack? (some b)) = some tops ∧
      List.Forall₂ (ws.IsTop known tight) order tops := by
    clear ordered perm
    induction order with
    | nil => exact ⟨[], rfl, .nil⟩
    | cons b order ih =>
      obtain ⟨⟨stack, isTop⟩, others⟩ := List.forall_mem_cons.mp each
      obtain ⟨tops, found, isTops⟩ := ih others
      refine ⟨stack :: tops, ?_, .cons isTop isTops⟩
      rw [List.mapM_cons, isTop.found, found]
      rfl
  refine ⟨order, tops, ordered, perm, ?_, isTops⟩
  rw [Workspace.orderedStacks?, ordered]
  exact found

/-- Stacks that are ready to be compiled are what hangs at the tops. -/
theorem hangAtTops {order : List Nat} {tops : List (Stack BlockHead RowHead)}
    (ordered : ws.orderedTopBlocks? = some order) (perm : order.Perm ws.topBlocks)
    (isTops : List.Forall₂ (ws.IsTop known tight) order tops) : ws.HangAtTops tops :=
  ⟨order, ordered, perm, isTops.imp fun _ _ isTop => Workspace.hangs_of_stack? isTop.found⟩

/-- The stacks in their order define the procedures of the workspace. -/
theorem perm_definedNames {order : List Nat} {tops : List (Stack BlockHead RowHead)}
    (perm : order.Perm ws.topBlocks) (isTops : List.Forall₂ (ws.IsTop known tight) order tops) :
    (tops.filterMap Stack.defined?).Perm ws.definedNames := by
  refine List.Perm.trans (List.Perm.of_eq ?_) (perm.filterMap _)
  clear perm
  induction isTops with
  | nil => rfl
  | cons isTop _ ih =>
    simp only [List.filterMap_cons, isTop.found, Option.bind_some, ih]

end Tops

section Start

variable {ws : Workspace}

/-- A pass is settled at its start. It defines nothing but variables. -/
theorem Emitter.settled_start (emitter : Emitter) (ws : Workspace) :
    (emitter.start ws).Settled ∧ ∀ name, (emitter.start ws).definitions.get? (procedureKey name) = none := by
  have sound := emitter.sound_start ws
  obtain ⟨consistent, lists⟩ := emitter.lists_start ws
  have words : ∀ name ∈ emitter.identifiers ws, IsName name.toList := by
    intro name among
    obtain ⟨_, _, assigned⟩ := lists.exists_name among
    exact sound.names.words _ _ assigned
  have definitions : (emitter.start ws).definitions =
      if ws.declared = [] then []
        else [("variables", "var " ++ joinTexts ", " (emitter.identifiers ws) ++ ";")] := by
    unfold Emitter.start
    cases shape : ws.declared with
    | nil => rfl
    | cons first rest =>
      rw [if_neg (by simp), if_neg (by simp), Emitter.identifiers, shape]
      rfl
  have none : (emitter.start ws).randomInt? = none := by
    have undefined : (emitter.start ws).definitions.has randomIntName = false := by
      rw [definitions]
      split_ifs <;> rfl
    rw [Pass.randomInt?, undefined]
    rfl
  refine ⟨⟨sound, consistent, fun name defined => ?_, ?_, fun entry member => ?_⟩, fun name => ?_⟩
  · rw [none] at defined
    cases defined
  · rw [definitions]
    split_ifs <;> simp [Table.keys]
  · rw [definitions] at member
    split_ifs at member
    · cases member
    · rw [List.mem_singleton.mp member]
      exact .declaration words
  · rw [definitions]
    split_ifs
    · rfl
    · rw [Table.get?, if_neg (Emission.procedureKey_ne (by decide)).symm]
      rfl

end Start

section Sources

variable {emitter : Emitter} {ws : Workspace} {known : Bool} {tight : Prop} {Holds Other : String → Prop}

theorem Emitter.Compiles.imp (compiles : emitter.Compiles ws tight Holds)
    (weaker : ∀ source, Holds source → Other source) :
    emitter.Compiles ws tight Other := by
  unfold Emitter.Compiles at *
  split at compiles
  · exact weaker _ compiles
  · exact compiles

/-- What follows of a source may follow from what it is the source of. -/
theorem Emitter.Compiles.imp_source (compiles : emitter.Compiles ws tight Holds)
    (weaker : ∀ source, (emitter.source ws).1 = .ok source → Holds source → Other source) :
    emitter.Compiles ws tight Other := by
  unfold Emitter.Compiles at *
  cases ended : (emitter.source ws).1 with
  | ok source =>
    rw [ended] at compiles
    exact weaker source ended compiles
  | error error =>
    rw [ended] at compiles
    exact compiles

/-- A source has the lines of the definitions above it and of the codes in it. -/
theorem firmLines_source (definitions codes : List String) :
    firmLines (tidy (preamble definitions ++ "\n\n\n" ++ joinTexts "\n" (codes.filter (· ≠ "")))).toList =
      (definitions.filter isImport ++ definitions.filter (!isImport ·) ++ codes).flatMap fun text =>
        firmLines text.toList := by
  have filled : (codes.filter (· ≠ "")).flatMap (fun text => firmLines text.toList) =
      codes.flatMap fun text => firmLines text.toList := by
    induction codes with
    | nil => rfl
    | cons code codes ih =>
      rw [List.filter_cons, List.flatMap_cons, ← ih]
      split_ifs with filled
      · rw [List.flatMap_cons]
      · obtain rfl : code = "" := by simpa using filled
        rfl
  rw [firmLines_tidy, List.flatMap_append, ← firmLines_preamble, ← filled, ← firmLines_joinTexts (.inl rfl)]
  simp [firmLines_append_feed]

/-- A workspace is compiled if all its stacks are ready: they are emitted in a pass, and the source has the
lines of what the pass defines and of their codes. -/
theorem Emitter.compiles_ordered (templates : emitter.templates = knownTemplates)
    (strict : emitter.strict → known) {order : List Nat} {tops : List (Stack BlockHead RowHead)}
    (ordered : ws.orderedTopBlocks? = some order) (isTops : List.Forall₂ (ws.IsTop known tight) order tops)
    {Ends : List String → Pass → Prop}
    (ends : Runs (fun _ => True) (order.mapM (emitter.emitTop ws)) (emitter.start ws) Ends) :
    emitter.Compiles ws tight fun source =>
      ∃ code codes last, Yields (emitter.emitTops ws) (emitter.start ws) code last ∧ Ends codes last ∧
      last.Heads codes source := by
  have assembles : Runs (fun _ => True) (emitter.emitTops ws) (emitter.start ws) fun code last => ∃ codes,
      code = joinTexts "\n" (codes.filter (· ≠ "")) ∧ Ends codes last := by
    unfold Emitter.emitTops
    rw [ordered]
    exact ends.bind fun codes last ended => runs_pure ⟨codes, rfl, ended⟩
  have emits : Emits tight (emitter.emitTops ws) (emitter.start ws) fun _ _ => True := by
    refine emits_emitTops ordered (fun b among s => ?_) _
    obtain ⟨stack, _, isTop⟩ := exists_related isTops among
    obtain ⟨rows, next, rfl⟩ := isTop.head
    rw [Emitter.emitBlock, isTop.found]
    exact emits_ready templates strict isTop.ready isTop.fits isTop.loose s
  have outcome := emits (emitter.sound_start ws)
  unfold Emitter.Compiles
  cases ended : ((emitter.emitTops ws).run (emitter.start ws) : Except EmissionError String × Pass) with
  | mk result last =>
    cases result with
    | ok code =>
      have yields : Yields (emitter.emitTops ws) (emitter.start ws) code last := ended
      obtain ⟨codes, rfl, holds⟩ := assembles.of_yields yields
      rw [source_of_yields yields]
      exact ⟨_, codes, last, yields, holds, firmLines_source _ _⟩
    | error error =>
      have failed : (emitter.source ws).1 = .error error := by
        unfold Emitter.source Emitter.inPass
        rw [run_bind, ended]
      rw [failed]
      unfold Runs at outcome
      rwa [ended] at outcome

/-- Where all types are known, the stacks show their blocks in the source. -/
theorem Emitter.compiles_assembled (templates : emitter.templates = knownTemplates) {order : List Nat}
    {tops : List (Stack BlockHead RowHead)} (ordered : ws.orderedTopBlocks? = some order)
    (isTops : List.Forall₂ (ws.IsTop true tight) order tops) : emitter.Compiles ws tight fun source =>
      ∃ code codes last, Yields (emitter.emitTops ws) (emitter.start ws) code last ∧
        Assembled (emitter.start ws) last tops codes ∧ last.Heads codes source :=
  emitter.compiles_ordered templates (fun _ => rfl) ordered isTops
    (runs_emitTops templates isTops (emitter.settled_start ws).1)

end Sources

end BlockCompiler
