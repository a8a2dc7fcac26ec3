import BlockCompiler.Proofs.Emission.Arranged
import BlockCompiler.Proofs.Emission.Stacks

/-!
Emitting stacks: by induction on the stack, what is emitted shows its blocks, operands in one code and
statements in lines that nest.
-/

namespace BlockCompiler

/-- What is emitted for an operand: nothing where no code is generated, and else a code that shows all
blocks. -/
def Displays (stack : Stack BlockHead RowHead) (output : Output) (pass : Pass) : Prop :=
  output = .statements "" ∧ stack.generated = [] ∨ ∃ code order, output = .value code order ∧
    Shows stack.generated code pass

/-- What is emitted for a stack of statements: lines that nest and show all blocks. -/
def Spreads (stack : Stack BlockHead RowHead) (output : Output) (pass : Pass) : Prop :=
  ∃ text, output = .statements text ∧ Lays 0 0 stack.generated pass text

section Operands

variable {known : Bool} {tight : Prop} {emitter : Emitter}

/-- A site shows what is plugged into a row of values. -/
theorem showsAt_row {head : BlockHead} {rows : Rows BlockHead RowHead} {below : Emission Output}
    {specs : List RowSpec}
    {name : String} (isValue : ∀ spec, specs.find? (·.1 = name) = some spec → spec.2.1 = .value)
    (ready : rows.Ready known tight specs)
    (each : ∀ name, (rows.at name).Ready known tight → (rows.at name).IsOperand →
      ∀ s, Gives (emitter.emit (rows.at name)) s (Displays (rows.at name))) :
    Site.ShowsAt ⟨head, emitter.sockets rows, below⟩ name (rows.generatedAt name) := by
  intro order default s
  have found := Rows.Ready.at rows ready name
  rw [Rows.generatedAt_eq]
  cases block : rows.at name with
  | empty =>
    rw [value_of_empty block]
    exact gives_return (.inl ⟨rfl, by rw [Stack.generated]⟩)
  | block inner others next =>
    cases search : specs.find? (·.1 = name) with
    | none =>
      rw [search, block] at found
      cases found
    | some spec =>
      rw [search] at found
      obtain ⟨operand, readyThere, _⟩ := found
      rw [value_of_block block, ← block]
      refine (each name readyThere (operand (isValue spec search)) s).bind ?_
      rintro output t _ (⟨rfl, none⟩ | ⟨code, bound, rfl, shows⟩)
      · exact gives_return (.inl ⟨rfl, none⟩)
      · rw [usedAs_value shows.filled]
        exact gives_return (.inr (shows.placed order bound))

/-- What is given for a block of unknown type: a zero for a value, and a comment for a statement. -/
theorem gives_unknown (templates : emitter.templates = knownTemplates) {site : Site}
    (unknown : BlockKind.ofName? site.head.type = none) (s : Pass) :
    Gives (emitter.templateOf site.head.type >>= fun template => template site) s fun output _ =>
      output = if site.head.hasOutput then some (.value "0" .atomic)
        else some (.statements ("// TODO: no template for block type '" ++ site.head.type ++ "'\n")) := by
  unfold Emitter.templateOf
  rw [templates, get?_knownTemplates, unknown]
  cases emitter.strict with
  | true =>
    have fails : Gives (throw (EmissionError.noTemplate site.head.type) : Emission PUnit) s fun _ _ =>
        False := gives_throw
    simp only [Option.map_none, if_true, bind_assoc]
    exact fails.bind fun _ _ _ => False.elim
  | false =>
    simp only [Option.map_none, Bool.false_eq_true, if_false, bind_assoc, pure_bind]
    refine Emission.gives_placeholder.bind fun _ t _ _ => ?_
    unfold Template.placeholder
    split_ifs <;> exact gives_return rfl

/-- What a value gives shows its blocks. -/
theorem gives_value (templates : emitter.templates = knownTemplates) {head : BlockHead}
    {rows : Rows BlockHead RowHead}
    {below : Emission Output} (isValue : head.isValue)
    (ready : (Stack.block head rows .empty).Ready known tight)
    (each : ∀ name, (rows.at name).Ready known tight → (rows.at name).IsOperand →
      ∀ s, Gives (emitter.emit (rows.at name)) s (Displays (rows.at name))) (s : Pass) :
    Gives (emitter.templateOf head.type >>= fun template => template ⟨head, emitter.sockets rows, below⟩) s
      (Exhibits ⟨head, emitter.sockets rows, below⟩ rows.generatedAt) := by
  have readyHere := ready.1
  cases named : BlockKind.ofName? head.type with
  | none =>
    have output : head.hasOutput := by simpa [BlockHead.isValue, named] using isValue
    refine (gives_unknown templates named s).imp ?_
    rintro output t _ rfl
    rw [if_pos output]
    refine exhibits (shows_nothing neat_zero) ?_ ⟨?_, ?_⟩
    · simp [BlockHead.reads, named]
    · simp [BlockHead.IsSeen, named]
    · simp [BlockHead.IsIncluded, BlockHead.headers, named]
  | some kind =>
    rw [named] at readyHere
    obtain ⟨valid, readyRows⟩ := readyHere
    have isValueKind : kind.shape.isValue := by simpa [BlockHead.isValue, named] using isValue
    have showsAt : ∀ name, Site.ShowsAt ⟨head, emitter.sockets rows, below⟩ name (rows.generatedAt name) :=
      fun name =>
      showsAt_row (fun spec search => rows_of_value isValueKind _ spec (List.mem_of_find?_eq_some search))
        readyRows each
    rw [Emitter.templateOf, templates, get?_knownTemplates, named]
    simp only [Option.map_some, pure_bind]
    exact exhibits_template named isValueKind valid showsAt

/-- A value that nothing follows is emitted as its comments and a code that shows its blocks. -/
theorem gives_alone (templates : emitter.templates = knownTemplates) {head : BlockHead}
    {rows : Rows BlockHead RowHead}
    (isValue : head.isValue) (enabled : head.disabled = false)
    (ready : (Stack.block head rows .empty).Ready known tight)
    (each : ∀ name, (rows.at name).Ready known tight → (rows.at name).IsOperand →
      ∀ s, Gives (emitter.emit (rows.at name)) s (Displays (rows.at name))) (s : Pass) :
    Gives (emitter.emit (.block head rows .empty)) s fun output t => ∃ code order,
      output = .value (Site.comments ⟨head, emitter.sockets rows, emitter.emit .empty⟩ ++ code) order ∧
        Shows (Stack.block head rows .empty).generated code t := by
  have generated : (Stack.block head rows .empty).generated =
      head :: head.reads.flatMap rows.generatedAt := by
    rw [Stack.generated, Stack.generated, enabled, if_neg (by simp), List.append_nil]
  rw [Emitter.emit.eq_2, enabled, if_neg (by simp), emitSite_eq, generated]
  refine (gives_value templates isValue ready each s).bind ?_
  rintro output t _ ⟨code, order, rfl, shows⟩
  have finished : Site.finish ⟨head, emitter.sockets rows, emitter.emit .empty⟩ code =
      pure (Site.comments ⟨head, emitter.sockets rows, emitter.emit .empty⟩ ++ code) := by
    rw [Site.finish, Emitter.emit.eq_1, pure_bind]
    simp [Output.code]
  simp only [finished, pure_bind]
  exact gives_return ⟨code, order, rfl, shows⟩

mutual

/-- What is emitted for an operand shows its blocks. -/
theorem gives_operand (templates : emitter.templates = knownTemplates) (stack : Stack BlockHead RowHead)
    (ready : stack.Ready known tight) (isOperand : stack.IsOperand) (s : Pass) :
    Gives (emitter.emit stack) s (Displays stack) := by
  match stack with
  | .empty =>
    rw [Emitter.emit]
    exact gives_return (.inl ⟨rfl, by rw [Stack.generated]⟩)
  | .block head rows next =>
    obtain ⟨isValue, inline, rfl⟩ := isOperand
    cases enabled : head.disabled with
    | true =>
      rw [Emitter.emit, enabled, if_pos rfl, Emitter.emit]
      exact gives_return (.inl ⟨rfl, by rw [Stack.generated, Stack.generated, enabled, if_pos rfl]; rfl⟩)
    | false =>
      refine (gives_alone templates isValue enabled ready (gives_operands templates rows) s).imp ?_
      rintro output t _ ⟨code, order, rfl, shows⟩
      have silent : Site.comments ⟨head, emitter.sockets rows, emitter.emit .empty⟩ = "" := by
        rw [Site.comments, inline, if_pos rfl]
      rw [silent, String.empty_append]
      exact .inr ⟨code, order, rfl, shows⟩

/-- What is emitted for the operands in some rows shows their blocks. -/
theorem gives_operands (templates : emitter.templates = knownTemplates) (rows : Rows BlockHead RowHead)
    (name : String) (ready : (rows.at name).Ready known tight) (isOperand : (rows.at name).IsOperand)
    (s : Pass) :
    Gives (emitter.emit (rows.at name)) s (Displays (rows.at name)) := by
  match rows with
  | .nil => exact gives_operand templates .empty ready isOperand s
  | .cons row plugged rest =>
    rw [Rows.at] at ready isOperand ⊢
    by_cases named : row.name = name
    · rw [if_pos named] at ready isOperand ⊢
      exact gives_operand templates plugged ready isOperand s
    · rw [if_neg named] at ready isOperand ⊢
      exact gives_operands templates rest name ready isOperand s

end

end Operands

section Stacks

variable {tight : Prop} {emitter : Emitter}

/-- A site gives the lines of what is in an opening. -/
theorem laysAt_row {head : BlockHead} {rows : Rows BlockHead RowHead} {below : Emission Output}
    {specs : List RowSpec}
    {name : String} (isStatement : ∀ spec, specs.find? (·.1 = name) = some spec → spec.2.1 = .statement)
    (ready : rows.Ready true tight specs) (fit : rows.Fit)
    (each : ∀ name, (rows.at name).Ready true tight → (rows.at name).Fits → (rows.at name).IsStatement →
      ∀ s, Gives (emitter.emit (rows.at name)) s (Spreads (rows.at name))) :
    Site.LaysAt ⟨head, emitter.sockets rows, below⟩ name (rows.generatedAt name) := by
  intro s
  have found := find?_sockets emitter rows name
  have readyAt := Rows.Ready.at rows ready name
  obtain ⟨fits, statement⟩ := fit.at rows ready name
  rw [Rows.generatedAt_eq]
  unfold Site.statements Site.socket?
  generalize (emitter.sockets rows).find? (·.name = name) = socket at found
  cases socket with
  | none =>
    dsimp only at found ⊢
    rw [found, Stack.generated]
    exact gives_return lays_nothing
  | some socket =>
    obtain ⟨_, code⟩ := found
    dsimp only
    rw [code]
    have gives : Gives (emitter.emit (rows.at name)) s (Spreads (rows.at name)) := by
      cases search : specs.find? (·.1 = name) with
      | none =>
        rw [search] at readyAt
        rw [show rows.at name = .empty from readyAt, Emitter.emit]
        exact gives_return ⟨"", rfl, by rw [Stack.generated]; exact lays_nothing⟩
      | some spec =>
        rw [search] at readyAt
        exact each name readyAt.2.1 fits (statement spec search (isStatement spec search)) s
    refine gives.bind ?_
    rintro output t _ ⟨code, rfl, lays⟩
    exact gives_return lays.indented

/-- The template for a branch shows the conditions and the bodies of all its arms. -/
theorem gives_branch {head : BlockHead} {rows : Rows BlockHead RowHead} {below : Emission Output}
    (named : BlockKind.ofName? head.type = some .branch) (valid : head.Valid tight .branch)
    (ready : rows.Ready true tight (BlockKind.branch.rows head.mutation))
    (showsAt : ∀ name, (∀ spec ∈ BlockKind.branch.rows head.mutation, spec.1 = name → spec.2.1 = .value) →
      Site.ShowsAt ⟨head, emitter.sockets rows, below⟩ name (rows.generatedAt name))
    (laysAt : ∀ name, (∀ spec ∈ BlockKind.branch.rows head.mutation, spec.1 = name → spec.2.1 = .statement) →
      Site.LaysAt ⟨head, emitter.sockets rows, below⟩ name (rows.generatedAt name)) (s : Pass) :
    Gives (BlockKind.branch.template ⟨head, emitter.sockets rows, below⟩) s
      (Arranges ⟨head, emitter.sockets rows, below⟩ rows.generatedAt) := by
  obtain ⟨count, counted⟩ := valid.arms
  have branches := @branches_of_count true tight emitter head rows below count named ready counted
  have shape := rows_branch counted
  generalize ((head.mutation.get? "else").getD .null).isVoid = closed at shape
  have names := @Rows.Ready.names true tight emitter rows _ ready
  have read : head.reads = (branchRows count closed).map (·.1) := by
    rw [BlockHead.reads_of_kind named (BlockHead.takesEnd_of_kind named (by decide)), shape]
  rw [shape] at names
  refine arranges_branch named read branches.arms (fun name inNames => ?_)
    (fun arm => showsAt _ (branches.conditions arm))
    (fun arm => laysAt _ (branches.bodies arm)) (laysAt "ELSE" branches.last)
  obtain ⟨spec, member, rfl⟩ := List.mem_map.mp inNames
  rcases mem_branchRows.mp member with ⟨arm, le, rfl | rfl⟩ | ⟨isOpen, rfl⟩
  · exact .inl ⟨arm, Nat.lt_succ_of_le le, .inl rfl⟩
  · exact .inl ⟨arm, Nat.lt_succ_of_le le, .inr rfl⟩
  · exact .inr ⟨rfl, by rw [Site.socket?_isSome, names, otherwise_mem]; exact isOpen⟩

/-- The template for a statement gives lines that show its block and all that the block reads. -/
theorem gives_statement {head : BlockHead} {rows : Rows BlockHead RowHead} {below : Emission Output}
    {kind : BlockKind}
    (named : BlockKind.ofName? head.type = some kind) (isStatement : kind.shape.plug = .statement)
    (valid : head.Valid tight kind) (ready : rows.Ready true tight (kind.rows head.mutation)) (fit : rows.Fit)
    (eachOperand : ∀ name, (rows.at name).Ready true tight → (rows.at name).IsOperand →
      ∀ s, Gives (emitter.emit (rows.at name)) s (Displays (rows.at name)))
    (each : ∀ name, (rows.at name).Ready true tight → (rows.at name).Fits → (rows.at name).IsStatement →
      ∀ s, Gives (emitter.emit (rows.at name)) s (Spreads (rows.at name))) (s : Pass) :
    Gives (kind.template ⟨head, emitter.sockets rows, below⟩) s
      (Arranges ⟨head, emitter.sockets rows, below⟩ rows.generatedAt) := by
  have showsAt : ∀ name, (∀ spec ∈ kind.rows head.mutation, spec.1 = name → spec.2.1 = .value) →
      Site.ShowsAt ⟨head, emitter.sockets rows, below⟩ name (rows.generatedAt name) := by
    intro name isValue
    exact showsAt_row (kind_of_find? isValue) ready eachOperand
  have laysAt : ∀ name, (∀ spec ∈ kind.rows head.mutation, spec.1 = name → spec.2.1 = .statement) →
      Site.LaysAt ⟨head, emitter.sockets rows, below⟩ name (rows.generatedAt name) := by
    intro name isOpening
    exact laysAt_row (kind_of_find? isOpening) ready fit each
  cases kind with
  | print => exact arranges_print named (showsAt "TEXT" (by simp [BlockKind.rows, BlockKind.shape]))
  | setVariable =>
    exact arranges_setVariable named (showsAt "VALUE" (by simp [BlockKind.rows, BlockKind.shape]))
  | change => exact arranges_change named (showsAt "DELTA" (by simp [BlockKind.rows, BlockKind.shape]))
  | callProcedure =>
    exact arranges_callProcedure named valid fun i => showsAt _ fun spec member _ =>
      kind_of_mem_arguments spec member
  | repeatTimes =>
    exact arranges_repeatTimes named (showsAt "TIMES" (by simp [BlockKind.rows, BlockKind.shape]))
      (laysAt "DO" (by simp [BlockKind.rows, BlockKind.shape]))
  | whileUntil =>
    exact arranges_whileUntil named (showsAt "BOOL" (by simp [BlockKind.rows, BlockKind.shape]))
      (laysAt "DO" (by simp [BlockKind.rows, BlockKind.shape]))
  | branch => exact gives_branch named valid ready showsAt laysAt s
  | _ => cases isStatement

/-- What is emitted for a statement is what its template gives, between its comments and what follows. -/
theorem gives_chained (templates : emitter.templates = knownTemplates)
    {head : BlockHead} {rows : Rows BlockHead RowHead} {next : Stack BlockHead RowHead}
    (enabled : head.disabled = false)
    (ready : (Stack.block head rows next).Ready true tight) (fits : (Stack.block head rows next).Fits)
    (isStatement : head.isStatement)
    (each : ∀ name, (rows.at name).Ready true tight → (rows.at name).Fits → (rows.at name).IsStatement →
      ∀ s, Gives (emitter.emit (rows.at name)) s (Spreads (rows.at name)))
    (below : ∀ s, Gives (emitter.emit next) s (Spreads next)) (s : Pass) :
    Gives (emitter.emit (.block head rows next)) s (Spreads (.block head rows next)) := by
  obtain ⟨_, fit, _⟩ := fits
  have readyHere := ready.1
  cases named : BlockKind.ofName? head.type with
  | none =>
    rw [named] at readyHere
    cases readyHere
  | some kind =>
    rw [named] at readyHere
    obtain ⟨valid, readyRows⟩ := readyHere
    have plug : kind.shape.plug = .statement := by simpa [BlockHead.isStatement, named] using isStatement
    have generated : (Stack.block head rows next).generated = (head :: head.reads.flatMap rows.generatedAt) ++
        next.generated := by
      rw [Stack.generated, enabled, if_neg (by simp)]
    rw [Emitter.emit.eq_2, enabled, if_neg (by simp), emitSite_eq, Emitter.templateOf, templates,
      get?_knownTemplates, named]
    simp only [Option.map_some, pure_bind]
    refine (gives_statement named plug valid readyRows fit (gives_operands templates rows) each s).bind ?_
    rintro output t _ ⟨code, rfl, lays⟩
    dsimp only
    rw [Site.finish, bind_assoc]
    refine (below t).bind ?_
    rintro output u precedes ⟨later, rfl, others⟩
    refine gives_return ⟨_, rfl, ?_⟩
    rw [generated]
    exact ((lays_comments _).append (lays.later precedes)).append others

mutual

/-- What is emitted for a stack of statements are lines that show its blocks. -/
theorem gives_stack (templates : emitter.templates = knownTemplates) (stack : Stack BlockHead RowHead)
    (ready : stack.Ready true tight) (fits : stack.Fits) (isStatement : stack.IsStatement) (s : Pass) :
    Gives (emitter.emit stack) s (Spreads stack) := by
  match stack with
  | .empty =>
    rw [Emitter.emit]
    exact gives_return ⟨"", rfl, by rw [Stack.generated]; exact lays_nothing⟩
  | .block head rows next =>
    have below := gives_stack templates next ready.2 fits.2.2.2.2 fits.2.2.1
    cases enabled : head.disabled with
    | true =>
      rw [Emitter.emit, enabled, if_pos rfl]
      refine (below s).imp ?_
      rintro output t _ ⟨code, rfl, lays⟩
      refine ⟨code, rfl, ?_⟩
      rwa [Stack.generated, enabled, if_pos rfl, List.nil_append]
    | false =>
      exact gives_chained templates enabled ready fits isStatement.1 (gives_openings templates rows) below s

/-- What is emitted for the statements in some rows are lines that show their blocks. -/
theorem gives_openings (templates : emitter.templates = knownTemplates) (rows : Rows BlockHead RowHead)
    (name : String) (ready : (rows.at name).Ready true tight) (fits : (rows.at name).Fits)
    (isStatement : (rows.at name).IsStatement) (s : Pass) :
    Gives (emitter.emit (rows.at name)) s (Spreads (rows.at name)) := by
  match rows with
  | .nil => exact gives_stack templates .empty ready fits isStatement s
  | .cons row plugged rest =>
    rw [Rows.at] at ready fits isStatement ⊢
    by_cases named : row.name = name
    · rw [if_pos named] at ready fits isStatement ⊢
      exact gives_stack templates plugged ready fits isStatement s
    · rw [if_neg named] at ready fits isStatement ⊢
      exact gives_openings templates rest name ready fits isStatement s

end

end Stacks

end BlockCompiler
