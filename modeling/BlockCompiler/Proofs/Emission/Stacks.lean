import BlockCompiler.Proofs.Emission.Statements

/-!
Emitting stacks of statements: by induction on the stack, what is emitted lists its statements.
-/

namespace BlockCompiler

section Arms

/-- The rows of a branch: those of its arms, and perhaps one for what is done otherwise. -/
def branchRows (count : Nat) (closed : Bool) : List RowSpec :=
  (List.range (count + 1)).flatMap armRows ++ if closed then [] else [("ELSE", .statement, none)]

variable {count : Nat} {closed : Bool}

theorem mem_branchRows {spec : RowSpec} : spec ∈ branchRows count closed ↔
    (∃ arm ≤ count, spec = (s!"IF{arm}", .value, booleanCheck) ∨ spec = (s!"DO{arm}", .statement, none)) ∨
      closed = false ∧ spec = ("ELSE", .statement, none) := by
  unfold branchRows armRows
  simp only [List.mem_append, List.mem_flatMap, List.mem_range, Nat.lt_add_one_iff]
  cases closed <;> simp

theorem head?_condition (arm : Nat) : (s!"IF{arm}").toList.head? = some 'I' := by
  show ("IF" ++ toString arm).toList.head? = _
  simp

theorem head?_body (arm : Nat) : (s!"DO{arm}").toList.head? = some 'D' := by
  show ("DO" ++ toString arm).toList.head? = _
  simp

/-- Which rows of a branch are sockets of values is told by their first letter. -/
theorem kind_of_mem_branchRows {spec : RowSpec} (member : spec ∈ branchRows count closed) :
    spec.2.1 = (if spec.1.toList.head? = some 'I' then RowKind.value else RowKind.statement) := by
  rcases mem_branchRows.mp member with ⟨arm, _, rfl | rfl⟩ | ⟨_, rfl⟩
  · rw [if_pos (head?_condition arm)]
  · rw [if_neg (by rw [head?_body arm]; decide)]
  · rfl

theorem condition_mem {arm : Nat} : s!"IF{arm}" ∈ (branchRows count closed).map (·.1) ↔ arm ≤ count := by
  rw [List.mem_map]
  constructor
  · rintro ⟨spec, member, same⟩
    rcases mem_branchRows.mp member with ⟨other, le, rfl | rfl⟩ | ⟨_, rfl⟩
    · obtain rfl : other = arm :=
        Registry.append_toString_inj (show "IF" ++ toString other = "IF" ++ toString arm from same)
      exact le
    · have first := congrArg (fun name : String => name.toList.head?) same
      simp only [head?_condition, head?_body] at first
      cases first
    · have first := congrArg (fun name : String => name.toList.head?) same
      simp only [head?_condition] at first
      cases first
  · exact fun le => ⟨_, mem_branchRows.mpr (.inl ⟨arm, le, .inl rfl⟩), rfl⟩

theorem otherwise_mem : "ELSE" ∈ (branchRows count closed).map (·.1) ↔ closed = false := by
  rw [List.mem_map]
  constructor
  · rintro ⟨spec, member, same⟩
    rcases mem_branchRows.mp member with ⟨arm, _, rfl | rfl⟩ | ⟨isOpen, _⟩
    · have first := congrArg (fun name : String => name.toList.head?) same
      simp only [head?_condition] at first
      cases first
    · have first := congrArg (fun name : String => name.toList.head?) same
      simp only [head?_body] at first
      cases first
    · exact isOpen
  · exact fun isOpen => ⟨_, mem_branchRows.mpr (.inr ⟨isOpen, rfl⟩), rfl⟩

theorem takeWhile_upTo {count size : Nat} {p : Nat → Bool} (isUpTo : ∀ i, p i = decide (i ≤ count))
    (le : count ≤ size) :
    ((List.range size).map (· + 1)).takeWhile p = (List.range count).map (· + 1) := by
  obtain ⟨more, rfl⟩ := Nat.exists_eq_add_of_le le
  rw [List.range_add, List.map_append, List.takeWhile_append_of_pos]
  · cases more with
    | zero => simp
    | succ more => simp [List.range_succ_eq_map, isUpTo]
  · intro i member
    obtain ⟨j, among, rfl⟩ := List.mem_map.mp member
    simpa [isUpTo] using Nat.succ_le_of_lt (List.mem_range.mp among)

/-- A branch has as many arms as its mutation tells. -/
theorem BlockHead.Valid.arms {tight : Prop} {head : BlockHead} (valid : head.Valid tight .branch) :
    ∃ count : Nat, ((head.mutation.get? "elseif").getD (.int 0)).toWhole = .ok count := by
  cases found : head.mutation.get? "elseif" with
  | none => exact ⟨0, rfl⟩
  | some value =>
    have form := valid.mutates.arms value found
    unfold Json.isNaturalNumber at form
    split at form
    · rename_i whole
      exact ⟨whole.toNat, by simpa [Json.toWhole] using (Int.toNat_of_nonneg (by simpa using form)).symm⟩
    · cases form

theorem rows_branch {mutation : Table Json}
    (counted : ((mutation.get? "elseif").getD (.int 0)).toWhole = .ok count) :
    BlockKind.branch.rows mutation = branchRows count ((mutation.get? "else").getD .null).isVoid := by
  have rows : BlockKind.branch.rows mutation = (RowFamily.arms.rows mutation).1 := rfl
  rw [rows, RowFamily.rows, counted, branchRows]
  dsimp only
  split_ifs <;> simp

theorem openings_branch {head : BlockHead} (named : BlockKind.ofName? head.type = some .branch)
    (counted : ((head.mutation.get? "elseif").getD (.int 0)).toWhole = .ok count) :
    head.openings = ((List.range (count + 1)).map fun arm => s!"DO{arm}") ++
      if ((head.mutation.get? "else").getD .null).isVoid then [] else ["ELSE"] := by
  simp only [BlockHead.openings, named, counted, Int.toNat_natCast]

/-- All rows of a call are those of its arguments. -/
theorem kind_of_mem_arguments {mutation : Table Json} :
    ∀ spec ∈ BlockKind.callProcedure.rows mutation, spec.2.1 = .value := by
  intro spec member
  have rows : BlockKind.callProcedure.rows mutation = (RowFamily.arguments.rows mutation).1 := rfl
  rw [rows, RowFamily.rows] at member
  cases counted : parameters mutation with
  | error error => simp [counted] at member
  | ok params =>
    simp only [counted, List.mem_map] at member
    obtain ⟨_, _, rfl⟩ := member
    rfl

end Arms

section Sockets

variable {known : Bool} {tight : Prop} {emitter : Emitter}

/-- The sockets of rows that are ready have the names of the specifications. -/
theorem Rows.Ready.names (rows : Rows BlockHead RowHead) {specs : List RowSpec}
    (ready : rows.Ready known tight specs) :
    (emitter.sockets rows).map (·.name) = specs.map (·.1) := by
  match rows with
  | .nil =>
    obtain rfl : specs = [] := ready
    rw [Emitter.sockets]
    rfl
  | .cons row plugged rest =>
    obtain ⟨spec, others, rfl, rfl, _, _, later⟩ := ready
    rw [Emitter.sockets, List.map_cons, List.map_cons, Rows.Ready.names rest later]
    rfl

theorem Site.socket?_isSome {site : Site} {name : String} :
    (site.socket? name).isSome ↔ name ∈ site.sockets.map (·.name) := by
  rw [Site.socket?, List.find?_isSome]
  simp

/-- The arms of a branch are counted by its sockets. -/
theorem armsOf_of_names {site : Site} {count : Nat} {closed : Bool}
    (names : site.sockets.map (·.name) = (branchRows count closed).map (·.1)) :
    Template.armsOf site = List.range (count + 1) := by
  have upTo : ∀ i : Nat, (site.socket? s!"IF{i}").isSome = decide (i ≤ count) := by
    intro i
    rw [Bool.eq_iff_iff, Site.socket?_isSome, names, condition_mem]
    simp
  have size : count ≤ site.sockets.length := by
    have length := congrArg List.length names
    simp only [List.length_map, branchRows, armRows, List.length_append, List.length_flatMap] at length
    simp at length
    omega
  rw [Template.armsOf, takeWhile_upTo upTo size, List.range_succ_eq_map]

/-- The parts of a branch at its site: so many arms, each with a condition and a body, and perhaps what is
done otherwise. -/
structure BlockHead.Branches (head : BlockHead) (site : Site) (count : Nat) : Prop where
  arms : Template.armsOf site = List.range (count + 1)
  openings : head.openings = ((List.range (count + 1)).map fun arm => s!"DO{arm}") ++
    if (site.socket? "ELSE").isSome then ["ELSE"] else []
  conditions : ∀ arm : Nat, ∀ spec ∈ BlockKind.branch.rows head.mutation, spec.1 = s!"IF{arm}" →
    spec.2.1 = .value
  bodies : ∀ arm : Nat, ∀ spec ∈ BlockKind.branch.rows head.mutation, spec.1 = s!"DO{arm}" →
    spec.2.1 = .statement
  last : ∀ spec ∈ BlockKind.branch.rows head.mutation, spec.1 = "ELSE" → spec.2.1 = .statement

/-- A branch has the parts that its mutation tells. -/
theorem branches_of_count {head : BlockHead} {rows : Rows BlockHead RowHead} {below : Emission Output}
    {count : Nat} (named : BlockKind.ofName? head.type = some .branch)
    (ready : rows.Ready known tight (BlockKind.branch.rows head.mutation))
    (counted : ((head.mutation.get? "elseif").getD (.int 0)).toWhole = .ok count) :
    head.Branches ⟨head, emitter.sockets rows, below⟩ count := by
  have openings := openings_branch named counted
  have shape := rows_branch counted
  generalize ((head.mutation.get? "else").getD .null).isVoid = closed at openings shape
  have names := @Rows.Ready.names known tight emitter rows _ ready
  rw [shape] at names
  have kinds : ∀ spec ∈ BlockKind.branch.rows head.mutation,
      spec.2.1 = (if spec.1.toList.head? = some 'I' then RowKind.value else RowKind.statement) := by
    rw [shape]
    exact fun spec member => kind_of_mem_branchRows member
  have last : (Site.socket? ⟨head, emitter.sockets rows, below⟩ "ELSE").isSome = !closed := by
    rw [Bool.eq_iff_iff, Site.socket?_isSome, names, otherwise_mem]
    simp
  refine ⟨armsOf_of_names names, ?_, fun arm spec member same => ?_, fun arm spec member same => ?_,
    fun spec member same => ?_⟩
  · rw [openings, last]
    cases closed <;> rfl
  · rw [kinds spec member, same, if_pos (head?_condition arm)]
  · rw [kinds spec member, same, if_neg (by rw [head?_body arm]; decide)]
  · rw [kinds spec member, same]
    rfl

/-- What is in the opening of a name is a statement. -/
theorem Rows.Fit.at (rows : Rows BlockHead RowHead) (fit : rows.Fit) {specs : List RowSpec}
    (ready : rows.Ready known tight specs) (name : String) :
    (rows.at name).Fits ∧
      ∀ spec, specs.find? (·.1 = name) = some spec → spec.2.1 = .statement → (rows.at name).IsStatement := by
  match rows with
  | .nil =>
    rw [Rows.at]
    exact ⟨trivial, fun _ _ _ => trivial⟩
  | .cons row plugged rest =>
    obtain ⟨spec, others, rfl, rfl, _, _, later⟩ := ready
    obtain ⟨_, isStatement, fits, fitsLater⟩ := fit
    rw [Rows.at]
    by_cases named : spec.1 = name
    · rw [List.find?_cons_of_pos (by simpa using named), if_pos (show spec.head.name = name from named)]
      refine ⟨fits, ?_⟩
      rintro _ ⟨⟩ form
      exact isStatement form
    · rw [List.find?_cons_of_neg (by simpa using named), if_neg (show ¬ spec.head.name = name from named)]
      exact Rows.Fit.at rest fitsLater later name

end Sockets

/-- What is emitted for a stack of statements lists them. -/
def Told (known : Bool) (stack : Stack BlockHead RowHead) (output : Output) (s : Pass) : Prop :=
  ∃ code, output = .statements code ∧ Lists known s stack.leaves code

/-- The statements of a block: itself, or those in its openings. -/
def leavesOf (head : BlockHead) (rows : Rows BlockHead RowHead) : List Leaf :=
  if head.isLeaf then [⟨head, rows⟩] else head.openings.flatMap rows.leavesAt

section Stacks

variable {known : Bool} {tight : Prop} {emitter : Emitter}

/-- A site gives the lines of what is in an opening. -/
theorem opensAt_row {head : BlockHead} {rows : Rows BlockHead RowHead} {below : Emission Output}
    {specs : List RowSpec}
    {name : String} (isStatement : ∀ spec, specs.find? (·.1 = name) = some spec → spec.2.1 = .statement)
    (ready : rows.Ready known tight specs) (fit : rows.Fit)
    (each : ∀ name, (rows.at name).Ready known tight → (rows.at name).Fits → (rows.at name).IsStatement →
      ∀ s, Emits tight (emitter.emit (rows.at name)) s (Told known (rows.at name))) :
    Site.OpensAt known tight ⟨head, emitter.sockets rows, below⟩ name (rows.leavesAt name) := by
  intro s
  have found := find?_sockets emitter rows name
  have readyAt := Rows.Ready.at rows ready name
  obtain ⟨fits, statement⟩ := fit.at rows ready name
  rw [Rows.leavesAt_eq]
  unfold Site.statements Site.socket?
  generalize (emitter.sockets rows).find? (·.name = name) = socket at found
  cases socket with
  | none =>
    dsimp only at found ⊢
    rw [found, Stack.leaves]
    exact emits_pure lists_empty
  | some socket =>
    obtain ⟨_, code⟩ := found
    dsimp only
    rw [code]
    have emits : Emits tight (emitter.emit (rows.at name)) s (Told known (rows.at name)) := by
      cases search : specs.find? (·.1 = name) with
      | none =>
        rw [search] at readyAt
        rw [show rows.at name = .empty from readyAt, Emitter.emit]
        exact emits_pure ⟨"", rfl, by rw [Stack.leaves]; exact lists_empty⟩
      | some spec =>
        rw [search] at readyAt
        exact each name readyAt.2.1 fits (statement spec search (isStatement spec search)) s
    refine emits.bind ?_
    rintro output t _ ⟨code, rfl, lists⟩
    exact emits_pure lists.indented

/-- The template for a statement lists it, or the statements inside. -/
theorem emits_statement {head : BlockHead} {rows : Rows BlockHead RowHead} {below : Emission Output}
    {kind : BlockKind}
    (named : BlockKind.ofName? head.type = some kind) (isStatement : kind.shape.plug = .statement)
    (valid : head.Valid tight kind) (ready : rows.Ready known tight (kind.rows head.mutation))
    (fit : rows.Fit)
    (meets : rows.Meets (kind.rows head.mutation))
    (eachOperand : ∀ name, (rows.at name).Ready known tight → (rows.at name).IsOperand →
      ∀ s, Emits tight (emitter.emit (rows.at name)) s (Says tight (rows.at name)))
    (each : ∀ name, (rows.at name).Ready known tight → (rows.at name).Fits → (rows.at name).IsStatement →
      ∀ s, Emits tight (emitter.emit (rows.at name)) s (Told known (rows.at name))) (s : Pass) :
    Emits tight (kind.template ⟨head, emitter.sockets rows, below⟩) s
      fun output t => Tells known t (leavesOf head rows) output := by
  have offers : ∀ name, (∀ spec ∈ kind.rows head.mutation, spec.1 = name → spec.2.1 = .value) →
      Site.OffersAt tight (rows.Meets (kind.rows head.mutation)) (kind.AsksNumber name)
        ⟨head, emitter.sockets rows, below⟩
        name (fun pass => rows.operand? pass name) := by
    intro name isValue
    exact offersAt_row (kind_of_find? isValue) ready eachOperand
  have opens : ∀ name, (∀ spec ∈ kind.rows head.mutation, spec.1 = name → spec.2.1 = .statement) →
      Site.OpensAt known tight ⟨head, emitter.sockets rows, below⟩ name (rows.leavesAt name) := by
    intro name isOpening
    exact opensAt_row (kind_of_find? isOpening) ready fit each
  have leaf : kind.isLeaf → leavesOf head rows = [⟨head, rows⟩] := by
    intro isLeaf
    rw [leavesOf, BlockHead.isLeaf, named, Option.any_some, if_pos isLeaf]
  have control : kind.isLeaf = false → leavesOf head rows = head.openings.flatMap rows.leavesAt := by
    intro isLeaf
    rw [leavesOf, BlockHead.isLeaf, named, Option.any_some, isLeaf, if_neg (by simp)]
  cases kind with
  | print =>
    rw [leaf rfl]
    exact emits_print named meets (offers "TEXT" (by simp [BlockKind.rows, BlockKind.shape]))
  | setVariable =>
    rw [leaf rfl]
    exact emits_setVariable named valid meets (offers "VALUE" (by simp [BlockKind.rows, BlockKind.shape]))
  | change =>
    rw [leaf rfl]
    exact emits_change named valid meets (offers "DELTA" (by simp [BlockKind.rows, BlockKind.shape]))
  | callProcedure =>
    rw [leaf rfl]
    exact emits_callProcedure named valid meets fun i =>
      ⟨_, offers _ fun spec member _ => kind_of_mem_arguments spec member⟩
  | repeatTimes =>
    have openings : head.openings = ["DO"] := by simp [BlockHead.openings, named]
    rw [control rfl, openings, List.flatMap_singleton]
    exact emits_repeatTimes (offers "TIMES" (by simp [BlockKind.rows, BlockKind.shape]))
      (opens "DO" (by simp [BlockKind.rows, BlockKind.shape]))
  | whileUntil =>
    have openings : head.openings = ["DO"] := by simp [BlockHead.openings, named]
    rw [control rfl, openings, List.flatMap_singleton]
    exact emits_whileUntil (offers "BOOL" (by simp [BlockKind.rows, BlockKind.shape]))
      (opens "DO" (by simp [BlockKind.rows, BlockKind.shape]))
  | branch =>
    obtain ⟨count, counted⟩ := valid.arms
    have branches := @branches_of_count known tight emitter head rows below count named ready counted
    rw [control rfl, branches.openings]
    exact emits_branch branches.arms (fun arm => ⟨_, offers _ (branches.conditions arm)⟩)
      (fun arm => opens _ (branches.bodies arm))
      (opens "ELSE" branches.last)
  | _ => cases isStatement

/-- What is emitted for a statement is what its template gives, between its comments and what follows. -/
theorem emits_chained (templates : emitter.templates = knownTemplates) (strict : emitter.strict → known)
    {head : BlockHead} {rows : Rows BlockHead RowHead} {next : Stack BlockHead RowHead}
    (enabled : head.disabled = false)
    (ready : (Stack.block head rows next).Ready known tight) (fits : (Stack.block head rows next).Fits)
    (isStatement : head.isStatement)
    (each : ∀ name, (rows.at name).Ready known tight → (rows.at name).Fits → (rows.at name).IsStatement →
      ∀ s, Emits tight (emitter.emit (rows.at name)) s (Told known (rows.at name)))
    (below : ∀ s, Emits tight (emitter.emit next) s (Told known next)) (s : Pass) :
    Emits tight (emitter.emit (.block head rows next)) s (Told known (.block head rows next)) := by
  obtain ⟨meets, fit, _⟩ := fits
  have readyHere := ready.1
  have found := get?_knownTemplates head.type
  have start : emitter.emit (.block head rows next) =
      emitter.emitSite ⟨head, emitter.sockets rows, emitter.emit next⟩ := by
    rw [Emitter.emit.eq_2, enabled, if_neg (by simp)]
  have leaves : (Stack.block head rows next).leaves = leavesOf head rows ++ next.leaves := by
    rw [Stack.leaves, enabled, if_neg (by simp)]
    rfl
  rw [start, emitSite_eq]
  have finish : ∀ code s, Lists known s (leavesOf head rows) code → Emits tight
      (Site.finish ⟨head, emitter.sockets rows, emitter.emit next⟩ code >>= fun text =>
        pure (Output.statements text)) s
      (Told known (.block head rows next)) := by
    intro code s lists
    rw [Site.finish, bind_assoc]
    refine (below s).bind ?_
    rintro output t grows ⟨later, rfl, others⟩
    refine emits_pure ⟨_, rfl, ?_⟩
    rw [leaves]
    exact ((lists_comments _).append (lists.later grows)).append others
  unfold Emitter.templateOf
  rw [templates, found]
  cases named : BlockKind.ofName? head.type with
  | none =>
    rw [named] at readyHere
    have lenient : emitter.strict = false := by
      by_contra isStrict
      have all := strict (by simpa using isStrict)
      rw [readyHere] at all
      cases all
    have output : head.hasOutput = false := by simpa [BlockHead.isStatement, named] using isStatement
    simp only [Option.map_none, lenient, Bool.false_eq_true, if_false, bind_assoc, pure_bind]
    refine emits_placeholder.bind fun _ t _ _ => ?_
    unfold Template.placeholder
    rw [output, if_neg (by simp), pure_bind]
    refine finish _ t fun all => ?_
    rw [readyHere] at all
    cases all
  | some kind =>
    rw [named] at readyHere
    obtain ⟨valid, readyRows⟩ := readyHere
    have plug : kind.shape.plug = .statement := by simpa [BlockHead.isStatement, named] using isStatement
    simp only [Option.map_some, pure_bind]
    refine (emits_statement named plug valid readyRows fit (meets kind named)
      (emits_operands templates strict rows) each
      s).bind ?_
    rintro output t _ ⟨code, rfl, lists⟩
    exact finish code t lists

mutual

/-- What is emitted for a stack of statements lists them. -/
theorem emits_stack (templates : emitter.templates = knownTemplates) (strict : emitter.strict → known)
    (stack : Stack BlockHead RowHead) (ready : stack.Ready known tight) (fits : stack.Fits)
    (isStatement : stack.IsStatement) (s : Pass) : Emits tight (emitter.emit stack) s (Told known stack) := by
  match stack with
  | .empty =>
    rw [Emitter.emit]
    exact emits_pure ⟨"", rfl, by rw [Stack.leaves]; exact lists_empty⟩
  | .block head rows next =>
    have below := emits_stack templates strict next ready.2 fits.2.2.2.2 fits.2.2.1
    cases enabled : head.disabled with
    | true =>
      rw [Emitter.emit, enabled, if_pos rfl]
      refine (below s).imp ?_
      rintro output t _ ⟨code, rfl, lists⟩
      refine ⟨code, rfl, ?_⟩
      rwa [Stack.leaves, enabled, if_pos rfl, List.nil_append]
    | false =>
      exact emits_chained templates strict enabled ready fits isStatement.1
        (emits_openings templates strict rows) below s

/-- What is emitted for the statements in some rows lists them. -/
theorem emits_openings (templates : emitter.templates = knownTemplates) (strict : emitter.strict → known)
    (rows : Rows BlockHead RowHead) (name : String) (ready : (rows.at name).Ready known tight)
    (fits : (rows.at name).Fits) (isStatement : (rows.at name).IsStatement) (s : Pass) :
    Emits tight (emitter.emit (rows.at name)) s (Told known (rows.at name)) := by
  match rows with
  | .nil => exact emits_stack templates strict .empty ready fits isStatement s
  | .cons row plugged rest =>
    rw [Rows.at] at ready fits isStatement ⊢
    by_cases named : row.name = name
    · rw [if_pos named] at ready fits isStatement ⊢
      exact emits_stack templates strict plugged ready fits isStatement s
    · rw [if_neg named] at ready fits isStatement ⊢
      exact emits_openings templates strict rest name ready fits isStatement s

end

end Stacks

end BlockCompiler
