import BlockCompiler.Proofs.Emission.Remarks
import BlockCompiler.Proofs.Source.Bracketed

/-!
Families of rows: a block reads the rows that its mutation gave it, all of them, in order, and each of them
once.
-/

namespace BlockCompiler

/-- Sockets with names that are numbered from zero, and what is plugged into each. -/
def Rows.numbered (stem : String) (operands : List (Stack BlockHead RowHead)) : Rows BlockHead RowHead :=
  .ofList (operands.mapIdx fun i operand => (⟨.value, stem ++ toString i⟩, operand))

/-- An arm of a branch: what is plugged in as its condition, and what stands in its body. -/
structure Arm where
  condition : Stack BlockHead RowHead
  body : Stack BlockHead RowHead

/-- The rows of an arm, given its number. -/
def Arm.rows (i : Nat) (arm : Arm) : List (RowHead × Stack BlockHead RowHead) :=
  [(⟨.value, s!"IF{i}"⟩, arm.condition), (⟨.statement, s!"DO{i}"⟩, arm.body)]

/-- The rows of arms that are numbered from zero, and perhaps one more for what is done otherwise. -/
def Rows.ofArms (arms : List Arm) (otherwise : Option (Stack BlockHead RowHead)) : Rows BlockHead RowHead :=
  .ofList ((arms.mapIdx Arm.rows).flatten ++ otherwise.toList.map fun body => (⟨.statement, "ELSE"⟩, body))

/-- The conditions of a site are asked for by their numbers, one after the other, until there is none of the
next number: these are the numbers for which there is one. -/
inductive Site.Probes (site : Site) : (next : Nat) → (found : List Nat) → Prop
  | stop {i : Nat} (none : site.socket? s!"IF{i}" = none) : Probes site i []
  | more {i : Nat} {rest : List Nat} (there : (site.socket? s!"IF{i}").isSome)
      (others : Probes site (i + 1) rest) :
      Probes site i (i :: rest)

namespace Emitter

variable (emitter : Emitter)

/-- The expression that a stack in a socket of values gives: the code of its block, or the default. -/
def operand (order : Order) (default : String) : Stack BlockHead RowHead → Emission String
  | .empty => return default
  | .block head rows next => emitter.emit (.block head rows next) >>= usedAs head.type order default

/-- The body that a stack in an opening gives: its code, further in. -/
def body (stack : Stack BlockHead RowHead) : Emission String := do
  let code := (← emitter.emit stack).code
  return if code = "" then "" else leadLines indent code

/-- The code of an arm. -/
def arm (arm : Arm) : Emission String := do
  let condition ← emitter.operand .none "false" arm.condition
  let body ← emitter.body arm.body
  return braced s!"if ({condition})" body

/-- The rows of a block are so many sockets, and all that its emission does with them is to emit what is in
each of them, once and in order. -/
def ReadsOperands (rows : Rows BlockHead RowHead) (stem : String) (count : Nat) (order : Order)
    (default : String) (emission : Emission Output)
    (made : Emission (List String) → Emission Output) : Prop :=
  ∃ operands, operands.length = count ∧ rows = .numbered stem operands ∧
    (∀ operand ∈ operands, operand.IsOperand) ∧
    emission = made (operands.mapM (emitter.operand order default))

/-- A block whose rows come from its mutation reads them as they were made: a text that is joined and a list
have one operand for each item, a call has one argument for each parameter, and a branch has its first arm,
one arm for each further condition, and what is done otherwise if there is to be such a thing. -/
def ReadsFamily (head : BlockHead) (rows : Rows BlockHead RowHead) (next : Stack BlockHead RowHead) :
    BlockKind → Prop
  | .join => ∃ count : Nat, itemCount head.mutation = .ok count ∧ next = .empty ∧
      emitter.ReadsOperands rows "ADD" count .additive "''" (emitter.emit (.block head rows next))
        fun operands =>
        if count = 0 then return .value (site.comments ++ "''") .atomic
        else return .value (site.comments ++ joinTexts " + " (← operands)) .additive
  | .createList => ∃ count : Nat, itemCount head.mutation = .ok count ∧ next = .empty ∧
      emitter.ReadsOperands rows "ADD" count .none "0" (emitter.emit (.block head rows next)) fun operands =>
        return .value (site.comments ++ ("\x7b" ++ joinTexts ", " (← operands) ++ "\x7d")) .atomic
  | .callProcedure => ∃ name params, head.field "NAME" = .text name ∧ parameters head.mutation = .ok params ∧
      emitter.ReadsOperands rows "ARG" params.length .none "0" (emitter.emit (.block head rows next))
        fun operands => do
        let procedure ← Emission.getName name .procedure
        let arguments ← operands
        let below ← emitter.emit next
        return .statements
          (site.comments ++ (procedure ++ "(" ++ joinTexts ", " arguments ++ ");\n") ++ below.code)
  | .branch => ∃ (count : Nat) (arms : List Arm) (otherwise : Option (Stack BlockHead RowHead)),
      ((head.mutation.get? "elseif").getD (.int 0)).toWhole = .ok count ∧ arms.length = count + 1 ∧
      (otherwise.isSome ↔ head.mutation.get? "else" = some (.bool true)) ∧ rows = .ofArms arms otherwise ∧
      site.Probes 1 (List.range' 1 count) ∧ Template.armsOf site = 0 :: List.range' 1 count ∧
      emitter.emit (.block head rows next) = do
        let codes ← arms.mapM emitter.arm
        let last ← otherwise.toList.mapM emitter.body
        let below ← emitter.emit next
        return .statements
          (site.comments ++
          (joinTexts " else " codes ++ String.join (last.map fun body => " else" ++ braced "" body) ++
          "\n") ++ below.code)
  | _ => True
where
  /-- The site of the block. -/
  site : Site := ⟨head, emitter.sockets rows, emitter.emit next⟩

end Emitter

section Rows

variable {known : Bool} {tight : Prop} {emitter : Emitter} {rows : Rows BlockHead RowHead}

/-- Rows that are ready hold what is found under the names of their specifications. -/
theorem Rows.Ready.eq_ofList (rows : Rows BlockHead RowHead) {specs : List RowSpec}
    (ready : rows.Ready known tight specs) (distinct : (specs.map (·.1)).Nodup) :
    rows = .ofList (specs.map fun spec => (spec.head, rows.at spec.1)) := by
  match rows with
  | .nil =>
    obtain rfl : specs = [] := ready
    rfl
  | .cons row plugged rest =>
    obtain ⟨spec, others, rfl, rfl, _, _, later⟩ := ready
    obtain ⟨new, distinct⟩ := List.nodup_cons.mp distinct
    have here : (Rows.cons spec.head plugged rest).at spec.1 = plugged := by
      rw [Rows.at]
      exact if_pos rfl
    have there : (others.map fun other => (other.head, (Rows.cons spec.head plugged rest).at other.1)) =
        others.map fun other => (other.head, rest.at other.1) := by
      refine List.map_congr_left fun other among => ?_
      have differs : ¬ spec.head.name = other.1 :=
        fun same => new (List.mem_map.mpr ⟨other, among, same.symm⟩)
      rw [Rows.at, if_neg differs]
    have rows := Rows.Ready.eq_ofList rest later distinct
    rw [List.map_cons, here, there, Rows.ofList, ← rows]

/-- What a site gives for a socket of values is the operand in the row of its name. -/
theorem value_row (head : BlockHead) (rows : Rows BlockHead RowHead) (below : Emission Output)
    (name : String) (order : Order) (default : String) :
    Site.value ⟨head, emitter.sockets rows, below⟩ name order default =
    emitter.operand order default (rows.at name) := by
  cases plugged : rows.at name with
  | empty => exact value_of_empty plugged order default
  | block inner others next =>
    rw [value_of_block plugged order default, plugged]
    rfl

/-- What a site gives for the sockets of a family are the operands in the rows of their names. -/
theorem values_rows (head : BlockHead) (rows : Rows BlockHead RowHead) (below : Emission Output)
    (stem : String) (count : Nat) (order : Order) (default : String) :
    Site.values ⟨head, emitter.sockets rows, below⟩ stem count order default =
      ((List.range count).map fun i => rows.at (stem ++ toString i)).mapM
      (emitter.operand order default) := by
  rw [Site.values, List.mapM_map]
  exact congrArg (List.mapM · (List.range count)) (funext fun i => value_row head rows below _ order default)

theorem mapIdx_map_range {α β : Type} (f : Nat → α) (g : Nat → α → β) (count : Nat) :
    ((List.range count).map f).mapIdx g = (List.range count).map fun i => g i (f i) :=
  List.ext_getElem (by simp) fun i _ _ => by simp

/-- A block whose rows are so many sockets of a family reads them all. -/
theorem readsOperands_of_rows (head : BlockHead) (below : Emission Output) {stem : String} {count : Nat}
    {order : Order} {default : String} {emission : Emission Output}
    {made : Emission (List String) → Emission Output}
    (ready : rows.Ready known tight ((List.range count).map fun i => (stem ++ toString i, .value, none)))
    (reads : emission = made (Site.values ⟨head, emitter.sockets rows, below⟩ stem count order default)) :
    emitter.ReadsOperands rows stem count order default emission made := by
  have distinct :
      (((List.range count).map fun i => ((stem ++ toString i, .value, none) : RowSpec)).map (·.1)).Nodup := by
    rw [List.map_map]
    exact List.nodup_range.map fun i j same => Registry.append_toString_inj same
  refine ⟨(List.range count).map fun i => rows.at (stem ++ toString i),
    by simp, ?_, fun operand among => ?_, ?_⟩
  · rw [Rows.numbered, mapIdx_map_range]
    exact (Rows.Ready.eq_ofList rows ready distinct).trans (congrArg Rows.ofList (List.map_map ..))
  · obtain ⟨i, member, rfl⟩ := List.mem_map.mp among
    have found := Rows.Ready.at rows ready (stem ++ toString i)
    have spec := find?_of_nodup distinct (List.mem_map_of_mem member)
    rw [spec] at found
    exact found.1 rfl
  · rw [reads, values_rows]

end Rows

section Branches

variable {known : Bool} {tight : Prop} {emitter : Emitter} {rows : Rows BlockHead RowHead} {head : BlockHead}
  {below : Emission Output} {count : Nat} {closed : Bool}

/-- The arms of a branch in its rows. -/
def Rows.arms (rows : Rows BlockHead RowHead) (count : Nat) : List Arm :=
  (List.range count).map fun i => ⟨rows.at s!"IF{i}", rows.at s!"DO{i}"⟩

/-- The rows of a branch are those of its arms and of what is done otherwise. -/
theorem Rows.Ready.eq_ofArms (ready : rows.Ready known tight (branchRows count closed))
    (distinct : ((branchRows count closed).map (·.1)).Nodup) :
    rows = .ofArms (rows.arms (count + 1)) (if closed then none else some (rows.at "ELSE")) := by
  rw [Rows.ofArms, Rows.arms, mapIdx_map_range]
  refine (Rows.Ready.eq_ofList rows ready distinct).trans (congrArg Rows.ofList ?_)
  rw [branchRows, List.map_append, List.map_flatMap, List.flatMap_def]
  cases closed <;> rfl

/-- The probing of a site with so many conditions ends after the last of them. -/
theorem probes_upTo {site : Site} (upTo : ∀ i : Nat, (site.socket? s!"IF{i}").isSome ↔ i ≤ count)
    {i more : Nat} (all : i + more = count + 1) : site.Probes i (List.range' i more) := by
  induction more generalizing i with
  | zero => exact .stop (Option.not_isSome_iff_eq_none.mp fun there => by have := (upTo i).mp there; omega)
  | succ more ih => exact .more ((upTo i).mpr (by omega)) (ih (by omega))

/-- The template of a branch emits what is in its arms, and then what is done otherwise. -/
theorem branch_eq (arms : Template.armsOf ⟨head, emitter.sockets rows, below⟩ = List.range (count + 1))
    (last : (Site.socket? ⟨head, emitter.sockets rows, below⟩ "ELSE").isSome = !closed) :
    Template.branch ⟨head, emitter.sockets rows, below⟩ = (do
      let codes ← (rows.arms (count + 1)).mapM emitter.arm
      let bodies ← (if closed then none else some (rows.at "ELSE")).toList.mapM emitter.body
      statement (joinTexts " else " codes ++ String.join (bodies.map fun body => " else" ++ braced "" body) ++
      "\n")) := by
  have arm : ∀ i, Template.arm ⟨head, emitter.sockets rows, below⟩ i =
      emitter.arm ⟨rows.at s!"IF{i}", rows.at s!"DO{i}"⟩ := by
    intro i
    rw [Template.arm, value_row, statements_row]
    rfl
  have each : Template.arm ⟨head, emitter.sockets rows, below⟩ =
      emitter.arm ∘ fun i => ⟨rows.at s!"IF{i}", rows.at s!"DO{i}"⟩ := funext arm
  rw [Template.branch, arms, last, Rows.arms, List.mapM_map, statements_row, each]
  cases closed <;> simp [Emitter.body]

end Branches

section Blocks

open Emitter

variable {known : Bool} {tight : Prop} {emitter : Emitter} {head : BlockHead} {rows : Rows BlockHead RowHead}
  {next : Stack BlockHead RowHead} {kind : BlockKind}

/-- What is emitted for a block of a known kind is what its template gives, between its comments and what
follows. -/
theorem emit_of_kind (templates : emitter.templates = knownTemplates)
    (named : BlockKind.ofName? head.type = some kind) (enabled : head.disabled = false) :
    emitter.emit (.block head rows next) =
      kind.template ⟨head, emitter.sockets rows, emitter.emit next⟩ >>= fun output =>
        match output with
        | some (.value code order) => do
          return .value (← Site.finish ⟨head, emitter.sockets rows, emitter.emit next⟩ code) order
        | some (.statements code) => do
          return .statements (← Site.finish ⟨head, emitter.sockets rows, emitter.emit next⟩ code)
        | none => return .statements "" := by
  have emits := Emitter.emit.eq_2 emitter head rows next
  rw [enabled, if_neg (by simp), emitSite_eq, Emitter.templateOf, templates, get?_knownTemplates,
    named] at emits
  simp only [Option.map_some, pure_bind] at emits
  exact emits

/-- Rows of a kind that has no others are those of its family. -/
theorem rows_items {mutation : Table Json} {count : Nat} (counted : itemCount mutation = .ok count)
    (family : kind.shape.family = some .items) (alone : kind.shape.rows = []) :
    kind.rows mutation = (List.range count).map fun i => ("ADD" ++ toString i, .value, none) := by
  rw [BlockKind.rows, alone, family, List.nil_append, Option.map_some, Option.getD_some,
    RowFamily.rows, counted]
  rfl

theorem rows_arguments {mutation : Table Json} {params : List Json}
    (told : parameters mutation = .ok params) :
    BlockKind.callProcedure.rows mutation = (List.range params.length).map fun i =>
      ("ARG" ++ toString i, .value, none) := by
  have rows : BlockKind.callProcedure.rows mutation = (RowFamily.arguments.rows mutation).1 := rfl
  rw [rows, RowFamily.rows, told]
  rfl

/-- Rows for what is done otherwise are made just where they are asked for. -/
theorem otherwise_isVoid (valid : head.Valid tight .branch) :
    ((head.mutation.get? "else").getD .null).isVoid = false ↔
    head.mutation.get? "else" = some (.bool true) := by
  cases told : head.mutation.get? "else" with
  | none => simp [Json.isVoid]
  | some value =>
    have form := valid.mutates.otherwise value told
    cases value with
    | bool value => cases value <;> simp [Json.isVoid]
    | _ => cases form

/-- A branch reads the rows of its arms up to the last one, and that for what is done otherwise. -/
theorem readsFamily_branch (templates : emitter.templates = knownTemplates)
    (named : BlockKind.ofName? head.type = some .branch) (enabled : head.disabled = false)
    (valid : head.Valid tight .branch)
    (ready : rows.Ready known tight (BlockKind.branch.rows head.mutation)) :
    emitter.ReadsFamily head rows next .branch := by
  obtain ⟨count, counted⟩ := valid.arms
  have branches :=
    @branches_of_count known tight emitter head rows (emitter.emit next) count named ready counted
  have distinct := nodup_kind_rows .branch head.mutation
  rw [rows_branch counted] at ready distinct
  have flag := otherwise_isVoid valid
  generalize ((head.mutation.get? "else").getD .null).isVoid = closed at ready distinct flag
  have last : (Site.socket? ⟨head, emitter.sockets rows, emitter.emit next⟩ "ELSE").isSome = !closed := by
    rw [Bool.eq_iff_iff, Site.socket?_isSome, Rows.Ready.names rows ready, otherwise_mem]
    simp
  have upTo : ∀ i : Nat, (Site.socket? ⟨head, emitter.sockets rows, emitter.emit next⟩ s!"IF{i}").isSome ↔
      i ≤ count := by
    intro i
    rw [Site.socket?_isSome, Rows.Ready.names rows ready, condition_mem]
  refine ⟨count, rows.arms (count + 1), _, counted, by simp [Rows.arms], ?_, ready.eq_ofArms distinct,
    probes_upTo upTo (Nat.add_comm ..), ?_, ?_⟩
  · rw [← flag]
    cases closed <;> simp
  · rw [ReadsFamily.site, branches.arms, List.range_eq_range', List.range'_succ]
  · rw [emit_of_kind templates named enabled]
    show Template.branch _ >>= _ = _
    rw [branch_eq branches.arms last]
    simp [statement, Site.finish, ReadsFamily.site, String.append_assoc]

/-- A block of a kind with a family of rows reads its rows as they were made. -/
theorem readsFamily (templates : emitter.templates = knownTemplates)
    (named : BlockKind.ofName? head.type = some kind) (enabled : head.disabled = false)
    (ready : (Stack.block head rows next).Ready known tight) (fits : (Stack.block head rows next).Fits) :
    emitter.ReadsFamily head rows next kind := by
  have readyHere := ready.1
  rw [named] at readyHere
  obtain ⟨valid, readyRows⟩ := readyHere
  have alone : kind.shape.plug ≠ .statement → next = .empty := by
    intro plug
    refine fits.2.2.2.1.resolve_left fun isStatement => plug ?_
    simpa [BlockHead.isStatement, named] using isStatement
  have finished : ∀ code, Site.finish ⟨head, emitter.sockets rows, emitter.emit .empty⟩ code =
      pure ((ReadsFamily.site emitter head rows .empty).comments ++ code) :=
    Coupling.finish_alone (Emitter.emit.eq_1 emitter)
  have emits := @emit_of_kind emitter head rows next kind templates named enabled
  cases kind with
  | join =>
    obtain ⟨count, counted⟩ := valid.items
    obtain rfl := alone (by simp [BlockKind.shape])
    refine ⟨count, counted, rfl, ?_⟩
    rw [rows_items counted rfl rfl] at readyRows
    refine readsOperands_of_rows head (emitter.emit .empty) readyRows ?_
    rw [emits]
    show Template.join _ >>= _ = _
    rw [Template.join, counted, Emission.ofCount, pure_bind]
    by_cases none : count = 0
    · subst none
      simp [expression, finished]
    · simp [expression, finished, none]
  | createList =>
    obtain ⟨count, counted⟩ := valid.items
    obtain rfl := alone (by simp [BlockKind.shape])
    refine ⟨count, counted, rfl, ?_⟩
    rw [rows_items counted rfl rfl] at readyRows
    refine readsOperands_of_rows head (emitter.emit .empty) readyRows ?_
    rw [emits]
    show Template.createList _ >>= _ = _
    rw [Template.createList, counted, Emission.ofCount, pure_bind]
    simp [expression, finished]
  | callProcedure =>
    obtain ⟨params, told⟩ := valid.params
    obtain ⟨name, field⟩ := valid.name_text (by decide)
    refine ⟨name, _, field, told, ?_⟩
    rw [rows_arguments told] at readyRows
    refine readsOperands_of_rows head (emitter.emit next) readyRows ?_
    have named : Site.field ⟨head, emitter.sockets rows, emitter.emit next⟩ "NAME" = .text name := field
    rw [emits]
    show Template.callProcedure _ >>= _ = _
    rw [Template.callProcedure, named, told]
    simp only [Emission.textOf, Emission.ofCount, statement, Site.finish, ReadsFamily.site,
      String.append_assoc, pure_bind,
      bind_assoc, List.length_map]
    rfl
  | branch => exact readsFamily_branch templates named enabled valid readyRows
  | _ => trivial

/-- A value or a statement that is not disabled is emitted, wherever it is plugged in. -/
theorem emits_enabled (templates : emitter.templates = knownTemplates) (strict : emitter.strict → known)
    (named : BlockKind.ofName? head.type = some kind) (plugged : kind.shape.plug ≠ .loose)
    (enabled : head.disabled = false) (ready : (Stack.block head rows next).Ready known tight)
    (fits : (Stack.block head rows next).Fits) (s : Pass) :
    Emits tight (emitter.emit (.block head rows next)) s fun _ _ => True := by
  cases isStatement : head.isStatement with
  | true =>
    have below := emits_stack templates strict next ready.2 fits.2.2.2.2 fits.2.2.1
    exact (emits_chained templates strict enabled ready fits isStatement
      (emits_openings templates strict rows) below s).imp
      fun _ _ _ _ => trivial
  | false =>
    obtain rfl : next = .empty := fits.2.2.2.1.resolve_left (by simp [isStatement])
    have isValue : head.isValue := by
      rw [BlockHead.isStatement, named] at isStatement
      rw [BlockHead.isValue, named]
      revert isStatement plugged
      cases kind <;> simp [BlockKind.shape, Shape.isValue]
    exact (emits_alone templates strict isValue enabled ready (emits_operands templates strict rows) s).imp
      fun _ _ _ _ => trivial

end Blocks

section Parts

variable {known : Bool} {tight : Prop}

theorem Rows.parts_ofList {α β : Type} (rows : List (β × Stack α β)) :
    (Rows.ofList rows).parts = rows.flatMap (·.2.parts) := by
  induction rows with
  | nil => rw [Rows.ofList, Rows.parts, List.flatMap_nil]
  | cons row rest ih => rw [Rows.ofList, Rows.parts, List.flatMap_cons, ih]

mutual

/-- All stacks in a stack that can be built are ready, those inside blocks of unknown types among them. -/
theorem Stack.Builds.parts {asValue : Bool} {stack : StackSpec} (builds : stack.Builds asValue)
    (checked : ∀ spec ∈ stack.heads, spec.Checked known tight) :
    ∀ part ∈ (stack.shown asValue).parts, part.Ready known tight ∧ part.Fits := by
  have here := builds.ready checked
  match stack with
  | .empty =>
    rw [Stack.shown] at here ⊢
    exact List.forall_mem_singleton.mpr here
  | .block spec inputs next =>
    obtain ⟨_, distinct, into, _, below⟩ := builds
    rw [Stack.heads] at checked
    obtain ⟨inside, after⟩ := List.forall_mem_append.mp (List.forall_mem_cons.mp checked).2
    rw [Stack.shown] at here ⊢
    rw [Stack.parts, Rows.parts_ofList]
    refine List.forall_mem_cons.mpr
      ⟨here, List.forall_mem_append.mpr ⟨fun part among => ?_, below.parts after⟩⟩
    obtain ⟨plugged, member, among⟩ := List.mem_flatMap.mp among
    obtain ⟨row, isRow, rfl⟩ := List.mem_map.mp member
    exact into.parts inside (find?_of_nodup (nodup_rows distinct) isRow) part among

/-- All stacks in what is in a row that has its name alone are ready. -/
theorem Rows.BuildsInto.parts {inputs : Rows BlockSpec String} {specs : List RowSpec}
    (into : inputs.BuildsInto specs) (checked : ∀ spec ∈ inputs.heads, spec.Checked known tight)
    {row : RowSpec} (found : specs.find? (·.1 = row.1) = some row) :
    ∀ part ∈ (inputs.shownIn row.head).parts, part.Ready known tight ∧ part.Fits := by
  match inputs with
  | .nil =>
    rw [Rows.shownIn, Stack.parts]
    exact List.forall_mem_singleton.mpr ⟨trivial, trivial⟩
  | .cons name plugged rest =>
    obtain ⟨⟨spec, search, _, builds⟩, others⟩ := into
    rw [Rows.heads] at checked
    obtain ⟨here, later⟩ := List.forall_mem_append.mp checked
    rw [Rows.shownIn]
    by_cases named : row.head.name = name
    · have same : row = spec := by
        rw [← show row.1 = name from named] at search
        exact Option.some.inj (found.symm.trans search)
      subst same
      rw [if_pos named]
      exact builds.parts here
    · rw [if_neg named]
      exact others.parts later found

end

/-- The stacks in a loaded workspace are ready and fit, at any depth. -/
theorem Workspace.Loads.parts {strict : Bool} {oneBased : Option Bool} {data : Json} {document : Document}
    {ws : Workspace} (loads : ws.Loads oneBased document) (described : document.DescribedBy strict data)
    (proper : data.All Json.IsProper) (short : tight → data.All Json.IsShort) (isKnown : known → ws.IsKnown)
    {b : Nat} (member : b ∈ ws.topBlocks) :
    ∃ stack, ws.stack? (some b) = some stack ∧ ∀ part ∈ stack.parts, part.Ready known tight ∧ part.Fits := by
  obtain ⟨top, among, hasTop⟩ := loads.top member
  exact ⟨_, hasTop.stack, (loads.builds top among).2.2.parts
    (loads.checked described proper short isKnown top among)⟩

end Parts

/-- In a loaded workspace, at any depth, a block whose rows come from its mutation reads all of them as they
were made, each of them once and in order, and code is generated for it. -/
theorem Emitter.emit_families {emitter : Emitter} (templates : emitter.templates = knownTemplates)
    {strict : Bool} {oneBased : Option Bool} {data : Json} {ws : Workspace}
    (loaded : loadWorkspace strict oneBased data = .ok ws) (proper : data.All Json.IsProper)
    (isKnown : emitter.strict → ws.IsKnown) {tight : Prop} (short : tight → data.All Json.IsShort) {b : Nat}
    (top : b ∈ ws.topBlocks) :
    ∃ stack, ws.stack? (some b) = some stack ∧ ws.Hangs (some b) stack ∧
      ∀ head rows next, .block head rows next ∈ stack.parts → head.disabled = false →
        ∀ kind, BlockKind.ofName? head.type = some kind → kind.shape.family.isSome →
          emitter.ReadsFamily head rows next kind ∧ ∀ before : Pass, before.Sound →
            Runs (Excused tight) (emitter.emit (.block head rows next)) before fun _ _ => True := by
  obtain ⟨document, described, _, loads⟩ := loads_of_loadWorkspace loaded
  obtain ⟨stack, found, parts⟩ := loads.parts described proper short isKnown top
  refine ⟨stack, found, Workspace.hangs_of_stack? found,
    fun head rows next among enabled kind named family => ?_⟩
  obtain ⟨ready, fits⟩ := parts _ among
  have plugged : kind.shape.plug ≠ .loose := by
    revert family
    cases kind <;> simp [BlockKind.shape]
  exact ⟨readsFamily templates named enabled ready fits, fun before sound =>
    (emits_enabled templates id named plugged enabled ready fits before sound).imp fun _ _ _ => trivial⟩

/-- A branch of two arms that prints two joined texts in the second of them, and calls a procedure
otherwise. -/
theorem Emitter.emit_families_branch :
    let word := Json.object [("type", .text "text"), ("fields", .object [("TEXT", .text "a")])]
    let joined := Json.object [("type", .text "text_join"), ("mutation", .object [("items", .int 2)]),
      ("inputs", .object [("ADD1", word)])]
    let printed := Json.object [("type", .text "text_print"), ("inputs", .object [("TEXT", joined)])]
    let call :=
      Json.object [("type", .text "procedures_callnoreturn"),
        ("mutation", .object [("params", .list [.text "x"])]),
      ("inputs", .object [("ARG0", word)])]
    let branch :=
      Json.object [("type", .text "controls_if"),
        ("mutation", .object [("elseif", .int 1), ("else", .bool true)]),
      ("inputs", .object [("DO1", printed), ("ELSE", call)])]
    let data := Json.object [("name", .text "arms"), ("blocks", .list [branch])]
    let emitter : Emitter := {}
    ∃ ws, loadWorkspace true none data = .ok ws ∧ ∃ stack, ws.stack? (some 0) = some stack ∧
      ws.Hangs (some 0) stack ∧ ∀ head rows next, .block head rows next ∈ stack.parts →
        head.disabled = false →
        ∀ kind, BlockKind.ofName? head.type = some kind → kind.shape.family.isSome →
          emitter.ReadsFamily head rows next kind ∧ ∀ before : Pass, before.Sound →
            Runs (Excused False) (emitter.emit (.block head rows next)) before fun _ _ => True := by
  intro word joined printed call branch data emitter
  have loads : (loadWorkspace true none data).toOption.any fun ws => ws.topBlocks.contains 0 := by
    decide +kernel
  obtain ⟨ws, loaded, top⟩ := exists_ok_of_any loads
  have proper : data.All Json.IsProper := by
    simp [data, branch, call, printed, joined, word, Json.All, Json.AllMembers, Json.AllItems,
      Json.IsProper, Table.keys]
  exact ⟨ws, loaded, emitter.emit_families rfl loaded proper (fun strict => by cases strict) False.elim
    (List.contains_iff_mem.mp top)⟩

end BlockCompiler
