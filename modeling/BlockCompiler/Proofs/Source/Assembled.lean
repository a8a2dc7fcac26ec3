import BlockCompiler.Proofs.Emission.Compiled
import BlockCompiler.Proofs.Emission.Defined

/-!
The code of all stacks of a workspace: what each gives where it stands, and which definitions of procedures
are there in the end. A definition stays until another one of the same name, up to case, takes its place.
-/

namespace BlockCompiler

/-- The name, in lower case, of the procedure that a stack defines. -/
def Stack.defined? : Stack BlockHead RowHead → Option String
  | .empty => none
  | .block head _ _ =>
    if head.disabled = false ∧
      BlockKind.ofName? head.type = some .defineProcedure then some (lower (head.field "NAME").word) else none

/-- Those of some stacks whose code stands in the source: all but those that define a procedure which a later
one defines again. -/
def standing : List (Stack BlockHead RowHead) → List (Stack BlockHead RowHead)
  | [] => []
  | stack :: rest =>
    if stack.defined?.any fun name => rest.any fun later => later.defined? = some name then standing rest
    else stack :: standing rest

section Standing

variable {stack other : Stack BlockHead RowHead} {tops rest : List (Stack BlockHead RowHead)} {name : String}

/-- A stack whose procedure is defined again does not stand. -/
theorem standing_of_again (defined : stack.defined? = some name)
    (again : ∃ later ∈ tops, later.defined? = some name) :
    standing (stack :: tops) = standing tops := by
  rw [standing, defined, Option.any_some, if_pos (List.any_eq_true.mpr (by simpa using again))]

/-- A stack stands if nothing that it defines is defined again. -/
theorem standing_of_last
    (last : ∀ name, stack.defined? = some name → ¬ ∃ later ∈ tops, later.defined? = some name) :
    standing (stack :: tops) = stack :: standing tops := by
  rw [standing, if_neg]
  intro any
  obtain ⟨name, defined, any⟩ := (Option.any_eq_true _ _).mp any
  exact last name defined (by simpa using any)

/-- Of the stacks that define a procedure, one stands. -/
theorem exists_standing (among : stack ∈ tops) (defined : stack.defined? = some name) :
    ∃ other ∈ standing tops, other.defined? = some name := by
  induction tops generalizing stack with
  | nil => cases among
  | cons first rest ih =>
    rw [standing]
    rcases List.mem_cons.mp among with rfl | later
    · rw [defined, Option.any_some]
      split_ifs with again
      · obtain ⟨other, inRest, same⟩ := List.any_eq_true.mp again
        exact ih inRest (by simpa using same)
      · exact ⟨stack, List.mem_cons_self .., defined⟩
    · obtain ⟨other, stands, same⟩ := ih later defined
      split_ifs
      · exact ⟨other, stands, same⟩
      · exact ⟨other, List.mem_cons_of_mem _ stands, same⟩

theorem mem_of_standing (stands : stack ∈ standing tops) : stack ∈ tops := by
  induction tops with
  | nil => cases stands
  | cons first rest ih =>
    rw [standing] at stands
    split_ifs at stands
    · exact List.mem_cons_of_mem _ (ih stands)
    · rcases List.mem_cons.mp stands with rfl | later
      · exact List.mem_cons_self ..
      · exact List.mem_cons_of_mem _ (ih later)

/-- Every stack stands if no two define procedures of one name. -/
theorem standing_of_nodup (distinct : (tops.filterMap Stack.defined?).Nodup) : standing tops = tops := by
  induction tops with
  | nil => rfl
  | cons first rest ih =>
    cases defined : first.defined? with
    | none =>
      rw [List.filterMap_cons_none defined] at distinct
      rw [standing_of_last (by simp [defined]), ih distinct]
    | some name =>
      rw [List.filterMap_cons_some defined] at distinct
      obtain ⟨once, distinct⟩ := List.nodup_cons.mp distinct
      rw [standing_of_last, ih distinct]
      rintro other definedOther ⟨later, inRest, same⟩
      cases defined.symm.trans definedOther
      exact once (List.mem_filterMap.mpr ⟨later, inRest, same⟩)

end Standing

/-- A block at the top of a workspace and its stack, which is ready to be compiled. -/
structure Workspace.IsTop (ws : Workspace) (known : Bool) (tight : Prop) (b : Nat)
    (stack : Stack BlockHead RowHead) : Prop where
  found : ws.stack? (some b) = some stack
  head : ∃ rows next, stack = .block (ws.head b) rows next
  loose : (ws.head b).inline = false
  ready : stack.Ready known tight
  fits : stack.Fits
  output : (ws.head b).isValue = (ws.block b).output.isSome

/-- What comes of a stack at the top: lines that show its blocks, or the definition of a procedure. -/
inductive Stack.Yielded (s t : Pass) : Stack BlockHead RowHead → String → Prop
  | lines {stack code} (loose : stack.defined? = none) (same : s.SameProcedures t)
    (lays : Lays 0 0 stack.generated t code) :
    Stack.Yielded s t stack code
  | definition {head rows identifier text} (enabled : head.disabled = false)
      (named : BlockKind.ofName? head.type = some .defineProcedure)
        (defines : t.Defines head rows identifier text)
      (stands : t.definitions.get? (procedureKey identifier) = some text)
      (others : ∀ name ≠ identifier,
        t.definitions.get? (procedureKey name) = s.definitions.get? (procedureKey name)) :
    Stack.Yielded s t (.block head rows .empty) ""

/-- Each block of a stack for which there is code is shown in a line. -/
theorem Stack.Yielded.exists_line {s t : Pass} {stack : Stack BlockHead RowHead} {code : String}
    (yielded : stack.Yielded s t code) :
    ∀ head ∈ stack.generated, ∃ line, head.ShownIn t line := by
  intro head among
  cases yielded with
  | lines _ _ lays =>
    obtain ⟨line, _, _, shown⟩ := lays.exists_line head among
    exact ⟨line, shown⟩
  | definition enabled named defines _ _ =>
    obtain ⟨line, _, _, shown⟩ := defines.exists_line enabled named head among
    exact ⟨line, shown⟩

section Tops

variable {tight : Prop} {emitter : Emitter} {ws : Workspace} {b : Nat} {stack : Stack BlockHead RowHead}
  {s t : Pass}

theorem Stack.defined?_of_kind {head : BlockHead} {rows : Rows BlockHead RowHead}
    {next : Stack BlockHead RowHead} (other : BlockKind.ofName? head.type ≠ some .defineProcedure) :
    (Stack.block head rows next).defined? = none := by
  rw [Stack.defined?, if_neg]
  exact fun both => other both.2

theorem BlockHead.kind_of_isValue {head : BlockHead} (isValue : head.isValue) :
    BlockKind.ofName? head.type ≠ some .defineProcedure := by
  intro named
  simp [BlockHead.isValue, named, BlockKind.shape, Shape.isValue] at isValue

theorem BlockHead.kind_of_isStatement {head : BlockHead} (isStatement : head.isStatement) :
    BlockKind.ofName? head.type ≠ some .defineProcedure := by
  intro named
  simp [BlockHead.isStatement, named, BlockKind.shape] at isStatement

theorem nakedValue_append (above code : String) :
    nakedValue (above ++ code) = above ++ (code ++ ";" ++ "\n") := by
  have feed : ";\n" = ";" ++ "\n" := rfl
  simp only [nakedValue, feed, ← String.append_assoc]

/-- The code of a value at the top is a statement below its comments. -/
theorem Shows.lays_naked {heads : List BlockHead} {code : String} (shows : Shows heads code s) (site : Site) :
    Lays 0 0 heads s (nakedValue (site.comments ++ code)) := by
  have whole := (lays_comments site).append shows.lays
  rwa [nakedValue_append]

/-- The definition of a procedure stands in the pass once it is emitted. -/
theorem runs_definition (templates : emitter.templates = knownTemplates) {head : BlockHead}
    {rows : Rows BlockHead RowHead} (enabled : head.disabled = false)
    (named : BlockKind.ofName? head.type = some .defineProcedure)
    (ready : (Stack.block head rows .empty).Ready true tight) (fit : rows.Fit) (settled : s.Settled) :
    Runs (fun _ => True) (emitter.emit (.block head rows .empty)) s fun output t =>
      output = .statements "" ∧ t.Settled ∧ s.Precedes t ∧ (Stack.block head rows .empty).Yielded s t "" := by
  have readyHere := ready.1
  rw [named] at readyHere
  obtain ⟨_, readyRows⟩ := readyHere
  have laysAt := @laysAt_row tight emitter head rows (emitter.emit .empty) _ "STACK"
    (by simp [BlockKind.rows, BlockKind.shape]) readyRows fit (gives_openings templates rows)
  have opensAt := @opensAt_row true tight emitter head rows (emitter.emit .empty) _ "STACK"
    (by simp [BlockKind.rows, BlockKind.shape]) readyRows fit (emits_openings templates (fun _ => rfl) rows)
  rw [Emitter.emit.eq_2, enabled, if_neg (by simp), emitSite_eq, Emitter.templateOf, templates,
    get?_knownTemplates, named]
  simp only [Option.map_some, pure_bind]
  refine (runs_defineProcedure laysAt opensAt (Emitter.emit.eq_1 emitter) settled).bind ?_
  rintro _ t ⟨rfl, settledThere, precedes, identifier, text, defines, stands, others⟩
  exact runs_pure ⟨rfl, settledThere, precedes, .definition enabled named defines stands others⟩

/-- A stack at the top is emitted as statements, not at all, as a value, or as the definition of a
procedure. -/
theorem runs_top {known : Bool} {rows : Rows BlockHead RowHead} {next : Stack BlockHead RowHead}
    {Holds : String → Pass → Prop}
    (isTop : ws.IsTop known tight b (.block (ws.head b) rows next)) (settled : s.Settled)
    (chain : (ws.head b).isStatement → Gives (emitter.emit (.block (ws.head b) rows next)) s
      fun output t => ∃ code, output = .statements code ∧ (s.SameProcedures t → Holds code t))
    (silent : (ws.head b).disabled → next = .empty → s.SameProcedures s → Holds "" s)
    (naked : (ws.head b).isValue → (ws.head b).disabled = false → next = .empty →
      Gives (emitter.emit (.block (ws.head b) rows next)) s
      fun output t => ∃ code order, output = .value code order ∧ code ≠ "" ∧
      (s.SameProcedures t → Holds (nakedValue code) t))
    (definition : BlockKind.ofName? (ws.head b).type = some .defineProcedure → (ws.head b).disabled = false →
      next = .empty →
      Runs (fun _ => True) (emitter.emit (.block (ws.head b) rows next)) s
        fun output t => output = .statements "" ∧ t.Settled ∧ s.Precedes t ∧ Holds "" t) :
    Runs (fun _ => True) (emitter.emitTop ws b) s fun code t => t.Settled ∧ s.Precedes t ∧ Holds code t := by
  unfold Emitter.emitTop Emitter.emitBlock
  rw [isTop.found]
  dsimp only
  cases isStatement : (ws.head b).isStatement with
  | true =>
    have noOutput : (ws.block b).output.isSome = false := by
      rw [← isTop.output, BlockHead.isValue_of_isStatement isStatement]
    refine (chain isStatement settled).bind ?_
    rintro _ t ⟨settledThere, precedes, same, code, rfl, holds⟩
    simp only [noOutput, Output.code, Bool.false_eq_true, and_false, if_false]
    exact runs_pure ⟨settledThere, precedes, holds same⟩
  | false =>
    obtain ⟨_, _, _, follows, _⟩ := isTop.fits
    obtain rfl : next = .empty := follows.resolve_left (by simp [isStatement])
    cases enabled : (ws.head b).disabled with
    | true =>
      have nothing : emitter.emit (.block (ws.head b) rows .empty) = pure (.statements "") := by
        rw [Emitter.emit, enabled, if_pos rfl, Emitter.emit]
      rw [nothing, pure_bind]
      simp only [Output.code, ne_eq, not_true_eq_false, false_and, if_false]
      exact runs_pure ⟨settled, .refl, silent enabled rfl fun _ => rfl⟩
    | false =>
      rcases (ws.head b).form with isValue | other | named
      · refine (naked isValue enabled rfl settled).bind ?_
        rintro _ t ⟨settledThere, precedes, same, code, order, rfl, filled, holds⟩
        have output : (ws.block b).output.isSome = true := by rw [← isTop.output, isValue]
        simp only [Output.code, ne_eq, filled, not_false_eq_true, output, and_self, if_true]
        exact runs_pure ⟨settledThere, precedes, holds same⟩
      · rw [isStatement] at other
        cases other
      · refine (definition named enabled rfl).bind ?_
        rintro _ t ⟨rfl, settledThere, precedes, holds⟩
        simp only [Output.code, ne_eq, not_true_eq_false, false_and, if_false]
        exact runs_pure ⟨settledThere, precedes, holds⟩

/-- A stack at the top is emitted as lines that show its blocks, or it defines a procedure. -/
theorem runs_emitTop (templates : emitter.templates = knownTemplates) (isTop : ws.IsTop true tight b stack)
    (settled : s.Settled) :
    Runs (fun _ => True) (emitter.emitTop ws b) s fun code t => t.Settled ∧ s.Precedes t ∧
    stack.Yielded s t code := by
  obtain ⟨rows, next, rfl⟩ := isTop.head
  have fits := isTop.fits
  have ready := isTop.ready
  apply runs_top isTop settled
  · intro isStatement
    refine (gives_stack templates _ ready fits ⟨isStatement, isTop.loose⟩ s).imp ?_
    rintro _ t _ ⟨code, rfl, lays⟩
    exact ⟨code, rfl, fun same =>
      .lines (Stack.defined?_of_kind (BlockHead.kind_of_isStatement isStatement)) same lays⟩
  · rintro disabled rfl same
    refine .lines ?_ same ?_
    · rw [Stack.defined?, if_neg (by simp [disabled])]
    · rw [Stack.generated, Stack.generated, disabled, if_pos rfl]
      exact lays_nothing
  · rintro isValue enabled rfl
    refine (gives_alone templates isValue enabled ready (gives_operands templates rows) s).imp ?_
    rintro _ t _ ⟨code, order, rfl, shows⟩
    refine ⟨_, order, rfl, fun none => shows.filled (String.append_eq_empty_iff.mp none).2, fun same => ?_⟩
    exact .lines (Stack.defined?_of_kind (BlockHead.kind_of_isValue isValue)) same (shows.lays_naked _)
  · rintro named enabled rfl
    exact runs_definition templates enabled named ready fits.2.1 settled

end Tops

/-- A stack is left in a pass with its code: with lines that show its blocks, or with none if it defines a
procedure. -/
def Stack.IsLeft (pass : Pass) (stack : Stack BlockHead RowHead) (code : String) : Prop :=
  match stack.defined? with
  | none => Lays 0 0 stack.generated pass code
  | some _ => code = ""

/-- If a stack defines a procedure, its definition stands in a pass. -/
def Stack.Stands (pass : Pass) (stack : Stack BlockHead RowHead) : Prop :=
  stack.defined?.isSome → ∃ head rows identifier text, stack = .block head rows .empty ∧
    pass.Defines head rows identifier text ∧ pass.definitions.get? (procedureKey identifier) = some text

/-- Some stacks have been emitted one after the other, from one state of a pass to another. -/
structure Assembled (s t : Pass) (tops : List (Stack BlockHead RowHead)) (codes : List String) : Prop where
  settled : t.Settled
  precedes : s.Precedes t
  left : List.Forall₂ (Stack.IsLeft t) tops codes
  emitted : ∀ stack ∈ tops, ∀ head ∈ stack.generated, ∃ line, head.ShownIn t line
  stands : ∀ stack ∈ standing tops, stack.Stands t
  procedures : ∀ name text, t.definitions.get? (procedureKey name) = some text →
    s.definitions.get? (procedureKey name) = some text ∨
      ∃ head rows, .block head rows .empty ∈ tops ∧ (Stack.block head rows .empty).defined?.isSome ∧
        t.Defines head rows name text
  kept : ∀ word name, t.names.assigned.get? (nameKey word .procedure) = some name →
    (∀ stack ∈ tops, stack.defined? ≠ some (lower word)) →
      t.definitions.get? (procedureKey name) = s.definitions.get? (procedureKey name)

section Assembled

variable {tight : Prop} {emitter : Emitter} {ws : Workspace} {stack : Stack BlockHead RowHead}
  {tops : List (Stack BlockHead RowHead)} {code : String} {codes : List String} {s t u : Pass}

theorem assembled_nil (settled : s.Settled) : Assembled s s [] [] where
  settled := settled
  precedes := .refl
  left := .nil
  emitted := by simp
  stands := by simp [standing]
  procedures := fun _ _ found => .inl found
  kept := fun _ _ _ _ => rfl

theorem Stack.enabled_of_defined? {head : BlockHead} {rows : Rows BlockHead RowHead}
    {next : Stack BlockHead RowHead} (defined : (Stack.block head rows next).defined?.isSome) :
    head.disabled = false ∧ BlockKind.ofName? head.type = some .defineProcedure := by
  rw [Stack.defined?] at defined
  split_ifs at defined with both
  · exact both
  · cases defined

theorem Stack.defined?_of_enabled {head : BlockHead} {rows : Rows BlockHead RowHead}
    {next : Stack BlockHead RowHead} (enabled : head.disabled = false)
    (named : BlockKind.ofName? head.type = some .defineProcedure) :
    (Stack.block head rows next).defined? = some (lower (head.field "NAME").word) := by
  rw [Stack.defined?, if_pos ⟨enabled, named⟩]

/-- What a stack gives is kept if no later one defines the same procedure. -/
theorem Assembled.cons (rest : Assembled t u tops codes) (yielded : stack.Yielded s t code)
    (precedes : s.Precedes t) :
    Assembled s u (stack :: tops) (code :: codes) := by
  have emitted : ∀ other ∈ stack :: tops, ∀ head ∈ other.generated, ∃ line, head.ShownIn u line := by
    refine List.forall_mem_cons.mpr ⟨fun head among => ?_, rest.emitted⟩
    obtain ⟨line, shown⟩ := yielded.exists_line head among
    exact ⟨line, shown.later rest.precedes⟩
  cases yielded with
  | lines loose same lays =>
    refine ⟨rest.settled, precedes.trans rest.precedes, .cons ?_ rest.left, emitted, ?_,
      fun name text found => ?_, fun word name assigned apart => ?_⟩
    · rw [Stack.IsLeft, loose]
      exact lays.later rest.precedes
    · rw [standing_of_last (by simp [loose])]
      refine List.forall_mem_cons.mpr ⟨fun some => ?_, rest.stands⟩
      rw [loose] at some
      cases some
    · rcases rest.procedures name text found with earlier | ⟨head, rows, among, defining⟩
      · exact .inl (same name ▸ earlier)
      · exact .inr ⟨head, rows, List.mem_cons_of_mem _ among, defining⟩
    · exact (rest.kept word name assigned fun other among => apart other (List.mem_cons_of_mem _ among)).trans
        (same name)
  | @definition head rows identifier text enabled named defines stands others =>
    have defined : (Stack.block head rows .empty).defined? = _ := Stack.defined?_of_enabled enabled named
    have later := defines.later rest.precedes
    refine ⟨rest.settled, precedes.trans rest.precedes, .cons ?_ rest.left, emitted, ?_,
      fun name other found => ?_, fun word name assigned apart => ?_⟩
    · rw [Stack.IsLeft, defined]
    · rw [standing, defined, Option.any_some]
      split_ifs with again
      · exact rest.stands
      · refine List.forall_mem_cons.mpr ⟨fun _ => ⟨head, rows, identifier, text, rfl, later, ?_⟩, rest.stands⟩
        rw [rest.kept _ _ later.2.1 fun other among same =>
          again (List.any_eq_true.mpr ⟨other, among, by simpa using same⟩)]
        exact stands
    · rcases rest.procedures name other found with earlier | ⟨head, rows, among, defining⟩
      · by_cases same : name = identifier
        · subst same
          cases stands.symm.trans earlier
          exact .inr ⟨head, rows, List.mem_cons_self .., by rw [defined]; rfl, later⟩
        · exact .inl ((others name same).symm.trans earlier)
      · exact .inr ⟨head, rows, List.mem_cons_of_mem _ among, defining⟩
    · have differs : name ≠ identifier := by
        rintro rfl
        have same := (nameKey_inj.mp (rest.settled.names.apart _ _ _ later.2.1 assigned)).1
        exact apart _ (List.mem_cons_self ..) (by rw [defined, same])
      exact (rest.kept word name assigned fun other among => apart other (List.mem_cons_of_mem _ among)).trans
        (others name differs)

/-- The stacks at the tops of a workspace are emitted one after the other. -/
theorem runs_emitTops (templates : emitter.templates = knownTemplates) {order : List Nat}
    (each : List.Forall₂ (ws.IsTop true tight) order tops) (settled : s.Settled) :
    Runs (fun _ => True) (order.mapM (emitter.emitTop ws)) s fun codes t => Assembled s t tops codes := by
  induction each generalizing s with
  | nil => exact runs_pure (assembled_nil settled)
  | cons isTop _ ih =>
    rw [List.mapM_cons]
    refine (runs_emitTop templates isTop settled).bind ?_
    rintro code t ⟨settledThere, precedes, yielded⟩
    refine (ih settledThere).bind fun codes u rest => ?_
    exact runs_pure (rest.cons yielded precedes)

end Assembled

end BlockCompiler
