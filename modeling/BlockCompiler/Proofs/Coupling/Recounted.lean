import BlockCompiler.Proofs.Coupling.Stacks

/-!
Two runs of which the first counts from one and the second from zero: where no element of a list is taken,
they give the same.
-/

namespace BlockCompiler

/-- No block in a stack takes an element of a list. -/
def Stack.TakesNoElement (stack : Stack BlockHead RowHead) : Prop :=
  ∀ head ∈ stack.heads, BlockKind.ofName? head.type ≠ some .getIndex

/-- The comparison of a run that counts from one with one that counts from zero. -/
def Coupling.recounting : Coupling where
  extra := false
  skips := false
  counts _ := false
  Heads head other := other = head ∧ BlockKind.ofName? head.type ≠ some .getIndex
  Keeps pass := pass.oneBased = true
  alike heads := BlockHead.alike_of_eq heads.1
  keeps kept grows _ := grows.base.trans kept
  unread heads := .inr heads.2

/-- A step has the same outcome in a pass that counts from zero as another one in a pass that counts from one,
and the passes are the same afterwards, too, save for where they count from. -/
structure Recounts {α : Type} (x y : Emission α) (pass : Pass) : Prop where
  same : (y.run { pass with oneBased := false } : Except EmissionError α × Pass).1 =
    (x.run pass : Except EmissionError α × Pass).1
  later : ∀ a after, Yields x pass a after →
    Yields y { pass with oneBased := false } a { after with oneBased := false }

namespace Coupling

/-- Two definitions without extra comments are the same. -/
theorem SameDefinition.eq {entry other : String × String} (same : SameDefinition false entry other) :
    other = entry :=
  Prod.ext same.key (String.toList_inj.mp (same.text.eq rfl)).symm

/-- A pass that is at the same point as one that counts from one is the same save for where it counts from. -/
theorem Passes.eq {s t : Pass} (passes : recounting.Passes s t) : t = { s with oneBased := false } := by
  have definitions : s.definitions = t.definitions :=
    List.forall₂_eq_eq_eq ▸ passes.definitions.imp fun _ _ same => (SameDefinition.eq same).symm
  obtain ⟨names, oneBased, definitions', functions, placeholders⟩ := t
  obtain rfl : names = s.names := passes.names
  obtain rfl : oneBased = false := passes.oneBased
  obtain rfl : functions = s.functions := passes.functions
  obtain rfl : placeholders = s.placeholders := passes.placeholders rfl
  obtain rfl : s.definitions = definitions' := definitions
  rfl

theorem Agree.recounts {α : Type} {x y : Emission α} (agree : recounting.Agree (fun a b => a = b) x y)
    {pass : Pass} (sound : pass.Sound) (oneBased : pass.oneBased = true) : Recounts x y pass := by
  have passes : recounting.Passes pass { pass with oneBased := false } := .recount sound oneBased
  refine ⟨?_, fun a after yields => ?_⟩
  · have outcomes := agree _ _ passes
    generalize (x.run pass : Except EmissionError α × Pass) = one at outcomes ⊢
    generalize (y.run { pass with oneBased := false } : Except EmissionError α × Pass) = another at outcomes ⊢
    cases outcomes with
    | done passes values => exact congrArg Except.ok values.symm
    | failed errors => exact congrArg Except.error (errors rfl rfl)
    | stopped lax => cases lax
  · obtain ⟨b, t, there, rfl, passes⟩ := agree.yields passes yields
    rwa [passes.eq] at there

section Operands

variable {emitter : Emitter} {known : Bool} {tight : Prop}

/-- What stands for a value of an unknown type does not depend on what is in its rows. -/
theorem agree_unknown (templates : emitter.templates = knownTemplates) {head : BlockHead}
    (rows : Rows BlockHead RowHead) (unknown : BlockKind.ofName? head.type = none) (output : head.hasOutput)
    (enabled : head.disabled = false) :
    recounting.Agree recounting.Plugged (emitter.emit (.block head rows .empty))
    (emitter.emit (.block head rows .empty)) := by
  rw [Emitter.emit, enabled, if_neg (by simp), emitSite_eq, Emitter.emit]
  unfold Emitter.templateOf
  rw [templates, get?_knownTemplates, unknown, Option.map_none]
  by_cases strict : emitter.strict
  · simp only [if_pos strict]
    exact agree_throw
  · simp only [if_neg strict, pure_bind, bind_assoc]
    refine (agree_placeholder fun _ => rfl).bind fun _ _ _ => ?_
    unfold Template.placeholder
    rw [if_pos output]
    exact agree_pure (.inl rfl)

mutual

/-- A value in which no element of a list is taken is the same from whichever number a run counts. -/
theorem agree_recounted (templates : emitter.templates = knownTemplates) (stack : Stack BlockHead RowHead)
    (ready : stack.Ready known tight) (isOperand : stack.IsOperand) (none : stack.TakesNoElement) :
    recounting.Agree recounting.Plugged (emitter.emit stack) (emitter.emit stack) := by
  match stack with
  | .empty =>
    rw [Emitter.emit]
    exact agree_pure (.inl rfl)
  | .block head rows next =>
    obtain ⟨isValue, _, rfl⟩ := isOperand
    cases enabled : head.disabled with
    | true =>
      rw [Emitter.emit, enabled, if_pos rfl, Emitter.emit]
      exact agree_pure (.inl rfl)
    | false =>
      cases named : BlockKind.ofName? head.type with
      | none =>
        exact agree_unknown templates rows named (by simpa [BlockHead.isValue, named] using isValue) enabled
      | some kind =>
        have readyHere := ready.1
        rw [named] at readyHere
        have isValueKind : kind.shape.isValue := by simpa [BlockHead.isValue, named] using isValue
        have apart := none head (List.mem_cons_self ..)
        have inside : ∀ head ∈ rows.heads, BlockKind.ofName? head.type ≠ some .getIndex := fun other among =>
          none other (List.mem_cons_of_mem _ (List.mem_append_left _ among))
        have sockets := sockets_recounted templates rows readyHere.2 (rows_of_value isValueKind _) inside
        have plain : head.isStatement = false := by
          by_contra statement
          have noValue := BlockHead.isValue_of_isStatement (by simpa using statement)
          rw [isValue] at noValue
          cases noValue
        have sites : recounting.Sites ⟨head, emitter.sockets rows, emitter.emit .empty⟩
            ⟨head, emitter.sockets rows, emitter.emit .empty⟩ := by
          refine ⟨⟨rfl, apart⟩, sockets, ?_, fun _ => ⟨Emitter.emit.eq_1 emitter, Emitter.emit.eq_1 emitter⟩⟩
          rw [Emitter.emit]
          exact agree_pure ⟨"", "", rfl, rfl, .refl _⟩
        rw [Emitter.emit, enabled, if_neg (by simp)]
        refine ((emitters_of_known templates templates (.inl rfl)).emitSite sites).imp
          fun output other emitted => ?_
        unfold Emitted at emitted
        rw [if_neg (by simp [plain])] at emitted
        rcases emitted with same | ⟨code, order, rfl, rfl⟩
        · exact .inl same
        · exact .inl rfl

theorem sockets_recounted (templates : emitter.templates = knownTemplates) (rows : Rows BlockHead RowHead)
    {specs : List RowSpec} (ready : rows.Ready known tight specs) (values : ∀ spec ∈ specs, spec.2.1 = .value)
    (none : ∀ head ∈ rows.heads, BlockKind.ofName? head.type ≠ some .getIndex) :
    List.Forall₂ recounting.Sockets (emitter.sockets rows) (emitter.sockets rows) := by
  match rows with
  | .nil =>
    rw [Emitter.sockets]
    exact .nil
  | .cons row plugged rest =>
    obtain ⟨spec, others, rfl, rfl, operand, readyHere, later⟩ := ready
    rw [Emitter.sockets]
    have code := agree_recounted templates plugged readyHere (operand (values spec (List.mem_cons_self ..)))
      fun head among => none head (List.mem_append_left _ among)
    refine .cons ⟨rfl, rfl, fun _ => rfl, code, fun _ _ => rfl, id, fun empty => ?_⟩
      (sockets_recounted templates rest later (fun spec among => values spec (List.mem_cons_of_mem _ among))
        fun head among => none head (List.mem_append_right _ among))
    cases plugged with
    | empty => exact Emitter.emit.eq_1 emitter
    | block => cases empty

end

end Operands

end Coupling

end BlockCompiler
