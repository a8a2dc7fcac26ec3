import BlockCompiler.Proofs.Document.Forest

/-!
The stacks that are compiled for a document, as a function of its stacks as they are written down.
-/

namespace BlockCompiler

mutual

/-- The stack that is compiled for a stack as written down, in the socket of a value or not. -/
def Stack.shown (asValue : Bool) : StackSpec → Stack BlockHead RowHead
  | .empty => .empty
  | .block spec inputs next =>
    .block { spec.content with hasOutput := (spec.plug asValue).isValue, inline := asValue }
      (.ofList ((spec.rows inputs).map fun row => (row.head, inputs.shownIn row.head))) (next.shown false)

/-- What is compiled for the row of a block, given the inputs of the block. -/
def Rows.shownIn : Rows BlockSpec String → RowHead → Stack BlockHead RowHead
  | .nil, _ => .empty
  | .cons name plugged rest, row =>
    if row.name = name then plugged.shown (row.kind = .value) else rest.shownIn row

end

mutual

/-- The blocks that a stack shows say what its own blocks say. -/
theorem Stack.heads_shown {asValue : Bool} {stack : StackSpec} :
    ∀ head ∈ (stack.shown asValue).heads, ∃ spec ∈ stack.heads, head.toBlockContent = spec.content := by
  match stack with
  | .empty =>
    rw [Stack.shown]
    simp [Stack.heads]
  | .block spec inputs next =>
    have inside : ∀ row, ∀ head ∈ (inputs.shownIn row).heads, ∃ spec ∈ inputs.heads,
        head.toBlockContent = spec.content :=
      fun row => Rows.heads_shownIn
    rw [Stack.shown, Stack.heads, Stack.heads]
    refine List.forall_mem_cons.mpr
      ⟨⟨spec, List.mem_cons_self .., rfl⟩, List.forall_mem_append.mpr ⟨?_, fun head among => ?_⟩⟩
    · generalize spec.rows inputs = rows
      induction rows with
      | nil => simp [Rows.ofList, Rows.heads]
      | cons row rest ih =>
        rw [List.map_cons, Rows.ofList, Rows.heads]
        refine List.forall_mem_append.mpr ⟨fun head among => ?_, ih⟩
        obtain ⟨inner, member, same⟩ := inside row.head head among
        exact ⟨inner, List.mem_cons_of_mem _ (List.mem_append_left _ member), same⟩
    · obtain ⟨inner, member, same⟩ := Stack.heads_shown head among
      exact ⟨inner, List.mem_cons_of_mem _ (List.mem_append_right _ member), same⟩

theorem Rows.heads_shownIn {rows : Rows BlockSpec String} {row : RowHead} :
    ∀ head ∈ (rows.shownIn row).heads, ∃ spec ∈ rows.heads, head.toBlockContent = spec.content := by
  match rows with
  | .nil =>
    rw [Rows.shownIn]
    simp [Stack.heads]
  | .cons name plugged rest =>
    rw [Rows.shownIn, Rows.heads]
    split_ifs
    · intro head among
      obtain ⟨inner, member, same⟩ := Stack.heads_shown head among
      exact ⟨inner, List.mem_append_left _ member, same⟩
    · intro head among
      obtain ⟨inner, member, same⟩ := Rows.heads_shownIn head among
      exact ⟨inner, List.mem_append_right _ member, same⟩

end

theorem Rows.shownIn_of_unlabelled {inputs : Rows BlockSpec String} {row : RowHead}
    (unlabelled : row.name ∉ inputs.labels) : inputs.shownIn row = .empty := by
  match inputs with
  | .nil => rw [shownIn]
  | .cons name plugged rest =>
    simp only [labels, List.mem_cons, not_or] at unlabelled
    rw [shownIn, if_neg unlabelled.1]
    exact shownIn_of_unlabelled unlabelled.2

theorem Rows.Shows.labelled {inputs : Rows BlockSpec String} {row : RowHead} {found : Stack BlockHead RowHead}
    (shows : inputs.Shows row found) : row.name ∈ inputs.labels := by
  match inputs with
  | .nil => exact shows.elim
  | .cons name plugged rest =>
    rcases shows with ⟨same, _⟩ | later
    · exact same ▸ List.mem_cons_self ..
    · exact List.mem_cons_of_mem _ later.labelled

mutual

/-- What mirrors a tidy stack is what it shows. -/
theorem Stack.Mirrors.eq_shown {asValue : Bool} {stack : StackSpec} {found : Stack BlockHead RowHead}
    (mirrors : stack.Mirrors asValue found) (tidy : stack.Tidy) : found = stack.shown asValue := by
  match stack with
  | .empty => exact mirrors.trans (by rw [Stack.shown])
  | .block spec inputs next =>
    obtain ⟨rows, following, rfl, heads, each, below⟩ := mirrors
    obtain ⟨distinct, inside, after⟩ := tidy
    have filled : rows = (spec.rows inputs).map fun row => (row.head, inputs.shownIn row.head) := by
      have pairs : rows = (rows.map (·.1)).map fun head => (head, inputs.shownIn head) := by
        rw [List.map_map]
        refine (List.map_id' rows).symm.trans (List.map_congr_left fun row member => ?_)
        refine Prod.ext rfl ?_
        rcases each row member with ⟨unlabelled, vacant⟩ | shows
        · exact vacant.trans (Rows.shownIn_of_unlabelled unlabelled).symm
        · exact shows.eq_shownIn distinct inside
      rw [pairs, heads, List.map_map]
      rfl
    rw [Stack.shown, filled, below.eq_shown after]

theorem Rows.Shows.eq_shownIn {inputs : Rows BlockSpec String} {row : RowHead}
    {found : Stack BlockHead RowHead} (shows : inputs.Shows row found) (distinct : inputs.labels.Nodup)
    (tidy : inputs.Tidy) :
    found = inputs.shownIn row := by
  match inputs with
  | .nil => exact shows.elim
  | .cons name plugged rest =>
    obtain ⟨first, others⟩ := List.nodup_cons.mp distinct
    obtain ⟨_, here, there⟩ := tidy
    rw [Rows.shownIn]
    rcases shows with ⟨same, mirrors⟩ | later
    · rw [if_pos same]
      exact mirrors.eq_shown here
    · have differ : row.name ≠ name := fun same => first (same ▸ later.labelled)
      rw [if_neg differ]
      exact later.eq_shownIn others there

end

namespace Workspace

variable {ws : Workspace}

/-- What a workspace has at the first block of a stack at its top. -/
structure HasTop (ws : Workspace) (b : Nat) (top : StackSpec) : Prop where
  stack : ws.stack? (some b) = some (top.shown false)
  root : ∃ spec inputs next, top = .block spec inputs next ∧ (ws.block b).Renders spec false inputs

theorem CarriesAll.hasTop {tops : List StackSpec} {n : Nat} (carries : ws.CarriesAll n tops)
    (size : n + forestSize tops ≤ ws.blocks.size) : List.Forall₂ ws.HasTop (starts n tops) tops := by
  induction tops generalizing n with
  | nil => exact .nil
  | cons top rest ih =>
    obtain ⟨proper, here, free, others⟩ := carries
    rw [forestSize] at size
    refine .cons ⟨?_, ?_⟩ (ih others (by omega))
    · have inline := (target?_of_untouched free).1
      obtain ⟨found, reads, mirrors⟩ :=
        here.stackWithin proper inline (show top.size ≤ ws.blocks.size by omega)
      rw [Workspace.stack?, reads, mirrors.eq_shown here.tidy]
    · cases top with
      | empty => cases proper
      | block spec inputs next => exact ⟨spec, inputs, next, rfl, here.2.1⟩

end Workspace

end BlockCompiler
