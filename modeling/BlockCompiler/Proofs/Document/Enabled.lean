import BlockCompiler.Proofs.Document.Loaded

/-!
Documents without their disabled blocks. What is left of a document that can be built can be built as well.
-/

namespace BlockCompiler

mutual

/-- What is left of a stack without its disabled blocks and all that is in their rows. -/
def Stack.enabled : StackSpec → StackSpec
  | .empty => .empty
  | .block spec inputs next => if spec.disabled then next.enabled else .block spec inputs.enabled next.enabled

/-- What is left of some rows. A row of which nothing is left is gone. -/
def Rows.enabled : Rows BlockSpec String → Rows BlockSpec String
  | .nil => .nil
  | .cons name plugged rest =>
    if plugged.enabled.head?.isSome then .cons name plugged.enabled rest.enabled else rest.enabled

end

/-- A stack of which the first block stands elsewhere. -/
def Stack.movedTo (x y : Json) : StackSpec → StackSpec
  | .empty => .empty
  | .block spec inputs next => .block { spec with x, y } inputs next

/-- What is left of a stack at the top. It stands where the stack stood. -/
def Stack.enabledTop : StackSpec → StackSpec
  | .empty => .empty
  | .block spec inputs next => (Stack.block spec inputs next).enabled.movedTo spec.x spec.y

/-- What is left of a document without its disabled blocks, with some variables declared. -/
def Document.enabled (document : Document) (declared : List Variable) : Document :=
  { document with declared, tops := (document.tops.map Stack.enabledTop).filter (·.head?.isSome) }

mutual

/-- Disabled values have no comments, and none are below them. -/
def Stack.Quiet : StackSpec → Prop
  | .empty => True
  | .block spec inputs next =>
    (spec.disabled → (spec.plug true).isValue → spec.comment = none ∧
      ∀ inner ∈ inputs.heads, inner.comment = none) ∧
      inputs.Quiet ∧ next.Quiet

/-- Disabled values in some rows have no comments, and none are below them. -/
def Rows.Quiet : Rows BlockSpec String → Prop
  | .nil => True
  | .cons _ plugged rest => plugged.Quiet ∧ rest.Quiet

end

section Parts

mutual

/-- The blocks that are left are among all blocks, in the same order. -/
theorem Stack.heads_enabled (stack : StackSpec) : stack.enabled.heads.Sublist stack.heads := by
  match stack with
  | .empty =>
    rw [Stack.enabled]
  | .block spec inputs next =>
    have inside := Rows.heads_enabled inputs
    have below := Stack.heads_enabled next
    rw [Stack.enabled, Stack.heads]
    split_ifs
    · exact (below.trans (List.sublist_append_right ..)).trans (List.sublist_cons_self ..)
    · rw [Stack.heads]
      exact (inside.append below).cons_cons _

theorem Rows.heads_enabled (rows : Rows BlockSpec String) : rows.enabled.heads.Sublist rows.heads := by
  match rows with
  | .nil =>
    rw [Rows.enabled]
  | .cons name plugged rest =>
    have here := Stack.heads_enabled plugged
    have there := Rows.heads_enabled rest
    rw [Rows.enabled, Rows.heads]
    split_ifs
    · rw [Rows.heads]
      exact here.append there
    · exact there.trans (List.sublist_append_right ..)

end

theorem Rows.labels_enabled (rows : Rows BlockSpec String) : rows.enabled.labels.Sublist rows.labels := by
  match rows with
  | .nil =>
    rw [Rows.enabled]
  | .cons name plugged rest =>
    have there := Rows.labels_enabled rest
    rw [Rows.enabled, Rows.labels]
    split_ifs
    · rw [Rows.labels]
      exact there.cons_cons _
    · exact there.trans (List.sublist_cons_self ..)

mutual

theorem Stack.full_enabled (stack : StackSpec) : stack.enabled.Full := by
  match stack with
  | .empty =>
    rw [Stack.enabled]
    trivial
  | .block spec inputs next =>
    rw [Stack.enabled]
    split_ifs
    · exact Stack.full_enabled next
    · exact ⟨Rows.full_enabled inputs, Stack.full_enabled next⟩

theorem Rows.full_enabled (rows : Rows BlockSpec String) : rows.enabled.Full := by
  match rows with
  | .nil =>
    rw [Rows.enabled]
    trivial
  | .cons name plugged rest =>
    rw [Rows.enabled]
    split_ifs with left
    · exact ⟨left, Stack.full_enabled plugged, Rows.full_enabled rest⟩
    · exact Rows.full_enabled rest

end

/-- What is left in the first row, or in one of the others. -/
theorem Rows.shownIn_enabled {name : String} {plugged : StackSpec} {rest : Rows BlockSpec String}
    (apart : name ∉ rest.labels) (row : RowHead) : (Rows.cons name plugged rest).enabled.shownIn row =
      if row.name = name then plugged.enabled.shown (row.kind = .value) else rest.enabled.shownIn row := by
  rw [Rows.enabled]
  by_cases left : plugged.enabled.head?.isSome
  · rw [if_pos left, Rows.shownIn]
  · rw [if_neg left]
    split_ifs with named
    · have gone : plugged.enabled = .empty := by
        cases shape : plugged.enabled with
        | empty => rfl
        | block => simp [shape, Stack.head?] at left
      rw [gone, Stack.shown, Rows.shownIn_of_unlabelled]
      exact named ▸ fun member => apart ((Rows.labels_enabled rest).subset member)
    · rfl

section Moved

variable {x y : Json} {stack : StackSpec}

theorem Stack.shown_movedTo (asValue : Bool) : (stack.movedTo x y).shown asValue = stack.shown asValue := by
  cases stack with
  | empty => rfl
  | block spec inputs next => rw [Stack.movedTo, Stack.shown, Stack.shown]; rfl

theorem Stack.builds_movedTo {asValue : Bool} :
    (stack.movedTo x y).Builds asValue ↔ stack.Builds asValue := by
  cases stack with
  | empty => rfl
  | block spec inputs next => exact Iff.rfl

theorem Stack.full_movedTo : (stack.movedTo x y).Full ↔ stack.Full := by
  cases stack with
  | empty => rfl
  | block spec inputs next => exact Iff.rfl

theorem Stack.ownIds_movedTo : (stack.movedTo x y).ownIds = stack.ownIds := by
  cases stack with
  | empty => rfl
  | block spec inputs next => rw [Stack.movedTo, Stack.ownIds_block, Stack.ownIds_block]

theorem Stack.used_movedTo : (stack.movedTo x y).used = stack.used := by
  cases stack with
  | empty => rfl
  | block spec inputs next => rfl

end Moved

end Parts

section Builds

/-- The first block that is left is the first of all, or both are statements. -/
theorem Stack.Builds.head_enabled {asValue : Bool} {stack : StackSpec} (builds : stack.Builds asValue) :
    ∀ head ∈ stack.enabled.head?, ∃ first ∈ stack.head?, head = first ∨ first.plug asValue = .statement ∧
    head.plug false = .statement := by
  match stack with
  | .empty => simp [Stack.enabled, Stack.head?]
  | .block spec inputs next =>
    obtain ⟨_, _, _, follows, below⟩ := builds
    rw [Stack.enabled]
    split_ifs
    · intro head found
      obtain ⟨first, there, same⟩ := below.head_enabled head found
      obtain ⟨here, statement⟩ := follows first there
      refine ⟨spec, rfl, .inr ⟨here, ?_⟩⟩
      rcases same with rfl | ⟨_, other⟩
      · exact statement
      · exact other
    · rintro _ ⟨⟩
      exact ⟨spec, rfl, .inl rfl⟩

/-- A block of a known type has its plug wherever it is plugged in. -/
theorem BlockSpec.plug_of_known {spec : BlockSpec} (known : isKnownType spec.type) (asValue other : Bool) :
    spec.plug asValue = spec.plug other := by
  obtain ⟨kind, named⟩ := Option.isSome_iff_exists.mp known
  rw [BlockSpec.plug, BlockSpec.plug, named]

/-- A block of a known type has its rows whatever is plugged in. -/
theorem BlockSpec.rows_of_known {spec : BlockSpec} (known : isKnownType spec.type)
    (inputs others : Rows BlockSpec String) :
    spec.rows inputs = spec.rows others := by
  obtain ⟨kind, named⟩ := Option.isSome_iff_exists.mp known
  rw [BlockSpec.rows, BlockSpec.rows, named]

/-- A stack of known types can be built in the socket of a value if it can be built elsewhere. -/
theorem Stack.Builds.anywhere {asValue other : Bool} {stack : StackSpec} (builds : stack.Builds asValue)
    (known : ∀ spec ∈ stack.heads, isKnownType spec.type) : stack.Builds other := by
  cases stack with
  | empty => trivial
  | block spec inputs next =>
    obtain ⟨stop, distinct, into, follows, below⟩ := builds
    have here := known spec (List.mem_cons_self ..)
    exact ⟨stop, distinct, into,
      fun follower found => by
      rw [spec.plug_of_known here other asValue]; exact follows follower found, below⟩

mutual

/-- What is left of a stack that can be built can be built. -/
theorem Stack.Builds.enabled {asValue : Bool} {stack : StackSpec} (builds : stack.Builds asValue)
    (known : ∀ spec ∈ stack.heads, isKnownType spec.type) : stack.enabled.Builds asValue := by
  match stack with
  | .empty =>
    rw [Stack.enabled]
    trivial
  | .block spec inputs next =>
    obtain ⟨stop, distinct, into, follows, below⟩ := builds
    rw [Stack.heads] at known
    obtain ⟨here, known⟩ := List.forall_mem_cons.mp known
    obtain ⟨knownInside, knownBelow⟩ := List.forall_mem_append.mp known
    have left := below.enabled knownBelow
    rw [Stack.enabled]
    split_ifs
    · exact left.anywhere fun spec member => knownBelow spec ((Stack.heads_enabled next).subset member)
    · refine ⟨stop, distinct.sublist (Rows.labels_enabled inputs), ?_, fun follower found => ?_, left⟩
      · rw [spec.rows_of_known here _ inputs]
        exact into.enabled knownInside
      · obtain ⟨first, there, same⟩ := below.head_enabled follower found
        obtain ⟨statement, statement'⟩ := follows first there
        refine ⟨statement, ?_⟩
        rcases same with rfl | ⟨_, other⟩
        · exact statement'
        · exact other

theorem Rows.BuildsInto.enabled {inputs : Rows BlockSpec String} {specs : List RowSpec}
    (into : inputs.BuildsInto specs) (known : ∀ spec ∈ inputs.heads, isKnownType spec.type) :
    inputs.enabled.BuildsInto specs := by
  match inputs with
  | .nil =>
    rw [Rows.enabled]
    trivial
  | .cons name plugged rest =>
    obtain ⟨⟨row, search, goes, builds⟩, others⟩ := into
    rw [Rows.heads] at known
    obtain ⟨knownHere, knownThere⟩ := List.forall_mem_append.mp known
    rw [Rows.enabled]
    split_ifs
    · refine ⟨⟨row, search, fun head found => ?_, builds.enabled knownHere⟩, others.enabled knownThere⟩
      obtain ⟨first, there, same⟩ := builds.head_enabled head found
      rcases same with rfl | ⟨statement, other⟩
      · exact goes head there
      · -- What stands for a statement is one, and the row is an opening.
        rcases goes first there with ⟨_, check, value, _⟩ | ⟨opening, _⟩
        · rw [statement] at value
          cases value
        · refine .inr ⟨opening, ?_⟩
          simpa [opening] using other
    · exact others.enabled knownThere

end

end Builds

section Left

variable {oneBased : Option Bool} {document : Document} {ws : Workspace}

/-- What is left of a stack at the top is what is left of the stack, moved. -/
theorem Stack.enabledTop_eq (stack : StackSpec) : ∃ x y, stack.enabledTop = stack.enabled.movedTo x y := by
  cases stack with
  | empty => exact ⟨.null, .null, by rw [Stack.enabled]; rfl⟩
  | block spec inputs next => exact ⟨spec.x, spec.y, rfl⟩

theorem Stack.sublist_ownIds_enabledTop (stack : StackSpec) :
    stack.enabledTop.ownIds.Sublist stack.ownIds := by
  obtain ⟨x, y, moved⟩ := stack.enabledTop_eq
  rw [moved, Stack.ownIds_movedTo]
  exact (Stack.heads_enabled stack).filterMap _

/-- What is left at the top is the rest of a stack that was there. -/
theorem Document.mem_tops_enabled {declared : List Variable} {top : StackSpec}
    (member : top ∈ (document.enabled declared).tops) :
    ∃ whole ∈ document.tops, top = whole.enabledTop ∧ top.head?.isSome := by
  obtain ⟨among, left⟩ := List.mem_filter.mp member
  obtain ⟨whole, there, rfl⟩ := List.mem_map.mp among
  exact ⟨whole, there, rfl, left⟩

/-- No id is used twice in what is left of a document. -/
theorem Document.nodup_ownIds_enabled (distinct : document.ownIds.Nodup) (declared : List Variable) :
    (document.enabled declared).ownIds.Nodup := by
  have each : ∀ tops : List StackSpec,
      (((tops.map Stack.enabledTop).filter (·.head?.isSome)).flatMap Stack.ownIds).Sublist
      (tops.flatMap Stack.ownIds) := by
    intro tops
    induction tops with
    | nil => exact .slnil
    | cons top rest ih =>
      rw [List.map_cons, List.filter_cons, List.flatMap_cons]
      split_ifs
      · rw [List.flatMap_cons]
        exact top.sublist_ownIds_enabledTop.append ih
      · exact ih.trans (List.sublist_append_right ..)
  exact distinct.sublist (each document.tops)

/-- What is left of a loaded document can be loaded, and has the same variables. -/
theorem Workspace.Loads.exists_enabled (loads : ws.Loads oneBased document) (distinct : document.ownIds.Nodup)
    (known : ∀ top ∈ document.tops, ∀ spec ∈ top.heads, isKnownType spec.type) :
    ∃ bare, (document.enabled ws.declared).toWorkspace oneBased = .ok bare ∧
      bare.Loads oneBased (document.enabled ws.declared) ∧
      bare.declared = ws.declared := by
  have builds : ∀ top ∈ (document.enabled ws.declared).tops, top.Full ∧ top.head?.isSome ∧
      top.Builds false := by
    intro top member
    obtain ⟨whole, there, rfl, left⟩ := Document.mem_tops_enabled member
    obtain ⟨x, y, moved⟩ := whole.enabledTop_eq
    refine ⟨?_, left, ?_⟩
    · rw [moved, Stack.full_movedTo]
      exact Stack.full_enabled whole
    · rw [moved, Stack.builds_movedTo]
      exact (loads.builds whole there).2.2.enabled (known whole there)
  obtain ⟨bare, built⟩ := exists_toWorkspace builds (Document.nodup_ownIds_enabled distinct _) oneBased
  have loadsBare :=
    loads_toWorkspace (fun top member => ⟨(builds top member).1, (builds top member).2.1⟩) built
  refine ⟨bare, built, loadsBare, ?_⟩
  have apart : (ws.declared.map fun known => lower known.name).Nodup := by
    rw [loads.declared]
    exact nodup_declareAll (by simp)
  have used : ∀ v ∈ (document.enabled ws.declared).tops.flatMap Stack.used,
      lower v.name ∈ ws.declared.map fun known => lower known.name := by
    intro v member
    obtain ⟨top, left, among⟩ := List.mem_flatMap.mp member
    obtain ⟨whole, there, rfl, _⟩ := Document.mem_tops_enabled left
    obtain ⟨x, y, moved⟩ := whole.enabledTop_eq
    rw [moved, Stack.used_movedTo] at among
    obtain ⟨spec, inside, uses⟩ := (Stack.mem_used _ v).mp among
    have here : v ∈ whole.used :=
      (Stack.mem_used _ v).mpr ⟨spec, (Stack.heads_enabled whole).subset inside, uses⟩
    rw [loads.declared]
    exact declared_of_wanted (List.mem_append_right _ (List.mem_flatMap.mpr ⟨whole, there, here⟩))
  have whole : declareAll [] ws.declared = ws.declared := declareAll_of_nodup apart
  rw [loadsBare.declared, declareAll_append, show (document.enabled ws.declared).declared = ws.declared
    from rfl, whole,
    declareAll_of_declared used]

end Left

end BlockCompiler
