import BlockCompiler.Proofs.Document.Mirrored
import BlockCompiler.Proofs.Name.Fresh
import BlockCompiler.Proofs.Workspace.Fitted

/-!
When a block can be made: nothing fails but the count of rows, rows of one name, and an id that is taken.
-/

namespace BlockCompiler

theorem nodup_numbered (stem : String) (count : Nat) :
    ((List.range count).map fun i => stem ++ toString i).Nodup :=
  (List.nodup_range).map fun _ _ same => Registry.append_toString_inj same

theorem nodup_arms (count : Nat) : (((List.range count).flatMap armRows).map (·.1)).Nodup := by
  have named : ∀ arm, (armRows arm).map (·.1) = ["IF" ++ toString arm, "DO" ++ toString arm] := fun _ => rfl
  rw [List.map_flatMap, List.nodup_flatMap]
  refine ⟨fun arm _ => ?_, ?_⟩
  · rw [named]
    simp [← String.toList_inj]
  · refine (List.nodup_range.imp fun {arm other} differ => ?_)
    show List.Disjoint ((armRows arm).map (·.1)) ((armRows other).map (·.1))
    rw [named, named, List.disjoint_left]
    intro name here there
    have apart : ∀ i j : Nat, "IF" ++ toString i ≠ "DO" ++ toString j := by
      intro i j
      simp [← String.toList_inj]
    simp only [List.mem_cons, List.not_mem_nil, or_false] at here there
    rcases here with rfl | rfl <;> rcases there with same | same
    · exact differ (Registry.append_toString_inj same)
    · exact apart _ _ same
    · exact apart _ _ same.symm
    · exact differ (Registry.append_toString_inj same)

theorem nodup_family_rows (family : RowFamily) (mutation : Table Json) :
    ((family.rows mutation).1.map (·.1)).Nodup := by
  unfold RowFamily.rows
  cases family with
  | items =>
    cases itemCount mutation with
    | ok count =>
      rw [List.map_map]
      exact nodup_numbered "ADD" count.toNat
    | error error => exact List.nodup_nil
  | arguments =>
    cases parameters mutation with
    | ok params =>
      rw [List.map_map]
      exact nodup_numbered "ARG" params.length
    | error error => exact List.nodup_nil
  | arms =>
    cases ((mutation.get? "elseif").getD (.int 0)).toWhole with
    | error error => exact nodup_arms 1
    | ok count =>
      dsimp only
      split_ifs
      · exact nodup_arms _
      · rw [List.map_append, List.nodup_append]
        refine ⟨nodup_arms _, List.nodup_singleton _, ?_⟩
        intro name here other last
        obtain ⟨row, member, rfl⟩ := List.mem_map.mp here
        obtain ⟨arm, _, inArm⟩ := List.mem_flatMap.mp member
        rw [List.map_singleton, List.mem_singleton] at last
        subst last
        have differ : "IF" ++ toString arm ≠ "ELSE" ∧ "DO" ++ toString arm ≠ "ELSE" := by
          simp [← String.toList_inj]
        rcases List.mem_pair.mp inArm with rfl | rfl
        · exact differ.1
        · exact differ.2

/-- No two rows of a known kind have one name. -/
theorem nodup_kind_rows (kind : BlockKind) (mutation : Table Json) :
    ((kind.rows mutation).map (·.1)).Nodup := by
  have shape : kind.shape.family = none ∧ (kind.shape.rows.map (·.1)).Nodup ∨ kind.shape.rows = [] := by
    cases kind <;> decide
  unfold BlockKind.rows
  rcases shape with ⟨none, fixed⟩ | empty
  · simpa [none] using fixed
  · rw [empty, List.nil_append]
    cases kind.shape.family with
    | none => exact List.nodup_nil
    | some family => exact nodup_family_rows family mutation

namespace Edit

open Workspace

variable {old ws : Workspace} {block : Block} {plug : Plug} {specs : List RowSpec}

theorem exists_plugIn (begun : Begun old ws block) (bare : block.output = none ∧ block.previous = none)
    (plug : Plug) :
    ∃ u t, Yields (plugIn old.blocks.size plug) ws u t := by
  cases plug with
  | value check => exact ⟨⟨⟩, _, yields_setOutput.mpr ⟨begun.block ▸ bare.2, rfl⟩⟩
  | statement =>
    exact ⟨⟨⟩, _, yields_bind.mpr ⟨⟨⟩, _, yields_setPrevious.mpr ⟨begun.block ▸ bare.1, rfl⟩,
      yields_setNext.mpr rfl⟩⟩
  | loose => exact ⟨⟨⟩, _, yields_pure.mpr ⟨rfl, rfl⟩⟩

/-- Rows of different names can be added. -/
theorem exists_addRows (begun : Begun old ws block)
    (distinct : (block.rows.map (·.name) ++ specs.map (·.1)).Nodup) :
    ∃ u t, Yields (addRows old.blocks.size specs) ws u t := by
  induction specs generalizing ws block with
  | nil =>
    rw [addRows]
    exact ⟨⟨⟩, _, yields_pure.mpr ⟨rfl, rfl⟩⟩
  | cons spec rest ih =>
    obtain ⟨name, kind, check⟩ := spec
    have unused : block.row? name = none := by
      rw [Block.row?, List.find?_eq_none]
      intro row member same
      have apart := (List.nodup_append.mp distinct).2.2 row.name (List.mem_map_of_mem member) name
        (List.mem_cons_self ..)
      exact apart (by simpa using same)
    obtain ⟨connection, begunThere⟩ := begun.withRow (.inr unused) kind check
    obtain ⟨u, t, others⟩ := ih begunThere (by simpa using distinct)
    rw [addRows]
    exact ⟨u, t, yields_bind.mpr ⟨⟨⟩, _, yields_addRow.mpr ⟨.inr (begun.block ▸ unused), rfl⟩, others⟩⟩

theorem exists_applyShape (begun : Begun old ws block)
    (bare : block.output = none ∧ block.previous = none ∧ block.next = none ∧ block.rows = [])
    {kind : BlockKind} (known : BlockKind.ofName? block.type = some kind)
    (stop : ∀ family, kind.shape.family = some family → (family.rows block.mutation).2 = none) :
    ∃ u t, Yields (applyShape old.blocks.size) ws u t := by
  obtain ⟨noOutput, noPrevious, noNext, noRows⟩ := bare
  obtain ⟨_, plugged, plugIns⟩ := exists_plugIn begun ⟨noOutput, noPrevious⟩ kind.shape.plug
  obtain ⟨output, previous, next, begunPlugged, _⟩ :=
    begun_plugIn begun ⟨noOutput, noPrevious, noNext⟩ plugIns
  have distinct := nodup_kind_rows kind block.mutation
  rw [BlockKind.rows, List.map_append, List.nodup_append] at distinct
  obtain ⟨_, added, adds⟩ := exists_addRows begunPlugged (by simpa [noRows] using distinct.1)
  obtain ⟨rows, begunAdded, heads⟩ := begun_addRows begunPlugged adds
  have begunFilled :=
    begunAdded.change (fun block => { block with fields := block.fields.fill kind.shape.fields }) rfl rfl
  have names : rows.map (·.name) = kind.shape.rows.map (·.1) := by
    have same := congrArg (List.map RowHead.name) heads
    simpa [Function.comp_def, Row.head, RowSpec.head] using same
  unfold applyShape
  cases has : kind.shape.family with
  | none =>
    refine ⟨⟨⟩, added.change old.blocks.size fun block =>
      { block with fields := block.fields.fill kind.shape.fields }, ?_⟩
    rw [yields_get_bind, begun.block]
    simp only [known, has]
    exact yields_bind.mpr ⟨_, _, plugIns, yields_bind.mpr ⟨_, _, adds, yields_bind.mpr
      ⟨⟨⟩, _, yields_modifyBlock.mpr rfl, yields_pure.mpr ⟨rfl, rfl⟩⟩⟩⟩
  | some family =>
    simp only [has, Option.map_some, Option.getD_some] at distinct
    have apart : (rows.map (·.name) ++ (family.rows block.mutation).1.map (·.1)).Nodup := by
      rw [names]
      exact List.nodup_append.mpr distinct
    obtain ⟨_, grown, grows⟩ := exists_addRows begunFilled (by simpa [noRows] using apart)
    refine ⟨⟨⟩, grown, ?_⟩
    rw [yields_get_bind, begun.block]
    simp only [known, has]
    refine yields_bind.mpr ⟨_, _, plugIns, yields_bind.mpr ⟨_, _, adds, yields_bind.mpr
      ⟨⟨⟩, _, yields_modifyBlock.mpr rfl, ?_⟩⟩⟩
    rw [yields_get_bind, begunFilled.block]
    refine yields_bind.mpr ⟨_, _, grows, ?_⟩
    simp only [stop family has]
    exact yields_pure.mpr ⟨rfl, rfl⟩

/-- A block in the making can become a member if no other member has its id. -/
theorem exists_addMember (begun : Begun old ws block) (members : ∀ b ∈ old.members, b < old.blocks.size)
    (fresh : ∀ id, block.ownId = some id → ∀ b ∈ old.members, (old.block b).ownId ≠ some id) :
    Yields (addMember old.blocks.size) ws ⟨⟩ (ws.joined old.blocks.size) := by
  refine yields_addMember.mpr ⟨?_, fun id own => ?_, rfl⟩
  · rw [begun.members]
    exact fun member => Nat.lt_irrefl _ (members _ member)
  · rw [begun.block] at own
    rw [memberWithId?, begun.members, List.find?_eq_none]
    intro b member same
    have unchanged : ws.block b = old.block b := by
      rw [Workspace.block, begun.before b (members b member)]
      rfl
    rw [unchanged] at same
    exact fresh id own b member (by simpa using same)

/-- The block of a specification can be made if its rows can be counted and differ in name, and its id is
new. -/
theorem exists_buildBlock {spec : BlockSpec} {inputs : Rows BlockSpec String} (asValue : Bool)
    (stop : spec.stop = none) (distinct : inputs.labels.Nodup)
    (members : ∀ b ∈ ws.members, b < ws.blocks.size)
    (fresh : ∀ id, spec.ownId.filter (· ≠ "") = some id → ∀ b ∈ ws.members, (ws.block b).ownId ≠ some id) :
    ∃ b t, Yields (buildBlock spec asValue inputs) ws b t := by
  have begun := begun_makeBlock ws spec.type spec.ownId
  have begun :=
    begun.change (fun block => { block with mutation := block.mutation.update spec.mutation }) rfl rfl
  have first : ∃ made, Yields (if isKnownType spec.type then newBlock spec.type spec.ownId spec.mutation []
      else newUnknownBlock spec asValue inputs) ws ws.blocks.size made := by
    by_cases known : isKnownType spec.type
    · obtain ⟨kind, named⟩ := Option.isSome_iff_exists.mp known
      have counts : ∀ family, kind.shape.family = some family →
          (family.rows (Table.ofEntries spec.mutation)).2 = none := by
        intro family has
        simpa [BlockSpec.stop, named, has] using stop
      obtain ⟨_, shaped, shapes⟩ := exists_applyShape begun ⟨rfl, rfl, rfl, rfl⟩ named counts
      obtain ⟨_, block, _, begunShaped, _, _, _, own⟩ := begun_applyShape begun ⟨rfl, rfl, rfl, rfl⟩ shapes
      have begunFilled :=
        begunShaped.change (fun block => { block with fields := block.fields.update [] }) rfl rfl
      rw [if_pos known]
      unfold newBlock
      refine ⟨_, yields_atomically.mpr
        (yields_bind.mpr ⟨_, _, yields_makeBlock.mpr ⟨rfl, rfl⟩, yields_bind.mpr ⟨⟨⟩, _,
        yields_modifyBlock.mpr rfl, yields_bind.mpr
        ⟨_, _, shapes, yields_bind.mpr ⟨⟨⟩, _, yields_modifyBlock.mpr rfl,
        yields_bind.mpr ⟨_, _, exists_addMember begunFilled members ?_, yields_pure.mpr ⟨rfl, rfl⟩⟩⟩⟩⟩⟩)⟩
      rw [own]
      exact fresh
    · obtain ⟨_, plugged, plugIns⟩ :=
        exists_plugIn begun ⟨rfl, rfl⟩ (if asValue then .value none else .statement)
      obtain ⟨output, previous, next, begunPlugged, _⟩ := begun_plugIn begun ⟨rfl, rfl, rfl⟩ plugIns
      rw [← labels_inferredRows] at distinct
      obtain ⟨_, added, adds⟩ := exists_addRows begunPlugged distinct
      obtain ⟨rows, begunAdded, _⟩ := begun_addRows begunPlugged adds
      rw [if_neg known]
      unfold newUnknownBlock
      exact ⟨_, yields_bind.mpr ⟨_, _, yields_makeBlock.mpr ⟨rfl, rfl⟩, yields_bind.mpr ⟨⟨⟩, _,
        yields_modifyBlock.mpr rfl, yields_bind.mpr ⟨_, _, plugIns, yields_bind.mpr ⟨_, _, adds,
        yields_bind.mpr ⟨_, _, exists_addMember begunAdded members fresh, yields_pure.mpr ⟨rfl, rfl⟩⟩⟩⟩⟩⟩⟩
  obtain ⟨made, makes⟩ := first
  unfold buildBlock
  by_cases known : isKnownType spec.type
  · simp only [known, if_true] at makes ⊢
    exact ⟨_, _, yields_bind.mpr ⟨_, _, makes, yields_bind.mpr ⟨⟨⟩, _, yields_modifyBlock.mpr rfl,
      yields_pure.mpr ⟨rfl, rfl⟩⟩⟩⟩
  · simp only [known] at makes ⊢
    exact ⟨_, _, yields_bind.mpr ⟨_, _, makes, yields_bind.mpr ⟨⟨⟩, _, yields_modifyBlock.mpr rfl,
      yields_pure.mpr ⟨rfl, rfl⟩⟩⟩⟩

end Edit

end BlockCompiler
