import BlockCompiler.Proofs.Coupling.Restated
import BlockCompiler.Proofs.Document.Presented
import BlockCompiler.Proofs.Emission.Strict
import BlockCompiler.Proofs.Sorting.Placed

/-!
Presentation: what is compiled for a document does not depend on the order in which its blocks, inputs and
fields are written down, on the ids of blocks, nor on where blocks below others stand.
-/

namespace BlockCompiler

/-- The comparison of a run with one of the same blocks, whose fields and mutations may be in another
order. -/
def Coupling.presenting : Coupling where
  extra := false
  skips := false
  Heads := BlockHead.Alike false false
  Keeps _ := True
  alike alike := alike
  keeps := @keeps_nothing

theorem BlockSpec.SaysSame.alike {spec other : BlockSpec} (same : spec.SaysSame other) (asValue : Bool) :
    BlockHead.Alike false false (spec.head asValue) (other.head asValue) where
  type := .inl same.type
  disabled := same.disabled
  hasOutput := congrArg Plug.isValue (same.toShaped.kindred.plug asValue)
  inline := rfl
  field := same.field
  mutation := same.mutation
  comment := same.comment

section Pairs

variable {ws bare : Workspace}

/-- Blocks at the top of two workspaces say the same and stand at the same place. -/
def Workspace.SaysSame (ws bare : Workspace) (tops : List StackSpec) (b d : Nat) : Prop :=
  ∃ top ∈ tops, ∃ top', ws.HasTop b top ∧ bare.HasTop d top' ∧ top.SaysSame top'

theorem Workspace.SaysSame.position? {tops : List StackSpec} {b d : Nat} (same : ws.SaysSame bare tops b d) :
    (bare.block d).position? = (ws.block b).position? := by
  obtain ⟨_, _, _, hasTop, hasTop', _, stands⟩ := same
  obtain ⟨_, _, _, rfl, renders⟩ := hasTop.root
  obtain ⟨_, _, _, rfl, renders'⟩ := hasTop'.root
  cases stands with
  | some placed =>
    rw [Block.position?, Block.position?, renders.position.1, renders.position.2, renders'.position.1,
      renders'.position.2, placed.1, placed.2]

/-- Stacks that say the same pair up the blocks they start with. -/
theorem saysSame_numbers {tops arranged tops' : List StackSpec} {numbers numbers' : List Nat}
    (shown : List.Forall₂ ws.HasTop numbers arranged) (same : List.Forall₂ Stack.SaysSame arranged tops')
    (shown' : List.Forall₂ bare.HasTop numbers' tops') (among : ∀ top ∈ arranged, top ∈ tops) :
    List.Forall₂ (ws.SaysSame bare tops) numbers numbers' := by
  induction shown generalizing tops' numbers' with
  | nil =>
    cases same
    cases shown'
    exact .nil
  | cons hasTop _ ih =>
    obtain _ | ⟨first, rest⟩ := same
    obtain _ | ⟨hasTop', others'⟩ := shown'
    obtain ⟨inside, insideRest⟩ := List.forall_mem_cons.mp among
    exact .cons ⟨_, inside, _, hasTop, hasTop', first⟩ (ih rest others' insideRest)

/-- The blocks at the top of two workspaces pair up, those of the first in some order. -/
theorem exists_pairs {tops arranged tops' : List StackSpec} {numbers numbers' : List Nat}
    (shown : List.Forall₂ ws.HasTop numbers tops) (perm : tops.Perm arranged)
    (same : List.Forall₂ Stack.SaysSame arranged tops') (shown' : List.Forall₂ bare.HasTop numbers' tops') :
    ∃ pairs : List (Nat × Nat), numbers.Perm (pairs.map (·.1)) ∧ numbers' = pairs.map (·.2) ∧
      ∀ pair ∈ pairs, ws.SaysSame bare tops pair.1 pair.2 := by
  have rearranged : Relation.Comp (List.Forall₂ ws.HasTop) List.Perm numbers arranged := ⟨_, shown, perm⟩
  rw [List.forall₂_comp_perm_eq_perm_comp_forall₂] at rearranged
  obtain ⟨order, perm', shownThere⟩ := rearranged
  have related := saysSame_numbers shownThere same shown' fun top member => perm.mem_iff.mpr member
  have length := related.length_eq
  refine ⟨order.zip numbers', ?_, ?_, fun pair member => List.forall₂_zip related member⟩
  · rwa [List.map_fst_zip length.le]
  · exact (List.map_snd_zip length.ge).symm

end Pairs

section Compiled

variable {strict : Bool} {oneBased : Option Bool} {data other : Json} {document : Document} {ws : Workspace}

/-- The variables of a workspace are those that are declared in the document, if all that are used are among
them. -/
theorem Workspace.Loads.declared_eq (loads : ws.Loads oneBased document)
    (all : ∀ top ∈ document.tops, ∀ used ∈ top.used, lower used.name ∈ document.declared.map fun known =>
      lower known.name) :
    ws.declared = declareAll [] document.declared := by
  rw [loads.declared, declareAll_append]
  refine declareAll_of_declared fun used member => ?_
  obtain ⟨top, among, inside⟩ := List.mem_flatMap.mp member
  obtain ⟨known, isKnown, same⟩ := List.mem_map.mp (all top among used inside)
  rw [← same]
  exact declared_of_wanted isKnown

/-- The source of a document that is presented in another way. -/
theorem Emitter.source_presented {emitter : Emitter} (templates : emitter.templates = knownTemplates)
    (loads : ws.Loads oneBased document)
    (described : document.DescribedBy strict data) (presents : data.Presents other)
    (known : ∀ top ∈ data.tops, top.IsKnown)
    (proper : data.All Json.IsProper) (proper' : other.All Json.IsProper)
    (distinct : (other.tops.flatMap Json.ids).Nodup) (apart : ws.Apart)
    (all : ∀ top ∈ document.tops, ∀ used ∈ top.used, lower used.name ∈ document.declared.map fun known =>
      lower known.name) :
    ∃ bare, loadWorkspace strict oneBased other = .ok bare ∧
    (emitter.source bare).1 = (emitter.source ws).1 := by
  obtain ⟨document', bare, loaded, loadsBare, declared, base, arranged, perm, same⟩ :=
    loads.exists_presented described presents known proper proper' distinct
  refine ⟨bare, loaded, ?_⟩
  obtain ⟨pairs, tops, tops', each⟩ := exists_pairs loads.shown perm same loadsBare.shown
  rw [← loads.tops] at tops
  rw [← loadsBare.tops] at tops'
  obtain ⟨sorted, perm', ordered, orderedBare⟩ :=
    apart.exists_ordered tops tops' fun pair member => (each pair member).position?
  have allBare : ∀ top ∈ document'.tops, ∀ used ∈ top.used,
      lower used.name ∈ document'.declared.map fun known => lower known.name := by
    intro top' member used uses
    obtain ⟨top, among, restates, _⟩ := exists_related same.flip member
    have inside := perm.mem_iff.mpr among
    obtain ⟨spec', isHead', uses⟩ := (top'.mem_used used).mp uses
    obtain ⟨spec, isHead, alike⟩ := (loads.builds top inside).2.2.exists_head restates isHead'
    rw [declared]
    refine all top inside used ((top.mem_used used).mpr ⟨spec, isHead, ?_⟩)
    rwa [BlockContent.used, ← alike.field]
  have declaredBare : bare.declared = ws.declared := by
    rw [loads.declared_eq all, loadsBare.declared_eq allBare, declared]
  have baseBare : bare.oneBased = ws.oneBased := by rw [loadsBare.base, loads.base, base]
  have agree : Coupling.presenting.Agree (SameText false) (emitter.emitTops ws) (emitter.emitTops bare) := by
    refine Coupling.agree_emitTops_pairs ordered orderedBare fun pair member => ?_
    have among := perm'.mem_iff.mp member
    obtain ⟨top, inside, top', hasTop, hasTop', restates, _⟩ := each pair among
    exact loads.agree_tops described proper
      (Coupling.emitters_of_known templates templates (.inl rfl)) templates rfl
      (fun same => same.toShaped.kindred) BlockSpec.SaysSame.alike inside hasTop hasTop'
        (tops.mem_iff.mpr (List.mem_map_of_mem among)) restates
  exact Coupling.eq_of_sameResult rfl rfl rfl
    (Coupling.sameResult_of_agree rfl trivial declaredBare baseBare agree)

/-- Presentation does not matter: a document is accepted if it is accepted when it is presented in another
way, and the same text is compiled. Ids matter only if two blocks have the same. -/
theorem compile_presented (presents : data.Presents other) (proper : data.All Json.IsProper)
    (proper' : other.All Json.IsProper)
    (known : ∀ place object type, data.block? place = some object →
    object.member? "type" = some (.text type) → isKnownType type)
    (ids : (other.tops.flatMap Json.ids).Nodup ↔ (data.tops.flatMap Json.ids).Nodup) :
    ((∃ bare, loadWorkspace strict oneBased other = .ok bare) ↔
      ∃ ws, loadWorkspace strict oneBased data = .ok ws) ∧
      ∀ document unknown ws, Document.ofJson strict data = .ok (document, unknown) →
        document.toWorkspace oneBased = .ok ws → ws.Apart →
        (∀ top ∈ document.tops, ∀ used ∈ top.used, lower used.name ∈ document.declared.map fun known =>
          lower known.name) →
        compile strict oneBased other = compile strict oneBased data := by
  have isKnown := Json.isKnown_tops.mpr known
  refine ⟨⟨?_, ?_⟩, fun document unknown ws read built apart all => ?_⟩
  · rintro ⟨bare, loaded⟩
    exact exists_loadWorkspace_presented presents.symm (presents.isKnown isKnown) proper' proper ids.mp loaded
  · rintro ⟨ws, loaded⟩
    exact exists_loadWorkspace_presented presents isKnown proper proper' ids.mpr loaded
  · obtain ⟨described, distinct⟩ := ofJson_iff.mp ⟨unknown, read⟩
    have loaded := loadWorkspace_ok.mpr ⟨document, described, distinct, built⟩
    have templates : ({ strict } : Emitter).templates = knownTemplates := rfl
    obtain ⟨bare, loaded', same⟩ :=
      Emitter.source_presented templates (loads_toWorkspace described.full built) described presents isKnown
        proper proper' (ids.mpr (described.ids ▸ distinct)) apart all
    unfold compile
    rw [loaded, loaded']
    dsimp only
    rw [same]

/-- A sum and a variable change places. In the sum the numbers change places as well, and one of them is moved
and loses its id. -/
theorem compile_presented_sum :
    let one :=
      Json.object [("type", .text "math_number"), ("id", .text "one"), ("fields", .object [("NUM", .int 1)])]
    let moved :=
      Json.object [("type", .text "math_number"), ("fields", .object [("NUM", .int 1)]), ("x", .int 5)]
    let two :=
      Json.object [("type", .text "math_number"), ("id", .text "two"), ("fields", .object [("NUM", .int 2)])]
    let sum :=
      Json.object [("type", .text "math_arithmetic"), ("y", .int 2),
        ("inputs", .object [("A", one), ("B", two)])]
    let turned :=
      Json.object [("type", .text "math_arithmetic"), ("y", .int 2),
        ("inputs", .object [("B", two), ("A", moved)])]
    let total :=
      Json.object [("type", .text "variables_get"), ("y", .int 1),
        ("fields", .object [("VAR", .text "Total")])]
    let declared := Json.list [.object [("name", .text "total")]]
    let data := Json.object [("name", .text "sums"), ("variables", declared), ("blocks", .list [sum, total])]
    let other :=
      Json.object [("name", .text "sums"), ("variables", declared), ("blocks", .list [total, turned])]
    ∃ document unknown ws, data.Presents other ∧ data.All Json.IsProper ∧ other.All Json.IsProper ∧
      (∀ place object type, data.block? place = some object → object.member? "type" = some (.text type) →
        isKnownType type) ∧
      ((other.tops.flatMap Json.ids).Nodup ↔ (data.tops.flatMap Json.ids).Nodup) ∧
      Document.ofJson false data = .ok (document, unknown) ∧ document.toWorkspace none = .ok ws ∧ ws.Apart ∧
      (∀ top ∈ document.tops, ∀ used ∈ top.used, lower used.name ∈ document.declared.map fun known =>
        lower known.name) ∧
      ((∃ bare, loadWorkspace false none other = .ok bare) ↔ ∃ ws, loadWorkspace false none data = .ok ws) ∧
      compile false none other = compile false none data := by
  intro one moved two sum turned total declared data other
  have proper : data.All Json.IsProper := by
    simp [data, sum, total, one, two, declared, Json.All, Json.AllMembers, Json.AllItems,
      Json.IsProper, Table.keys]
  have proper' : other.All Json.IsProper := by
    simp [other, turned, total, moved, two, declared, Json.All, Json.AllMembers, Json.AllItems,
      Json.IsProper, Table.keys]
  have refl := rel_refl Json.Permutes.refl
  have sameOne : one.SaysSame false moved := by
    refine Json.saysSame_iff.mpr ⟨⟨rfl, fun key own => ?_, refl _, refl _, .none, rfl, by decide, by simp⟩,
      fun turn => ?_⟩
    · simp only [List.mem_cons, List.not_mem_nil, or_false, not_or] at own
      simp only [one, moved, Json.member?, Json.members, Table.get?, Ne.symm own.1, Ne.symm own.2.1,
        Ne.symm own.2.2.2.2.2.1, if_false]
    · cases turn <;> exact .none
  have sameSum : sum.SaysSame true turned := by
    refine Json.saysSame_iff.mpr
      ⟨⟨rfl, fun key own => ?_, refl _, refl _, .some ⟨rfl, .swap ..⟩, rfl, by decide, fun _ key among => ?_⟩,
      fun turn => ?_⟩
    · simp only [List.mem_cons, List.not_mem_nil, or_false, not_or] at own
      simp only [sum, turned, Json.member?, Json.members, Table.get?, Ne.symm own.2.2.2.1, if_false]
    · simp only [List.mem_cons, List.not_mem_nil, or_false] at among
      rcases among with rfl | rfl <;> rfl
    · cases turn with
      | next => exact .none
      | input name =>
        show Option.Rel _ (Table.get? [("A", one), ("B", two)] name)
          (Table.get? [("B", two), ("A", moved)] name)
        simp only [Table.get?]
        split_ifs with first second
        · exact absurd (first.trans second.symm) (by decide)
        · exact .some sameOne
        · exact .some (.refl _ _)
        · exact .none
  have presents : data.Presents other := by
    refine ⟨rfl, fun key own => ?_,
      .inr ⟨_, [total, sum], _, rfl, rfl, .swap .., .cons (.refl _ _) (.cons sameSum .nil)⟩⟩
    simp only [data, other, Json.member?, Json.members, Table.get?, Ne.symm own, if_false]
  have ids : (other.tops.flatMap Json.ids).Nodup ↔ (data.tops.flatMap Json.ids).Nodup :=
    iff_of_true (show ["two"].Nodup by decide) (show ["one", "two"].Nodup by decide)
  let number : BlockSpec := { type := "math_number", ownId := some "one", fields := [("NUM", .int 1)] }
  let adds : BlockSpec := { type := "math_arithmetic", y := .int 2 }
  let reads : BlockSpec := { type := "variables_get", y := .int 1, fields := [("VAR", .text "Total")] }
  let document : Document :=
    { name := "sums"
      declared := [{ name := "total" }]
      tops := [.block adds (.cons "A" (.block number .nil .empty)
        (.cons "B" (.block { number with ownId := some "two", fields := [("NUM", .int 2)] } .nil .empty)
        .nil)) .empty, .block reads .nil .empty] }
  have read : Document.ofJson false data = .ok (document, []) := by rfl
  have holds : (document.toWorkspace none).toOption.any fun ws =>
      (List.range ws.blocks.size).all (fun b => isKnownType (ws.block b).type) &&
        ws.topBlocks.map (fun b => (ws.block b).position?) =
          [(.int 2, .int 0), (.int 1, .int 0)].map some := by decide +kernel
  obtain ⟨ws, built, holds⟩ := exists_ok_of_any holds
  simp only [Bool.and_eq_true, List.all_eq_true, List.mem_range, decide_eq_true_eq] at holds
  obtain ⟨isKnown, placed⟩ := holds
  have apart : ws.Apart := ⟨_, placed, by decide⟩
  obtain ⟨described, distinct⟩ := ofJson_iff.mp ⟨[], read⟩
  have known :=
    (isKnown_loadWorkspace (loadWorkspace_ok.mpr ⟨document, described, distinct, built⟩)).mp isKnown
  have used : ∀ top ∈ document.tops, ∀ used ∈ top.used, lower used.name ∈ document.declared.map fun known =>
      lower known.name := by
    decide +kernel
  obtain ⟨accepted, same⟩ := compile_presented presents proper proper' known ids
  exact ⟨document, [], ws, presents, proper, proper', known, ids, read, built, apart, used, accepted,
    same document [] ws read built apart used⟩

/-- Two blocks with one id are rejected. Without the ids they are accepted. -/
theorem presents_without_ids :
    let named := Json.object [("type", .text "text"), ("id", .text "word")]
    let unnamed := Json.object [("type", .text "text")]
    let first :=
      Json.object [("type", .text "text_print"), ("id", .text "word"), ("inputs", .object [("TEXT", named)])]
    let second := Json.object [("type", .text "text_print"), ("inputs", .object [("TEXT", unnamed)])]
    let data := Json.object [("name", .text "twice"), ("blocks", .list [first])]
    let other := Json.object [("name", .text "twice"), ("blocks", .list [second])]
    data.Presents other ∧ data.All Json.IsProper ∧ other.All Json.IsProper ∧
      (∀ place object type, data.block? place = some object → object.member? "type" = some (.text type) →
        isKnownType type) ∧
      (∀ ws, loadWorkspace false none data ≠ .ok ws) ∧
      ∃ document unknown bare, Document.ofJson false other = .ok (document, unknown) ∧
        document.toWorkspace none = .ok bare ∧ bare.Apart ∧
        ∀ top ∈ document.tops, top.used = [] := by
  intro named unnamed first second data other
  have proper : data.All Json.IsProper := by
    simp [data, first, named, Json.All, Json.AllMembers, Json.AllItems, Json.IsProper, Table.keys]
  have proper' : other.All Json.IsProper := by
    simp [other, second, unnamed, Json.All, Json.AllMembers, Json.AllItems, Json.IsProper, Table.keys]
  have sameWord : named.SaysSame false unnamed := by
    refine Json.saysSame_iff.mpr ⟨⟨rfl, fun key own => ?_, .none, .none, .none, rfl, by decide, by simp⟩,
      fun turn => ?_⟩
    · simp only [List.mem_cons, List.not_mem_nil, or_false, not_or] at own
      simp only [named, unnamed, Json.member?, Json.members, Table.get?, Ne.symm own.1, if_false]
    · cases turn <;> exact .none
  have sameFirst : first.SaysSame true second := by
    refine Json.saysSame_iff.mpr
      ⟨⟨rfl, fun key own => ?_, .none, .none, .some ⟨rfl, .refl _⟩, rfl, by decide, fun _ key among => ?_⟩,
      fun turn => ?_⟩
    · simp only [List.mem_cons, List.not_mem_nil, or_false, not_or] at own
      simp only [first, second, Json.member?, Json.members, Table.get?, Ne.symm own.1,
        Ne.symm own.2.2.2.1, if_false]
    · simp only [List.mem_cons, List.not_mem_nil, or_false] at among
      rcases among with rfl | rfl <;> rfl
    · cases turn with
      | next => exact .none
      | input name =>
        show Option.Rel _ (Table.get? [("TEXT", named)] name) (Table.get? [("TEXT", unnamed)] name)
        simp only [Table.get?]
        split_ifs
        · exact .some sameWord
        · exact .none
  have presents : data.Presents other := by
    refine ⟨rfl, fun key own => ?_, .inr ⟨_, [first], _, rfl, rfl, .refl _, .cons sameFirst .nil⟩⟩
    simp only [data, other, Json.member?, Json.members, Table.get?, Ne.symm own, if_false]
  have rejected : ∀ ws, loadWorkspace false none data ≠ .ok ws := by
    intro ws loaded
    obtain ⟨document, described, distinct, _⟩ := loadWorkspace_ok.mp loaded
    rw [← described.ids] at distinct
    exact absurd distinct (show ¬ ["word", "word"].Nodup by decide)
  let document : Document :=
    { name := "twice", tops :=
      [.block { type := "text_print" } (.cons "TEXT" (.block { type := "text" } .nil .empty) .nil) .empty] }
  have read : Document.ofJson false other = .ok (document, []) := by rfl
  have holds : (document.toWorkspace none).toOption.any fun bare =>
      (List.range bare.blocks.size).all (fun b => isKnownType (bare.block b).type) &&
        bare.topBlocks.map (fun b => (bare.block b).position?) = [(.int 0, .int 0)].map some := by
          decide +kernel
  obtain ⟨bare, built, holds⟩ := exists_ok_of_any holds
  simp only [Bool.and_eq_true, List.all_eq_true, List.mem_range, decide_eq_true_eq] at holds
  obtain ⟨isKnown, placed⟩ := holds
  obtain ⟨described, distinct⟩ := ofJson_iff.mp ⟨[], read⟩
  have known :=
    (isKnown_loadWorkspace (loadWorkspace_ok.mpr ⟨document, described, distinct, built⟩)).mp isKnown
  exact ⟨presents, proper, proper',
    Json.isKnown_tops.mp (presents.symm.isKnown (Json.isKnown_tops.mpr known)), rejected,
    document, [], bare, read, built, ⟨_, placed, by decide⟩, by decide +kernel⟩

end Compiled

end BlockCompiler
