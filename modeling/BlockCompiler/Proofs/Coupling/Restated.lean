import BlockCompiler.Proofs.Coupling.Sources
import BlockCompiler.Proofs.Document.Restated
import BlockCompiler.Proofs.Document.Edited

/-!
Documents that are written down in another way, and what is compiled for them. For a document in which each
block is edited it corresponds to what is compiled for the document, if the blocks correspond and are at the
same places.
-/

namespace BlockCompiler

/-- The head of the block that is compiled for a block as written down. -/
def BlockSpec.head (spec : BlockSpec) (asValue : Bool) : BlockHead :=
  { spec.content with hasOutput := (spec.plug asValue).isValue, inline := asValue }

section Pairs

variable {c : Coupling} {R : BlockSpec → BlockSpec → Prop}

mutual

/-- A stack that is written down in two ways gives two corresponding stacks. -/
theorem Stack.Builds.paired (all : c.skips = false)
    (shapes : ∀ {spec other}, R spec other → spec.Kindred other)
    (heads : ∀ {spec other}, R spec other → ∀ asValue, c.Heads (spec.head asValue) (other.head asValue))
    {asValue : Bool} {stack other : StackSpec} (builds : stack.Builds asValue)
    (restates : stack.Restates R other) :
    (stack.shown asValue).PairedBy c (other.shown asValue) := by
  match stack with
  | .empty =>
    obtain rfl : other = .empty := restates
    rw [Stack.shown]
    rfl
  | .block spec inputs next =>
    obtain ⟨_, distinct, into, _, below⟩ := builds
    obtain ⟨spec', inputs', next', rfl, related, perm, same, inside, after⟩ := restates
    rw [Stack.shown, Stack.shown]
    refine .inr ⟨_, _, _, rfl, heads related asValue, ?_, below.paired all shapes heads after⟩
    rw [inside.rows shapes (shapes related) distinct same]
    refine Rows.pairedBy_ofList fun row member =>
      ⟨into.vacant (find?_of_nodup (nodup_rows distinct) member), ?_, ?_⟩
    · intro skips
      rw [all] at skips
      cases skips
    · cases here : inputs.find? row.1 with
      | none =>
        have absent : row.1 ∉ inputs.labels := by rw [← Rows.find?_isSome, here]; simp
        rw [Rows.shownIn_of_unlabelled absent, Rows.shownIn_of_unlabelled (mt perm.mem_iff.mp absent)]
        rfl
      | some entry =>
        exact into.paired all shapes heads inside (find?_of_nodup (nodup_rows distinct) member) here

theorem Rows.BuildsInto.paired (all : c.skips = false)
    (shapes : ∀ {spec other}, R spec other → spec.Kindred other)
    (heads : ∀ {spec other}, R spec other → ∀ asValue, c.Heads (spec.head asValue) (other.head asValue))
    {inputs others : Rows BlockSpec String} {specs : List RowSpec} (into : inputs.BuildsInto specs)
    (restated : inputs.RestatedIn R others) {row : RowSpec} (search : specs.find? (·.1 = row.1) = some row)
    {entry : Nat × StackSpec} (here : inputs.find? row.1 = some entry) :
    (inputs.shownIn row.head).PairedBy c (others.shownIn row.head) := by
  match inputs with
  | .nil => cases here
  | .cons label first rest =>
    obtain ⟨⟨spec, found, _, builds⟩, intoRest⟩ := into
    obtain ⟨⟨j, counterpart, there, restates⟩, later⟩ := restated
    rw [Rows.shownIn]
    rcases Rows.find?_cons here with ⟨rfl, _, _⟩ | ⟨differ, _, below, _⟩
    · obtain rfl : row = spec := Option.some.inj (search.symm.trans found)
      have shown : others.shownIn row.head = counterpart.shown (row.head.kind = .value) :=
        Rows.shownIn_of_find? there
      rw [if_pos (show row.head.name = row.1 from rfl), shown]
      exact builds.paired all shapes heads restates
    · have differ : row.head.name ≠ label := Ne.symm differ
      rw [if_neg differ]
      exact intoRest.paired all shapes heads later search below

end

end Pairs

section Tops

variable {c : Coupling} {R : BlockSpec → BlockSpec → Prop} {strict : Bool} {oneBased : Option Bool}
  {data : Json} {document : Document} {emitter other : Emitter} {ws bare : Workspace}

/-- The code for a stack at the top corresponds to the code for the same stack in another way. -/
theorem Workspace.Loads.agree_tops (loads : ws.Loads oneBased document)
    (described : document.DescribedBy strict data) (proper : data.All Json.IsProper)
    (emitters : c.Emitters emitter other) (templates : emitter.templates = knownTemplates)
    (all : c.skips = false) (shapes : ∀ {spec other}, R spec other → spec.Kindred other)
    (heads : ∀ {spec other}, R spec other → ∀ asValue, c.Heads (spec.head asValue) (other.head asValue))
    {b d : Nat} {top top' : StackSpec} (among : top ∈ document.tops) (hasTop : ws.HasTop b top)
    (hasTop' : bare.HasTop d top') (member : b ∈ ws.topBlocks) (restates : top.Restates R top') :
    c.Tops emitter other ws bare b (some d) := by
  obtain ⟨rows, next, stack, loose, ready, fits⟩ :=
    loads.ready described proper False.elim (fun known : false = true => by cases known) member
  have paired := (loads.builds top among).2.2.paired all shapes heads restates
  rw [← Option.some.inj (stack.symm.trans hasTop.stack)] at paired
  refine Coupling.agree_emitTop emitters templates (.inr ⟨all, rfl⟩) stack loose ready fits
    hasTop'.stack ?_ paired
  obtain ⟨spec, inputs, next, rfl, renders⟩ := hasTop.root
  obtain ⟨spec', inputs', next', rfl, renders'⟩ := hasTop'.root
  have first := restates.head?
  cases first with
  | some related => rw [renders'.plugs.isSome_output, renders.plugs.isSome_output, (shapes related).plug]

end Tops

section Order

variable {ws bare : Workspace}

/-- The order of the top blocks depends on where the blocks stand. -/
theorem Workspace.orderedTopBlocks?_congr (tops : bare.topBlocks = ws.topBlocks)
    (placed : ∀ b, (bare.block b).x = (ws.block b).x ∧ (bare.block b).y = (ws.block b).y) :
    bare.orderedTopBlocks? = ws.orderedTopBlocks? := by
  have positions : ∀ b, (bare.block b).position? = (ws.block b).position? := by
    intro b
    rw [Block.position?, Block.position?, (placed b).1, (placed b).2]
  have before : ∀ a b, (bare.block a).standsBefore? (bare.block b) =
      (ws.block a).standsBefore? (ws.block b) := by
    intro a b
    rw [Block.standsBefore?, Block.standsBefore?, (placed a).1, (placed a).2, (placed b).1, (placed b).2]
  unfold Workspace.orderedTopBlocks?
  simp only [tops, positions, before]

end Order

section Loads

variable {strict : Bool} {oneBased : Option Bool} {data : Json} {document : Document} {ws bare : Workspace}
  {emitter : Emitter} {f : BlockSpec → BlockSpec}

/-- The blocks of a document and of the edited one are made one by one from the same specifications. -/
theorem Workspace.Loads.makes_edited (loads : ws.Loads oneBased document)
    (loadsBare : bare.Loads oneBased (document.edited f)) :
    bare.blocks.size = ws.blocks.size ∧ ∀ b < ws.blocks.size, ∃ spec ∈ document.tops.flatMap Stack.heads,
      ws.Makes b spec ∧ bare.Makes b (f spec) := by
  have heads : (document.edited f).tops.flatMap Stack.heads = (document.tops.flatMap Stack.heads).map f := by
    rw [Document.edited, List.flatMap_map, List.map_flatMap]
    exact List.flatMap_congr fun top _ => Stack.heads_edited top
  have blocks := loads.blocks
  have blocksBare := loadsBare.blocks
  rw [heads] at blocksBare
  have size := blocks.length_eq
  have sizeBare := blocksBare.length_eq
  rw [List.length_range] at size
  rw [List.length_range, List.length_map, ← size] at sizeBare
  refine ⟨sizeBare, fun b inside => ?_⟩
  rw [sizeBare] at blocksBare
  exact (exists_related (forall₂_and blocks (List.forall₂_map_right_iff.mp blocksBare))
    (List.mem_range.mpr inside))

/-- Blocks stand where they stand in the edited document. -/
theorem Workspace.Loads.placed_edited (loads : ws.Loads oneBased document)
    (loadsBare : bare.Loads oneBased (document.edited f))
    (placed : ∀ spec, (f spec).x = spec.x ∧ (f spec).y = spec.y) (b : Nat) :
    (bare.block b).x = (ws.block b).x ∧ (bare.block b).y = (ws.block b).y := by
  obtain ⟨size, makes⟩ := loads.makes_edited loadsBare
  by_cases inside : b < ws.blocks.size
  · obtain ⟨spec, _, ⟨_, _, renders⟩, ⟨_, _, rendersBare⟩⟩ := makes b inside
    rw [renders.position.1, renders.position.2, rendersBare.position.1, rendersBare.position.2]
    exact placed spec
  · have missing : ∀ {t : Workspace}, t.blocks.size = ws.blocks.size → t.block b = default := by
      intro t same
      rw [Workspace.block, Array.getElem?_eq_none (by omega)]
      rfl
    rw [missing size, missing rfl]
    exact ⟨rfl, rfl⟩

/-- A stack at the top, and the same with edited blocks. -/
theorem Workspace.Loads.top_edited (loads : ws.Loads oneBased document)
    (loadsBare : bare.Loads oneBased (document.edited f)) {b : Nat} (member : b ∈ ws.topBlocks) :
    ∃ top ∈ document.tops, ws.HasTop b top ∧ bare.HasTop b (top.edited f) := by
  have shown := loads.shown
  have shownBare := loadsBare.shown
  simp only [Document.edited, starts_edited] at shownBare
  have both := forall₂_and shown (List.forall₂_map_right_iff.mp shownBare)
  rw [loads.tops] at member
  exact exists_related both member

/-- The source of a loaded workspace corresponds to that of the edited document if each block corresponds to
its edited one. -/
theorem Workspace.Loads.sameResult_edited {c : Coupling} (templates : emitter.templates = knownTemplates)
    (loads : ws.Loads oneBased document) (loadsBare : bare.Loads oneBased (document.edited f))
    (described : document.DescribedBy strict data)
    (proper : data.All Json.IsProper) (all : c.skips = false) (firm : c.lax = false)
    (keeps : c.Keeps (emitter.start ws))
    (alike : c.counts = id) (placed : ∀ spec, (f spec).x = spec.x ∧ (f spec).y = spec.y)
    (uses : ∀ spec : BlockSpec, (f spec).content.used = spec.content.used)
    (kindred : ∀ spec : BlockSpec, spec.Kindred (f spec))
    (heads : ∀ spec ∈ document.tops.flatMap Stack.heads, ∀ asValue,
    c.Heads (spec.head asValue) ((f spec).head asValue)) :
    SameResult c.Errors (SameText c.extra) (emitter.source ws).1 (emitter.source bare).1 := by
  obtain ⟨order, ordered, perm⟩ := exists_orderedTopBlocks? (loads.placed described proper)
  have tops : bare.topBlocks = ws.topBlocks := by
    rw [loadsBare.tops, loads.tops, Document.edited, starts_edited]
  have orderedBare :=
    (Workspace.orderedTopBlocks?_congr tops (loads.placed_edited loadsBare placed)).trans ordered
  have declared : bare.declared = ws.declared := by
    rw [loadsBare.declared, loads.declared, Document.edited, List.flatMap_map]
    exact congrArg _ (congrArg _ (List.flatMap_congr fun top _ => top.used_edited uses))
  have agree : c.Agree (SameText c.extra) (emitter.emitTops ws) (emitter.emitTops bare) := by
    refine Coupling.agree_emitTops_each ordered orderedBare fun b among => ?_
    have top := perm.mem_iff.mp among
    obtain ⟨stack, inside, here, there⟩ := loads.top_edited loadsBare top
    let Edits : BlockSpec → BlockSpec → Prop :=
      fun spec other => other = f spec ∧ spec ∈ document.tops.flatMap Stack.heads
    have restates : stack.Restates Edits (stack.edited f) :=
      (loads.builds stack inside).2.2.restates_edited fun spec member =>
      ⟨rfl, List.mem_flatMap.mpr ⟨stack, inside, member⟩⟩
    refine loads.agree_tops described proper (Coupling.emitters_of_known templates templates (.inl rfl))
      templates all ?_ ?_ inside here there
      top restates
    · rintro spec _ ⟨rfl, _⟩
      exact kindred spec
    · rintro spec _ ⟨rfl, member⟩
      exact heads spec member
  exact Coupling.sameResult_of_agree firm keeps declared (loadsBare.base.trans loads.base.symm) agree alike

end Loads

end BlockCompiler
