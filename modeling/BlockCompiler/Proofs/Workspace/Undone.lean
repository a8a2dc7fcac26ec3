import BlockCompiler.Proofs.Workspace.Lawful

/-!
Operations that fail and links that are undone. An operation that fails changes nothing: even a new block that
cannot be shaped leaves all others alone before it is given up. A link is the same from either end, and
unlinking either end brings back the workspace from before.
-/

namespace BlockCompiler

namespace Workspace

variable {old ws : Workspace} {b : Nat}

/-- A workspace with more blocks and connections behind those of an old one, and alike in all else. -/
structure Extends (ws old : Workspace) : Prop where
  blocks : old.blocks.toList <+: ws.blocks.toList
  connections : old.connections.toList <+: ws.connections.toList
  rest : { ws with blocks := old.blocks, connections := old.connections } = old

theorem Extends.refl (ws : Workspace) : ws.Extends ws := ⟨List.prefix_rfl, List.prefix_rfl, rfl⟩

theorem Extends.withBlock (more : ws.Extends old) (block : Block) :
    Extends { ws with blocks := ws.blocks.push block } old where
  blocks := by
    rw [Array.toList_push]
    exact more.blocks.trans (List.prefix_append ..)
  connections := more.connections
  rest := more.rest

theorem Extends.withConnection (more : ws.Extends old) (owner : Nat) (kind : ConnectionKind)
    (check : TypeCheck) :
    (ws.withConnection owner kind check).Extends old where
  blocks := more.blocks
  connections := by
    rw [Workspace.withConnection, Array.toList_push]
    exact more.connections.trans (List.prefix_append ..)
  rest := more.rest

/-- A block that the old workspace does not have may change. -/
theorem Extends.change (more : ws.Extends old) (newer : old.blocks.size ≤ b) (f : Block → Block) :
    (ws.change b f).Extends old where
  blocks := by
    rw [Workspace.change, Array.toList_modify, List.prefix_iff_getElem?]
    intro n bound
    have other : b ≠ n := by
      rw [Array.length_toList] at bound
      omega
    rw [List.getElem?_modify]
    simp only [if_neg other]
    exact (Option.map_id' ..).trans (List.prefix_iff_getElem?.mp more.blocks n bound)
  connections := more.connections
  rest := more.rest

theorem Extends.withRow (more : ws.Extends old) (newer : old.blocks.size ≤ b) (name : String)
    (kind : RowKind) (check : TypeCheck) :
    (ws.withRow b name kind check).Extends old := by
  unfold Workspace.withRow
  split
  · exact (more.withConnection ..).change newer _
  · exact more.change newer _

end Workspace

namespace Edit

open Workspace

variable {old ws t : Workspace} {b : Nat}

/-- To maintain a property, an edit that retreats need only have it where it succeeds. -/
theorem maintains_of_retreats {α : Type} {P : Workspace → Prop} {edit : Edit α}
    (retreats : ∀ ws, edit.Retreats ws) (kept : ∀ ws a t, P ws → Yields edit ws a t → P t) :
    Maintains P edit := by
  intro ws holds
  rcases retreats ws with ⟨a, t, yields⟩ | ⟨error, fails⟩
  · rw [yields]
    exact kept ws a t holds yields
  · rw [fails]
    exact holds

section Newer

variable (newer : old.blocks.size ≤ b)
include newer

theorem maintains_modifyBlock (f : Block → Block) : Maintains (·.Extends old) (modifyBlock b f) :=
  maintains_modify fun _ more => more.change newer f

theorem maintains_addRow (name : String) (kind : RowKind) (check : TypeCheck) :
    Maintains (·.Extends old) (addRow b name kind check) := by
  refine maintains_of_retreats (fun _ => retreats_addRow ..) fun ws _ t more added => ?_
  obtain ⟨_, rfl⟩ := yields_addRow.mp added
  exact more.withRow newer ..

theorem maintains_addRows (specs : List RowSpec) : Maintains (·.Extends old) (addRows b specs) := by
  induction specs with
  | nil => exact maintains_pure ()
  | cons spec rest ih => exact (maintains_addRow newer _ _ _).bind fun _ => ih

theorem maintains_setOutput (check : TypeCheck) : Maintains (·.Extends old) (setOutput b check) := by
  refine maintains_of_retreats (fun _ => retreats_setOutput ..) fun ws _ t more given => ?_
  obtain ⟨_, rfl⟩ := yields_setOutput.mp given
  exact (more.withConnection ..).change newer _

theorem maintains_setPrevious (check : TypeCheck) : Maintains (·.Extends old) (setPrevious b check) := by
  refine maintains_of_retreats (fun _ => retreats_setPrevious ..) fun ws _ t more given => ?_
  obtain ⟨_, rfl⟩ := yields_setPrevious.mp given
  exact (more.withConnection ..).change newer _

theorem maintains_setNext (check : TypeCheck) : Maintains (·.Extends old) (setNext b check) :=
  fun _ more => (more.withConnection ..).change newer _

theorem maintains_plugIn (plug : Plug) : Maintains (·.Extends old) (plugIn b plug) := by
  cases plug with
  | value check => exact maintains_setOutput newer check
  | statement => exact (maintains_setPrevious newer none).bind fun _ => maintains_setNext newer none
  | loose => exact maintains_pure ()

/-- Giving a new block its shape leaves the old blocks alone, also when the shape cannot be had in full. -/
theorem maintains_applyShape : Maintains (·.Extends old) (applyShape b) := by
  unfold applyShape
  refine maintains_get.bind fun ws => ?_
  dsimp only
  split
  · refine (maintains_plugIn newer _).bind fun _ => (maintains_addRows newer _).bind fun _ => ?_
    refine (maintains_modifyBlock newer _).bind fun _ => ?_
    split
    · exact maintains_pure ()
    · refine maintains_get.bind fun ws => (maintains_addRows newer _).bind fun _ => ?_
      split
      · exact maintains_pure ()
      · exact maintains_throw _
  · exact maintains_throw _

end Newer

/-- The steps by which a block is made and shaped, up to where it would become a member. -/
def shapeBlock (type : String) (id : Option String) (mutation fields : Table Json) : Edit Nat := do
  let b ← makeBlock type id
  modifyBlock b fun block => { block with mutation := block.mutation.update mutation }
  applyShape b
  modifyBlock b fun block => { block with fields := block.fields.update fields }
  return b

/-- The steps of making a new block, which do not undo what they did when one of them fails. -/
def draftBlock (type : String) (id : Option String) (mutation fields : Table Json) : Edit Nat := do
  let b ← shapeBlock type id mutation fields
  addMember b
  return b

theorem newBlock_eq_atomically (type : String) (id : Option String) (mutation fields : Table Json) :
    newBlock type id mutation fields = atomically (draftBlock type id mutation fields) := by
  simp only [newBlock, draftBlock, shapeBlock, bind_assoc, pure_bind]

theorem extends_shapeBlock (type : String) (id : Option String) (mutation fields : Table Json)
    (ws : Workspace) :
    ((shapeBlock type id mutation fields).run ws : Except EditError Nat × Workspace).2.Extends ws := by
  have made : Yields (makeBlock type id) ws ws.blocks.size
      { ws with blocks := ws.blocks.push { type, ownId := id.filter (· ≠ "") } } :=
        yields_makeBlock.mpr ⟨rfl, rfl⟩
  unfold shapeBlock
  rw [run_bind, made]
  have newer := Nat.le_refl ws.blocks.size
  have shaped : Maintains (·.Extends ws) (do
      modifyBlock ws.blocks.size fun block => { block with mutation := block.mutation.update mutation }
      applyShape ws.blocks.size
      modifyBlock ws.blocks.size fun block => { block with fields := block.fields.update fields }
      return ws.blocks.size : Edit Nat) :=
    (maintains_modifyBlock newer _).bind fun _ => (maintains_applyShape newer).bind fun _ =>
      (maintains_modifyBlock newer _).bind fun _ => maintains_pure _
  exact shaped _ ((Extends.refl ws).withBlock _)

/-- Where the making of a new block fails, it has left all that was there alone. -/
theorem extends_draftBlock {type : String} {id : Option String} {mutation fields : Table Json}
    {error : EditError}
    (fails : (draftBlock type id mutation fields).run ws =
    ((.error error, t) : Except EditError Nat × Workspace)) : t.Extends ws := by
  have shaped := extends_shapeBlock type id mutation fields ws
  unfold draftBlock at fails
  rw [run_bind] at fails
  generalize ((shapeBlock type id mutation fields).run ws : Except EditError Nat × Workspace) =
    outcome at shaped fails
  obtain ⟨result, u⟩ := outcome
  cases result with
  | error other =>
    cases fails
    exact shaped
  | ok b =>
    -- A block that does not become a member is left as it is, and so are the members.
    dsimp only at fails
    rw [run_bind] at fails
    rcases @retreats_addMember u b with ⟨_, v, yields⟩ | ⟨other, retreats⟩
    · rw [yields] at fails
      cases fails
    · rw [retreats] at fails
      cases fails
      exact shaped

end Edit

namespace Workspace

variable {ws : Workspace} {c d : Nat} {target other : Option Nat}

theorem retarget_retarget : (ws.retarget c target).retarget c other = ws.retarget c other := by
  simp only [retarget, Workspace.mk.injEq, true_and, and_true]
  apply Array.toList_inj.mp
  rw [Array.toList_modify, Array.toList_modify, Array.toList_modify, List.modify_modify_eq]
  rfl

theorem retarget_comm (differ : c ≠ d) :
    (ws.retarget c target).retarget d other = (ws.retarget d other).retarget c target := by
  simp only [retarget, Workspace.mk.injEq, true_and, and_true]
  apply Array.toList_inj.mp
  rw [Array.toList_modify, Array.toList_modify, Array.toList_modify, Array.toList_modify]
  exact List.modify_modify_ne _ _ _ differ

theorem retarget_self (same : (ws.connection c).target = target) : ws.retarget c target = ws := by
  subst same
  cases ws with
  | mk name oneBased blocks connections members declared =>
    simp only [retarget, connection, Workspace.mk.injEq, true_and, and_true]
    apply Array.ext_getElem?
    intro n
    rw [Array.getElem?_modify]
    split_ifs with same
    · subst same
      cases connections[c]? <;> rfl
    · rfl

/-- Two free connections that are linked and then unlinked, from whichever end, are as they were. -/
theorem retarget_undone (differ : c ≠ d) (free : (ws.connection c).target = none)
    (free' : (ws.connection d).target = none) :
    (((ws.retarget c (some d)).retarget d (some c)).retarget d none).retarget c none = ws := by
  rw [retarget_retarget, retarget_comm differ, retarget_retarget, retarget_self free', retarget_self free]

end Workspace

namespace Edit

open Workspace

variable {ws t : Workspace} {c d : Nat}

/-- What a link asks for and what it does does not depend on the end it is made from. -/
theorem link_symm (linked : Yields (link c d) ws () t) : Yields (link d c) ws () t := by
  obtain ⟨kind, owner, check, free, free', rfl⟩ := yields_link.mp linked
  have differ : c ≠ d := fun same => owner (same ▸ rfl)
  refine yields_link.mpr ⟨?_, owner.symm, TypeCheck.meets_comm .. ▸ check, free', free, retarget_comm differ⟩
  rw [kind, ConnectionKind.opposite_opposite]

/-- Unlinking the end from which a link was made undoes the link. -/
theorem unlink_link (below : c < ws.connections.size) (linked : Yields (link c d) ws () t) :
    Yields (unlink c) t () ws := by
  obtain ⟨_, owner, _, free, free', rfl⟩ := yields_link.mp linked
  have differ : c ≠ d := fun same => owner (same ▸ rfl)
  have target : (((ws.retarget c (some d)).retarget d (some c)).connection c).target = some d := by
    rw [retarget_comm differ, connection_retarget _ ((size_retarget ..).symm ▸ below), if_pos rfl]
  exact yields_unlink.mpr (.inr ⟨d, target, (retarget_undone differ free free').symm⟩)

end Edit

/-- An operation that fails leaves the workspace as it was, and the making of a new block touches nothing else
even before it is undone. A link that is made could as well have been made from its other end, and unlinking
either end brings back the workspace from before. -/
theorem Operation.failed_unchanged_linked_undone (ws : Workspace) :
    (∀ operation : Operation, ∀ error t,
      operation.edit.run ws = ((.error error, t) : Except EditError Unit × Workspace) → t = ws) ∧
      (∀ type id mutation fields,
        Edit.newBlock type id mutation fields = Edit.atomically (Edit.draftBlock type id mutation fields) ∧
        ∀ error t, (Edit.draftBlock type id mutation fields).run ws =
          ((.error error, t) : Except EditError Nat × Workspace) →
          t.Extends ws) ∧
      ∀ c d t, (Operation.link c d).Refers ws → Yields (Edit.link c d) ws () t →
        Yields (Edit.link d c) ws () t ∧ Yields (Edit.unlink c) t () ws ∧ Yields (Edit.unlink d) t () ws := by
  refine ⟨fun operation error t fails => ?_,
    fun type id mutation fields => ⟨Edit.newBlock_eq_atomically .., fun error t => Edit.extends_draftBlock⟩,
    fun c d t refers linked => ?_⟩
  · have after : operation.after ws = t := congrArg Prod.snd fails
    rcases operation.after_cases ws with yields | same
    · cases fails.symm.trans yields
    · exact after.symm.trans same
  · obtain ⟨here, there⟩ := refers
    exact ⟨Edit.link_symm linked, Edit.unlink_link here linked,
      Edit.unlink_link there (Edit.link_symm linked)⟩

/-- A text and a block that prints: a second text with the id of the first is not made, nor is a branch whose
number of arms is none, and the text is linked and unlinked from either end. -/
theorem Operation.failed_unchanged_linked_undone_print :
    let ws := (newBlock "text_print" (some "b") [] []).after ((newBlock "text" (some "a") [] []).after {})
    (newBlock "text" (some "a") [] []).after ws = ws ∧
      ((Edit.draftBlock "controls_if" none [("elseif", .text "x")] []).run ws : Except EditError Nat ×
        Workspace).2.Extends ws ∧
      ∃ t, Yields (Edit.link 3 0) ws () t ∧ Yields (Edit.link 0 3) ws () t ∧ Yields (Edit.unlink 3) t () ws ∧
        Yields (Edit.unlink 0) t () ws := by
  intro ws
  obtain ⟨unchanged, draft, linked⟩ := failed_unchanged_linked_undone ws
  have twice :
      ((newBlock "text" (some "a") [] []).edit.run ws : Except EditError Unit × Workspace).1.toOption =
      none := by decide +kernel
  have noCount : ((Edit.draftBlock "controls_if" none [("elseif", .text "x")] []).run ws :
      Except EditError Nat × Workspace).1.toOption = none := by decide +kernel
  have fits : ((Edit.link 3 0).run ws : Except EditError Unit × Workspace).1.toOption = some () := by
    decide +kernel
  obtain ⟨_, t, fails⟩ := exists_fails_of_toOption twice
  obtain ⟨_, u, stops⟩ := exists_fails_of_toOption noCount
  obtain ⟨v, links⟩ := exists_yields_of_toOption fits
  refine ⟨?_, ?_, v, links, linked 3 0 v ⟨by decide +kernel, by decide +kernel⟩ links⟩
  · rw [after, fails]
    exact unchanged _ _ t fails
  · rw [stops]
    exact (draft _ _ _ _).2 _ u stops

end BlockCompiler
