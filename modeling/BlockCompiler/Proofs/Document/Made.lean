import BlockCompiler.Proofs.Workspace.Begun
import BlockCompiler.Document.Building

/-!
How a single block of a workspace comes from its specification.
-/

namespace BlockCompiler

/-- How the block of a specification plugs into others. Blocks of unknown type go by where they are. -/
def BlockSpec.plug (spec : BlockSpec) (asValue : Bool) : Plug :=
  match BlockKind.ofName? spec.type with
  | some kind => kind.shape.plug
  | none => if asValue then .value none else .statement

/-- The rows of the block of a specification. Blocks of unknown type have one for each of their inputs. -/
def BlockSpec.rows (spec : BlockSpec) (inputs : Rows BlockSpec String) : List RowSpec :=
  match BlockKind.ofName? spec.type with
  | some kind => kind.rows (Table.ofEntries spec.mutation)
  | none => Edit.inferredRows inputs

/-- The fields that blocks of a type have from the start. -/
def defaultFields (type : String) : Table Json :=
  match BlockKind.ofName? type with
  | some kind => kind.shape.fields
  | none => []

/-- The content of the block of a specification: its fields lie over the defaults. -/
def BlockSpec.content (spec : BlockSpec) : BlockContent :=
  { type := spec.type
    fields := (defaultFields spec.type).update spec.fields
    mutation := Table.ofEntries spec.mutation
    comment := spec.comment
    disabled := spec.disabled }

/-- A block is what its specification says, in the socket of a value or not, and given its inputs. -/
structure Block.Renders (block : Block) (spec : BlockSpec) (asValue : Bool) (inputs : Rows BlockSpec String) :
    Prop where
  content : block.toBlockContent = spec.content
  id : block.ownId = spec.ownId.filter (· ≠ "")
  position : block.x = spec.x ∧ block.y = spec.y
  plugs : block.Plugs (spec.plug asValue)
  rows : block.rows.map Row.head = (spec.rows inputs).map RowSpec.head

/-- A workspace with one more member. -/
def Workspace.joined (ws : Workspace) (b : Nat) : Workspace := { ws with members := ws.members ++ [b] }

theorem Workspace.Begun.joined {old ws : Workspace} {block : Block} (begun : Workspace.Begun old ws block)
    (b : Nat) : Workspace.Begun (old.joined b) (ws.joined b) block where
  size := begun.size
  before := begun.before
  here := begun.here
  grows := begun.grows
  frozen := begun.frozen
  fresh := begun.fresh
  range := begun.range
  sound := begun.sound
  members := by rw [Workspace.joined, Workspace.joined, begun.members]
  declared := begun.declared
  options := begun.options

theorem fill_defaults (kind : BlockKind) : Table.fill [] kind.shape.fields = kind.shape.fields := by
  cases kind <;> rfl

namespace Edit

open Workspace

variable {ws t : Workspace} {b : Nat} {u : Unit}

theorem begun_newBlock {type : String} {id : Option String} {mutation fields : Table Json}
    (made : Yields (newBlock type id mutation fields) ws b t) :
    b = ws.blocks.size ∧ b ∉ ws.members ∧ ∃ kind block, BlockKind.ofName? type = some kind ∧
      Begun (ws.joined b) t block ∧ block.Plugs kind.shape.plug ∧
      block.rows.map Row.head = (kind.rows (Table.ofEntries mutation)).map RowSpec.head ∧
      block.toBlockContent =
        { type, fields := kind.shape.fields.update fields, mutation := Table.ofEntries mutation } ∧
      block.ownId = id.filter (· ≠ "") := by
  unfold newBlock at made
  rw [yields_atomically] at made
  obtain ⟨_, _, first, made⟩ := yields_bind.mp made
  obtain ⟨rfl, rfl⟩ := yields_makeBlock.mp first
  have begun := begun_makeBlock ws type id
  obtain ⟨_, _, mutated, made⟩ := yields_bind.mp made
  obtain rfl := yields_modifyBlock.mp mutated
  have begun := begun.change (fun block => { block with mutation := block.mutation.update mutation }) rfl rfl
  obtain ⟨_, _, shapedStep, made⟩ := yields_bind.mp made
  obtain ⟨kind, shaped, known, begun, plugs, rows, content, ownId⟩ :=
    begun_applyShape begun ⟨rfl, rfl, rfl, rfl⟩ shapedStep
  obtain ⟨_, _, filled, made⟩ := yields_bind.mp made
  obtain rfl := yields_modifyBlock.mp filled
  have begun := begun.change (fun block => { block with fields := block.fields.update fields }) rfl rfl
  obtain ⟨_, _, joined, made⟩ := yields_bind.mp made
  obtain ⟨new, _, rfl⟩ := yields_addMember.mp joined
  obtain ⟨rfl, rfl⟩ := yields_pure.mp made
  rw [begun.members] at new
  refine ⟨rfl, new, kind, _, known, begun.joined _, ⟨plugs.output, plugs.previous, plugs.next⟩,
    rows, ?_, ownId⟩
  show { shaped.toBlockContent with fields := shaped.fields.update fields } = _
  rw [content]
  show BlockContent.mk _ ((Table.fill [] kind.shape.fields).update fields) _ _ _ = _
  rw [fill_defaults]
  rfl

theorem begun_newUnknownBlock {spec : BlockSpec} {asValue : Bool} {inputs : Rows BlockSpec String}
    (made : Yields (newUnknownBlock spec asValue inputs) ws b t) :
    b = ws.blocks.size ∧ b ∉ ws.members ∧ ∃ block, Begun (ws.joined b) t block ∧
      block.Plugs (if asValue then .value none else .statement) ∧
      block.rows.map Row.head = (inferredRows inputs).map RowSpec.head ∧
      block.toBlockContent = { type := spec.type, mutation := Table.ofEntries spec.mutation } ∧
      block.ownId = spec.ownId.filter (· ≠ "") := by
  unfold newUnknownBlock at made
  obtain ⟨_, _, first, made⟩ := yields_bind.mp made
  obtain ⟨rfl, rfl⟩ := yields_makeBlock.mp first
  have begun := begun_makeBlock ws spec.type spec.ownId
  obtain ⟨_, _, mutated, made⟩ := yields_bind.mp made
  obtain rfl := yields_modifyBlock.mp mutated
  have begun :=
    begun.change (fun block => { block with mutation := block.mutation.update spec.mutation }) rfl rfl
  obtain ⟨_, _, plugged, made⟩ := yields_bind.mp made
  obtain ⟨output, previous, next, begun, plugs⟩ := begun_plugIn begun ⟨rfl, rfl, rfl⟩ plugged
  obtain ⟨_, _, added, made⟩ := yields_bind.mp made
  obtain ⟨rows, begun, heads⟩ := begun_addRows begun added
  obtain ⟨_, _, joined, made⟩ := yields_bind.mp made
  obtain ⟨new, _, rfl⟩ := yields_addMember.mp joined
  obtain ⟨rfl, rfl⟩ := yields_pure.mp made
  rw [begun.members] at new
  exact ⟨rfl, new, _, begun.joined _, ⟨plugs.output, plugs.previous, plugs.next⟩, heads, rfl, rfl⟩

/-- A block that is built is the last of the workspace and the last member, and is as specified. -/
theorem begun_buildBlock {spec : BlockSpec} {asValue : Bool} {inputs : Rows BlockSpec String}
    (built : Yields (buildBlock spec asValue inputs) ws b t) :
    b = ws.blocks.size ∧ b ∉ ws.members ∧ ∃ block, Begun (ws.joined b) t block ∧
      block.Renders spec asValue inputs := by
  unfold buildBlock at built
  have made : ∃ next, b = ws.blocks.size ∧ b ∉ ws.members ∧ (∃ block, Begun (ws.joined b) next block ∧
      block.Plugs (spec.plug asValue) ∧ block.rows.map Row.head = (spec.rows inputs).map RowSpec.head ∧
      block.toBlockContent =
        { type := spec.type, fields := defaultFields spec.type, mutation := Table.ofEntries spec.mutation } ∧
      block.ownId = spec.ownId.filter (· ≠ "")) ∧
      t = next.change b fun block =>
        { block with
          fields := block.fields.update spec.fields
          comment := spec.comment
          disabled := spec.disabled
          x := spec.x
          y := spec.y } := by
    unfold BlockSpec.plug BlockSpec.rows defaultFields
    by_cases known : isKnownType spec.type
    · simp only [known, if_true] at built
      obtain ⟨_, next, made, built⟩ := yields_bind.mp built
      obtain ⟨_, _, changed, built⟩ := yields_bind.mp built
      obtain rfl := yields_modifyBlock.mp changed
      obtain ⟨rfl, rfl⟩ := yields_pure.mp built
      obtain ⟨last, new, kind, block, named, rest⟩ := begun_newBlock made
      simp only [named]
      exact ⟨next, last, new, ⟨block, rest⟩, rfl⟩
    · simp only [known] at built
      obtain ⟨_, next, made, built⟩ := yields_bind.mp built
      obtain ⟨_, _, changed, built⟩ := yields_bind.mp built
      obtain rfl := yields_modifyBlock.mp changed
      obtain ⟨rfl, rfl⟩ := yields_pure.mp built
      obtain ⟨last, new, rest⟩ := begun_newUnknownBlock made
      have unnamed : BlockKind.ofName? spec.type = none := by simpa [isKnownType] using known
      simp only [unnamed]
      exact ⟨next, last, new, rest, rfl⟩
  obtain ⟨next, rfl, new, ⟨block, begun, plugs, rows, content, id⟩, rfl⟩ := made
  refine ⟨rfl, new, _, begun.change _ rfl rfl, ?_, id, ⟨rfl, rfl⟩,
    ⟨plugs.output, plugs.previous, plugs.next⟩, rows⟩
  rw [content]
  rfl

end Edit

end BlockCompiler
