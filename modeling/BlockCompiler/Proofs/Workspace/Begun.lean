import BlockCompiler.Proofs.Workspace.Edits
import BlockCompiler.Stack
import Mathlib.Data.List.Perm.Basic
import Mathlib.Data.List.Nodup
import Mathlib.Order.Basic

/-!
Blocks in the making. While a block gets its plugs and rows, it is the last block of the workspace, its
connections are the last ones and are not linked, and nothing else changes. So it looks as told once it has
its shape.
-/

namespace BlockCompiler

/-- The connections of a block. -/
def Block.points (block : Block) : List Nat :=
  block.output.toList ++ block.previous.toList ++ block.next.toList ++ block.rows.filterMap (·.connection)

/-- What a block has at every moment of its making: different connections, a connection for each row that
is not a dummy, and no name twice but the empty one. -/
structure Block.Sound (block : Block) : Prop where
  points : block.points.Nodup
  sockets : ∀ row ∈ block.rows, row.kind ≠ .dummy → row.connection.isSome
  names : block.rows.Pairwise fun row other => row.name = other.name → row.name = ""

namespace Workspace

/-- A workspace that differs from an old one by a block in the making. -/
structure Begun (old ws : Workspace) (block : Block) : Prop where
  size : ws.blocks.size = old.blocks.size + 1
  before : ∀ n < old.blocks.size, ws.blocks[n]? = old.blocks[n]?
  here : ws.blocks[old.blocks.size]? = some block
  grows : old.connections.size ≤ ws.connections.size
  frozen : ∀ c < old.connections.size, ws.connections[c]? = old.connections[c]?
  fresh : ∀ c, old.connections.size ≤ c → c < ws.connections.size →
    (ws.connection c).owner = old.blocks.size ∧ (ws.connection c).target = none
  range : ∀ c ∈ block.points, old.connections.size ≤ c ∧ c < ws.connections.size
  sound : block.Sound
  members : ws.members = old.members
  declared : ws.declared = old.declared
  options : ws.name = old.name ∧ ws.oneBased = old.oneBased

variable {old ws : Workspace}

theorem Begun.block {block : Block} (begun : Begun old ws block) : ws.block old.blocks.size = block := by
  rw [Workspace.block, begun.here, Option.getD_some]

theorem begun_makeBlock (old : Workspace) (type : String) (id : Option String) :
    Begun old { old with blocks := old.blocks.push { type, ownId := id.filter (· ≠ "") } }
      { type, ownId := id.filter (· ≠ "") } where
  size := Array.size_push ..
  before n bound := Array.getElem?_push_lt bound ▸ (Array.getElem?_eq_getElem bound).symm
  here := Array.getElem?_push_size
  grows := Nat.le_refl _
  frozen _ _ := rfl
  fresh c above below := absurd below (Nat.not_lt.mpr above)
  range c member := by simp [Block.points] at member
  sound := ⟨by simp [Block.points], by simp, by simp⟩
  members := rfl
  declared := rfl
  options := ⟨rfl, rfl⟩

/-- A change of a block that leaves its connections as they are. -/
theorem Begun.reshape {block : Block} (begun : Begun old ws block) (f : Block → Block)
    (points : (f block).points = block.points)
    (sockets : ∀ row ∈ (f block).rows, row.kind ≠ .dummy → row.connection.isSome)
    (names : (f block).rows.Pairwise fun row other => row.name = other.name → row.name = "") :
    Begun old (ws.change old.blocks.size f) (f block) where
  size := by rw [Workspace.change, Array.size_modify, begun.size]
  before n bound := by
    rw [Workspace.change, Array.getElem?_modify, if_neg (by omega), begun.before n bound]
  here := by rw [Workspace.change, Array.getElem?_modify, if_pos rfl, begun.here]; rfl
  grows := begun.grows
  frozen := begun.frozen
  fresh := begun.fresh
  range c member := begun.range c (points ▸ member)
  sound := ⟨points ▸ begun.sound.points, sockets, names⟩
  members := begun.members
  declared := begun.declared
  options := begun.options

/-- A change of what a block says about itself. -/
theorem Begun.change {block : Block} (begun : Begun old ws block) (f : Block → Block)
    (rows : (f block).rows = block.rows) (points : (f block).points = block.points) :
    Begun old (ws.change old.blocks.size f) (f block) :=
  begun.reshape f points (rows ▸ begun.sound.sockets) (rows ▸ begun.sound.names)

theorem connection_withConnection_lt {c owner : Nat} {kind : ConnectionKind} {check : TypeCheck}
    (below : c < ws.connections.size) :
    (ws.withConnection owner kind check).connection c = ws.connection c := by
  simp only [connection, withConnection]
  rw [Array.getElem?_push_lt below, Array.getElem?_eq_getElem below]

theorem connection_withConnection_size {owner : Nat} {kind : ConnectionKind} {check : TypeCheck} :
    (ws.withConnection owner kind check).connection ws.connections.size =
      { owner, kind, check := check.filter fun names => !names.isEmpty } := by
  simp only [connection, withConnection]
  rw [Array.getElem?_push_size, Option.getD_some]

/-- A change by which a block gets one more connection. -/
theorem Begun.withPoint {block : Block} (begun : Begun old ws block) (kind : ConnectionKind)
    (check : TypeCheck) (f : Block → Block)
    (points : (f block).points.Perm (ws.connections.size :: block.points))
    (sockets : ∀ row ∈ (f block).rows, row.kind ≠ .dummy → row.connection.isSome)
    (names : (f block).rows.Pairwise fun row other => row.name = other.name → row.name = "") :
    Begun old ((ws.withConnection old.blocks.size kind check).change old.blocks.size f) (f block) := by
  have size : (ws.withConnection old.blocks.size kind check).connections.size = ws.connections.size + 1 :=
    Array.size_push ..
  have newest : ws.connections.size ∉ block.points := fun member =>
    Nat.lt_irrefl _ (begun.range _ member).2
  refine {
    size := by rw [Workspace.change, Array.size_modify]; exact begun.size
    before := ?_
    here := ?_
    grows := ?_
    frozen := ?_
    fresh := ?_
    range := ?_
    sound := ⟨points.nodup_iff.mpr (List.nodup_cons.mpr ⟨newest, begun.sound.points⟩), sockets, names⟩
    members := begun.members
    declared := begun.declared
    options := begun.options }
  · intro n bound
    rw [Workspace.change, Array.getElem?_modify, if_neg (by omega)]
    exact begun.before n bound
  · rw [Workspace.change, Array.getElem?_modify, if_pos rfl]
    show Option.map f ws.blocks[old.blocks.size]? = _
    rw [begun.here, Option.map_some]
  · show _ ≤ (ws.withConnection old.blocks.size kind check).connections.size
    have := begun.grows
    omega
  · intro c bound
    have below := begun.grows
    show (ws.withConnection old.blocks.size kind check).connections[c]? = _
    rw [withConnection, Array.getElem?_push_lt (by omega), ← begun.frozen c bound,
      Array.getElem?_eq_getElem (by omega)]
  · intro c above below
    show ((ws.withConnection old.blocks.size kind check).connection c).owner = _ ∧
      ((ws.withConnection old.blocks.size kind check).connection c).target = _
    have below : c < (ws.withConnection old.blocks.size kind check).connections.size := below
    rcases Nat.lt_or_eq_of_le (show c ≤ ws.connections.size by omega) with earlier | rfl
    · rw [connection_withConnection_lt earlier]
      exact begun.fresh c above earlier
    · rw [connection_withConnection_size]
      exact ⟨rfl, rfl⟩
  · intro c member
    show _ ∧ c < (ws.withConnection old.blocks.size kind check).connections.size
    have := begun.grows
    rcases List.mem_cons.mp (points.mem_iff.mp member) with rfl | older
    · omega
    · have := begun.range c older
      omega

theorem Begun.withOutput {block : Block} (begun : Begun old ws block) (unset : block.output = none)
    (check : TypeCheck) :
    Begun old
      ((ws.withConnection old.blocks.size .outputValue check).change old.blocks.size fun block =>
        { block with output := some ws.connections.size })
      { block with output := some ws.connections.size } := by
  refine begun.withPoint _ _ _ ?_ begun.sound.sockets begun.sound.names
  simp [Block.points, unset]

theorem Begun.withPrevious {block : Block} (begun : Begun old ws block) (unset : block.previous = none)
    (check : TypeCheck) :
    Begun old
      ((ws.withConnection old.blocks.size .previousStatement check).change old.blocks.size fun block =>
        { block with previous := some ws.connections.size })
      { block with previous := some ws.connections.size } := by
  refine begun.withPoint _ _ _ ?_ begun.sound.sockets begun.sound.names
  simp only [Block.points, unset, Option.toList_none, Option.toList_some, List.append_nil,
    List.append_assoc, List.cons_append, List.nil_append]
  exact List.perm_middle

theorem Begun.withNext {block : Block} (begun : Begun old ws block) (unset : block.next = none)
    (check : TypeCheck) :
    Begun old
      ((ws.withConnection old.blocks.size .nextStatement check).change old.blocks.size fun block =>
        { block with next := some ws.connections.size })
      { block with next := some ws.connections.size } := by
  refine begun.withPoint _ _ _ ?_ begun.sound.sockets begun.sound.names
  simp only [Block.points, unset, Option.toList_none, Option.toList_some, List.append_nil,
    List.append_assoc, List.cons_append, List.nil_append]
  rw [← List.append_assoc, ← List.append_assoc]
  exact List.perm_middle

theorem points_with_row (block : Block) (row : Row) :
    ({ block with rows := block.rows ++ [row] } : Block).points = block.points ++ row.connection.toList := by
  cases row with
  | mk kind name connection => cases connection <;> simp [Block.points]

theorem Begun.withRow {block : Block} (begun : Begun old ws block) {name : String}
    (unused : name = "" ∨ block.row? name = none) (kind : RowKind) (check : TypeCheck) :
    ∃ connection, Begun old (ws.withRow old.blocks.size name kind check)
      { block with rows := block.rows ++ [{ kind, name, connection }] } := by
  have names : ∀ connection : Option Nat, (block.rows ++ [(⟨kind, name, connection⟩ : Row)]).Pairwise
      fun row other => row.name = other.name → row.name = "" := by
    intro connection
    rw [List.pairwise_append]
    refine ⟨begun.sound.names, List.pairwise_singleton _ _, ?_⟩
    intro row member other last same
    rw [List.mem_singleton.mp last] at same
    rcases unused with empty | new
    · exact same.trans empty
    · have := List.find?_eq_none.mp new row member
      simp [same] at this
  unfold Workspace.withRow
  cases point : kind.connection? with
  | none =>
    refine ⟨none, begun.reshape _ ?_ ?_ (names none)⟩
    · rw [points_with_row]
      exact List.append_nil _
    · intro row member proper
      rcases List.mem_append.mp member with older | last
      · exact begun.sound.sockets row older proper
      · rw [List.mem_singleton.mp last] at proper
        cases kind <;> simp [RowKind.connection?] at point proper
  | some connection =>
    refine ⟨some ws.connections.size, begun.withPoint connection check _ ?_ ?_ (names _)⟩
    · rw [points_with_row]
      exact List.perm_append_singleton _ _
    · intro row member proper
      rcases List.mem_append.mp member with older | last
      · exact begun.sound.sockets row older proper
      · rw [List.mem_singleton.mp last]
        rfl

end Workspace

/-- A row without its connection. -/
def Row.head (row : Row) : RowHead := ⟨row.kind, row.name⟩

/-- What becomes visible of a row that is to be added. -/
def RowSpec.head (row : RowSpec) : RowHead := ⟨row.2.1, row.1⟩

/-- All rows that a block of a kind gets, given its mutation. -/
def BlockKind.rows (kind : BlockKind) (mutation : Table Json) : List RowSpec :=
  kind.shape.rows ++ (kind.shape.family.map fun family => (family.rows mutation).1).getD []

/-- A block plugs into others as told. -/
structure Block.Plugs (block : Block) (plug : Plug) : Prop where
  output : block.output.isSome ↔ ∃ check, plug = .value check
  previous : block.previous.isSome ↔ plug = .statement
  next : block.next.isSome ↔ plug = .statement

namespace Edit

open Workspace

variable {old ws t : Workspace} {u : Unit} {block : Block}

/-- Rows that are added come after the others, and nothing else of the block changes. -/
theorem begun_addRows (begun : Begun old ws block) {specs : List RowSpec}
    (added : Yields (addRows old.blocks.size specs) ws u t) :
    ∃ rows, Begun old t { block with rows := block.rows ++ rows } ∧
      rows.map Row.head = specs.map RowSpec.head := by
  induction specs generalizing ws block with
  | nil =>
    rw [addRows] at added
    obtain ⟨_, rfl⟩ := yields_pure.mp added
    exact ⟨[], by simpa using begun, rfl⟩
  | cons spec rest ih =>
    obtain ⟨name, kind, check⟩ := spec
    rw [addRows] at added
    obtain ⟨_, next, first, others⟩ := yields_bind.mp added
    obtain ⟨unused, rfl⟩ := yields_addRow.mp first
    rw [begun.block] at unused
    obtain ⟨connection, grown⟩ := begun.withRow unused kind check
    obtain ⟨rows, final, heads⟩ := ih grown others
    refine ⟨⟨kind, name, connection⟩ :: rows, ?_, ?_⟩
    · rw [List.append_assoc] at final
      exact final
    · rw [List.map_cons, List.map_cons, heads]
      rfl

theorem begun_plugIn (begun : Begun old ws block)
    (free : block.output = none ∧ block.previous = none ∧ block.next = none) {plug : Plug}
    (plugged : Yields (plugIn old.blocks.size plug) ws u t) :
    ∃ output previous next, Begun old t { block with output, previous, next } ∧
      Block.Plugs { block with output, previous, next } plug := by
  obtain ⟨noOutput, noPrevious, noNext⟩ := free
  cases plug with
  | value check =>
    obtain ⟨_, rfl⟩ := yields_setOutput.mp plugged
    refine ⟨some ws.connections.size, block.previous, block.next, begun.withOutput noOutput check, ?_⟩
    constructor <;> simp [noPrevious, noNext]
  | statement =>
    obtain ⟨_, next, first, second⟩ := yields_bind.mp plugged
    obtain ⟨_, rfl⟩ := yields_setPrevious.mp first
    obtain rfl := yields_setNext.mp second
    have before := begun.withPrevious noPrevious none
    refine ⟨block.output, some ws.connections.size, _, before.withNext noNext none, ?_⟩
    constructor <;> simp [noOutput]
  | loose =>
    obtain ⟨_, rfl⟩ := yields_pure.mp plugged
    refine ⟨block.output, block.previous, block.next, begun, ?_⟩
    constructor <;> simp [noOutput, noPrevious, noNext]

/-- A shape gives a block without one the plugs and rows of its kind, and fields that are missing. -/
theorem begun_applyShape (begun : Begun old ws block)
    (bare : block.output = none ∧ block.previous = none ∧ block.next = none ∧ block.rows = [])
    (applied : Yields (applyShape old.blocks.size) ws u t) :
    ∃ kind shaped, BlockKind.ofName? block.type = some kind ∧ Begun old t shaped ∧
      shaped.Plugs kind.shape.plug ∧ shaped.rows.map Row.head = (kind.rows block.mutation).map RowSpec.head ∧
      shaped.toBlockContent = { block.toBlockContent with fields := block.fields.fill kind.shape.fields } ∧
      shaped.ownId = block.ownId := by
  obtain ⟨noOutput, noPrevious, noNext, noRows⟩ := bare
  unfold applyShape at applied
  rw [yields_get_bind, begun.block] at applied
  cases known : BlockKind.ofName? block.type with
  | none => simp [known] at applied
  | some kind =>
    simp only [known] at applied
    obtain ⟨_, _, plugged, applied⟩ := yields_bind.mp applied
    obtain ⟨output, previous, next, begun, plugs⟩ := begun_plugIn begun ⟨noOutput, noPrevious, noNext⟩ plugged
    obtain ⟨_, _, added, applied⟩ := yields_bind.mp applied
    obtain ⟨rows, begun, heads⟩ := begun_addRows begun added
    obtain ⟨_, _, filled, applied⟩ := yields_bind.mp applied
    obtain rfl := yields_modifyBlock.mp filled
    have begun :=
      begun.change (fun block => { block with fields := block.fields.fill kind.shape.fields }) rfl rfl
    refine ⟨kind, ?_⟩
    unfold BlockKind.rows
    cases has : kind.shape.family with
    | none =>
      simp only [has] at applied
      obtain ⟨_, rfl⟩ := yields_pure.mp applied
      refine ⟨_, rfl, begun, ⟨plugs.output, plugs.previous, plugs.next⟩, ?_, rfl, rfl⟩
      simpa [noRows] using heads
    | some family =>
      simp only [has, yields_get_bind, begun.block] at applied
      obtain ⟨_, _, added, applied⟩ := yields_bind.mp applied
      obtain ⟨more, begun, moreHeads⟩ := begun_addRows begun added
      cases stop : (family.rows block.mutation).2 with
      | some error => simp [stop] at applied
      | none =>
        simp only [stop] at applied
        obtain ⟨_, rfl⟩ := yields_pure.mp applied
        refine ⟨_, rfl, begun, ⟨plugs.output, plugs.previous, plugs.next⟩, ?_, rfl, rfl⟩
        simpa [noRows, heads] using moreHeads

end Edit

end BlockCompiler
