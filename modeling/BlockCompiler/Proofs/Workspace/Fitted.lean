import BlockCompiler.Proofs.Document.Made
import BlockCompiler.Proofs.Workspace.Grown

/-!
The kinds and checks of the connections of a block: they are those of its plug and its rows, and once they are
there they stay. A block can be made just if its mutation tells how many rows it has and they differ in name.
-/

namespace BlockCompiler

/-- A connection of a kind, with a check. An empty check takes all. -/
def Connection.IsA (connection : Connection) (kind : ConnectionKind) (check : TypeCheck) : Prop :=
  connection.kind = kind ∧ connection.check = check.filter fun names => !names.isEmpty

theorem TypeCheck.meets_filter (a b : TypeCheck) :
    TypeCheck.meets (a.filter fun names => !names.isEmpty) (b.filter fun names => !names.isEmpty) =
    a.meets b := by
  cases a with
  | none => rfl
  | some names =>
    cases b with
    | none => cases names <;> rfl
    | some others =>
      cases names <;> cases others <;> rfl

theorem TypeCheck.meets_comm (a b : TypeCheck) : a.meets b = b.meets a := by
  cases a with
  | none => cases b <;> rfl
  | some names =>
    cases b with
    | none => rfl
    | some others =>
      have shared : names.any others.contains = others.any names.contains := by
        rw [Bool.eq_iff_iff, List.any_eq_true, List.any_eq_true]
        simp only [List.contains_iff_mem]
        exact ⟨fun ⟨x, here, there⟩ => ⟨x, there, here⟩, fun ⟨x, here, there⟩ => ⟨x, there, here⟩⟩
      rw [TypeCheck.meets, TypeCheck.meets, shared, Bool.or_comm names.isEmpty]

namespace Workspace

/-- The connections of a workspace keep their kinds and checks. -/
structure Kept (ws t : Workspace) : Prop where
  room : ws.connections.size ≤ t.connections.size
  kind : ∀ c < ws.connections.size, (t.connection c).kind = (ws.connection c).kind
  check : ∀ c < ws.connections.size, (t.connection c).check = (ws.connection c).check

/-- The connections of a row are as specified. -/
def Fills (ws : Workspace) (row : Row) (spec : RowSpec) : Prop :=
  row.head = spec.head ∧ (spec.2.1 ≠ .dummy → row.connection.isSome) ∧ ∀ c, row.connection = some c →
    ∃ kind, spec.2.1.connection? = some kind ∧ (ws.connection c).IsA kind spec.2.2

/-- The connections of a block are those of a plug and of some rows. -/
structure Fitted (ws : Workspace) (block : Block) (plug : Plug) (specs : List RowSpec) : Prop where
  output : ∀ c, block.output = some c → ∃ check, plug = .value check ∧
    (ws.connection c).IsA .outputValue check
  previous : ∀ c, block.previous = some c → (ws.connection c).IsA .previousStatement none
  next : ∀ c, block.next = some c → (ws.connection c).IsA .nextStatement none
  rows : List.Forall₂ ws.Fills block.rows specs

variable {old ws u t : Workspace} {block : Block} {plug : Plug} {specs : List RowSpec}

theorem Kept.refl : Kept ws ws := ⟨Nat.le_refl _, fun _ _ => rfl, fun _ _ => rfl⟩

theorem Kept.trans (first : Kept ws u) (second : Kept u t) : Kept ws t where
  room := Nat.le_trans first.room second.room
  kind c bound := (second.kind c (Nat.lt_of_lt_of_le bound first.room)).trans (first.kind c bound)
  check c bound := (second.check c (Nat.lt_of_lt_of_le bound first.room)).trans (first.check c bound)

theorem Kept.isA (kept : Kept ws t) {c : Nat} (bound : c < ws.connections.size) {kind : ConnectionKind}
    {check : TypeCheck} (isA : (ws.connection c).IsA kind check) : (t.connection c).IsA kind check :=
  ⟨(kept.kind c bound).trans isA.1, (kept.check c bound).trans isA.2⟩

theorem kept_withConnection (owner : Nat) (kind : ConnectionKind) (check : TypeCheck) :
    Kept ws (ws.withConnection owner kind check) := by
  refine ⟨?_, fun c bound => ?_, fun c bound => ?_⟩
  · rw [withConnection, Array.size_push]
    exact Nat.le_succ _
  · rw [connection_withConnection_lt bound]
  · rw [connection_withConnection_lt bound]

theorem kept_retarget (c : Nat) (target : Option Nat) : Kept ws (ws.retarget c target) := by
  have same : ∀ d < ws.connections.size, ((ws.retarget c target).connection d).kind = (ws.connection d).kind ∧
      ((ws.retarget c target).connection d).check = (ws.connection d).check := by
    intro d bound
    rw [connection, retarget, Array.getElem?_modify, Array.getElem?_eq_getElem bound, connection,
      Array.getElem?_eq_getElem bound]
    split_ifs <;> exact ⟨rfl, rfl⟩
  exact ⟨by simp [retarget], fun d bound => (same d bound).1, fun d bound => (same d bound).2⟩

theorem Begun.kept (begun : Begun old ws block) : Kept old ws := by
  have frozen : ∀ c < old.connections.size, ws.connection c = old.connection c := fun c bound => by
    rw [connection, begun.frozen c bound]
    rfl
  exact ⟨begun.grows, fun c bound => by rw [frozen c bound], fun c bound => by rw [frozen c bound]⟩

/-- A block stays fitted while connections keep what they are. -/
theorem Fitted.kept (fitted : ws.Fitted block plug specs) (kept : Kept ws t)
    (bound : ∀ c ∈ block.points, c < ws.connections.size) : t.Fitted block plug specs where
  output c there := by
    obtain ⟨check, same, isA⟩ := fitted.output c there
    exact ⟨check, same, kept.isA (bound c (by simp [Block.points, there])) isA⟩
  previous c there := kept.isA (bound c (by simp [Block.points, there])) (fitted.previous c there)
  next c there := kept.isA (bound c (by simp [Block.points, there])) (fitted.next c there)
  rows := by
    have within : ∀ row ∈ block.rows, ∀ c, row.connection = some c → c < ws.connections.size :=
      fun row member c point => bound c (Block.mem_points_of_row member point)
    have related := fitted.rows
    clear fitted
    generalize block.rows = rows at within related
    induction related with
    | nil => exact .nil
    | cons first _ ih =>
      obtain ⟨head, linked, each⟩ := first
      refine .cons ⟨head, linked, fun c point => ?_⟩
        (ih fun row member => within row (List.mem_cons_of_mem _ member))
      obtain ⟨kind, same, isA⟩ := each c point
      exact ⟨kind, same, kept.isA (within _ (List.mem_cons_self ..) c point) isA⟩

/-- A block with the connections of a fitted one is fitted, while the connections are the same. -/
theorem Fitted.reshape (fitted : ws.Fitted block plug specs) {other : Block}
    (same : t.connections = ws.connections) (rows : other.rows = block.rows)
    (points : (other.output, other.previous, other.next) = (block.output, block.previous, block.next)) :
    t.Fitted other plug specs := by
  obtain ⟨output, previous, next⟩ : other.output = block.output ∧ other.previous = block.previous ∧
      other.next = block.next := by simpa using points
  have connection : t.connection = ws.connection := by
    funext c
    rw [Workspace.connection, Workspace.connection, same]
  refine ⟨?_, ?_, ?_, ?_⟩
  · rw [output, connection]
    exact fitted.output
  · rw [previous, connection]
    exact fitted.previous
  · rw [next, connection]
    exact fitted.next
  · have fills : t.Fills = ws.Fills := by
      funext row spec
      rw [Fills, Fills, connection]
    rw [rows, fills]
    exact fitted.rows

theorem block_change {b : Nat} (bound : b < ws.blocks.size) (f : Block → Block) :
    (ws.change b f).block b = f (ws.block b) := by
  rw [Workspace.block, Workspace.change, Array.getElem?_modify, if_pos rfl, Array.getElem?_eq_getElem bound,
    Workspace.block, Array.getElem?_eq_getElem bound]
  rfl

theorem kept_withRow (b : Nat) (name : String) (kind : RowKind) (check : TypeCheck) :
    Kept ws (ws.withRow b name kind check) := by
  unfold Workspace.withRow
  split
  · rename_i point _
    have kept : Kept ws (ws.withConnection b point check) := kept_withConnection b point check
    exact ⟨kept.room, kept.kind, kept.check⟩
  · exact ⟨Nat.le_refl _, fun _ _ => rfl, fun _ _ => rfl⟩

/-- A new row comes last; its connection is the last one, if it has one. -/
theorem block_withRow {b : Nat} (bound : b < ws.blocks.size) (name : String) (kind : RowKind)
    (check : TypeCheck) :
    (ws.withRow b name kind check).block b =
      { ws.block b with
        rows := (ws.block b).rows ++ [⟨kind, name, kind.connection?.map fun _ => ws.connections.size⟩] } := by
  unfold Workspace.withRow
  cases kind.connection? with
  | none => exact block_change bound _
  | some point => exact @block_change (ws.withConnection b point check) b bound _

theorem fills_withRow (b : Nat) (name : String) (kind : RowKind) (check : TypeCheck) :
    (ws.withRow b name kind check).Fills ⟨kind, name, kind.connection?.map fun _ => ws.connections.size⟩
      (name, kind, check) := by
  refine ⟨rfl, fun proper => ?_, fun c point => ?_⟩
  · cases kind with
    | dummy => exact absurd rfl proper
    | _ => rfl
  · unfold Workspace.withRow
    cases opens : kind.connection? with
    | none =>
      rw [opens] at point
      cases point
    | some opening =>
      rw [opens] at point
      cases point
      refine ⟨opening, rfl, ?_⟩
      show ((ws.withConnection b opening check).connection ws.connections.size).IsA opening check
      rw [connection_withConnection_size]
      exact ⟨rfl, rfl⟩

theorem fitted_bare
    (bare : block.output = none ∧ block.previous = none ∧ block.next = none ∧ block.rows = []) :
    ws.Fitted block plug [] := by
  obtain ⟨noOutput, noPrevious, noNext, noRows⟩ := bare
  refine ⟨fun c there => ?_, fun c there => ?_, fun c there => ?_, noRows ▸ .nil⟩
  · rw [noOutput] at there
    cases there
  · rw [noPrevious] at there
    cases there
  · rw [noNext] at there
    cases there

/-- What a fitted block has in the row of a name. -/
theorem Fitted.row? (fitted : ws.Fitted block plug specs) (name : String) :
    Option.Rel ws.Fills (block.row? name) (specs.find? (·.1 = name)) := by
  have related := fitted.rows
  clear fitted
  rw [Block.row?]
  generalize block.rows = rows at related
  induction related with
  | nil => exact .none
  | @cons row spec _ _ first _ ih =>
    have named : row.name = spec.1 := congrArg RowHead.name first.1
    by_cases same : spec.1 = name
    · rw [List.find?_cons_of_pos (by simpa [named] using same), List.find?_cons_of_pos (by simpa using same)]
      exact .some first
    · rw [List.find?_cons_of_neg (by simpa [named] using same), List.find?_cons_of_neg (by simpa using same)]
      exact ih

end Workspace

namespace Edit

open Workspace

variable {old ws t : Workspace} {u : Unit} {block : Block} {plug : Plug} {specs : List RowSpec}

theorem fitted_plugIn (begun : Begun old ws block)
    (bare : block.output = none ∧ block.previous = none ∧ block.next = none ∧ block.rows = [])
    (plugged : Yields (plugIn old.blocks.size plug) ws u t) :
    ∃ shaped, Begun old t shaped ∧ t.Fitted shaped plug [] ∧ shaped.Plugs plug ∧
      shaped.toBlockContent = block.toBlockContent := by
  obtain ⟨output, previous, next, begunThere, plugs⟩ :=
    begun_plugIn begun ⟨bare.1, bare.2.1, bare.2.2.1⟩ plugged
  refine ⟨_, begunThere, ?_, plugs, rfl⟩
  have here := begunThere.block
  obtain ⟨noOutput, noPrevious, noNext, noRows⟩ := bare
  have unplugged : ws.block old.blocks.size = block := begun.block
  cases plug with
  | value check =>
    obtain ⟨_, rfl⟩ := yields_setOutput.mp plugged
    have made := begun.withOutput noOutput check
    have shape := made.block.symm.trans here
    injection shape with _ _ _ _ _ outputs previouses nexts
    subst outputs previouses nexts
    refine ⟨fun c there => ⟨check, rfl, ?_⟩, fun c there => ?_, fun c there => ?_, noRows ▸ .nil⟩
    · cases there
      show ((ws.withConnection old.blocks.size .outputValue check).connection ws.connections.size).IsA _ _
      rw [connection_withConnection_size]
      exact ⟨rfl, rfl⟩
    · rw [show block.previous = some c from there] at noPrevious
      cases noPrevious
    · rw [show block.next = some c from there] at noNext
      cases noNext
  | statement =>
    obtain ⟨_, middle, first, second⟩ := yields_bind.mp plugged
    obtain ⟨_, rfl⟩ := yields_setPrevious.mp first
    obtain rfl := yields_setNext.mp second
    have before := begun.withPrevious noPrevious none
    have made := before.withNext noNext none
    have shape := made.block.symm.trans here
    injection shape with _ _ _ _ _ outputs previouses nexts
    subst outputs previouses nexts
    have size : (ws.withConnection old.blocks.size .previousStatement none).connections.size =
        ws.connections.size + 1 := Array.size_push ..
    refine ⟨fun c there => ?_, fun c there => ?_, fun c there => ?_, noRows ▸ .nil⟩
    · rw [show block.output = some c from there] at noOutput
      cases noOutput
    · cases there
      show ((Workspace.withConnection ((ws.withConnection old.blocks.size .previousStatement none).change
        old.blocks.size _) old.blocks.size .nextStatement none).connection ws.connections.size).IsA _ _
      rw [connection_withConnection_lt (by show _ < (ws.withConnection _ _ _).connections.size; omega)]
      show ((ws.withConnection old.blocks.size .previousStatement none).connection ws.connections.size).IsA
        _ _
      rw [connection_withConnection_size]
      exact ⟨rfl, rfl⟩
    · cases there
      show ((Workspace.withConnection ((ws.withConnection old.blocks.size .previousStatement none).change
        old.blocks.size _) old.blocks.size .nextStatement none).connection _).IsA _ _
      rw [connection_withConnection_size]
      exact ⟨rfl, rfl⟩
  | loose =>
    obtain ⟨_, rfl⟩ := yields_pure.mp plugged
    have shape := unplugged.symm.trans here
    rw [← shape]
    exact fitted_bare ⟨noOutput, noPrevious, noNext, noRows⟩

/-- Rows that are added are fitted as well. -/
theorem fitted_addRows {more : List RowSpec} (begun : Begun old ws block)
    (fitted : ws.Fitted block plug specs) (added : Yields (addRows old.blocks.size more) ws u t) :
    ∃ rows, Begun old t { block with rows := block.rows ++ rows } ∧
      t.Fitted { block with rows := block.rows ++ rows } plug (specs ++ more) := by
  induction more generalizing ws block specs with
  | nil =>
    rw [addRows] at added
    obtain ⟨_, rfl⟩ := yields_pure.mp added
    exact ⟨[], by simpa using begun, by simpa using fitted⟩
  | cons spec rest ih =>
    obtain ⟨name, kind, check⟩ := spec
    rw [addRows] at added
    obtain ⟨_, next, first, others⟩ := yields_bind.mp added
    obtain ⟨unused, rfl⟩ := yields_addRow.mp first
    rw [begun.block] at unused
    obtain ⟨connection, begunThere⟩ := begun.withRow unused kind check
    have kept := @kept_withRow ws old.blocks.size name kind check
    have newest : (ws.withRow old.blocks.size name kind check).Fills ⟨kind, name, connection⟩
        (name, kind, check) := by
      have bound : old.blocks.size < ws.blocks.size := by rw [begun.size]; exact Nat.lt_succ_self _
      have shape := begunThere.block.symm.trans (block_withRow bound name kind check)
      rw [begun.block] at shape
      have rows := List.append_cancel_left (congrArg Block.rows shape)
      obtain rfl : connection = kind.connection?.map fun _ => ws.connections.size := by simpa using rows
      exact fills_withRow old.blocks.size name kind check
    have older := fitted.kept kept fun c member => (begun.range c member).2
    obtain ⟨rows, final, fits⟩ := ih begunThere
      ⟨older.output, older.previous, older.next, List.rel_append older.rows (.cons newest .nil)⟩ others
    refine ⟨⟨kind, name, connection⟩ :: rows, ?_, ?_⟩
    · simpa using final
    · simpa using fits

/-- A shape gives a block without one fitting plugs and rows, all that the mutation calls for. -/
theorem fitted_applyShape (begun : Begun old ws block)
    (bare : block.output = none ∧ block.previous = none ∧ block.next = none ∧ block.rows = [])
    (applied : Yields (applyShape old.blocks.size) ws u t) :
    ∃ kind shaped, BlockKind.ofName? block.type = some kind ∧ Begun old t shaped ∧
      t.Fitted shaped kind.shape.plug (kind.rows block.mutation) ∧
      ∀ family, kind.shape.family = some family → (family.rows block.mutation).2 = none := by
  unfold applyShape at applied
  rw [yields_get_bind, begun.block] at applied
  cases known : BlockKind.ofName? block.type with
  | none => simp [known] at applied
  | some kind =>
    simp only [known] at applied
    obtain ⟨_, _, plugged, applied⟩ := yields_bind.mp applied
    obtain ⟨shaped, begun, fitted, _, content⟩ := fitted_plugIn begun bare plugged
    obtain ⟨_, _, added, applied⟩ := yields_bind.mp applied
    obtain ⟨rows, begun, fitted⟩ := fitted_addRows begun fitted added
    obtain ⟨_, _, filled, applied⟩ := yields_bind.mp applied
    obtain rfl := yields_modifyBlock.mp filled
    have begun :=
      begun.change (fun block => { block with fields := block.fields.fill kind.shape.fields }) rfl rfl
    refine ⟨kind, ?_⟩
    unfold BlockKind.rows
    cases has : kind.shape.family with
    | none =>
      simp only [has] at applied
      obtain ⟨_, rfl⟩ := yields_pure.mp applied
      refine ⟨_, rfl, begun, ?_, by simp⟩
      rw [List.nil_append] at fitted
      exact (List.append_nil kind.shape.rows).symm ▸ fitted.reshape rfl rfl rfl
    | some family =>
      have mutation : shaped.mutation = block.mutation := congrArg BlockContent.mutation content
      simp only [has, yields_get_bind, begun.block, mutation] at applied
      obtain ⟨_, _, added, applied⟩ := yields_bind.mp applied
      obtain ⟨more, begun, fitted⟩ :=
        fitted_addRows begun (fitted.reshape rfl rfl rfl) added
      cases stop : (family.rows block.mutation).2 with
      | some error => simp [stop] at applied
      | none =>
        simp only [stop] at applied
        obtain ⟨_, rfl⟩ := yields_pure.mp applied
        refine ⟨_, rfl, begun, by simpa using fitted, ?_⟩
        rintro other same
        obtain rfl := Option.some.inj same
        exact stop

end Edit

/-- What keeps the block of a specification from getting all rows that its mutation calls for. -/
def BlockSpec.stop (spec : BlockSpec) : Option CountError :=
  ((BlockKind.ofName? spec.type).bind (·.shape.family)).bind fun family =>
    (family.rows (Table.ofEntries spec.mutation)).2

namespace Edit

open Workspace

variable {ws t : Workspace} {b : Nat}

/-- The block of a specification is fitted, and got all its rows. -/
theorem fitted_buildBlock {spec : BlockSpec} {asValue : Bool} {inputs : Rows BlockSpec String}
    (built : Yields (buildBlock spec asValue inputs) ws b t) :
    t.Fitted (t.block b) (spec.plug asValue) (spec.rows inputs) ∧ spec.stop = none := by
  unfold buildBlock at built
  unfold BlockSpec.plug BlockSpec.rows BlockSpec.stop
  by_cases known : isKnownType spec.type
  · simp only [known, if_true] at built
    obtain ⟨_, next, made, built⟩ := yields_bind.mp built
    obtain ⟨_, _, changed, built⟩ := yields_bind.mp built
    obtain rfl := yields_modifyBlock.mp changed
    obtain ⟨rfl, rfl⟩ := yields_pure.mp built
    unfold newBlock at made
    rw [yields_atomically] at made
    obtain ⟨_, _, first, made⟩ := yields_bind.mp made
    obtain ⟨rfl, rfl⟩ := yields_makeBlock.mp first
    have begun := begun_makeBlock ws spec.type spec.ownId
    obtain ⟨_, _, mutated, made⟩ := yields_bind.mp made
    obtain rfl := yields_modifyBlock.mp mutated
    have begun :=
      begun.change (fun block => { block with mutation := block.mutation.update spec.mutation }) rfl rfl
    obtain ⟨_, _, shapedStep, made⟩ := yields_bind.mp made
    obtain ⟨kind, shaped, named, begun, fitted, stop⟩ :=
      fitted_applyShape begun ⟨rfl, rfl, rfl, rfl⟩ shapedStep
    obtain ⟨_, _, filled, made⟩ := yields_bind.mp made
    obtain rfl := yields_modifyBlock.mp filled
    have begun := begun.change (fun block => { block with fields := block.fields.update [] }) rfl rfl
    obtain ⟨_, _, joined, made⟩ := yields_bind.mp made
    obtain ⟨_, _, rfl⟩ := yields_addMember.mp joined
    obtain ⟨rfl, rfl⟩ := yields_pure.mp made
    have last := (begun.joined ws.blocks.size).change (fun block =>
      { block with
        fields := block.fields.update spec.fields
        comment := spec.comment
        disabled := spec.disabled
        x := spec.x
        y := spec.y }) rfl rfl
    have named : BlockKind.ofName? spec.type = some kind := named
    have rows := congrArg Block.rows last.block
    have points := congrArg (fun block => (block.output, block.previous, block.next)) last.block
    simp only [named, Option.bind_some]
    refine ⟨fitted.reshape rfl rows points, ?_⟩
    cases has : kind.shape.family with
    | none => rfl
    | some family => exact stop family has
  · have unnamed : BlockKind.ofName? spec.type = none := by simpa [isKnownType] using known
    simp only [known] at built
    obtain ⟨_, next, made, built⟩ := yields_bind.mp built
    obtain ⟨_, _, changed, built⟩ := yields_bind.mp built
    obtain rfl := yields_modifyBlock.mp changed
    obtain ⟨rfl, rfl⟩ := yields_pure.mp built
    unfold newUnknownBlock at made
    obtain ⟨_, _, first, made⟩ := yields_bind.mp made
    obtain ⟨rfl, rfl⟩ := yields_makeBlock.mp first
    have begun := begun_makeBlock ws spec.type spec.ownId
    obtain ⟨_, _, mutated, made⟩ := yields_bind.mp made
    obtain rfl := yields_modifyBlock.mp mutated
    have begun :=
      begun.change (fun block => { block with mutation := block.mutation.update spec.mutation }) rfl rfl
    obtain ⟨_, _, plugged, made⟩ := yields_bind.mp made
    obtain ⟨shaped, begun, fitted, _, _⟩ := fitted_plugIn begun ⟨rfl, rfl, rfl, rfl⟩ plugged
    obtain ⟨_, _, added, made⟩ := yields_bind.mp made
    obtain ⟨rows, begun, fitted⟩ := fitted_addRows begun fitted added
    obtain ⟨_, _, joined, made⟩ := yields_bind.mp made
    obtain ⟨_, _, rfl⟩ := yields_addMember.mp joined
    obtain ⟨rfl, rfl⟩ := yields_pure.mp made
    have last := (begun.joined ws.blocks.size).change (fun block =>
      { block with
        fields := block.fields.update spec.fields
        comment := spec.comment
        disabled := spec.disabled
        x := spec.x
        y := spec.y }) rfl rfl
    have rows := congrArg Block.rows last.block
    have points := congrArg (fun block => (block.output, block.previous, block.next)) last.block
    simp only [unnamed, Option.bind_none, and_true]
    exact fitted.reshape rfl rows points

end Edit

end BlockCompiler
