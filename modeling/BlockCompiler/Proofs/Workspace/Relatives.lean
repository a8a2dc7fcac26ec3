import BlockCompiler.Proofs.Document.Made
import BlockCompiler.Proofs.Workspace.Lawful

/-!
Parents and children. They agree as long as no block gives up a connection that is linked.
-/

namespace BlockCompiler

theorem Block.mem_points {block : Block} {c : Nat} :
    c ∈ block.points ↔ c ∈ block.plugs ∨ c ∈ block.sockets := by
  simp [points, plugs, sockets, or_assoc]

theorem Block.mem_points_iff {block : Block} {c : Nat} : c ∈ block.points ↔
    block.output = some c ∨ block.previous = some c ∨ block.next = some c ∨
    ∃ row ∈ block.rows, row.connection = some c := by
  simp [points]

namespace Workspace

variable {ws t old : Workspace} {b p c d : Nat}

theorem target?_some :
    ws.target? (some c) = some b ↔ ∃ d, (ws.connection c).target = some d ∧ (ws.connection d).owner = b := by
  simp [target?, Option.bind_eq_some_iff]

theorem exists_of_target? {connection : Option Nat} (linked : ws.target? connection = some b) :
    ∃ c, connection = some c ∧ ws.target? (some c) = some b := by
  cases connection with
  | none => cases linked
  | some c => exact ⟨c, rfl, linked⟩

theorem mem_children : b ∈ ws.children p ↔ ∃ c ∈ (ws.block p).sockets, ws.target? (some c) = some b := by
  rw [children, next?, List.mem_append, List.mem_filterMap, Option.mem_toList]
  simp only [Block.sockets, List.mem_append, Option.mem_toList, List.mem_filterMap]
  constructor
  · rintro (⟨row, member, linked⟩ | linked)
    · obtain ⟨c, here, linked⟩ := exists_of_target? linked
      exact ⟨c, .inr ⟨row, member, here⟩, linked⟩
    · obtain ⟨c, next, linked⟩ := exists_of_target? linked
      exact ⟨c, .inl next, linked⟩
  · rintro ⟨c, next | ⟨row, member, here⟩, linked⟩
    · exact .inr (next ▸ linked)
    · exact .inl ⟨row, member, here ▸ linked⟩

theorem parent?_eq_some (onePlug : (ws.block b).output = none ∨ (ws.block b).previous = none) :
    ws.parent? b = some p ↔ ∃ c ∈ (ws.block b).plugs, ws.target? (some c) = some p := by
  have free : ws.target? none = none := rfl
  unfold parent? Block.plugs
  rcases onePlug with none | none
  · rw [none, free, Option.none_or]
    cases (ws.block b).previous <;> simp [free]
  · rw [none, free, Option.or_none]
    cases (ws.block b).output <;> simp [free]

/-- Connections that are linked are still at their blocks. -/
def Held (ws : Workspace) : Prop :=
  ∀ c, (ws.connection c).target.isSome → c ∈ (ws.block (ws.connection c).owner).points

/-- A block is a child of another just if that is its parent, where linked connections are still at their
blocks. -/
theorem Lawful.mem_children_iff (lawful : ws.Lawful) (held : ws.Held) (p b : Nat) :
    b ∈ ws.children p ↔ ws.parent? b = some p := by
  rw [mem_children, parent?_eq_some (lawful.onePlug b)]
  simp only [target?_some]
  constructor
  · rintro ⟨c, socket, d, linked, rfl⟩
    have pair := lawful.links c d linked
    have owns := lawful.sockets p c socket
    have kind : (ws.connection d).kind.isPlug := by
      rw [pair.kind, ConnectionKind.isPlug_opposite, owns.kind]
      rfl
    refine ⟨d, ?_, c, pair.back, owns.owner⟩
    refine (Block.mem_points.mp (held d (by rw [pair.back]; rfl))).resolve_right fun other => ?_
    rw [(lawful.sockets _ d other).kind] at kind
    cases kind
  · rintro ⟨d, plug, c, linked, rfl⟩
    have pair := lawful.links d c linked
    have owns := lawful.plugs b d plug
    have kind : (ws.connection c).kind.isPlug = false := by
      rw [pair.kind, ConnectionKind.isPlug_opposite, owns.kind]
      rfl
    refine ⟨c, ?_, d, pair.back, owns.owner⟩
    refine (Block.mem_points.mp (held c (by rw [pair.back]; rfl))).resolve_left fun other => ?_
    rw [(lawful.plugs _ c other).kind] at kind
    cases kind

end Workspace

/-- An operation leaves linked connections at their blocks, and links none that its block has given up. -/
def Operation.Spares (ws : Workspace) : Operation → Prop
  | setOutput b _ => ∀ c, (ws.block b).output = some c → (ws.connection c).target = none
  | setPrevious b _ => ∀ c, (ws.block b).previous = some c → (ws.connection c).target = none
  | setNext b _ => ∀ c, (ws.block b).next = some c → (ws.connection c).target = none
  | link c d => c ∈ (ws.block (ws.connection c).owner).points ∧ d ∈ (ws.block (ws.connection d).owner).points
  | _ => True

namespace Workspace

variable {ws t old : Workspace} {b p c d : Nat}

namespace Held

theorem change (held : ws.Held) {f : Block → Block}
    (kept : ∀ c ∈ (ws.block b).points, (ws.connection c).target.isSome → c ∈ (f (ws.block b)).points) :
    (ws.change b f).Held := by
  intro c linked
  have before := held c linked
  show c ∈ ((ws.change b f).block (ws.connection c).owner).points
  by_cases same : (ws.connection c).owner = b
  · rw [same] at before ⊢
    by_cases bound : b < ws.blocks.size
    · rw [block_change bound]
      exact kept c before linked
    · rw [block_of_le (Nat.le_of_not_lt bound)] at before
      cases before
  · rw [block_change_of_ne same]
    exact before

theorem withConnection (held : ws.Held) {owner : Nat} {kind : ConnectionKind} {check : TypeCheck} :
    (ws.withConnection owner kind check).Held := by
  intro c linked
  have bound : c < ws.connections.size := by
    obtain ⟨d, found⟩ := Option.isSome_iff_exists.mp linked
    have bound := lt_of_target found
    rw [Workspace.withConnection, Array.size_push] at bound
    refine Nat.lt_of_le_of_ne (Nat.le_of_lt_succ bound) ?_
    rintro rfl
    rw [connection_withConnection_size] at found
    cases found
  rw [connection_withConnection_lt bound] at linked ⊢
  exact held c linked

theorem retarget (held : ws.Held) (below : c < ws.connections.size) {target : Option Nat}
    (here : target.isSome → c ∈ (ws.block (ws.connection c).owner).points) : (ws.retarget c target).Held := by
  intro e linked
  rw [(retarget_same below target e).1]
  rw [connection_retarget target below] at linked
  split_ifs at linked with same
  · subst same
    exact here linked
  · exact held e linked

/-- A block in the making has no linked connections. -/
theorem begun (held : old.Held) (lawful : old.Lawful) {block : Block}
    (begun : Begun old t block) : t.Held := by
  intro c linked
  by_cases older : c < old.connections.size
  · have same : t.connection c = old.connection c := by
      rw [connection, begun.frozen c older, connection]
    rw [same] at linked ⊢
    rw [Workspace.block, begun.before _ (lawful.owners c older)]
    exact held c linked
  · obtain ⟨d, found⟩ := Option.isSome_iff_exists.mp linked
    rw [(begun.fresh c (Nat.le_of_not_lt older) (lt_of_target found)).2] at found
    cases found

theorem push (held : ws.Held) (lawful : ws.Lawful) (type : String) (ownId : Option String) :
    Held { ws with blocks := ws.blocks.push { type, ownId } } := by
  intro c linked
  obtain ⟨d, found⟩ := Option.isSome_iff_exists.mp linked
  have before := held c linked
  have bound := lawful.owners c (lt_of_target found)
  show c ∈ ((ws.blocks.push ({ type, ownId } : Block))[(ws.connection c).owner]?.getD default).points
  rwa [Array.getElem?_push_lt bound, ← Array.getElem?_eq_getElem bound]

/-- Two connections that are at their blocks may be linked. -/
theorem link (held : ws.Held) (bound : c < ws.connections.size ∧ d < ws.connections.size)
    (here : c ∈ (ws.block (ws.connection c).owner).points)
    (there : d ∈ (ws.block (ws.connection d).owner).points) :
    ((ws.retarget c (some d)).retarget d (some c)).Held := by
  refine (held.retarget bound.1 fun _ => here).retarget ((size_retarget ws ..).symm ▸ bound.2) fun _ => ?_
  rw [(retarget_same bound.1 (some d) d).1]
  exact there

/-- A block that gets a new connection keeps those that are linked. -/
theorem withPoint (held : ws.Held) (lawful : ws.Lawful) {kind : ConnectionKind} {check : TypeCheck}
    {f : Block → Block}
    (kept : ∀ c ∈ (ws.block b).points, (ws.connection c).target.isSome → c ∈ (f (ws.block b)).points) :
    ((ws.withConnection b kind check).change b f).Held := by
  refine held.withConnection.change fun c point linked => kept c point ?_
  have bound : c < ws.connections.size := by
    rcases Block.mem_points.mp point with plug | socket
    · exact (lawful.plugs b c plug).bound
    · exact (lawful.sockets b c socket).bound
  rwa [connection_withConnection_lt bound] at linked

theorem withRow (held : ws.Held) (lawful : ws.Lawful) (name : String) (kind : RowKind) (check : TypeCheck) :
    (ws.withRow b name kind check).Held := by
  have kept : ∀ row : Row, ∀ c ∈ (ws.block b).points, (ws.connection c).target.isSome →
      c ∈ ({ ws.block b with rows := (ws.block b).rows ++ [row] } : Block).points := by
    intro row c point _
    rw [points_with_row]
    exact List.mem_append_left _ point
  unfold Workspace.withRow
  split
  · exact held.withPoint lawful (kept _)
  · exact held.change (kept _)

/-- An operation that spares linked connections keeps them at their blocks. -/
theorem after (held : ws.Held) (lawful : ws.Lawful) {operation : Operation} (refers : operation.Refers ws)
    (spares : operation.Spares ws) : (operation.after ws).Held := by
  have linking : ∀ p b, ∀ c ∈ (ws.block p).sockets, ∀ d ∈ (ws.block b).plugs,
      ((ws.retarget c (some d)).retarget d (some c)).Held := by
    intro p b c socket d plug
    have here := lawful.sockets p c socket
    have there := lawful.plugs b d plug
    refine held.link ⟨here.bound, there.bound⟩ ?_ ?_
    · rw [here.owner]
      exact Block.mem_points.mpr (.inr socket)
    · rw [there.owner]
      exact Block.mem_points.mpr (.inl plug)
  rcases operation.after_cases ws with yields | same
  · generalize operation.after ws = t at yields ⊢
    cases operation with
    | newBlock =>
      obtain ⟨b, made, _⟩ := yields_map.mp yields
      obtain ⟨_, _, _, block, _, begun, _⟩ := Edit.begun_newBlock made
      have joined : (ws.joined b).Held := held
      exact joined.begun (lawful.withMembers _) begun
    | makeBlock =>
      obtain ⟨_, made, _⟩ := yields_map.mp yields
      obtain ⟨_, rfl⟩ := Edit.yields_makeBlock.mp made
      exact held.push lawful _ _
    | addMember =>
      obtain ⟨_, _, rfl⟩ := Edit.yields_addMember.mp yields
      exact held
    | addRow b name kind check =>
      obtain ⟨_, rfl⟩ := Edit.yields_addRow.mp yields
      exact held.withRow lawful name kind check
    | setOutput b check =>
      obtain ⟨_, rfl⟩ := Edit.yields_setOutput.mp yields
      refine held.withPoint lawful fun c point linked => ?_
      have other : (ws.block b).output ≠ some c := fun given => by simp [spares c given] at linked
      rw [Block.mem_points_iff] at point ⊢
      tauto
    | setPrevious b check =>
      obtain ⟨_, rfl⟩ := Edit.yields_setPrevious.mp yields
      refine held.withPoint lawful fun c point linked => ?_
      have other : (ws.block b).previous ≠ some c := fun given => by simp [spares c given] at linked
      rw [Block.mem_points_iff] at point ⊢
      tauto
    | setNext b check =>
      obtain rfl := Edit.yields_setNext.mp yields
      refine held.withPoint lawful fun c point linked => ?_
      have other : (ws.block b).next ≠ some c := fun given => by simp [spares c given] at linked
      rw [Block.mem_points_iff] at point ⊢
      tauto
    | link c d =>
      obtain ⟨_, _, _, _, _, rfl⟩ := Edit.yields_link.mp yields
      exact held.link refers spares.1 spares.2
    | plugInto b _ child =>
      obtain ⟨c, socket, d, plug, linked⟩ := Edit.exists_link_of_plugInto yields
      obtain ⟨_, _, _, _, _, rfl⟩ := Edit.yields_link.mp linked
      exact linking b child c socket d plug
    | follow b child =>
      obtain ⟨c, socket, d, plug, linked⟩ := Edit.exists_link_of_follow yields
      obtain ⟨_, _, _, _, _, rfl⟩ := Edit.yields_link.mp linked
      exact linking b child c socket d plug
    | unlink c =>
      rcases Edit.yields_unlink.mp yields with ⟨_, rfl⟩ | ⟨d, linked, rfl⟩
      · exact held
      · have bound := lt_of_target (lawful.links c d linked).back
        refine (held.retarget bound (by simp)).retarget ?_ (by simp)
        exact (size_retarget ws ..).symm ▸ lt_of_target linked
  · rw [same]
    exact held

end Held

/-- Where operations spare linked connections, these are still at their blocks. -/
theorem Reached.held (reached : ws.Reached fun ws operation => operation.Spares ws) : ws.Held := by
  induction reached with
  | start => exact fun c linked => by cases linked
  | next before refers spares ih => exact ih.after before.lawful refers spares

/-- Where operations spare linked connections, a block is a child of another just if that is its parent. -/
theorem Reached.mem_children_iff_parent (reached : ws.Reached fun ws operation => operation.Spares ws)
    (p b : Nat) :
    b ∈ ws.children p ↔ ws.parent? b = some p :=
  reached.lawful.mem_children_iff reached.held p b

/-- One text is printed after another, and then on its own. -/
theorem Reached.mem_children_iff_parent_prints :
    let print := Operation.newBlock "text_print" none [] []
    let followed := (Operation.follow 0 1).after (print.after (print.after {}))
    let ws := (Operation.setPrevious 1 none).after ((Operation.unlink 1).after followed)
    followed.children 0 = [1] ∧ ws.topBlocks = [0, 1] ∧ (ws.Reached fun ws operation => operation.Spares ws) ∧
      ∀ p b, b ∈ ws.children p ↔ ws.parent? b = some p := by
  intro print followed ws
  have reached : ws.Reached fun ws operation => operation.Spares ws := by
    have twice : (print.after (print.after {})).Reached fun ws operation => operation.Spares ws :=
      .next (.next (.start "workspace" false) trivial trivial) trivial trivial
    refine .next (.next (.next twice ?_ trivial) ?_ trivial) ?_ ?_
    · exact ⟨by decide +kernel, by decide +kernel⟩
    · exact (by decide +kernel : 1 < followed.connections.size)
    · exact (by decide +kernel : 1 < ((Operation.unlink 1).after followed).blocks.size)
    · intro c point
      have here : (((Operation.unlink 1).after followed).block 1).previous = some 3 := by decide +kernel
      obtain rfl := Option.some.inj (here.symm.trans point)
      decide +kernel
  exact ⟨by decide +kernel, by decide +kernel, reached, Reached.mem_children_iff_parent reached⟩

/-- A block that gets a new previous connection while it follows another is still a child of that, and is at
the top as well. -/
theorem children_of_setPrevious :
    let print := Operation.newBlock "text_print" none [] []
    let ws :=
      (Operation.setPrevious 1 none).after ((Operation.follow 0 1).after (print.after (print.after {})))
    ws.Reached (fun _ _ => True) ∧ 1 ∈ ws.children 0 ∧ ws.parent? 1 = none ∧ ws.topBlocks = [0, 1] := by
  intro print ws
  refine ⟨?_, by decide +kernel, by decide +kernel, by decide +kernel⟩
  have twice : (print.after (print.after {})).Reached fun _ _ => True :=
    .next (.next (.start "workspace" false) trivial trivial) trivial trivial
  refine .next (.next twice ?_ trivial) ?_ trivial
  · exact ⟨by decide +kernel, by decide +kernel⟩
  · exact (by decide +kernel : 1 < ((Operation.follow 0 1).after (print.after (print.after {}))).blocks.size)

end Workspace

end BlockCompiler
