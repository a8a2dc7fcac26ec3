import BlockCompiler.Proofs.Workspace.Begun
import Mathlib.Data.List.Pairwise

/-!
Workspaces that grow: old blocks stay as they are, and of the old connections only some are linked anew.
-/

namespace BlockCompiler

/-- The connections by which a block plugs into others. -/
def Block.plugs (block : Block) : List Nat := block.output.toList ++ block.previous.toList

theorem Block.mem_points_of_mem_plugs {block : Block} {c : Nat} (member : c ∈ block.plugs) :
    c ∈ block.points :=
  List.mem_append_left _ (List.mem_append_left _ member)

theorem Block.mem_points_of_next {block : Block} {c : Nat} (follower : block.next = some c) :
    c ∈ block.points := by
  simp [points, follower]

theorem Block.mem_points_of_row {block : Block} {row : Row} {c : Nat} (member : row ∈ block.rows)
    (point : row.connection = some c) : c ∈ block.points :=
  List.mem_append_right _ (List.mem_filterMap.mpr ⟨row, member, point⟩)

theorem Block.row?_mem {block : Block} {name : String} {row : Row} (found : block.row? name = some row) :
    row ∈ block.rows ∧ row.name = name :=
  ⟨List.mem_of_find?_eq_some found, by simpa using List.find?_some found⟩

namespace Block.Sound

variable {block : Block} (sound : block.Sound) {c : Nat}
include sound

theorem next_not_plug (follower : block.next = some c) : c ∉ block.plugs := by
  intro plug
  have apart := (List.nodup_append.mp (List.nodup_append.mp sound.points).1).2.2
  exact apart c plug c (by simp [follower]) rfl

theorem row_not_plug {row : Row} (member : row ∈ block.rows) (point : row.connection = some c) :
    c ∉ block.plugs := by
  intro plug
  have apart := (List.nodup_append.mp sound.points).2.2
  exact apart c (List.mem_append_left _ plug) c (List.mem_filterMap.mpr ⟨row, member, point⟩) rfl

theorem row_not_next {row : Row} (member : row ∈ block.rows) (point : row.connection = some c) :
    block.next ≠ some c := by
  intro follower
  have apart := (List.nodup_append.mp sound.points).2.2
  exact apart c (List.mem_append_right _ (by simp [follower])) c
    (List.mem_filterMap.mpr ⟨row, member, point⟩) rfl

theorem row_unique {row other : Row} (member : row ∈ block.rows) (otherMember : other ∈ block.rows)
    (point : row.connection = some c) (otherPoint : other.connection = some c) : row = other := by
  have distinct : block.rows.Pairwise fun row other =>
      ∀ c, row.connection = some c → ¬ other.connection = some c := by
    have apart := List.pairwise_filterMap.mp (List.nodup_append.mp sound.points).2.1
    exact apart.imp fun differ c point otherPoint => differ c point c otherPoint rfl
  have symmetric : Std.Symm fun row other : Row =>
      ∀ c, row.connection = some c → ¬ other.connection = some c :=
    ⟨fun _ _ differ c point otherPoint => differ c otherPoint point⟩
  by_contra differ
  exact distinct.forall member otherMember differ c point otherPoint

end Block.Sound

namespace Workspace

/-- A block of a workspace has sound connections of its own. -/
structure Holds (ws : Workspace) (n : Nat) : Prop where
  bound : n < ws.blocks.size
  sound : (ws.block n).Sound
  own : ∀ c ∈ (ws.block n).points, c < ws.connections.size ∧ (ws.connection c).owner = n

/-- Two connections are linked with each other. -/
def Linked (ws : Workspace) (c d : Nat) : Prop :=
  (ws.connection c).target = some d ∧ (ws.connection d).target = some c

/-- A workspace grows into another: of its connections only the touched ones may be linked otherwise. -/
structure Grown (ws t : Workspace) (Touched : Nat → Prop) : Prop where
  size : ws.blocks.size ≤ t.blocks.size
  blocks : ∀ n < ws.blocks.size, t.block n = ws.block n
  room : ws.connections.size ≤ t.connections.size
  owner : ∀ c < ws.connections.size, (t.connection c).owner = (ws.connection c).owner
  target : ∀ c < ws.connections.size, ¬ Touched c → (t.connection c).target = (ws.connection c).target

variable {ws u t : Workspace} {Touched Others : Nat → Prop} {n c d : Nat}

theorem Grown.refl : Grown ws ws Touched :=
  ⟨Nat.le_refl _, fun _ _ => rfl, Nat.le_refl _, fun _ _ => rfl, fun _ _ _ => rfl⟩

theorem Grown.trans (first : Grown ws u Touched) (second : Grown u t Others) :
    Grown ws t fun c => Touched c ∨ Others c where
  size := Nat.le_trans first.size second.size
  blocks n bound := (second.blocks n (Nat.lt_of_lt_of_le bound first.size)).trans (first.blocks n bound)
  room := Nat.le_trans first.room second.room
  owner c bound := (second.owner c (Nat.lt_of_lt_of_le bound first.room)).trans (first.owner c bound)
  target c bound untouched :=
    (second.target c (Nat.lt_of_lt_of_le bound first.room) fun other => untouched (.inr other)).trans
      (first.target c bound fun touched => untouched (.inl touched))

theorem Grown.weaken (grown : Grown ws t Touched)
    (weaker : ∀ c < ws.connections.size, Touched c → Others c) : Grown ws t Others where
  size := grown.size
  blocks := grown.blocks
  room := grown.room
  owner := grown.owner
  target c bound untouched := grown.target c bound fun touched => untouched (weaker c bound touched)

theorem Holds.grown (holds : ws.Holds n) (grown : Grown ws t Touched) : t.Holds n where
  bound := Nat.lt_of_lt_of_le holds.bound grown.size
  sound := by
    rw [grown.blocks n holds.bound]
    exact holds.sound
  own := by
    rw [grown.blocks n holds.bound]
    intro c member
    obtain ⟨below, owner⟩ := holds.own c member
    exact ⟨Nat.lt_of_lt_of_le below grown.room, (grown.owner c below).trans owner⟩

theorem Linked.grown (linked : ws.Linked c d) (grown : Grown ws t Touched)
    (below : c < ws.connections.size ∧ d < ws.connections.size) (untouched : ¬ Touched c ∧ ¬ Touched d) :
    t.Linked c d :=
  ⟨(grown.target c below.1 untouched.1).trans linked.1, (grown.target d below.2 untouched.2).trans linked.2⟩

theorem connection_retarget (target : Option Nat) (below : c < ws.connections.size) :
    (ws.retarget c target).connection d =
      if d = c then { ws.connection c with target } else ws.connection d := by
  simp only [connection, retarget, Array.getElem?_modify]
  by_cases same : c = d
  · subst same
    simp [below]
  · simp [same, Ne.symm same]

/-- Linking two connections touches just these. -/
theorem grown_link (below : c < ws.connections.size ∧ d < ws.connections.size) (differ : c ≠ d) :
    Grown ws ((ws.retarget c (some d)).retarget d (some c)) (fun e => e = c ∨ e = d) ∧
      ((ws.retarget c (some d)).retarget d (some c)).Linked c d := by
  have below' : d < (ws.retarget c (some d)).connections.size := by
    rw [retarget, Array.size_modify]
    exact below.2
  have shape : ∀ e, ((ws.retarget c (some d)).retarget d (some c)).connection e =
      if e = d then { ws.connection d with target := some c }
      else if e = c then { ws.connection c with target := some d } else ws.connection e := by
    intro e
    rw [connection_retarget _ below', connection_retarget _ below.1, connection_retarget _ below.1,
      if_neg (Ne.symm differ)]
  constructor
  · refine ⟨Nat.le_refl _, fun _ _ => rfl, ?_, ?_, ?_⟩
    · simp [retarget]
    · intro e _
      rw [shape]
      by_cases one : e = d <;> by_cases other : e = c <;> simp [one, other, differ]
    · intro e _ untouched
      rw [shape, if_neg fun same => untouched (.inr same), if_neg fun same => untouched (.inl same)]
  · unfold Linked
    rw [shape, shape]
    simp [differ]

end Workspace

end BlockCompiler
