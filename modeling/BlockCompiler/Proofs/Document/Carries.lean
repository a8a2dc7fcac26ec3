import BlockCompiler.Proofs.Document.Made
import BlockCompiler.Proofs.Document.Paths
import BlockCompiler.Proofs.Workspace.Grown

/-!
When a workspace carries a stack: its blocks are numbered from the head on, first those in the rows, then
those that follow, and they are linked as the stack says.
-/

namespace BlockCompiler

/-- The connection by which a block plugs into a row of a kind. -/
def Block.plugFor (block : Block) (kind : RowKind) : Option Nat :=
  if kind = .value then block.output else block.previous

theorem Block.plugFor_mem {block : Block} {kind : RowKind} {c : Nat} (plug : block.plugFor kind = some c) :
    c ∈ block.plugs := by
  unfold plugFor at plug
  unfold plugs
  split at plug <;> simp [plug]

namespace Workspace

/-- A row is linked with the block of a number. -/
def Socketed (ws : Workspace) (row : Row) (n : Nat) : Prop :=
  ∃ c d, row.connection = some c ∧ (ws.block n).plugFor row.kind = some d ∧ ws.Linked c d

/-- The next connection of a block is linked with the block of a number, if there is something there. -/
def Followed (ws : Workspace) (b n : Nat) (next : StackSpec) : Prop :=
  if next.head?.isSome then
    ∃ c d, (ws.block b).next = some c ∧ (ws.block n).previous = some d ∧ ws.Linked c d
  else ∀ c, (ws.block b).next = some c → (ws.connection c).target = none

/-- The rows of a block that have no labels are free. -/
def Spared (ws : Workspace) (b : Nat) (labels : List String) : Prop :=
  ∀ row ∈ (ws.block b).rows, row.name ∉ labels → ∀ c, row.connection = some c →
    (ws.connection c).target = none

mutual

/-- A workspace carries a stack whose head is the block of a number. -/
def Carries (ws : Workspace) (asValue : Bool) (n : Nat) : StackSpec → Prop
  | .empty => True
  | .block spec inputs next =>
    ws.Holds n ∧ (ws.block n).Renders spec asValue inputs ∧
      inputs.labels.Nodup ∧ ws.Spared n inputs.labels ∧ CarriesRows ws n (n + 1) inputs ∧
      ws.Followed n (n + 1 + inputs.size) next ∧ Carries ws false (n + 1 + inputs.size) next

/-- A workspace carries the inputs of a block, whose blocks are numbered from a number on. -/
def CarriesRows (ws : Workspace) (b n : Nat) : Rows BlockSpec String → Prop
  | .nil => True
  | .cons name plugged rest =>
    (∃ row, (ws.block b).row? name = some row ∧ ws.Socketed row n ∧
      Carries ws (row.kind = .value) n plugged) ∧
      plugged.head?.isSome ∧ CarriesRows ws b (n + plugged.size) rest

end

variable {ws t : Workspace} {Touched : Nat → Prop}

theorem Carries.holds {asValue : Bool} {n : Nat} {stack : StackSpec} (carries : ws.Carries asValue n stack)
    (some : stack.head?.isSome) : ws.Holds n ∧ 0 < stack.size := by
  cases stack with
  | empty => simp [Stack.head?] at some
  | block spec inputs next =>
    rw [Stack.size]
    exact ⟨carries.1, by omega⟩

mutual

/-- A stack is carried on if of its connections only the plugs of its head are touched. -/
theorem Carries.grown {asValue : Bool} {n : Nat} {stack : StackSpec} (carries : ws.Carries asValue n stack)
    (grown : Grown ws t Touched)
    (apart : ∀ c, Touched c → (ws.connection c).owner < n ∨ n + stack.size ≤ (ws.connection c).owner ∨
      c ∈ (ws.block n).plugs) : t.Carries asValue n stack := by
  match stack with
  | .empty => trivial
  | .block spec inputs next =>
    obtain ⟨holds, renders, distinct, spared, rows, followed, below⟩ := carries
    have same := grown.blocks n holds.bound
    rw [Stack.size] at apart
    have owned : ∀ c ∈ (ws.block n).plugs, (ws.connection c).owner = n := fun c plug =>
      (holds.own c (Block.mem_points_of_mem_plugs plug)).2
    -- A point of the head that is no plug is not touched, as its owner is the head.
    have untouched : ∀ c ∈ (ws.block n).points, c ∉ (ws.block n).plugs → ¬ Touched c := by
      intro c point noPlug touched
      have owner := (holds.own c point).2
      rcases apart c touched with before | after | plug
      · omega
      · omega
      · exact noPlug plug
    refine ⟨holds.grown grown, same ▸ renders, distinct, ?_, ?_, ?_, ?_⟩
    · rw [Spared, same]
      intro row member unlabelled c point
      have inPoints := Block.mem_points_of_row member point
      rw [grown.target c (holds.own c inPoints).1
        (untouched c inPoints (holds.sound.row_not_plug member point))]
      exact spared row member unlabelled c point
    · refine rows.grown holds grown ?_
      intro c touched
      constructor
      · rcases apart c touched with before | after | plug
        · omega
        · omega
        · have := owned c plug
          omega
      · intro name _ row found point
        have member := (Block.row?_mem found).1
        exact untouched c (Block.mem_points_of_row member point)
          (holds.sound.row_not_plug member point) touched
    · unfold Followed at followed ⊢
      rw [same]
      by_cases some : next.head?.isSome
      · rw [if_pos some] at followed ⊢
        obtain ⟨c, d, follower, plug, linked⟩ := followed
        obtain ⟨there, positive⟩ := below.holds some
        have plugged : d ∈ (ws.block (n + 1 + inputs.size)).points := by simp [Block.points, plug]
        have follows := Block.mem_points_of_next follower
        refine ⟨c, d, follower, by rw [grown.blocks _ there.bound, plug], linked.grown grown
          ⟨(holds.own c follows).1, (there.own d plugged).1⟩
          ⟨untouched c follows (holds.sound.next_not_plug follower), fun touched => ?_⟩⟩
        have owner := (there.own d plugged).2
        rcases apart d touched with before | after | plug
        · omega
        · omega
        · have := owned d plug
          omega
      · rw [if_neg some] at followed ⊢
        intro c follower
        have follows := Block.mem_points_of_next follower
        rw [grown.target c (holds.own c follows).1
          (untouched c follows (holds.sound.next_not_plug follower))]
        exact followed c follower
    · refine below.grown grown ?_
      intro c touched
      rcases apart c touched with before | after | plug
      · omega
      · omega
      · have := owned c plug
        omega

theorem CarriesRows.grown {b n : Nat} {rows : Rows BlockSpec String} (carries : ws.CarriesRows b n rows)
    (holds : ws.Holds b) (grown : Grown ws t Touched)
    (apart : ∀ c, Touched c →
      ((ws.connection c).owner < n ∨ n + rows.size ≤ (ws.connection c).owner) ∧
        ∀ name ∈ rows.labels, ∀ row, (ws.block b).row? name = some row → row.connection ≠ some c) :
    t.CarriesRows b n rows := by
  match rows with
  | .nil => trivial
  | .cons name plugged rest =>
    obtain ⟨⟨row, found, ⟨c, d, point, plug, linked⟩, below⟩, some, others⟩ := carries
    obtain ⟨there, positive⟩ := below.holds some
    rw [Rows.size, Rows.labels] at apart
    have same := grown.blocks b holds.bound
    have plugs := Block.plugFor_mem plug
    have inPoints := Block.mem_points_of_row (Block.row?_mem found).1 point
    refine ⟨⟨row, same ▸ found, ⟨c, d, point, ?_, ?_⟩, ?_⟩, some, ?_⟩
    · rw [grown.blocks n there.bound, plug]
    · obtain ⟨bound, owner⟩ := there.own d (Block.mem_points_of_mem_plugs plugs)
      refine linked.grown grown ⟨(holds.own c inPoints).1, bound⟩ ⟨fun touched => ?_, fun touched => ?_⟩
      · exact (apart c touched).2 name (List.mem_cons_self ..) row found point
      · have := (apart d touched).1
        omega
    · refine below.grown grown ?_
      intro e touched
      have := (apart e touched).1
      omega
    · refine others.grown holds grown ?_
      intro e touched
      obtain ⟨outside, unlabelled⟩ := apart e touched
      exact ⟨by omega, fun other member => unlabelled other (List.mem_cons_of_mem _ member)⟩

end

end Workspace

end BlockCompiler
