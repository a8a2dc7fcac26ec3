import BlockCompiler.Proofs.Document.Carries

/-!
Walks over a workspace that carries a stack: from block to block they go as the paths of the stack say.
-/

namespace BlockCompiler

theorem Rows.find?_isSome {α : Type} {rows : Rows α String} {name : String} :
    (rows.find? name).isSome ↔ name ∈ rows.labels := by
  match rows with
  | .nil => simp [Rows.find?, Rows.labels]
  | .cons label plugged rest =>
    rw [Rows.find?, Rows.labels, List.mem_cons]
    have later : (rest.find? name).isSome ↔ name ∈ rest.labels := find?_isSome
    by_cases same : label = name
    · simp [same]
    · rw [if_neg same, Option.isSome_map, later]
      simp [Ne.symm same]

namespace Workspace

variable {ws : Workspace}

theorem Linked.symm {c d : Nat} (linked : ws.Linked c d) : ws.Linked d c := ⟨linked.2, linked.1⟩

theorem Linked.target? {c d : Nat} (linked : ws.Linked c d) :
    ws.target? (some c) = some (ws.connection d).owner := by
  simp [Workspace.target?, linked.1]

theorem target?_of_free {point : Option Nat} (free : ∀ c, point = some c → (ws.connection c).target = none) :
    ws.target? point = none := by
  cases point with
  | none => rfl
  | some c => simp [target?, free c rfl]

mutual

theorem Carries.tidy {asValue : Bool} {n : Nat} {stack : StackSpec} (carries : ws.Carries asValue n stack) :
    stack.Tidy := by
  match stack with
  | .empty => trivial
  | .block spec inputs next =>
    obtain ⟨_, _, distinct, _, rows, _, below⟩ := carries
    exact ⟨distinct, rows.tidy, below.tidy⟩

theorem CarriesRows.tidy {b n : Nat} {rows : Rows BlockSpec String} (carries : ws.CarriesRows b n rows) :
    rows.Tidy := by
  match rows with
  | .nil => trivial
  | .cons name plugged rest =>
    obtain ⟨⟨row, _, _, inside⟩, proper, others⟩ := carries
    exact ⟨proper, inside.tidy, others.tidy⟩

end

theorem CarriesRows.find? {b n k : Nat} {rows : Rows BlockSpec String} {name : String} {child : StackSpec}
    (carries : ws.CarriesRows b n rows) (found : rows.find? name = some (k, child)) :
    ∃ row, (ws.block b).row? name = some row ∧ ws.Socketed row (n + k) ∧
      ws.Carries (row.kind = .value) (n + k) child := by
  match rows with
  | .nil => simp [Rows.find?] at found
  | .cons label plugged rest =>
    obtain ⟨⟨row, here, socketed, inside⟩, _, others⟩ := carries
    rcases Rows.find?_cons found with ⟨rfl, rfl, rfl⟩ | ⟨_, j, below, rfl⟩
    · exact ⟨row, here, socketed, inside⟩
    · obtain ⟨row, there, rest⟩ := find? others below
      rw [Nat.add_assoc] at rest
      exact ⟨row, there, rest⟩

/-- A block hangs on another, by its output or not. -/
def Attached (ws : Workspace) (b n : Nat) (asValue : Bool) : Prop :=
  ws.parent? n = some b ∧ ws.isInline n = asValue

/-- A block that is plugged in by the plug for a kind of row hangs on the owner of the row. -/
theorem Linked.attached {b n c d : Nat} {kind : RowKind} {asValue : Bool} {stack : StackSpec}
    (linked : ws.Linked c d) (owner : (ws.connection c).owner = b) (carries : ws.Carries asValue n stack)
    (proper : stack.head?.isSome) (plug : (ws.block n).plugFor kind = some d) :
    ws.Attached b n (kind = .value) := by
  cases stack with
  | empty => cases proper
  | block spec inputs next =>
    obtain ⟨_, renders, _⟩ := carries
    have target := linked.symm.target?
    rw [owner] at target
    unfold Block.plugFor at plug
    by_cases value : kind = .value
    · rw [if_pos value] at plug
      simp [Attached, parent?, isInline, isLinked, plug, target, value]
    · rw [if_neg value] at plug
      have plain : (ws.block n).output = none := by
        have statement := renders.plugs.previous.mp (by simp [plug])
        have := renders.plugs.output
        simpa [statement] using this
      have free : ws.target? none = none := rfl
      simp [Attached, parent?, isInline, isLinked, plug, target, plain, free, value]

variable {asValue : Bool} {n : Nat} {stack : StackSpec}

/-- What the workspace has in the socket of a name is what the stack has there. -/
theorem Carries.inputTarget? (carries : ws.Carries asValue n stack) (proper : stack.head?.isSome)
    (name : String) :
    ws.inputTarget? n name = (stack.turn? (.input name)).map fun found => n + found.1 := by
  cases stack with
  | empty => cases proper
  | block spec inputs next =>
    obtain ⟨holds, renders, distinct, spared, rows, _⟩ := carries
    unfold Workspace.inputTarget?
    cases found : inputs.find? name with
    | none =>
      have unlabelled : name ∉ inputs.labels := by
        rw [← Rows.find?_isSome, found]
        simp
      rw [Stack.turn?, found]
      cases here : (ws.block n).row? name with
      | none => rfl
      | some row =>
        obtain ⟨member, named⟩ := Block.row?_mem here
        exact target?_of_free (spared row member (named ▸ unlabelled))
    | some pair =>
      obtain ⟨k, child⟩ := pair
      obtain ⟨row, here, ⟨c, d, point, plug, linked⟩, inside⟩ := rows.find? found
      have there := (inside.holds (Rows.find?_tidy rows.tidy found).1).1
      rw [Stack.turn?, found, here]
      show ws.target? row.connection = some _
      rw [point, linked.target?, (there.own d (Block.mem_points_of_mem_plugs (Block.plugFor_mem plug))).2]
      rw [Nat.add_assoc]

/-- What the workspace has after a block is what the stack has there. -/
theorem Carries.next? (carries : ws.Carries asValue n stack) (proper : stack.head?.isSome) :
    ws.next? n = (stack.turn? .next).map fun found => n + found.1 := by
  cases stack with
  | empty => cases proper
  | block spec inputs next =>
    obtain ⟨_, _, _, _, _, followed, below⟩ := carries
    unfold Workspace.next? Followed at *
    rw [Stack.turn?]
    by_cases some : next.head?.isSome
    · rw [if_pos some] at followed ⊢
      obtain ⟨c, d, follower, plug, linked⟩ := followed
      have there := (below.holds some).1
      have point : d ∈ (ws.block (n + 1 + inputs.size)).points := by simp [Block.points, plug]
      rw [follower, linked.target?, (there.own d point).2, Option.map_some, Nat.add_assoc]
    · rw [if_neg some] at followed ⊢
      exact target?_of_free followed

/-- Whether what is found by a turn from a block hangs there by its output. -/
def TurnsToValue (ws : Workspace) (n : Nat) : Turn → Bool → Prop
  | .input name, value => ∃ row, (ws.block n).row? name = some row ∧ value = decide (row.kind = .value)
  | .next, value => value = false

theorem TurnsToValue.unique {turn : Turn} {value other : Bool} (one : ws.TurnsToValue n turn value)
    (another : ws.TurnsToValue n turn other) : value = other := by
  cases turn with
  | input name =>
    obtain ⟨row, found, rfl⟩ := one
    obtain ⟨row', found', rfl⟩ := another
    rw [Option.some.inj (found.symm.trans found')]
  | next => exact one.trans another.symm

/-- Where a turn leads, the workspace carries what is there, and it hangs on the block of the turn. -/
theorem Carries.turn? (carries : ws.Carries asValue n stack) {turn : Turn} {k : Nat} {child : StackSpec}
    (turned : stack.turn? turn = some (k, child)) :
    ∃ value, ws.Carries value (n + k) child ∧ ws.Attached n (n + k) value ∧ ws.TurnsToValue n turn value := by
  have childProper := (Stack.turn?_part carries.tidy turned).2.2.1
  cases stack with
  | empty => simp [Stack.turn?] at turned
  | block spec inputs next =>
    obtain ⟨holds, _, _, _, rows, followed, below⟩ := carries
    rcases Stack.turn?_cases turned with ⟨name, j, rfl, found, rfl⟩ | ⟨rfl, proper, rfl, rfl⟩
    · obtain ⟨row, here, ⟨c, d, point, plug, linked⟩, inside⟩ := rows.find? found
      have owner := (holds.own c (Block.mem_points_of_row (Block.row?_mem here).1 point)).2
      have attached := linked.attached owner inside childProper plug
      rw [Nat.add_assoc] at inside attached
      exact ⟨_, inside, attached, row, here, rfl⟩
    · rw [Followed, if_pos proper] at followed
      obtain ⟨c, d, follower, plug, linked⟩ := followed
      have owner := (holds.own c (Block.mem_points_of_next follower)).2
      have plugFor : (ws.block (n + 1 + inputs.size)).plugFor .statement = some d := by
        simpa [Block.plugFor] using plug
      have attached := linked.attached owner below proper plugFor
      rw [Nat.add_assoc] at below attached
      exact ⟨_, below, attached, rfl⟩

/-- Where a path leads, the workspace carries what is there. -/
theorem Carries.at? (carries : ws.Carries asValue n stack) (inline : ws.isInline n = asValue)
    (proper : stack.head?.isSome) {path : List Turn} {k : Nat} {child : StackSpec}
    (reached : stack.at? path = some (k, child)) :
    child.head?.isSome ∧ ws.Carries (ws.isInline (n + k)) (n + k) child ∧
      (path ≠ [] → (ws.parent? (n + k)).isSome) := by
  induction path generalizing stack n k asValue with
  | nil =>
    obtain ⟨rfl, rfl⟩ := Prod.mk.inj (Option.some.inj reached)
    rw [Nat.add_zero, inline]
    exact ⟨proper, carries, fun absent => absurd rfl absent⟩
  | cons turn path ih =>
    obtain ⟨i, middle, j, turned, below, rfl⟩ := Stack.at?_cons reached
    obtain ⟨value, inside, ⟨attached, inline⟩, _⟩ := carries.turn? turned
    have middleProper := (Stack.turn?_part carries.tidy turned).2.2.1
    obtain ⟨childProper, carried, parent⟩ := ih inside inline middleProper below
    rw [Nat.add_assoc] at carried parent
    refine ⟨childProper, carried, fun _ => ?_⟩
    by_cases last : path = []
    · subst last
      obtain ⟨rfl, rfl⟩ := Prod.mk.inj (Option.some.inj below)
      rw [Nat.add_zero, attached]
      rfl
    · exact parent last

end Workspace

end BlockCompiler
