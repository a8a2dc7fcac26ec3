import BlockCompiler.Proofs.Document.Mirrored
import Mathlib.Data.List.Range

/-!
The list of a block and all below it. It comes to an end, and holds every block of the stack once.
-/

namespace BlockCompiler

/-- The numbers of the blocks that a turn leads to, from the number of the head on. -/
def Stack.span {α : Type} (stack : Stack α String) (n : Nat) (turn : Turn) : List Nat :=
  match stack.turn? turn with
  | some (k, child) => List.range' (n + k) child.size
  | none => []

theorem Stack.mem_span {α : Type} {stack : Stack α String} {n x : Nat} {turn : Turn} :
    x ∈ stack.span n turn ↔ ∃ k child, stack.turn? turn = some (k, child) ∧ n + k ≤ x ∧
    x < n + k + child.size := by
  unfold span
  cases turned : stack.turn? turn with
  | none => simp
  | some found =>
    obtain ⟨k, child⟩ := found
    simp [List.mem_range'_1]

/-- Turns that differ lead to different blocks, and each turn to different ones. -/
theorem Stack.nodup_spans {α : Type} {stack : Stack α String} {turns : List Turn} (nodup : turns.Nodup)
    (n : Nat) :
    (turns.flatMap (stack.span n)).Nodup := by
  refine List.nodup_flatMap.mpr ⟨?_, nodup.imp ?_⟩
  · intro turn _
    unfold span
    cases stack.turn? turn with
    | none => exact List.nodup_nil
    | some found => exact List.nodup_range'
  · intro turn other differ x here there
    obtain ⟨k, child, turned, above, below⟩ := mem_span.mp here
    obtain ⟨j, found, turned', above', below'⟩ := mem_span.mp there
    have := turn?_apart differ turned turned'
    omega

namespace Workspace

variable {ws : Workspace} {asValue : Bool} {n : Nat} {stack : StackSpec}

/-- The turns from a block, row by row, and then on to what follows. -/
def turns (ws : Workspace) (n : Nat) : List Turn :=
  (ws.block n).rows.map (fun row => Turn.input row.name) ++ [.next]

theorem Carries.nodup_turns (carries : ws.Carries asValue n stack) (proper : stack.head?.isSome) :
    (ws.turns n).Nodup := by
  refine List.nodup_append.mpr ⟨?_, List.nodup_singleton _, ?_⟩
  · refine List.pairwise_map.mpr ((carries.names proper).imp ?_)
    intro row other differ same
    exact differ (Turn.input.inj same)
  · intro turn member other last
    obtain ⟨row, _, rfl⟩ := List.mem_map.mp member
    rw [List.mem_singleton.mp last]
    exact Turn.noConfusion

theorem Carries.mem_turns (carries : ws.Carries asValue n stack) {turn : Turn} {k : Nat} {child : StackSpec}
    (turned : stack.turn? turn = some (k, child)) : turn ∈ ws.turns n := by
  obtain ⟨_, _, _, turnsTo⟩ := carries.turn? turned
  cases turn with
  | input name =>
    obtain ⟨row, found, _⟩ := turnsTo
    obtain ⟨member, rfl⟩ := Block.row?_mem found
    exact List.mem_append_left _ (List.mem_map_of_mem member)
  | next => exact List.mem_append_right _ (List.mem_singleton_self _)

theorem Carries.children (carries : ws.Carries asValue n stack) (proper : stack.head?.isSome) :
    ws.children n = (ws.turns n).filterMap fun turn => (stack.turn? turn).map fun found => n + found.1 := by
  unfold Workspace.children turns
  rw [List.filterMap_append, List.filterMap_map, carries.next? proper]
  congr 1
  refine List.filterMap_congr ?_
  intro row member
  exact carries.target? proper member

/-- The blocks of a stack are its head and all that the turns lead to. -/
theorem Carries.spans (carries : ws.Carries asValue n stack) (proper : stack.head?.isSome) :
    (n :: (ws.turns n).flatMap (stack.span n)).Perm (List.range' n stack.size) := by
  have positive := Stack.size_pos.mpr proper
  have above : ∀ x ∈ (ws.turns n).flatMap (stack.span n), n < x ∧ x < n + stack.size := by
    intro x member
    obtain ⟨turn, _, inSpan⟩ := List.mem_flatMap.mp member
    obtain ⟨k, child, turned, _, _⟩ := Stack.mem_span.mp inSpan
    obtain ⟨_, _, _⟩ := Stack.turn?_part carries.tidy turned
    omega
  rw [List.perm_ext_iff_of_nodup
    (List.nodup_cons.mpr ⟨fun member => absurd (above n member).1 (Nat.lt_irrefl n),
    Stack.nodup_spans (carries.nodup_turns proper) n⟩) List.nodup_range']
  intro x
  rw [List.mem_cons, List.mem_range'_1]
  constructor
  · rintro (rfl | member)
    · omega
    · have := above x member
      omega
  · rintro ⟨least, most⟩
    by_cases first : x = n
    · exact .inl first
    · obtain ⟨turn, k, child, turned, _, _⟩ :=
        Stack.exists_turn? carries.tidy (show 0 < x - n by omega) (show x - n < stack.size by omega)
      exact .inr (List.mem_flatMap.mpr ⟨turn, carries.mem_turns turned,
        Stack.mem_span.mpr ⟨k, child, turned, by omega, by omega⟩⟩)

theorem flatMap_children {list : Nat → List Nat} {turns : List Turn} 
    (each : ∀ turn k child, stack.turn? turn = some (k, child) →
    (list (n + k)).Perm (List.range' (n + k) child.size)) :
    ((turns.filterMap fun turn => (stack.turn? turn).map fun found => n + found.1).flatMap list).Perm
      (turns.flatMap (stack.span n)) := by
  induction turns with
  | nil => exact .refl _
  | cons turn rest ih =>
    rw [List.filterMap_cons, List.flatMap_cons]
    unfold Stack.span
    cases turned : stack.turn? turn with
    | none => exact ih
    | some found =>
      obtain ⟨k, child⟩ := found
      exact (each turn k child turned).append ih

/-- The list of all blocks below a block ends, and holds every block of the stack once. -/
theorem Carries.descendantsWithin (carries : ws.Carries asValue n stack) (proper : stack.head?.isSome)
    {fuel : Nat} (enough : stack.size ≤ fuel) :
    ∃ list, ws.descendantsWithin fuel n = some list ∧ list.Perm (List.range' n stack.size) := by
  induction fuel generalizing n stack asValue with
  | zero =>
    have := Stack.size_pos.mpr proper
    omega
  | succ fuel ih =>
    let list (b : Nat) : List Nat := (ws.descendantsWithin fuel b).getD []
    have below : ∀ turn k child, stack.turn? turn = some (k, child) →
        ws.descendantsWithin fuel (n + k) = some (list (n + k)) ∧
          (list (n + k)).Perm (List.range' (n + k) child.size) := by
      intro turn k child turned
      obtain ⟨_, inside, _⟩ := carries.turn? turned
      obtain ⟨positive, part, childProper, _⟩ := Stack.turn?_part carries.tidy turned
      obtain ⟨given, listed, perm⟩ := ih inside childProper (by omega)
      have same : list (n + k) = given := by simp [list, listed]
      rw [same]
      exact ⟨listed, perm⟩
    refine ⟨n :: (ws.children n).flatMap list, ?_, ?_⟩
    · rw [Workspace.descendantsWithin, mapM_some (g := list)]
      · rfl
      · intro b member
        rw [carries.children proper] at member
        obtain ⟨turn, _, there⟩ := List.mem_filterMap.mp member
        obtain ⟨⟨k, child⟩, turned, rfl⟩ := Option.map_eq_some_iff.mp there
        exact (below turn k child turned).1
    · rw [carries.children proper]
      refine List.Perm.trans (.cons n ?_) (carries.spans proper)
      exact flatMap_children fun turn k child turned => (below turn k child turned).2

end Workspace

end BlockCompiler
