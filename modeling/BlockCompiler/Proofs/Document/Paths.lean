import BlockCompiler.Stack
import Mathlib.Tactic.Common

/-!
Paths down a stack. The blocks of a stack are numbered from the head on, first those in the rows and then
those that follow; every number belongs to exactly one path.
-/

namespace BlockCompiler

/-- A way to go on from a block: into one of its rows, or to the block that follows it. -/
inductive Turn where
  | input (name : String)
  | next
  deriving DecidableEq, Repr

mutual

/-- The number of blocks of a stack. -/
def Stack.size {α β : Type} : Stack α β → Nat
  | .empty => 0
  | .block _ rows next => 1 + rows.size + next.size

/-- The number of blocks in some rows. -/
def Rows.size {α β : Type} : Rows α β → Nat
  | .nil => 0
  | .cons _ plugged rest => plugged.size + rest.size

end

/-- The number of blocks of several stacks. -/
def forestSize {α β : Type} : List (Stack α β) → Nat
  | [] => 0
  | top :: rest => top.size + forestSize rest

mutual

/-- No row of a stack is left empty. -/
def Stack.Full {α β : Type} : Stack α β → Prop
  | .empty => True
  | .block _ rows next => rows.Full ∧ next.Full

/-- No row is left empty, neither here nor further inside. -/
def Rows.Full {α β : Type} : Rows α β → Prop
  | .nil => True
  | .cons _ plugged rest => plugged.head?.isSome ∧ plugged.Full ∧ rest.Full

end

mutual

/-- No row of a stack is left empty, and no block has two rows of one label. -/
def Stack.Tidy {α β : Type} : Stack α β → Prop
  | .empty => True
  | .block _ rows next => rows.labels.Nodup ∧ rows.Tidy ∧ next.Tidy

/-- All that is in some rows is tidy, and none is left empty. -/
def Rows.Tidy {α β : Type} : Rows α β → Prop
  | .nil => True
  | .cons _ plugged rest => plugged.head?.isSome ∧ plugged.Tidy ∧ rest.Tidy

end

variable {α : Type}

/-- What is in the first row of a name, and how many blocks the rows before it hold. -/
def Rows.find? : Rows α String → String → Option (Nat × Stack α String)
  | .nil, _ => none
  | .cons label plugged rest, name =>
    if label = name then some (0, plugged)
    else (rest.find? name).map fun (k, found) => (plugged.size + k, found)

/-- Where a turn leads from the head of a stack: the number of the block there and the stack it heads. -/
def Stack.turn? : Stack α String → Turn → Option (Nat × Stack α String)
  | .empty, _ => none
  | .block _ rows _, .input name => (rows.find? name).map fun (k, found) => (1 + k, found)
  | .block _ rows next, .next => if next.head?.isSome then some (1 + rows.size, next) else none

/-- The stack that a turn leads to. Where it leads nowhere this is the empty stack. -/
def Stack.after (stack : Stack α String) (turn : Turn) : Stack α String :=
  ((stack.turn? turn).map (·.2)).getD .empty

theorem Stack.after_next {head : α} {rows : Rows α String} {next : Stack α String} :
    (Stack.block head rows next).after .next = next := by
  unfold Stack.after Stack.turn?
  cases next <;> rfl

theorem Stack.after_input {head : α} {rows : Rows α String} {next : Stack α String} {name : String} :
    (Stack.block head rows next).after (.input name) = ((rows.find? name).map (·.2)).getD .empty := by
  rw [Stack.after, Stack.turn?, Option.map_map]
  rfl

/-- Where a path leads from the head of a stack. -/
def Stack.at? (stack : Stack α String) : List Turn → Option (Nat × Stack α String)
  | [] => some (0, stack)
  | turn :: path => do
    let (k, child) ← stack.turn? turn
    let (j, found) ← child.at? path
    return (k + j, found)

theorem Stack.size_pos {α β : Type} {stack : Stack α β} : 0 < stack.size ↔ stack.head?.isSome := by
  cases stack with
  | empty => simp [Stack.size, Stack.head?]
  | block head rows next => simp only [Stack.size, Stack.head?, Option.isSome_some, iff_true]; omega

theorem Rows.find?_cons {label name : String} {plugged child : Stack α String} {rest : Rows α String}
    {k : Nat} (found : (Rows.cons label plugged rest).find? name = some (k, child)) :
    label = name ∧ k = 0 ∧ child = plugged ∨
      label ≠ name ∧ ∃ j, rest.find? name = some (j, child) ∧ k = plugged.size + j := by
  rw [Rows.find?] at found
  by_cases same : label = name
  · rw [if_pos same] at found
    obtain ⟨rfl, rfl⟩ := Prod.mk.inj (Option.some.inj found)
    exact .inl ⟨same, rfl, rfl⟩
  · rw [if_neg same] at found
    obtain ⟨⟨j, other⟩, below, equal⟩ := Option.map_eq_some_iff.mp found
    obtain ⟨rfl, rfl⟩ := Prod.mk.inj equal
    exact .inr ⟨same, j, below, rfl⟩

theorem Rows.find?_within {rows : Rows α String} {name : String} {k : Nat} {child : Stack α String}
    (found : rows.find? name = some (k, child)) : k + child.size ≤ rows.size := by
  match rows with
  | .nil => simp [Rows.find?] at found
  | .cons label plugged rest =>
    rw [Rows.size]
    rcases find?_cons found with ⟨_, rfl, rfl⟩ | ⟨_, j, below, rfl⟩
    · omega
    · have := find?_within below
      omega

theorem Rows.find?_tidy {rows : Rows α String} (tidy : rows.Tidy) {name : String} {k : Nat}
    {child : Stack α String} (found : rows.find? name = some (k, child)) :
    child.head?.isSome ∧ child.Tidy := by
  match rows with
  | .nil => simp [Rows.find?] at found
  | .cons label plugged rest =>
    obtain ⟨proper, inside, others⟩ := tidy
    rcases find?_cons found with ⟨_, _, rfl⟩ | ⟨_, j, below, _⟩
    · exact ⟨proper, inside⟩
    · exact find?_tidy others below

/-- What is in two rows of different names has different numbers. -/
theorem Rows.find?_apart {rows : Rows α String} {name other : String} (differ : name ≠ other) {k j : Nat}
    {child found : Stack α String} (here : rows.find? name = some (k, child))
    (there : rows.find? other = some (j, found)) : k + child.size ≤ j ∨ j + found.size ≤ k := by
  match rows with
  | .nil => simp [Rows.find?] at here
  | .cons label plugged rest =>
    rcases find?_cons here with ⟨rfl, rfl, rfl⟩ | ⟨_, i, below, rfl⟩ <;>
      rcases find?_cons there with ⟨same, rfl, rfl⟩ | ⟨_, i', below', rfl⟩
    · exact absurd same differ
    · omega
    · omega
    · have := find?_apart differ below below'
      omega

/-- Every block in some rows is in the row of some name. -/
theorem Rows.exists_find? {rows : Rows α String} (distinct : rows.labels.Nodup) {k : Nat}
    (below : k < rows.size) :
    ∃ name ∈ rows.labels, ∃ j child, rows.find? name = some (j, child) ∧ j ≤ k ∧ k < j + child.size := by
  match rows with
  | .nil =>
    rw [Rows.size] at below
    omega
  | .cons label plugged rest =>
    rw [Rows.size] at below
    rw [Rows.labels, List.nodup_cons] at distinct
    by_cases first : k < plugged.size
    · exact ⟨label, List.mem_cons_self .., 0, plugged, by simp [Rows.find?], by omega, by omega⟩
    · obtain ⟨name, member, j, child, found, above, within⟩ :=
        exists_find? distinct.2 (show k - plugged.size < rest.size by omega)
      have differ : label ≠ name := by
        rintro rfl
        exact distinct.1 member
      refine ⟨name, List.mem_cons_of_mem _ member, plugged.size + j, child, ?_, by omega, by omega⟩
      rw [Rows.find?, if_neg differ, found]
      rfl

theorem Stack.turn?_cases {head : α} {rows : Rows α String} {next child : Stack α String} {turn : Turn}
    {k : Nat} (turned : (Stack.block head rows next).turn? turn = some (k, child)) :
    (∃ name j, turn = .input name ∧ rows.find? name = some (j, child) ∧ k = 1 + j) ∨
      turn = .next ∧ next.head?.isSome ∧ k = 1 + rows.size ∧ child = next := by
  cases turn with
  | input name =>
    obtain ⟨⟨j, found⟩, here, equal⟩ := Option.map_eq_some_iff.mp turned
    obtain ⟨rfl, rfl⟩ := Prod.mk.inj equal
    exact .inl ⟨name, j, rfl, here, rfl⟩
  | next =>
    rw [turn?] at turned
    by_cases proper : next.head?.isSome
    · rw [if_pos proper] at turned
      obtain ⟨rfl, rfl⟩ := Prod.mk.inj (Option.some.inj turned)
      exact .inr ⟨rfl, proper, rfl, rfl⟩
    · rw [if_neg proper] at turned
      cases turned

/-- A turn leads to a proper part of a stack. -/
theorem Stack.turn?_part {stack : Stack α String} (tidy : stack.Tidy) {turn : Turn} {k : Nat}
    {child : Stack α String} (turned : stack.turn? turn = some (k, child)) :
    0 < k ∧ k + child.size ≤ stack.size ∧ child.head?.isSome ∧ child.Tidy := by
  cases stack with
  | empty => simp [turn?] at turned
  | block head rows next =>
    obtain ⟨_, inside, following⟩ := tidy
    rw [Stack.size]
    rcases turn?_cases turned with ⟨name, j, _, found, rfl⟩ | ⟨_, proper, rfl, rfl⟩
    · have := Rows.find?_within found
      obtain ⟨proper, below⟩ := Rows.find?_tidy inside found
      exact ⟨by omega, by omega, proper, below⟩
    · exact ⟨by omega, by omega, proper, following⟩

theorem Stack.turn?_apart {stack : Stack α String} {turn other : Turn} (differ : turn ≠ other)
    {k j : Nat} {child found : Stack α String} (here : stack.turn? turn = some (k, child))
    (there : stack.turn? other = some (j, found)) : k + child.size ≤ j ∨ j + found.size ≤ k := by
  cases stack with
  | empty => simp [turn?] at here
  | block head rows next =>
    rcases turn?_cases here with ⟨name, i, rfl, below, rfl⟩ | ⟨rfl, _, rfl, rfl⟩ <;>
      rcases turn?_cases there with ⟨name', i', rfl, below', rfl⟩ | ⟨rfl, _, rfl, rfl⟩
    · have := Rows.find?_apart (fun same => differ (congrArg Turn.input same)) below below'
      omega
    · have := Rows.find?_within below
      omega
    · have := Rows.find?_within below'
      omega
    · exact absurd rfl differ

theorem Stack.at?_cons {stack found : Stack α String} {turn : Turn} {path : List Turn} {n : Nat}
    (reached : stack.at? (turn :: path) = some (n, found)) :
    ∃ k child j, stack.turn? turn = some (k, child) ∧ child.at? path = some (j, found) ∧ n = k + j := by
  simp only [at?, Option.bind_eq_bind, Option.bind_eq_some_iff, Option.pure_def, Option.some.injEq] at reached
  obtain ⟨⟨k, child⟩, turned, ⟨j, other⟩, reached, equal⟩ := reached
  obtain ⟨rfl, rfl⟩ := Prod.mk.inj equal
  exact ⟨k, child, j, turned, reached, rfl⟩

/-- A path leads to a part of a stack. -/
theorem Stack.at?_part {stack found : Stack α String} (tidy : stack.Tidy) (proper : stack.head?.isSome)
    {path : List Turn} {n : Nat} (reached : stack.at? path = some (n, found)) :
    n + found.size ≤ stack.size ∧ found.head?.isSome ∧ found.Tidy := by
  induction path generalizing stack n with
  | nil =>
    obtain ⟨rfl, rfl⟩ := Prod.mk.inj (Option.some.inj reached)
    exact ⟨by omega, proper, tidy⟩
  | cons turn path ih =>
    obtain ⟨k, child, j, turned, below, rfl⟩ := at?_cons reached
    obtain ⟨_, within, childProper, childTidy⟩ := turn?_part tidy turned
    obtain ⟨inside, rest⟩ := ih childTidy childProper below
    exact ⟨by omega, rest⟩

/-- Different paths lead to blocks of different numbers. -/
theorem Stack.at?_inj {stack found other : Stack α String} (tidy : stack.Tidy) (proper : stack.head?.isSome)
    {path way : List Turn} {n : Nat} (reached : stack.at? path = some (n, found))
    (reached' : stack.at? way = some (n, other)) : path = way := by
  induction path generalizing stack n way with
  | nil =>
    obtain ⟨rfl, rfl⟩ := Prod.mk.inj (Option.some.inj reached)
    cases way with
    | nil => rfl
    | cons turn way =>
      obtain ⟨k, child, j, turned, _, sum⟩ := at?_cons reached'
      have := (turn?_part tidy turned).1
      omega
  | cons turn path ih =>
    obtain ⟨k, child, j, turned, below, rfl⟩ := at?_cons reached
    obtain ⟨positive, _, childProper, childTidy⟩ := turn?_part tidy turned
    cases way with
    | nil =>
      obtain ⟨sum, _⟩ := Prod.mk.inj (Option.some.inj reached')
      omega
    | cons turn' way =>
      obtain ⟨k', child', j', turned', below', sum⟩ := at?_cons reached'
      obtain ⟨_, _, childProper', childTidy'⟩ := turn?_part tidy turned'
      obtain ⟨within, foundProper, _⟩ := at?_part childTidy childProper below
      obtain ⟨within', otherProper, _⟩ := at?_part childTidy' childProper' below'
      have := size_pos.mpr foundProper
      have := size_pos.mpr otherProper
      by_cases same : turn = turn'
      · subst same
        rw [turned] at turned'
        obtain ⟨rfl, rfl⟩ := Prod.mk.inj (Option.some.inj turned')
        have : j = j' := by omega
        subst this
        rw [ih childTidy childProper below below']
      · rcases turn?_apart same turned turned' with before | after
        · omega
        · omega

/-- Every block but the head is below some turn. -/
theorem Stack.exists_turn? {stack : Stack α String} (tidy : stack.Tidy) {n : Nat} (positive : 0 < n)
    (below : n < stack.size) :
    ∃ turn k child, stack.turn? turn = some (k, child) ∧ k ≤ n ∧ n < k + child.size := by
  cases stack with
  | empty => simp [Stack.size] at below
  | block head rows next =>
    rw [Stack.size] at below
    by_cases inside : n < 1 + rows.size
    · obtain ⟨name, _, j, child, found, above, within⟩ :=
        Rows.exists_find? tidy.1 (show n - 1 < rows.size by omega)
      exact ⟨.input name, 1 + j, child, by rw [turn?, found]; rfl, by omega, by omega⟩
    · have proper : next.head?.isSome := size_pos.mp (by omega)
      exact ⟨.next, 1 + rows.size, next, by rw [turn?, if_pos proper], by omega, by omega⟩

/-- Every number belongs to a path. -/
theorem Stack.exists_at? {stack : Stack α String} (tidy : stack.Tidy) {n : Nat} (below : n < stack.size) :
    ∃ path found, stack.at? path = some (n, found) := by
  induction size : stack.size using Nat.strongRecOn generalizing stack n with
  | ind total ih =>
    subst size
    rcases Nat.eq_zero_or_pos n with rfl | positive
    · exact ⟨[], stack, rfl⟩
    obtain ⟨turn, k, child, turned, above, within⟩ := exists_turn? tidy positive below
    obtain ⟨_, part, _, childTidy⟩ := turn?_part tidy turned
    obtain ⟨path, found, reached⟩ := ih child.size (by omega) childTidy (show n - k < child.size by omega) rfl
    refine ⟨turn :: path, found, ?_⟩
    simp only [at?, turned, reached, Option.bind_eq_bind, Option.bind_some, Option.pure_def]
    rw [Nat.add_sub_cancel' above]

end BlockCompiler
