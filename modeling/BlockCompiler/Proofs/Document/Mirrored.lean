import BlockCompiler.Proofs.Document.Walks
import Mathlib.Data.List.Nodup

/-!
What is read off a workspace: the stack at a block is what hangs there. Where a workspace carries a stack as
it is written down, the stack that is read off shows it, and the walk comes to an end.
-/

namespace BlockCompiler

mutual

/-- What hangs at a block of a workspace, or where there is no block: the block itself, what hangs in its
rows, and what hangs below it. -/
inductive Workspace.Hangs (ws : Workspace) : Option Nat → Stack BlockHead RowHead → Prop
  | nothing : Workspace.Hangs ws none .empty
  | block {b rows next} (inside : Workspace.HangsIn ws (ws.block b).rows rows)
      (below : Workspace.Hangs ws (ws.next? b) next) :
        Workspace.Hangs ws (some b) (.block (ws.head b) rows next)

/-- What hangs in some rows of a block, in each at the target of its connection. -/
inductive Workspace.HangsIn (ws : Workspace) : List Row → Rows BlockHead RowHead → Prop
  | nil : Workspace.HangsIn ws [] .nil
  | cons {row rest plugged rows} (here : Workspace.Hangs ws (ws.target? row.connection) plugged)
      (others : Workspace.HangsIn ws rest rows) :
        Workspace.HangsIn ws (row :: rest) (.cons row.head plugged rows)

end

namespace Workspace

variable {ws : Workspace} {b : Option Nat} {stack : Stack BlockHead RowHead}

/-- What is read off a workspace row by row hangs in the rows, if it does so in each. -/
theorem hangsIn_of_mapM {read : Option Nat → Option (Stack BlockHead RowHead)}
    (each : ∀ b stack, read b = some stack → ws.Hangs b stack) {list : List Row}
    {rows : List (RowHead × Stack BlockHead RowHead)}
    (given : list.mapM (fun row => do return (row.head, ← read (ws.target? row.connection))) = some rows) :
    ws.HangsIn list (.ofList rows) := by
  induction list generalizing rows with
  | nil =>
    obtain rfl : [] = rows := by simpa using given
    exact .nil
  | cons row rest ih =>
    rw [List.mapM_cons] at given
    obtain ⟨entry, here, given⟩ := Option.bind_eq_some_iff.mp given
    obtain ⟨entries, later, given⟩ := Option.bind_eq_some_iff.mp given
    obtain rfl : entry :: entries = rows := by simpa using given
    obtain ⟨plugged, inside, here⟩ := Option.bind_eq_some_iff.mp here
    obtain rfl : (row.head, plugged) = entry := by simpa using here
    exact .cons (each _ _ inside) (ih later)

/-- The stack that is read off a workspace at a block is what hangs there, however far the walk may go. -/
theorem hangs_of_stackWithin {fuel : Nat} (found : ws.stackWithin fuel b = some stack) :
    ws.Hangs b stack := by
  induction fuel generalizing b stack with
  | zero =>
    cases b with
    | none =>
      obtain rfl : .empty = stack := by simpa [stackWithin] using found
      exact .nothing
    | some b => cases found
  | succ fuel ih =>
    cases b with
    | none =>
      obtain rfl : .empty = stack := by simpa [stackWithin] using found
      exact .nothing
    | some b =>
      rw [stackWithin] at found
      obtain ⟨rows, given, found⟩ := Option.bind_eq_some_iff.mp found
      obtain ⟨next, below, found⟩ := Option.bind_eq_some_iff.mp found
      obtain rfl : .block (ws.head b) (.ofList rows) next = stack := by simpa using found
      exact .block (hangsIn_of_mapM (fun _ _ => ih) given) (ih below)

theorem hangs_of_stack? (found : ws.stack? b = some stack) : ws.Hangs b stack := hangs_of_stackWithin found

mutual

/-- The heads of what hangs at a block are those of blocks of the workspace. -/
theorem Hangs.heads {b : Option Nat} {stack : Stack BlockHead RowHead} (hangs : ws.Hangs b stack) :
    ∀ head ∈ stack.heads, ∃ b, head = ws.head b := by
  match stack, hangs with
  | _, .nothing => simp [Stack.heads]
  | _, @Hangs.block _ b _ _ inside below =>
    rw [Stack.heads]
    exact List.forall_mem_cons.mpr ⟨⟨b, rfl⟩, List.forall_mem_append.mpr ⟨inside.heads, below.heads⟩⟩

theorem HangsIn.heads {list : List Row} {rows : Rows BlockHead RowHead} (hangs : ws.HangsIn list rows) :
    ∀ head ∈ rows.heads, ∃ b, head = ws.head b := by
  match rows, hangs with
  | _, .nil => simp [Rows.heads]
  | _, .cons here others =>
    rw [Rows.heads]
    exact List.forall_mem_append.mpr ⟨here.heads, others.heads⟩

end

end Workspace

/-- Whether blocks with a plug have outputs. -/
def Plug.isValue : Plug → Bool
  | .value _ => true
  | _ => false

/-- Values have outputs. -/
theorem Block.Plugs.isSome_output {block : Block} {plug : Plug} (plugs : block.Plugs plug) :
    block.output.isSome = plug.isValue := by
  rw [Bool.eq_iff_iff, plugs.output]
  cases plug <;> simp [Plug.isValue]

mutual

/-- A stack to be compiled shows what a stack as written down says. -/
def Stack.Mirrors (asValue : Bool) : StackSpec → Stack BlockHead RowHead → Prop
  | .empty, shown => shown = .empty
  | .block spec inputs next, shown =>
    ∃ rows following,
      shown = .block { spec.content with hasOutput := (spec.plug asValue).isValue, inline := asValue }
        (.ofList rows) following ∧
      rows.map (·.1) = (spec.rows inputs).map RowSpec.head ∧
      (∀ row ∈ rows, row.1.name ∉ inputs.labels ∧ row.2 = .empty ∨ inputs.Shows row.1 row.2) ∧
      next.Mirrors false following

/-- A row to be compiled shows what is in the row of its name. -/
def Rows.Shows : Rows BlockSpec String → RowHead → Stack BlockHead RowHead → Prop
  | .nil, _, _ => False
  | .cons name plugged rest, row, shown =>
    row.name = name ∧ plugged.Mirrors (row.kind = .value) shown ∨ rest.Shows row shown

end

theorem Rows.shows_of_find? {rows : Rows BlockSpec String} {row : RowHead} {k : Nat} {child : StackSpec}
    {shown : Stack BlockHead RowHead} (found : rows.find? row.name = some (k, child))
    (mirrors : child.Mirrors (row.kind = .value) shown) : rows.Shows row shown := by
  match rows with
  | .nil => simp [Rows.find?] at found
  | .cons label plugged rest =>
    rcases Rows.find?_cons found with ⟨rfl, _, rfl⟩ | ⟨_, j, below, _⟩
    · exact .inl ⟨rfl, mirrors⟩
    · exact .inr (shows_of_find? below mirrors)

theorem labels_inferredRows (inputs : Rows BlockSpec String) :
    (Edit.inferredRows inputs).map (·.1) = inputs.labels := by
  match inputs with
  | .nil => rfl
  | .cons name plugged rest =>
    rw [Edit.inferredRows, List.map_cons, labels_inferredRows rest, Rows.labels]

/-- A row has a name and a socket. -/
def RowSpec.Usable (row : RowSpec) : Prop := row.1 ≠ "" ∧ row.2.1 ≠ .dummy

theorem armRows_usable (arm : Nat) : ∀ row ∈ armRows arm, RowSpec.Usable row := by
  intro row member
  rcases List.mem_pair.mp member with rfl | rfl <;> simp [RowSpec.Usable]

theorem family_rows_usable (family : RowFamily) (mutation : Table Json) :
    ∀ row ∈ (family.rows mutation).1, RowSpec.Usable row := by
  intro row member
  unfold RowFamily.rows at member
  cases family with
  | items =>
    cases count : itemCount mutation <;> simp only [count, List.not_mem_nil, List.mem_map] at member
    obtain ⟨i, _, rfl⟩ := member
    simp [RowSpec.Usable]
  | arguments =>
    cases params : parameters mutation <;> simp only [params, List.not_mem_nil, List.mem_map] at member
    obtain ⟨i, _, rfl⟩ := member
    simp [RowSpec.Usable]
  | arms =>
    cases count : ((mutation.get? "elseif").getD (.int 0)).toWhole <;> simp only [count] at member
    · exact armRows_usable 0 row member
    · have inArms : ∀ arms : List Nat, row ∈ arms.flatMap armRows → RowSpec.Usable row := by
        intro arms inside
        obtain ⟨arm, _, here⟩ := List.mem_flatMap.mp inside
        exact armRows_usable arm row here
      split at member
      · exact inArms _ member
      · rcases List.mem_append.mp member with arm | last
        · exact inArms _ arm
        · rw [List.mem_singleton.mp last]
          simp [RowSpec.Usable]

/-- The rows of known kinds have names and sockets. -/
theorem kind_rows_usable (kind : BlockKind) (mutation : Table Json) :
    ∀ row ∈ kind.rows mutation, RowSpec.Usable row := by
  have fixed : ∀ row ∈ kind.shape.rows, RowSpec.Usable row := by
    unfold RowSpec.Usable
    cases kind <;> decide
  intro row member
  rcases List.mem_append.mp member with plain | grown
  · exact fixed row plain
  · cases has : kind.shape.family with
    | none => simp [has] at grown
    | some family =>
      simp only [has, Option.map_some, Option.getD_some] at grown
      exact family_rows_usable family mutation row grown

namespace Workspace

variable {ws : Workspace} {asValue : Bool} {n : Nat} {stack : StackSpec}

/-- No two rows of a block that is carried have one name. -/
theorem Carries.names (carries : ws.Carries asValue n stack) (proper : stack.head?.isSome) :
    (ws.block n).rows.Pairwise fun row other => row.name ≠ other.name := by
  cases stack with
  | empty => cases proper
  | block spec inputs next =>
    obtain ⟨holds, renders, distinct, _⟩ := carries
    have names : (ws.block n).rows.map (·.name) = (spec.rows inputs).map (·.1) := by
      have heads := congrArg (List.map RowHead.name) renders.rows
      simpa [Function.comp_def, Row.head, RowSpec.head] using heads
    unfold BlockSpec.rows at names
    cases known : BlockKind.ofName? spec.type with
    | none =>
      simp only [known, labels_inferredRows] at names
      exact List.pairwise_map.mp (names ▸ distinct)
    | some kind =>
      simp only [known] at names
      refine holds.sound.names.imp_of_mem fun {row other} member _ same equal => ?_
      have named : row.name ∈ (kind.rows (Table.ofEntries spec.mutation)).map (·.1) :=
        names ▸ List.mem_map_of_mem member
      obtain ⟨given, givenMember, name⟩ := List.mem_map.mp named
      exact (kind_rows_usable kind _ given givenMember).1 (name.trans (same equal))

theorem row?_of_mem {block : Block} (names : block.rows.Pairwise fun row other => row.name ≠ other.name)
    {row : Row} (member : row ∈ block.rows) : block.row? row.name = some row := by
  cases found : block.row? row.name with
  | none =>
    have := List.find?_eq_none.mp found row member
    simp at this
  | some other =>
    obtain ⟨otherMember, named⟩ := Block.row?_mem found
    have symmetric : Std.Symm fun row other : Row => row.name ≠ other.name :=
      ⟨fun _ _ differ => Ne.symm differ⟩
    by_contra differ
    exact names.forall otherMember member (fun same => differ (congrArg some same)) named

/-- What is in a row of a block that is carried. -/
theorem Carries.target? (carries : ws.Carries asValue n stack) (proper : stack.head?.isSome) {row : Row}
    (member : row ∈ (ws.block n).rows) :
    ws.target? row.connection = (stack.turn? (.input row.name)).map fun found => n + found.1 := by
  rw [← carries.inputTarget? proper row.name, Workspace.inputTarget?,
    row?_of_mem (carries.names proper) member, Option.bind_some]

theorem mapM_some {α β : Type} {f : α → Option β} {g : α → β} {list : List α}
    (each : ∀ a ∈ list, f a = some (g a)) : list.mapM f = some (list.map g) := by
  induction list with
  | nil => rfl
  | cons a rest ih =>
    have here := each a (List.mem_cons_self ..)
    have there := ih fun b member => each b (List.mem_cons_of_mem _ member)
    simp [here, there]

/-- The stack read off a workspace is the stack it carries. -/
theorem Carries.stackWithin (carries : ws.Carries asValue n stack) (proper : stack.head?.isSome)
    (inline : ws.isInline n = asValue) {fuel : Nat} (enough : stack.size ≤ fuel) :
    ∃ shown, ws.stackWithin fuel (some n) = some shown ∧ stack.Mirrors asValue shown := by
  induction fuel generalizing n stack asValue with
  | zero =>
    have := Stack.size_pos.mpr proper
    omega
  | succ fuel ih =>
    let read (b : Option Nat) : Stack BlockHead RowHead := (ws.stackWithin fuel b).getD .empty
    have below : ∀ turn value, ws.TurnsToValue n turn value →
        ∀ b, b = (stack.turn? turn).map (fun found => n + found.1) →
          ws.stackWithin fuel b = some (read b) ∧ (stack.after turn).Mirrors value (read b) := by
      intro turn value turnsTo b there
      have some_of : ∀ shown, ws.stackWithin fuel b = some shown → read b = shown := fun shown given => by
        simp [read, given]
      unfold Stack.after
      cases turned : stack.turn? turn with
      | none =>
        rw [turned] at there
        have nothing : ws.stackWithin fuel b = some .empty := by
          rw [there]
          cases fuel <;> rfl
        rw [some_of _ nothing]
        exact ⟨nothing, rfl⟩
      | some found =>
        obtain ⟨k, child⟩ := found
        obtain ⟨value', inside, ⟨_, inline⟩, turnsTo'⟩ := carries.turn? turned
        obtain ⟨positive, part, childProper, _⟩ := Stack.turn?_part carries.tidy turned
        obtain ⟨shown, given, mirrors⟩ := ih inside childProper inline (by omega)
        rw [turned] at there
        rw [← show b = some (n + k) from there] at given
        rw [turnsTo.unique turnsTo', some_of shown given]
        exact ⟨given, mirrors⟩
    have rows : ∀ row ∈ (ws.block n).rows, ws.stackWithin fuel (ws.target? row.connection) =
        some (read (ws.target? row.connection)) ∧
          (stack.after (.input row.name)).Mirrors (row.kind = .value) (read (ws.target? row.connection)) := by
      intro row member
      have turnsTo : ws.TurnsToValue n (.input row.name) (row.kind = .value) :=
        ⟨row, row?_of_mem (carries.names proper) member, rfl⟩
      exact below _ _ turnsTo _ (carries.target? proper member)
    obtain ⟨readNext, mirrorsNext⟩ := below .next false rfl _ (carries.next? proper)
    let shown (row : Row) : RowHead × Stack BlockHead RowHead := (row.head, read (ws.target? row.connection))
    refine ⟨.block (ws.head n) (.ofList ((ws.block n).rows.map shown)) (read (ws.next? n)), ?_, ?_⟩
    · rw [Workspace.stackWithin, mapM_some (g := shown), readNext]
      · rfl
      · intro row member
        rw [(rows row member).1]
        rfl
    cases stack with
    | empty => cases proper
    | block spec inputs next =>
      obtain ⟨_, renders, _⟩ := carries
      rw [Stack.after_next] at mirrorsNext
      refine ⟨(ws.block n).rows.map shown, read (ws.next? n), ?_, ?_, ?_, mirrorsNext⟩
      · have output : (ws.block n).output.isSome = (spec.plug asValue).isValue := by
          rw [Bool.eq_iff_iff, renders.plugs.output]
          cases spec.plug asValue <;> simp [Plug.isValue]
        rw [Workspace.head, renders.content, inline, output]
      · rw [← renders.rows, List.map_map]
        rfl
      · intro shownRow member
        obtain ⟨row, inRows, rfl⟩ := List.mem_map.mp member
        obtain ⟨_, mirrors⟩ := rows row inRows
        rw [Stack.after_input] at mirrors
        cases found : inputs.find? row.name with
        | none =>
          have unlabelled : row.name ∉ inputs.labels := by
            rw [← Rows.find?_isSome, found]
            simp
          rw [found] at mirrors
          exact .inl ⟨unlabelled, mirrors⟩
        | some pair =>
          rw [found] at mirrors
          have foundHead : inputs.find? row.head.name = some (pair.1, pair.2) := found
          exact .inr (Rows.shows_of_find? foundHead mirrors)

end Workspace

end BlockCompiler
