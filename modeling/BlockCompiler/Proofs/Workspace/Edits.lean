import BlockCompiler.Proofs.Step
import BlockCompiler.Workspace.Edit

/-!
What each edit of a workspace does when it does not fail.
-/

namespace BlockCompiler

namespace Workspace

/-- A workspace with one block changed. -/
def change (ws : Workspace) (b : Nat) (f : Block → Block) : Workspace :=
  { ws with blocks := ws.blocks.modify b f }

/-- A workspace with one more connection, which is not linked. -/
def withConnection (ws : Workspace) (owner : Nat) (kind : ConnectionKind) (check : TypeCheck) : Workspace :=
  { ws with
    connections := ws.connections.push { owner, kind, check := check.filter fun names => !names.isEmpty } }

/-- A workspace with a connection that is linked otherwise. -/
def retarget (ws : Workspace) (c : Nat) (target : Option Nat) : Workspace :=
  { ws with connections := ws.connections.modify c fun connection => { connection with target } }

end Workspace

/-- The kind of the connection that a row has. -/
def RowKind.connection? : RowKind → Option ConnectionKind
  | .value => some .inputValue
  | .statement => some .nextStatement
  | .dummy => none

namespace Workspace

/-- A workspace with one more row on a block. -/
def withRow (ws : Workspace) (b : Nat) (name : String) (kind : RowKind) (check : TypeCheck) : Workspace :=
  match kind.connection? with
  | some connection =>
    (ws.withConnection b connection check).change b fun block =>
      { block with rows := block.rows ++ [{ kind, name, connection := some ws.connections.size }] }
  | none => ws.change b fun block => { block with rows := block.rows ++ [{ kind, name, connection := none }] }

end Workspace

namespace Edit

variable {ws t : Workspace} {u : Unit}

theorem yields_modifyBlock {b : Nat} {f : Block → Block} :
    Yields (modifyBlock b f) ws u t ↔ t = ws.change b f := yields_modify

theorem yields_setTarget {c : Nat} {target : Option Nat} :
    Yields (setTarget c target) ws u t ↔ t = ws.retarget c target := yields_modify

theorem yields_makeConnection {owner c : Nat} {kind : ConnectionKind} {check : TypeCheck} :
    Yields (makeConnection owner kind check) ws c t ↔
      c = ws.connections.size ∧ t = ws.withConnection owner kind check := by
  unfold makeConnection
  simp only [yields_get_bind, yields_set_bind, yields_pure, Workspace.withConnection]

theorem yields_makeBlock {type : String} {id : Option String} {b : Nat} :
    Yields (makeBlock type id) ws b t ↔
      b = ws.blocks.size ∧
        t = { ws with blocks := ws.blocks.push { type, ownId := id.filter (· ≠ "") } } := by
  unfold makeBlock
  simp only [yields_get_bind, yields_set_bind, yields_pure]

theorem yields_addRow {b : Nat} {name : String} {kind : RowKind} {check : TypeCheck} :
    Yields (addRow b name kind check) ws u t ↔
      (name = "" ∨ (ws.block b).row? name = none) ∧ t = ws.withRow b name kind check := by
  unfold addRow Workspace.withRow
  by_cases unnamed : name = "" <;> cases kind <;>
    simp [yields_bind, yields_makeConnection, yields_modifyBlock, RowKind.connection?, and_assoc, unnamed]

theorem yields_setOutput {b : Nat} {check : TypeCheck} :
    Yields (setOutput b check) ws u t ↔
      (ws.block b).previous = none ∧
        t = (ws.withConnection b .outputValue check).change b fun block =>
          { block with output := some ws.connections.size } := by
  unfold setOutput
  simp [yields_bind, yields_makeConnection, yields_modifyBlock, and_assoc]

theorem yields_setPrevious {b : Nat} {check : TypeCheck} :
    Yields (setPrevious b check) ws u t ↔
      (ws.block b).output = none ∧
        t = (ws.withConnection b .previousStatement check).change b fun block =>
          { block with previous := some ws.connections.size } := by
  unfold setPrevious
  simp [yields_bind, yields_makeConnection, yields_modifyBlock, and_assoc]

theorem yields_setNext {b : Nat} {check : TypeCheck} :
    Yields (setNext b check) ws u t ↔
      t = (ws.withConnection b .nextStatement check).change b fun block =>
        { block with next := some ws.connections.size } := by
  unfold setNext
  simp [yields_bind, yields_makeConnection, yields_modifyBlock, and_assoc]

/-- Linking asks for opposite kinds, different blocks, meeting checks and two free connections. -/
theorem yields_link {c other : Nat} :
    Yields (link c other) ws u t ↔
      (ws.connection other).kind = (ws.connection c).kind.opposite ∧
        (ws.connection other).owner ≠ (ws.connection c).owner ∧
        (ws.connection c).check.meets (ws.connection other).check ∧
        (ws.connection c).target = none ∧ (ws.connection other).target = none ∧
        t = (ws.retarget c (some other)).retarget other (some c) := by
  unfold link
  simp [yields_bind, yields_setTarget, and_assoc]

/-- Unlinking changes both ends of a link, if there is one. -/
theorem yields_unlink {c : Nat} :
    Yields (unlink c) ws u t ↔
      (ws.connection c).target = none ∧ t = ws ∨
        ∃ d, (ws.connection c).target = some d ∧ t = (ws.retarget d none).retarget c none := by
  unfold unlink
  rw [yields_get_bind]
  cases (ws.connection c).target <;> simp [yields_bind, yields_setTarget]

theorem yields_addMember {b : Nat} :
    Yields (addMember b) ws u t ↔
      b ∉ ws.members ∧ (∀ id, (ws.block b).ownId = some id → ws.memberWithId? id = none) ∧
        t = { ws with members := ws.members ++ [b] } := by
  unfold addMember
  cases own : (ws.block b).ownId <;> simp [and_assoc, own]

/-- Plugging asks for a socket of the name and for a plug of its kind, and links the two. -/
theorem yields_plugInto {b child : Nat} {name : String} :
    Yields (plugInto b name child) ws u t ↔
      ∃ row c plug, (ws.block b).row? name = some row ∧ row.connection = some c ∧
        (if row.kind = .value then (ws.block child).output else (ws.block child).previous) = some plug ∧
        Yields (link c plug) ws u t := by
  unfold plugInto
  simp only [yields_get_bind]
  cases found : (ws.block b).row? name with
  | none => simp
  | some row =>
    obtain ⟨kind, label, connection⟩ := row
    cases connection with
    | none => simp
    | some c =>
      cases plug : (if kind = .value then (ws.block child).output else (ws.block child).previous) <;>
        simp [plug]

theorem yields_follow {b child : Nat} :
    Yields (follow b child) ws u t ↔
      ∃ c plug, (ws.block b).next = some c ∧ (ws.block child).previous = some plug ∧
        Yields (link c plug) ws u t := by
  unfold follow
  simp only [yields_get_bind]
  cases (ws.block b).next <;> cases (ws.block child).previous <;> simp

theorem yields_declareVariable {wanted known : Variable} :
    Yields (declareVariable wanted) ws known t ↔ known = (ws.declare wanted).1 ∧
    t = (ws.declare wanted).2 := by
  unfold declareVariable
  simp [yields_map, and_comm]

/-- An edit that undoes what it did when it fails does the same as before when it does not fail. -/
theorem run_atomically {α : Type} (edit : Edit α) (ws : Workspace) :
    ((atomically edit).run ws : Except EditError α × Workspace) =
      match (edit.run ws : Except EditError α × Workspace) with
      | (.ok a, next) => (.ok a, next)
      | (.error error, _) => (.error error, ws) := by
  have caught : (atomically edit).run ws =
      (ExceptT.tryCatch edit fun error => (do set ws; throw error : Edit α)).run ws := rfl
  rw [caught]
  unfold ExceptT.tryCatch ExceptT.run ExceptT.mk
  simp only [bind, StateT.bind]
  generalize edit ws = outcome
  obtain ⟨result, next⟩ := outcome
  cases result <;> rfl

theorem yields_atomically {α : Type} {edit : Edit α} {a : α} :
    Yields (atomically edit) ws a t ↔ Yields edit ws a t := by
  unfold Yields
  rw [run_atomically]
  obtain ⟨result, next⟩ := (edit.run ws : Except EditError α × Workspace)
  cases result with
  | ok a => rfl
  | error error => constructor <;> intro given <;> cases given

end Edit

end BlockCompiler
