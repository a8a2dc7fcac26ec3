import BlockCompiler.Proofs.Workspace.Fitted

/-!
Operations on the blocks of a workspace, one after another, and how connections are linked wherever they lead.
-/

namespace BlockCompiler

/-- An operation that makes a block, gives it shape, or links blocks. -/
inductive Operation where
  | newBlock (type : String) (id : Option String) (mutation fields : Table Json)
  | makeBlock (type : String) (id : Option String)
  | addMember (b : Nat)
  | addRow (b : Nat) (name : String) (kind : RowKind) (check : TypeCheck)
  | setOutput (b : Nat) (check : TypeCheck)
  | setPrevious (b : Nat) (check : TypeCheck)
  | setNext (b : Nat) (check : TypeCheck)
  | link (c d : Nat)
  | plugInto (b : Nat) (name : String) (child : Nat)
  | follow (b child : Nat)
  | unlink (c : Nat)

namespace Operation

/-- The edit that an operation is. -/
def edit : Operation → Edit Unit
  | newBlock type id mutation fields => discard <| Edit.newBlock type id mutation fields
  | makeBlock type id => discard <| Edit.makeBlock type id
  | addMember b => Edit.addMember b
  | addRow b name kind check => Edit.addRow b name kind check
  | setOutput b check => Edit.setOutput b check
  | setPrevious b check => Edit.setPrevious b check
  | setNext b check => Edit.setNext b check
  | link c d => Edit.link c d
  | plugInto b name child => Edit.plugInto b name child
  | follow b child => Edit.follow b child
  | unlink c => Edit.unlink c

/-- The blocks and connections that an operation speaks of are there. A connection may be one that its block
has given up for another. -/
def Refers (ws : Workspace) : Operation → Prop
  | newBlock .. | makeBlock .. => True
  | addMember b | addRow b .. | setOutput b _ | setPrevious b _ | setNext b _ => b < ws.blocks.size
  | link c d => c < ws.connections.size ∧ d < ws.connections.size
  | plugInto b _ child | follow b child => b < ws.blocks.size ∧ child < ws.blocks.size
  | unlink c => c < ws.connections.size

/-- The workspace after an operation, whether it succeeds or fails. -/
def after (operation : Operation) (ws : Workspace) : Workspace :=
  (operation.edit.run ws : Except EditError Unit × Workspace).2

end Operation

/-- The workspaces that operations lead to from an empty one, when each operation is allowed where it is
done. -/
inductive Workspace.Reached (Allowed : Workspace → Operation → Prop) : Workspace → Prop
  | start (name : String) (oneBased : Bool) : Reached Allowed { name, oneBased }
  | next {ws : Workspace} {operation : Operation} (reached : Reached Allowed ws)
      (refers : operation.Refers ws)
      (allowed : Allowed ws operation) : Reached Allowed (operation.after ws)

/-- An edit succeeds, or it fails and leaves the workspace as it was. -/
def Edit.Retreats {α : Type} (edit : Edit α) (ws : Workspace) : Prop :=
  (∃ a t, Yields edit ws a t) ∨ ∃ error, (edit.run ws : Except EditError α × Workspace) = (.error error, ws)

namespace Edit

variable {α β : Type} {ws : Workspace} {edit : Edit α} {f : α → Edit β}

theorem Retreats.of_yields {a : α} {t : Workspace} (yields : Yields edit ws a t) : edit.Retreats ws :=
  .inl ⟨a, t, yields⟩

theorem retreats_throw_bind (error : EditError) : ((throw error : Edit α) >>= f).Retreats ws :=
  .inr ⟨error, rfl⟩

theorem retreats_throw (error : EditError) : (throw error : Edit α).Retreats ws := .inr ⟨error, rfl⟩

theorem Retreats.discard (retreats : edit.Retreats ws) : (discard edit : Edit PUnit).Retreats ws := by
  rcases retreats with ⟨a, t, yields⟩ | ⟨error, fails⟩
  · exact .of_yields (yields_map.mpr ⟨a, yields, rfl⟩)
  · refine .inr ⟨error, ?_⟩
    show ((edit >>= fun _ => pure PUnit.unit).run ws : Except EditError PUnit × Workspace) = _
    rw [run_bind, fails]

theorem retreats_atomically (edit : Edit α) (ws : Workspace) : (atomically edit).Retreats ws := by
  unfold Retreats Yields
  rw [run_atomically]
  obtain ⟨result, t⟩ := (edit.run ws : Except EditError α × Workspace)
  cases result with
  | ok a => exact .inl ⟨a, t, rfl⟩
  | error error => exact .inr ⟨error, rfl⟩

theorem retreats_get_bind {g : Workspace → Edit β} : (get >>= g).Retreats ws ↔ (g ws).Retreats ws := Iff.rfl

theorem retreats_ite {c : Prop} [Decidable c] {one other : Edit α} (yes : c → one.Retreats ws)
    (no : ¬ c → other.Retreats ws) : (if c then one else other).Retreats ws := by
  split
  · exact yes ‹_›
  · exact no ‹_›

theorem retreats_addRow (b : Nat) (name : String) (kind : RowKind) (check : TypeCheck) :
    (addRow b name kind check).Retreats ws := by
  unfold addRow
  rw [retreats_get_bind]
  refine retreats_ite (fun _ => retreats_throw_bind _) fun _ => .inl ?_
  cases kind <;> exact ⟨_, _, rfl⟩

theorem retreats_setOutput (b : Nat) (check : TypeCheck) : (setOutput b check).Retreats ws := by
  unfold setOutput
  rw [retreats_get_bind]
  refine retreats_ite (fun _ => retreats_throw_bind _) fun _ => .inl ⟨_, _, rfl⟩

theorem retreats_setPrevious (b : Nat) (check : TypeCheck) : (setPrevious b check).Retreats ws := by
  unfold setPrevious
  rw [retreats_get_bind]
  exact retreats_ite (fun _ => retreats_throw_bind _) fun _ => .inl ⟨_, _, rfl⟩

theorem retreats_link (c d : Nat) : (link c d).Retreats ws := by
  unfold link
  rw [retreats_get_bind]
  refine retreats_ite (fun _ => retreats_throw_bind _) fun _ => ?_
  refine retreats_ite (fun _ => retreats_throw_bind _) fun _ => ?_
  refine retreats_ite (fun _ => ?_) fun _ => retreats_throw_bind _
  exact retreats_ite (fun _ => retreats_throw_bind _) fun _ => .inl ⟨_, _, rfl⟩

theorem retreats_plugInto (b child : Nat) (name : String) : (plugInto b name child).Retreats ws := by
  unfold plugInto
  rw [retreats_get_bind]
  dsimp only
  split
  · split
    · exact retreats_throw _
    · exact retreats_link ..
  · exact retreats_throw _

theorem retreats_follow (b child : Nat) : (follow b child).Retreats ws := by
  unfold follow
  rw [retreats_get_bind]
  dsimp only
  split
  · exact retreats_link ..
  · exact retreats_throw _

theorem retreats_unlink (c : Nat) : (unlink c).Retreats ws := by
  unfold unlink
  rw [retreats_get_bind]
  split <;> exact .inl ⟨_, _, rfl⟩

theorem retreats_addMember (b : Nat) : (addMember b).Retreats ws := by
  unfold addMember
  rw [retreats_get_bind]
  exact retreats_ite (fun _ => retreats_throw_bind _) fun _ => .inl ⟨_, _, rfl⟩

end Edit

/-- An operation succeeds, or it leaves the workspace as it was. -/
theorem Operation.after_cases (operation : Operation) (ws : Workspace) :
    Yields operation.edit ws () (operation.after ws) ∨ operation.after ws = ws := by
  have retreats : operation.edit.Retreats ws := by
    cases operation with
    | newBlock => exact (Edit.retreats_atomically ..).discard
    | makeBlock => exact Edit.Retreats.discard (.inl ⟨_, _, rfl⟩)
    | addMember => exact Edit.retreats_addMember ..
    | addRow => exact Edit.retreats_addRow ..
    | setOutput => exact Edit.retreats_setOutput ..
    | setPrevious => exact Edit.retreats_setPrevious ..
    | setNext => exact .inl ⟨_, _, rfl⟩
    | link => exact Edit.retreats_link ..
    | plugInto => exact Edit.retreats_plugInto ..
    | follow => exact Edit.retreats_follow ..
    | unlink => exact Edit.retreats_unlink ..
  rcases retreats with ⟨_, t, yields⟩ | ⟨error, fails⟩
  · refine .inl ?_
    rw [after, yields]
    exact yields
  · refine .inr ?_
    rw [after, fails]

end BlockCompiler
