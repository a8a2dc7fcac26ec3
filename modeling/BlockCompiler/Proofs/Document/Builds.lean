import BlockCompiler.Proofs.Document.Declared
import BlockCompiler.Proofs.Workspace.Possible

/-!
When a stack can be built: its blocks can be made, and what is plugged in or follows fits. The order of
inputs, positions, comments and fields do not matter.
-/

namespace BlockCompiler

/-- A plug goes into a row: an output into a socket that takes its type, a statement into an opening. -/
def Plug.GoesInto (plug : Plug) (row : RowSpec) : Prop :=
  (row.2.1 = .value ∧ ∃ check, plug = .value check ∧ row.2.2.meets check) ∨
    row.2.1 = .statement ∧ plug = .statement

theorem Plug.goesInto_value {plug : Plug} {row : RowSpec} (form : row.2.1 = .value) :
    plug.GoesInto row ↔ ∃ check, plug = .value check ∧ row.2.2.meets check := by
  simp [GoesInto, form]

theorem Plug.goesInto_statement {plug : Plug} {row : RowSpec} (form : row.2.1 = .statement) :
    plug.GoesInto row ↔ plug = .statement := by
  simp [GoesInto, form]

mutual

/-- A stack can be built, in the socket of a value or not. -/
def Stack.Builds (asValue : Bool) : StackSpec → Prop
  | .empty => True
  | .block spec inputs next =>
    spec.stop = none ∧ inputs.labels.Nodup ∧ inputs.BuildsInto (spec.rows inputs) ∧
      (∀ follower ∈ next.head?, spec.plug asValue = .statement ∧ follower.plug false = .statement) ∧
        next.Builds false

/-- What is in some inputs can be built and plugged into the rows of their names. -/
def Rows.BuildsInto : Rows BlockSpec String → List RowSpec → Prop
  | .nil, _ => True
  | .cons name plugged rest, specs =>
    (∃ row, specs.find? (·.1 = name) = some row ∧
      (∀ head ∈ plugged.head?, (head.plug (row.2.1 = .value)).GoesInto row) ∧
      plugged.Builds (row.2.1 = .value)) ∧ rest.BuildsInto specs

end

/-- The id of a block, where an empty one is none. -/
def BlockSpec.id? (spec : BlockSpec) : Option String := spec.ownId.filter (· ≠ "")

namespace Workspace

/-- The ids of the members of a workspace. -/
def ids (ws : Workspace) : List String := ws.members.filterMap fun b => (ws.block b).ownId

/-- The head of a stack is fitted. -/
def FittedTo (ws : Workspace) (n : Nat) (asValue : Bool) : StackSpec → Prop
  | .empty => True
  | .block spec inputs _ => ws.Fitted (ws.block n) (spec.plug asValue) (spec.rows inputs)

variable {ws t : Workspace}

/-- The ids of the blocks that come last are those of what was added. -/
theorem Adds.ids {count : Nat} {Touched : Nat → Prop} (added : Adds ws t count) (grown : Grown ws t Touched)
    (members : ∀ b ∈ ws.members, b < ws.blocks.size) :
    t.ids = ws.ids ++ (List.range' ws.blocks.size count).filterMap fun b => (t.block b).ownId := by
  rw [Workspace.ids, added.members, List.filterMap_append, Workspace.ids]
  exact congrArg (· ++ _) (List.filterMap_congr fun b member => by rw [grown.blocks b (members b member)])

theorem Adds.bounded {count : Nat} (added : Adds ws t count)
    (members : ∀ b ∈ ws.members, b < ws.blocks.size) :
    ∀ b ∈ t.members, b < t.blocks.size := by
  intro b member
  rw [added.members, List.mem_append, List.mem_range'_1] at member
  rw [added.size]
  rcases member with older | newer
  · have := members b older
    omega
  · omega

/-- A block of a workspace is one that a specification describes. -/
def Makes (ws : Workspace) (b : Nat) (spec : BlockSpec) : Prop :=
  ∃ asValue inputs, (ws.block b).Renders spec asValue inputs

mutual

/-- The blocks that carry a stack are those of the stack, in order. -/
theorem Carries.makes {ws : Workspace} {asValue : Bool} {n : Nat} {stack : StackSpec}
    (carries : ws.Carries asValue n stack) :
    List.Forall₂ ws.Makes (List.range' n stack.size) stack.heads := by
  match stack with
  | .empty => exact .nil
  | .block spec inputs next =>
    obtain ⟨_, renders, _, _, rows, _, below⟩ := carries
    have split : List.range' n (1 + inputs.size + next.size) =
        n :: (List.range' (n + 1) inputs.size ++ List.range' (n + 1 + inputs.size) next.size) := by
      rw [List.range'_append_1, Nat.add_assoc, Nat.add_comm 1, List.range'_succ]
    rw [Stack.size, split, Stack.heads]
    exact .cons ⟨_, _, renders⟩ (List.rel_append rows.makes below.makes)

theorem CarriesRows.makes {ws : Workspace} {b n : Nat} {rows : Rows BlockSpec String}
    (carries : ws.CarriesRows b n rows) : List.Forall₂ ws.Makes (List.range' n rows.size) rows.heads := by
  match rows with
  | .nil => exact .nil
  | .cons name plugged rest =>
    obtain ⟨⟨row, _, _, below⟩, _, others⟩ := carries
    rw [Rows.size, ← List.range'_append_1, Rows.heads]
    exact List.rel_append below.makes others.makes

end

/-- Blocks have the ids that are given in their specifications. -/
theorem ids_of_makes {ws : Workspace} {numbers : List Nat} {specs : List BlockSpec}
    (made : List.Forall₂ ws.Makes numbers specs) :
    numbers.filterMap (fun b => (ws.block b).ownId) = specs.filterMap BlockSpec.id? := by
  induction made with
  | nil => rfl
  | @cons b spec _ _ first _ ih =>
    obtain ⟨_, _, renders⟩ := first
    have id : (ws.block b).ownId = spec.id? := renders.id
    rw [List.filterMap_cons, List.filterMap_cons, id, ih]

end Workspace

namespace Edit

open Workspace

variable {ws t : Workspace} {u : Unit}

theorem kept_link {c d : Nat} (linked : Yields (link c d) ws u t) : Kept ws t ∧ t.declared = ws.declared := by
  obtain ⟨_, _, _, _, _, rfl⟩ := yields_link.mp linked
  exact ⟨(kept_retarget c _).trans (kept_retarget d _), rfl⟩

/-- Where plugging works, the plug goes into the row. -/
theorem goesInto_of_plugInto {b n : Nat} {name : String} {plug : Plug} {specs others : List RowSpec}
    {spec : BlockSpec} {inputs : Rows BlockSpec String} {row : RowSpec}
    (found : specs.find? (·.1 = name) = some row) (fitted : ws.Fitted (ws.block b) plug specs)
    (renders : (ws.block n).Renders spec (row.2.1 = .value) inputs)
    (fits : ws.Fitted (ws.block n) (spec.plug (row.2.1 = .value)) others)
    (plugged : Yields (plugInto b name n) ws u t) :
    (spec.plug (row.2.1 = .value)).GoesInto row ∧ Kept ws t ∧ t.declared = ws.declared := by
  obtain ⟨shown, c, d, there, point, plugs, linked⟩ := yields_plugInto.mp plugged
  refine ⟨?_, kept_link linked⟩
  have filled := fitted.row? name
  rw [there, found] at filled
  cases filled with
  | some fills =>
    obtain ⟨head, _, each⟩ := fills
    obtain ⟨kind, opens, isA⟩ := each c point
    have same : shown.kind = row.2.1 := congrArg RowHead.kind head
    rw [same] at plugs
    obtain ⟨_, _, meets, _⟩ := yields_link.mp linked
    cases form : row.2.1 with
    | value =>
      simp only [form, if_true] at plugs
      obtain ⟨check, plugIs, isOutput⟩ := fits.output d plugs
      rw [isA.2, isOutput.2, TypeCheck.meets_filter] at meets
      rw [form] at plugIs
      exact .inl ⟨form, check, plugIs, meets⟩
    | statement =>
      rw [form] at plugs renders
      rw [if_neg (by decide)] at plugs
      exact .inr ⟨form, renders.plugs.previous.mp (by rw [plugs]; rfl)⟩
    | dummy =>
      rw [form] at opens
      cases opens

mutual

/-- A stack that is built could be built, and declares the variables it uses. -/
theorem builds_of_yields {ws t : Workspace} {asValue : Bool} {stack : StackSpec} {root : Option Nat}
    (full : stack.Full) (built : Yields (buildStack asValue stack) ws root t) :
    Kept ws t ∧ stack.Builds asValue ∧ t.FittedTo ws.blocks.size asValue stack ∧
      t.declared = declareAll ws.declared stack.used := by
  match stack with
  | .empty =>
    rw [buildStack] at built
    obtain ⟨_, rfl⟩ := yields_pure.mp built
    exact ⟨.refl, trivial, trivial, by rw [Stack.used]; rfl⟩
  | .block spec inputs next =>
    rw [buildStack] at built
    obtain ⟨filled, nested⟩ := full
    obtain ⟨b, w, made, built⟩ := yields_bind.mp built
    obtain ⟨fitted, stop⟩ := fitted_buildBlock made
    obtain ⟨rfl, _, block, begun, renders⟩ := begun_buildBlock made
    obtain ⟨added, grown, holds, free⟩ := begun.added
    have here : w.block ws.blocks.size = block := begun.block
    obtain ⟨_, v, plugged, built⟩ := yields_bind.mp built
    obtain ⟨addedInputs, grownInputs, carriedInputs, distinct, _⟩ :=
      carriesRows_buildInputs filled holds plugged
    obtain ⟨keptInputs, buildsInputs, declaredInputs⟩ := buildsInto_of_yields filled holds fitted plugged
    obtain ⟨child, y, follows, built⟩ := yields_bind.mp built
    obtain ⟨addedNext, grownNext, carriedNext, child_eq, _⟩ := carries_buildStack nested follows
    obtain ⟨keptNext, buildsNext, fittedNext, declaredNext⟩ := builds_of_yields nested follows
    have holds_v := holds.grown grownInputs
    have here_v : v.block ws.blocks.size = block := (grownInputs.blocks _ holds.bound).trans here
    have here_y : y.block ws.blocks.size = block := (grownNext.blocks _ holds_v.bound).trans here_v
    have attached : ∃ z, Kept y z ∧ z.declared = y.declared ∧ z.block ws.blocks.size = block ∧
        (∀ follower ∈ next.head?, spec.plug asValue = .statement ∧ follower.plug false = .statement) ∧
        t = { z with declared := declareAll z.declared block.toBlockContent.used } := by
      cases next with
      | empty =>
        cases child_eq
        obtain ⟨_, _, declared, built⟩ := yields_bind.mp built
        obtain rfl := yields_declareUsed.mp declared
        obtain ⟨_, rfl⟩ := yields_pure.mp built
        exact ⟨y, .refl, rfl, here_y, by simp [Stack.head?], by rw [here_y]⟩
      | block nextSpec nextInputs afterwards =>
        cases child_eq
        obtain ⟨_, z, followed, built⟩ := yields_bind.mp built
        obtain ⟨_, _, declared, built⟩ := yields_bind.mp built
        obtain rfl := yields_declareUsed.mp declared
        obtain ⟨_, rfl⟩ := yields_pure.mp built
        obtain ⟨c, d, follower, plug, linked⟩ := yields_follow.mp followed
        obtain ⟨kept, declared⟩ := kept_link linked
        have same : z.block ws.blocks.size = block := by
          obtain ⟨_, _, _, _, _, rfl⟩ := yields_link.mp linked
          exact here_y
        refine ⟨z, kept, declared, same, ?_, by rw [same]⟩
        rintro head found
        cases found
        refine ⟨renders.plugs.next.mp ?_, carriedNext.2.1.plugs.previous.mp ?_⟩
        · rw [← here_y, follower]
          rfl
        · rw [plug]
          rfl
    obtain ⟨z, keptLink, declaredLink, here_z, fits, rfl⟩ := attached
    have kept : Kept w { z with declared := declareAll z.declared block.toBlockContent.used } :=
      (keptInputs.trans keptNext).trans ⟨keptLink.room, keptLink.kind, keptLink.check⟩
    have start : Kept ws w := ⟨begun.kept.room, begun.kept.kind, begun.kept.check⟩
    refine ⟨start.trans kept, ⟨stop, distinct, buildsInputs, fits, buildsNext⟩, ?_, ?_⟩
    · have shape : ({ z with declared := declareAll z.declared block.toBlockContent.used } : Workspace).block
          ws.blocks.size = block := here_z
      rw [FittedTo, shape]
      rw [here] at fitted
      exact fitted.kept kept fun c point => (holds.own c (here ▸ point)).1
    · show declareAll z.declared _ = _
      have own : w.declared = ws.declared := begun.declared
      rw [declaredLink, declaredNext, declaredInputs, own, renders.content, Stack.used, declareAll_append,
        declareAll_append]

theorem buildsInto_of_yields {ws t : Workspace} {u : Unit} {b : Nat} {inputs : Rows BlockSpec String}
    {plug : Plug} {specs : List RowSpec} (full : inputs.Full) (holds : ws.Holds b)
    (fitted : ws.Fitted (ws.block b) plug specs) (built : Yields (buildInputs b inputs) ws u t) :
    Kept ws t ∧ inputs.BuildsInto specs ∧ t.declared = declareAll ws.declared inputs.used := by
  match inputs with
  | .nil =>
    rw [buildInputs] at built
    obtain ⟨_, rfl⟩ := yields_pure.mp built
    exact ⟨.refl, trivial, by rw [Rows.used]; rfl⟩
  | .cons name plugged rest =>
    rw [buildInputs, yields_get_bind] at built
    obtain ⟨proper, filled, others⟩ := full
    have matched := fitted.row? name
    cases found : (ws.block b).row? name with
    | none => simp [found] at built
    | some row =>
      obtain ⟨kind, label, connection⟩ := row
      cases connection with
      | none => simp [found] at built
      | some c =>
        simp only [found] at built matched
        cases search : specs.find? (·.1 = name) with
        | none =>
          rw [search] at matched
          cases matched
        | some spec =>
          rw [search] at matched
          have fills : ws.Fills ⟨kind, label, some c⟩ spec := by
            cases matched with
            | some fills => exact fills
          obtain rfl : kind = spec.2.1 := congrArg RowHead.kind fills.1
          obtain ⟨child, w, made, built⟩ := yields_bind.mp built
          obtain ⟨added, grown, carried, child_eq, free⟩ := carries_buildStack filled made
          obtain ⟨kept, builds, fits, declared⟩ := builds_of_yields filled made
          cases plugged with
          | empty => cases proper
          | block inner innerInputs innerNext =>
            cases child_eq
            obtain ⟨_, v, plugs, built⟩ := yields_bind.mp built
            have holds_w := holds.grown grown
            have here_w := grown.blocks b holds.bound
            have fitted_w : w.Fitted (w.block b) plug specs := by
              rw [here_w]
              exact fitted.kept kept fun e point => (holds.own e point).1
            obtain ⟨goes, keptLink, declaredLink⟩ :=
              goesInto_of_plugInto search fitted_w carried.2.1 fits plugs
            obtain ⟨_, _, _, _, d, _, grownLink⟩ :=
              grown_plugInto holds_w (carried.holds rfl).1 (here_w ▸ found) rfl plugs
            have holds_v := holds_w.grown grownLink
            have here_v := grownLink.blocks b holds_w.bound
            have fitted_v : v.Fitted (v.block b) plug specs := by
              rw [here_v]
              exact fitted_w.kept keptLink fun e point => (holds_w.own e point).1
            obtain ⟨keptRest, buildsRest, declaredRest⟩ := buildsInto_of_yields others holds_v fitted_v built
            refine ⟨(kept.trans keptLink).trans keptRest, ⟨⟨spec, search, ?_, builds⟩, buildsRest⟩, ?_⟩
            · rintro head found
              cases found
              exact goes
            · rw [declaredRest, declaredLink, declared, Rows.used, declareAll_append]

end

end Edit

end BlockCompiler
