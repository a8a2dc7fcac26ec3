import BlockCompiler.Proofs.Document.Builds

/-!
A stack that can be built is built where its ids are new, and of one that cannot be built some block is
refused by the one it should be plugged into or follow. Nothing else stands in the way.
-/

namespace BlockCompiler

/-- Whether an edit failed as a block does not fit where it should go: there is no socket, no plug, no place
for a follower, or the checks do not meet. -/
def EditError.isUnfit : EditError → Bool
  | .noSocket .. | .cannotPlug .. | .cannotFollow .. | .checksDiffer .. => true
  | _ => false

mutual

theorem Stack.Tidy.full {α : Type} {stack : Stack α String} (tidy : stack.Tidy) : stack.Full := by
  match stack with
  | .empty => trivial
  | .block head rows next => exact ⟨tidy.2.1.full, tidy.2.2.full⟩

theorem Rows.Tidy.full {α : Type} {rows : Rows α String} (tidy : rows.Tidy) : rows.Full := by
  match rows with
  | .nil => trivial
  | .cons name plugged rest => exact ⟨tidy.1, tidy.2.1.full, tidy.2.2.full⟩

end

mutual

/-- Where a stack can be built, no block has two inputs of one name, and the rows of all blocks can be
counted. -/
theorem Stack.Builds.tidy {asValue : Bool} {stack : StackSpec} (builds : stack.Builds asValue)
    (full : stack.Full) :
    stack.Tidy ∧ ∀ spec ∈ stack.heads, spec.stop = none := by
  match stack with
  | .empty => exact ⟨trivial, by simp [Stack.heads]⟩
  | .block spec inputs next =>
    obtain ⟨stop, distinct, into, _, below⟩ := builds
    obtain ⟨tidy, stops⟩ := into.tidy full.1
    obtain ⟨tidyNext, stopsNext⟩ := below.tidy full.2
    rw [Stack.heads]
    exact ⟨⟨distinct, tidy, tidyNext⟩,
      List.forall_mem_cons.mpr ⟨stop, List.forall_mem_append.mpr ⟨stops, stopsNext⟩⟩⟩

theorem Rows.BuildsInto.tidy {inputs : Rows BlockSpec String} {specs : List RowSpec}
    (into : inputs.BuildsInto specs) (full : inputs.Full) :
    inputs.Tidy ∧ ∀ spec ∈ inputs.heads, spec.stop = none := by
  match inputs with
  | .nil => exact ⟨trivial, by simp [Rows.heads]⟩
  | .cons name plugged rest =>
    obtain ⟨⟨_, _, _, builds⟩, intoRest⟩ := into
    obtain ⟨tidy, stops⟩ := builds.tidy full.2.1
    obtain ⟨tidyRest, stopsRest⟩ := intoRest.tidy full.2.2
    rw [Rows.heads]
    exact ⟨⟨full.1, tidy, tidyRest⟩, List.forall_mem_append.mpr ⟨stops, stopsRest⟩⟩

end

/-- Nothing is plugged into the rows of a block that have certain names. -/
def Workspace.Vacant (ws : Workspace) (b : Nat) (names : List String) : Prop :=
  ∀ name ∈ names, ∀ row, (ws.block b).row? name = some row → ∀ c, row.connection = some c →
    (ws.connection c).target = none

section Vacant

open Workspace

variable {ws t : Workspace} {b n c d : Nat} {name : String} {names : List String} {row : Row}

/-- Rows stay vacant where no older connection is touched. -/
theorem Workspace.Vacant.grown (vacant : ws.Vacant b names) (holds : ws.Holds b)
    (grown : Grown ws t fun _ => False) :
    t.Vacant b names := by
  intro name labelled row found c point
  rw [grown.blocks b holds.bound] at found
  rw [grown.target c (holds.own c (Block.mem_points_of_row (Block.row?_mem found).1 point)).1 id]
  exact vacant name labelled row found c point

/-- Other rows stay vacant where another block is plugged into a row. -/
theorem Workspace.Vacant.plugged (vacant : ws.Vacant b (name :: names)) (unnamed : name ∉ names)
    (holds : ws.Holds b) (holds' : ws.Holds n) (apart : b ≠ n) (found : (ws.block b).row? name = some row)
    (point : row.connection = some c) (inPlugs : d ∈ (ws.block n).plugs)
    (grown : Grown ws t fun e => e = c ∨ e = d) : t.Vacant b names := by
  intro other labelled shown foundThere e pointThere
  rw [grown.blocks b holds.bound] at foundThere
  obtain ⟨bound, owner⟩ := holds.own e (Block.mem_points_of_row (Block.row?_mem foundThere).1 pointThere)
  rw [grown.target e bound]
  · exact vacant other (List.mem_cons_of_mem _ labelled) shown foundThere e pointThere
  · rintro (rfl | rfl)
    · obtain ⟨member, named⟩ := Block.row?_mem foundThere
      obtain ⟨member', named'⟩ := Block.row?_mem found
      rw [holds.sound.row_unique member member' pointThere point, named'] at named
      exact unnamed (named ▸ labelled)
    · exact apart (owner.symm.trans (holds'.own e (Block.mem_points_of_mem_plugs inPlugs)).2)

end Vacant

namespace Edit

open Workspace

variable {ws : Workspace}

/-- Two connections that are free and of opposite kinds are linked, unless their checks do not meet. -/
theorem runs_link {c d : Nat} {kind : ConnectionKind} {check other : TypeCheck}
    (isA : (ws.connection c).IsA kind check) (isOther : (ws.connection d).IsA kind.opposite other)
    (apart : (ws.connection d).owner ≠ (ws.connection c).owner)
    (free : (ws.connection c).target = none ∧ (ws.connection d).target = none) :
    Runs (fun error => error.isUnfit ∧ ¬ check.meets other) (link c d) ws fun _ _ => True := by
  have same : (ws.connection c).check.meets (ws.connection d).check = check.meets other := by
    rw [isA.2, isOther.2, TypeCheck.meets_filter]
  unfold link
  refine runs_get_bind ?_
  refine runs_ite (fun differ => absurd (by rw [isOther.1, isA.1]) differ) fun _ => ?_
  refine runs_ite (fun own => absurd own apart) fun _ => ?_
  refine runs_ite (fun _ => ?_) fun differ => runs_throw_bind ⟨rfl, same ▸ differ⟩
  exact runs_ite (fun used => by simp [free.1, free.2] at used) fun _ => Yields.runs (t := _) rfl trivial

/-- A block is plugged into a row that is free, unless its plug does not go there. -/
theorem runs_plugInto {b n : Nat} {name : String} {plug other : Plug} {specs others : List RowSpec}
    {row : RowSpec}
    (found : specs.find? (·.1 = name) = some row) (fitted : ws.Fitted (ws.block b) plug specs)
    (plugs : (ws.block n).Plugs other) (fits : ws.Fitted (ws.block n) other others) (holds : ws.Holds b)
    (holds' : ws.Holds n) (apart : b ≠ n)
    (free : ∀ shown, (ws.block b).row? name = some shown → ∀ c, shown.connection = some c →
    (ws.connection c).target = none)
    (untouched : ∀ c ∈ (ws.block n).plugs, (ws.connection c).target = none) :
    Runs (fun error => error.isUnfit ∧ ¬ other.GoesInto row) (plugInto b name n) ws fun _ _ => True := by
  have filled := fitted.row? name
  rw [found] at filled
  unfold plugInto
  refine runs_get_bind ?_
  cases search : (ws.block b).row? name with
  | none =>
    rw [search] at filled
    cases filled
  | some shown =>
    rw [search] at filled
    obtain ⟨head, sockets, each⟩ : ws.Fills shown row := by
      cases filled with
      | some fills => exact fills
    obtain ⟨kind, label, connection⟩ := shown
    obtain rfl : kind = row.2.1 := congrArg RowHead.kind head
    cases connection with
    | none =>
      have dummy : row.2.1 = .dummy := by
        by_contra proper
        exact absurd (sockets proper) (by simp)
      simp only [search]
      refine runs_throw ⟨rfl, ?_⟩
      rintro (⟨form, _⟩ | ⟨form, _⟩) <;> rw [dummy] at form <;> cases form
    | some c =>
      obtain ⟨opening, opens, isA⟩ := each c rfl
      have inPoints := Block.mem_points_of_row (Block.row?_mem search).1 rfl
      have vacant := free _ search c rfl
      have differ : ∀ d ∈ (ws.block n).plugs, (ws.connection d).owner ≠ (ws.connection c).owner := by
        intro d inPlugs
        rw [(holds'.own d (Block.mem_points_of_mem_plugs inPlugs)).2, (holds.own c inPoints).2]
        exact Ne.symm apart
      simp only [search]
      cases form : row.2.1 with
      | dummy =>
        rw [form] at opens
        cases opens
      | value =>
        rw [form] at opens
        obtain rfl : opening = .inputValue := (Option.some.inj opens).symm
        rw [Plug.goesInto_value form, if_pos rfl]
        cases plugged : (ws.block n).output with
        | none =>
          refine runs_throw ⟨rfl, ?_⟩
          rintro ⟨check, plugIs, _⟩
          simpa [plugged] using plugs.output.mpr ⟨check, plugIs⟩
        | some d =>
          obtain ⟨check, plugIs, isOutput⟩ := fits.output d plugged
          have inPlugs : d ∈ (ws.block n).plugs := by simp [Block.plugs, plugged]
          refine (runs_link isA isOutput (differ d inPlugs) ⟨vacant, untouched d inPlugs⟩).excuse ?_
          rintro error ⟨unfit, apart⟩
          refine ⟨unfit, ?_⟩
          rintro ⟨check', plugIs', meets⟩
          obtain rfl : check = check' := Plug.value.inj (plugIs.symm.trans plugIs')
          exact apart meets
      | statement =>
        rw [form] at opens
        obtain rfl : opening = .nextStatement := (Option.some.inj opens).symm
        rw [Plug.goesInto_statement form, if_neg (by decide)]
        cases plugged : (ws.block n).previous with
        | none =>
          refine runs_throw ⟨rfl, fun plugIs => ?_⟩
          simpa [plugged] using plugs.previous.mpr plugIs
        | some d =>
          have inPlugs : d ∈ (ws.block n).plugs := by simp [Block.plugs, plugged]
          have meets : row.2.2.meets none := by cases row.2.2 <;> rfl
          exact (runs_link isA (fits.previous d plugged) (differ d inPlugs)
            ⟨vacant, untouched d inPlugs⟩).excuse
            fun error unfit => absurd meets unfit.2

/-- A block follows another that nothing follows, unless one of them is no statement. -/
theorem runs_follow {b n : Nat} {plug other : Plug} {specs others : List RowSpec}
    (plugs : (ws.block b).Plugs plug) (plugs' : (ws.block n).Plugs other)
    (fitted : ws.Fitted (ws.block b) plug specs) (fits : ws.Fitted (ws.block n) other others)
    (holds : ws.Holds b) (holds' : ws.Holds n) (apart : b ≠ n)
    (free : ∀ c, (ws.block b).next = some c → (ws.connection c).target = none)
    (untouched : ∀ c ∈ (ws.block n).plugs, (ws.connection c).target = none) :
    Runs (fun error => error.isUnfit ∧ ¬ (plug = .statement ∧ other = .statement)) (follow b n) ws fun _ _ =>
      True := by
  unfold follow
  refine runs_get_bind ?_
  cases follower : (ws.block b).next with
  | none =>
    simp only [follower]
    refine runs_throw ⟨rfl, ?_⟩
    rintro ⟨statement, _⟩
    simpa [follower] using plugs.next.mpr statement
  | some c =>
    cases plugged : (ws.block n).previous with
    | none =>
      simp only [follower, plugged]
      refine runs_throw ⟨rfl, ?_⟩
      rintro ⟨_, statement⟩
      simpa [plugged] using plugs'.previous.mpr statement
    | some d =>
      have inPlugs : d ∈ (ws.block n).plugs := by simp [Block.plugs, plugged]
      have differ : (ws.connection d).owner ≠ (ws.connection c).owner := by
        rw [(holds'.own d (Block.mem_points_of_mem_plugs inPlugs)).2,
          (holds.own c (Block.mem_points_of_next follower)).2]
        exact Ne.symm apart
      simp only [follower, plugged]
      exact (runs_link (fitted.next c follower) (fits.previous d plugged) differ
        ⟨free c follower, untouched d inPlugs⟩).excuse
        fun error unfit => absurd rfl unfit.2

mutual

/-- A stack is built where its ids are new, unless it cannot be built. -/
theorem runs_buildStack {ws : Workspace} {asValue : Bool} {stack : StackSpec} (tidy : stack.Tidy)
    (stops : ∀ spec ∈ stack.heads, spec.stop = none) (members : ∀ b ∈ ws.members, b < ws.blocks.size)
    (fresh : (ws.ids ++ stack.heads.filterMap BlockSpec.id?).Nodup) :
    Runs (fun error => error.isUnfit ∧ ¬ stack.Builds asValue) (buildStack asValue stack) ws fun _ _ =>
      True := by
  match stack with
  | .empty =>
    rw [buildStack]
    exact runs_pure trivial
  | .block spec inputs next =>
    obtain ⟨distinct, filled, nested⟩ := tidy
    rw [Stack.heads] at stops
    obtain ⟨stop, others⟩ := List.forall_mem_cons.mp stops
    obtain ⟨inside, below⟩ := List.forall_mem_append.mp others
    have own : ∀ id, spec.ownId.filter (· ≠ "") = some id →
        ∀ b ∈ ws.members, (ws.block b).ownId ≠ some id := by
      intro id has b member same
      have older : id ∈ ws.ids := List.mem_filterMap.mpr ⟨b, member, same⟩
      have newer : id ∈ (Stack.block spec inputs next).heads.filterMap BlockSpec.id? :=
        List.mem_filterMap.mpr ⟨spec, List.mem_cons_self .., has⟩
      exact (List.nodup_append.mp fresh).2.2 id older id newer rfl
    obtain ⟨b, w, made⟩ := exists_buildBlock asValue stop distinct members own
    obtain ⟨fitted, _⟩ := fitted_buildBlock made
    obtain ⟨rfl, _, block, begun, renders⟩ := begun_buildBlock made
    obtain ⟨added, grown, holds, free⟩ := begun.added
    have here : w.block ws.blocks.size = block := begun.block
    have ids_w : w.ids = ws.ids ++ spec.id?.toList := by
      rw [added.ids grown members, List.range'_one, List.filterMap_cons, here, renders.id, BlockSpec.id?]
      cases spec.ownId.filter (· ≠ "") <;> rfl
    have split : (Stack.block spec inputs next).heads.filterMap BlockSpec.id? =
        spec.id?.toList ++ (inputs.heads.filterMap BlockSpec.id? ++ next.heads.filterMap BlockSpec.id?) := by
      rw [Stack.heads, List.filterMap_cons, List.filterMap_append]
      cases spec.id? <;> rfl
    rw [split, ← List.append_assoc, ← ids_w] at fresh
    have members_w := added.bounded members
    have vacant : w.Vacant ws.blocks.size inputs.labels := by
      intro name _ row found c point
      rw [here] at found
      exact (free c (Block.mem_points_of_row (Block.row?_mem found).1 point)).2
    rw [buildStack]
    refine runs_after made ?_
    have inputsRun := runs_buildInputs filled inside distinct holds fitted members_w
      (List.Sublist.nodup ((List.sublist_append_left ..).append_left _) fresh) vacant
    refine (inputsRun.excuse fun error ⟨unfit, cannot⟩ =>
      ⟨unfit, fun builds => cannot builds.2.2.1⟩).traced.bind
      fun _ v plugged => ?_
    obtain ⟨addedInputs, grownInputs, carriedInputs, _⟩ := carriesRows_buildInputs filled.full holds plugged
    obtain ⟨keptInputs, _⟩ := buildsInto_of_yields filled.full holds fitted plugged
    have ids_v := addedInputs.ids grownInputs members_w
    rw [ids_of_makes carriedInputs.makes] at ids_v
    rw [← List.append_assoc, ← ids_v] at fresh
    have nextRun : Runs (fun error => error.isUnfit ∧ ¬ next.Builds false) (buildStack false next) v
        fun _ _ => True :=
      runs_buildStack nested below (addedInputs.bounded members_w) fresh
    refine (nextRun.excuse fun error ⟨unfit, cannot⟩ =>
      ⟨unfit, fun builds => cannot builds.2.2.2.2⟩).traced.bind
      fun child y follows => ?_
    obtain ⟨_, grownNext, carriedNext, child_eq, freeNext⟩ := carries_buildStack nested.full follows
    obtain ⟨keptNext, _, fittedNext, _⟩ := builds_of_yields nested.full follows
    have holds_v := holds.grown grownInputs
    have holds_y := holds_v.grown grownNext
    have here_y : y.block ws.blocks.size = block :=
      (grownNext.blocks _ holds_v.bound).trans ((grownInputs.blocks _ holds.bound).trans here)
    have last : ∀ z : Workspace,
      Runs (fun error => error.isUnfit ∧ ¬ (Stack.block spec inputs next).Builds asValue) (do
        declareUsed ws.blocks.size
        return some ws.blocks.size) z fun _ _ => True :=
      fun z => runs_after (a := ⟨⟩) (yields_declareUsed.mpr rfl) (runs_pure trivial)
    cases next with
    | empty =>
      cases child_eq
      exact last y
    | block nextSpec nextInputs afterwards =>
      cases child_eq
      have there := carriedNext.1
      have freeOwn : ∀ c, (y.block ws.blocks.size).next = some c → (y.connection c).target = none := by
        intro c follower
        rw [here_y] at follower
        have point := Block.mem_points_of_next follower
        have bound := (holds.own c (here ▸ point)).1
        rw [grownNext.target c (Nat.lt_of_lt_of_le bound grownInputs.room) id, grownInputs.target c bound ?_]
        · exact (free c point).2
        · rintro ⟨_, _, row, found, same⟩
          rw [here] at found
          exact begun.sound.row_not_next (Block.row?_mem found).1 same follower
      have fitted_y : y.Fitted (y.block ws.blocks.size) (spec.plug asValue) (spec.rows inputs) := by
        rw [here] at fitted
        rw [here_y]
        exact fitted.kept (keptInputs.trans keptNext) fun e among => (holds.own e (here ▸ among)).1
      have apart : ws.blocks.size ≠ v.blocks.size := Nat.ne_of_lt holds_v.bound
      have followRun :=
        runs_follow (here_y ▸ renders.plugs) carriedNext.2.1.plugs fitted_y fittedNext holds_y there apart
          freeOwn fun d plug => (freeNext rfl d plug).2
      refine (followRun.excuse fun error ⟨unfit, cannot⟩ => ⟨unfit, ?_⟩).bind fun _ z _ => last z
      exact fun builds => cannot (builds.2.2.2.1 nextSpec rfl)

theorem runs_buildInputs {ws : Workspace} {b : Nat} {inputs : Rows BlockSpec String} {plug : Plug}
    {specs : List RowSpec} (tidy : inputs.Tidy) (stops : ∀ spec ∈ inputs.heads, spec.stop = none)
    (distinct : inputs.labels.Nodup) (holds : ws.Holds b) (fitted : ws.Fitted (ws.block b) plug specs)
    (members : ∀ m ∈ ws.members, m < ws.blocks.size)
    (fresh : (ws.ids ++ inputs.heads.filterMap BlockSpec.id?).Nodup) (vacant : ws.Vacant b inputs.labels) :
    Runs (fun error => error.isUnfit ∧ ¬ inputs.BuildsInto specs) (buildInputs b inputs) ws fun _ _ =>
      True := by
  match inputs with
  | .nil =>
    rw [buildInputs]
    exact runs_pure trivial
  | .cons name plugged rest =>
    obtain ⟨proper, filled, others⟩ := tidy
    obtain ⟨unnamed, distinctRest⟩ := List.nodup_cons.mp distinct
    rw [Rows.heads] at stops
    obtain ⟨stopsHere, stopsRest⟩ := List.forall_mem_append.mp stops
    rw [buildInputs]
    refine runs_get_bind ?_
    have matched := fitted.row? name
    cases found : (ws.block b).row? name with
    | none =>
      rw [found] at matched
      cases search : specs.find? (·.1 = name) with
      | some spec =>
        rw [search] at matched
        cases matched
      | none =>
        simp only [found]
        refine runs_throw_bind ⟨rfl, fun into => ?_⟩
        obtain ⟨⟨_, there, _⟩, _⟩ := into
        rw [search] at there
        cases there
    | some row =>
      rw [found] at matched
      cases search : specs.find? (·.1 = name) with
      | none =>
        rw [search] at matched
        cases matched
      | some spec =>
        rw [search] at matched
        have fills : ws.Fills row spec := by
          cases matched with
          | some fills => exact fills
        obtain ⟨kind, label, connection⟩ := row
        obtain rfl : kind = spec.2.1 := congrArg RowHead.kind fills.1
        cases plugged with
        | empty => cases proper
        | block inner innerInputs innerNext =>
          have intoHere : (Rows.cons name (.block inner innerInputs innerNext) rest).BuildsInto specs →
              (inner.plug (spec.2.1 = .value)).GoesInto spec ∧
                (Stack.block inner innerInputs innerNext).Builds (spec.2.1 = .value) := by
            rintro ⟨⟨_, there, goes, builds⟩, _⟩
            obtain rfl := Option.some.inj (search.symm.trans there)
            exact ⟨goes inner rfl, builds⟩
          cases connection with
          | none =>
            simp only [found]
            refine runs_throw_bind ⟨rfl, fun into => ?_⟩
            have proper : spec.2.1 ≠ .dummy := by
              rcases (intoHere into).1 with ⟨form, _⟩ | ⟨form, _⟩ <;> simp [form]
            exact absurd (fills.2.1 proper) (by simp)
          | some c =>
            have split :
                (Rows.cons name (.block inner innerInputs innerNext) rest).heads.filterMap BlockSpec.id? =
                (Stack.block inner innerInputs innerNext).heads.filterMap BlockSpec.id? ++
                  rest.heads.filterMap BlockSpec.id? := by
              rw [Rows.heads, List.filterMap_append]
            rw [split] at fresh
            simp only [found]
            have stackRun :
                Runs (fun error => error.isUnfit ∧
                ¬ (Stack.block inner innerInputs innerNext).Builds (spec.2.1 = .value))
                (buildStack (spec.2.1 = .value) (.block inner innerInputs innerNext)) ws fun _ _ => True :=
              runs_buildStack filled stopsHere members
                (List.Sublist.nodup ((List.sublist_append_left ..).append_left _) fresh)
            refine (stackRun.excuse fun error ⟨unfit, cannot⟩ =>
              ⟨unfit, fun into => cannot (intoHere into).2⟩).traced.bind
              fun root w made => ?_
            obtain ⟨added, grown, carried, root_eq, freeHead⟩ := carries_buildStack filled.full made
            cases root_eq
            obtain ⟨kept, _, fits, _⟩ := builds_of_yields filled.full made
            have holds_w := holds.grown grown
            have here_w := grown.blocks b holds.bound
            have fitted_w : w.Fitted (w.block b) plug specs := by
              rw [here_w]
              exact fitted.kept kept fun e inside => (holds.own e inside).1
            have vacant_w : w.Vacant b (name :: rest.labels) := vacant.grown holds grown
            have apart : b ≠ ws.blocks.size := Nat.ne_of_lt holds.bound
            have plugRun := runs_plugInto search fitted_w carried.2.1.plugs fits holds_w carried.1 apart
              (vacant_w name (List.mem_cons_self ..)) fun d plug => (freeHead rfl d plug).2
            refine (plugRun.excuse fun error ⟨unfit, cannot⟩ =>
              ⟨unfit, fun into => cannot (intoHere into).1⟩).traced.bind
              fun _ v plugs => ?_
            obtain ⟨addedLink, _, _, _, d, inPlugs, grownLink⟩ :=
              grown_plugInto holds_w carried.1 (here_w ▸ found) rfl plugs
            obtain ⟨_, keptLink, _⟩ := goesInto_of_plugInto search fitted_w carried.2.1 fits plugs
            have here_v := grownLink.blocks b holds_w.bound
            have fitted_v : v.Fitted (v.block b) plug specs := by
              rw [here_v]
              exact fitted_w.kept keptLink fun e inside => (holds_w.own e inside).1
            have members_w := added.bounded members
            have ids_v :
                v.ids = ws.ids ++ (Stack.block inner innerInputs innerNext).heads.filterMap
                BlockSpec.id? := by
              rw [addedLink.ids grownLink members_w, added.ids grown members, ids_of_makes carried.makes]
              simp
            rw [← List.append_assoc, ← ids_v] at fresh
            have vacant_v : v.Vacant b rest.labels :=
              vacant_w.plugged unnamed holds_w carried.1 apart (here_w ▸ found) rfl inPlugs grownLink
            have restRun := runs_buildInputs others stopsRest distinctRest (holds_w.grown grownLink) fitted_v
              (addedLink.bounded members_w) fresh vacant_v
            exact restRun.excuse fun error ⟨unfit, cannot⟩ => ⟨unfit, fun into => cannot into.2⟩

end

end Edit

end BlockCompiler
