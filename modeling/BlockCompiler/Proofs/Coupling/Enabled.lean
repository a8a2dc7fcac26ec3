import BlockCompiler.Proofs.Coupling.Sources
import BlockCompiler.Proofs.Document.Enabled
import BlockCompiler.Proofs.Sorting.Placed

/-!
Disabled blocks: the source of a workspace is that of the same workspace without them.
-/

namespace BlockCompiler

/-- The comparison of a run with one in which disabled blocks are left out. -/
def Coupling.skipping : Coupling where
  extra := false
  skips := true
  Heads head other := other = head
  Keeps _ := True
  alike := @BlockHead.alike_of_eq
  keeps := @keeps_nothing

section Comments

theorem Rows.comments_ofList {specs : List RowSpec} {f : RowSpec → Stack BlockHead RowHead} :
    (Rows.ofList (specs.map fun row => (row.head, f row))).heads.filterMap (·.comment) =
    specs.flatMap fun row => (f row).comments := by
  induction specs with
  | nil => rfl
  | cons row rest ih =>
    rw [List.map_cons, Rows.ofList, Rows.heads, List.filterMap_append, ih, List.flatMap_cons]
    rfl

/-- The comments of a stack: that of its first block, those in its rows, and those below. -/
theorem Stack.comments_shown {asValue : Bool} {spec : BlockSpec} {inputs : Rows BlockSpec String}
    {next : StackSpec} :
    ((Stack.block spec inputs next).shown asValue).comments = spec.comment.toList ++
      ((spec.rows inputs).flatMap (fun row => (inputs.shownIn row.head).comments) ++
      (next.shown false).comments) := by
  have first : ∀ (head : BlockHead) (rest : List BlockHead),
      (head :: rest).filterMap (·.comment) = head.comment.toList ++ rest.filterMap (·.comment) := by
    intro head rest
    rw [List.filterMap_cons]
    cases head.comment <;> rfl
  rw [Stack.shown, Stack.comments, Stack.heads, first, List.filterMap_append, Rows.comments_ofList]
  rfl

mutual

/-- Comments of values are not lost with disabled blocks, which have none. -/
theorem Stack.Builds.comments_enabled {stack : StackSpec} (builds : stack.Builds true)
    (isValue : ∀ head ∈ stack.head?, (head.plug true).isValue)
    (known : ∀ spec ∈ stack.heads, isKnownType spec.type) (quiet : stack.Quiet) :
    (stack.enabled.shown true).comments = (stack.shown true).comments := by
  match stack with
  | .empty => rw [Stack.enabled]
  | .block spec inputs next =>
    obtain ⟨_, distinct, into, follows, _⟩ := builds
    obtain ⟨hushed, quietInside, _⟩ := quiet
    rw [Stack.heads] at known
    obtain ⟨here, known⟩ := List.forall_mem_cons.mp known
    have value : (spec.plug true).isValue := isValue spec rfl
    obtain rfl : next = .empty := by
      cases next with
      | empty => rfl
      | block after _ _ =>
        rw [(follows after rfl).1] at value
        cases value
    rw [Stack.enabled, Stack.enabled]
    split_ifs with disabled
    · obtain ⟨own, inside⟩ := hushed disabled value
      have none : ∀ head ∈ ((Stack.block spec inputs .empty).shown true).heads, head.comment = none := by
        intro head among
        obtain ⟨inner, member, same⟩ := Stack.heads_shown head among
        have comment : head.comment = inner.comment := by rw [same]; rfl
        rw [comment]
        rw [Stack.heads] at member
        rcases List.mem_cons.mp member with rfl | later
        · exact own
        · exact inside inner (by simpa [Stack.heads] using later)
      rw [Stack.comments, Stack.comments, List.filterMap_eq_nil_iff.mpr none, Stack.shown]
      rfl
    · obtain ⟨kind, named⟩ := Option.isSome_iff_exists.mp here
      have form : kind.shape.isValue := by
        rw [BlockSpec.plug, named] at value
        exact value
      have rows : ∀ row ∈ spec.rows inputs,
          (inputs.enabled.shownIn row.head).comments = (inputs.shownIn row.head).comments := by
        intro row member
        refine into.comments_enabled distinct
          (fun spec among => known spec (List.mem_append_left _ among)) quietInside
          (find?_of_nodup (nodup_rows distinct) member) ?_
        rw [BlockSpec.rows, named] at member
        exact rows_of_value form _ row member
      rw [Stack.comments_shown, Stack.comments_shown, spec.rows_of_known here _ inputs,
        List.flatMap_congr rows]

/-- Comments in the socket of a value are not lost with disabled blocks. -/
theorem Rows.BuildsInto.comments_enabled {inputs : Rows BlockSpec String} {specs : List RowSpec}
    (into : inputs.BuildsInto specs) (distinct : inputs.labels.Nodup)
    (known : ∀ spec ∈ inputs.heads, isKnownType spec.type) (quiet : inputs.Quiet) {row : RowSpec}
    (found : specs.find? (·.1 = row.1) = some row) (value : row.2.1 = .value) :
    (inputs.enabled.shownIn row.head).comments = (inputs.shownIn row.head).comments := by
  match inputs with
  | .nil => rw [Rows.enabled]
  | .cons name plugged rest =>
    obtain ⟨⟨spec, search, goes, builds⟩, others⟩ := into
    obtain ⟨first, distinct⟩ := List.nodup_cons.mp distinct
    rw [Rows.heads] at known
    obtain ⟨knownHere, knownThere⟩ := List.forall_mem_append.mp known
    rw [Rows.shownIn_enabled first, Rows.shownIn]
    split_ifs with named
    · rw [← show row.1 = name from named] at search
      obtain rfl : row = spec := Option.some.inj (found.symm.trans search)
      have socket : decide (row.head.kind = .value) = true :=
        decide_eq_true (show row.head.kind = .value from value)
      rw [value] at builds goes
      rw [socket]
      refine builds.comments_enabled (fun head there => ?_) knownHere quiet.1
      rcases goes head there with ⟨_, check, is, _⟩ | ⟨other, _⟩
      · rw [show head.plug true = .value check from is]
        rfl
      · rw [value] at other
        cases other
    · exact others.comments_enabled distinct knownThere quiet.2 found value

end

end Comments

section Pairs

mutual

/-- A stack corresponds to what is left of it. -/
theorem Stack.Builds.paired_enabled {asValue : Bool} {stack : StackSpec} (builds : stack.Builds asValue)
    (isValue : asValue → ∀ head ∈ stack.head?, (head.plug asValue).isValue)
    (known : ∀ spec ∈ stack.heads, isKnownType spec.type) (quiet : stack.Quiet) :
    (stack.shown asValue).PairedBy .skipping (stack.enabled.shown asValue) := by
  match stack with
  | .empty =>
    rw [Stack.enabled, Stack.shown]
    rfl
  | .block spec inputs next =>
    obtain ⟨_, distinct, into, follows, below⟩ := builds
    obtain ⟨_, quietInside, quietBelow⟩ := quiet
    rw [Stack.heads] at known
    obtain ⟨here, known⟩ := List.forall_mem_cons.mp known
    obtain ⟨knownInside, knownBelow⟩ := List.forall_mem_append.mp known
    have after := below.paired_enabled (fun value => by cases value) knownBelow quietBelow
    rw [Stack.enabled]
    split_ifs with disabled
    · rw [Stack.shown]
      refine .inl ⟨rfl, disabled, ?_⟩
      cases asValue with
      | false => exact after
      | true =>
        -- Nothing follows a value, so that nothing is left of it.
        have value := isValue rfl spec rfl
        cases next with
        | empty =>
          rw [Stack.enabled, Stack.shown, Stack.shown]
          rfl
        | block follower _ _ =>
          rw [(follows follower rfl).1] at value
          cases value
    · rw [Stack.shown, Stack.shown]
      refine .inr ⟨_, _, _, rfl, rfl, ?_, after⟩
      rw [spec.rows_of_known here inputs.enabled inputs]
      exact Rows.pairedBy_ofList fun row member =>
        into.paired_enabled distinct knownInside quietInside (find?_of_nodup (nodup_rows distinct) member)

/-- What is in a row corresponds to what is left in it. -/
theorem Rows.BuildsInto.paired_enabled {inputs : Rows BlockSpec String} {specs : List RowSpec}
    (into : inputs.BuildsInto specs) (distinct : inputs.labels.Nodup)
    (known : ∀ spec ∈ inputs.heads, isKnownType spec.type) (quiet : inputs.Quiet) {row : RowSpec}
    (found : specs.find? (·.1 = row.1) = some row) :
    (row.2.1 = .dummy → inputs.shownIn row.head = .empty) ∧
      (Coupling.skipping.skips → row.2.1 = .value → (inputs.enabled.shownIn row.head).comments =
        if Coupling.skipping.extra then [] else (inputs.shownIn row.head).comments) ∧
      (inputs.shownIn row.head).PairedBy .skipping (inputs.enabled.shownIn row.head) := by
  refine ⟨into.vacant found, fun _ value => into.comments_enabled distinct known quiet found value, ?_⟩
  match inputs with
  | .nil =>
    rw [Rows.enabled, Rows.shownIn]
    rfl
  | .cons name plugged rest =>
    obtain ⟨⟨spec, search, goes, builds⟩, others⟩ := into
    obtain ⟨first, distinct⟩ := List.nodup_cons.mp distinct
    rw [Rows.heads] at known
    obtain ⟨knownHere, knownThere⟩ := List.forall_mem_append.mp known
    rw [Rows.shownIn_enabled first, Rows.shownIn]
    split_ifs with named
    · rw [← show row.1 = name from named] at search
      obtain rfl : row = spec := Option.some.inj (found.symm.trans search)
      refine builds.paired_enabled (fun value head there => ?_) knownHere quiet.1
      rcases goes head there with ⟨_, check, is, _⟩ | ⟨other, _⟩
      · rw [is]
        rfl
      · rw [other] at value
        cases value
    · exact (others.paired_enabled distinct knownThere quiet.2 found).2.2

end

end Pairs

section Places

variable {ws bare : Workspace}

/-- What a workspace without disabled blocks has for a block at the top: what is left of the stack there, or
nothing. -/
def Workspace.Leaves (ws bare : Workspace) (tops : List StackSpec) (b : Nat) (place : Option Nat) : Prop :=
  ∃ top ∈ tops, ws.HasTop b top ∧ match place with
    | some d => bare.HasTop d top.enabledTop
    | none => top.enabledTop.head? = none

/-- The stacks at the top and what is left of them, one by one. -/
theorem exists_places {tops : List StackSpec} {numbers others : List Nat}
    (shown : List.Forall₂ ws.HasTop numbers tops)
    (left : List.Forall₂ bare.HasTop others ((tops.map Stack.enabledTop).filter (·.head?.isSome))) :
    ∃ places : List (Nat × Option Nat), places.map (·.1) = numbers ∧ places.filterMap (·.2) = others ∧
      ∀ place ∈ places, ws.Leaves bare tops place.1 place.2 := by
  induction shown generalizing others with
  | nil =>
    cases left
    exact ⟨[], rfl, rfl, by simp⟩
  | @cons b top numbers tops first _ ih =>
    have later : ∀ {b place}, ws.Leaves bare tops b place → ws.Leaves bare (top :: tops) b place := by
      rintro b place ⟨other, member, rest⟩
      exact ⟨other, List.mem_cons_of_mem _ member, rest⟩
    rw [List.map_cons] at left
    by_cases kept : top.enabledTop.head?.isSome
    · rw [List.filter_cons, if_pos kept] at left
      obtain ⟨d, rest, here, there, rfl⟩ := List.forall₂_cons_right_iff.mp left
      obtain ⟨places, rfl, rfl, each⟩ := ih there
      exact ⟨(b, some d) :: places, rfl, rfl, List.forall_mem_cons.mpr
        ⟨⟨top, List.mem_cons_self .., first, here⟩, fun place member => later (each place member)⟩⟩
    · rw [List.filter_cons, if_neg kept] at left
      obtain ⟨places, rfl, rfl, each⟩ := ih left
      exact ⟨(b, none) :: places, rfl, rfl, List.forall_mem_cons.mpr
        ⟨⟨top, List.mem_cons_self .., first, by simpa using kept⟩,
        fun place member => later (each place member)⟩⟩

end Places

section Source

variable {strict : Bool} {oneBased : Option Bool} {data : Json} {document : Document} {emitter : Emitter}
  {ws bare : Workspace}

/-- The first block that is left of a stack stands where the first of the stack stands, and has a plug of the
same kind. -/
theorem Workspace.Leaves.alike {b d : Nat} (leaves : ws.Leaves bare document.tops b (some d))
    (loads : ws.Loads oneBased document) :
    (bare.block d).position? = (ws.block b).position? ∧
    (bare.block d).output.isSome = (ws.block b).output.isSome := by
  obtain ⟨top, member, hasTop, left⟩ := leaves
  obtain ⟨spec, inputs, next, rfl, renders⟩ := hasTop.root
  obtain ⟨first, bareInputs, bareNext, shape, rendersBare⟩ := left.root
  have builds := (loads.builds _ member).2.2
  have moved : (Stack.block spec inputs next).enabled.movedTo spec.x spec.y =
      .block first bareInputs bareNext := shape
  cases rest : (Stack.block spec inputs next).enabled with
  | empty =>
    rw [rest] at moved
    cases moved
  | block head rows below =>
    rw [rest, Stack.movedTo] at moved
    cases moved
    constructor
    · unfold Block.position?
      rw [rendersBare.position.1, rendersBare.position.2, renders.position.1, renders.position.2]
    · obtain ⟨_, there, same⟩ := builds.head_enabled head (by rw [rest]; rfl)
      cases there
      rw [rendersBare.plugs.isSome_output, renders.plugs.isSome_output]
      rcases same with rfl | ⟨statement, other⟩
      · rfl
      · rw [statement]
        exact congrArg Plug.isValue other

/-- The code for a stack at the top is the code for what is left of it. -/
theorem Workspace.Leaves.agree {b : Nat} {place : Option Nat}
    (leaves : ws.Leaves bare document.tops b place) (loads : ws.Loads oneBased document)
    (described : document.DescribedBy strict data) (proper : data.All Json.IsProper) (isKnown : ws.IsKnown)
    (quiet : ∀ top ∈ document.tops, top.Quiet) (member : b ∈ ws.topBlocks)
    (templates : emitter.templates = knownTemplates) :
    Coupling.skipping.Tops emitter emitter ws bare b place := by
  have alike := fun d (is : place = some d) => Workspace.Leaves.alike (is ▸ leaves) loads
  obtain ⟨top, among, hasTop, left⟩ := leaves
  obtain ⟨rows, next, stack, loose, ready, fits⟩ :=
    loads.ready described proper False.elim (fun _ : true = true => isKnown) member
  have paired := (loads.builds top among).2.2.paired_enabled (fun value => by cases value)
    (loads.isKnown_iff.mp isKnown top among)
    (quiet top among)
  rw [← Option.some.inj (stack.symm.trans hasTop.stack)] at paired
  obtain ⟨x, y, moved⟩ := top.enabledTop_eq
  have emitters : Coupling.skipping.Emitters emitter emitter :=
    Coupling.emitters_of_known templates templates (.inl rfl)
  cases place with
  | some d =>
    have stackBare := left.stack
    rw [moved, Stack.shown_movedTo] at stackBare
    exact Coupling.agree_emitTop emitters templates (.inl fun _ => rfl) stack loose ready fits stackBare
      (alike d rfl).2 paired
  | none =>
    have gone : top.enabled = .empty := by
      have none : (top.enabled.movedTo x y).head? = none := by rw [← moved]; exact left
      cases shape : top.enabled with
      | empty => rfl
      | block => rw [shape] at none; cases none
    rw [gone, Stack.shown] at paired
    exact Coupling.agree_emitTop_empty emitters templates (.inl fun _ => rfl) stack loose ready fits paired

/-- The source of a loaded workspace of known types is that of the same workspace without its disabled blocks,
if disabled values have no comments and no coordinate at the top is a NaN. -/
theorem Emitter.source_enabled (templates : emitter.templates = knownTemplates) {unknown : List UnknownType}
    (read : Document.ofJson strict data = .ok (document, unknown))
    (built : document.toWorkspace oneBased = .ok ws) (proper : data.All Json.IsProper)
    (isKnown : ws.IsKnown) (quiet : ∀ top ∈ document.tops, top.Quiet)
    (placed : ∀ b ∈ ws.topBlocks, (ws.block b).position?.isSome) :
    ∃ bare, (document.enabled ws.declared).toWorkspace oneBased = .ok bare ∧ bare.declared = ws.declared ∧
      bare.oneBased = ws.oneBased ∧ ∀ text, (emitter.source ws).1 = .ok text ↔
      (emitter.source bare).1 = .ok text := by
  obtain ⟨described, distinct⟩ := ofJson_iff.mp ⟨unknown, read⟩
  have loads := loads_toWorkspace described.full built
  obtain ⟨bare, builtBare, loadsBare, declared⟩ :=
    loads.exists_enabled distinct (loads.isKnown_iff.mp isKnown)
  have oneBasedBare : bare.oneBased = ws.oneBased := loadsBare.base.trans loads.base.symm
  refine ⟨bare, builtBare, declared, oneBasedBare, ?_⟩
  obtain ⟨places, firsts, seconds, leaves⟩ := exists_places loads.shown loadsBare.shown
  rw [← loads.tops] at firsts
  rw [← loadsBare.tops] at seconds
  have tops : ∀ place ∈ places, place.1 ∈ ws.topBlocks :=
    fun place member => firsts ▸ List.mem_map_of_mem member
  obtain ⟨sorted, perm, ordered, orderedBare⟩ := Workspace.exists_ordered firsts.symm seconds.symm
    (fun place member => placed place.1 (tops place member))
    (fun place member d is => (Workspace.Leaves.alike (is ▸ leaves place member) loads).1)
  have agree : Coupling.skipping.Agree (SameText false) (emitter.emitTops ws) (emitter.emitTops bare) := by
    refine Coupling.agree_emitTops ordered orderedBare fun place member => ?_
    have among := perm.mem_iff.mp member
    exact (leaves place among).agree loads described proper isKnown quiet (tops place among) templates
  have results := Coupling.sameResult_of_agree rfl trivial declared oneBasedBare agree
  intro text
  generalize (emitter.source ws).1 = result at results
  generalize (emitter.source bare).1 = other at results
  cases results with
  | ok same => rw [String.toList_inj.mp (Commented.eq same rfl)]
  | error => simp

/-- A disabled statement above another, which prints nothing as its value is disabled. -/
theorem Emitter.source_enabled_print :
    let value := Json.object [("type", .text "math_number"), ("disabled", .bool true)]
    let printed := Json.object [("type", .text "text_print"), ("inputs", .object [("TEXT", value)])]
    let skipped :=
      Json.object [("type", .text "math_change"), ("disabled", .bool true), ("next", printed), ("y", .int 3)]
    let data := Json.object [("name", .text "skips"), ("blocks", .list [skipped])]
    let emitter : Emitter := {}
    ∃ document unknown ws, Document.ofJson true data = .ok (document, unknown) ∧
      document.toWorkspace none = .ok ws ∧
      data.All Json.IsProper ∧ ws.IsKnown ∧ (∀ top ∈ document.tops, top.Quiet) ∧
      (∀ b ∈ ws.topBlocks, (ws.block b).position?.isSome) ∧
      ∃ bare, (document.enabled ws.declared).toWorkspace none = .ok bare ∧ bare.declared = ws.declared ∧
        bare.oneBased = ws.oneBased ∧ ∀ text, (emitter.source ws).1 = .ok text ↔
          (emitter.source bare).1 = .ok text := by
  intro value printed skipped data emitter
  have proper : data.All Json.IsProper := by
    simp [data, skipped, printed, value, Json.All, Json.AllMembers, Json.AllItems, Json.IsProper, Table.keys]
  let number : BlockSpec := { type := "math_number", disabled := true }
  let print : BlockSpec := { type := "text_print" }
  let change : BlockSpec := { type := "math_change", disabled := true, y := .int 3 }
  let document : Document :=
    { name := "skips", tops :=
      [.block change .nil (.block print (.cons "TEXT" (.block number .nil .empty) .nil) .empty)] }
  have read : Document.ofJson true data = .ok (document, []) := by rfl
  have quiet : ∀ top ∈ document.tops, top.Quiet := by
    have statement : (change.plug true).isValue = false := by decide
    simp [document, Stack.Quiet, Rows.Quiet, Rows.heads, number, statement, print]
  have holds : (document.toWorkspace none).toOption.any fun ws =>
      (List.range ws.blocks.size).all (fun b => isKnownType (ws.block b).type) &&
        ws.topBlocks.all (fun b => (ws.block b).position?.isSome) := by decide +kernel
  obtain ⟨ws, built, holds⟩ := exists_ok_of_any holds
  simp only [Bool.and_eq_true, List.all_eq_true, List.mem_range] at holds
  obtain ⟨isKnown, placed⟩ := holds
  exact ⟨document, [], ws, read, built, proper, isKnown, quiet, placed,
    Emitter.source_enabled rfl read built proper isKnown quiet placed⟩

/-- A disabled block in a place that is no number keeps two others apart that are out of order without it. -/
theorem Emitter.source_enabled_nan :
    let first := Json.object [("type", .text "logic_boolean"), ("y", .int 2)]
    let skipped :=
      Json.object [("type", .text "logic_boolean"), ("disabled", .bool true), ("y", .number (.float .nan))]
    let last := Json.object [("type", .text "math_number"), ("y", .int 1)]
    let data := Json.object [("name", .text "nowhere"), ("blocks", .list [first, skipped, last])]
    let emitter : Emitter := {}
    ∃ document unknown ws bare, Document.ofJson true data = .ok (document, unknown) ∧
      document.toWorkspace none = .ok ws ∧
      data.All Json.IsProper ∧ ws.IsKnown ∧ (∀ top ∈ document.tops, top.Quiet) ∧
      (document.enabled ws.declared).toWorkspace none = .ok bare ∧
      (emitter.source ws).1 = .ok "true;\n\n0;\n" ∧ (emitter.source bare).1 = .ok "0;\n\ntrue;\n" := by
  intro first skipped last data emitter
  have proper : data.All Json.IsProper := by
    simp [data, first, skipped, last, Json.All, Json.AllMembers, Json.AllItems, Json.IsProper, Table.keys,
      Binary64.IsBounded]
  let high : BlockSpec := { type := "logic_boolean", y := .int 2 }
  let nowhere : BlockSpec := { type := "logic_boolean", disabled := true, y := .number (.float .nan) }
  let low : BlockSpec := { type := "math_number", y := .int 1 }
  let document : Document :=
    { name := "nowhere", tops :=
      [.block high .nil .empty, .block nowhere .nil .empty, .block low .nil .empty] }
  have read : Document.ofJson true data = .ok (document, []) := by rfl
  have quiet : ∀ top ∈ document.tops, top.Quiet := by
    simp [document, Stack.Quiet, Rows.Quiet, Rows.heads, high, nowhere, low]
  have holds : (document.toWorkspace none).toOption.any fun ws =>
      (List.range ws.blocks.size).all (fun b => isKnownType (ws.block b).type) && ws.declared.isEmpty &&
        (emitter.source ws).1.toOption.any (· = "true;\n\n0;\n") := by decide +kernel
  obtain ⟨ws, built, holds⟩ := exists_ok_of_any holds
  simp only [Bool.and_eq_true, List.all_eq_true, List.mem_range, List.isEmpty_iff] at holds
  obtain ⟨⟨isKnown, none⟩, text⟩ := holds
  obtain ⟨_, source, same⟩ := exists_ok_of_any text
  obtain rfl := of_decide_eq_true same
  -- The order of the two blocks that are left is known, and all else is computed.
  have holdsBare : ((document.enabled []).toWorkspace Option.none).toOption.any fun bare =>
      bare.topBlocks = [0, 1] && (bare.block 0).position? = some (.int 2, .int 0) &&
        (bare.block 1).position? = some (.int 1, .int 0) && (emitter.inPass bare do
          let codes ← [1, 0].mapM (emitter.emitTop bare)
          return tidy (← Emission.finish (joinTexts "\n" (codes.filter (· ≠ ""))))).1.toOption.any
          (· = "0;\n\ntrue;\n") := by
    decide +kernel
  obtain ⟨bare, builtBare, holdsBare⟩ := exists_ok_of_any holdsBare
  simp only [Bool.and_eq_true, decide_eq_true_eq] at holdsBare
  obtain ⟨⟨⟨tops, first⟩, second⟩, text⟩ := holdsBare
  obtain ⟨_, sourceBare, same⟩ := exists_ok_of_any text
  obtain rfl := of_decide_eq_true same
  let items : List (Position × Nat) := [((.int 2, .int 0), 0), ((.int 1, .int 0), 1)]
  have ordered : bare.orderedTopBlocks? = some [1, 0] := by
    rw [@Workspace.orderedTopBlocks?_eq _ items bare id tops (by simpa [items] using ⟨first, second⟩),
      sortByPosition_swap (by decide)]
    rfl
  refine ⟨document, [], ws, bare, read, built, proper, isKnown, quiet,
    by rw [none]; exact builtBare, source, ?_⟩
  rw [← sourceBare]
  unfold Emitter.source Emitter.emitTops
  simp only [ordered, bind_assoc, pure_bind]

end Source

end BlockCompiler
