import BlockCompiler.Proofs.Emission.Compiled

/-!
Strictness: what is compiled strictly is what is compiled otherwise and has blocks of known types only, and
the text is the same.
-/

namespace BlockCompiler

section Reading

variable {oneBased : Option Bool} {data : Json} {document : Document} {ws : Workspace}

theorem BlockSpec.reads_strict {members : Table Json} {spec : BlockSpec} :
    spec.Reads true members ↔ spec.Reads false members ∧ isKnownType spec.type := by
  constructor
  · intro reads
    refine ⟨{ reads with unknown := fun _ => rfl }, ?_⟩
    rw [isKnownType]
    by_contra unknown
    cases reads.unknown (by simpa using unknown)
  · rintro ⟨reads, known⟩
    refine { reads with unknown := fun unknown => ?_ }
    rw [isKnownType, unknown] at known
    cases known

mutual

/-- A value describes a stack strictly if it describes it at all and the blocks are of known types. -/
theorem Stack.describedBy_strict (stack : StackSpec) (value : Json) :
    stack.DescribedBy true value ↔ stack.DescribedBy false value ∧
    ∀ spec ∈ stack.heads, isKnownType spec.type := by
  match stack with
  | .empty => simp [Stack.DescribedBy]
  | .block spec inputs next =>
    have inside := Rows.describedIn_strict inputs (value.entries "inputs")
    have below := Stack.describedBy_strict next
    simp only [Stack.DescribedBy, Stack.heads, List.forall_mem_cons, List.forall_mem_append,
      BlockSpec.reads_strict, inside]
    cases value.turn? .next with
    | some follower =>
      simp only [below]
      tauto
    | none =>
      constructor
      · rintro ⟨isObject, ⟨reads, known⟩, formed, ⟨within, knownInside⟩, rfl⟩
        exact ⟨⟨isObject, reads, formed, within, rfl⟩, known, knownInside, by simp [Stack.heads]⟩
      · tauto

theorem Rows.describedIn_strict (rows : Rows BlockSpec String) (members : Table Json) :
    rows.DescribedIn true members ↔ rows.DescribedIn false members ∧
    ∀ spec ∈ rows.heads, isKnownType spec.type := by
  match rows with
  | .nil => simp [Rows.DescribedIn, Rows.heads]
  | .cons name plugged rest =>
    have here := Stack.describedBy_strict plugged
    have there := Rows.describedIn_strict rest
    simp only [Rows.DescribedIn, Rows.heads, List.forall_mem_append, here, there]
    constructor
    · rintro ⟨value, others, rfl, ⟨first, known⟩, second, knownRest⟩
      exact ⟨⟨value, others, rfl, first, second⟩, known, knownRest⟩
    · rintro ⟨⟨value, others, rfl, first, second⟩, known, knownRest⟩
      exact ⟨value, others, rfl, ⟨first, known⟩, second, knownRest⟩

end

theorem Document.describedBy_strict :
    document.DescribedBy true data ↔
      document.DescribedBy false data ∧ ∀ top ∈ document.tops, ∀ spec ∈ top.heads, isKnownType spec.type := by
  have each : ∀ {tops : List StackSpec} {values : List Json},
      List.Forall₂ (Stack.DescribedBy true) tops values ↔
      List.Forall₂ (Stack.DescribedBy false) tops values ∧ ∀ top ∈ tops, ∀ spec ∈ top.heads,
        isKnownType spec.type := by
    intro tops
    induction tops with
    | nil => simp
    | cons top rest ih =>
      intro values
      cases values with
      | nil => simp
      | cons value values =>
        simp only [List.forall₂_cons, List.forall_mem_cons, Stack.describedBy_strict top value, ih]
        tauto
  constructor
  · rintro ⟨declares, tops⟩
    obtain ⟨described, known⟩ := each.mp tops
    exact ⟨⟨declares, described⟩, known⟩
  · rintro ⟨⟨declares, described⟩, known⟩
    exact ⟨declares, each.mpr ⟨described, known⟩⟩

/-- A workspace is loaded strictly if it is loaded at all and its blocks are of known types. -/
theorem loadWorkspace_strict :
    loadWorkspace true oneBased data = .ok ws ↔ loadWorkspace false oneBased data = .ok ws ∧ ws.IsKnown := by
  constructor
  · intro loaded
    obtain ⟨document, described, distinct, built⟩ := loadWorkspace_ok.mp loaded
    obtain ⟨plain, known⟩ := Document.describedBy_strict.mp described
    exact ⟨loadWorkspace_ok.mpr ⟨document, plain, distinct, built⟩,
      (loads_toWorkspace described.full built).isKnown_iff.mpr known⟩
  · rintro ⟨loaded, known⟩
    obtain ⟨document, described, distinct, built⟩ := loadWorkspace_ok.mp loaded
    have knownSpecs := (loads_toWorkspace described.full built).isKnown_iff.mp known
    exact loadWorkspace_ok.mpr ⟨document, Document.describedBy_strict.mpr ⟨described, knownSpecs⟩,
      distinct, built⟩

/-- The blocks of a loaded workspace are of known types just if no value of a block names another. -/
theorem isKnown_loadWorkspace {strict : Bool} (loaded : loadWorkspace strict oneBased data = .ok ws) :
    ws.IsKnown ↔ ∀ place object type, data.block? place = some object →
      object.member? "type" = some (.text type) → isKnownType type := by
  obtain ⟨tops, read, carries, size, _⟩ := carriesAll_loadWorkspace loaded
  -- A place and its number name the same type.
  have same : ∀ {i k : Nat} {path : List Turn} {found : StackSpec} {object : Json},
      forestAt? tops i path = some (k, found) → object.ReadAs strict found →
      k < ws.blocks.size ∧ object.member? "type" = some (.text (ws.block k).type) := by
    intro i k path found object reached reads
    obtain ⟨within, _⟩ := forestAt?_part carries.tidy reached
    obtain ⟨proper, carried⟩ := carries.at? reached
    obtain ⟨spec, inputs, next, rfl, given, _⟩ := reads.block
    rw [Nat.zero_add] at carried
    have positive := Stack.size_pos.mpr proper
    have type := congrArg BlockContent.type carried.2.1.content
    refine ⟨by omega, ?_⟩
    rw [type]
    exact given.type
  constructor
  · intro known place object type there named
    obtain ⟨found, reached, reads⟩ := Workspace.exists_at_place read there
    obtain ⟨inside, here⟩ := same reached reads
    rw [here] at named
    cases named
    exact known _ inside
  · intro known b inside
    obtain ⟨i, path, found, reached⟩ := exists_forestAt? carries.tidy (size ▸ inside)
    have related := readAs_forestAt? read i path
    rw [reached, Option.map_some] at related
    cases there : data.tops[i]?.bind (·.at? path) with
    | none =>
      rw [there] at related
      cases related
    | some object =>
      rw [there] at related
      cases related with
      | some reads => exact known ⟨i, path⟩ object _ there (same reached reads).2

end Reading

namespace Emitter

variable {emitter : Emitter} {ws : Workspace}

/-- A template that is there is the same for strict emitters and others. -/
theorem templateOf_strict {type : String} (there : (emitter.templates.get? type).isSome) (strict : Bool) :
    ({ emitter with strict } : Emitter).templateOf type = emitter.templateOf type := by
  obtain ⟨template, found⟩ := Option.isSome_iff_exists.mp there
  simp only [templateOf, found]

mutual

/-- A stack of blocks that all have templates is emitted strictly as it is otherwise. -/
theorem emit_strict (stack : Stack BlockHead RowHead)
    (there : ∀ head ∈ stack.heads, (emitter.templates.get? head.type).isSome) (strict : Bool) :
    ({ emitter with strict } : Emitter).emit stack = emitter.emit stack := by
  match stack with
  | .empty => rw [emit, emit]
  | .block head rows next =>
    rw [Stack.heads] at there
    obtain ⟨here, there⟩ := List.forall_mem_cons.mp there
    obtain ⟨inside, below⟩ := List.forall_mem_append.mp there
    rw [emit, emit, sockets_strict rows inside strict, emit_strict next below strict, emitSite,
      templateOf_strict here strict]
    rfl

theorem sockets_strict (rows : Rows BlockHead RowHead)
    (there : ∀ head ∈ rows.heads, (emitter.templates.get? head.type).isSome) (strict : Bool) :
    ({ emitter with strict } : Emitter).sockets rows = emitter.sockets rows := by
  match rows with
  | .nil => rw [sockets, sockets]
  | .cons row plugged rest =>
    rw [Rows.heads] at there
    obtain ⟨here, inside⟩ := List.forall_mem_append.mp there
    rw [sockets, sockets, emit_strict plugged here strict, sockets_strict rest inside strict]

end

/-- A workspace of which all blocks at the top and below have templates has strictly the source that it has
otherwise. -/
theorem source_strict {order : List Nat} (ordered : ws.orderedTopBlocks? = some order)
    (there : ∀ b ∈ order, ∃ stack, ws.stack? (some b) = some stack ∧
      ∀ head ∈ stack.heads, (emitter.templates.get? head.type).isSome)
    (strict : Bool) : ({ emitter with strict } : Emitter).source ws = emitter.source ws := by
  have each : ∀ b ∈ order, ({ emitter with strict } : Emitter).emitTop ws b = emitter.emitTop ws b := by
    intro b among
    obtain ⟨stack, found, known⟩ := there b among
    simp only [emitTop, emitBlock, found, emit_strict stack known strict]
  have all : ({ emitter with strict } : Emitter).emitTops ws = emitter.emitTops ws := by
    have codes : order.mapM (({ emitter with strict } : Emitter).emitTop ws) =
        order.mapM (emitter.emitTop ws) := by
      clear ordered there
      induction order with
      | nil => rfl
      | cons b rest ih =>
        obtain ⟨first, others⟩ := List.forall_mem_cons.mp each
        rw [List.mapM_cons, List.mapM_cons, first, ih others]
    simp only [emitTops, ordered, codes]
  rw [source, source, all]
  rfl

end Emitter

/-- What is compiled strictly is what is compiled otherwise where all blocks are of known types, and the text
is the same. -/
theorem compile_strict_iff (oneBased : Option Bool) (data : Json) (text : String) :
    (compile true oneBased data = .ok text ↔
      compile false oneBased data = .ok text ∧ ∀ place object type, data.block? place = some object →
        object.member? "type" = some (.text type) → isKnownType type) := by
  have emitted : ∀ {ws}, loadWorkspace false oneBased data = .ok ws → ws.IsKnown →
      (Emitter.source { strict := true } ws).1 = (Emitter.source { strict := false } ws).1 := by
    intro ws loaded known
    obtain ⟨document, described, _, loads⟩ := loads_of_loadWorkspace loaded
    have placed := loads.placed described (Json.all_of_forall (P := fun _ => True) (fun _ => trivial) data)
    obtain ⟨order, ordered, perm⟩ := exists_orderedTopBlocks? placed
    have there : ∀ b ∈ order, ∃ stack, ws.stack? (some b) = some stack ∧
        ∀ head ∈ stack.heads, (knownTemplates.get? head.type).isSome := by
      intro b among
      obtain ⟨top, member, hasTop⟩ := loads.top (perm.mem_iff.mp among)
      refine ⟨_, hasTop.stack, fun head inside => ?_⟩
      rw [get?_knownTemplates, Option.isSome_map]
      obtain ⟨spec, here, same⟩ := Stack.heads_shown head inside
      rw [same]
      exact loads.isKnown_iff.mp known top member spec here
    exact congrArg Prod.fst (@Emitter.source_strict { strict := false } _ _ ordered there true)
  unfold compile
  constructor
  · intro compiled
    cases loaded : loadWorkspace true oneBased data with
    | error error =>
      rw [loaded] at compiled
      cases compiled
    | ok ws =>
      rw [loaded] at compiled
      obtain ⟨plain, known⟩ := loadWorkspace_strict.mp loaded
      rw [plain]
      dsimp only at compiled ⊢
      rw [← emitted plain known]
      exact ⟨compiled, (isKnown_loadWorkspace plain).mp known⟩
  · rintro ⟨compiled, known⟩
    cases loaded : loadWorkspace false oneBased data with
    | error error =>
      rw [loaded] at compiled
      cases compiled
    | ok ws =>
      rw [loaded] at compiled
      have isKnown := (isKnown_loadWorkspace loaded).mpr known
      rw [loadWorkspace_strict.mpr ⟨loaded, isKnown⟩]
      dsimp only at compiled ⊢
      rw [emitted loaded isKnown]
      exact compiled

end BlockCompiler
