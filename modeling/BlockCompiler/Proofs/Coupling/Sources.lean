import BlockCompiler.Proofs.Coupling.Stacks
import BlockCompiler.Proofs.Emission.Compiled
import BlockCompiler.Proofs.Text.Trimmed

/-!
Sources side by side: what is emitted for the stacks of two workspaces, one by one, makes two sources that are
the same up to comments.
-/

namespace BlockCompiler

/-- Two results correspond: both are values, or both are errors. -/
inductive SameResult {ε α β : Type} (E : ε → ε → Prop) (Q : α → β → Prop) : Except ε α → Except ε β → Prop
  | ok {a b} (values : Q a b) : SameResult E Q (.ok a) (.ok b)
  | error {error other} (errors : E error other) : SameResult E Q (.error error) (.error other)

section Texts

variable {extra : Bool}

theorem filter_sameDefinitions {definitions others : Table String}
    (same : List.Forall₂ (SameDefinition extra) definitions others) (p : Bool → Bool) :
    List.Forall₂ (SameText extra) ((definitions.map (·.2)).filter fun text => p (isImport text))
      ((others.map (·.2)).filter fun text => p (isImport text)) := by
  induction same with
  | nil => exact .nil
  | @cons entry other _ _ first _ ih =>
    rw [List.map_cons, List.map_cons, List.filter_cons, List.filter_cons, first.isImport]
    split_ifs
    · exact .cons first.text ih
    · exact ih

/-- What stands above the code is the same up to comments. -/
theorem sameText_preamble {definitions others : Table String}
    (same : List.Forall₂ (SameDefinition extra) definitions others) :
    SameText extra (preamble (definitions.map (·.2))) (preamble (others.map (·.2))) := by
  have feed : ∀ start, startsLine start "\n".toList = true := by decide
  have feeds : ∀ start, startsLine start "\n\n".toList = true := by decide
  have whole := (sameText_joinTexts feed (filter_sameDefinitions same id)).above feeds
    (sameText_joinTexts feeds (filter_sameDefinitions same (!·)))
  unfold preamble
  rw [List.partition_eq_filter_filter, List.partition_eq_filter_filter]
  unfold SameText at *
  rw [String.toList_ofList, String.toList_ofList]
  exact whole.collapseBlankLines.dropLineFeedsAtEnd

theorem SameText.followed {code other : String} (same : SameText extra code other) (more : String) :
    SameText extra (code ++ more) (other ++ more) := by
  unfold SameText at *
  rw [String.toList_append, String.toList_append]
  exact same.append (Commented.refl ..)

theorem SameText.tidy {code other : String} (same : SameText extra code other) :
    SameText extra (tidy code) (tidy other) := by
  unfold SameText BlockCompiler.tidy at *
  rw [String.toList_ofList, String.toList_ofList]
  exact same.dropOpeningBlankLines.closeWithLineFeed.trimLineEnds

end Texts

namespace Coupling

variable {c : Coupling} {emitter other : Emitter} {ws bareWs : Workspace}

/-- What is emitted for two corresponding blocks that are no statements. -/
theorem agree_emitted (emitters : c.Emitters emitter other) {head bareHead : BlockHead}
    {rows bareRows : Rows BlockHead RowHead} (plain : head.isStatement = false)
    (enabled : head.disabled = false) (fit : rows.Fit) (heads : c.Heads head bareHead)
    (inside : rows.PairedBy c bareRows) :
    c.Sites ⟨head, emitter.sockets rows, emitter.emit .empty⟩
      ⟨bareHead, other.sockets bareRows, other.emit .empty⟩ ∧
      c.Agree (fun output bare => output = bare ∨ ∃ code order,
        output = .value (Site.comments ⟨head, emitter.sockets rows, emitter.emit .empty⟩ ++ code) order ∧
          bare = .value (Site.comments ⟨bareHead, other.sockets bareRows, other.emit .empty⟩ ++ code) order)
        (emitter.emit (.block head rows .empty)) (other.emit (.block bareHead bareRows .empty)) := by
  have skipped : Stack.empty.PairedBy c .empty := rfl
  have later := (agree_stack emitters .empty skipped trivial).2 trivial
  have sites := sites_of_heads heads (agree_sockets emitters rows inside fit) later rfl (.inr rfl)
  refine ⟨sites, ?_⟩
  rw [Emitter.emit.eq_2, Emitter.emit.eq_2, (c.alike heads).disabled, enabled, if_neg (by simp),
    if_neg (by simp)]
  refine (emitters.emitSite sites).imp fun output bare related => ?_
  rwa [Emitted, if_neg (by simp [plain])] at related

end Coupling

section Loose

variable {emitter : Emitter} {head : BlockHead} {rows : Rows BlockHead RowHead} {output : Output} {s t : Pass}

/-- What is emitted for a block that is no statement and is not plugged in: no code, or code below the
comments of the block. -/
def Emitter.IsLoose (emitter : Emitter) (head : BlockHead) (rows : Rows BlockHead RowHead)
    (output : Output) : Prop :=
  output = .statements "" ∨ ∃ code order,
    output = .value (Site.comments ⟨head, emitter.sockets rows, emitter.emit .empty⟩ ++ code) order ∧
      Starts code

theorem isLoose_of_ready (templates : emitter.templates = knownTemplates) {known : Bool}
    (strict : emitter.strict → known) (plain : head.isStatement = false) (enabled : head.disabled = false)
    (ready : (Stack.block head rows .empty).Ready known False) (fit : rows.Fit) (sound : s.Sound)
    (yields : Yields (emitter.emit (.block head rows .empty)) s output t) :
    emitter.IsLoose head rows output := by
  rcases head.form with isValue | told | named
  · have emits := emits_alone templates strict isValue enabled ready (emits_operands templates strict rows) s
    obtain ⟨_, _, code, order, rfl, _, writes, _⟩ := (emits sound).of_yields yields
    exact .inr ⟨code, order, rfl, writes.start⟩
  · rw [plain] at told
    cases told
  · have emits := emits_defined templates strict named enabled ready fit s
    exact .inl ((emits sound).of_yields yields).2.2

/-- The comparison of a run with one of the same blocks that may go on where the first fails. -/
def Coupling.lenient : Coupling where
  extra := false
  skips := false
  lax := true
  Heads head other := other = head
  Keeps _ := True
  alike := @BlockHead.alike_of_eq
  keeps := @keeps_nothing

mutual

/-- A stack of which no block is left out corresponds to itself. -/
theorem Stack.PairedBy.lenient {c : Coupling} (all : c.skips = false) {stack bare : Stack BlockHead RowHead}
    (paired : stack.PairedBy c bare) : stack.PairedBy .lenient stack := by
  match stack with
  | .empty => rfl
  | .block head rows next =>
    obtain ⟨skips, _⟩ | ⟨_, _, _, rfl, _, inside, below⟩ := paired
    · rw [all] at skips
      cases skips
    · exact .inr ⟨_, _, _, rfl, rfl, inside.lenient all, below.lenient all⟩

theorem Rows.PairedBy.lenient {c : Coupling} (all : c.skips = false) {rows bare : Rows BlockHead RowHead}
    (paired : rows.PairedBy c bare) : rows.PairedBy .lenient rows := by
  match rows with
  | .nil => rfl
  | .cons row plugged rest =>
    obtain ⟨_, _, rfl, vacant, _, first, later⟩ := paired
    refine ⟨_, _, rfl, vacant, fun skips => ?_, first.lenient all, later.lenient all⟩
    cases skips

end

/-- What is emitted strictly is emitted otherwise as well. -/
theorem isLoose_of_paired (templates : emitter.templates = knownTemplates)
    (plain : head.isStatement = false) (enabled : head.disabled = false)
    (ready : (Stack.block head rows .empty).Ready false False) (fit : rows.Fit)
    (paired : rows.PairedBy .lenient rows) (sound : s.Sound)
    (yields : Yields (emitter.emit (.block head rows .empty)) s output t) :
    emitter.IsLoose head rows output := by
  let lenient : Emitter := { emitter with strict := false }
  have emitters : Coupling.lenient.Emitters emitter lenient :=
    Coupling.emitters_of_known templates templates (.inr ⟨rfl, rfl⟩)
  obtain ⟨sites, agree⟩ := Coupling.agree_emitted emitters plain enabled fit rfl paired
  obtain ⟨other, t', there, related, _⟩ := agree.yields (.refl sound trivial) yields
  have comments : Site.comments ⟨head, lenient.sockets rows, lenient.emit .empty⟩ =
      Site.comments ⟨head, emitter.sockets rows, emitter.emit .empty⟩ := sites.comments
  have loose : lenient.IsLoose head rows other :=
    isLoose_of_ready templates (fun strict => by cases strict) plain enabled ready fit sound there
  unfold Emitter.IsLoose at loose ⊢
  rw [comments] at loose related
  rcases related with rfl | ⟨code, order, rfl, rfl⟩
  · exact loose
  · exact loose

end Loose

namespace Coupling

variable {c : Coupling} {emitter other : Emitter} {ws bareWs : Workspace}

/-- What is emitted for two corresponding stacks that are not plugged in has the same code up to comments. -/
theorem agree_loose (emitters : c.Emitters emitter other) (templates : emitter.templates = knownTemplates)
    {known : Bool} (strict : (emitter.strict → known) ∨ c.skips = false ∧ known = false) {head : BlockHead}
    {rows : Rows BlockHead RowHead} {next bare : Stack BlockHead RowHead} (loose : head.inline = false)
    (ready : (Stack.block head rows next).Ready known False) (fits : (Stack.block head rows next).Fits)
    (paired : (Stack.block head rows next).PairedBy c bare) :
    c.Agree (fun output bare => SameText c.extra output.code bare.code) (emitter.emit (.block head rows next))
    (other.emit bare) := by
  cases isStatement : head.isStatement with
  | true =>
    refine ((agree_stack emitters _ paired fits).2 ⟨isStatement, loose⟩).imp ?_
    rintro _ _ ⟨code, plain, rfl, rfl, same⟩
    exact same
  | false =>
    obtain ⟨_, fit, _, follows, fitsNext⟩ := fits
    obtain rfl : next = .empty := follows.resolve_left (by simp [isStatement])
    obtain ⟨_, disabled, skipped⟩ | ⟨bareHead, bareRows, bareNext, rfl, heads, inside, below⟩ := paired
    · have later := (agree_stack emitters .empty skipped fitsNext).2 trivial
      rw [Emitter.emit.eq_2, if_pos disabled]
      refine later.imp ?_
      rintro _ _ ⟨code, plain, rfl, rfl, same⟩
      exact same
    obtain rfl : bareNext = .empty := below
    cases disabled : head.disabled with
    | true =>
      have skipped : Stack.empty.PairedBy c .empty := rfl
      have later := (agree_stack emitters .empty skipped fitsNext).2 trivial
      rw [Emitter.emit.eq_2, Emitter.emit.eq_2, (c.alike heads).disabled, disabled, if_pos rfl, if_pos rfl]
      refine later.imp ?_
      rintro _ _ ⟨code, plain, rfl, rfl, same⟩
      exact same
    | false =>
      obtain ⟨sites, emitted⟩ := agree_emitted emitters isStatement disabled fit heads inside
      have isLoose : ∀ s output t, s.Sound → Yields (emitter.emit (.block head rows .empty)) s output t →
          emitter.IsLoose head rows output := by
        intro s output t sound yields
        rcases strict with strict | ⟨all, rfl⟩
        · exact isLoose_of_ready templates strict isStatement disabled ready fit sound yields
        · exact isLoose_of_paired templates isStatement disabled ready fit (inside.lenient all) sound yields
      refine (emitted.and_yields isLoose).imp ?_
      rintro output bare ⟨related, rfl | ⟨code, order, rfl, starts⟩⟩
      · rcases related with rfl | ⟨_, _, same, _⟩
        · exact .refl _
        · cases same
      · rcases related with rfl | ⟨value, bound, same, rfl⟩
        · exact .refl _
        · obtain rfl : code = value := by simpa using (Output.value.inj same).1
          exact sites.commented (.refl _) starts.filled

/-- What is emitted for two corresponding stacks at the top is the same up to comments. -/
theorem agree_emitTop (emitters : c.Emitters emitter other) (templates : emitter.templates = knownTemplates)
    {known : Bool} (strict : (emitter.strict → known) ∨ c.skips = false ∧ known = false) {b d : Nat}
    {rows : Rows BlockHead RowHead} {next bare : Stack BlockHead RowHead}
    (stack : ws.stack? (some b) = some (.block (ws.head b) rows next)) (loose : (ws.head b).inline = false)
    (ready : (Stack.block (ws.head b) rows next).Ready known False)
    (fits : (Stack.block (ws.head b) rows next).Fits) (stackBare : bareWs.stack? (some d) = some bare)
    (hasOutput : (bareWs.block d).output.isSome = (ws.block b).output.isSome)
    (paired : (Stack.block (ws.head b) rows next).PairedBy c bare) :
    c.Agree (SameText c.extra) (emitter.emitTop ws b) (other.emitTop bareWs d) := by
  have emitted : c.Agree (fun output bare => SameText c.extra output.code bare.code)
      (emitter.emitBlock ws (some b)) (other.emitBlock bareWs (some d)) := by
    rw [Emitter.emitBlock, Emitter.emitBlock, stack, stackBare]
    exact agree_loose emitters templates strict loose ready fits paired
  unfold Emitter.emitTop
  refine emitted.bind fun output bare same => agree_pure ?_
  have both : output.code = "" ↔ bare.code = "" := by simpa using same.nil_iff
  have naked : (bare.code ≠ "" ∧ (bareWs.block d).output.isSome) ↔
      (output.code ≠ "" ∧ (ws.block b).output.isSome) := by
    rw [hasOutput, ne_eq, ne_eq, both]
  by_cases alone : output.code ≠ "" ∧ (ws.block b).output.isSome
  · rw [if_pos alone, if_pos (naked.mpr alone)]
    exact same.followed ";\n"
  · rw [if_neg alone, if_neg (naked.not.mpr alone)]
    exact same

/-- For a stack at the top that is left out altogether there is no code. -/
theorem agree_emitTop_empty (emitters : c.Emitters emitter other)
    (templates : emitter.templates = knownTemplates) {known : Bool}
    (strict : (emitter.strict → known) ∨ c.skips = false ∧ known = false) {b : Nat}
    {rows : Rows BlockHead RowHead} {next : Stack BlockHead RowHead}
    (stack : ws.stack? (some b) = some (.block (ws.head b) rows next)) (loose : (ws.head b).inline = false)
    (ready : (Stack.block (ws.head b) rows next).Ready known False)
    (fits : (Stack.block (ws.head b) rows next).Fits)
    (paired : (Stack.block (ws.head b) rows next).PairedBy c .empty) :
    c.Agree (SameText c.extra) (emitter.emitTop ws b) (pure "") := by
  have emitted := agree_loose emitters templates strict loose ready fits paired
  rw [Emitter.emit.eq_1 other] at emitted
  have shape : (pure "" : Emission String) = (pure (Output.statements "") : Emission Output) >>= fun _ =>
      pure "" := rfl
  unfold Emitter.emitTop Emitter.emitBlock
  rw [stack, shape]
  refine emitted.of_pure.bind ?_
  rintro output _ ⟨rfl, same⟩
  obtain none : output.code = "" := by simpa [Output.code] using same.nil_iff
  refine agree_pure ?_
  rw [if_neg (by simp [none]), none]
  exact .refl _

/-- What corresponds to the stack at a block of the first workspace: a stack of the second, or no code. -/
def Tops (c : Coupling) (emitter other : Emitter) (ws bareWs : Workspace) (b : Nat)
    (place : Option Nat) : Prop :=
  c.Agree (SameText c.extra) (emitter.emitTop ws b)
    (match place with | some d => other.emitTop bareWs d | none => pure "")

/-- Codes one after the other, of which some are missing in the second workspace. -/
theorem agree_codes {places : List (Nat × Option Nat)}
    (each : ∀ place ∈ places, c.Tops emitter other ws bareWs place.1 place.2) :
    c.Agree (fun codes others => List.Forall₂ (SameText c.extra) (codes.filter (· ≠ ""))
      (others.filter (· ≠ "")))
      ((places.map (·.1)).mapM (emitter.emitTop ws))
      ((places.filterMap (·.2)).mapM (other.emitTop bareWs)) := by
  induction places with
  | nil => exact agree_pure .nil
  | cons place rest ih =>
    obtain ⟨first, others⟩ := List.forall_mem_cons.mp each
    obtain ⟨b, place⟩ := place
    rw [List.map_cons, List.mapM_cons]
    cases place with
    | none =>
      rw [show ((b, none) :: rest).filterMap (·.2) = rest.filterMap (·.2) from rfl]
      have shape : (rest.filterMap (·.2)).mapM (other.emitTop bareWs) =
          (pure "" : Emission String) >>= fun _ =>
            (rest.filterMap (·.2)).mapM (other.emitTop bareWs) >>= pure := by simp
      rw [shape]
      refine first.of_pure.bind ?_
      rintro code _ ⟨rfl, same⟩
      obtain rfl : code = "" := by simpa using same.nil_iff
      refine (ih others).bind fun codes bare rest => agree_pure ?_
      rw [List.filter_cons_of_neg (by simp)]
      exact rest
    | some d =>
      rw [show ((b, some d) :: rest).filterMap (·.2) = d :: rest.filterMap (·.2) from rfl, List.mapM_cons]
      refine Agree.bind first fun code bare same => (ih others).bind fun codes bares rest => agree_pure ?_
      have both : code = "" ↔ bare = "" := by simpa using same.nil_iff
      by_cases empty : code = ""
      · rw [List.filter_cons_of_neg (by simpa using empty),
          List.filter_cons_of_neg (by simpa using both.mp empty)]
        exact rest
      · rw [List.filter_cons_of_pos (by simpa using empty),
          List.filter_cons_of_pos (by simpa using both.not.mp empty)]
        exact .cons same rest

/-- The code of two workspaces is the same up to comments if that of their stacks is. -/
theorem agree_emitTops {places : List (Nat × Option Nat)}
    (ordered : ws.orderedTopBlocks? = some (places.map (·.1)))
    (orderedBare : bareWs.orderedTopBlocks? = some (places.filterMap (·.2)))
    (each : ∀ place ∈ places, c.Tops emitter other ws bareWs place.1 place.2) :
    c.Agree (SameText c.extra) (emitter.emitTops ws) (other.emitTops bareWs) := by
  unfold Emitter.emitTops
  rw [ordered, orderedBare]
  refine (agree_codes each).bind fun codes bareCodes same => agree_pure ?_
  exact sameText_joinTexts (by decide) same

/-- The code of two workspaces is the same up to comments if that of their stacks is, one by one. -/
theorem agree_emitTops_pairs {pairs : List (Nat × Nat)}
    (ordered : ws.orderedTopBlocks? = some (pairs.map (·.1)))
    (orderedOther : bareWs.orderedTopBlocks? = some (pairs.map (·.2)))
    (each : ∀ pair ∈ pairs, c.Tops emitter other ws bareWs pair.1 (some pair.2)) :
    c.Agree (SameText c.extra) (emitter.emitTops ws) (other.emitTops bareWs) := by
  let places : List (Nat × Option Nat) := pairs.map fun pair => (pair.1, some pair.2)
  have firsts : places.map (·.1) = pairs.map (·.1) := List.map_map
  have seconds : places.filterMap (·.2) = pairs.map (·.2) := by
    rw [List.filterMap_map]
    exact congrFun List.filterMap_eq_map pairs
  refine agree_emitTops (firsts ▸ ordered) (seconds ▸ orderedOther) fun place member => ?_
  obtain ⟨pair, among, rfl⟩ := List.mem_map.mp member
  exact each pair among

/-- The code of two workspaces with the same top blocks is the same up to comments if that of their stacks
is. -/
theorem agree_emitTops_each {order : List Nat} (ordered : ws.orderedTopBlocks? = some order)
    (orderedOther : bareWs.orderedTopBlocks? = some order)
    (each : ∀ b ∈ order, c.Tops emitter other ws bareWs b (some b)) :
    c.Agree (SameText c.extra) (emitter.emitTops ws) (other.emitTops bareWs) := by
  let pairs : List (Nat × Nat) := order.map fun b => (b, b)
  have firsts : pairs.map (·.1) = order := by
    rw [List.map_map]
    exact List.map_id _
  have seconds : pairs.map (·.2) = order := by
    rw [List.map_map]
    exact List.map_id _
  refine agree_emitTops_pairs (firsts ▸ ordered) (seconds ▸ orderedOther) fun pair member => ?_
  obtain ⟨b, among, rfl⟩ := List.mem_map.mp member
  exact each b among

/-- Two workspaces of which the code is the same up to comments have sources that are. -/
theorem sameResult_source (firm : c.lax = false)
    (agree : c.Agree (SameText c.extra) (emitter.emitTops ws) (other.emitTops bareWs))
    (start : c.Passes (emitter.start ws) (other.start bareWs)) :
    SameResult c.Errors (SameText c.extra) (emitter.source ws).1 (other.source bareWs).1 := by
  have outcomes := agree _ _ start
  unfold Emitter.source Emitter.inPass
  rw [run_bind, run_bind]
  generalize ((emitter.emitTops ws).run (emitter.start ws) : Except EmissionError String × Pass) =
    one at outcomes
  generalize ((other.emitTops bareWs).run (other.start bareWs) : Except EmissionError String × Pass) =
    another at outcomes
  cases outcomes with
  | done passes same =>
    refine .ok (SameText.tidy ?_)
    have feeds : ∀ start, startsLine start "\n\n\n".toList = true := by decide
    exact (sameText_preamble passes.definitions).above feeds same
  | failed errors => exact .error errors
  | stopped lax =>
    rw [firm] at lax
    cases lax

/-- The pass over a workspace starts with what its variables and options are. -/
theorem start_eq (reserved : other.reserved = emitter.reserved) (declared : bareWs.declared = ws.declared)
    (base : bareWs.oneBased = ws.oneBased) : other.start bareWs = emitter.start ws := by
  unfold Emitter.start Emitter.bareStart
  rw [declared, base, reserved]

/-- Two workspaces with the same variables and options have the same source up to comments if the code of
their stacks is. -/
theorem sameResult_of_agree (firm : c.lax = false) (keeps : c.Keeps (emitter.start ws))
    (declared : bareWs.declared = ws.declared) (base : bareWs.oneBased = ws.oneBased)
    (agree : c.Agree (SameText c.extra) (emitter.emitTops ws) (emitter.emitTops bareWs))
    (alike : c.counts = id := by rfl) :
    SameResult c.Errors (SameText c.extra) (emitter.source ws).1 (emitter.source bareWs).1 := by
  have passes : c.Passes (emitter.start ws) (emitter.start bareWs) := by
    rw [start_eq rfl declared base]
    exact .refl (emitter.sound_start ws) keeps alike
  exact sameResult_source firm agree passes

/-- Results that correspond without extra comments, without blocks left out and without other types are
equal. -/
theorem eq_of_sameResult {result another : Except EmissionError String} (noComments : c.extra = false)
    (all : c.skips = false) (exact : c.retypes = false)
    (same : SameResult c.Errors (SameText c.extra) result another) : another = result := by
  cases same with
  | ok texts => rw [String.toList_inj.mp (Commented.eq texts noComments)]
  | error errors => rw [errors all exact]

end Coupling

end BlockCompiler
