import BlockCompiler.Proofs.Emission.Looped
import BlockCompiler.Proofs.Source.Said

/-!
Loops in sources: the loops of all stacks that stand are there, each with names of its own. Nothing gives
these a value, and what a loop counts to changes inside it only where that is a variable of the program.
-/

namespace BlockCompiler

/-- A loop stands among lines that are not blank, perhaps further in. -/
def Loop.IsAmong (loop : Loop) (lines : List (List Char)) : Prop :=
  ∃ n, firmOf (loop.lines.map (List.replicate n ' ' ++ ·)) <:+: lines

/-- What a stack at the top adds to a source: a text with loops, which is its code, or the definition of a
procedure under an identifier. -/
structure Portion where
  owner? : Option String
  text : String
  loops : List Loop

/-- Under which identifier a pass has the procedure that a stack defines, if it defines one. -/
def Stack.OwnedBy (pass : Pass) (stack : Stack BlockHead RowHead) : Option String → Prop
  | none => stack.defined? = none
  | some identifier => ∃ word, stack.defined? = some (lower word) ∧
    pass.names.assigned.get? (nameKey word .procedure) = some identifier

namespace Portion

/-- The lines of a portion that are not blank. -/
def lines (portion : Portion) : List (List Char) := firmLines portion.text.toList

/-- The names that are declared for the loops of a portion. -/
def names (portion : Portion) : List String := portion.loops.flatMap Loop.names

/-- A portion is that of a stack: it has the loops of the stack and declares what these need, and gives values
to variables only. -/
structure IsOf (pass : Pass) (stack : Stack BlockHead RowHead) (portion : Portion) : Prop where
  owned : stack.OwnedBy pass portion.owner?
  gives : ∀ line ∈ portion.lines, ∀ name, assignee? line = some name →
    ∃ key, pass.names.assigned.get? key = some name
  declares : portion.lines.filterMap declared? = portion.names
  loops : List.Forall₂ (fun rows loop => pass.Counts rows loop ∧ loop.IsAmong portion.lines)
    stack.repeats portion.loops

/-- A portion comes of a stack between two states of a pass. A code stands where it is, and the definition of
a procedure in the pass. -/
structure Arises (s t : Pass) (stack : Stack BlockHead RowHead) (code : String)
    (portion : Portion) : Prop where
  isOf : portion.IsOf t stack
  reserves : s.Reserves t portion.names
  code : code = if portion.owner? = none then portion.text else ""
  stands : ∀ identifier, portion.owner? = some identifier →
    t.definitions.get? (procedureKey identifier) = some portion.text
  others : ∀ name, portion.owner? ≠ some name →
    t.definitions.get? (procedureKey name) = s.definitions.get? (procedureKey name)

end Portion

section Firm

variable {line : List Char} {lines : List (List Char)}

theorem declared?_of_blank (blank : isSolid line = false) : declared? line = none := by
  have leads : ∀ lead ∈ countLeads, isSolid lead.toList := by decide
  refine declared?_eq_none fun lead among => wordBehind?_of_not_led fun start => ?_
  obtain ⟨c, inLead, solid⟩ := List.any_eq_true.mp (leads lead among)
  rw [isSolid_eq_false.mp blank c ((List.dropWhile_sublist _).subset (start.subset inLead))] at solid
  cases solid

/-- What is read off lines is read off them without the blanks. -/
theorem filterMap_firmOf {read : List Char → Option String} (trims : ∀ line, read (trimEnd line) = read line)
    (blank : ∀ line, isSolid line = false → read line = none) (lines : List (List Char)) :
    (firmOf lines).filterMap read = lines.filterMap read := by
  induction lines with
  | nil => rfl
  | cons line lines ih =>
    rw [firmOf_cons, List.filterMap_append, ih]
    cases solid : isSolid line with
    | true =>
      have single : firmOf [line] = [trimEnd line] := by simp [firmOf, solid]
      rw [single, List.filterMap_cons, trims, List.filterMap_nil, List.filterMap_cons]
      cases read line <;> rfl
    | false =>
      rw [firmOf_blank (by simpa using solid), List.filterMap_nil, List.nil_append,
        List.filterMap_cons_none (blank line solid)]

theorem firmOf_infix {other : List (List Char)} (inside : lines <:+: other) :
    firmOf lines <:+: firmOf other :=
  (inside.map trimEnd).filter isSolid

theorem Loop.StandsIn.isAmong {loop : Loop} (stands : loop.StandsIn lines) : loop.IsAmong (firmOf lines) := by
  obtain ⟨n, inside⟩ := stands
  exact ⟨n, firmOf_infix inside⟩

end Firm

section Arising

variable {known : Bool} {tight : Prop} {emitter : Emitter} {ws : Workspace} {b : Nat}
  {stack : Stack BlockHead RowHead} {leaves : List Leaf} {s t u : Pass} {text : String}

/-- Whole lines with the loops of a stack are a portion of it. -/
theorem Turns.exists_portion {whole : String} (turns : Turns s t leaves stack.repeats whole)
    (same : firmLines text.toList = firmLines whole.toList) {owner? : Option String}
    (owned : stack.OwnedBy t owner?) :
    ∃ loops, Portion.IsOf t stack ⟨owner?, text, loops⟩ ∧ s.Reserves t (loops.flatMap Loop.names) := by
  obtain ⟨lines, shape, winds⟩ := turns
  obtain ⟨loops, counted, declares, reserves⟩ := winds.loops
  have firm : firmLines text.toList = firmOf lines := by
    rw [same, shape, firmLines_unlines winds.oneLine]
  refine ⟨loops, ⟨owned, fun line member name given => ?_, ?_, counted.imp fun _ _ both => ⟨both.1, ?_⟩⟩,
    reserves⟩
  · rw [Portion.lines, firm] at member
    obtain ⟨line, among, _, rfl⟩ := mem_firmOf.mp member
    rw [assignee?_trimEnd] at given
    exact winds.assigns.exists_key among given
  · rw [Portion.lines, firm, filterMap_firmOf declared?_trimEnd fun _ => declared?_of_blank]
    exact declares
  · rw [Portion.lines, firm]
    exact both.2.isAmong

/-- What a stack is emitted as is a portion where it stands. -/
theorem Turns.arises (turns : Turns s t leaves stack.repeats text) (loose : stack.defined? = none)
    (same : s.SameProcedures t) :
    ∃ portion : Portion, portion.Arises s t stack text := by
  have owned : stack.OwnedBy t none := loose
  obtain ⟨loops, isOf, reserves⟩ := turns.exists_portion rfl owned
  exact ⟨_, isOf, reserves, rfl, by simp, fun name _ => same name⟩

/-- Values have no loops. -/
theorem repeats_of_isValue {head : BlockHead} {rows : Rows BlockHead RowHead} (isValue : head.isValue) :
    (Stack.block head rows .empty).repeats = [] := by
  have inside : BlockKind.ofName? head.type ≠ some .repeatTimes ∧ head.bodies = [] := by
    cases named : BlockKind.ofName? head.type with
    | none => simp [BlockHead.bodies, BlockHead.openings, named]
    | some kind =>
      have isValueKind : kind.shape.isValue := by simpa [BlockHead.isValue, named] using isValue
      cases kind <;> simp [BlockKind.shape, Shape.isValue] at isValueKind <;>
        simp [BlockHead.bodies, BlockHead.openings, named]
  rw [Stack.repeats, Stack.repeats, if_neg inside.1, inside.2]
  simp

/-- The code of a value at the top has no loops. -/
theorem turns_naked (templates : emitter.templates = knownTemplates) (strict : emitter.strict → known)
    {head : BlockHead} {rows : Rows BlockHead RowHead} (isValue : head.isValue)
    (enabled : head.disabled = false) (ready : (Stack.block head rows .empty).Ready known tight) :
    Gives (emitter.emit (.block head rows .empty)) s fun output t =>
      ∃ code order, output = .value code order ∧ code ≠ "" ∧ Turns s t [] [] (nakedValue code) := by
  refine ((gives_alone templates isValue enabled ready (gives_operands templates rows) s).and_emits
    (emits_alone templates strict isValue enabled ready (emits_operands templates strict rows) s)).imp ?_
  rintro output t precedes ⟨⟨code, order, rfl, shows⟩, other, level, same, e, writes, _⟩
  obtain ⟨text, _⟩ := Output.value.inj same
  obtain rfl : code = other := (String.append_right_inj _).mp text
  obtain ⟨opens, oneLine⟩ := shows.opens_ended
  have idle : IsIdle (code ++ ";").toList := ⟨oneLine, writes.assignee?_eq_none, opens.declared?_eq_none⟩
  have whole :=
    ((turns_comments ⟨head, emitter.sockets rows, emitter.emit .empty⟩).append
      (turns_idle idle) .refl .refl).stretch precedes
    .refl
  refine ⟨_, _, rfl, fun none => shows.filled (String.append_eq_empty_iff.mp none).2, ?_⟩
  rw [nakedValue_append]
  exact whole

/-- The head of the definition of a procedure is idle. -/
theorem isIdle_procedureHeader {identifier : String} {names : List String}
    (isName : IsName identifier.toList) (words : ∀ name ∈ names, IsName name.toList) :
    IsIdle (procedureHeader identifier names ++ " \x7b").toList := by
  have shape : (procedureHeader identifier names ++ " \x7b").toList =
      "void".toList ++ ' ' ::
        (identifier.toList ++ ("(" ++ joinTexts ", " names ++ ")" ++ " \x7b").toList) := by
    simp [procedureHeader]
  refine ⟨oneLine_append.mpr ⟨(whole_procedureHeader isName words).oneLine, by decide⟩, ?_,
    declared?_eq_none fun lead among => ?_⟩
  · rw [shape]
    exact assignee?_declaration (by decide) (by decide) isName _
  · have leads : ∀ lead ∈ countLeads, ∃ c, lead.toList.head? = some c ∧ c ≠ 'v' := by decide
    obtain ⟨c, led, differs⟩ := leads lead among
    exact wordBehind?_of_head c (by simp [procedureHeader]) (show isBlank 'v' = false by decide) led differs

/-- What is in the body of a definition is a stack of statements that is ready. -/
theorem Stack.Ready.body {head : BlockHead} {rows : Rows BlockHead RowHead}
    (ready : (Stack.block head rows .empty).Ready known tight)
    (named : BlockKind.ofName? head.type = some .defineProcedure) (fit : rows.Fit) :
    (rows.at "STACK").Ready known tight ∧ (rows.at "STACK").Fits ∧ (rows.at "STACK").IsStatement := by
  have readyHere := ready.1
  rw [named] at readyHere
  have isOpening : ∀ spec ∈ BlockKind.defineProcedure.rows head.mutation, spec.1 = "STACK" →
      spec.2.1 = .statement := by
    simp [BlockKind.rows, BlockKind.shape]
  exact readyHere.2.opening fit (kind_of_find? isOpening)

/-- The definition of a procedure has the loops in its body. -/
theorem runs_definition_portion (templates : emitter.templates = knownTemplates)
    (strict : emitter.strict → known) {head : BlockHead} {rows : Rows BlockHead RowHead}
    (enabled : head.disabled = false) (named : BlockKind.ofName? head.type = some .defineProcedure)
    (ready : (Stack.block head rows .empty).Ready known tight) (fit : rows.Fit)
    (oneLine : ∀ head ∈ rows.heads, OneLine head.type) (settled : s.Settled) :
    Runs (fun _ => True) (emitter.emit (.block head rows .empty)) s fun output t => output = .statements "" ∧
      t.Settled ∧
      s.Precedes t ∧ ∃ portion : Portion, portion.Arises s t (.block head rows .empty) "" := by
  obtain ⟨readyThere, fits, there⟩ := ready.body named fit
  have turnsAt := @turnsAt_row emitter head rows (emitter.emit .empty) "STACK"
    (turns_openings templates strict rows "STACK" readyThere
    fits there fun other among => oneLine other (rows.heads_at "STACK" among))
  have repeats : (Stack.block head rows .empty).repeats = rows.repeatsAt "STACK" := by
    simp [Stack.repeats, enabled, named, BlockHead.bodies]
  rw [Emitter.emit.eq_2, enabled, if_neg (by simp), emitSite_eq, Emitter.templateOf, templates,
    get?_knownTemplates, named]
  simp only [Option.map_some, pure_bind]
  refine (runs_procedure (stretches_turns _ _) turnsAt (Emitter.emit.eq_1 emitter) settled).bind ?_
  rintro _ t ⟨rfl, settledThere, precedes, identifier, names, body, isName, words, assigned, _, turns,
    stands, others⟩
  have whole := (turns_braced (isIdle_procedureHeader isName words) turns precedes).behind
    (turns_comments ⟨head, emitter.sockets rows, emitter.emit .empty⟩) precedes
  rw [← repeats] at whole
  have same : ∀ above below : String,
      firmLines (above ++ below).toList = firmLines (above ++ (below ++ "\n")).toList := by
    intro above below
    have closed : (above ++ (below ++ "\n")).toList = (above ++ below).toList ++ '\n' :: [] := by simp
    rw [closed, firmLines_append_feed]
    exact (List.append_nil _).symm
  have owned : (Stack.block head rows .empty).OwnedBy t (some identifier) :=
    ⟨_, Stack.defined?_of_enabled enabled named, assigned⟩
  obtain ⟨loops, isOf, reserves⟩ := whole.exists_portion (same _ _) owned
  refine runs_pure ⟨rfl, settledThere, precedes, _, isOf, reserves,
    by simp, ?_, fun name differs => others name ?_⟩
  · rintro _ ⟨⟩
    exact stands
  · rintro rfl
    exact differs rfl

/-- What each stack at the top adds to the source. -/
theorem runs_portion (templates : emitter.templates = knownTemplates) (strict : emitter.strict → known)
    (isTop : ws.IsTop known tight b stack) (oneLine : ∀ head ∈ stack.heads, OneLine head.type)
    (settled : s.Settled) :
    Runs (fun _ => True) (emitter.emitTop ws b) s fun code t => t.Settled ∧ s.Precedes t ∧
      ∃ portion : Portion, portion.Arises s t stack code := by
  obtain ⟨rows, next, rfl⟩ := isTop.head
  have fits := isTop.fits
  have ready := isTop.ready
  apply runs_top isTop settled
  · intro isStatement
    refine (turns_stack templates strict _ ready fits ⟨isStatement, isTop.loose⟩ oneLine s).imp ?_
    rintro _ t _ ⟨code, rfl, turns⟩
    exact ⟨code, rfl, turns.arises (Stack.defined?_of_kind (BlockHead.kind_of_isStatement isStatement))⟩
  · rintro disabled rfl
    have none : (Stack.block (ws.head b) rows .empty).repeats = [] := by simp [Stack.repeats, disabled]
    refine Turns.arises (none ▸ turns_nothing) ?_
    rw [Stack.defined?, if_neg (by simp [disabled])]
  · rintro isValue enabled rfl
    have none := @repeats_of_isValue _ rows isValue
    refine (turns_naked templates strict isValue enabled ready).imp ?_
    rintro _ t _ ⟨code, order, rfl, filled, turns⟩
    exact ⟨code, order, rfl, filled,
      Turns.arises (none ▸ turns) (Stack.defined?_of_kind (BlockHead.kind_of_isValue isValue))⟩
  · rintro named enabled rfl
    refine runs_definition_portion templates strict enabled named ready fits.2.1
      (fun head among => ?_) settled
    exact oneLine head (List.mem_cons_of_mem _ (List.mem_append_left _ among))

end Arising

/-- Some stacks have been emitted one after the other, from one state of a pass to another. What stands of
them are some portions. -/
structure Composed (s t : Pass) (tops : List (Stack BlockHead RowHead)) (codes : List String)
    (portions : List Portion) : Prop where
  settled : t.Settled
  precedes : s.Precedes t
  each : List.Forall₂ (fun stack portion => Portion.IsOf t stack portion) (standing tops) portions
  reserves : s.Reserves t (portions.flatMap Portion.names)
  lines : codes.flatMap (fun code => firmLines code.toList) =
    (portions.filter (·.owner?.isNone)).flatMap Portion.lines
  loose : ∀ portion ∈ portions, portion.owner? = none → portion.text ∈ codes
  stands : ∀ portion ∈ portions, ∀ identifier, portion.owner? = some identifier →
    t.definitions.get? (procedureKey identifier) = some portion.text
  procedures : ∀ name text, t.definitions.get? (procedureKey name) = some text →
    s.definitions.get? (procedureKey name) = some text ∨ ∃ portion ∈ portions, portion.owner? = some name ∧
      portion.text = text
  kept : ∀ word name, t.names.assigned.get? (nameKey word .procedure) = some name →
    (∀ stack ∈ tops, stack.defined? ≠ some (lower word)) →
      t.definitions.get? (procedureKey name) = s.definitions.get? (procedureKey name)

section Composed

variable {known : Bool} {tight : Prop} {emitter : Emitter} {ws : Workspace} {stack : Stack BlockHead RowHead}
  {tops : List (Stack BlockHead RowHead)} {code : String} {codes : List String} {portion : Portion}
  {portions : List Portion} {s t u : Pass}

theorem Stack.OwnedBy.later {owner? : Option String} (owned : stack.OwnedBy s owner?)
    (precedes : s.Precedes t) :
    stack.OwnedBy t owner? := by
  cases owner? with
  | none => exact owned
  | some identifier =>
    obtain ⟨word, defined, assigned⟩ := owned
    exact ⟨word, defined, precedes.grows.names _ _ assigned⟩

/-- A stack that defines a procedure is owned by the identifier of that procedure. -/
theorem Stack.OwnedBy.exists_identifier {owner? : Option String} (owned : stack.OwnedBy s owner?)
    {name : String} (defined : stack.defined? = some name) :
    ∃ word identifier, name = lower word ∧ owner? = some identifier ∧
      s.names.assigned.get? (nameKey word .procedure) = some identifier := by
  cases owner? with
  | none =>
    have loose : stack.defined? = none := owned
    cases defined.symm.trans loose
  | some identifier =>
    obtain ⟨word, definedOwn, assigned⟩ := owned
    exact ⟨word, identifier, Option.some.inj (defined.symm.trans definedOwn), rfl, assigned⟩

theorem Stack.OwnedBy.eq_identifier {owner? : Option String} (owned : stack.OwnedBy s owner?)
    {word identifier : String} (defined : stack.defined? = some (lower word))
    (assigned : s.names.assigned.get? (nameKey word .procedure) = some identifier) :
    owner? = some identifier := by
  obtain ⟨own, known, same, owner, assignedKnown⟩ := owned.exists_identifier defined
  have sameKey : nameKey word .procedure = nameKey own .procedure := nameKey_inj.mpr ⟨same, rfl⟩
  rw [owner, ← assignedKnown, ← sameKey, assigned]

/-- A stack that is owned by the identifier of a procedure defines that procedure. -/
theorem Stack.OwnedBy.defined?_eq {word identifier : String} (owned : stack.OwnedBy s (some identifier))
    (settled : s.Settled) (assigned : s.names.assigned.get? (nameKey word .procedure) = some identifier) :
    stack.defined? = some (lower word) := by
  obtain ⟨own, defined, assignedOwn⟩ := owned
  have same := (nameKey_inj.mp (settled.names.apart _ _ _ assignedOwn assigned)).1
  rw [defined, same]

theorem Portion.IsOf.later (isOf : portion.IsOf s stack) (precedes : s.Precedes t) :
    portion.IsOf t stack where
  owned := isOf.owned.later precedes
  gives := by
    intro line among name given
    obtain ⟨key, assigned⟩ := isOf.gives line among name given
    exact ⟨key, precedes.grows.names _ _ assigned⟩
  declares := isOf.declares
  loops := isOf.loops.imp fun _ _ both => ⟨both.1.later precedes, both.2⟩

theorem composed_nil (settled : s.Settled) : Composed s s [] [] [] where
  settled := settled
  precedes := .refl
  each := .nil
  reserves := reserves_nothing
  lines := rfl
  loose := by simp
  stands := by simp
  procedures := fun _ _ found => .inl found
  kept := fun _ _ _ _ => rfl

/-- A procedure that is defined later again stands as a portion of a later stack. -/
theorem Composed.exists_again (rest : Composed t u tops codes portions) {word identifier : String}
    (assigned : u.names.assigned.get? (nameKey word .procedure) = some identifier)
    (again : ∃ stack ∈ tops, stack.defined? = some (lower word)) :
    ∃ portion ∈ portions, portion.owner? = some identifier := by
  obtain ⟨stack, among, defined⟩ := again
  obtain ⟨other, stands, definedOther⟩ := exists_standing among defined
  obtain ⟨portion, member, isOf⟩ := exists_related rest.each stands
  exact ⟨portion, member, isOf.owned.eq_identifier definedOther assigned⟩

/-- A stack keeps the procedures that neither it nor a later one defines. -/
theorem Composed.kept_cons (rest : Composed t u tops codes portions)
    (arises : portion.Arises s t stack code) (word name : String)
    (assigned : u.names.assigned.get? (nameKey word .procedure) = some name)
    (apart : ∀ other ∈ stack :: tops, other.defined? ≠ some (lower word)) :
    u.definitions.get? (procedureKey name) = s.definitions.get? (procedureKey name) := by
  have below := rest.kept word name assigned fun other among => apart other (List.mem_cons_of_mem _ among)
  refine below.trans (arises.others name fun owner => ?_)
  have owned := (arises.isOf.later rest.precedes).owned
  rw [owner] at owned
  exact apart _ (List.mem_cons_self ..) (owned.defined?_eq rest.settled assigned)

/-- Nothing of a stack stands if a later one defines the same procedure. -/
theorem Composed.cons_again (rest : Composed t u tops codes portions)
    (arises : portion.Arises s t stack code) (precedes : s.Precedes t) {name : String}
    (defined : stack.defined? = some name) (again : ∃ other ∈ tops, other.defined? = some name) :
    Composed s u (stack :: tops) (code :: codes) portions := by
  obtain ⟨word, identifier, rfl, owner, assigned⟩ :=
    (arises.isOf.later rest.precedes).owned.exists_identifier defined
  have silent : code = "" := by rw [arises.code, if_neg (by simp [owner])]
  refine ⟨rest.settled, precedes.trans rest.precedes, standing_of_again defined again ▸ rest.each,
    rest.reserves.stretch precedes .refl, ?_,
    fun other among none => List.mem_cons_of_mem _ (rest.loose other among none), rest.stands,
    fun name text found => ?_,
    rest.kept_cons arises⟩
  · rw [List.flatMap_cons, rest.lines, silent]
    rfl
  · rcases rest.procedures name text found with earlier | both
    · by_cases same : name = identifier
      · subst same
        obtain ⟨other, among, ownerOther⟩ := rest.exists_again assigned again
        exact .inr ⟨other, among, ownerOther,
          Option.some.inj ((rest.stands other among _ ownerOther).symm.trans found)⟩
      · exact .inl ((arises.others name (by simpa [owner] using Ne.symm same)).symm.trans earlier)
    · exact .inr both

/-- What a stack adds is kept if no later one defines the same procedure. -/
theorem Composed.cons_last (rest : Composed t u tops codes portions)
    (arises : portion.Arises s t stack code) (precedes : s.Precedes t)
    (last : ∀ name, stack.defined? = some name → ¬ ∃ other ∈ tops, other.defined? = some name) :
    Composed s u (stack :: tops) (code :: codes) (portion :: portions) := by
  have later := arises.isOf.later rest.precedes
  have stands : ∀ identifier, portion.owner? = some identifier →
      u.definitions.get? (procedureKey identifier) = some portion.text := by
    intro identifier owner
    have owned := later.owned
    rw [owner] at owned
    obtain ⟨word, defined, assigned⟩ := owned
    exact (rest.kept _ _ assigned fun other among same => last _ defined ⟨other, among, same⟩).trans
      (arises.stands _ owner)
  refine ⟨rest.settled, precedes.trans rest.precedes, standing_of_last last ▸ .cons later rest.each,
    arises.reserves.append rest.reserves precedes rest.precedes, ?_, ?_,
    List.forall_mem_cons.mpr ⟨stands, rest.stands⟩,
    fun name text found => ?_, rest.kept_cons arises⟩
  · rw [List.flatMap_cons, rest.lines, arises.code, List.filter_cons]
    cases portion.owner? <;> rfl
  · refine List.forall_mem_cons.mpr
      ⟨fun none => ?_, fun other among none => List.mem_cons_of_mem _ (rest.loose other among none)⟩
    rw [arises.code, if_pos none]
    exact List.mem_cons_self ..
  · rcases rest.procedures name text found with earlier | ⟨other, among, both⟩
    · by_cases owner : portion.owner? = some name
      · exact .inr ⟨portion, List.mem_cons_self .., owner,
          Option.some.inj ((stands name owner).symm.trans found)⟩
      · exact .inl ((arises.others name owner).symm.trans earlier)
    · exact .inr ⟨other, List.mem_cons_of_mem _ among, both⟩

theorem Composed.cons (rest : Composed t u tops codes portions) (arises : portion.Arises s t stack code)
    (precedes : s.Precedes t) :
    ∃ portions, Composed s u (stack :: tops) (code :: codes) portions := by
  by_cases again : ∃ name, stack.defined? = some name ∧ ∃ other ∈ tops, other.defined? = some name
  · obtain ⟨name, defined, again⟩ := again
    exact ⟨portions, rest.cons_again arises precedes defined again⟩
  · exact ⟨portion :: portions,
      rest.cons_last arises precedes fun name defined later => again ⟨name, defined, later⟩⟩

/-- The stacks at the tops of a workspace are emitted one after the other. -/
theorem runs_portions (templates : emitter.templates = knownTemplates) (strict : emitter.strict → known)
    {order : List Nat} (each : List.Forall₂ (ws.IsTop known tight) order tops)
    (oneLine : ∀ stack ∈ tops, ∀ head ∈ stack.heads, OneLine head.type) (settled : s.Settled) :
    Runs (fun _ => True) (order.mapM (emitter.emitTop ws)) s fun codes t => ∃ portions,
    Composed s t tops codes portions := by
  induction each generalizing s with
  | nil => exact runs_pure ⟨[], composed_nil settled⟩
  | cons isTop _ ih =>
    obtain ⟨here, below⟩ := List.forall_mem_cons.mp oneLine
    rw [List.mapM_cons]
    refine (runs_portion templates strict isTop here settled).bind ?_
    rintro code t ⟨settledThere, precedes, portion, arises⟩
    refine (ih below settledThere).bind ?_
    rintro codes u ⟨portions, rest⟩
    exact runs_pure (rest.cons arises precedes)

end Composed

/-- The names inside the helper function. -/
def helperNames : List String := ["a", "b", "c"]

/-- A line has no names but those of the helper function and those inside it. -/
structure Pass.IsForeign (pass : Pass) (line : List Char) : Prop where
  gives : ∀ name, assignee? line = some name → name ∈ helperNames
  declares : ∀ name, declared? line = some name → name ∈ helperNames ∨ pass.randomInt? = some name

/-- A loop of a block in a source: it counts to what the block is given, its names are declared once and given
nothing, and what it counts to changes inside it only where that is a variable to which a block inside gives a
value. -/
structure Pass.Keeps (pass : Pass) (source : String) (rows : Rows BlockHead RowHead)
    (loop : Loop) : Prop where
  stands : loop.IsAmong (firmLines source.toList)
  counts : pass.Counts rows loop
  untouched : ∀ name ∈ loop.names, ∀ line ∈ firmLines source.toList, assignee? line ≠ some name
  once : ∀ name ∈ loop.names, ((firmLines source.toList).filterMap declared?).count name = 1
  changes : loop.bound ∈ loop.body.filterMap assignee? ↔
    loop.taken? = none ∧ ∃ leaf ∈ rows.leavesAt "DO", leaf.head.assigns ∧
    pass.names.assigned.get? (nameKey (leaf.head.field "VAR").word .variable) = some loop.bound

section Counted

variable {pass s last : Pass} {line : List Char} {name : String} {tops : List (Stack BlockHead RowHead)}
  {codes : List String} {portion other : Portion} {portions : List Portion} {entry : String × String}
  {source : String}

/-- The names of loops are not those inside the helper function. -/
theorem Pass.Mints.not_mem_helperNames {wanted : String} (mints : s.Mints last wanted name)
    (among : wanted ∈ loopWords) :
    name ∉ helperNames := by
  have differs : ∀ wanted ∈ loopWords, ∀ name ∈ helperNames, ¬ (safeName wanted).toList <+: name.toList := by
    decide
  exact fun inside => differs wanted among name inside mints.leads

theorem IsIdle.isForeign (idle : IsIdle line) : pass.IsForeign line := by
  refine ⟨fun name given => ?_, fun name declares => ?_⟩
  · cases idle.gives.symm.trans given
  · cases idle.declares.symm.trans declares

theorem isForeign_firmOf {lines : List (List Char)} (each : ∀ line ∈ lines, pass.IsForeign line) :
    ∀ line ∈ firmOf lines, pass.IsForeign line := by
  intro line member
  obtain ⟨whole, among, _, rfl⟩ := mem_firmOf.mp member
  refine ⟨fun name given => (each whole among).gives name ?_,
    fun name declares => (each whole among).declares name ?_⟩
  · rwa [assignee?_trimEnd] at given
  · rwa [declared?_trimEnd] at declares

/-- The declaration of variables is idle. -/
theorem isIdle_declaration {names : List String} (words : ∀ name ∈ names, IsName name.toList) :
    IsIdle ("var " ++ joinTexts ", " names ++ ";").toList := by
  have whole : Whole ("var " ++ joinTexts ", " names ++ ";") :=
    ((whole_of_plain (by decide)).append
      (whole_joinTexts (whole_of_plain (by decide)) fun name among => whole_word (words name among))).append
      (whole_of_plain (by decide))
  have shape : ("var " ++ joinTexts ", " names ++ ";").toList =
      "var".toList ++ ' ' :: (joinTexts ", " names ++ ";").toList := by simp
  refine ⟨whole.oneLine, ?_, declared?_eq_none fun lead among => ?_⟩
  · have apart : ∃ c rest, (joinTexts ", " names ++ ";").toList = c :: rest ∧ c ≠ '+' ∧ c ≠ '=' := by
      cases names with
      | nil => exact ⟨';', [], rfl, by decide, by decide⟩
      | cons first rest =>
        obtain ⟨filled, inName, _⟩ := words first (List.mem_cons_self ..)
        obtain ⟨c, more, letters⟩ := List.exists_cons_of_ne_nil filled
        have inside := inName c (by rw [letters]; exact List.mem_cons_self ..)
        have headed : ∃ later, (joinTexts ", " (first :: rest)).toList = first.toList ++ later := by
          cases rest with
          | nil => exact ⟨[], by simp [joinTexts]⟩
          | cons next rest =>
            exact ⟨_,
              by rw [joinTexts, String.intercalate_cons_cons, String.append_assoc, String.toList_append]⟩
        obtain ⟨later, same⟩ := headed
        refine ⟨c, more ++ later ++ [';'], ?_, ne_of_isIdentifierChar inside (by decide),
          ne_of_isIdentifierChar inside (by decide)⟩
        rw [String.toList_append, same, letters]
        rfl
    obtain ⟨c, rest, later, noPlus, noEquals⟩ := apart
    rw [shape, later, assignee?_word (by decide) (by decide) (by simp; decide),
      isGiven_of_head noPlus noEquals]
    rfl
  · have leads : ∀ lead ∈ countLeads, ∃ c, lead.toList.head? = some c ∧ c ≠ 'v' := by decide
    obtain ⟨c, led, differs⟩ := leads lead among
    exact wordBehind?_of_head c (by simp) (show isBlank 'v' = false by decide) led differs

/-- The helper function has its name and those inside it. -/
theorem isForeign_helper {helper : String} (defined : pass.randomInt? = some helper)
    (isName : IsName helper.toList) :
    ∀ line ∈ helperLines helper, pass.IsForeign line := by
  have inside : ∀ line ∈ helperBody.map String.toList, (assignee? line).all (· ∈ helperNames) ∧
      (declared? line).all (· ∈ helperNames) := by
    decide +kernel
  refine List.forall_mem_cons.mpr ⟨⟨fun name given => ?_, fun name declares => ?_⟩, fun line among => ?_⟩
  · have lead : "int ".toList = "int".toList ++ [' '] := rfl
    rw [lead, List.append_assoc, List.singleton_append,
      assignee?_declaration (by decide) (by decide) isName] at given
    cases given
  · rw [declared?_of_lead (by simp [countLeads]) isName (by simp; decide)] at declares
    cases declares
    exact .inr defined
  · obtain ⟨gives, declares⟩ := inside line among
    refine ⟨fun name given => ?_, fun name found => .inl ?_⟩
    · simpa [given] using gives
    · simpa [found] using declares

/-- Only definitions of procedures have names of loops. -/
theorem Pass.Settled.isForeign (settled : last.Settled) (member : entry ∈ last.definitions)
    (other : ∀ name, entry.1 ≠ procedureKey name) :
    ∀ line ∈ firmLines entry.2.toList, last.IsForeign line := by
  have single : ∀ text : String, IsIdle text.toList →
      ∀ line ∈ firmLines text.toList, last.IsForeign line := by
    intro text idle
    rw [firmLines_of_closed (List.forall_mem_singleton.mpr idle.oneLine) (by simp [unlines])]
    exact isForeign_firmOf (List.forall_mem_singleton.mpr idle.isForeign)
  cases settled.entries entry member with
  | declaration words => exact single _ (isIdle_declaration words)
  | @header name among =>
    have oneLine : ∀ name ∈ knownHeaders, '\n' ∉ ("#include <" ++ name ++ ">").toList := by decide
    exact single _ (isIdle_of_foreign (oneLine name among) (by simp)
      (show isBlank '#' = false by decide) (by decide))
  | @helper name defined =>
    obtain ⟨_, leads⟩ := settled.apart name defined
    obtain ⟨known, found, isName⟩ :=
      settled.sound.helper (Table.has_iff_mem_keys.mpr (List.mem_map_of_mem (f := (·.1)) member))
    cases defined.symm.trans found
    have states := states_helper defined isName leads
    rw [firmLines_of_closed states.oneLine
      (by rw [← Emission.sourceUnder_randomInt, String.toList_append]; rfl)]
    exact isForeign_firmOf (isForeign_helper defined isName)
  | @procedure name => exact absurd rfl (other name)

/-- What is read off a source is read off its definitions and its codes. -/
theorem Pass.Heads.perm_filterMap (heads : last.Heads codes source) (read : List Char → Option String) :
    ((firmLines source.toList).filterMap read).Perm
      (last.definitions.flatMap (fun entry => (firmLines entry.2.toList).filterMap read) ++
        (codes.flatMap fun code => firmLines code.toList).filterMap read) := by
  have above := (List.filter_append_perm isImport (last.definitions.map (·.2))).flatMap_right
    fun text => (firmLines text.toList).filterMap read
  rw [List.flatMap_map] at above
  rw [heads, List.filterMap_flatMap, List.filterMap_flatMap, List.flatMap_append]
  exact above.append_right _

theorem Composed.exists_isOf (composed : Composed s last tops codes portions) (among : portion ∈ portions) :
    ∃ stack, portion.IsOf last stack := by
  obtain ⟨stack, _, isOf⟩ := exists_related composed.each.flip among
  exact ⟨stack, isOf⟩

theorem Composed.exists_mints (composed : Composed s last tops codes portions) (among : portion ∈ portions)
    (inNames : name ∈ portion.names) :
    ∃ wanted ∈ loopWords, s.Mints last wanted name :=
  composed.reserves.each name (List.mem_flatMap.mpr ⟨portion, among, inNames⟩)

/-- Only one portion has the name of a loop. -/
theorem Composed.exclusive (composed : Composed s last tops codes portions) (among : portion ∈ portions)
    (inNames : name ∈ portion.names) (amongOther : other ∈ portions) (inOther : name ∈ other.names) :
    other = portion := by
  by_contra differs
  have symm : Std.Symm (Function.onFun List.Disjoint Portion.names) :=
    ⟨fun _ _ apart => List.disjoint_symm apart⟩
  exact (List.nodup_flatMap.mp composed.reserves.once).2.forall amongOther among differs inOther inNames

/-- A definition that has names of loops is the portion of a stack. -/
theorem Composed.definition (composed : Composed s last tops codes portions)
    (bare : ∀ name, s.definitions.get? (procedureKey name) = none) (member : entry ∈ last.definitions) :
    (∀ line ∈ firmLines entry.2.toList, last.IsForeign line) ∨
      ∃ portion ∈ portions, ∃ identifier, portion.owner? = some identifier ∧
      entry = (procedureKey identifier, portion.text) := by
  by_cases other : ∀ name, entry.1 ≠ procedureKey name
  · exact .inl (composed.settled.isForeign member other)
  · obtain ⟨key, text⟩ := entry
    obtain ⟨identifier, rfl⟩ : ∃ name, key = procedureKey name := by simpa using other
    rcases composed.procedures identifier text
      (Table.get?_of_mem composed.settled.distinct member) with earlier | ⟨portion, among, owner, rfl⟩
    · rw [bare identifier] at earlier
      cases earlier
    · exact .inr ⟨portion, among, identifier, owner, rfl⟩

/-- No line gives a value to a name of a loop. -/
theorem Composed.untouched (composed : Composed s last tops codes portions)
    (bare : ∀ name, s.definitions.get? (procedureKey name) = none) (heads : last.Heads codes source)
    (among : portion ∈ portions) (inNames : name ∈ portion.names) :
    ∀ line ∈ firmLines source.toList, assignee? line ≠ some name := by
  obtain ⟨wanted, inWords, mints⟩ := composed.exists_mints among inNames
  have apart : ∀ other ∈ portions, name ∉ other.lines.filterMap assignee? := by
    intro other amongOther given
    obtain ⟨line, inLines, found⟩ := List.mem_filterMap.mp given
    obtain ⟨stack, isOf⟩ := composed.exists_isOf amongOther
    obtain ⟨key, assigned⟩ := isOf.gives line inLines name found
    exact mints.isPrivate.2 key assigned
  intro line member given
  rcases List.mem_append.mp
    ((heads.perm_filterMap assignee?).mem_iff.mp
    (List.mem_filterMap.mpr ⟨line, member, given⟩)) with above | below
  · obtain ⟨entry, inDefinitions, inEntry⟩ := List.mem_flatMap.mp above
    rcases composed.definition bare inDefinitions with foreign | ⟨other, amongOther, identifier, _, rfl⟩
    · obtain ⟨line, inLines, found⟩ := List.mem_filterMap.mp inEntry
      exact mints.not_mem_helperNames inWords ((foreign line inLines).gives name found)
    · exact apart other amongOther inEntry
  · rw [composed.lines, List.filterMap_flatMap] at below
    obtain ⟨other, inLoose, inOther⟩ := List.mem_flatMap.mp below
    exact apart other (List.mem_filter.mp inLoose).1 inOther

/-- A definition with the name of a loop is that of the portion that has the loop. -/
theorem Composed.owner_of_declared (composed : Composed s last tops codes portions)
    (bare : ∀ name, s.definitions.get? (procedureKey name) = none) (among : portion ∈ portions)
    (inNames : name ∈ portion.names) (member : entry ∈ last.definitions)
    (declares : name ∈ (firmLines entry.2.toList).filterMap declared?) :
    ∃ identifier, portion.owner? = some identifier ∧ entry = (procedureKey identifier, portion.text) := by
  obtain ⟨wanted, inWords, mints⟩ := composed.exists_mints among inNames
  rcases composed.definition bare member with foreign | ⟨other, amongOther, identifier, owner, rfl⟩
  · obtain ⟨line, inLines, found⟩ := List.mem_filterMap.mp declares
    rcases (foreign line inLines).declares name found with inside | helper
    · exact absurd inside (mints.not_mem_helperNames inWords)
    · exact absurd helper mints.isCounter.2
  · obtain ⟨stack, isOf⟩ := composed.exists_isOf amongOther
    have inOther : name ∈ other.names := isOf.declares ▸ declares
    obtain rfl := composed.exclusive among inNames amongOther inOther
    exact ⟨identifier, owner, rfl⟩

/-- The name of a loop is declared once. -/
theorem Composed.once (composed : Composed s last tops codes portions)
    (bare : ∀ name, s.definitions.get? (procedureKey name) = none) (heads : last.Heads codes source)
    (among : portion ∈ portions) (inNames : name ∈ portion.names) :
    ((firmLines source.toList).filterMap declared?).count name = 1 := by
  obtain ⟨stack, isOf⟩ := composed.exists_isOf among
  have distinct := List.nodup_flatMap.mp composed.reserves.once
  have codesSame : (codes.flatMap fun code => firmLines code.toList).filterMap declared? =
      (portions.filter (·.owner?.isNone)).flatMap Portion.names := by
    rw [composed.lines, List.filterMap_flatMap]
    refine List.flatMap_congr fun other inLoose => ?_
    obtain ⟨_, isOfOther⟩ := composed.exists_isOf (List.mem_filter.mp inLoose).1
    exact isOfOther.declares
  rw [(heads.perm_filterMap declared?).count_eq, List.count_append, codesSame]
  cases owner : portion.owner? with
  | none =>
    have above : name ∉ last.definitions.flatMap fun entry =>
        (firmLines entry.2.toList).filterMap declared? := by
      intro inside
      obtain ⟨entry, member, declares⟩ := List.mem_flatMap.mp inside
      obtain ⟨_, owned, _⟩ := composed.owner_of_declared bare among inNames member declares
      cases owner.symm.trans owned
    have below : ((portions.filter (·.owner?.isNone)).flatMap Portion.names).count name = 1 := by
      refine List.count_eq_one_of_mem ?_
        (List.mem_flatMap.mpr ⟨portion, List.mem_filter.mpr ⟨among, by simp [owner]⟩, inNames⟩)
      exact List.nodup_flatMap.mpr ⟨fun other inLoose => distinct.1 other (List.mem_filter.mp inLoose).1,
        distinct.2.sublist List.filter_sublist⟩
    rw [List.count_eq_zero.mpr above, below]
  | some identifier =>
    have below : name ∉ (portions.filter (·.owner?.isNone)).flatMap Portion.names := by
      intro inside
      obtain ⟨other, inLoose, inOther⟩ := List.mem_flatMap.mp inside
      obtain ⟨amongOther, none⟩ := List.mem_filter.mp inLoose
      obtain rfl := composed.exclusive among inNames amongOther inOther
      simp [owner] at none
    obtain ⟨front, back, split⟩ :=
      List.append_of_mem (Table.mem_of_get? (composed.stands portion among identifier owner))
    -- the keys differ, so that no other definition is that of the portion
    have keys := composed.settled.distinct
    rw [split, Table.keys, List.map_append, List.map_cons, List.nodup_middle, List.nodup_cons] at keys
    have others : ∀ entry ∈ front ++ back, name ∉ (firmLines entry.2.toList).filterMap declared? := by
      intro entry inOthers declares
      have member : entry ∈ last.definitions := by
        rw [split]
        simp only [List.mem_append, List.mem_cons] at inOthers ⊢
        tauto
      obtain ⟨known, owned, rfl⟩ := composed.owner_of_declared bare among inNames member declares
      cases owner.symm.trans owned
      exact keys.1 (by rw [← List.map_append]; exact List.mem_map_of_mem (f := (·.1)) inOthers)
    have own : ((firmLines portion.text.toList).filterMap declared?).count name = 1 := by
      have same : (firmLines portion.text.toList).filterMap declared? = portion.names := isOf.declares
      rw [same]
      exact List.count_eq_one_of_mem (distinct.1 portion among) inNames
    have none : ∀ entries ⊆ front ++ back,
        (entries.flatMap fun entry => (firmLines entry.2.toList).filterMap declared?).count name = 0 := by
      intro entries inside
      refine List.count_eq_zero.mpr fun found => ?_
      obtain ⟨entry, member, declares⟩ := List.mem_flatMap.mp found
      exact others entry (inside member) declares
    rw [split, List.flatMap_append, List.flatMap_cons, List.count_append, List.count_append, own,
      none front (List.subset_append_left ..),
      none back (List.subset_append_right ..), List.count_eq_zero.mpr below]

/-- What a loop counts to changes inside it only where that is a variable to which a block inside gives a
value. -/
theorem Pass.Counts.changes {rows : Rows BlockHead RowHead} {loop : Loop} (counts : last.Counts rows loop)
    (isPrivate : ∀ name ∈ loop.names, last.names.Private name) :
    loop.bound ∈ loop.body.filterMap assignee? ↔
      loop.taken? = none ∧ ∃ leaf ∈ rows.leavesAt "DO", leaf.head.assigns ∧
      last.names.assigned.get? (nameKey (leaf.head.field "VAR").word .variable) = some loop.bound := by
  constructor
  · intro given
    obtain ⟨leaf, among, assigned⟩ := exists_related counts.assigns.flip given
    obtain ⟨inside, assigns⟩ := List.mem_filter.mp among
    refine ⟨?_, leaf, inside, assigns, assigned⟩
    by_contra taken
    obtain ⟨code, taken⟩ := Option.ne_none_iff_exists'.mp taken
    exact (isPrivate loop.bound (by simp [Loop.names, taken])).2 _ assigned
  · rintro ⟨_, leaf, inside, assigns, assigned⟩
    obtain ⟨name, given, known⟩ := exists_related counts.assigns (List.mem_filter.mpr ⟨inside, assigns⟩)
    cases assigned.symm.trans known
    exact given

/-- What is related to something in a list is in its own list. -/
theorem related_mem {α β : Type} {R : α → β → Prop} {xs : List α} {ys : List β}
    (related : List.Forall₂ R xs ys) :
    List.Forall₂ (fun x y => y ∈ ys ∧ R x y) xs ys :=
  ((List.forall₂_and_left ys xs).mpr ⟨fun _ among => among, related.flip⟩).flip

/-- A source keeps the loops of what stands in it. -/
theorem Composed.keeps (composed : Composed s last tops codes portions)
    (bare : ∀ name, s.definitions.get? (procedureKey name) = none) (heads : last.Heads codes source) :
    ∃ loops, List.Forall₂ (last.Keeps source) ((standing tops).flatMap Stack.repeats) loops ∧
      (loops.flatMap Loop.names).Nodup := by
  refine ⟨portions.flatMap (·.loops), ?_, ?_⟩
  · have each :
        List.Forall₂ (fun stack portion =>
        List.Forall₂ (last.Keeps source) (Stack.repeats stack) portion.loops) (standing tops) portions := by
      refine (related_mem composed.each).imp ?_
      rintro stack portion ⟨among, isOf⟩
      have inside : portion.lines <:+: firmLines source.toList := by
        cases owner : portion.owner? with
        | none => exact infix_of_heads heads (.inr (composed.loose portion among owner))
        | some identifier =>
          exact infix_of_heads heads (.inl ⟨_, composed.stands portion among identifier owner⟩)
      refine (related_mem isOf.loops).imp ?_
      rintro rows loop ⟨inLoops, counts, n, here⟩
      have inNames : ∀ name ∈ loop.names, name ∈ portion.names :=
        fun name own => List.mem_flatMap.mpr ⟨loop, inLoops, own⟩
      refine ⟨⟨n, here.trans inside⟩, counts,
        fun name own => composed.untouched bare heads among (inNames name own),
        fun name own => composed.once bare heads among (inNames name own), counts.changes fun name own => ?_⟩
      obtain ⟨_, _, mints⟩ := composed.exists_mints among (inNames name own)
      exact mints.isPrivate
    exact List.rel_flatMap each fun _ _ => id
  · rw [List.flatMap_assoc]
    exact composed.reserves.once

end Counted

/-- The loops of a loaded workspace in its source, for each block that counts in a stack that stands: each has
names of its own, that are declared once and given no value, and what it counts to changes inside it only
where the block is given a variable that another block inside gives a value to. -/
theorem Emitter.source_counts {emitter : Emitter} (templates : emitter.templates = knownTemplates)
    {strict : Bool} {oneBased : Option Bool} {data : Json} {ws : Workspace}
    (loaded : loadWorkspace strict oneBased data = .ok ws) (proper : data.All Json.IsProper)
    (isKnown : emitter.strict → ws.IsKnown) (oneLine : ∀ b < ws.blocks.size, OneLine (ws.block b).type)
    {tight : Prop} (short : tight → data.All Json.IsShort) :
    ∃ tops, ws.orderedStacks? = some tops ∧ emitter.Compiles ws tight fun source =>
      ∃ code last, Yields (emitter.emitTops ws) (emitter.start ws) code last ∧
        ∃ loops, List.Forall₂ (last.Keeps source) ((standing tops).flatMap Stack.repeats) loops ∧
          (loops.flatMap Loop.names).Nodup := by
  obtain ⟨order, tops, ordered, perm, found, isTops⟩ := exists_orderedStacks loaded proper short isKnown
  have types : ∀ stack ∈ tops, ∀ head ∈ stack.heads, OneLine head.type := by
    intro stack among head inside
    obtain ⟨b, _, isTop⟩ := exists_related isTops.flip among
    obtain ⟨inner, rfl⟩ := (Workspace.hangs_of_stack? isTop.found).heads head inside
    by_cases exist : inner < ws.blocks.size
    · exact oneLine inner exist
    · have outside : ws.block inner = default := by simp [Workspace.block, exist]
      show OneLine (ws.block inner).type
      rw [outside]
      exact List.not_mem_nil
  obtain ⟨settled, bare⟩ := emitter.settled_start ws
  refine ⟨tops, found, (emitter.compiles_ordered templates id ordered isTops
    (runs_portions templates id isTops types settled)).imp ?_⟩
  rintro source ⟨code, codes, last, yields, ⟨portions, composed⟩, heads⟩
  exact ⟨code, last, yields, composed.keeps bare heads⟩

/-- A loop whose count is taken before it starts, with a loop in it that counts to a numeral. -/
theorem Emitter.source_counts_nested :
    let number := Json.object [("type", .text "math_number"), ("fields", .object [("NUM", .int 3)])]
    let read := Json.object [("type", .text "variables_get"), ("fields", .object [("VAR", .text "n")])]
    let sum := Json.object [("type", .text "math_arithmetic"), ("fields", .object [("OP", .text "ADD")]),
      ("inputs", .object [("A", read), ("B", number)])]
    let change := Json.object [("type", .text "math_change"), ("fields", .object [("VAR", .text "N")])]
    let inner :=
      Json.object [("type", .text "controls_repeat_ext"),
        ("inputs", .object [("TIMES", number), ("DO", change)])]
    let outer :=
      Json.object [("type", .text "controls_repeat_ext"), ("inputs", .object [("TIMES", sum), ("DO", inner)])]
    let data := Json.object [("name", .text "rounds"), ("blocks", .list [outer])]
    let emitter : Emitter := {}
    ∃ ws, loadWorkspace true none data = .ok ws ∧ ∃ tops, ws.orderedStacks? = some tops ∧
      emitter.Compiles ws True fun source =>
      ∃ code last, Yields (emitter.emitTops ws) (emitter.start ws) code last ∧
        ∃ loops, List.Forall₂ (last.Keeps source) ((standing tops).flatMap Stack.repeats) loops ∧
          (loops.flatMap Loop.names).Nodup := by
  intro number read sum change inner outer data emitter
  have loads : (loadWorkspace true none data).toOption.any fun ws =>
      (List.range ws.blocks.size).all fun b =>
        isKnownType (ws.block b).type && '\n' ∉ (ws.block b).type.toList := by decide +kernel
  obtain ⟨ws, loaded, holds⟩ := exists_ok_of_any loads
  simp only [List.all_eq_true, List.mem_range, Bool.and_eq_true, decide_eq_true_eq] at holds
  have proper : data.All Json.IsProper := by
    simp [data, outer, inner, change, sum, read, number, Json.All, Json.AllMembers, Json.AllItems,
      Json.IsProper, Table.keys]
  have noNumbers : ∀ text ∈
      ["rounds", "math_number", "variables_get", "n", "math_arithmetic", "ADD", "math_change", "N",
      "controls_repeat_ext"], (numberOf (.text text)).toOption.isNone := by decide +kernel
  have short : data.All Json.IsShort := by
    have words := fun text member => Json.isShort_text (noNumbers text member)
    have three : (Json.number (.int 3)).IsShort :=
      Nat.lt_of_lt_of_le (show (3 : Int).natAbs < tenTo 1 by decide) (tenTo_mono (by decide))
    simp [data, outer, inner, change, sum, read, number, Json.All, Json.AllMembers, Json.AllItems, words]
    simp [Json.IsShort]
    exact three
  exact ⟨ws, loaded, emitter.source_counts rfl loaded proper (fun _ b inside => (holds b inside).1)
    (fun b inside => (holds b inside).2)
    fun _ => short⟩

/-- A loop that counts to a variable does so anew each time: the block inside moves its end. -/
theorem Emitter.source_counts_moving :
    let read := Json.object [("type", .text "variables_get"), ("fields", .object [("VAR", .text "n")])]
    let change := Json.object [("type", .text "math_change"), ("fields", .object [("VAR", .text "n")])]
    let repeats :=
      Json.object [("type", .text "controls_repeat_ext"),
        ("inputs", .object [("TIMES", read), ("DO", change)])]
    let data := Json.object [("name", .text "w"), ("blocks", .list [repeats])]
    let source := "var n;\n\n\nfor (int count = 0; count < n; count++) \x7b\n  n += 0;\n\x7d\n"
    let loop : Loop := ⟨"count", "n", none, ["  n += 0;".toList]⟩
    ∃ ws, loadWorkspace false none data = .ok ws ∧ (({} : Emitter).source ws).1 = .ok source ∧
      loop.IsAmong (firmLines source.toList) ∧ loop.bound ∈ loop.body.filterMap assignee? := by
  intro read change repeats data source loop
  have loads : (loadWorkspace false none data).toOption.any fun ws => (({} : Emitter).source ws).1.toOption =
      some source := by
    decide +kernel
  obtain ⟨ws, loaded, printed⟩ := exists_ok_of_any loads
  have stands : firmLines source.toList =
      ["var n;".toList] ++ firmOf (loop.lines.map (List.replicate 0 ' ' ++ ·)) ++ [] := by decide +kernel
  refine ⟨ws, loaded, ?_, ⟨0, _, _, stands.symm⟩, by decide +kernel⟩
  have printed : (({} : Emitter).source ws).1.toOption = some source := by simpa using printed
  cases text : (({} : Emitter).source ws).1 with
  | error error =>
    rw [text] at printed
    cases printed
  | ok other =>
    rw [text] at printed
    cases printed
    rfl

end BlockCompiler
