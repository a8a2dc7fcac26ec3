import BlockCompiler.Proofs.Emission.Rendered
import BlockCompiler.Proofs.Source.Counted

/-!
Texts in sources: what is told of the text of each stack at the top is told of a text in the source, for each
stack that stands there. Rendered stacks stand in the source as the lines that they are rendered as.
-/

namespace BlockCompiler

/-- What a stack at the top leaves between two states of a pass: a text of which something is told, which is
its code or, under the identifier of a procedure, a definition. -/
structure Stack.Leaves (Tells : Stack BlockHead RowHead → String → Prop) (s t : Pass)
    (stack : Stack BlockHead RowHead) (code : String) (owner? : Option String) (text : String) : Prop where
  owned : stack.OwnedBy t owner?
  tells : Tells stack text
  shape : code = if owner? = none then text else ""
  closed : code = "" ∨ code.toList.getLast? = some '\n'
  stands : ∀ identifier, owner? = some identifier → t.definitions.get? (procedureKey identifier) = some text
  others : ∀ name, owner? ≠ some name →
    t.definitions.get? (procedureKey name) = s.definitions.get? (procedureKey name)

/-- Some stacks have been emitted one after the other, from one state of a pass to another. Those that stand
have left texts of which something is told, and no others are there. -/
structure Gathered (Tells : Stack BlockHead RowHead → String → Prop) (s t : Pass)
    (tops : List (Stack BlockHead RowHead)) (codes : List String) : Prop where
  settled : t.Settled
  precedes : s.Precedes t
  closed : ∀ code ∈ codes, code = "" ∨ code.toList.getLast? = some '\n'
  left : ∀ code ∈ codes, code = "" ∨ ∃ stack ∈ standing tops, Tells stack code
  stands : ∀ stack ∈ standing tops, ∃ owner? text, stack.OwnedBy t owner? ∧ Tells stack text ∧
    (owner? = none → text ∈ codes) ∧
    ∀ identifier, owner? = some identifier → t.definitions.get? (procedureKey identifier) = some text
  procedures : ∀ name text, t.definitions.get? (procedureKey name) = some text →
    s.definitions.get? (procedureKey name) = some text ∨ ∃ stack ∈ standing tops, stack.defined?.isSome ∧
      Tells stack text
  kept : ∀ word name, t.names.assigned.get? (nameKey word .procedure) = some name →
    (∀ stack ∈ tops, stack.defined? ≠ some (lower word)) →
      t.definitions.get? (procedureKey name) = s.definitions.get? (procedureKey name)

section Gathered

variable {Tells : Stack BlockHead RowHead → String → Prop} {known : Bool} {tight : Prop} {emitter : Emitter}
  {ws : Workspace} {stack : Stack BlockHead RowHead} {tops : List (Stack BlockHead RowHead)}
  {code text source : String} {codes : List String} {owner? : Option String} {s t u : Pass}

theorem gathered_nil (settled : s.Settled) : Gathered Tells s s [] [] where
  settled := settled
  precedes := .refl
  closed := by simp
  left := by simp
  stands := by simp [standing]
  procedures := fun _ _ found => .inl found
  kept := fun _ _ _ _ => rfl

/-- A procedure that is defined later again stands as the text of a later stack. -/
theorem Gathered.exists_again (rest : Gathered Tells t u tops codes) {word identifier : String}
    (assigned : u.names.assigned.get? (nameKey word .procedure) = some identifier)
    (again : ∃ stack ∈ tops, stack.defined? = some (lower word)) :
    ∃ stack ∈ standing tops, ∃ text, stack.defined?.isSome ∧ Tells stack text ∧
      u.definitions.get? (procedureKey identifier) = some text := by
  obtain ⟨stack, among, defined⟩ := again
  obtain ⟨other, standsOther, definedOther⟩ := exists_standing among defined
  obtain ⟨owner?, text, owned, tells, _, stands⟩ := rest.stands other standsOther
  exact ⟨other, standsOther, text,
    by rw [definedOther]; rfl, tells, stands _ (owned.eq_identifier definedOther assigned)⟩

/-- What stands of some stacks stands of them behind another. -/
theorem Gathered.stands_behind (rest : Gathered Tells t u tops codes) :
    ∀ other ∈ standing tops, ∃ owner? text, other.OwnedBy u owner? ∧ Tells other text ∧
      (owner? = none → text ∈ code :: codes) ∧
      ∀ identifier, owner? = some identifier → u.definitions.get? (procedureKey identifier) = some text := by
  intro other among
  obtain ⟨owner?, text, owned, tells, inCodes, stands⟩ := rest.stands other among
  exact ⟨owner?, text, owned, tells, fun none => List.mem_cons_of_mem _ (inCodes none), stands⟩

/-- A stack keeps the procedures that neither it nor a later one defines. -/
theorem Gathered.kept_cons (rest : Gathered Tells t u tops codes)
    (leaves : stack.Leaves Tells s t code owner? text) (word name : String)
    (assigned : u.names.assigned.get? (nameKey word .procedure) = some name)
    (apart : ∀ other ∈ stack :: tops, other.defined? ≠ some (lower word)) :
    u.definitions.get? (procedureKey name) = s.definitions.get? (procedureKey name) := by
  have below := rest.kept word name assigned fun other among => apart other (List.mem_cons_of_mem _ among)
  refine below.trans (leaves.others name ?_)
  rintro rfl
  exact apart _ (List.mem_cons_self ..) ((leaves.owned.later rest.precedes).defined?_eq rest.settled assigned)

/-- Nothing of a stack stands if a later one defines the same procedure. -/
theorem Gathered.cons_again (rest : Gathered Tells t u tops codes)
    (leaves : stack.Leaves Tells s t code owner? text) (precedes : s.Precedes t) {name : String}
    (defined : stack.defined? = some name) (again : ∃ other ∈ tops, other.defined? = some name) :
    Gathered Tells s u (stack :: tops) (code :: codes) := by
  obtain ⟨word, identifier, rfl, rfl, assigned⟩ :=
    (leaves.owned.later rest.precedes).exists_identifier defined
  have silent : code = "" := by rw [leaves.shape, if_neg (by simp)]
  have dropped : standing (stack :: tops) = standing tops := standing_of_again defined again
  refine ⟨rest.settled, precedes.trans rest.precedes, List.forall_mem_cons.mpr ⟨leaves.closed, rest.closed⟩,
    ?_,
    dropped ▸ rest.stands_behind, fun name text found => ?_, rest.kept_cons leaves⟩
  · rw [dropped]
    exact List.forall_mem_cons.mpr ⟨.inl silent, rest.left⟩
  · rw [dropped]
    rcases rest.procedures name text found with earlier | ended
    · by_cases here : name = identifier
      · subst here
        obtain ⟨other, among, last, defines, tells, standsLast⟩ := rest.exists_again assigned again
        cases found.symm.trans standsLast
        exact .inr ⟨other, among, defines, tells⟩
      · exact .inl ((leaves.others name (by simpa using Ne.symm here)).symm.trans earlier)
    · exact .inr ended

/-- A stack leaves its text if no later one defines the same procedure. -/
theorem Gathered.cons_last (rest : Gathered Tells t u tops codes)
    (leaves : stack.Leaves Tells s t code owner? text) (precedes : s.Precedes t)
    (last : ∀ name, stack.defined? = some name → ¬ ∃ other ∈ tops, other.defined? = some name) :
    Gathered Tells s u (stack :: tops) (code :: codes) := by
  have owned := leaves.owned.later rest.precedes
  have stands : ∀ identifier, owner? = some identifier →
      u.definitions.get? (procedureKey identifier) = some text := by
    rintro identifier rfl
    obtain ⟨word, defined, assigned⟩ := owned
    exact (rest.kept _ _ assigned fun other among same => last _ defined ⟨other, among, same⟩).trans
      (leaves.stands _ rfl)
  have standing : standing (stack :: tops) = stack :: standing tops := standing_of_last last
  refine ⟨rest.settled, precedes.trans rest.precedes, List.forall_mem_cons.mpr ⟨leaves.closed, rest.closed⟩,
    ?_, ?_,
    fun name text found => ?_, rest.kept_cons leaves⟩
  · rw [standing]
    refine List.forall_mem_cons.mpr ⟨?_, fun other among => ?_⟩
    · rw [leaves.shape]
      split_ifs
      · exact .inr ⟨stack, List.mem_cons_self .., leaves.tells⟩
      · exact .inl rfl
    · rcases rest.left other among with silent | ⟨later, inTops, tellsLater⟩
      · exact .inl silent
      · exact .inr ⟨later, List.mem_cons_of_mem _ inTops, tellsLater⟩
  · rw [standing]
    refine List.forall_mem_cons.mpr ⟨⟨owner?, text, owned, leaves.tells, fun none => ?_, stands⟩,
      rest.stands_behind⟩
    rw [leaves.shape, if_pos none]
    exact List.mem_cons_self ..
  · rw [standing]
    rcases rest.procedures name text found with earlier | ⟨other, among, told⟩
    · by_cases here : owner? = some name
      · cases found.symm.trans (stands name here)
        obtain ⟨word, defined, _⟩ := here ▸ owned
        exact .inr ⟨stack, List.mem_cons_self .., by rw [defined]; rfl, leaves.tells⟩
      · exact .inl ((leaves.others name here).symm.trans earlier)
    · exact .inr ⟨other, List.mem_cons_of_mem _ among, told⟩

theorem Gathered.cons (rest : Gathered Tells t u tops codes)
    (leaves : stack.Leaves Tells s t code owner? text) (precedes : s.Precedes t) :
    Gathered Tells s u (stack :: tops) (code :: codes) := by
  by_cases again : ∃ name, stack.defined? = some name ∧ ∃ other ∈ tops, other.defined? = some name
  · obtain ⟨name, defined, again⟩ := again
    exact rest.cons_again leaves precedes defined again
  · exact rest.cons_last leaves precedes fun name defined later => again ⟨name, defined, later⟩

/-- The stacks at the tops of a workspace are emitted one after the other. -/
theorem runs_gathered {order : List Nat} (each : List.Forall₂ (fun b stack => ∀ s : Pass, s.Settled →
      Runs (fun _ => True) (emitter.emitTop ws b) s fun code t => t.Settled ∧ s.Precedes t ∧
        ∃ owner? text, stack.Leaves Tells s t code owner? text) order tops) (settled : s.Settled) :
    Runs (fun _ => True) (order.mapM (emitter.emitTop ws)) s fun codes t =>
      Gathered Tells s t tops codes := by
  induction each generalizing s with
  | nil => exact runs_pure (gathered_nil settled)
  | cons first _ ih =>
    rw [List.mapM_cons]
    refine (first s settled).bind ?_
    rintro code t ⟨settledThere, precedes, owner?, text, leaves⟩
    refine (ih settledThere).bind fun codes u rest => ?_
    exact runs_pure (rest.cons leaves precedes)

/-- The text of each stack that stands is in the source. -/
theorem Gathered.exists_infix (gathered : Gathered Tells s t tops codes) (heads : t.Heads codes source) :
    ∀ stack ∈ standing tops, ∃ text, Tells stack text ∧
    firmLines text.toList <:+: firmLines source.toList := by
  intro stack among
  obtain ⟨owner?, text, _, tells, inCodes, stands⟩ := gathered.stands stack among
  refine ⟨text, tells, ?_⟩
  cases owner? with
  | none => exact infix_of_heads heads (.inr (inCodes rfl))
  | some identifier => exact infix_of_heads heads (.inl ⟨_, stands identifier rfl⟩)

/-- A line of the source is one of the text of a stack that stands, or of a definition that is none of a
procedure. -/
theorem Gathered.line_of_source (gathered : Gathered Tells s t tops codes)
    (bare : ∀ name, s.definitions.get? (procedureKey name) = none) (heads : t.Heads codes source)
    {line : List Char} (member : line ∈ firmLines source.toList) :
    (∃ stack ∈ standing tops, ∃ text, Tells stack text ∧ line ∈ firmLines text.toList) ∨
      ∃ entry ∈ t.definitions, (∀ name, entry.1 ≠ procedureKey name) ∧ line ∈ firmLines entry.2.toList := by
  rw [heads, List.mem_flatMap] at member
  obtain ⟨text, among, inText⟩ := member
  rcases List.mem_append.mp among with defined | inCodes
  · have inDefinitions : text ∈ t.definitions.map (·.2) := by
      rcases List.mem_append.mp defined with imports | others
      · exact (List.mem_filter.mp imports).1
      · exact (List.mem_filter.mp others).1
    obtain ⟨entry, member, rfl⟩ := List.mem_map.mp inDefinitions
    by_cases other : ∀ name, entry.1 ≠ procedureKey name
    · exact .inr ⟨entry, member, other, inText⟩
    · obtain ⟨key, text⟩ := entry
      obtain ⟨identifier, rfl⟩ : ∃ name, key = procedureKey name := by simpa using other
      rcases gathered.procedures identifier text
        (Table.get?_of_mem gathered.settled.distinct member) with earlier | ⟨stack, stands, _, tells⟩
      · rw [bare identifier] at earlier
        cases earlier
      · exact .inl ⟨stack, stands, text, tells, inText⟩
  · rcases gathered.left text inCodes with rfl | ⟨stack, stands, tells⟩
    · cases inText
    · exact .inl ⟨stack, stands, text, tells, inText⟩

end Gathered

/-- The lines of a text are those that a stack is rendered as, but for blanks at their ends. -/
def Stack.FirmlyRenders (stack : Stack BlockHead RowHead) (text : String) : Prop :=
  ∃ lines, stack.Renders lines ∧ firmLines text.toList = firmOf lines

/-- A text is what a stack is rendered as. The definition of a procedure has no line feed at its end. -/
def Stack.RendersAs (stack : Stack BlockHead RowHead) (text : String) : Prop :=
  stack.RendersText (if stack.defined?.isSome then text ++ "\n" else text)

section Rendered

variable {known : Bool} {tight : Prop} {emitter : Emitter} {ws : Workspace} {b : Nat}
  {stack : Stack BlockHead RowHead} {head : BlockHead} {rows : Rows BlockHead RowHead} {text : String}
  {s t : Pass}

theorem Stack.RendersAs.firmly (rendersAs : stack.RendersAs text) : stack.FirmlyRenders text := by
  obtain ⟨lines, shape, oneLine, renders⟩ := rendersAs
  refine ⟨lines, renders, ?_⟩
  split_ifs at shape with defines
  · exact firmLines_of_closed oneLine (by simpa using shape)
  · rw [shape, firmLines_unlines oneLine]

theorem Stack.RendersText.closed (renders : stack.RendersText text) :
    text = "" ∨ text.toList.getLast? = some '\n' := by
  obtain ⟨lines, shape, _, _⟩ := renders
  obtain rfl | ⟨others, line, rfl⟩ := List.eq_nil_or_concat' lines
  · exact .inl (String.toList_inj.mp shape)
  · exact .inr (by rw [shape, unlines_append]; simp [unlines])

/-- A stack that defines no procedure leaves its code. -/
theorem Stack.RendersText.leaves (renders : stack.RendersText text) (loose : stack.defined? = none)
    (same : s.SameProcedures t) :
    ∃ owner? whole, stack.Leaves Stack.RendersAs s t text owner? whole := by
  refine ⟨none, text, loose, ?_, rfl, renders.closed, by simp, fun name _ => same name⟩
  rwa [Stack.RendersAs, loose, if_neg (by simp)]

/-- The head of the definition of a procedure is a line of a statement. -/
theorem isStatementLine_procedureHeader {identifier : String} {names : List String}
    (isName : IsName identifier.toList) (words : ∀ name ∈ names, IsName name.toList) :
    IsStatementLine (procedureHeader identifier names ++ " \x7b").toList := by
  have whole := whole_procedureHeader isName words
  refine ⟨oneLine_append.mpr ⟨whole.oneLine, by decide⟩, ?_,
    (show EndsStatement " \x7b".toList by decide).append _⟩
  have headed : (procedureHeader identifier names ++ " \x7b").toList.head? = some 'v' := by
    simp [procedureHeader]
  exact isCommentLine_of_head headed (by decide) (by decide)

/-- A definition is rendered as the lines above it, its head, what is in its body, and the end. -/
theorem rendersAs_definition (enabled : head.disabled = false) (loose : head.inline = false)
    (named : BlockKind.ofName? head.type = some .defineProcedure) {identifier body : String}
    {names : List String} (isName : IsName identifier.toList) (words : ∀ name ∈ names, IsName name.toList)
    (rendersBody : rows.RendersBody "STACK" body) :
    (Stack.block head rows .empty).RendersAs
      (Site.comments ⟨head, emitter.sockets rows, emitter.emit .empty⟩ ++
      braced (procedureHeader identifier names) body) := by
  obtain ⟨inner, shape, oneLines, renders⟩ := rendersBody
  have closing : IsStatementLine ['\x7d'] := ⟨by decide, by decide, by decide⟩
  have interlaced :
      Interlaced [indented inner]
      ((procedureHeader identifier names ++ " \x7b").toList :: (indented inner ++ [['\x7d']])) :=
    .line (isStatementLine_procedureHeader isName words) (.body (.line closing .nil))
  have each :
      List.Forall₂ (fun name body => ∃ inner, (rows.at name).Renders inner ∧ body = indented inner)
      head.bodies
      [indented inner] := by
    rw [BlockHead.bodies, if_pos named]
    exact .cons ⟨inner, renders, rfl⟩ .nil
  rw [Stack.RendersAs, Stack.defined?_of_enabled enabled named, if_pos (by simp)]
  refine ⟨_, ?_, ?_, renders_known enabled (by simp [named]) each interlaced renders_nothing⟩
  · rw [List.append_nil, unlines_append, ← @toList_above head rows emitter (emitter.emit .empty) loose,
      braced_eq]
    simp [shape, unlines]
  · rw [List.append_nil]
    exact List.forall_mem_append.mpr
      ⟨not_mem_above head rows, interlaced.forall (fun line isLine => isLine.oneLine)
      (List.forall_mem_singleton.mpr oneLines)⟩

/-- A procedure is defined as the lines that it is rendered as. -/
theorem runs_definition_rendered (templates : emitter.templates = knownTemplates)
    (strict : emitter.strict → known) (enabled : head.disabled = false) (loose : head.inline = false)
    (named : BlockKind.ofName? head.type = some .defineProcedure)
    (ready : (Stack.block head rows .empty).Ready known tight) (fit : rows.Fit)
    (oneLine : ∀ head ∈ rows.heads, OneLine head.type) (settled : s.Settled) :
    Runs (fun _ => True) (emitter.emit (.block head rows .empty)) s fun output t => output = .statements "" ∧
      t.Settled ∧
      s.Precedes t ∧ ∃ owner? text,
      (Stack.block head rows .empty).Leaves Stack.RendersAs s t "" owner? text := by
  obtain ⟨readyThere, fits, there⟩ := ready.body named fit
  have oneLineThere : ∀ head ∈ (rows.at "STACK").heads, OneLine head.type :=
    fun other among => oneLine other (rows.heads_at "STACK" among)
  have turnsAt := @turnsAt_row emitter head rows (emitter.emit .empty) "STACK"
    (turns_openings templates strict rows "STACK" readyThere fits there oneLineThere)
  have opensWith := @opensWith_rendered tight emitter head rows (emitter.emit .empty) "STACK"
    (emits_openings_rendered templates strict rows "STACK" readyThere fits there oneLineThere)
  have stretches : Stretches fun _ _ body => rows.RendersBody "STACK" body :=
    fun _ _ _ _ _ _ _ renders => renders
  rw [Emitter.emit.eq_2, enabled, if_neg (by simp), emitSite_eq, Emitter.templateOf, templates,
    get?_knownTemplates, named]
  simp only [Option.map_some, pure_bind]
  refine (runs_procedure stretches
    (fun u => ((turnsAt u).and_emits (opensWith u)).imp fun _ _ _ both => both.2)
    (Emitter.emit.eq_1 emitter) settled).bind ?_
  rintro _ t ⟨rfl, settledThere, precedes, identifier, names, body, isName, words, assigned, _, rendersBody,
    stands, others⟩
  have rendersAs := @rendersAs_definition emitter head rows enabled loose named _ _ _ isName words rendersBody
  refine runs_pure ⟨rfl, settledThere, precedes, some identifier, _,
    ⟨_, Stack.defined?_of_enabled enabled named, assigned⟩, rendersAs,
    by simp, .inl rfl, ?_, fun name differs => others name ?_⟩
  · rintro _ ⟨⟩
    exact stands
  · rintro rfl
    exact differs rfl

/-- What each stack at the top leaves are the lines that it is rendered as. -/
theorem runs_rendered (templates : emitter.templates = knownTemplates) (strict : emitter.strict → known)
    (isTop : ws.IsTop known tight b stack) (oneLine : ∀ head ∈ stack.heads, OneLine head.type)
    (settled : s.Settled) :
    Runs (fun _ => True) (emitter.emitTop ws b) s fun code t => t.Settled ∧ s.Precedes t ∧
      ∃ owner? text, stack.Leaves Stack.RendersAs s t code owner? text := by
  obtain ⟨rows, next, rfl⟩ := isTop.head
  have fits := isTop.fits
  have ready := isTop.ready
  apply runs_top isTop settled
  · intro isStatement
    refine ((turns_stack templates strict _ ready fits ⟨isStatement, isTop.loose⟩ oneLine s).and_emits
      (emits_stack_rendered templates strict _ ready fits ⟨isStatement, isTop.loose⟩ oneLine s)).imp ?_
    rintro _ t _ ⟨_, code, rfl, renders⟩
    exact ⟨code, rfl, renders.leaves (Stack.defined?_of_kind (BlockHead.kind_of_isStatement isStatement))⟩
  · rintro disabled rfl
    have nothing : (Stack.block (ws.head b) rows .empty).RendersText "" :=
      ⟨[], rfl, by simp, renders_disabled disabled renders_nothing⟩
    refine nothing.leaves ?_
    rw [Stack.defined?, if_neg (by simp [disabled])]
  · rintro isValue enabled rfl
    refine ((turns_naked templates strict isValue enabled ready).and_emits
      (emits_value_rendered templates strict isValue isTop.loose enabled ready s)).imp ?_
    rintro _ t _ ⟨⟨code, order, rfl, filled, _⟩, renders⟩
    exact ⟨code, order, rfl, filled,
      renders.leaves (Stack.defined?_of_kind (BlockHead.kind_of_isValue isValue))⟩
  · rintro named enabled rfl
    refine runs_definition_rendered templates strict enabled isTop.loose named ready fits.2.1
      (fun head among => ?_) settled
    exact oneLine head (List.mem_cons_of_mem _ (List.mem_append_left _ among))

end Rendered

section Sources

variable {known : Bool} {tight : Prop} {emitter : Emitter} {ws : Workspace} {s : Pass}

/-- Texts that are made of lines are so with line feeds between them. -/
theorem closed_joinTexts {texts : List String} (each : ∀ text ∈ texts, text.toList.getLast? = some '\n') :
    joinTexts "\n" texts = "" ∨ (joinTexts "\n" texts).toList.getLast? = some '\n' := by
  induction texts with
  | nil => exact .inl rfl
  | cons text rest ih =>
    obtain ⟨here, later⟩ := List.forall_mem_cons.mp each
    cases rest with
    | nil =>
      have single : joinTexts "\n" [text] = text := by simp [joinTexts]
      exact .inr (single ▸ here)
    | cons next rest =>
      refine .inr ?_
      rw [joinTexts, String.intercalate_cons_cons, ← joinTexts, String.toList_append, List.getLast?_append]
      rcases ih later with none | closed
      · rw [none, String.toList_append, List.getLast?_append]
        rfl
      · rw [closed]
        rfl

/-- The code of all stacks is made of lines if that of each is. -/
theorem closed_emitTops {order : List Nat} (ordered : ws.orderedTopBlocks? = some order)
    (each : Runs (fun _ => True)
      (order.mapM (emitter.emitTop ws)) s fun codes _ => ∀ code ∈ codes, code = "" ∨
      code.toList.getLast? = some '\n') :
    Runs (fun _ => True) (emitter.emitTops ws) s fun code _ => code = "" ∨
    code.toList.getLast? = some '\n' := by
  unfold Emitter.emitTops
  rw [ordered]
  refine each.bind fun codes t closed => runs_pure (closed_joinTexts fun code among => ?_)
  obtain ⟨inCodes, filled⟩ := List.mem_filter.mp among
  exact (closed code inCodes).resolve_left (by simpa using filled)

/-- The names of known types have no line feeds. -/
theorem isKnownType_oneLine {type : String} (isKnown : isKnownType type) : OneLine type := by
  have names : ∀ kind ∈ BlockKind.all, OneLine kind.name := by decide +kernel
  obtain ⟨kind, named⟩ := Option.isSome_iff_exists.mp isKnown
  rw [← BlockKind.name_of_ofName? named]
  exact names kind kind.mem_all

/-- If no type of a block has a line feed, no type of a head has one. -/
theorem Workspace.oneLine_head (oneLine : ∀ b < ws.blocks.size, OneLine (ws.block b).type) (b : Nat) :
    OneLine (ws.head b).type := by
  by_cases exist : b < ws.blocks.size
  · exact oneLine b exist
  · have outside : ws.block b = default := by simp [Workspace.block, exist]
    show OneLine (ws.block b).type
    rw [outside]
    exact List.not_mem_nil

/-- The stacks of a loaded workspace whose types have no line feeds are gathered as the lines that they are
rendered as. -/
theorem Emitter.exists_gathered {strict : Bool} {oneBased : Option Bool} {data : Json}
    (templates : emitter.templates = knownTemplates) (isStrict : emitter.strict → known)
    (loaded : loadWorkspace strict oneBased data = .ok ws) (proper : data.All Json.IsProper)
    (isKnown : known = true → ws.IsKnown) (oneLine : ∀ b < ws.blocks.size, OneLine (ws.block b).type)
    (short : tight → data.All Json.IsShort) :
    ∃ order tops, ws.orderedTopBlocks? = some order ∧ order.Perm ws.topBlocks ∧
      ws.orderedStacks? = some tops ∧
      List.Forall₂ (ws.IsTop known tight) order tops ∧
      (∀ stack ∈ tops, ∀ head ∈ stack.heads, ∃ b, head = ws.head b) ∧
      Runs (fun _ => True) (order.mapM (emitter.emitTop ws)) (emitter.start ws) fun codes last =>
        Gathered Stack.RendersAs (emitter.start ws) last tops codes := by
  obtain ⟨order, tops, ordered, perm, found, isTops⟩ := exists_orderedStacks loaded proper short isKnown
  have own : ∀ stack ∈ tops, ∀ head ∈ stack.heads, ∃ b, head = ws.head b := by
    intro stack among
    obtain ⟨b, _, isTop⟩ := exists_related isTops.flip among
    exact (Workspace.hangs_of_stack? isTop.found).heads
  have types : ∀ stack ∈ tops, ∀ head ∈ stack.heads, OneLine head.type := by
    intro stack among head inside
    obtain ⟨b, rfl⟩ := own stack among head inside
    exact ws.oneLine_head oneLine b
  refine ⟨order, tops, ordered, perm, found, isTops, own,
    runs_gathered ((related_mem isTops).imp ?_) (emitter.settled_start ws).1⟩
  rintro b stack ⟨among, isTop⟩ s settled
  exact runs_rendered templates isStrict isTop (types stack among) settled

/-- The source of a loaded workspace whose types have no line feeds is that of its stacks as they are
gathered. -/
theorem Emitter.compiles_gathered {strict : Bool} {oneBased : Option Bool} {data : Json}
    (templates : emitter.templates = knownTemplates) (isStrict : emitter.strict → known)
    (loaded : loadWorkspace strict oneBased data = .ok ws) (proper : data.All Json.IsProper)
    (isKnown : known = true → ws.IsKnown) (oneLine : ∀ b < ws.blocks.size, OneLine (ws.block b).type)
    (short : tight → data.All Json.IsShort) :
    ∃ tops, ws.orderedStacks? = some tops ∧ (∀ stack ∈ tops, ∀ head ∈ stack.heads, ∃ b, head = ws.head b) ∧
      emitter.Compiles ws tight fun source => ∃ code codes last,
        Yields (emitter.emitTops ws) (emitter.start ws) code last ∧
        (code = "" ∨ code.toList.getLast? = some '\n') ∧
          Gathered Stack.RendersAs (emitter.start ws) last tops codes ∧
          last.Heads codes source := by
  obtain ⟨order, tops, ordered, _, found, isTops, own, gathers⟩ :=
    emitter.exists_gathered templates isStrict loaded proper isKnown oneLine short
  refine ⟨tops, found, own, (emitter.compiles_ordered templates isStrict ordered isTops gathers).imp ?_⟩
  rintro source ⟨code, codes, last, yields, gathered, heads⟩
  exact ⟨code, codes, last, yields,
    (closed_emitTops ordered (gathers.imp fun _ _ gathered => gathered.closed)).of_yields yields,
    gathered, heads⟩

end Sources

end BlockCompiler
