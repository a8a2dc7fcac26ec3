import BlockCompiler.Proofs.Emission.Displayed

/-!
Definitions of procedures: each stands under the key of its identifier, with its head and all that is in its
body.
-/

namespace BlockCompiler

/-- What is emitted and what is given hold together. -/
theorem Gives.and_emits {α : Type} {tight : Prop} {x : Emission α} {s : Pass}
    {Wanted Other : α → Pass → Prop} (gives : Gives x s Wanted) (emits : Emits tight x s Other) :
    Gives x s fun a t => Wanted a t ∧ Other a t := by
  intro settled
  refine ((gives settled).and (emits settled.sound)).imp ?_
  rintro a t ⟨⟨settledThere, precedes, same, wanted⟩, _, _, other⟩
  exact ⟨settledThere, precedes, same, wanted, other⟩

/-- The head of the definition of a procedure. -/
def procedureHeader (identifier : String) (names : List String) : String :=
  "void " ++ identifier ++ "(" ++ joinTexts ", " names ++ ")"

/-- The lines of the definition of a procedure. -/
def procedureLines (identifier : String) (comments : List (List Char)) (names : List String)
    (body : List (List Char)) :
    List (List Char) :=
  comments ++ (procedureHeader identifier names ++ " \x7b").toList :: (body ++ [['\x7d']])

/-- The parts of the definition of a procedure are in order: its comments are comments, its parameters have
the identifiers of variables, and its body has the lines of all statements in its row. -/
structure Pass.IsDefinition (pass : Pass) (head : BlockHead) (rows : Rows BlockHead RowHead)
    (comments : List (List Char)) (names : List String) (body : List (List Char)) : Prop where
  comments : ∀ line ∈ comments, "//".toList <+: line ∧ '\n' ∉ line
  words : ∀ name ∈ names, IsName name.toList
  parameters : ∃ params, parameters head.mutation = .ok params ∧
    List.Forall₂ (fun param name => pass.names.assigned.get? (nameKey param.word .variable) = some name)
      params names
  nests : Nests 1 1 body
  steady : ∀ line ∈ body, pass.IsSteady line
  listed : List.Forall₂ (fun leaf line => ∀ later, pass.Grows later → leaf.IsLine later line)
    (rows.leavesAt "STACK") (bareLines body)
  shown : ∀ head ∈ rows.generatedAt "STACK", ∃ line ∈ body, head.ShownIn pass line

/-- A text is the definition of the procedure of a block. -/
def Pass.Defines (pass : Pass) (head : BlockHead) (rows : Rows BlockHead RowHead)
    (identifier text : String) : Prop :=
  IsName identifier.toList ∧
    pass.names.assigned.get? (nameKey (head.field "NAME").word .procedure) = some identifier ∧
    ∃ comments names body, pass.IsDefinition head rows comments names body ∧
      (text ++ "\n").toList = unlines (procedureLines identifier comments names body)

section Later

variable {s t : Pass} {head : BlockHead} {rows : Rows BlockHead RowHead} {comments body : List (List Char)}
  {names : List String} {identifier text : String}

theorem Pass.IsDefinition.later (definition : s.IsDefinition head rows comments names body)
    (precedes : s.Precedes t) :
    t.IsDefinition head rows comments names body where
  comments := definition.comments
  words := definition.words
  parameters := by
    obtain ⟨params, found, each⟩ := definition.parameters
    exact ⟨params, found, each.imp fun _ _ assigned => precedes.grows.names _ _ assigned⟩
  nests := definition.nests
  steady := fun line member => (definition.steady line member).later precedes
  listed := definition.listed.imp fun _ _ isLine later grows => isLine later (precedes.grows.trans grows)
  shown := by
    intro inner among
    obtain ⟨line, member, holds⟩ := definition.shown inner among
    exact ⟨line, member, holds.later precedes⟩

theorem Pass.Defines.later (defines : s.Defines head rows identifier text) (precedes : s.Precedes t) :
    t.Defines head rows identifier text := by
  obtain ⟨isName, assigned, comments, names, body, definition, shape⟩ := defines
  exact ⟨isName, precedes.grows.names _ _ assigned, comments, names, body, definition.later precedes, shape⟩

end Later

section Shown

variable {pass : Pass} {head : BlockHead} {rows : Rows BlockHead RowHead} {comments body : List (List Char)}
  {names : List String} {identifier text : String}

theorem Stack.generated_definition (enabled : head.disabled = false)
    (named : BlockKind.ofName? head.type = some .defineProcedure) :
    (Stack.block head rows .empty).generated = head :: rows.generatedAt "STACK" := by
  have reads : head.reads = ["STACK"] := by
    simp [BlockHead.reads, BlockHead.takesEnd, named, BlockKind.rows, BlockKind.shape]
  rw [Stack.generated, Stack.generated, enabled, reads]
  simp

theorem whole_procedureHeader (isName : IsName identifier.toList)
    (words : ∀ name ∈ names, IsName name.toList) :
    Whole (procedureHeader identifier names) := by
  have params : Whole ("(" ++ joinTexts ", " names ++ ")") :=
    (whole_joinTexts (whole_of_plain (by decide)) fun name among => whole_word (words name among)).enclosed
      "(" ")" (by simp)
  have whole := ((whole_of_plain (by decide) : Whole "void ").append (whole_word isName)).append params
  simpa only [procedureHeader, String.append_assoc] using whole

theorem Pass.IsDefinition.oneLine (isName : IsName identifier.toList)
    (definition : pass.IsDefinition head rows comments names body) :
    ∀ line ∈ procedureLines identifier comments names body, '\n' ∉ line := by
  have above : OneLine (procedureHeader identifier names ++ " \x7b") :=
    oneLine_append.mpr ⟨(whole_procedureHeader isName definition.words).oneLine, by decide⟩
  refine List.forall_mem_append.mpr ⟨fun line member => (definition.comments line member).2,
    List.forall_mem_cons.mpr ⟨above, ?_⟩⟩
  exact List.forall_mem_append.mpr ⟨fun line member => (definition.steady line member).oneLine,
    List.forall_mem_singleton.mpr (by decide)⟩

/-- The definition of a procedure has the lines that it is to have. -/
theorem firmLines_definition (isName : IsName identifier.toList)
    (definition : pass.IsDefinition head rows comments names body)
    (shape : (text ++ "\n").toList = unlines (procedureLines identifier comments names body)) :
    firmLines text.toList = firmOf (procedureLines identifier comments names body) :=
  firmLines_of_closed (definition.oneLine isName) (by rwa [String.toList_append] at shape)

/-- Each block of the definition of a procedure is shown in a line of it that is not its head. -/
theorem Pass.Defines.exists_line (defines : pass.Defines head rows identifier text)
    (enabled : head.disabled = false) (named : BlockKind.ofName? head.type = some .defineProcedure) :
    ∀ inner ∈ (Stack.block head rows .empty).generated,
      ∃ line ∈ firmLines text.toList, wordBehind? procedureLead line = none ∧ inner.ShownIn pass line := by
  obtain ⟨isName, _, comments, names, body, definition, shape⟩ := defines
  rw [Stack.generated_definition enabled named, firmLines_definition isName definition shape]
  refine List.forall_mem_cons.mpr ⟨?_, fun inner among => ?_⟩
  · have solid : isSolid ['\x7d'] := by decide
    refine ⟨_, mem_firmOf.mpr ⟨['\x7d'], by simp [procedureLines], solid, rfl⟩, by decide, ?_⟩
    exact ⟨BlockHead.isSeen_of_kind named (by simp), BlockHead.isIncluded_of_kind named (by simp)⟩
  · obtain ⟨line, member, holds⟩ := definition.shown inner among
    have steady := definition.steady line member
    refine ⟨_, mem_firmOf.mpr ⟨line, by simp [procedureLines, member], steady.solid, rfl⟩, ?_, holds.trimEnd⟩
    rw [wordBehind?_trimEnd]
    exact steady.defines

end Shown

section Defining

variable {tight : Prop} {site : Site} {rows : Rows BlockHead RowHead} {s : Pass}

/-- The parameters of a procedure have the identifiers of variables. -/
theorem gives_parameterNames : Gives (Template.parameterNames site) s fun names t =>
    (∀ name ∈ names, IsName name.toList) ∧ ∃ params, parameters site.head.mutation = .ok params ∧
      List.Forall₂ (fun param name => t.names.assigned.get? (nameKey param.word .variable) = some name)
      params names := by
  unfold Template.parameterNames
  refine Emission.gives_ofCount.bind ?_
  rintro params t _ ⟨found, rfl⟩
  have one : ∀ param ∈ params, ∀ s,
    Gives (Emission.textOf param >>= fun text => Emission.getName text .variable) s fun name t =>
      IsName name.toList ∧ t.names.assigned.get? (nameKey param.word .variable) = some name := by
    intro param _ s
    refine Emission.gives_textOf.bind ?_
    rintro text u _ ⟨rfl, rfl⟩
    exact Emission.gives_getName text .variable
  refine (gives_mapM params one ?_).imp ?_
  · exact fun _ _ _ _ precedes named => ⟨named.1, precedes.grows.names _ _ named.2⟩
  · intro names u _ each
    refine ⟨?_, params, found, each.imp fun _ _ named => named.2⟩
    clear found one
    induction each with
    | nil => simp
    | cons first _ ih => exact List.forall_mem_cons.mpr ⟨first.1, ih⟩

theorem eq_of_unlines {lines others : List (List Char)} (same : unlines lines = unlines others)
    (each : ∀ line ∈ lines, '\n' ∉ line) (eachOther : ∀ line ∈ others, '\n' ∉ line) : lines = others := by
  have split :=
    (splitLines_unlines each).symm.trans ((congrArg splitLines same).trans (splitLines_unlines eachOther))
  exact List.append_cancel_right split

theorem procedureKey_inj {name other : String} (same : procedureKey name = procedureKey other) :
    name = other := by
  unfold procedureKey at same
  exact String.append_right_inj _ |>.mp same

/-- Lines in braces below a head are the definition of a procedure. -/
theorem defines_braced {identifier body : String} {names : List String} (isName : IsName identifier.toList)
    (assigned : s.names.assigned.get? (nameKey (site.head.field "NAME").word .procedure) = some identifier)
    (words : ∀ name ∈ names, IsName name.toList)
      (found : ∃ params, parameters site.head.mutation = .ok params ∧
      List.Forall₂ (fun param name => s.names.assigned.get? (nameKey param.word .variable) = some name) params
      names)
    (lays : Lays 1 1 (rows.generatedAt "STACK") s body) (lists : Lists true s (rows.leavesAt "STACK") body) :
    s.Defines site.head rows identifier
    (site.comments ++ braced (procedureHeader identifier names) body) := by
  obtain ⟨comments, shapeComments, slashed⟩ := site.exists_slashedLines
  obtain ⟨lines, shape, nests, steady, shown⟩ := lays
  obtain ⟨others, shapeOther, oneLine, related⟩ := lists rfl
  obtain rfl : lines = others :=
    eq_of_unlines (shape.symm.trans shapeOther) (fun line member => (steady line member).oneLine) oneLine
  refine ⟨isName, assigned, comments, names, lines, ⟨slashed, words, found, nests, steady, related, shown⟩,
    ?_⟩
  rw [braced_eq]
  simp only [String.toList_append, shapeComments, shape, procedureLines, unlines, List.flatMap_append,
    List.flatMap_cons, List.flatMap_nil]
  simp

/-- A procedure is defined under its identifier, with its body in braces, and the definitions of others
stay. -/
theorem runs_procedure {Holds : Pass → Pass → String → Prop} (stretches : Stretches Holds)
    (givesAt : site.GivesAt "STACK" Holds) (below : site.below = pure (.statements ""))
    (settled : s.Settled) :
    Runs (fun _ => True) (Template.defineProcedure site) s fun output t => output = none ∧ t.Settled ∧
      s.Precedes t ∧
      ∃ identifier names body, IsName identifier.toList ∧ (∀ name ∈ names, IsName name.toList) ∧
        t.names.assigned.get? (nameKey (site.head.field "NAME").word .procedure) = some identifier ∧
        (∃ params, parameters site.head.mutation = .ok params ∧
          List.Forall₂ (fun param name => t.names.assigned.get? (nameKey param.word .variable) = some name)
          params names) ∧
        Holds s t body ∧
        t.definitions.get? (procedureKey identifier) =
        some (site.comments ++ braced (procedureHeader identifier names) body) ∧
        ∀ name ≠ identifier, t.definitions.get? (procedureKey name) =
        s.definitions.get? (procedureKey name) := by
  unfold Template.defineProcedure
  refine (Emission.gives_textOf settled).bind ?_
  rintro name _ ⟨_, _, _, field, rfl⟩
  refine (Emission.gives_getName name .procedure settled).bind ?_
  rintro identifier t ⟨settledName, precedesName, sameName, isName, assigned⟩
  refine (gives_parameterNames settledName).bind ?_
  rintro names u ⟨settledParams, precedesParams, sameParams, words, params, found, each⟩
  refine (givesAt u settledParams).bind ?_
  rintro body v ⟨settledBody, precedesBody, sameBody, holds⟩
  dsimp only
  rw [Site.finish, below, pure_bind, pure_bind]
  have empty : (Output.statements "").code = "" := rfl
  rw [empty, String.append_empty]
  have header : ∀ words : String,
      s!"void {identifier}({words})" = "void " ++ identifier ++ "(" ++ words ++ ")" := fun _ => rfl
  rw [header, ← procedureHeader]
  have other : procedureKey identifier ≠ randomIntName := Emission.procedureKey_ne (by decide)
  obtain ⟨settledLast, precedesLast⟩ :=
    settledBody.define (site.comments ++ braced (procedureHeader identifier names) body)
      other .procedure
  have before := precedesName.trans precedesParams
  have after := precedesParams.trans (precedesBody.trans precedesLast)
  have word : (site.head.field "NAME").word = name := by
    rw [show site.head.field "NAME" = .text name from field]
    rfl
  have defined : Runs (fun _ => True) (Emission.define (procedureKey identifier)
      (site.comments ++ braced (procedureHeader identifier names) body)) v fun _ w =>
      w = v.define (procedureKey identifier)
        (site.comments ++ braced (procedureHeader identifier names) body) := runs_modify rfl
  refine defined.bind ?_
  rintro _ _ rfl
  refine runs_pure ⟨rfl, settledLast, precedesName.trans after, identifier, names, body, isName, words, ?_,
    ⟨params, found, each.imp fun _ _ known => (precedesBody.trans precedesLast).grows.names _ _ known⟩,
    stretches _ _ _ _ _ before precedesLast holds, ?_, fun name differs => ?_⟩
  · rw [word]
    exact after.grows.names _ _ assigned
  · exact (Table.get?_set ..).trans (if_pos rfl)
  · have key : procedureKey identifier ≠ procedureKey name := fun same => differs (procedureKey_inj same).symm
    refine (Table.get?_set ..).trans ((if_neg key).trans ?_)
    exact (sameBody name).trans ((sameParams name).trans (sameName name))

/-- The definition of a procedure has its head and all statements in its row. -/
theorem runs_defineProcedure (laysAt : site.LaysAt "STACK" (rows.generatedAt "STACK"))
    (opensAt : site.OpensAt true tight "STACK" (rows.leavesAt "STACK"))
    (below : site.below = pure (.statements "")) (settled : s.Settled) :
    Runs (fun _ => True) (Template.defineProcedure site) s fun output t => output = none ∧ t.Settled ∧
      s.Precedes t ∧
      ∃ identifier text, t.Defines site.head rows identifier text ∧
        t.definitions.get? (procedureKey identifier) = some text ∧
        ∀ name ≠ identifier, t.definitions.get? (procedureKey name) =
        s.definitions.get? (procedureKey name) := by
  have stretches : Stretches fun _ t text => Lays 1 1 (rows.generatedAt "STACK") t text ∧
      Lists true t (rows.leavesAt "STACK") text :=
    fun _ _ _ _ _ _ later both => ⟨both.1.later later, both.2.later later.grows⟩
  refine (runs_procedure stretches (fun u => (laysAt u).and_emits (opensAt u)) below settled).imp ?_
  rintro _ t ⟨rfl, settledThere, precedes, identifier, names, body, isName, words, assigned, params,
    ⟨lays, lists⟩, stands, others⟩
  exact ⟨rfl, settledThere, precedes, identifier, _, defines_braced isName assigned words params lays lists,
    stands, others⟩

end Defining

end BlockCompiler
