import BlockCompiler.Proofs.Coupling.Restated
import BlockCompiler.Proofs.Name.Listed

/-!
Variables: they are declared once, with different identifiers, and every block that uses a variable writes the
identifier under which it is declared.
-/

namespace BlockCompiler

/-- The identifier of the variable that a field names, read off a list. -/
def Site.listed (listed? : String → Option String) (site : Site) : Emission String := do
  let name ← Emission.textOf (site.field "VAR")
  match listed? name with
  | some identifier => return identifier
  | none => throw (.refused name)

/-- The template of each kind of block, where the identifiers of variables are read off a list. -/
def BlockKind.templateBy (listed? : String → Option String) : BlockKind → Template
  | .readVariable => Template.readVariableBy (Site.listed listed?)
  | .setVariable => Template.setVariableBy (Site.listed listed?)
  | .change => Template.changeBy (Site.listed listed?)
  | kind => kind.template

namespace Emitter

/-- The identifiers of the variables of a workspace, in order. -/
def identifiers (emitter : Emitter) (ws : Workspace) : List String :=
  (emitter.bareStart.names.getNames (ws.declared.map (·.name)) .variable).1

/-- The identifier that is listed for a variable, whatever its case. -/
def identifier? (emitter : Emitter) (ws : Workspace) (name : String) : Option String :=
  listedName? (ws.declared.map (·.name)) (emitter.identifiers ws) name

/-- An emitter that reads the identifiers of variables off a list, and refuses variables that are not
there. -/
def listing (emitter : Emitter) (listed? : String → Option String) : Emitter :=
  { emitter with templates := BlockKind.all.map fun kind => (kind.name, kind.templateBy listed?) }

end Emitter

/-- Every variable of a workspace is declared once, and used under the identifier under which it is
declared. -/
structure Emitter.Declares (emitter : Emitter) (ws : Workspace) : Prop where
  /-- There is one identifier for each variable, in order. -/
  each : ws.declared.map (fun known => emitter.identifier? ws known.name) = (emitter.identifiers ws).map some
  different : (emitter.identifiers ws).Nodup
  /-- The definition of the variables lists the identifiers, and is missing only if there are no variables. -/
  definition : (emitter.start ws).declaration? =
    if ws.declared = [] then none else some ("var " ++ joinTexts ", " (emitter.identifiers ws) ++ ";")
  /-- The definition stays until the code of all stacks is there. -/
  stays : ∀ code last, Yields (emitter.emitTops ws) (emitter.start ws) code last →
    last.declaration? = (emitter.start ws).declaration?
  /-- The variable of every block is listed. -/
  uses : ∀ b < ws.blocks.size, isKnownType (ws.block b).type → ∀ name, (ws.block b).field "VAR" = .text name →
    (emitter.identifier? ws name).isSome
  /-- The source is the same if every block takes the identifier of its variable from the list. -/
  source : (emitter.source ws).1 = ((emitter.listing (emitter.identifier? ws)).source ws).1
  /-- Two names have the same identifier just if they are the same but for their case. -/
  apart : ∀ name other identifier another, emitter.identifier? ws name = some identifier →
    emitter.identifier? ws other = some another →
    identifier ∈ emitter.identifiers ws ∧ (identifier = another ↔ lower name = lower other)

/-- The comparison of a run with one in which the identifiers of variables are read off a list. In the first,
variables have the identifiers that are listed, and the declaration stays. -/
def Coupling.listing (listed? : String → Option String) (declaration : Option String) : Coupling where
  extra := false
  skips := false
  Heads head other := other = head ∧
    (isKnownType head.type → ∀ name, head.field "VAR" = .text name → (listed? name).isSome)
  Keeps pass := pass.declaration? = declaration ∧
    ∀ name identifier, listed? name = some identifier →
      pass.names.assigned.get? (nameKey name .variable) = some identifier
  alike heads := BlockHead.alike_of_eq heads.1
  keeps kept grows same :=
    ⟨same.trans kept.1, fun name identifier listed => grows.names _ _ (kept.2 name identifier listed)⟩

section Agree

variable {listed? : String → Option String} {declaration : Option String} {site other : Site}
  {emitter : Emitter}

/-- The identifier that a variable has is the one that is listed. -/
theorem agree_listed (sites : (Coupling.listing listed? declaration).Sites site other)
    (known : isKnownType site.head.type) :
    (Coupling.listing listed? declaration).Agree (fun a b => a = b ∧ IsName a.toList) site.getVariable
    (other.listed listed?) := by
  unfold Site.getVariable Site.listed
  rw [sites.field]
  cases used : site.field "VAR" with
  | text name =>
    obtain ⟨identifier, listed⟩ := Option.isSome_iff_exists.mp (sites.heads.2 known name used)
    intro s t passes
    have assigned := passes.keeps.2 name identifier listed
    have answer : s.names.getName name .variable = (identifier, s.names) := by
      simp [Registry.getName, assigned, Registry.leadOf_of_unled passes.sound.names.unled]
    have here :
        ((Emission.textOf (.text name) >>= fun name => Emission.getName name .variable).run s : Except
        EmissionError String × Pass) =
        (.ok identifier, s) := by
      show (Except.ok (s.names.getName name .variable).1,
        { s with names := (s.names.getName name .variable).2 }) = _
      rw [answer]
    have there : (do
        let name ← Emission.textOf (.text name)
        match listed? name with
        | some identifier => return identifier
        | none => throw (.refused name) : Emission String) = pure identifier := by
      show (match listed? name with
        | some identifier => pure identifier
        | none => throw (.refused name) : Emission String) = _
      rw [listed]
    rw [here, there]
    exact .done passes ⟨rfl, passes.sound.names.words _ _ assigned⟩
  | _ => exact Coupling.agree_throw

/-- The templates give the same where identifiers are read off a list. -/
theorem emitters_listing (templates : emitter.templates = knownTemplates) :
    (Coupling.listing listed? declaration).Emitters emitter (emitter.listing listed?) := by
  refine ⟨.inl rfl, fun type => ?_, fun type => ?_⟩
  · rw [templates, get?_knownTemplates, Emitter.listing, get?_templates]
    cases named : BlockKind.ofName? type with
    | none => exact .none
    | some kind =>
      refine .some fun site bare sites same => ?_
      subst same
      have form : site.head.isStatement = decide (kind.shape.plug = .statement) := by
        rw [BlockHead.isStatement, named]
      have found := agree_listed sites (by rw [isKnownType, named]; rfl)
      cases kind with
      | readVariable => exact Coupling.agree_readVariableBy form found
      | setVariable => exact Coupling.agree_setVariableBy sites form found
      | change => exact Coupling.agree_changeBy sites form found
      | _ => exact Coupling.agree_template sites named
  · rw [templates, get?_knownTemplates]
    exact Option.map_eq_none_iff

end Agree

section Start

variable {emitter : Emitter} {ws : Workspace}

theorem Emitter.names_start (emitter : Emitter) (ws : Workspace) :
    (emitter.start ws).names = (emitter.bareStart.names.getNames (ws.declared.map (·.name)) .variable).2 := by
  unfold Emitter.start
  cases shape : ws.declared with
  | nil => rfl
  | cons first rest =>
    rw [if_neg (by simp)]
    rfl

/-- At the start of a pass, the variables have the identifiers that are listed, one by one. -/
theorem Emitter.lists_start (emitter : Emitter) (ws : Workspace) : (emitter.start ws).names.Consistent ∧
    (emitter.start ws).names.Lists .variable (ws.declared.map (·.name)) (emitter.identifiers ws) := by
  obtain ⟨consistent, _, lists⟩ :=
    (Registry.consistent_ofReserved emitter.reserved).getNames (ws.declared.map (·.name)) .variable
  rw [Emitter.names_start]
  exact ⟨consistent, lists⟩

/-- The definition of the variables lists their identifiers. There is none just if there are no variables. -/
theorem Emitter.declaration?_start (emitter : Emitter) (ws : Workspace) : (emitter.start ws).declaration? =
    if ws.declared = [] then none else some ("var " ++ joinTexts ", " (emitter.identifiers ws) ++ ";") := by
  unfold Emitter.start
  cases shape : ws.declared with
  | nil => rfl
  | cons first rest =>
    rw [if_neg (by simp), if_neg (by simp), Emitter.identifiers, shape]
    rfl

end Start

section Loads

variable {strict : Bool} {oneBased : Option Bool} {data : Json} {document : Document} {emitter : Emitter}
  {ws : Workspace}

/-- A variable that a block of a known type uses is listed. -/
def BlockSpec.Uses (listed? : String → Option String) (spec : BlockSpec) : Prop :=
  isKnownType spec.type → ∀ name, spec.content.field "VAR" = .text name → (listed? name).isSome

/-- All variables that the blocks of a loaded workspace use are listed. -/
theorem Workspace.Loads.uses (loads : ws.Loads oneBased document)
    (described : document.DescribedBy strict data) (proper : data.All Json.IsProper) :
    ∀ top ∈ document.tops, ∀ spec ∈ top.heads, spec.Uses (emitter.identifier? ws) := by
  intro top among spec isHead known name used
  obtain ⟨kind, named⟩ := Option.isSome_iff_exists.mp known
  have checked := described.checked proper (fun tight : False => tight.elim) top among spec isHead
  have filled : name ≠ "" := by
    have passes := (checked.fieldsPass named).used
    rw [BlockContent.field] at used
    cases found : spec.content.fields.get? "VAR" with
    | none =>
      rw [found] at used
      cases used
    | some value =>
      rw [found] at used
      obtain rfl : value = .text name := used
      simpa [Json.isNonEmptyText] using passes _ found
  have inside : { name } ∈ top.used := by
    refine (top.mem_used _).mpr ⟨spec, isHead, ?_⟩
    rw [BlockContent.used, used]
    simp [filled]
  have declared : lower name ∈ ws.declared.map fun known => lower known.name := by
    rw [loads.declared]
    exact declared_of_wanted (v := { name })
      (List.mem_append_right _ (List.mem_flatMap.mpr ⟨top, among, inside⟩))
  refine (emitter.lists_start ws).2.isSome_listedName? ?_
  rwa [List.map_map]

/-- What is emitted for a loaded workspace is what is emitted if the identifiers of variables are read off the
list, and the definition of the variables stays as it is. -/
theorem Emitter.agree_emitTops_listing (templates : emitter.templates = knownTemplates)
    (loaded : loadWorkspace strict oneBased data = .ok ws) (proper : data.All Json.IsProper) :
    (Coupling.listing (emitter.identifier? ws) (emitter.start ws).declaration?).Agree (SameText false)
      (emitter.emitTops ws) ((emitter.listing (emitter.identifier? ws)).emitTops ws) := by
  obtain ⟨document, described, _, loads⟩ := loads_of_loadWorkspace loaded
  obtain ⟨order, ordered, perm⟩ := exists_orderedTopBlocks? (loads.placed described proper)
  refine Coupling.agree_emitTops_each ordered ordered fun b among => ?_
  have isTop := perm.mem_iff.mp among
  obtain ⟨top, inside, hasTop⟩ := loads.top isTop
  have restates : top.Restates (fun spec other => other = spec ∧ spec.Uses (emitter.identifier? ws)) top :=
    (loads.builds top inside).2.2.restates_self fun spec isHead =>
      ⟨rfl, loads.uses described proper top inside spec isHead⟩
  refine loads.agree_tops described proper (emitters_listing templates) templates rfl
    (fun {spec other} related => ?_)
    (fun {spec other} related asValue => ?_) inside hasTop hasTop isTop restates
  · obtain ⟨rfl, _⟩ := related
    exact ⟨rfl, fun _ => rfl⟩
  · obtain ⟨rfl, uses⟩ := related
    exact ⟨rfl, uses⟩

/-- In the pass over a loaded workspace, every variable is declared once, and used under the identifier under
which it is declared. -/
theorem Emitter.declares_of_loadWorkspace (templates : emitter.templates = knownTemplates)
    (loaded : loadWorkspace strict oneBased data = .ok ws) (proper : data.All Json.IsProper) :
    emitter.Declares ws := by
  obtain ⟨consistent, lists⟩ := emitter.lists_start ws
  obtain ⟨document, described, _, loads⟩ := loads_of_loadWorkspace loaded
  have distinct : ((ws.declared.map (·.name)).map lower).Nodup := by
    rw [List.map_map, loads.declared]
    exact nodup_declareAll (by simp)
  have agree := Emitter.agree_emitTops_listing templates loaded proper
  have start : (emitter.listing (emitter.identifier? ws)).start ws = emitter.start ws :=
    Coupling.start_eq rfl rfl rfl
  have passes : (Coupling.listing (emitter.identifier? ws) (emitter.start ws).declaration?).Passes
      (emitter.start ws)
      ((emitter.listing (emitter.identifier? ws)).start ws) := by
    rw [start]
    exact .refl (emitter.sound_start ws) ⟨rfl, fun name identifier listed => (lists.of_listedName? listed).2⟩
  refine ⟨?_, lists.nodup consistent distinct, emitter.declaration?_start ws, fun code last yields => ?_,
    fun b inside => ?_, ?_,
    fun name other identifier another listed listedOther => ?_⟩
  · have each := lists.map_listedName? distinct
    rwa [List.map_map] at each
  · obtain ⟨_, _, _, _, after⟩ := agree.yields passes yields
    exact after.keeps.1
  · obtain ⟨spec, among, _, _, renders⟩ := exists_related loads.blocks (List.mem_range.mpr inside)
    obtain ⟨top, isTop, isHead⟩ := List.mem_flatMap.mp among
    rw [renders.content]
    exact loads.uses described proper top isTop spec isHead
  · exact (Coupling.eq_of_sameResult rfl rfl rfl (Coupling.sameResult_source rfl agree passes)).symm
  · exact ⟨(lists.of_listedName? listed).1, lists.listedName?_inj consistent listed listedOther⟩

/-- A total that is declared in lower case is set to a variable with a reserved name. A variable with the
default name is changed. -/
theorem Emitter.declares_total :
    let word := Json.object [("type", .text "variables_get"), ("fields", .object [("VAR", .text "for")])]
    let changed := Json.object [("type", .text "math_change")]
    let set := Json.object [("type", .text "variables_set"), ("fields", .object [("VAR", .text "Total")]),
      ("inputs", .object [("VALUE", word)]),
      ("next", changed)]
    let data :=
      Json.object [("name", .text "totals"), ("variables", .list [.object [("name", .text "total")]]),
        ("blocks", .list [set])]
    let emitter : Emitter := { strict := true }
    ∃ ws, loadWorkspace true none data = .ok ws ∧ data.All Json.IsProper ∧ emitter.Declares ws := by
  intro word changed set data emitter
  have proper : data.All Json.IsProper := by
    simp [data, set, changed, word, Json.All, Json.AllMembers, Json.AllItems, Json.IsProper, Table.keys]
  have loads : (loadWorkspace true none data).toOption.any fun _ => true := by decide +kernel
  obtain ⟨ws, loaded, _⟩ := exists_ok_of_any loads
  exact ⟨ws, loaded, proper, Emitter.declares_of_loadWorkspace rfl loaded proper⟩

end Loads

end BlockCompiler
