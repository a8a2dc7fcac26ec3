import BlockCompiler.Proofs.Coupling.Restated
import BlockCompiler.Proofs.Document.Stripped

/-!
Comments and names of unknown types: the source of a workspace is that of the same workspace without comments,
up to the lines of comments. Nor do the lines of code depend on the names of unknown types, as long as they
have no line feeds.
-/

namespace BlockCompiler

/-- The comparison of a run with one of the same blocks without comments. -/
def Coupling.uncommenting : Coupling where
  extra := true
  skips := false
  Heads head other := other = { head with comment := none }
  Keeps _ := True
  alike := @BlockHead.alike_uncommented
  keeps := @keeps_nothing

section Loads

variable {strict : Bool} {oneBased : Option Bool} {data : Json} {document : Document} {ws bare : Workspace}
  {emitter : Emitter}

/-- The source of a loaded workspace is that of the workspace without comments, with comment lines in it. -/
theorem Workspace.Loads.source_commented (templates : emitter.templates = knownTemplates)
    (loads : ws.Loads oneBased document)
    (loadsBare : bare.Loads oneBased (document.edited BlockSpec.uncommented))
    (described : document.DescribedBy strict data) (proper : data.All Json.IsProper) :
    SameResult (fun error other => other = error) (SameText true) (emitter.source ws).1
    (emitter.source bare).1 := by
  have results : SameResult Coupling.uncommenting.Errors (SameText true) (emitter.source ws).1
      (emitter.source bare).1 :=
    loads.sameResult_edited templates loadsBare described proper rfl rfl trivial rfl (fun _ => ⟨rfl, rfl⟩)
      (fun _ => rfl)
      (fun _ => ⟨rfl, fun _ => rfl⟩) fun _ _ _ => rfl
  generalize (emitter.source ws).1 = result at results ⊢
  generalize (emitter.source bare).1 = other at results ⊢
  cases results with
  | ok same => exact .ok same
  | error errors => exact .error (errors rfl rfl)

/-- The source of a loaded workspace is that of the workspace without comments, up to the lines of comments.
One has a source if the other has. -/
theorem Emitter.source_uncommented (templates : emitter.templates = knownTemplates)
    (loaded : loadWorkspace strict oneBased data = .ok ws) (proper : data.All Json.IsProper) :
    ∃ bare, loadWorkspace strict oneBased data.withoutComments = .ok bare ∧
      SameResult (fun error other => other = error)
        (fun text other => codeLines text.toList = codeLines other.toList)
        (emitter.source ws).1 (emitter.source bare).1 := by
  obtain ⟨document, bare, described, loads, loadedBare, loadsBare⟩ := exists_loads_uncommented loaded
  refine ⟨bare, loadedBare, ?_⟩
  have results := loads.source_commented templates loadsBare described proper
  generalize (emitter.source ws).1 = result at results ⊢
  generalize (emitter.source bare).1 = other at results ⊢
  cases results with
  | ok same => exact .ok (Commented.codeLines_eq same)
  | error errors => exact .error errors

/-- Words with comments of two lines are printed, and something of an unknown type is told with a comment. -/
theorem Emitter.source_uncommented_print :
    let word := Json.object [("type", .text "text"), ("comment", .text "a word\n\nand more")]
    let told :=
      Json.object [("type", .text "robot_say"), ("comment", .text "  "), ("inputs", .object [("WHAT", word)])]
    let printed :=
      Json.object [("comment", .text "first"), ("type", .text "text_print"),
        ("inputs", .object [("TEXT", word)]), ("next", told)]
    let data := Json.object [("name", .text "notes"), ("blocks", .list [printed])]
    let emitter : Emitter := { strict := true }
    ∃ ws, loadWorkspace false none data = .ok ws ∧ data.All Json.IsProper ∧
      ∃ bare, loadWorkspace false none data.withoutComments = .ok bare ∧
        SameResult (fun error other => other = error)
          (fun text other => codeLines text.toList = codeLines other.toList)
          (emitter.source ws).1 (emitter.source bare).1 := by
  intro word told printed data emitter
  have proper : data.All Json.IsProper := by
    simp [data, printed, told, word, Json.All, Json.AllMembers, Json.AllItems, Json.IsProper, Table.keys]
  have loads : (loadWorkspace false none data).toOption.any fun _ => true := by decide +kernel
  obtain ⟨ws, loaded, _⟩ := exists_ok_of_any loads
  exact ⟨ws, loaded, proper, Emitter.source_uncommented rfl loaded proper⟩

end Loads

/-- The comparison of a run with one of the same blocks without comments and without the names of unknown
types. -/
def Coupling.unnaming : Coupling where
  extra := true
  skips := false
  retypes := true
  Heads head other := other = { head with type := unnamedType head.type, comment := none } ∧
    '\n' ∉ head.type.toList
  Keeps _ := True
  alike := by
    rintro head _ ⟨rfl, oneLine⟩
    refine ⟨?_, rfl, rfl, rfl, fun _ => rfl, fun _ => rfl, rfl⟩
    cases unknown : BlockKind.ofName? head.type with
    | none =>
      exact .inr ⟨rfl, rfl, ⟨unknown, oneLine⟩, (ofName?_unnamedType _).trans unknown,
        oneLine_unnamedType unknown⟩
    | some kind => exact .inl (unnamedType_of_known (by rw [isKnownType, unknown]; rfl))
  keeps := @keeps_nothing

section Loads

variable {strict : Bool} {oneBased : Option Bool} {data : Json} {ws : Workspace} {emitter : Emitter}

/-- The source of a loaded workspace is that of the workspace without comments and without the names of
unknown types, up to the lines of comments. One has a source if the other has. -/
theorem Emitter.source_unnamed (templates : emitter.templates = knownTemplates)
    (loaded : loadWorkspace strict oneBased data = .ok ws) (proper : data.All Json.IsProper)
    (oneLine : ∀ b < ws.blocks.size, '\n' ∉ (ws.block b).type.toList) :
    ∃ bare, loadWorkspace strict oneBased data.unnamed.withoutComments = .ok bare ∧
      SameResult (fun _ _ => True) (fun text other => codeLines text.toList = codeLines other.toList)
        (emitter.source ws).1 (emitter.source bare).1 := by
  obtain ⟨document, described, distinct, loads⟩ := loads_of_loadWorkspace loaded
  have describedBare := (described.edited editsAs_unnamed).edited editsAs_uncommented
  rw [Document.edited_edited] at describedBare
  have kindred : ∀ spec : BlockSpec, spec.Kindred ((BlockSpec.uncommented ∘ BlockSpec.unnamed) spec) :=
    fun spec =>
    ⟨spec.kindred_unnamed.kind, fun _ => rfl⟩
  obtain ⟨bare, loadedBare, loadsBare⟩ := loads.exists_edited distinct describedBare (fun _ => rfl) kindred
  have contents : ∀ spec : BlockSpec, ((BlockSpec.uncommented ∘ BlockSpec.unnamed) spec).content =
      { spec.content with type := unnamedType spec.type, comment := none } := by
    intro spec
    have same := spec.content_unnamed
    exact congrArg (fun content : BlockContent => { content with comment := none }) same
  have results : SameResult Coupling.unnaming.Errors (SameText true) (emitter.source ws).1
      (emitter.source bare).1 := by
    refine loads.sameResult_edited templates loadsBare described proper rfl rfl trivial rfl
      (fun _ => ⟨rfl, rfl⟩) (fun spec => ?_)
      kindred fun spec member asValue => ⟨?_, ?_⟩
    · rw [contents]
      rfl
    · rw [BlockSpec.head, contents, (kindred spec).plug]
      rfl
    · obtain ⟨b, inside, _, _, renders⟩ := exists_related loads.blocks.flip member
      have type : (ws.block b).type = spec.content.type := congrArg BlockContent.type renders.content
      have oneLine := oneLine b (List.mem_range.mp inside)
      rwa [type] at oneLine
  refine ⟨bare, data.unnamed.withoutComments_eq ▸ loadedBare, ?_⟩
  generalize (emitter.source ws).1 = result at results ⊢
  generalize (emitter.source bare).1 = other at results ⊢
  cases results with
  | ok same => exact .ok (Commented.codeLines_eq same)
  | error => exact .error trivial

end Loads

end BlockCompiler
