import BlockCompiler.Proofs.Emission.Acts
import BlockCompiler.Proofs.Emission.Lifted
import BlockCompiler.Proofs.Coupling.Variables

/-!
Names that are asked for: every identifier that a pass hands out comes from a name that the workspace gives to
a variable, a parameter or a procedure, or from one of the few names that templates ask for themselves. No
identifier is a reserved word, so none is a word of the language. Not all words of the standard library that
templates write are reserved: these stay apart from identifiers only as long as no name of the program leads
to them.
-/

namespace BlockCompiler

/-- Words of the language that templates write. -/
def languageWords : List String :=
  ["std", "int", "void", "true", "false", "if", "else", "for", "while", "var"]

/-- Words of the standard library that templates write as they are. -/
def libraryWords : List String := "pow" :: "INFINITY" :: Template.singleFunctions.map (·.2)

/-- A word is a base, or a base with a number from two on behind it. -/
def StemsFrom (base word : String) : Prop := word = base ∨ ∃ i, 2 ≤ i ∧ word = base ++ toString i

/-- A name that a workspace gives to a variable, a parameter or a procedure. -/
def Workspace.Asks (ws : Workspace) (name : String) : Prop :=
  (∃ known ∈ ws.declared, known.name = name) ∨ ∃ b < ws.blocks.size, name ∈ (ws.block b).asked

/-- The identifiers that were handed out when the code of all stacks of a workspace is there, or cannot be
had. -/
def Emitter.handedOut (emitter : Emitter) (ws : Workspace) : List String :=
  ((emitter.emitTops ws).run (emitter.start ws)).2.names.taken

/-- A later state of a registry has the same reserved words and all keys of the earlier one. What it handed
out since comes from certain names, and so do its new keys. -/
structure Registry.Serves (names : String → Prop) (before after : Registry) : Prop where
  reserved : after.reserved = before.reserved
  origin : ∀ word ∈ after.taken, word ∈ before.taken ∨
    word ∉ before.reserved ∧ ∃ name, names name ∧ StemsFrom (safeName name) word
  kept : before.assigned.keys ⊆ after.assigned.keys
  keys : ∀ key ∈ after.assigned.keys, key ∈ before.assigned.keys ∨
    ∃ name category, names name ∧ nameKey name category = key

namespace Registry

variable {names : String → Prop} {registry r s t : Registry} {name : String}

theorem Serves.refl : registry.Serves names registry where
  reserved := rfl
  origin _ member := .inl member
  kept _ member := member
  keys _ member := .inl member

theorem Serves.trans (first : r.Serves names s) (second : s.Serves names t) : r.Serves names t where
  reserved := second.reserved.trans first.reserved
  origin word member := by
    rcases second.origin word member with earlier | ⟨unreserved, origin⟩
    · exact first.origin word earlier
    · exact .inr ⟨first.reserved ▸ unreserved, origin⟩
  kept _ member := second.kept (first.kept member)
  keys key member := (second.keys key member).elim (first.keys key) .inr

theorem stemsFrom_firstFree (registry : Registry) (base : String) (fuel : Nat) {i : Nat} (numbered : 2 ≤ i) :
    StemsFrom base (registry.firstFree base fuel i) := by
  induction fuel generalizing i with
  | zero => exact .inr ⟨i, numbered, rfl⟩
  | succ fuel ih =>
    rw [firstFree]
    split_ifs
    · exact .inr ⟨i, numbered, rfl⟩
    · exact ih (by omega)

theorem stemsFrom_candidate (registry : Registry) (base : String) :
    StemsFrom base (registry.candidate base) := by
  unfold candidate
  split_ifs
  · exact .inl rfl
  · exact stemsFrom_firstFree registry base _ (Nat.le_refl 2)

theorem serves_allocate (asked : names name) : registry.Serves names (registry.allocate name).2 where
  reserved := rfl
  origin word member := by
    rcases List.mem_cons.mp member with rfl | earlier
    · exact .inr ⟨(registry.allocate_fresh name).2, name, asked, registry.stemsFrom_candidate (safeName name)⟩
    · exact .inl earlier
  kept _ member := member
  keys _ member := .inl member

/-- Asking for a name keeps all keys, and its own key is there afterwards. -/
theorem mem_keys_getName (registry : Registry) (name : String) (category : NameCategory) (key : String) :
    key ∈ (registry.getName name category).2.assigned.keys ↔
      key = nameKey name category ∨ key ∈ registry.assigned.keys := by
  cases assigned : registry.assigned.get? (nameKey name category) with
  | some text =>
    simp only [getName, assigned]
    refine ⟨.inr, ?_⟩
    rintro (rfl | member)
    · exact Table.has_iff_mem_keys.mp (by simp [Table.has, assigned])
    · exact member
  | none =>
    simp only [getName, assigned]
    exact Table.mem_keys_set

theorem serves_getName (asked : names name) (category : NameCategory) :
    registry.Serves names (registry.getName name category).2 := by
  have allocated := @serves_allocate names registry name asked
  have keys := registry.mem_keys_getName name category
  refine ⟨?_, ?_, fun key member => (keys key).mpr (.inr member), fun key member => ?_⟩
  · cases assigned : registry.assigned.get? (nameKey name category) with
    | some text => simp only [getName, assigned]
    | none =>
      simp only [getName, assigned]
      exact allocated.reserved
  · cases assigned : registry.assigned.get? (nameKey name category) with
    | some text =>
      simp only [getName, assigned]
      exact Serves.refl.origin
    | none =>
      simp only [getName, assigned]
      exact allocated.origin
  · exact ((keys key).mp member).symm.imp_right fun same => ⟨name, category, asked, same.symm⟩

theorem serves_distinctName (asked : names name) (category : NameCategory) :
    registry.Serves names (registry.distinctName name category).2 := serves_allocate asked

theorem serves_getNames {wanted : List String} (asked : ∀ name ∈ wanted, names name)
    (category : NameCategory) :
    registry.Serves names (registry.getNames wanted category).2 := by
  induction wanted generalizing registry with
  | nil => exact .refl
  | cons name rest ih =>
    obtain ⟨here, later⟩ := List.forall_mem_cons.mp asked
    exact (serves_getName here category).trans (ih later)

/-- The keys of names that were asked for are there afterwards. -/
theorem mem_keys_getNames {wanted : List String} (member : name ∈ wanted) (category : NameCategory) :
    nameKey name category ∈ (registry.getNames wanted category).2.assigned.keys := by
  induction wanted generalizing registry with
  | nil => cases member
  | cons first rest ih =>
    rcases List.mem_cons.mp member with rfl | later
    · have here := (registry.mem_keys_getName name category _).mpr (.inl rfl)
      exact (serves_getNames (fun _ _ => trivial : ∀ name ∈ rest, (fun _ : String => True) name)
        category).kept here
    · exact ih later

end Registry

/-- An act of a template asks the registry for certain names only. -/
theorem Pass.Step.serves {names : String → Prop} {s t : Pass} {act : PassAct} {answer : Option String}
    (step : s.Step act answer t) (isTemplates : act.IsTemplates names) : s.names.Serves names t.names := by
  cases step with
  | @getName _ category => exact Registry.serves_getName isTemplates category
  | @distinctName _ category => exact Registry.serves_distinctName isTemplates category
  | provideNew => exact Registry.serves_distinctName isTemplates.2.1 .procedure
  | define | provideKnown | provideForeign | note => exact .refl

theorem Pass.serves_after {names : String → Prop} {acts : List PassAct}
    (isTemplates : ∀ act ∈ acts, act.IsTemplates names) (s : Pass) :
    s.names.Serves names (s.after acts).names :=
  Pass.after_of_steps (R := fun s t => s.names.Serves names t.names) (fun _ => .refl) (fun _ _ _ => .trans)
    (fun act among _ _ _ step => step.serves (isTemplates act among)) s

namespace Emitter

variable {emitter : Emitter} {ws : Workspace}

/-- The pass over a workspace does what templates do, and asks for the names that the workspace gives and for
their own. -/
theorem follows_emitTops (templates : emitter.templates = knownTemplates) (ws : Workspace) :
    Emission.Follows (fun name => ws.Asks name ∨ name ∈ templateNames) (emitter.emitTops ws) := by
  have given (b : Nat) : ∀ name ∈ (ws.block b).asked, ws.Asks name := by
    intro name member
    refine .inr ⟨b, ?_, member⟩
    by_contra outside
    have missing : ws.block b = default := by simp [Workspace.block, outside]
    rw [missing] at member
    cases member
  have each (b : Nat) : Emission.Follows (fun name => ws.Asks name ∨ name ∈ templateNames)
      (emitter.emitTop ws b) := by
    have block : Emission.Follows (fun name => ws.Asks name ∨ name ∈ templateNames)
        (emitter.emitBlock ws (some b)) := by
      unfold emitBlock
      cases found : ws.stack? (some b) with
      | none => exact follows_throw _
      | some stack =>
        refine follows_emit templates (fun _ => .inr) stack fun head member => ?_
        obtain ⟨b, rfl⟩ := (Workspace.hangs_of_stack? found).heads head member
        exact fun name asked => .inl (given b name asked)
    exact block.bind fun _ => follows_pure _
  unfold emitTops
  split
  · exact follows_throw _
  · exact (follows_mapM fun b _ => each b).bind fun _ => follows_pure _

/-- At the start, the registry has been asked for the declared variables. -/
theorem serves_start (emitter : Emitter) (ws : Workspace) :
    emitter.bareStart.names.Serves (fun name => ws.Asks name ∨ name ∈ templateNames)
    (emitter.start ws).names := by
  rw [names_start]
  refine Registry.serves_getNames (fun name member => ?_) .variable
  obtain ⟨known, among, rfl⟩ := List.mem_map.mp member
  exact .inl (.inl ⟨known, among, rfl⟩)

/-- From then on, it is asked for the names that the workspace gives and for those of templates. -/
theorem serves_emitTops (templates : emitter.templates = knownTemplates) (ws : Workspace) :
    (emitter.start ws).names.Serves (fun name => ws.Asks name ∨ name ∈ templateNames)
      ((emitter.emitTops ws).run (emitter.start ws)).2.names := by
  obtain ⟨acts, isTemplates, same⟩ := follows_emitTops templates ws (emitter.start ws)
  rw [same]
  exact Pass.serves_after isTemplates _

/-- Every identifier that is handed out comes from a name that the workspace gives or that templates ask for,
and is not reserved. -/
theorem handedOut_origin (templates : emitter.templates = knownTemplates) {word : String}
    (handed : word ∈ emitter.handedOut ws) :
    emitter.bareStart.names.isReserved word = false ∧
      ∃ name, (ws.Asks name ∨ name ∈ templateNames) ∧ StemsFrom (safeName name) word := by
  have serves := (serves_start emitter ws).trans (serves_emitTops templates ws)
  rcases serves.origin word handed with earlier | ⟨unreserved, origin⟩
  · cases earlier
  · exact ⟨by simpa [Registry.isReserved] using unreserved, origin⟩

end Emitter

/-- A word of the standard library is led to by itself alone, save that the tenth word from one of them is
another. -/
theorem StemsFrom.library {base word : String} (stems : StemsFrom base word) (library : word ∈ libraryWords) :
    base = word ∨ word = "log10" ∧ base = "log" := by
  obtain rfl | ⟨i, numbered, shape⟩ := stems
  · exact .inl rfl
  right
  have endings : ∀ word ∈ libraryWords, ∀ digits ∈ word.toList.tails, digits ≠ [] →
      (∀ c ∈ digits, c.isDigit) →
      word = "log10" ∧ (digits = "0".toList ∨ digits = "10".toList) := by decide
  have chars : word.toList = base.toList ++ (toString i).toList := by rw [shape, String.toList_append]
  obtain ⟨filled, digits⟩ := areDigits_toString i
  obtain ⟨rfl, zero | ten⟩ :=
    endings word library _ ((List.mem_tails _ _).mpr ⟨base.toList, chars.symm⟩) filled digits
  · have none : i = 0 := Registry.append_toString_inj (congrArg ("" ++ ·) (String.toList_inj.mp zero))
    omega
  · refine ⟨rfl, String.toList_inj.mp ?_⟩
    rw [ten] at chars
    have same : "log".toList ++ "10".toList = base.toList ++ "10".toList := chars
    exact ((List.append_left_inj _).mp same).symm

namespace Emitter

/-- No identifier is a word of the language. A word of the standard library is an identifier only if a name
that the workspace gives to a variable, a parameter or a procedure leads to it: templates do not take such
words by themselves. -/
theorem handedOut_apart {emitter : Emitter} (templates : emitter.templates = knownTemplates)
    (reserves : reservedWords ⊆ emitter.reserved) (ws : Workspace) : ∀ word ∈ emitter.handedOut ws,
      word ∉ languageWords ∧ (word ∈ libraryWords →
        ∃ name, ws.Asks name ∧ (safeName name = word ∨ word = "log10" ∧ safeName name = "log")) := by
  intro word handed
  obtain ⟨unreserved, name, asked, stems⟩ := handedOut_origin templates handed
  refine ⟨fun language => ?_, fun library => ?_⟩
  · have reserved : ∀ word ∈ languageWords, word ∈ reservedWords ∧ word ≠ "" ∧
        String.ofList (trimEnds isBlank word.toList) = word := by decide +kernel
    obtain ⟨among, filled, trimmed⟩ := reserved word language
    have member : word ∈ emitter.bareStart.names.reserved := by
      simp only [bareStart, Registry.ofReserved, Registry.reserve, List.nil_append,
        List.mem_filter, List.mem_map]
      exact ⟨⟨word, reserves among, trimmed⟩, by simpa using filled⟩
    rw [Registry.isReserved, List.contains_iff_mem.mpr member] at unreserved
    cases unreserved
  · have leads := stems.library library
    refine ⟨name, asked.resolve_right fun own => ?_, leads.imp_right fun tenth => tenth⟩
    have apart : ∀ name ∈ templateNames, safeName name ∉ "log" :: libraryWords := by decide
    rcases leads with same | ⟨_, same⟩
    · exact apart name own (same ▸ List.mem_cons_of_mem _ library)
    · exact apart name own (same ▸ List.mem_cons_self ..)

/-- A loop over a variable that is called as a word of the language: neither the variable nor the counter
clashes. -/
theorem handedOut_apart_while :
    let read := Json.object [("type", .text "variables_get"), ("fields", .object [("VAR", .text "while")])]
    let loop := Json.object [("type", .text "controls_repeat_ext"), ("inputs", .object [("TIMES", read)])]
    let data := Json.object [("name", .text "loop"), ("blocks", .list [loop])]
    ∃ ws, loadWorkspace true none data = .ok ws ∧ reservedWords ⊆ ({ strict := true } : Emitter).reserved ∧
      ({ strict := true } : Emitter).handedOut ws = ["count", "while2"] ∧
      ∀ word ∈ ["count", "while2"], word ∉ languageWords ∧ (word ∈ libraryWords →
        ∃ name, ws.Asks name ∧ (safeName name = word ∨ word = "log10" ∧ safeName name = "log")) := by
  intro read loop data
  have loads : (loadWorkspace true none data).toOption.any fun ws =>
      ({ strict := true } : Emitter).handedOut ws = ["count", "while2"] := by decide +kernel
  obtain ⟨ws, loaded, handed⟩ := exists_ok_of_any loads
  have handed : ({ strict := true } : Emitter).handedOut ws = ["count", "while2"] := by simpa using handed
  refine ⟨ws, loaded, fun _ => id, handed, ?_⟩
  rw [← handed]
  exact handedOut_apart rfl (fun _ => id) ws

/-- A variable may clash with a function that templates write: the power is raised by the variable it is
assigned to. -/
theorem handedOut_pow :
    let power := Json.object [("type", .text "math_arithmetic"), ("fields", .object [("OP", .text "POWER")])]
    let assignment :=
      Json.object [("type", .text "variables_set"), ("fields", .object [("VAR", .text "pow")]),
      ("inputs", .object [("VALUE", power)])]
    let data := Json.object [("name", .text "w"), ("blocks", .list [assignment])]
    ∃ ws, loadWorkspace false none data = .ok ws ∧ "pow" ∈ libraryWords ∧
      "pow" ∈ ({} : Emitter).handedOut ws ∧
      (({} : Emitter).source ws).1 = .ok "#include <cmath>\n\nvar pow;\n\n\npow = pow(0, 0);\n" := by
  intro power assignment data
  have loads : (loadWorkspace false none data).toOption.any fun ws =>
      "pow" ∈ ({} : Emitter).handedOut ws ∧
        (({} : Emitter).source ws).1.toOption =
          some "#include <cmath>\n\nvar pow;\n\n\npow = pow(0, 0);\n" := by
    decide +kernel
  obtain ⟨ws, loaded, clash⟩ := exists_ok_of_any loads
  obtain ⟨handed, printed⟩ : "pow" ∈ ({} : Emitter).handedOut ws ∧
      (({} : Emitter).source ws).1.toOption =
        some "#include <cmath>\n\nvar pow;\n\n\npow = pow(0, 0);\n" := by
    simpa using clash
  refine ⟨ws, loaded, by decide, handed, ?_⟩
  cases text : (({} : Emitter).source ws).1 with
  | error error =>
    rw [text] at printed
    cases printed
  | ok source =>
    rw [text] at printed
    cases printed
    rfl

end Emitter

end BlockCompiler
