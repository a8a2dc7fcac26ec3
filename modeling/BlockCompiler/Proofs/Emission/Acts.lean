import BlockCompiler.Proofs.Emission.Course
import BlockCompiler.Proofs.Emission.Trees

/-!
What emissions do to a pass: whether an emission gives something or fails midway, all it has done is to define
under the keys of templates, to ask for names, to provide the helper function and to note placeholders, one
after another.
-/

namespace BlockCompiler

/-- The names that templates ask for themselves: those of counters, of counts and of the helper function. -/
def templateNames : List String := ["count", "repeat_end", randomIntName]

/-- The names for which the template of a kind asks the registry because a block says so. -/
def BlockKind.asked (kind : BlockKind) (content : BlockContent) : List String :=
  match kind with
  | .readVariable | .setVariable | .change => (content.field "VAR").asText?.toList
  | .callProcedure => (content.field "NAME").asText?.toList
  | .defineProcedure =>
    (content.field "NAME").asText?.toList ++
      ((parameters content.mutation).toOption.getD []).filterMap Json.asText?
  | _ => []

/-- The names that a block gives to variables, parameters and procedures. -/
def BlockContent.asked (content : BlockContent) : List String :=
  (BlockKind.ofName? content.type).elim [] (·.asked content)

/-- A single act on a pass. -/
inductive PassAct where
  | define (key code : String)
  | getName (name : String) (category : NameCategory)
  | distinctName (name : String) (category : NameCategory)
  | provide (wanted : String) (lines : List String)
  | note (type : String)

/-- The keys under which templates define: those of headers and of procedures. -/
def IsTemplateKey (key : String) : Prop :=
  (∃ header ∈ knownHeaders, key = "include_" ++ header) ∨ ∃ name, key = procedureKey name

namespace PassAct

/-- The emission that an act is, with the identifier that it gives. -/
def emission : PassAct → Emission (Option String)
  | define key code => (fun _ => none) <$> Emission.define key code
  | getName name category => some <$> Emission.getName name category
  | distinctName name category => some <$> Emission.distinctName name category
  | provide wanted lines => some <$> Emission.provideFunction wanted lines
  | note type =>
    (fun _ => none) <$>
      (modify fun pass => { pass with placeholders := type :: pass.placeholders } : Emission PUnit)

/-- The acts of templates, when they ask for certain names only. -/
def IsTemplates (names : String → Prop) : PassAct → Prop
  | define key _ => IsTemplateKey key
  | getName name _ | distinctName name _ => names name
  | provide wanted lines => wanted = randomIntName ∧ names wanted ∧ lines = Template.randomIntSource
  | note _ => True

end PassAct

/-- A pass after some acts, whether they succeed or fail. -/
def Pass.after (pass : Pass) (acts : List PassAct) : Pass :=
  acts.foldl (fun pass act => (act.emission.run pass : Except EmissionError (Option String) × Pass).2) pass

/-- All that one act can do: a definition takes the place of one under its key, a name has its identifier, and
a helper function is provided under a key at which nothing is defined, or has the name it was provided under.
A key at which something else is defined has no function. -/
inductive Pass.Step (s : Pass) : PassAct → Option String → Pass → Prop
  | define {key code} : Step s (.define key code) none (s.define key code)
  | getName {name category} : Step s (.getName name category) (some (s.names.getName name category).1)
      { s with names := (s.names.getName name category).2 }
  | distinctName {name category} :
      Step s (.distinctName name category) (some (s.names.distinctName name category).1)
      { s with names := (s.names.distinctName name category).2 }
  | provideKnown {wanted lines name} (defined : s.definitions.has wanted)
      (known : s.functions.get? wanted = some name) :
      Step s (.provide wanted lines) (some name) s
  | provideNew {wanted lines} (undefined : s.definitions.has wanted = false) :
      Step s (.provide wanted lines) (some (s.names.distinctName wanted .procedure).1)
        { s with
          names := (s.names.distinctName wanted .procedure).2
          functions := s.functions.set wanted (s.names.distinctName wanted .procedure).1
          definitions :=
          s.definitions.set wanted (Emission.sourceUnder (s.names.distinctName wanted .procedure).1 lines) }
  | provideForeign {wanted lines} (defined : s.definitions.has wanted)
      (unknown : s.functions.get? wanted = none) :
      Step s (.provide wanted lines) none s
  | note {type} : Step s (.note type) none { s with placeholders := type :: s.placeholders }

/-- Whatever comes of an emission, what it does are acts of templates. -/
def Emission.Follows {α : Type} (names : String → Prop) (x : Emission α) : Prop :=
  ∀ s : Pass, ∃ acts : List PassAct, (∀ act ∈ acts, act.IsTemplates names) ∧
    (x.run s : Except EmissionError α × Pass).2 = s.after acts

section Follows

open Emission (Follows)

variable {α β : Type} {names : String → Prop} {x : Emission α} {f : α → Emission β} {name : String} {s : Pass}

theorem Pass.after_append (acts more : List PassAct) : s.after (acts ++ more) = (s.after acts).after more :=
  List.foldl_append

theorem snd_run_map (g : α → β) (x : Emission α) (s : Pass) :
    ((g <$> x).run s : Except EmissionError β × Pass).2 = (x.run s : Except EmissionError α × Pass).2 := by
  rw [map_eq_pure_bind, run_bind]
  generalize (x.run s : Except EmissionError α × Pass) = outcome
  obtain ⟨result, t⟩ := outcome
  cases result <;> rfl

/-- A key at which something is defined that is no helper function gives none, and nothing changes. -/
theorem run_provideFunction_foreign {wanted : String} (defined : s.definitions.has wanted)
    (unknown : s.functions.get? wanted = none) (lines : List String) :
    (Emission.provideFunction wanted lines).run s =
    ((.error (.notAFunction wanted), s) : Except EmissionError String × Pass) := by
  unfold Emission.provideFunction
  have seen : Yields (get : Emission Pass) s s s := yields_get.mpr ⟨rfl, rfl⟩
  rw [run_bind, seen]
  simp only [defined, if_true]
  rw [run_bind, seen]
  simp only [unknown]
  rfl

/-- Each act does what acts can do. -/
theorem Pass.act_step (s : Pass) (act : PassAct) : s.Step act
    (act.emission.run s : Except EmissionError (Option String) × Pass).1.toOption.join
    (act.emission.run s : Except EmissionError (Option String) × Pass).2 := by
  have provides {wanted : String} {lines : List String} {name : String} {t : Pass}
      (yields : Yields (Emission.provideFunction wanted lines) s name t) :
      Yields (PassAct.provide wanted lines).emission s (some name) t := yields_map.mpr ⟨name, yields, rfl⟩
  cases act with
  | define => exact .define
  | getName => exact .getName
  | distinctName => exact .distinctName
  | note => exact .note
  | provide wanted lines =>
    cases defined : s.definitions.has wanted with
    | false =>
      rw [provides (Emission.yields_provideFunction_new defined)]
      exact .provideNew defined
    | true =>
      cases known : s.functions.get? wanted with
      | some name =>
        rw [provides (Emission.yields_provideFunction_known defined known)]
        exact .provideKnown defined known
      | none =>
        have fails :
            ((PassAct.provide wanted lines).emission.run s : Except EmissionError (Option String) × Pass) =
            (.error (.notAFunction wanted), s) := by
          show ((some <$> Emission.provideFunction wanted lines).run s : Except EmissionError
            (Option String) × Pass) = _
          rw [map_eq_pure_bind, run_bind, run_provideFunction_foreign defined known]
        rw [fails]
        exact .provideForeign defined known

/-- What each of some acts does to a pass, all of them do, if it can be done one after another. -/
theorem Pass.after_of_steps {R : Pass → Pass → Prop} (refl : ∀ s, R s s)
    (trans : ∀ s t u, R s t → R t u → R s u) {acts : List PassAct}
    (each : ∀ act ∈ acts, ∀ s answer t, Pass.Step s act answer t → R s t) (s : Pass) :
    R s (s.after acts) := by
  induction acts generalizing s with
  | nil => exact refl s
  | cons act rest ih =>
    obtain ⟨here, later⟩ := List.forall_mem_cons.mp each
    exact trans _ _ _ (here s _ _ (s.act_step act)) (ih later _)

/-- What a single act does is done by this act. -/
theorem follows_act (act : PassAct) {g : α → Option String} (same : act.emission = g <$> x)
    (isTemplates : act.IsTemplates names) :
    Follows names x := by
  intro s
  refine ⟨[act], by simpa using isTemplates, ?_⟩
  show _ = (act.emission.run s : Except EmissionError (Option String) × Pass).2
  rw [same, snd_run_map]

/-- What leaves the pass alone is no act at all. -/
theorem follows_of_same (same : ∀ s, (x.run s : Except EmissionError α × Pass).2 = s) : Follows names x :=
  fun s => ⟨[], by simp, same s⟩

theorem follows_pure (a : α) : Follows names (pure a) := follows_of_same fun _ => rfl

theorem follows_throw (error : EmissionError) : Follows names (throw error : Emission α) :=
  follows_of_same fun _ => rfl

theorem follows_get : Follows names (get : Emission Pass) := follows_of_same fun _ => rfl

theorem Emission.Follows.bind (first : Follows names x) (second : ∀ a, Follows names (f a)) :
    Follows names (x >>= f) := by
  intro s
  obtain ⟨acts, among, same⟩ := first s
  rw [run_bind]
  generalize (x.run s : Except EmissionError α × Pass) = outcome at same ⊢
  obtain ⟨result, t⟩ := outcome
  obtain rfl : t = s.after acts := same
  cases result with
  | error => exact ⟨acts, among, rfl⟩
  | ok a =>
    obtain ⟨more, others, later⟩ := second a (s.after acts)
    exact ⟨acts ++ more, List.forall_mem_append.mpr ⟨among, others⟩, later.trans (Pass.after_append ..).symm⟩

theorem follows_mapM {items : List α} {g : α → Emission β} (each : ∀ a ∈ items, Follows names (g a)) :
    Follows names (items.mapM g) := by
  induction items with
  | nil => exact follows_pure _
  | cons item items ih =>
    obtain ⟨here, later⟩ := List.forall_mem_cons.mp each
    rw [List.mapM_cons]
    exact here.bind fun _ => (ih later).bind fun _ => follows_pure _

theorem follows_ofCount (result : Except CountError α) : Follows names (Emission.ofCount result) := by
  cases result with
  | ok => exact follows_pure _
  | error => exact follows_throw _

theorem follows_ofNumeral (result : Except NumeralError α) : Follows names (Emission.ofNumeral result) := by
  cases result with
  | ok => exact follows_pure _
  | error => exact follows_throw _

theorem follows_choose (choices : List (String × α)) (field : Json) :
    Follows names (Emission.choose choices field) := by
  unfold Emission.choose
  split
  · split
    · exact follows_pure _
    · exact follows_throw _
  all_goals exact follows_throw _

theorem follows_define {key : String} (isKey : IsTemplateKey key) (code : String) :
    Follows names (Emission.define key code) :=
  follows_act (.define key code) rfl isKey

theorem follows_includeHeader {header : String} (known : header ∈ knownHeaders) :
    Follows names (Emission.includeHeader header) :=
  follows_define (.inl ⟨header, known, rfl⟩) _

theorem follows_getName (asked : names name) (category : NameCategory) :
    Follows names (Emission.getName name category) :=
  follows_act (.getName name category) rfl asked

theorem follows_distinctName (asked : names name) (category : NameCategory) :
    Follows names (Emission.distinctName name category) :=
  follows_act (.distinctName name category) rfl asked

theorem follows_note (type : String) :
    Follows names
    (modify fun pass => { pass with placeholders := type :: pass.placeholders } : Emission PUnit) :=
  follows_act (.note type) rfl trivial

theorem follows_provideFunction (asked : names randomIntName) :
    Follows names (Emission.provideFunction randomIntName Template.randomIntSource) :=
  follows_act (.provide randomIntName Template.randomIntSource) rfl ⟨rfl, asked, rfl⟩

/-- An emission goes on from the text of a field only if the field has one. -/
theorem follows_textOf_bind {field : Json} {g : String → Emission β}
    (each : ∀ name ∈ field.asText?.toList, Follows names (g name)) :
    Follows names (Emission.textOf field >>= g) := by
  cases field with
  | text name => exact each name (List.mem_singleton_self name)
  | _ => exact follows_of_same fun _ => rfl

/-- An emission goes on from a count only if there is one. -/
theorem follows_ofCount_bind {result : Except CountError α}
    (each : ∀ a ∈ result.toOption, Follows names (f a)) :
    Follows names (Emission.ofCount result >>= f) := by
  cases result with
  | ok a => exact each a rfl
  | error => exact follows_of_same fun _ => rfl

end Follows

/-- A site whose sockets, and what is below it, do only what templates do. -/
structure Site.Follows (names : String → Prop) (site : Site) : Prop where
  sockets : ∀ socket ∈ site.sockets, Emission.Follows names socket.code
  below : Emission.Follows names site.below

namespace Site.Follows

variable {names : String → Prop} {site : Site}

theorem value (follows : site.Follows names) (name : String) (order : Order) (default : String) :
    Emission.Follows names (site.value name order default) := by
  unfold Site.value
  split
  · rename_i found
    refine (follows.sockets _ (List.mem_of_find?_eq_some found)).bind fun output => ?_
    split
    · exact follows_pure _
    · exact follows_throw _
    · exact follows_pure _
    · exact follows_pure _
  · exact follows_pure _

theorem values (follows : site.Follows names) (stem : String) (count : Nat) (order : Order)
    (default : String) :
    Emission.Follows names (site.values stem count order default) :=
  follows_mapM fun _ _ => follows.value _ order default

theorem statements (follows : site.Follows names) (name : String) :
    Emission.Follows names (site.statements name) := by
  unfold Site.statements
  split
  · rename_i found
    refine (follows.sockets _ (List.mem_of_find?_eq_some found)).bind fun output => ?_
    dsimp only
    split_ifs <;> exact follows_pure _
  · exact follows_pure _

theorem adjusted (follows : site.Follows names) (name : String) (delta : Int) (negate : Bool)
    (order : Order) :
    Emission.Follows names (site.adjusted name delta negate order) := by
  unfold Site.adjusted
  refine follows_get.bind fun pass => (follows.value _ _ _).bind fun index => ?_
  have whole : Emission.Follows names (Site.wholeOf index) := by
    unfold Site.wholeOf
    split_ifs
    · exact follows_ofNumeral _
    · exact (follows_ofNumeral _).bind fun _ => follows_ofCount _
  cases isNumeral index with
  | true => exact whole.bind fun _ => follows_ofNumeral _
  | false => exact (follows_ofNumeral _).bind fun _ => follows_pure _

theorem finish (follows : site.Follows names) (code : String) : Emission.Follows names (site.finish code) :=
  follows.below.bind fun _ => follows_pure _

theorem follows_getVariable (given : ∀ name ∈ (site.field "VAR").asText?.toList, names name) :
    Emission.Follows names site.getVariable :=
  follows_textOf_bind fun name isText => follows_getName (given name isText) _

/-- The template of a kind asks for the names that the block gives, and for its own. -/
theorem template {kind : BlockKind} (follows : site.Follows names)
    (given : ∀ name ∈ kind.asked site.head.toBlockContent, names name)
    (own : ∀ name ∈ templateNames, names name) : Emission.Follows names (kind.template site) := by
  have nested := follows.statements
  have operand := follows.value
  cases kind with
  | number =>
    refine (follows_ofNumeral _).bind fun value => ?_
    unfold numberLiteral
    split
    · exact (follows_ofNumeral _).bind fun _ => follows_pure _
    · refine (follows_includeHeader (by decide)).bind fun _ => ?_
      split_ifs <;> exact follows_pure _
    · split
      · exact (follows_ofNumeral _).bind fun _ => follows_pure _
      · exact follows_pure _
  | arithmetic =>
    unfold BlockKind.template Template.arithmetic
    dsimp only
    split_ifs
    · exact (follows_includeHeader (by decide)).bind fun _ => (operand _ _ _).bind fun _ =>
        (operand _ _ _).bind fun _ => follows_pure _
    · exact (follows_choose _ _).bind fun _ => (operand _ _ _).bind fun _ => (operand _ _ _).bind fun _ =>
        follows_pure _
  | single =>
    unfold BlockKind.template Template.single
    dsimp only
    split_ifs
    · exact (operand _ _ _).bind fun _ => follows_pure _
    · exact (follows_includeHeader (by decide)).bind fun _ => (operand _ _ _).bind fun _ =>
        (follows_choose _ _).bind fun _ => follows_pure _
  | randomInt =>
    exact (follows_includeHeader (by decide)).bind fun _ => (operand _ _ _).bind fun _ =>
      (operand _ _ _).bind fun _ =>
      (follows_provideFunction (own _ (by decide))).bind fun _ => follows_pure _
  | boolean => exact follows_pure _
  | compare =>
    exact (operand _ _ _).bind fun _ => (operand _ _ _).bind fun _ => (follows_choose _ _).bind fun _ =>
      follows_pure _
  | operation => exact (operand _ _ _).bind fun _ => (operand _ _ _).bind fun _ => follows_pure _
  | negate => exact (operand _ _ _).bind fun _ => follows_pure _
  | ternary =>
    exact (operand _ _ _).bind fun _ => (operand _ _ _).bind fun _ => (operand _ _ _).bind fun _ =>
      follows_pure _
  | text => exact follows_textOf_bind fun _ _ => follows_pure _
  | join =>
    refine (follows_ofCount _).bind fun count => ?_
    split_ifs
    · exact follows_pure _
    · exact (follows.values _ _ _ _).bind fun _ => follows_pure _
  | print =>
    exact (follows_includeHeader (by decide)).bind fun _ => (operand _ _ _).bind fun _ => follows_pure _
  | readVariable => exact (follows_getVariable given).bind fun _ => follows_pure _
  | setVariable | change =>
    exact (operand _ _ _).bind fun _ => (follows_getVariable given).bind fun _ => follows_pure _
  | branch =>
    have arm (i : Nat) : Emission.Follows names (Template.arm site i) :=
      (operand _ _ _).bind fun _ => (nested _).bind fun _ => follows_pure _
    refine (follows_mapM fun i _ => arm i).bind fun arms => ?_
    dsimp only
    split_ifs
    · exact (nested _).bind fun _ => (follows_pure _).bind fun _ => follows_pure _
    · exact (follows_pure _).bind fun _ => follows_pure _
  | repeatTimes =>
    refine (operand _ _ _).bind fun times => (nested _).bind fun body => ?_
    refine (follows_distinctName (own _ (by decide)) _).bind fun counter => ?_
    split_ifs
    · exact follows_pure _
    · exact (follows_distinctName (own _ (by decide)) _).bind fun _ => follows_pure _
  | whileUntil => exact (operand _ _ _).bind fun _ => (nested _).bind fun _ => follows_pure _
  | createList =>
    exact (follows_ofCount _).bind fun _ => (follows.values _ _ _ _).bind fun _ => follows_pure _
  | getIndex =>
    refine (operand _ _ _).bind fun items => ?_
    split_ifs
    · exact follows_pure _
    · exact follows_pure _
    · exact (follows.adjusted _ _ _ _).bind fun _ => follows_pure _
    · exact (follows.adjusted _ _ _ _).bind fun _ => follows_pure _
  | defineProcedure =>
    obtain ⟨named, others⟩ := List.forall_mem_append.mp given
    have params : Emission.Follows names (Template.parameterNames site) := by
      refine follows_ofCount_bind fun params listed => follows_mapM fun param member => ?_
      refine follows_textOf_bind fun name isText => follows_getName (others name ?_) _
      rw [show (parameters site.head.mutation).toOption = some params from listed]
      exact List.mem_filterMap.mpr ⟨param, member, by simpa using isText⟩
    refine follows_textOf_bind fun name isText => (follows_getName (named name isText) _).bind fun _ => ?_
    refine params.bind fun _ => (nested _).bind fun _ => ?_
    exact (follows.finish _).bind fun _ => (follows_define (.inr ⟨_, rfl⟩) _).bind fun _ => follows_pure _
  | callProcedure =>
    refine follows_textOf_bind fun name isText => (follows_getName (given name isText) _).bind fun _ => ?_
    exact (follows_ofCount _).bind fun _ => (follows.values _ _ _ _).bind fun _ => follows_pure _

end Site.Follows

namespace Emitter

variable {names : String → Prop} {emitter : Emitter} {ws : Workspace}

/-- What stands in for a block that no template is for asks for nothing. -/
theorem follows_template (templates : emitter.templates = knownTemplates) {site : Site}
    (follows : site.Follows names) (given : ∀ name ∈ site.head.asked, names name)
    (own : ∀ name ∈ templateNames, names name) :
    Emission.Follows names (emitter.templateOf site.head.type >>= fun template => template site) := by
  unfold BlockContent.asked at given
  unfold templateOf
  rw [templates, get?_knownTemplates]
  cases named : BlockKind.ofName? site.head.type with
  | some kind =>
    rw [named] at given
    exact follows.template given own
  | none =>
    have placeholder : Emission.Follows names (Template.placeholder site) := by
      unfold Template.placeholder
      split_ifs <;> exact follows_pure _
    have noted : Emission.Follows names
        (modify fun pass => { pass with placeholders := site.head.type :: pass.placeholders } : Emission
          PUnit) :=
      follows_note _
    cases emitter.strict with
    | true => exact follows_of_same fun _ => rfl
    | false => exact noted.bind fun _ => placeholder

/-- The code of a block asks for the names that the block gives, for those of templates, and for what the
blocks below ask for. -/
theorem follows_emitSite (templates : emitter.templates = knownTemplates) {site : Site}
    (follows : site.Follows names) (given : ∀ name ∈ site.head.asked, names name)
    (own : ∀ name ∈ templateNames, names name) :
    Emission.Follows names (emitter.emitSite site) := by
  rw [emitSite_eq]
  refine (follows_template templates follows given own).bind fun output => ?_
  split
  · exact (follows.finish _).bind fun _ => follows_pure _
  · exact (follows.finish _).bind fun _ => follows_pure _
  · exact follows_pure _

mutual

/-- The code of a stack asks for the names that its blocks give, and for those of templates. -/
theorem follows_emit (templates : emitter.templates = knownTemplates)
    (own : ∀ name ∈ templateNames, names name) (stack : Stack BlockHead RowHead)
    (given : ∀ head ∈ stack.heads, ∀ name ∈ head.asked, names name) :
    Emission.Follows names (emitter.emit stack) := by
  match stack with
  | .empty =>
    rw [emit]
    exact follows_pure _
  | .block head rows next =>
    obtain ⟨here, others⟩ := List.forall_mem_cons.mp given
    obtain ⟨inside, later⟩ := List.forall_mem_append.mp others
    have below := follows_emit templates own next later
    rw [emit]
    split_ifs
    · exact below
    · exact follows_emitSite templates ⟨follows_sockets templates own rows inside, below⟩ here own

/-- The code of what is plugged into the rows of a block. -/
theorem follows_sockets (templates : emitter.templates = knownTemplates)
    (own : ∀ name ∈ templateNames, names name) (rows : Rows BlockHead RowHead)
    (given : ∀ head ∈ rows.heads, ∀ name ∈ head.asked, names name) :
    ∀ socket ∈ emitter.sockets rows, Emission.Follows names socket.code := by
  match rows with
  | .nil => simp [sockets]
  | .cons row plugged rest =>
    obtain ⟨inside, others⟩ := List.forall_mem_append.mp given
    rw [sockets]
    exact List.forall_mem_cons.mpr
      ⟨follows_emit templates own plugged inside, follows_sockets templates own rest others⟩

end


end Emitter

end BlockCompiler
