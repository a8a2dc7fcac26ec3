import BlockCompiler.Proofs.Emission.Sound
import BlockCompiler.Proofs.Name.Listed

/-!
The course of a pass: what its definitions are, and what stays as it goes on. Names that were handed out stay
so, the helper function is under a name of its own, and only the definition of a procedure changes what stands
under the key of a procedure.
-/

namespace BlockCompiler

namespace Registry

variable {registry : Registry}

theorem prefix_firstFree (base : String) (fuel i : Nat) :
    base.toList <+: (registry.firstFree base fuel i).toList := by
  induction fuel generalizing i with
  | zero => simp [firstFree]
  | succ fuel ih =>
    rw [firstFree]
    split_ifs
    · simp
    · exact ih (i + 1)

/-- A fresh identifier for a name leads with the one that the name would have if it were free. -/
theorem prefix_distinctName (unled : registry.variableLead = "") (name : String) (category : NameCategory) :
    (safeName name).toList <+: (registry.distinctName name category).1.toList := by
  have led : (registry.allocate name).2.leadOf category = "" := leadOf_of_unled unled category
  simp only [distinctName, led, String.empty_append]
  unfold allocate candidate
  dsimp only
  split_ifs
  · exact List.prefix_refl _
  · exact prefix_firstFree _ _ _

end Registry

/-- The headers that sources include. -/
def knownHeaders : List String := ["cmath", "iostream", "cstdlib"]

/-- The key under which a procedure is defined. -/
def procedureKey (name : String) : String := "%" ++ name

namespace Pass

/-- What may stand among the definitions: the variables, the headers, the helper function, and procedures. -/
inductive IsEntry (pass : Pass) : String × String → Prop
  | declaration {names} (words : ∀ name ∈ names, IsName name.toList) :
      IsEntry pass ("variables", "var " ++ joinTexts ", " names ++ ";")
  | header {name} (among : name ∈ knownHeaders) :
      IsEntry pass ("include_" ++ name, "#include <" ++ name ++ ">")
  | helper {name} (defined : pass.randomInt? = some name) :
      IsEntry pass (randomIntName, Emission.sourceUnder name Template.randomIntSource)
  | procedure {name text} : IsEntry pass (procedureKey name, text)

/-- What holds of a pass between two steps. -/
structure Settled (pass : Pass) : Prop where
  sound : pass.Sound
  names : pass.names.Consistent
  apart : ∀ name, pass.randomInt? = some name → pass.names.Private name ∧ randomIntName.toList <+: name.toList
  distinct : pass.definitions.keys.Nodup
  entries : ∀ entry ∈ pass.definitions, pass.IsEntry entry

/-- What an earlier state of a pass has in common with a later one. -/
structure Precedes (before after : Pass) : Prop where
  grows : before.Grows after
  taken : ∀ name ∈ before.names.taken, name ∈ after.names.taken
  privates : ∀ name, before.names.Private name → after.names.Private name
  fresh : ∀ name, after.randomInt? = some name → before.randomInt? = some name ∨ name ∉ before.names.taken
  has : ∀ key, before.definitions.has key → after.definitions.has key

/-- Under the key of each procedure stands the same in both states of a pass. -/
def SameProcedures (before after : Pass) : Prop :=
  ∀ name, after.definitions.get? (procedureKey name) = before.definitions.get? (procedureKey name)

/-- A counter has a name that was handed out and is not that of the helper function. -/
def IsCounter (pass : Pass) (name : String) : Prop := name ∈ pass.names.taken ∧ pass.randomInt? ≠ some name

/-- A name has been handed out between two states of a pass, for itself alone. It leads with the one that was
wanted. -/
structure Mints (before after : Pass) (wanted name : String) : Prop where
  isName : IsName name.toList
  fresh : name ∉ before.names.taken
  isPrivate : after.names.Private name
  isCounter : after.IsCounter name
  leads : (safeName wanted).toList <+: name.toList

variable {s t u : Pass}

theorem Precedes.refl : s.Precedes s :=
  ⟨.refl, fun _ member => member, fun _ isPrivate => isPrivate, fun _ defined => .inl defined,
    fun _ has => has⟩

theorem Precedes.trans (first : s.Precedes t) (second : t.Precedes u) : s.Precedes u := by
  refine ⟨first.grows.trans second.grows, fun name member => second.taken name (first.taken name member),
    fun name isPrivate => second.privates name (first.privates name isPrivate), fun name defined => ?_,
    fun key has => second.has key (first.has key has)⟩
  rcases second.fresh name defined with earlier | untaken
  · exact first.fresh name earlier
  · exact .inr fun member => untaken (first.taken name member)

theorem IsCounter.later {name : String} (isCounter : s.IsCounter name) (precedes : s.Precedes t) :
    t.IsCounter name := by
  refine ⟨precedes.taken name isCounter.1, fun defined => ?_⟩
  rcases precedes.fresh name defined with earlier | untaken
  · exact isCounter.2 earlier
  · exact untaken isCounter.1

theorem Mints.later {wanted name : String} (mints : s.Mints t wanted name) (precedes : t.Precedes u) :
    s.Mints u wanted name :=
  ⟨mints.isName, mints.fresh, precedes.privates name mints.isPrivate,
    mints.isCounter.later precedes, mints.leads⟩

theorem Mints.earlier {wanted name : String} (mints : t.Mints u wanted name) (precedes : s.Precedes t) :
    s.Mints u wanted name :=
  ⟨mints.isName, fun taken => mints.fresh (precedes.taken name taken), mints.isPrivate,
    mints.isCounter, mints.leads⟩

theorem IsEntry.later {entry : String × String} (isEntry : s.IsEntry entry)
    (kept : ∀ name, s.randomInt? = some name → t.randomInt? = some name) : t.IsEntry entry := by
  cases isEntry with
  | declaration words => exact .declaration words
  | header among => exact .header among
  | helper defined => exact .helper (kept _ defined)
  | procedure => exact .procedure

/-- A call to the registry changes nothing but names. -/
theorem Settled.call (settled : s.Settled) {call : RegistryCall} {answer : Option String} {names : Registry}
    (step : s.names.Step call answer names) (plain : names.Plain) :
    Settled { s with names } ∧ s.Precedes { s with names } ∧ s.SameProcedures { s with names } :=
  ⟨⟨⟨plain, settled.sound.helper⟩, step.consistent settled.names,
      fun name defined => ⟨step.private_stays (settled.apart name defined).1, (settled.apart name defined).2⟩,
      settled.distinct,
      fun entry member => (settled.entries entry member).later fun _ defined => defined⟩,
    ⟨⟨fun _ _ found => step.assigned_stays found, fun _ defined => defined, rfl⟩,
      fun _ member => step.taken_grows member,
      fun _ isPrivate => step.private_stays isPrivate, fun _ defined => .inl defined, fun _ has => has⟩,
      fun _ => rfl⟩

theorem randomInt?_define {key text : String} (other : key ≠ randomIntName) :
    (s.define key text).randomInt? = s.randomInt? := by
  simp [randomInt?, define, Table.has_set, other]

/-- A definition that is not the helper function changes nothing but what stands under its key. -/
theorem Settled.define (settled : s.Settled) {key : String} (text : String) (other : key ≠ randomIntName)
    (isEntry : (s.define key text).IsEntry (key, text)) :
    (s.define key text).Settled ∧ s.Precedes (s.define key text) := by
  have same := @randomInt?_define s key text other
  refine ⟨⟨⟨settled.sound.names, fun has => ?_⟩, settled.names,
    fun name defined => settled.apart name (same ▸ defined),
    Table.nodup_set settled.distinct, fun entry member => ?_⟩,
    ⟨⟨fun _ _ found => found, fun name found => same.trans found, rfl⟩, fun _ member => member,
      fun _ isPrivate => isPrivate,
      fun name defined => .inl (same ▸ defined), fun key' has => ?_⟩⟩
  · rw [same]
    apply settled.sound.helper
    simpa [Pass.define, Table.has_set, other] using has
  · rcases Table.mem_set member with rfl | earlier
    · exact isEntry
    · exact (settled.entries entry earlier).later fun name defined => same.trans defined
  · rw [Pass.define, Table.has_set, has, Bool.or_true]

end Pass

/-- An emission that starts in a settled pass, and comes to an end, leaves a settled pass that goes on from
there with the same procedures. -/
def Gives {α : Type} (x : Emission α) (s : Pass) (Wanted : α → Pass → Prop) : Prop :=
  s.Settled → Runs (fun _ => True) x s fun a t => t.Settled ∧ s.Precedes t ∧ s.SameProcedures t ∧ Wanted a t

section Gives

variable {α β : Type} {x : Emission α} {f : α → Emission β} {s : Pass} {Wanted Other : α → Pass → Prop}
  {Last : β → Pass → Prop}

theorem Gives.bind (first : Gives x s Wanted)
    (second : ∀ a t, s.Precedes t → Wanted a t → Gives (f a) t Last) :
    Gives (x >>= f) s Last := by
  intro settled
  refine (first settled).bind ?_
  rintro a t ⟨settledThere, precedes, same, wanted⟩
  refine (second a t precedes wanted settledThere).imp ?_
  rintro b u ⟨settledLast, later, sameLast, last⟩
  exact ⟨settledLast, precedes.trans later, fun name => (sameLast name).trans (same name), last⟩

theorem gives_return {a : α} (holds : Wanted a s) : Gives (pure a) s Wanted :=
  fun settled => runs_pure ⟨settled, .refl, fun _ => rfl, holds⟩

theorem gives_throw {error : EmissionError} : Gives (throw error : Emission α) s Wanted :=
  fun _ => runs_throw trivial

theorem gives_get {Here : Pass → Pass → Prop} (holds : Here s s) : Gives (get : Emission Pass) s Here :=
  fun settled => runs_get ⟨settled, .refl, fun _ => rfl, holds⟩

theorem Gives.imp (gives : Gives x s Wanted) (weaker : ∀ a t, s.Precedes t → Wanted a t → Other a t) :
    Gives x s Other := by
  intro settled
  refine (gives settled).imp ?_
  rintro a t ⟨settledThere, precedes, same, wanted⟩
  exact ⟨settledThere, precedes, same, weaker a t precedes wanted⟩

/-- Results of some items, one after the other: of each something holds between the states before and after
it. -/
inductive Linked (Each : α → Pass → Pass → β → Prop) : List α → Pass → Pass → List β → Prop
  | nil {r : Pass} : Linked Each [] r r []
  | cons {item result items results} {r t u : Pass} (first : Each item r t result) (precedes : r.Precedes t)
      (rest : Linked Each items t u results) : Linked Each (item :: items) r u (result :: results)

/-- One step for each item. -/
theorem gives_mapM_linked {g : α → Emission β} {Each : α → Pass → Pass → β → Prop} (items : List α)
    (each : ∀ a ∈ items, ∀ s, Gives (g a) s fun b t => Each a s t b) :
    Gives (items.mapM g) s fun results t => Linked Each items s t results := by
  induction items generalizing s with
  | nil => exact gives_return .nil
  | cons item items ih =>
    rw [List.mapM_cons]
    refine (each item (List.mem_cons_self ..) s).bind fun result t precedes wanted => ?_
    refine (ih fun a among => each a (List.mem_cons_of_mem _ among)).bind fun results u _ others => ?_
    exact gives_return (.cons wanted precedes others)

theorem Linked.precedes {Each : α → Pass → Pass → β → Prop} {items : List α} {results : List β} {t : Pass}
    (linked : Linked Each items s t results) : s.Precedes t := by
  induction linked with
  | nil => exact .refl
  | cons _ precedes _ ih => exact precedes.trans ih

/-- What holds of each result must stay as the pass goes on. -/
theorem Linked.forall₂ {Each : α → β → Pass → Prop} {items : List α} {results : List β} {t : Pass}
    (linked : Linked (fun a _ t b => Each a b t) items s t results)
    (later : ∀ a b s t, s.Precedes t → Each a b s → Each a b t) :
    List.Forall₂ (fun a b => Each a b t) items results := by
  induction linked with
  | nil => exact .nil
  | cons first _ rest ih => exact .cons (later _ _ _ _ rest.precedes first) ih

/-- One step for each item: what is wanted of each must stay as the pass goes on. -/
theorem gives_mapM {g : α → Emission β} {Each : α → β → Pass → Prop} (items : List α)
    (each : ∀ a ∈ items, ∀ s, Gives (g a) s (Each a))
    (later : ∀ a b s t, s.Precedes t → Each a b s → Each a b t) :
    Gives (items.mapM g) s fun results t => List.Forall₂ (fun a b => Each a b t) items results :=
  (gives_mapM_linked items each).imp fun _ _ _ linked => linked.forall₂ later

end Gives

namespace Emission

variable {s : Pass}

theorem gives_textOf {value : Json} : Gives (textOf value) s fun text t => value = .text text ∧ t = s := by
  unfold textOf
  split
  · exact gives_return ⟨rfl, rfl⟩
  · exact gives_throw

theorem gives_ofCount {α : Type} {result : Except CountError α} :
    Gives (ofCount result) s fun value t => result = .ok value ∧ t = s := by
  cases result with
  | ok => exact gives_return ⟨rfl, rfl⟩
  | error => exact gives_throw

theorem gives_ofNumeral {α : Type} {result : Except NumeralError α} :
    Gives (ofNumeral result) s fun value t => result = .ok value ∧ t = s := by
  cases result with
  | ok => exact gives_return ⟨rfl, rfl⟩
  | error => exact gives_throw

/-- What is chosen for a field is one of the choices. -/
theorem gives_choose {α : Type} {choices : List (String × α)} {field : Json} :
    Gives (choose choices field) s fun choice t => (∃ word, (word, choice) ∈ choices) ∧ t = s := by
  unfold choose
  split
  · rename_i word
    split
    · rename_i choice found
      obtain ⟨before, after, rfl, _⟩ := List.lookup_eq_some_iff.mp found
      exact gives_return ⟨⟨word, by simp⟩, rfl⟩
    · exact gives_throw
  · exact gives_throw
  · exact gives_throw
  · exact gives_throw

/-- The identifier of a name is a word, and belongs to the name from now on. -/
theorem gives_getName (name : String) (category : NameCategory) :
    Gives (getName name category) s fun text t =>
      IsName text.toList ∧ t.names.assigned.get? (nameKey name category) = some text := by
  intro settled
  obtain ⟨plain, isName, assigned, _⟩ := settled.sound.names.getName name category
  have step := Registry.call_step settled.names.unled (.get name category)
  obtain ⟨settledThere, precedes, same⟩ := settled.call step plain
  have yields : Yields (getName name category) s (s.names.getName name category).1
      { s with names := (s.names.getName name category).2 } := rfl
  exact yields.runs ⟨settledThere, precedes, same, isName, assigned⟩

theorem gives_distinctName (name : String) (category : NameCategory) :
    Gives (distinctName name category) s fun text t => s.Mints t name text := by
  intro settled
  obtain ⟨plain, isName, _⟩ := settled.sound.names.distinctName name category
  have step := Registry.call_step settled.names.unled (.distinct name category)
  obtain ⟨settledThere, precedes, same⟩ := settled.call step plain
  have yields : Yields (distinctName name category) s (s.names.distinctName name category).1
      { s with names := (s.names.distinctName name category).2 } := rfl
  refine yields.runs ⟨settledThere, precedes, same, isName, step.distinct_fresh,
    step.distinct_private settled.names,
    ⟨step.answer_taken settled.names, fun defined => ?_⟩,
    Registry.prefix_distinctName settled.names.unled name category⟩
  exact step.distinct_fresh (settled.apart _ defined).1.1

/-- A block of a type that no template is for is remembered, and nothing else of the pass changes. -/
theorem gives_placeholder {type : String} :
    Gives (modify fun pass : Pass => { pass with placeholders := type :: pass.placeholders } : Emission PUnit)
    s fun _ _ => True :=
  fun settled => runs_modify
      ⟨⟨⟨settled.sound.names, settled.sound.helper⟩, settled.names, settled.apart, settled.distinct,
      fun entry member => (settled.entries entry member).later fun _ defined => defined⟩,
    ⟨⟨fun _ _ found => found, fun _ defined => defined, rfl⟩, fun _ member => member,
      fun _ isPrivate => isPrivate,
      fun _ defined => .inl defined, fun _ has => has⟩, fun _ => rfl, trivial⟩

theorem procedureKey_ne {name key : String} (other : key.toList.head? ≠ some '%') :
    procedureKey name ≠ key := by
  rintro rfl
  exact other (by simp [procedureKey])

/-- A header is included from now on. -/
theorem gives_includeHeader (header : String) (among : header ∈ knownHeaders) :
    Gives (includeHeader header) s fun _ t => t.definitions.has ("include_" ++ header) := by
  intro settled
  have first : ∀ name : String, ("include_" ++ name).toList.head? = some 'i' := fun name => by simp
  have other : "include_" ++ header ≠ randomIntName := by
    intro same
    have headed := congrArg (fun key : String => key.toList.head?) same
    simp only [first] at headed
    cases headed
  obtain ⟨settledThere, precedes⟩ := settled.define _ other (.header among)
  refine runs_modify ⟨settledThere, precedes, fun name => ?_, ?_⟩
  · have apart : "include_" ++ header ≠ procedureKey name := (procedureKey_ne (by rw [first]; decide)).symm
    exact (Table.get?_set ..).trans (if_neg apart)
  · exact (Table.has_set ..).trans (Bool.or_eq_true _ _ ▸ .inl (decide_eq_true rfl))

/-- The helper function is defined from now on, under a name that is a word. -/
theorem gives_provideFunction :
    Gives (provideFunction randomIntName Template.randomIntSource) s fun text t => IsName text.toList ∧
    t.randomInt? = some text := by
  intro settled
  cases defined : s.definitions.has randomIntName with
  | true =>
    obtain ⟨name, helper, isName⟩ := settled.sound.helper defined
    have known : s.functions.get? randomIntName = some name := by
      rwa [Pass.randomInt?, if_pos defined] at helper
    exact (yields_provideFunction_known defined known).runs ⟨settled, .refl, fun _ => rfl, isName, helper⟩
  | false =>
    obtain ⟨plain, isName, _⟩ := settled.sound.names.distinctName randomIntName .procedure
    have step := Registry.call_step settled.names.unled (.distinct randomIntName .procedure)
    have leads := Registry.prefix_distinctName settled.names.unled randomIntName .procedure
    have safe : safeName randomIntName = randomIntName := by decide
    have yields := @yields_provideFunction_new s randomIntName Template.randomIntSource defined
    obtain ⟨settledNames, precedesNames, _⟩ := settled.call step plain
    have isPrivate := step.distinct_private settled.names
    have isFresh := step.distinct_fresh
    simp only [BlockCompiler.Registry.call] at settledNames precedesNames isPrivate
    rw [safe] at leads
    generalize (s.names.distinctName randomIntName .procedure).1 =
      name at yields isName leads isPrivate isFresh
    generalize (s.names.distinctName randomIntName .procedure).2 =
      names at yields settledNames precedesNames isPrivate
    have helper : Pass.randomInt? { s with
        names
        functions := s.functions.set randomIntName name
        definitions := s.definitions.set randomIntName (sourceUnder name Template.randomIntSource) } =
        some name := by
      simp [Pass.randomInt?, Table.has_set, Table.get?_set]
    have none : s.randomInt? = none := by rw [Pass.randomInt?, defined]; rfl
    refine yields.runs
      ⟨⟨⟨settledNames.sound.names, fun _ => ⟨name, helper, isName⟩⟩, settledNames.names,
      fun other found => ?_,
      Table.nodup_set settled.distinct, fun entry member => ?_⟩,
      ⟨⟨precedesNames.grows.names, fun other found => ?_, rfl⟩, precedesNames.taken, precedesNames.privates,
        fun other found => ?_,
        fun key has => ?_⟩,
      fun other => ?_, isName, helper⟩
    · cases helper.symm.trans found
      exact ⟨isPrivate, leads⟩
    · rcases Table.mem_set member with rfl | earlier
      · exact .helper helper
      · refine (settled.entries entry earlier).later fun other found => ?_
        rw [none] at found
        cases found
    · rw [none] at found
      cases found
    · cases helper.symm.trans found
      exact .inr isFresh
    · exact (Table.has_set ..).trans (by rw [has, Bool.or_true])
    · exact (Table.get?_set ..).trans (if_neg (procedureKey_ne (by decide)).symm)

end Emission

end BlockCompiler
