import BlockCompiler.Emission.Source
import BlockCompiler.Proofs.Name.Words
import BlockCompiler.Proofs.Step
import BlockCompiler.Proofs.Tables

/-!
What holds of a pass all the time, and what stays as it goes on: identifiers are words, they keep belonging
to their names, and the helper function keeps its name.
-/

namespace BlockCompiler

/-- The name that is wanted for the helper function of random whole numbers. -/
def randomIntName : String := "math_random_int"

namespace Pass

/-- The name of the helper function of random whole numbers, once it is defined. -/
def randomInt? (pass : Pass) : Option String :=
  if pass.definitions.has randomIntName then pass.functions.get? randomIntName else none

/-- What holds of a pass all the time. -/
structure Sound (pass : Pass) : Prop where
  names : pass.names.Plain
  helper : pass.definitions.has randomIntName → ∃ name, pass.randomInt? = some name ∧ IsName name.toList

/-- What a later state of a pass still knows. -/
structure Grows (before after : Pass) : Prop where
  names : ∀ key text, before.names.assigned.get? key = some text → after.names.assigned.get? key = some text
  helper : ∀ name, before.randomInt? = some name → after.randomInt? = some name
  base : after.oneBased = before.oneBased

theorem Grows.refl {pass : Pass} : pass.Grows pass := ⟨fun _ _ found => found, fun _ found => found, rfl⟩

theorem Grows.trans {s t u : Pass} (first : s.Grows t) (second : t.Grows u) : s.Grows u :=
  ⟨fun key text found => second.names key text (first.names key text found),
    fun name found => second.helper name (first.helper name found), second.base.trans first.base⟩

end Pass

/-- A whole number has few enough digits to be written. -/
def IsWritable (value : Int) : Prop := value.natAbs < tenTo digitLimit

/-- The only error that is excused is that a whole number is too long to be written, and that only where
numbers may be long. -/
def Excused (tight : Prop) (error : EmissionError) : Prop := ¬ tight ∧ error = .numeral .tooLongToWrite

/-- An emission that starts in a sound pass ends in a sound pass that knows all that the first did. -/
def Emits {α : Type} (tight : Prop) (x : Emission α) (s : Pass) (Wanted : α → Pass → Prop) : Prop :=
  s.Sound → Runs (Excused tight) x s fun a t => t.Sound ∧ s.Grows t ∧ Wanted a t

section Emits

variable {α β : Type} {tight : Prop} {x : Emission α} {f : α → Emission β} {s : Pass}
  {Wanted Other : α → Pass → Prop} {Last : β → Pass → Prop}

theorem Emits.bind (first : Emits tight x s Wanted)
    (second : ∀ a t, s.Grows t → Wanted a t → Emits tight (f a) t Last) : Emits tight (x >>= f) s Last := by
  intro sound
  refine (first sound).bind ?_
  rintro a t ⟨soundThere, grows, wanted⟩
  refine (second a t grows wanted soundThere).imp ?_
  rintro b u ⟨soundLast, growsLast, last⟩
  exact ⟨soundLast, grows.trans growsLast, last⟩

theorem emits_pure {a : α} (holds : Wanted a s) : Emits tight (pure a) s Wanted :=
  fun sound => runs_pure ⟨sound, .refl, holds⟩

theorem Emits.imp (emits : Emits tight x s Wanted) (weaker : ∀ a t, s.Grows t → Wanted a t → Other a t) :
    Emits tight x s Other := by
  intro sound
  refine (emits sound).imp ?_
  rintro a t ⟨soundThere, grows, wanted⟩
  exact ⟨soundThere, grows, weaker a t grows wanted⟩

/-- Where an emission ends, it came from where it started. -/
theorem Emits.traced (emits : Emits tight x s Wanted) :
    Emits tight x s fun a t => Yields x s a t ∧ Wanted a t := by
  intro sound
  refine ((emits sound).and (emits sound).traced).imp ?_
  rintro a t ⟨⟨soundThere, grows, wanted⟩, yields⟩
  exact ⟨soundThere, grows, yields, wanted⟩

theorem emits_get {Here : Pass → Pass → Prop} (holds : Here s s) : Emits tight (get : Emission Pass) s Here :=
  fun sound => runs_get ⟨sound, .refl, holds⟩

theorem emits_throw {error : EmissionError} (excused : Excused tight error) :
    Emits tight (throw error : Emission α) s Wanted := fun _ => runs_throw excused

/-- One step for each item: what is wanted of each must stay as the pass goes on. -/
theorem emits_mapM {g : α → Emission β} {Each : α → β → Pass → Prop} (items : List α)
    (each : ∀ a ∈ items, ∀ s, Emits tight (g a) s (Each a))
    (later : ∀ a b s t, s.Grows t → Each a b s → Each a b t) :
    Emits tight (items.mapM g) s fun results t => List.Forall₂ (fun a b => Each a b t) items results := by
  induction items generalizing s with
  | nil => exact emits_pure .nil
  | cons item items ih =>
    rw [List.mapM_cons]
    refine (each item (List.mem_cons_self ..) s).bind fun result t _ wanted => ?_
    refine (ih fun a among => each a (List.mem_cons_of_mem _ among)).bind fun results u grows others => ?_
    exact emits_pure (.cons (later _ _ _ _ grows wanted) others)

end Emits

namespace Emission

variable {tight : Prop} {s : Pass}

/-- A definition under a key of its own changes nothing that is kept. -/
theorem emits_define {key code : String} (other : key ≠ randomIntName) :
    Emits tight (define key code) s fun _ _ => True := by
  intro sound
  have same : (s.define key code).randomInt? = s.randomInt? := by
    simp [Pass.randomInt?, Pass.define, Table.has_set, other]
  refine runs_modify ⟨⟨sound.names, ?_⟩, ⟨fun _ _ found => found, fun name found => same.trans found, rfl⟩,
    trivial⟩
  intro has
  rw [same]
  apply sound.helper
  simpa [Pass.define, Table.has_set, other] using has

theorem emits_includeHeader {header : String} : Emits tight (includeHeader header) s fun _ _ => True := by
  apply emits_define
  intro same
  have headed := congrArg (fun key : String => key.toList.head?) same
  rw [String.toList_append, List.head?_append] at headed
  cases headed

/-- The identifier of a name is a word, and belongs to the name from now on. -/
theorem emits_getName (name : String) (category : NameCategory) :
    Emits tight (getName name category) s fun text t =>
      IsName text.toList ∧ t.names.assigned.get? (nameKey name category) = some text := by
  intro sound
  obtain ⟨plain, isName, assigned, kept⟩ := sound.names.getName name category
  have yields : Yields (getName name category) s (s.names.getName name category).1
      { s with names := (s.names.getName name category).2 } := rfl
  exact yields.runs ⟨⟨plain, sound.helper⟩, ⟨kept, fun _ found => found, rfl⟩, isName, assigned⟩

theorem emits_distinctName (name : String) (category : NameCategory) :
    Emits tight (distinctName name category) s fun text _ => IsName text.toList := by
  intro sound
  obtain ⟨plain, isName, same⟩ := sound.names.distinctName name category
  have yields : Yields (distinctName name category) s (s.names.distinctName name category).1
      { s with names := (s.names.distinctName name category).2 } := rfl
  refine yields.runs ⟨⟨plain, sound.helper⟩, ⟨?_, fun _ found => found, rfl⟩, isName⟩
  intro key text found
  exact (congrArg (Table.get? · key) same).trans found

/-- The source of the helper function under a name. -/
def sourceUnder (name : String) (lines : List String) : String :=
  String.ofList (replaceFrom functionPlaceholder.toList name.toList 0 (joinTexts "\n" lines).toList)

/-- A helper function that is defined keeps its name. -/
theorem yields_provideFunction_known {wanted : String} {lines : List String} {name : String}
    (defined : s.definitions.has wanted) (known : s.functions.get? wanted = some name) :
    Yields (provideFunction wanted lines) s name s := by
  unfold provideFunction
  simp [defined, known]

/-- A helper function that is not defined is, under a fresh name. -/
theorem yields_provideFunction_new {wanted : String} {lines : List String}
    (undefined : s.definitions.has wanted = false) :
    Yields (provideFunction wanted lines) s (s.names.distinctName wanted .procedure).1
      { s with
        names := (s.names.distinctName wanted .procedure).2
        functions := s.functions.set wanted (s.names.distinctName wanted .procedure).1
        definitions :=
        s.definitions.set wanted (sourceUnder (s.names.distinctName wanted .procedure).1 lines) } := by
  unfold provideFunction
  rw [yields_get_bind, undefined]
  dsimp only
  rw [if_neg (by decide)]
  refine yields_bind.mpr ⟨_, { s with names := (s.names.distinctName wanted .procedure).2 }, rfl, ?_⟩
  refine yields_modify_bind.mpr (yields_modify_bind.mpr (yields_get_bind.mpr ?_))
  simp only [Pass.define, Table.get?_set, if_true]
  exact yields_pure.mpr ⟨rfl, rfl⟩

/-- The helper function has one name in a pass, which is a word. -/
theorem emits_provideFunction (lines : List String) :
    Emits tight (provideFunction randomIntName lines) s fun text t =>
      IsName text.toList ∧ t.randomInt? = some text := by
  intro sound
  cases defined : s.definitions.has randomIntName with
  | true =>
    obtain ⟨name, helper, isName⟩ := sound.helper defined
    have known : s.functions.get? randomIntName = some name := by
      rwa [Pass.randomInt?, if_pos defined] at helper
    exact (yields_provideFunction_known defined known).runs ⟨sound, .refl, isName, helper⟩
  | false =>
    obtain ⟨plain, isName, same⟩ := sound.names.distinctName randomIntName .procedure
    have yields := @yields_provideFunction_new s randomIntName lines defined
    generalize (s.names.distinctName randomIntName .procedure).1 = name at yields isName
    have helper : Pass.randomInt? { s with
        names := (s.names.distinctName randomIntName .procedure).2
        functions := s.functions.set randomIntName name
        definitions := s.definitions.set randomIntName (sourceUnder name lines) } = some name := by
      simp [Pass.randomInt?, Table.has_set, Table.get?_set]
    refine yields.runs ⟨⟨plain, fun _ => ⟨name, helper, isName⟩⟩, ⟨?_, ?_, rfl⟩, isName, helper⟩
    · intro key text found
      exact (congrArg (Table.get? · key) same).trans found
    · intro other found
      rw [Pass.randomInt?, defined] at found
      cases found

/-- A text that must be there is given as it is. -/
theorem emits_textOf {value : String} :
    Emits tight (textOf (.text value)) s fun text t => text = value ∧ t = s :=
  emits_pure ⟨rfl, rfl⟩

theorem emits_ofCount {α : Type} {result : Except CountError α} {value : α} (ok : result = .ok value) :
    Emits tight (ofCount result) s fun found t => found = value ∧ t = s := by
  subst ok
  exact emits_pure ⟨rfl, rfl⟩

theorem emits_ofNumeral {α : Type} {result : Except NumeralError α} {value : α} (ok : result = .ok value) :
    Emits tight (ofNumeral result) s fun found t => found = value ∧ t = s := by
  subst ok
  exact emits_pure ⟨rfl, rfl⟩

/-- Whole numbers are written unless they are too long, which none is where numbers are short. -/
theorem emits_writeWhole {value : Int} (short : tight → IsWritable value) :
    Emits tight (ofNumeral (writeWhole value)) s fun text t => text = toString value ∧
    IsWritable value ∧ t = s := by
  unfold writeWhole
  unfold IsWritable at *
  generalize tenTo digitLimit = limit at short ⊢
  by_cases long : limit ≤ value.natAbs
  · rw [if_pos long]
    exact emits_throw ⟨fun isTight => Nat.lt_irrefl _ (Nat.lt_of_lt_of_le (short isTight) long), rfl⟩
  · rw [if_neg long]
    exact emits_pure ⟨rfl, Nat.lt_of_not_le long, rfl⟩

/-- A word out of those to choose from is found. -/
theorem emits_choose {α : Type} {choices : List (String × α)} {word : String} {choice : α}
    (found : choices.lookup word = some choice) :
    Emits tight (choose choices (.text word)) s fun chosen t => chosen = choice ∧ t = s := by
  unfold choose
  simp only [found]
  exact emits_pure ⟨rfl, rfl⟩

end Emission

end BlockCompiler
