import BlockCompiler.Proofs.Emission.Sound
import BlockCompiler.Proofs.Text.Commented

/-!
Two passes side by side. They know the same names, and their definitions are the same texts, with comments in
those of the first pass where the comparison allows it. Steps that agree give outcomes that correspond, or
fail alike.
-/

namespace BlockCompiler

/-- A type that is not known, and that a comment of one line can name. -/
def IsUnknown (type : String) : Prop := BlockKind.ofName? type = none ∧ '\n' ∉ type.toList

/-- Two heads of blocks are the same up to the order of fields and of what is in the mutation. Where extra
comments are allowed, the first has all and the other none. Where types may differ besides, the two are of the
same type, or of unknown ones. -/
structure BlockHead.Alike (extra retypes : Bool) (head other : BlockHead) : Prop where
  type : other.type = head.type ∨ extra ∧ retypes ∧ IsUnknown head.type ∧ IsUnknown other.type
  disabled : other.disabled = head.disabled
  hasOutput : other.hasOutput = head.hasOutput
  inline : other.inline = head.inline
  field : ∀ name, other.field name = head.field name
  mutation : ∀ key, other.mutation.get? key = head.mutation.get? key
  comment : other.comment = if extra then none else head.comment

theorem BlockHead.alike_of_eq {head other : BlockHead} (same : other = head) :
    head.Alike false false other := by
  subst same
  exact ⟨.inl rfl, rfl, rfl, rfl, fun _ => rfl, fun _ => rfl, rfl⟩

theorem BlockHead.alike_uncommented {head other : BlockHead} (same : other = { head with comment := none }) :
    head.Alike true false other := by
  subst same
  exact ⟨.inl rfl, rfl, rfl, rfl, fun _ => rfl, fun _ => rfl, rfl⟩

/-- Two heads that are alike are of one kind. -/
theorem BlockHead.Alike.kind {extra retypes : Bool} {head other : BlockHead}
    (alike : head.Alike extra retypes other) :
    BlockKind.ofName? other.type = BlockKind.ofName? head.type := by
  rcases alike.type with same | ⟨_, _, here, there⟩
  · rw [same]
  · rw [here.1, there.1]

/-- The definition of the variables of a workspace, if a pass has one. -/
def Pass.declaration? (pass : Pass) : Option String := pass.definitions.get? "variables"

/-- Where two runs count from the same number, no block is kept from taking elements. -/
theorem same_bases (head : BlockHead) :
    (id : Bool → Bool) = id ∨ BlockKind.ofName? head.type ≠ some .getIndex := .inl rfl

/-- How two runs are compared: whether the first may have comments and disabled blocks that the second has
not, whether it may fail where the second goes on, whether unknown types may differ, from which number the
second counts, given that of the first, which heads of blocks correspond, and what the first pass keeps to. No
block takes an element where the runs count differently. -/
structure Coupling where
  extra : Bool
  skips : Bool
  lax : Bool := false
  retypes : Bool := false
  counts : Bool → Bool := id
  Heads : BlockHead → BlockHead → Prop
  Keeps : Pass → Prop
  alike : ∀ {head other}, Heads head other → head.Alike extra retypes other
  keeps : ∀ {s t : Pass}, Keeps s → s.Grows t → t.declaration? = s.declaration? → Keeps t
  unread : ∀ {head other}, Heads head other → counts = id ∨ BlockKind.ofName? head.type ≠ some .getIndex := by
    exact fun _ => same_bases _

/-- Where nothing is asked of the first pass, nothing gets lost as it goes on. -/
theorem keeps_nothing {s t : Pass} (_ : True) (_ : s.Grows t) (_ : t.declaration? = s.declaration?) : True :=
  trivial

/-- Two texts are the same, up to comments where these are allowed. -/
def SameText (extra : Bool) (text other : String) : Prop := Commented extra true text.toList other.toList

theorem SameText.refl {extra : Bool} (text : String) : SameText extra text text := Commented.refl ..

/-- Two definitions have the same key and the same text, and both import something or none does. -/
structure SameDefinition (extra : Bool) (entry other : String × String) : Prop where
  key : other.1 = entry.1
  text : SameText extra entry.2 other.2
  isImport : isImport other.2 = isImport entry.2

section Definitions

variable {extra : Bool} {definitions others : Table String} {key code other : String}

theorem has_of_sameDefinitions (same : List.Forall₂ (SameDefinition extra) definitions others)
    (key : String) :
    others.has key = definitions.has key := by
  induction same with
  | nil => rfl
  | @cons entry other _ _ first _ ih =>
    simp only [Table.has, Table.get?, first.key] at ih ⊢
    split_ifs
    · rfl
    · exact ih

theorem sameDefinitions_set (same : List.Forall₂ (SameDefinition extra) definitions others)
    (defined : SameDefinition extra (key, code) (key, other)) :
    List.Forall₂ (SameDefinition extra) (definitions.set key code) (others.set key other) := by
  induction same with
  | nil => exact .cons defined .nil
  | @cons entry there _ _ first rest ih =>
    obtain ⟨k, v⟩ := entry
    obtain ⟨k', v'⟩ := there
    obtain rfl : k' = k := first.key
    rw [Table.set, Table.set]
    split_ifs with hit
    · subst hit
      exact .cons defined rest
    · exact .cons first ih

end Definitions

namespace Coupling

variable (c : Coupling)

/-- Two passes that are at the same point. -/
structure Passes (s t : Pass) : Prop where
  sound : s.Sound
  keeps : c.Keeps s
  names : t.names = s.names
  oneBased : t.oneBased = c.counts s.oneBased
  functions : t.functions = s.functions
  placeholders : c.retypes = false → t.placeholders = s.placeholders
  definitions : List.Forall₂ (SameDefinition c.extra) s.definitions t.definitions

/-- A pass is at the same point as what it is when it counts from the other number. -/
theorem Passes.recount {c : Coupling} {s : Pass} (sound : s.Sound) (keeps : c.Keeps s) :
    c.Passes s { s with oneBased := c.counts s.oneBased } :=
  ⟨sound, keeps, rfl, rfl, rfl, fun _ => rfl, List.forall₂_same.mpr fun _ _ => ⟨rfl, .refl _, rfl⟩⟩

theorem Passes.refl {c : Coupling} {s : Pass} (sound : s.Sound) (keeps : c.Keeps s)
    (alike : c.counts = id := by rfl) :
    c.Passes s s := by
  have passes := Passes.recount sound keeps
  rwa [alike] at passes

/-- Two errors correspond. Where blocks are left out or types differ, they need not have the same reason. -/
def Errors (error other : EmissionError) : Prop := c.skips = false → c.retypes = false → other = error

/-- Two outcomes correspond: both are values, or both are errors. Where that is allowed, only the first may be
an error. -/
inductive Outcomes {α β : Type} (Q : α → β → Prop) :
    Except EmissionError α × Pass → Except EmissionError β × Pass → Prop
  | done {a b s t} (passes : c.Passes s t) (values : Q a b) : Outcomes Q (.ok a, s) (.ok b, t)
  | failed {error other s t} (errors : c.Errors error other) : Outcomes Q (.error error, s) (.error other, t)
  | stopped {error s outcome} (lax : c.lax) : Outcomes Q (.error error, s) outcome

/-- Two steps agree: from passes at the same point, their outcomes correspond. -/
def Agree {α β : Type} (Q : α → β → Prop) (x : Emission α) (y : Emission β) : Prop :=
  ∀ s t, c.Passes s t → c.Outcomes Q (x.run s) (y.run t)

section Agree

variable {c} {α β γ δ : Type} {Q R : α → β → Prop} {Last : γ → δ → Prop} {x : Emission α} {y : Emission β}

theorem agree_pure {a : α} {b : β} (values : Q a b) : c.Agree Q (pure a) (pure b) :=
  fun _ _ passes => .done passes values

theorem agree_errors {error other : EmissionError} (errors : c.Errors error other) :
    c.Agree Q (throw error : Emission α) (throw other : Emission β) :=
  fun _ _ _ => .failed errors

theorem agree_throw {error : EmissionError} :
    c.Agree Q (throw error : Emission α) (throw error : Emission β) :=
  agree_errors fun _ _ => rfl

theorem Agree.bind {f : α → Emission γ} {g : β → Emission δ} (first : c.Agree Q x y)
    (second : ∀ a b, Q a b → c.Agree Last (f a) (g b)) : c.Agree Last (x >>= f) (y >>= g) := by
  intro s t passes
  have outcomes := first s t passes
  rw [run_bind, run_bind]
  generalize (x.run s : Except EmissionError α × Pass) = one at outcomes ⊢
  generalize (y.run t : Except EmissionError β × Pass) = another at outcomes ⊢
  cases outcomes with
  | done passes values => exact second _ _ values _ _ passes
  | failed errors => exact .failed errors
  | stopped lax => exact .stopped lax

theorem Agree.imp (agree : c.Agree Q x y) (weaker : ∀ a b, Q a b → R a b) : c.Agree R x y := by
  intro s t passes
  have outcomes := agree s t passes
  generalize (x.run s : Except EmissionError α × Pass) = one at outcomes ⊢
  generalize (y.run t : Except EmissionError β × Pass) = another at outcomes ⊢
  cases outcomes with
  | done passes values => exact .done passes (weaker _ _ values)
  | failed errors => exact .failed errors
  | stopped lax => exact .stopped lax

/-- The second step gives a value that is known. -/
theorem Agree.of_pure {b : β} (agree : c.Agree Q x (pure b)) :
    c.Agree (fun a other => other = b ∧ Q a b) x (pure b) := by
  intro s t passes
  have outcomes := agree s t passes
  have still : ((pure b : Emission β).run t : Except EmissionError β × Pass) = (.ok b, t) := rfl
  rw [still] at outcomes ⊢
  generalize (x.run s : Except EmissionError α × Pass) = one at outcomes ⊢
  cases outcomes with
  | done passes values => exact .done passes ⟨rfl, values⟩
  | stopped lax => exact .stopped lax

/-- What is known of the values that the first step yields. -/
theorem Agree.and_yields {Wanted : α → Prop} (agree : c.Agree Q x y)
    (yields : ∀ s a t, s.Sound → Yields x s a t → Wanted a) : c.Agree (fun a b => Q a b ∧ Wanted a) x y := by
  intro s t passes
  have outcomes := agree s t passes
  have known := fun a t => yields s a t passes.sound
  unfold Yields at known
  generalize (x.run s : Except EmissionError α × Pass) = one at outcomes known ⊢
  generalize (y.run t : Except EmissionError β × Pass) = another at outcomes ⊢
  cases outcomes with
  | done passes values => exact .done passes ⟨values, known _ _ rfl⟩
  | failed errors => exact .failed errors
  | stopped lax => exact .stopped lax

/-- What the first step yields is yielded by the second, up to what is allowed. -/
theorem Agree.yields (agree : c.Agree Q x y) {s t s' : Pass} (passes : c.Passes s t) {a : α}
    (yields : Yields x s a s') :
    ∃ b t', Yields y t b t' ∧ Q a b ∧ c.Passes s' t' := by
  have outcomes := agree s t passes
  unfold Yields at yields ⊢
  rw [yields] at outcomes
  generalize (y.run t : Except EmissionError β × Pass) = another at outcomes ⊢
  cases outcomes with
  | done passes values => exact ⟨_, _, rfl, values, passes⟩

/-- A step that leaves the pass alone agrees with itself. -/
theorem agree_of_still {x : Emission α} (still : (∃ a, x = pure a) ∨ ∃ error, x = throw error) :
    c.Agree (fun a b => a = b) x x := by
  rcases still with ⟨a, rfl⟩ | ⟨error, rfl⟩
  · exact agree_pure rfl
  · exact agree_throw

theorem agree_mapM {Each : α → β → Prop} {f : α → Emission γ} {g : β → Emission δ} {items : List α}
    {others : List β} (related : List.Forall₂ Each items others)
    (each : ∀ a b, Each a b → c.Agree Last (f a) (g b)) :
    c.Agree (List.Forall₂ Last) (items.mapM f) (others.mapM g) := by
  induction related with
  | nil => exact agree_pure .nil
  | cons first _ ih =>
    rw [List.mapM_cons, List.mapM_cons]
    refine (each _ _ first).bind fun result other values => ih.bind fun results rest more => ?_
    exact agree_pure (.cons values more)

end Agree

section Steps

variable {c}

theorem agree_textOf (value : Json) :
    c.Agree (fun a b => a = b) (Emission.textOf value) (Emission.textOf value) := by
  refine agree_of_still ?_
  cases value with
  | text word => exact .inl ⟨word, rfl⟩
  | _ => exact .inr ⟨_, rfl⟩

theorem agree_choose {α : Type} (choices : List (String × α)) (field : Json) :
    c.Agree (fun a b => a = b) (Emission.choose choices field) (Emission.choose choices field) := by
  refine agree_of_still ?_
  cases field with
  | text word =>
    unfold Emission.choose
    cases found : choices.lookup word with
    | some choice => exact .inl ⟨choice, by simp only [found]⟩
    | none => exact .inr ⟨_, by simp only [found]; rfl⟩
  | _ => exact .inr ⟨_, rfl⟩

theorem agree_ofCount {α : Type} (result : Except CountError α) :
    c.Agree (fun a b => a = b) (Emission.ofCount result) (Emission.ofCount result) := by
  refine agree_of_still ?_
  cases result with
  | ok value => exact .inl ⟨value, rfl⟩
  | error error => exact .inr ⟨_, rfl⟩

theorem agree_ofNumeral {α : Type} (result : Except NumeralError α) :
    c.Agree (fun a b => a = b) (Emission.ofNumeral result) (Emission.ofNumeral result) := by
  refine agree_of_still ?_
  cases result with
  | ok value => exact .inl ⟨value, rfl⟩
  | error error => exact .inr ⟨_, rfl⟩

/-- The identifier of a name is the same word in both passes. -/
theorem agree_getName (name : String) (category : NameCategory) :
    c.Agree (fun a b => a = b ∧ IsName a.toList) (Emission.getName name category)
    (Emission.getName name category) := by
  intro s t passes
  have here : Yields (Emission.getName name category) s (s.names.getName name category).1
      { s with names := (s.names.getName name category).2 } := rfl
  have there : Yields (Emission.getName name category) t (s.names.getName name category).1
      { t with names := (s.names.getName name category).2 } := by
    rw [← passes.names]
    rfl
  obtain ⟨sound, grows, isName, _⟩ :=
    (@Emission.emits_getName False s name category passes.sound).of_yields here
  rw [here, there]
  exact .done ⟨sound, c.keeps passes.keeps grows rfl, rfl, passes.oneBased, passes.functions,
    passes.placeholders,
    passes.definitions⟩ ⟨rfl, isName⟩

theorem agree_distinctName (name : String) (category : NameCategory) :
    c.Agree (fun a b => a = b) (Emission.distinctName name category)
    (Emission.distinctName name category) := by
  intro s t passes
  have here : Yields (Emission.distinctName name category) s (s.names.distinctName name category).1
      { s with names := (s.names.distinctName name category).2 } := rfl
  have there : Yields (Emission.distinctName name category) t (s.names.distinctName name category).1
      { t with names := (s.names.distinctName name category).2 } := by
    rw [← passes.names]
    rfl
  obtain ⟨sound, grows, _⟩ := (@Emission.emits_distinctName False s name category passes.sound).of_yields here
  rw [here, there]
  exact .done ⟨sound, c.keeps passes.keeps grows rfl, rfl, passes.oneBased, passes.functions,
    passes.placeholders,
    passes.definitions⟩ rfl

/-- A definition under a key of its own. -/
theorem agree_define {key code other : String} (own : key ≠ randomIntName) (apart : key ≠ "variables")
    (same : SameText c.extra code other) (imports : isImport other = isImport code) :
    c.Agree (fun _ _ => True) (Emission.define key code) (Emission.define key other) := by
  intro s t passes
  have here : Yields (Emission.define key code) s ⟨⟩ (s.define key code) := rfl
  have there : Yields (Emission.define key other) t ⟨⟩ (t.define key other) := rfl
  obtain ⟨sound, grows, _⟩ := (@Emission.emits_define False s key code own passes.sound).of_yields here
  have declares : (s.define key code).declaration? = s.declaration? := by
    rw [Pass.declaration?, Pass.define, Table.get?_set, if_neg apart, Pass.declaration?]
  rw [here, there]
  exact .done ⟨sound, c.keeps passes.keeps grows declares, passes.names, passes.oneBased, passes.functions,
    passes.placeholders, sameDefinitions_set passes.definitions ⟨rfl, same, imports⟩⟩ trivial

theorem agree_includeHeader (header : String) :
    c.Agree (fun _ _ => True) (Emission.includeHeader header) (Emission.includeHeader header) := by
  have headed : ∀ word : String, word.toList.head? ≠ some 'i' → s!"include_{header}" ≠ word := by
    rintro word differs rfl
    apply differs
    show ("include_" ++ header).toList.head? = _
    simp
  exact agree_define (headed _ (by decide)) (headed _ (by decide)) (.refl _) rfl

/-- The helper function has the same name in both passes. -/
theorem agree_provideFunction (lines : List String) :
    c.Agree (fun a b => a = b) (Emission.provideFunction randomIntName lines)
    (Emission.provideFunction randomIntName lines) := by
  intro s t passes
  have defines := has_of_sameDefinitions passes.definitions randomIntName
  cases defined : s.definitions.has randomIntName with
  | true =>
    obtain ⟨name, helper, _⟩ := passes.sound.helper defined
    have known : s.functions.get? randomIntName = some name := by
      rwa [Pass.randomInt?, if_pos defined] at helper
    have here := @Emission.yields_provideFunction_known s randomIntName lines name defined known
    have there := @Emission.yields_provideFunction_known t randomIntName lines name (defines.trans defined)
      (passes.functions ▸ known)
    rw [here, there]
    exact .done passes rfl
  | false =>
    have here := @Emission.yields_provideFunction_new s randomIntName lines defined
    have there := @Emission.yields_provideFunction_new t randomIntName lines (defines.trans defined)
    obtain ⟨sound, grows, _⟩ := (@Emission.emits_provideFunction False s lines passes.sound).of_yields here
    rw [here, there, passes.names, passes.functions]
    refine .done ⟨sound, c.keeps passes.keeps grows ?_, rfl, passes.oneBased, rfl, passes.placeholders,
      sameDefinitions_set passes.definitions ⟨rfl, .refl _, rfl⟩⟩ rfl
    rw [Pass.declaration?, Table.get?_set, if_neg (by decide), Pass.declaration?]

/-- Blocks of types that no templates are for. -/
theorem agree_placeholder {type other : String} (same : c.retypes = false → other = type) :
    c.Agree (fun _ _ => True)
    (modify fun pass : Pass => { pass with placeholders := type :: pass.placeholders } : Emission Unit)
    (modify fun pass : Pass => { pass with placeholders := other :: pass.placeholders } : Emission Unit) := by
  intro s t passes
  refine .done ⟨⟨passes.sound.names, passes.sound.helper⟩,
    c.keeps passes.keeps ⟨fun _ _ found => found, fun _ found => found, rfl⟩ rfl,
    passes.names, passes.oneBased, passes.functions, fun exact => ?_, passes.definitions⟩ trivial
  show other :: t.placeholders = type :: s.placeholders
  rw [passes.placeholders exact, same exact]

/-- The second pass counts as it is to, given the first. -/
theorem agree_get :
    c.Agree (fun a b => b.oneBased = c.counts a.oneBased) (get : Emission Pass) (get : Emission Pass) :=
  fun _ _ passes => .done passes passes.oneBased

end Steps

end Coupling

end BlockCompiler
