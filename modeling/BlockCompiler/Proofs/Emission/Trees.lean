import BlockCompiler.Proofs.Emission.Values

/-!
Emitting trees of value blocks: by induction on the tree, what is emitted is the code of its expression.
-/

namespace BlockCompiler

section Rows

variable {emitter : Emitter} {rows : Rows BlockHead RowHead}

/-- The socket of a name gives the code of what is in the row of the name. -/
theorem find?_sockets (emitter : Emitter) (rows : Rows BlockHead RowHead) (name : String) :
    match (emitter.sockets rows).find? (·.name = name) with
    | some socket =>
      socket.type? = (rows.at name).head?.map (·.type) ∧ socket.code = emitter.emit (rows.at name)
    | none => rows.at name = .empty := by
  match rows with
  | .nil => rw [Emitter.sockets, List.find?_nil, Rows.at]
  | .cons row plugged rest =>
    rw [Emitter.sockets, Rows.at]
    by_cases named : row.name = name
    · rw [List.find?_cons_of_pos (by simpa using named), if_pos named]
      exact ⟨rfl, rfl⟩
    · rw [List.find?_cons_of_neg (by simpa using named), if_neg named]
      exact find?_sockets emitter rest name

/-- The value of an empty socket is the default. -/
theorem value_of_empty {head : BlockHead} {below : Emission Output} {name : String}
    (empty : rows.at name = .empty) (order : Order) (default : String) :
    Site.value ⟨head, emitter.sockets rows, below⟩ name order default = pure default := by
  have found := find?_sockets emitter rows name
  unfold Site.value Site.socket?
  generalize (emitter.sockets rows).find? (·.name = name) = socket at found
  cases socket with
  | none => rfl
  | some socket =>
    obtain ⟨kind, other, type?, comments, code⟩ := socket
    obtain ⟨type, _⟩ := found
    rw [empty] at type
    simp only at type
    subst type
    rfl

/-- What a socket gives for the code of the block in it. -/
def usedAs (type : String) (order : Order) (default : String) : Output → Emission String
  | .statements "" => return default
  | .statements _ => throw (.notAValue type)
  | .value "" _ => return default
  | .value code inner => return placed order inner code

theorem usedAs_value {code : String} (filled : code ≠ "") (type : String) (order inner : Order)
    (default : String) :
    usedAs type order default (.value code inner) = pure (placed order inner code) := by
  unfold usedAs
  split
  · rename_i same
    cases same
  · rename_i same
    cases same
  · rename_i same
    cases same
    exact absurd rfl filled
  · rename_i same
    cases same
    rfl

/-- The value of a socket comes from what is plugged in there. -/
theorem value_of_block {head : BlockHead} {below : Emission Output} {name : String} {inner : BlockHead}
    {others : Rows BlockHead RowHead} {next : Stack BlockHead RowHead}
    (block : rows.at name = .block inner others next) (order : Order) (default : String) :
    Site.value ⟨head, emitter.sockets rows, below⟩ name order default =
      emitter.emit (rows.at name) >>= usedAs inner.type order default := by
  have found := find?_sockets emitter rows name
  unfold Site.value Site.socket?
  generalize (emitter.sockets rows).find? (·.name = name) = socket at found
  cases socket with
  | none =>
    rw [block] at found
    cases found
  | some socket =>
    obtain ⟨kind, other, type?, comments, code⟩ := socket
    obtain ⟨type, same⟩ := found
    rw [block] at type
    simp only [Stack.head?, Option.map_some] at type same
    subst type same
    rfl

end Rows

theorem Stack.Meets.loosen {stack : Stack BlockHead RowHead} {check : TypeCheck} (meets : stack.Meets check) :
    stack.Meets none := by
  cases stack with
  | empty => trivial
  | block head rows next =>
    refine ⟨?_, meets.2⟩
    cases head.outputCheck <;> rfl

/-- What is in the row of a name is ready, and gives what the row takes. -/
theorem Rows.Ready.at {known : Bool} {tight : Prop} (rows : Rows BlockHead RowHead) {specs : List RowSpec}
    (ready : rows.Ready known tight specs) (name : String) :
    match specs.find? (·.1 = name) with
    | some spec =>
      (spec.2.1 = .value → (rows.at name).IsOperand) ∧ (rows.at name).Ready known tight ∧
        (rows.Meets specs → (rows.at name).Meets spec.2.2)
    | none => rows.at name = .empty := by
  match rows with
  | .nil =>
    obtain rfl : specs = [] := ready
    rfl
  | .cons row plugged rest =>
    obtain ⟨spec, others, rfl, rfl, operand, plugged, later⟩ := ready
    rw [Rows.at]
    by_cases named : spec.1 = name
    · rw [List.find?_cons_of_pos (by simpa using named), if_pos (show spec.head.name = name from named)]
      exact ⟨operand, plugged, fun meets => meets.1 spec rfl⟩
    · rw [List.find?_cons_of_neg (by simpa using named), if_neg (show ¬ spec.head.name = name from named)]
      have found := Rows.Ready.at rest later name
      cases search : others.find? (·.1 = name) with
      | none =>
        rw [search] at found
        exact found
      | some other =>
        rw [search] at found
        exact ⟨found.1, found.2.1, fun meets => found.2.2 meets.2⟩

/-- All rows of values are sockets of values. -/
theorem rows_of_value {kind : BlockKind} (isValue : kind.shape.isValue) (mutation : Table Json) :
    ∀ spec ∈ kind.rows mutation, spec.2.1 = .value := by
  have items : ∀ spec ∈ (RowFamily.rows .items mutation).1, spec.2.1 = .value := by
    intro spec among
    unfold RowFamily.rows at among
    cases counted : itemCount mutation with
    | error error => simp [counted] at among
    | ok count =>
      simp only [counted, List.mem_map] at among
      obtain ⟨i, _, rfl⟩ := among
      rfl
  have shape : (∀ spec ∈ kind.shape.rows, spec.2.1 = .value) ∧
      (kind.shape.family = none ∨ kind.shape.family = some .items) := by
    revert isValue
    cases kind <;> simp [BlockKind.shape, Shape.isValue]
  intro spec among
  rcases List.mem_append.mp among with fixed | added
  · exact shape.1 spec fixed
  · rcases shape.2 with family | family
    · simp [family] at added
    · exact items spec (by simpa [family] using added)

theorem find?_of_asksNumber {kind : BlockKind} {name : String} (asks : kind.AsksNumber name)
    (mutation : Table Json) :
    (kind.rows mutation).find? (·.1 = name) = some (name, .value, numberCheck) := by
  unfold BlockKind.AsksNumber at asks
  have first : kind.shape.rows.find? (·.1 = name) = some (name, .value, numberCheck) := by
    revert asks
    cases kind <;> simp +contextual [BlockKind.shape, numberCheck, booleanCheck, listCheck] <;>
      rintro (rfl | rfl) <;> simp
  rw [BlockKind.rows, List.find?_append, first, Option.some_or]

/-- What is emitted for an operand: nothing where it stands for nothing, and else the code of its
expression. -/
def Says (tight : Prop) (stack : Stack BlockHead RowHead) (output : Output) (s : Pass) : Prop :=
  (output = .statements "" ∧ ∀ t, stack.tree? t = none) ∨
  ∃ code order, output = .value code order ∧
    Means tight (stack.Meets none) (stack.Meets numberCheck) (stack.tree? ·) code order s

section Trees

variable {known : Bool} {tight : Prop} {emitter : Emitter}

/-- The row that is found under a name is of the kind of all rows of that name. -/
theorem kind_of_find? {specs : List RowSpec} {name : String} {form : RowKind}
    (each : ∀ spec ∈ specs, spec.1 = name → spec.2.1 = form) :
    ∀ spec, specs.find? (·.1 = name) = some spec → spec.2.1 = form :=
  fun spec search => each spec (List.mem_of_find?_eq_some search) (by simpa using List.find?_some search)

/-- A site offers what is said for an operand in its rows. -/
theorem offersAt_operand {head : BlockHead} {rows : Rows BlockHead RowHead} {below : Emission Output}
    {name : String} (each : ∀ s, Emits tight (emitter.emit (rows.at name)) s (Says tight (rows.at name))) :
    Site.OffersAt tight ((rows.at name).Meets none) ((rows.at name).Meets numberCheck)
      ⟨head, emitter.sockets rows, below⟩
      name (fun pass => rows.operand? pass name) := by
  intro order default s
  cases block : rows.at name with
  | empty =>
    rw [value_of_empty block]
    refine emits_pure (.inl ⟨rfl, fun t => ?_⟩)
    exact (Rows.operand?_eq ..).trans (by rw [block, Stack.tree?])
  | block inner others next =>
    rw [value_of_block block]
    refine (each s).bind ?_
    rw [← block]
    rintro output t _ (⟨rfl, vacant⟩ | ⟨code, bound, rfl, e, writes, literally, meant, exact⟩)
    · exact emits_pure (.inl ⟨rfl, fun u => (Rows.operand?_eq ..).trans (vacant u)⟩)
    · have filled : code ≠ "" := by
        obtain ⟨c, rest, shape, _⟩ := writes.start
        rintro rfl
        cases shape
      rw [usedAs_value filled]
      exact emits_pure (.inr ⟨code, bound, rfl, e, writes, literally,
        fun isTyped u later => (Rows.operand?_eq ..).trans (meant isTyped u later), exact⟩)

/-- A site offers what is plugged into a row of values. -/
theorem offersAt_row {head : BlockHead} {rows : Rows BlockHead RowHead} {below : Emission Output}
    {kind : BlockKind}
    {name : String} (isValue : ∀ spec, (kind.rows head.mutation).find? (·.1 = name) = some spec →
    spec.2.1 = .value)
    (ready : rows.Ready known tight (kind.rows head.mutation))
    (each : ∀ name, (rows.at name).Ready known tight → (rows.at name).IsOperand →
      ∀ s, Emits tight (emitter.emit (rows.at name)) s (Says tight (rows.at name))) :
    Site.OffersAt tight (rows.Meets (kind.rows head.mutation)) (kind.AsksNumber name)
      ⟨head, emitter.sockets rows, below⟩
      name (fun pass => rows.operand? pass name) := by
  have found := Rows.Ready.at rows ready name
  have numbers : kind.AsksNumber name →
      (kind.rows head.mutation).find? (·.1 = name) = some (name, .value, numberCheck) :=
    fun asks => find?_of_asksNumber asks head.mutation
  have eachHere := each name
  generalize (kind.rows head.mutation).find? (·.1 = name) = search at found numbers isValue
  cases search with
  | none =>
    have empty : rows.at name = .empty := found
    refine (offersAt_operand (eachHere ?_ ?_)).mono (fun _ => ?_) fun _ _ => ?_
    all_goals rw [empty]; trivial
  | some spec =>
    obtain ⟨operand, readyThere, meets⟩ := found
    refine (offersAt_operand (eachHere readyThere (operand (isValue spec rfl)))).mono
      (fun isTyped => (meets isTyped).loosen) ?_
    intro isTyped asks
    obtain rfl : spec = (name, .value, numberCheck) := Option.some.inj (numbers asks)
    exact meets isTyped

/-- The site of a value offers what is plugged into its rows. -/
theorem offers_rows {head : BlockHead} {rows : Rows BlockHead RowHead} {below : Emission Output}
    {kind : BlockKind}
    (isValue : kind.shape.isValue) (ready : rows.Ready known tight (kind.rows head.mutation))
    (each : ∀ name, (rows.at name).Ready known tight → (rows.at name).IsOperand →
      ∀ s, Emits tight (emitter.emit (rows.at name)) s (Says tight (rows.at name))) :
    Site.Offers tight (rows.Meets (kind.rows head.mutation)) ⟨head, emitter.sockets rows, below⟩ kind
      (fun pass => rows.operand? pass) :=
  fun _ => offersAt_row (fun spec search => rows_of_value isValue _ spec (List.mem_of_find?_eq_some search))
    ready each

/-- What is found in a table with a template for each kind. -/
theorem get?_templates (template : BlockKind → Template) (type : String) :
    Table.get? (BlockKind.all.map fun kind => (kind.name, template kind)) type =
    (BlockKind.ofName? type).map template := by
  unfold BlockKind.ofName?
  generalize BlockKind.all = kinds
  induction kinds with
  | nil => rfl
  | cons kind kinds ih =>
    rw [List.map_cons, Table.get?]
    by_cases same : kind.name = type
    · rw [if_pos same, List.find?_cons_of_pos (by simpa using same), Option.map_some]
    · rw [if_neg same, List.find?_cons_of_neg (by simpa using same)]
      exact ih

theorem get?_knownTemplates (type : String) :
    knownTemplates.get? type = (BlockKind.ofName? type).map BlockKind.template :=
  get?_templates _ type

/-- A block of a type that no template is for is remembered, and nothing else of the pass changes. -/
theorem emits_placeholder {type : String} {s : Pass} :
    Emits tight (modify fun pass : Pass =>
      { pass with placeholders := type :: pass.placeholders } : Emission Unit) s
      fun _ _ => True :=
  fun sound => runs_modify ⟨⟨sound.names, sound.helper⟩, ⟨fun _ _ found => found, fun _ found => found, rfl⟩,
    trivial⟩

/-- The template for a value gives the code of the expression that the value stands for. -/
theorem emits_value (templates : emitter.templates = knownTemplates) (strict : emitter.strict → known)
    {head : BlockHead} {rows : Rows BlockHead RowHead} {next : Stack BlockHead RowHead}
    {below : Emission Output}
    (isValue : head.isValue) (enabled : head.disabled = false)
    (ready : (Stack.block head rows next).Ready known tight)
    (each : ∀ name, (rows.at name).Ready known tight → (rows.at name).IsOperand →
      ∀ s, Emits tight (emitter.emit (rows.at name)) s (Says tight (rows.at name))) (s : Pass) :
    Emits tight (emitter.templateOf head.type >>= fun template =>
      template ⟨head, emitter.sockets rows, below⟩) s
      fun output t => ∃ code order, output = some (.value code order) ∧
        Means tight ((Stack.block head rows next).Meets none) ((Stack.block head rows next).Meets numberCheck)
          ((Stack.block head rows next).tree? ·) code order t := by
  have found := get?_knownTemplates head.type
  unfold Emitter.templateOf
  rw [templates, found]
  have readyHere := ready.1
  cases kindOf : BlockKind.ofName? head.type with
  | none =>
    rw [kindOf] at readyHere
    have lenient : emitter.strict = false := by
      by_contra isStrict
      have all := strict (by simpa using isStrict)
      rw [readyHere] at all
      cases all
    have output : head.hasOutput := by simpa [BlockHead.isValue, kindOf] using isValue
    have tree : ∀ t, (Stack.block head rows next).tree? t = some (.numeral "0") := by
      intro t
      rw [Stack.tree?, enabled, kindOf]
      rfl
    simp only [Option.map_none, lenient, Bool.false_eq_true, if_false, bind_assoc, pure_bind]
    refine emits_placeholder.bind fun _ t _ _ => ?_
    unfold Template.placeholder
    rw [if_pos output]
    have literal := @isLiteral_zero tight
    exact emits_pure ⟨_, _, rfl, _, literal.writes, literal.literally, fun _ u _ => tree u,
      fun _ _ => literal.exact⟩
  | some kind =>
    rw [kindOf] at readyHere
    obtain ⟨valid, readyRows⟩ := readyHere
    have isValueKind : kind.shape.isValue := by simpa [BlockHead.isValue, kindOf] using isValue
    have tree : ∀ t, (Stack.block head rows next).tree? t = some (head.tree t (rows.operand? t) kind) := by
      intro t
      rw [Stack.tree?, enabled, kindOf]
      rfl
    simp only [Option.map_some, pure_bind]
    refine (emits_template isValueKind valid (offers_rows isValueKind readyRows each)).imp ?_
    rintro output t _ ⟨code, order, rfl, e, writes, literally, meant, exact⟩
    refine ⟨code, order, rfl, e, writes, literally, fun isTyped u later => ?_, fun isTyped isNumber => ?_⟩
    · exact (tree u).trans (meant (isTyped.2 kind kindOf) u later)
    · refine exact (isTyped.2 kind kindOf) ?_
      rintro rfl
      have meets : head.outputCheck.meets numberCheck := isNumber.1
      simp [BlockHead.outputCheck, kindOf, BlockKind.outputCheck, BlockKind.shape, textCheck, numberCheck,
        TypeCheck.meets] at meets

theorem emitSite_eq (site : Site) :
    emitter.emitSite site = (emitter.templateOf site.head.type >>= fun template => template site) >>=
    fun output =>
      match output with
      | some (.value code order) => return .value (← site.finish code) order
      | some (.statements code) => return .statements (← site.finish code)
      | none => return .statements "" := by
  unfold Emitter.emitSite
  exact (bind_assoc ..).symm

/-- A value that nothing follows is emitted as its comments and the code of its expression. -/
theorem emits_alone (templates : emitter.templates = knownTemplates) (strict : emitter.strict → known)
    {head : BlockHead} {rows : Rows BlockHead RowHead}
    (isValue : head.isValue) (enabled : head.disabled = false)
    (ready : (Stack.block head rows .empty).Ready known tight)
    (each : ∀ name, (rows.at name).Ready known tight → (rows.at name).IsOperand →
      ∀ s, Emits tight (emitter.emit (rows.at name)) s (Says tight (rows.at name))) (s : Pass) :
    Emits tight (emitter.emit (.block head rows .empty)) s fun output t => ∃ code order,
      output = .value (Site.comments ⟨head, emitter.sockets rows, emitter.emit .empty⟩ ++ code) order ∧
        Means tight ((Stack.block head rows .empty).Meets none)
          ((Stack.block head rows .empty).Meets numberCheck)
          ((Stack.block head rows .empty).tree? ·) code order t := by
  have start : emitter.emit (.block head rows .empty) =
      emitter.emitSite ⟨head, emitter.sockets rows, emitter.emit .empty⟩ := by
    rw [Emitter.emit.eq_2, enabled, if_neg (by simp)]
  rw [start, emitSite_eq]
  refine (emits_value templates strict isValue enabled ready each s).bind ?_
  rintro output t _ ⟨code, order, rfl, means⟩
  have finished : Site.finish ⟨head, emitter.sockets rows, emitter.emit .empty⟩ code =
      pure (Site.comments ⟨head, emitter.sockets rows, emitter.emit .empty⟩ ++ code) := by
    rw [Site.finish, Emitter.emit.eq_1, pure_bind]
    simp [Output.code]
  simp only [finished, pure_bind]
  exact emits_pure ⟨code, order, rfl, means⟩

mutual

/-- What is emitted for an operand is the code of its expression. -/
theorem emits_operand (templates : emitter.templates = knownTemplates) (strict : emitter.strict → known)
    (stack : Stack BlockHead RowHead) (ready : stack.Ready known tight) (isOperand : stack.IsOperand)
    (s : Pass) :
    Emits tight (emitter.emit stack) s (Says tight stack) := by
  match stack with
  | .empty =>
    rw [Emitter.emit]
    exact emits_pure (.inl ⟨rfl, fun t => by rw [Stack.tree?]⟩)
  | .block head rows next =>
    obtain ⟨isValue, inline, rfl⟩ := isOperand
    cases enabled : head.disabled with
    | true =>
      rw [Emitter.emit, enabled, if_pos rfl, Emitter.emit]
      exact emits_pure (.inl ⟨rfl, fun t => by rw [Stack.tree?, enabled, if_pos rfl]⟩)
    | false =>
      have each := emits_operands templates strict rows
      refine (emits_alone templates strict isValue enabled ready each s).imp ?_
      rintro output t _ ⟨code, order, rfl, means⟩
      have silent : Site.comments ⟨head, emitter.sockets rows, emitter.emit .empty⟩ = "" := by
        rw [Site.comments, inline, if_pos rfl]
      rw [silent, String.empty_append]
      exact .inr ⟨code, order, rfl, means⟩

/-- What is emitted for the operands in some rows are the codes of their expressions. -/
theorem emits_operands (templates : emitter.templates = knownTemplates) (strict : emitter.strict → known)
    (rows : Rows BlockHead RowHead) (name : String) (ready : (rows.at name).Ready known tight)
    (isOperand : (rows.at name).IsOperand) (s : Pass) :
    Emits tight (emitter.emit (rows.at name)) s (Says tight (rows.at name)) := by
  match rows with
  | .nil => exact emits_operand templates strict .empty ready isOperand s
  | .cons row plugged rest =>
    rw [Rows.at] at ready isOperand ⊢
    by_cases named : row.name = name
    · rw [if_pos named] at ready isOperand ⊢
      exact emits_operand templates strict plugged ready isOperand s
    · rw [if_neg named] at ready isOperand ⊢
      exact emits_operands templates strict rest name ready isOperand s

end

end Trees

end BlockCompiler
