import BlockCompiler.Proofs.Document.Builds
import BlockCompiler.Proofs.Document.Parts
import BlockCompiler.Proofs.Document.Shown

/-!
Stacks of documents are ready to be compiled: their blocks have passed the schema, and what is plugged in or
follows is of the right form and type.
-/

namespace BlockCompiler

/-- Whether a block is a statement. Blocks of unknown types are what they are plugged in as. -/
def BlockHead.isStatement (head : BlockHead) : Bool :=
  match BlockKind.ofName? head.type with
  | some kind => decide (kind.shape.plug = .statement)
  | none => !head.hasOutput

theorem BlockHead.isValue_of_isStatement {head : BlockHead} (isStatement : head.isStatement) :
    head.isValue = false := by
  cases named : BlockKind.ofName? head.type with
  | none => simpa [BlockHead.isStatement, BlockHead.isValue, named] using isStatement
  | some kind =>
    rw [BlockHead.isStatement, named] at isStatement
    rw [BlockHead.isValue, named]
    revert isStatement
    cases kind <;> simp [BlockKind.shape, Shape.isValue]

/-- What may follow a block or stand in an opening: nothing, or a statement. -/
def Stack.IsStatement : Stack BlockHead RowHead → Prop
  | .empty => True
  | .block head _ _ => head.isStatement ∧ head.inline = false

mutual

/-- In sockets are values that give what the sockets take, in openings are statements, and statements follow
statements. -/
def Stack.Fits : Stack BlockHead RowHead → Prop
  | .empty => True
  | .block head rows next =>
    (∀ kind, BlockKind.ofName? head.type = some kind → rows.Meets (kind.rows head.mutation)) ∧ rows.Fit ∧
      next.IsStatement ∧ (head.isStatement ∨ next = .empty) ∧ next.Fits

/-- What is in rows is of the form that the rows ask for. -/
def Rows.Fit : Rows BlockHead RowHead → Prop
  | .nil => True
  | .cons row plugged rest =>
    (row.kind = .value → plugged.IsOperand) ∧ (row.kind = .statement → plugged.IsStatement) ∧
      plugged.Fits ∧ rest.Fit

end

theorem Stack.Fits.meets {head : BlockHead} {rows : Rows BlockHead RowHead} {next : Stack BlockHead RowHead}
    (fits : (Stack.block head rows next).Fits) {check : TypeCheck} (gives : head.outputCheck.meets check) :
    (Stack.block head rows next).Meets check :=
  ⟨gives, fits.1⟩

section Rows

variable {known : Bool} {tight : Prop} {specs : List RowSpec} {plugged : RowSpec → Stack BlockHead RowHead}

theorem ready_ofList (each : ∀ spec ∈ specs, (spec.2.1 = .value → (plugged spec).IsOperand) ∧
    (plugged spec).Ready known tight) :
    (Rows.ofList (specs.map fun spec => (spec.head, plugged spec))).Ready known tight specs := by
  induction specs with
  | nil => rfl
  | cons spec rest ih =>
    obtain ⟨first, others⟩ := List.forall_mem_cons.mp each
    exact ⟨spec, rest, rfl, rfl, first.1, first.2, ih others⟩

theorem fit_ofList (each : ∀ spec ∈ specs, (spec.2.1 = .value → (plugged spec).IsOperand) ∧
      (spec.2.1 = .statement → (plugged spec).IsStatement) ∧ (plugged spec).Fits) :
    (Rows.ofList (specs.map fun spec => (spec.head, plugged spec))).Fit := by
  induction specs with
  | nil => trivial
  | cons spec rest ih =>
    obtain ⟨first, others⟩ := List.forall_mem_cons.mp each
    exact ⟨first.1, first.2.1, first.2.2, ih others⟩

theorem meets_ofList (each : ∀ spec ∈ specs, (plugged spec).Meets spec.2.2) :
    (Rows.ofList (specs.map fun spec => (spec.head, plugged spec))).Meets specs := by
  induction specs with
  | nil => trivial
  | cons spec rest ih =>
    obtain ⟨first, others⟩ := List.forall_mem_cons.mp each
    refine ⟨fun other same => ?_, ih others⟩
    cases same
    exact first

end Rows

/-- A block as written down has passed the schema, under different keys. -/
structure BlockSpec.Checked (known : Bool) (tight : Prop) (spec : BlockSpec) : Prop where
  fieldKeys : spec.fields.keys.Nodup
  mutationKeys : spec.mutation.keys.Nodup
  passes : ∀ kind, BlockKind.ofName? spec.type = some kind → FieldsPass kind spec.fields ∧
    MutationPasses spec.mutation
  unknown : BlockKind.ofName? spec.type = none → known = false
  short : tight → (BlockKind.ofName? spec.type).isSome →
    ∀ value, spec.fields.get? "NUM" = some value → ∀ n, numberIn value = .ok n → n.Short

section Number

theorem short_int {value : Int} (small : value.natAbs < tenTo (digitLimit - 1)) :
    (Number.int value).Short := by
  rintro whole ⟨⟩
  exact small

theorem short_float {value : Binary64} (small : ∀ n, value.truncate? = some n → n.natAbs < tenTo 1027) :
    (Number.float value).Short := by
  intro whole truncated
  exact Nat.lt_of_lt_of_le (small whole truncated) (tenTo_mono (by decide))

theorem short_zero : (Number.int 0).Short :=
  short_int (Nat.lt_of_lt_of_le (show 0 < tenTo 0 by decide) (tenTo_mono (Nat.zero_le _)))

/-- The number in a field is short if the field is a proper value of short numbers. -/
theorem short_numberIn {value : Json} (proper : value.IsProper) (short : value.IsShort)
    (numeric : value.isNumeric) {n : Number} (found : numberIn value = .ok n) : n.Short := by
  unfold numberIn at found
  split_ifs at found
  · cases found
    exact short_zero
  · cases value with
    | number number =>
      obtain rfl : number = n := Except.ok.inj found
      cases number with
      | int value => exact short_int short
      | float value => exact short_float fun _ truncated => proper.small truncated
    | text numeral =>
      cases n with
      | int value => exact short_int (short value found)
      | float value =>
        refine short_float fun _ truncated => ?_
        unfold numberOf at found
        dsimp only at found
        split at found
        · cases found
        · cases read : readDecimal (String.ofList (trimEnds isBlank ((Json.text numeral).asText?.getD
              (Json.text numeral).shown).toList)) with
          | error error =>
            rw [read] at found
            cases found
          | ok decimal =>
            rw [read] at found
            cases found
            exact readDecimal_bounded read truncated
    | _ => cases numeric

end Number

/-- A block that is described by a proper value is checked. -/
theorem BlockSpec.Reads.checked {strict : Bool} {tight : Prop} {value : Json} {spec : BlockSpec}
    (reads : spec.Reads strict value.members) (proper : value.All Json.IsProper)
    (short : tight → value.All Json.IsShort) :
    spec.Checked strict tight := by
  have passes : ∀ kind, BlockKind.ofName? spec.type = some kind → FieldsPass kind spec.fields ∧
      MutationPasses spec.mutation := by
    intro kind named
    obtain ⟨place, fields, mutation⟩ := reads.known kind named
    exact ⟨checkFields_ok.mp fields, checkMutation_ok.mp mutation⟩
  refine ⟨reads.fields ▸ proper.nodup_entries "fields", reads.mutation ▸ proper.nodup_entries "mutation",
    passes, reads.unknown, ?_⟩
  intro isTight isKnown field found n number
  obtain ⟨kind, named⟩ := Option.isSome_iff_exists.mp isKnown
  have numeric := (passes kind named).1.number field found
  rw [reads.fields] at found
  exact short_numberIn ((proper.entries "fields").get? found).here
    ((short isTight).entries "fields" |>.get? found).here
    numeric number

section Heads

variable {known : Bool} {tight : Prop} {spec : BlockSpec} {kind : BlockKind}

/-- The fields that a kind has by default pass its checks. -/
theorem fieldsPass_defaults (kind : BlockKind) : FieldsPass kind kind.shape.fields := by
  refine checkFields_ok.mp (show checkFields kind kind.shape.fields "" = .ok () from ?_)
  cases kind <;> decide

theorem BlockSpec.content_type : spec.content.type = spec.type := rfl

/-- The fields of a block pass the checks: those that are given, and the defaults of the others. -/
theorem BlockSpec.Checked.fieldsPass (checked : spec.Checked known tight)
    (named : BlockKind.ofName? spec.type = some kind) :
    FieldsPass kind spec.content.fields := by
  have given := (checked.passes kind named).1
  have defaults := fieldsPass_defaults kind
  have either : ∀ key value, spec.content.fields.get? key = some value →
      spec.fields.get? key = some value ∨ kind.shape.fields.get? key = some value := by
    intro key value found
    have shape : spec.content.fields = kind.shape.fields.update spec.fields := by
      rw [BlockSpec.content, defaultFields, named]
    rw [shape, Table.get?_update checked.fieldKeys, Option.or_eq_some_iff] at found
    exact found.imp id And.right
  exact {
    choice := fun name words choices value found => (either name value found).elim
      (given.choice name words choices value) (defaults.choice name words choices value)
    used := fun value found => (either _ value found).elim (given.used value) (defaults.used value)
    name := fun value found => (either _ value found).elim (given.name value) (defaults.name value)
    number := fun value found => (either _ value found).elim (given.number value) (defaults.number value)
    text := fun value found => (either _ value found).elim (given.text value) (defaults.text value) }

theorem BlockSpec.Checked.mutationPasses (checked : spec.Checked known tight)
    (named : BlockKind.ofName? spec.type = some kind) : MutationPasses spec.content.mutation := by
  have given := (checked.passes kind named).2
  have same : ∀ key, spec.content.mutation.get? key = spec.mutation.get? key :=
    fun key => Table.get?_ofEntries checked.mutationKeys key
  exact {
    items := fun value found => given.items value (same _ ▸ found)
    arms := fun value found => given.arms value (same _ ▸ found)
    otherwise := fun value found => given.otherwise value (same _ ▸ found)
    params := fun value found => given.params value (same _ ▸ found) }

/-- The head of a checked block is valid. -/
theorem BlockSpec.Checked.valid (checked : spec.Checked known tight)
    (named : BlockKind.ofName? spec.type = some kind) (hasOutput inline : Bool) :
    BlockHead.Valid tight { spec.content with hasOutput, inline } kind := by
  refine ⟨⟨"", checkFields_ok.mpr (checked.fieldsPass named)⟩,
    ⟨"", checkMutation_ok.mpr (checked.mutationPasses named)⟩,
    ?_, ?_⟩
  · intro entry member
    have shape : spec.content.fields = kind.shape.fields.update spec.fields := by
      rw [BlockSpec.content, defaultFields, named]
    show spec.content.fields.has entry.1
    rw [shape, Table.has_update]
    have own : kind.shape.fields.has entry.1 := by
      revert entry
      cases kind <;> decide
    rw [own, Bool.true_or]
  · intro isTight n found
    have field : numberIn (spec.content.field "NUM") = .ok n := found
    unfold BlockContent.field at field
    cases given : spec.content.fields.get? "NUM" with
    | none =>
      rw [given] at field
      cases field
      exact short_zero
    | some value =>
      rw [given] at field
      have shape : spec.content.fields = kind.shape.fields.update spec.fields := by
        rw [BlockSpec.content, defaultFields, named]
      rw [shape, Table.get?_update checked.fieldKeys, Option.or_eq_some_iff] at given
      rcases given with own | ⟨_, default⟩
      · exact checked.short isTight (by rw [named]; rfl) value own n field
      · have zero : value = .int 0 := by
          revert default
          cases kind <;> simp [BlockKind.shape, Table.get?]
          exact fun same => same.symm
        subst zero
        cases field
        exact short_zero

theorem isStatement_content (asValue : Bool) :
    BlockHead.isStatement { spec.content with hasOutput := (spec.plug asValue).isValue, inline := asValue } =
      decide (spec.plug asValue = .statement) := by
  unfold BlockHead.isStatement BlockSpec.plug
  rw [BlockSpec.content_type]
  cases BlockKind.ofName? spec.type with
  | some kind => rfl
  | none => cases asValue <;> rfl

theorem isValue_content (asValue : Bool) :
    BlockHead.isValue { spec.content with hasOutput := (spec.plug asValue).isValue, inline := asValue } =
      (spec.plug asValue).isValue := by
  unfold BlockHead.isValue BlockSpec.plug
  rw [BlockSpec.content_type]
  cases BlockKind.ofName? spec.type with
  | some kind => rfl
  | none => rfl

/-- What goes into a row gives what the row takes. -/
theorem outputCheck_meets {asValue : Bool} {row : RowSpec} (goes : (spec.plug asValue).GoesInto row) :
    (BlockHead.outputCheck
      { spec.content with hasOutput := (spec.plug asValue).isValue, inline := asValue }).meets row.2.2 := by
  unfold BlockHead.outputCheck
  rw [BlockSpec.content_type]
  cases named : BlockKind.ofName? spec.type with
  | none => rfl
  | some kind =>
    have plug : spec.plug asValue = kind.shape.plug := by rw [BlockSpec.plug, named]
    show kind.outputCheck.meets _
    rw [BlockKind.outputCheck, ← plug]
    rcases goes with ⟨_, check, is, meets⟩ | ⟨_, is⟩
    · rw [is, TypeCheck.meets_comm]
      exact meets
    · rw [is]
      rfl

end Heads

section Stacks

variable {known : Bool} {tight : Prop}

theorem nodup_rows {spec : BlockSpec} {inputs : Rows BlockSpec String} (distinct : inputs.labels.Nodup) :
    ((spec.rows inputs).map (·.1)).Nodup := by
  unfold BlockSpec.rows
  cases BlockKind.ofName? spec.type with
  | some kind => exact nodup_kind_rows kind _
  | none => rwa [labels_inferredRows]

/-- The row of a name is the one that is found under it, where names differ. -/
theorem find?_of_nodup {specs : List RowSpec} (distinct : (specs.map (·.1)).Nodup) {row : RowSpec}
    (member : row ∈ specs) :
    specs.find? (·.1 = row.1) = some row := by
  cases found : specs.find? (·.1 = row.1) with
  | none => exact absurd (List.find?_eq_none.mp found row member) (by simp)
  | some other =>
    have same : other.1 = row.1 := by simpa using List.find?_some found
    rw [List.inj_on_of_nodup_map distinct (List.mem_of_find?_eq_some found) member same]

/-- Nothing is in a row without a socket. -/
theorem Rows.BuildsInto.vacant {inputs : Rows BlockSpec String} {specs : List RowSpec}
    (into : inputs.BuildsInto specs) {row : RowSpec} (found : specs.find? (·.1 = row.1) = some row)
    (dummy : row.2.1 = .dummy) : inputs.shownIn row.head = .empty := by
  match inputs with
  | .nil => rw [Rows.shownIn]
  | .cons name plugged rest =>
    obtain ⟨⟨spec, search, goes, _⟩, others⟩ := into
    rw [Rows.shownIn]
    split_ifs with named
    · rw [← show row.1 = name from named] at search
      obtain rfl : row = spec := Option.some.inj (found.symm.trans search)
      cases plugged with
      | empty => rw [Stack.shown]
      | block head inner following =>
        rcases goes head rfl with ⟨other, _⟩ | ⟨other, _⟩ <;> rw [dummy] at other <;> cases other
    · exact others.vacant found dummy

mutual

/-- A stack that can be built and whose blocks are checked is ready to be compiled. -/
theorem Stack.Builds.ready {asValue : Bool} {stack : StackSpec} (builds : stack.Builds asValue)
    (checked : ∀ spec ∈ stack.heads, spec.Checked known tight) :
    (stack.shown asValue).Ready known tight ∧ (stack.shown asValue).Fits := by
  match stack with
  | .empty =>
    rw [Stack.shown]
    exact ⟨trivial, trivial⟩
  | .block spec inputs next =>
    obtain ⟨_, distinct, into, follows, below⟩ := builds
    rw [Stack.heads] at checked
    obtain ⟨here, others⟩ := List.forall_mem_cons.mp checked
    obtain ⟨inside, after⟩ := List.forall_mem_append.mp others
    obtain ⟨readyNext, fitsNext⟩ := below.ready after
    have rows : ∀ row ∈ spec.rows inputs, _ := fun row member =>
      into.ready inside (find?_of_nodup (nodup_rows distinct) member)
    rw [Stack.shown]
    refine ⟨⟨?_, readyNext⟩, ?_, fit_ofList fun row member => ?_, ?_, ?_, fitsNext⟩
    · show match BlockKind.ofName? spec.type with
        | some kind => _
        | none => _
      cases named : BlockKind.ofName? spec.type with
      | none => exact here.unknown named
      | some kind =>
        have same : spec.rows inputs = kind.rows spec.content.mutation := by
          rw [BlockSpec.rows, named]
          rfl
        refine ⟨here.valid named _ _, ?_⟩
        show Rows.Ready known tight _ (kind.rows spec.content.mutation)
        rw [← same]
        exact ready_ofList fun row member => ⟨(rows row member).1, (rows row member).2.2.1⟩
    · intro kind named
      have same : spec.rows inputs = kind.rows spec.content.mutation := by
        rw [BlockSpec.rows, show BlockKind.ofName? spec.type = some kind from named]
        rfl
      show Rows.Meets _ (kind.rows spec.content.mutation)
      rw [← same]
      exact meets_ofList fun row member => (rows row member).2.2.2.2
    · exact ⟨(rows row member).1, (rows row member).2.1, (rows row member).2.2.2.1⟩
    · cases next with
      | empty =>
        rw [Stack.shown]
        trivial
      | block nextSpec nextInputs following =>
        rw [Stack.shown]
        refine ⟨?_, rfl⟩
        rw [isStatement_content]
        simpa using (follows nextSpec rfl).2
    · cases next with
      | empty =>
        rw [Stack.shown]
        exact .inr rfl
      | block nextSpec nextInputs following =>
        refine .inl ?_
        rw [isStatement_content]
        simpa using (follows nextSpec rfl).1

/-- What is in a row that has its name alone is ready to be compiled, and of the form and type that the row
asks for. -/
theorem Rows.BuildsInto.ready {inputs : Rows BlockSpec String} {specs : List RowSpec}
    (into : inputs.BuildsInto specs) (checked : ∀ spec ∈ inputs.heads, spec.Checked known tight)
    {row : RowSpec} (found : specs.find? (·.1 = row.1) = some row) :
    (row.2.1 = .value → (inputs.shownIn row.head).IsOperand) ∧
      (row.2.1 = .statement → (inputs.shownIn row.head).IsStatement) ∧
      (inputs.shownIn row.head).Ready known tight ∧ (inputs.shownIn row.head).Fits ∧
      (inputs.shownIn row.head).Meets row.2.2 := by
  match inputs with
  | .nil =>
    rw [Rows.shownIn]
    exact ⟨fun _ => trivial, fun _ => trivial, trivial, trivial, trivial⟩
  | .cons name plugged rest =>
    obtain ⟨⟨spec, search, goes, builds⟩, others⟩ := into
    rw [Rows.heads] at checked
    obtain ⟨here, later⟩ := List.forall_mem_append.mp checked
    rw [Rows.shownIn]
    by_cases named : row.head.name = name
    · rw [if_pos named]
      have same : row = spec := by
        rw [← show row.1 = name from named] at search
        exact Option.some.inj (found.symm.trans search)
      subst same
      obtain ⟨ready, fits⟩ := builds.ready here
      have kind : decide (row.head.kind = .value) = decide (row.2.1 = .value) := rfl
      rw [kind]
      cases plugged with
      | empty =>
        rw [Stack.shown]
        exact ⟨fun _ => trivial, fun _ => trivial, trivial, trivial, trivial⟩
      | block head inner following =>
        have goes := goes head rfl
        refine ⟨?_, ?_, ready, fits, ?_⟩
        · intro form
          rw [Stack.shown]
          have plug : ∃ check, head.plug (row.2.1 = .value) = .value check := by
            rcases goes with ⟨_, check, is, _⟩ | ⟨other, _⟩
            · exact ⟨check, is⟩
            · rw [form] at other
              cases other
          obtain ⟨check, plug⟩ := plug
          refine ⟨?_, by simpa using form, ?_⟩
          · rw [isValue_content, plug]
            rfl
          · cases following with
            | empty => rw [Stack.shown]
            | block after _ _ =>
              have statement := (builds.2.2.2.1 after rfl).1
              rw [plug] at statement
              cases statement
        · intro form
          rw [Stack.shown]
          have plug : head.plug (row.2.1 = .value) = .statement := by
            rcases goes with ⟨other, _⟩ | ⟨_, is⟩
            · rw [form] at other
              cases other
            · exact is
          refine ⟨?_, by simpa using fun same => by rw [form] at same; cases same⟩
          rw [isStatement_content, plug]
          rfl
        · rw [Stack.shown] at fits ⊢
          exact fits.meets (outputCheck_meets goes)
    · rw [if_neg named]
      exact others.ready later found

end

end Stacks

end BlockCompiler
