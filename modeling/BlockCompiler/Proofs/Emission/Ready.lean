import BlockCompiler.Emission.Emitter
import BlockCompiler.Proofs.Document.Read
import BlockCompiler.Proofs.Workspace.Begun

/-!
Stacks that are ready to be compiled: every block is of a known kind and passes the schema, all its fields are
there, and its rows are those of its kind, with values in the sockets of values.
-/

namespace BlockCompiler

/-- The whole part of a finite number. -/
def Number.truncate? : Number → Option Int
  | .int value => some value
  | .float value => value.truncate?

/-- A number whose whole part has fewer digits than any may have. -/
def Number.Short (n : Number) : Prop :=
  ∀ whole, n.truncate? = some whole → whole.natAbs < tenTo (digitLimit - 1)

/-- The number that a field holds; one that stands for nothing is zero. -/
def numberIn (field : Json) : Except NumeralError Number := numberOf (if field.isVoid then .int 0 else field)

/-- A block of a kind passes the schema, and has all fields of its kind. Where numbers are short, its number
is. -/
structure BlockHead.Valid (tight : Prop) (head : BlockHead) (kind : BlockKind) : Prop where
  fields : ∃ place, checkFields kind head.fields place = .ok ()
  mutation : ∃ place, checkMutation head.mutation place = .ok ()
  complete : ∀ entry ∈ kind.shape.fields, head.fields.has entry.1
  short : tight → ∀ n, numberIn (head.field "NUM") = .ok n → n.Short

/-- Whether a block is a value. Blocks of unknown types are what they are plugged in as. -/
def BlockHead.isValue (head : BlockHead) : Bool :=
  match BlockKind.ofName? head.type with
  | some kind => kind.shape.isValue
  | none => head.hasOutput

/-- What may be in the socket of a value: nothing, or a value that nothing follows and that knows that it is
plugged in. -/
def Stack.IsOperand : Stack BlockHead RowHead → Prop
  | .empty => True
  | .block head _ next => head.isValue ∧ head.inline ∧ next = .empty

/-- The types that the values of a kind give. -/
def BlockKind.outputCheck (kind : BlockKind) : TypeCheck :=
  match kind.shape.plug with
  | .value check => check
  | _ => none

/-- The types that a value gives, as far as its kind tells. -/
def BlockHead.outputCheck (head : BlockHead) : TypeCheck :=
  (BlockKind.ofName? head.type).elim none BlockKind.outputCheck

mutual

/-- The values in a stack give what the sockets take that they are plugged into, and so does the first block
for a socket around the stack. -/
def Stack.Meets : Stack BlockHead RowHead → TypeCheck → Prop
  | .empty, _ => True
  | .block head rows _, check =>
    head.outputCheck.meets check ∧ ∀ kind, BlockKind.ofName? head.type = some kind →
      rows.Meets (kind.rows head.mutation)

/-- The values in rows give what the rows take. -/
def Rows.Meets : Rows BlockHead RowHead → List RowSpec → Prop
  | .nil, _ => True
  | .cons _ plugged rest, specs => (∀ spec ∈ specs.head?, plugged.Meets spec.2.2) ∧ rest.Meets specs.tail

end

mutual

/-- A stack that is ready to be compiled. Blocks of unknown types are let pass unless all must be known. -/
def Stack.Ready (known : Bool) (tight : Prop) : Stack BlockHead RowHead → Prop
  | .empty => True
  | .block head rows next =>
    (match BlockKind.ofName? head.type with
      | some kind => head.Valid tight kind ∧ rows.Ready known tight (kind.rows head.mutation)
      | none => known = false) ∧
    next.Ready known tight

/-- Rows that are those of some specifications, with stacks that are ready in them. -/
def Rows.Ready (known : Bool) (tight : Prop) : Rows BlockHead RowHead → List RowSpec → Prop
  | .nil, specs => specs = []
  | .cons row plugged rest, specs =>
    ∃ spec others, specs = spec :: others ∧ row = spec.head ∧ (spec.2.1 = .value → plugged.IsOperand) ∧
      plugged.Ready known tight ∧ rest.Ready known tight others

end

theorem unit_bind_ok {ε β : Type} {x : Except ε Unit} {y : Except ε β} {b : β} :
    (x >>= fun _ => y) = .ok b ↔ x = .ok () ∧ y = .ok b := by
  cases x with
  | error error =>
    constructor
    · intro same
      cases same
    · rintro ⟨same, _⟩
      cases same
  | ok u =>
    constructor
    · exact fun same => ⟨rfl, same⟩
    · exact fun both => both.2

/-- What it means that fields pass the checks of a kind. -/
structure FieldsPass (kind : BlockKind) (fields : Table Json) : Prop where
  choice : ∀ name words, kind.shape.choices = some (name, words) →
    ∀ value, fields.get? name = some value → words.any value.isText
  used : ∀ value, fields.get? "VAR" = some value → value.isNonEmptyText
  name : ∀ value, fields.get? "NAME" = some value → value.isNonEmptyText
  number : ∀ value, fields.get? "NUM" = some value → value.isNumeric
  text : ∀ value, fields.get? "TEXT" = some value → value.isTextValue

theorem checkFields_ok {kind : BlockKind} {fields : Table Json} {place : String} :
    checkFields kind fields place = .ok () ↔ FieldsPass kind fields := by
  unfold checkFields
  cases choices : kind.shape.choices with
  | none =>
    simp only [unit_bind_ok, checkMember_ok]
    constructor
    · rintro ⟨used, name, number, text⟩
      exact ⟨fun _ _ has => absurd (choices.symm.trans has) (by simp), used, name, number, text⟩
    · intro pass
      exact ⟨pass.used, pass.name, pass.number, pass.text⟩
  | some entry =>
    simp only [unit_bind_ok, checkMember_ok]
    constructor
    · rintro ⟨choice, used, name, number, text⟩
      refine ⟨fun _ _ has => ?_, used, name, number, text⟩
      obtain rfl := Option.some.inj (choices.symm.trans has)
      exact choice
    · intro pass
      exact ⟨pass.choice _ _ choices, pass.used, pass.name, pass.number, pass.text⟩

/-- What it means that a mutation passes its checks. -/
structure MutationPasses (mutation : Table Json) : Prop where
  items : ∀ value, mutation.get? "items" = some value → value.isNaturalNumber
  arms : ∀ value, mutation.get? "elseif" = some value → value.isNaturalNumber
  otherwise : ∀ value, mutation.get? "else" = some value → value.isBool
  params : ∀ value, mutation.get? "params" = some value → value.isListOfNonEmptyTexts

theorem checkMutation_ok {mutation : Table Json} {place : String} :
    checkMutation mutation place = .ok () ↔ MutationPasses mutation := by
  unfold checkMutation
  simp only [unit_bind_ok, checkMember_ok]
  constructor
  · rintro ⟨items, arms, otherwise, params⟩
    exact ⟨items, arms, otherwise, params⟩
  · intro passes
    exact ⟨passes.items, passes.arms, passes.otherwise, passes.params⟩

namespace BlockHead.Valid

variable {tight : Prop} {head : BlockHead} {kind : BlockKind}

theorem passes (valid : head.Valid tight kind) : FieldsPass kind head.fields := by
  obtain ⟨place, passed⟩ := valid.fields
  exact checkFields_ok.mp passed

theorem mutates (valid : head.Valid tight kind) : MutationPasses head.mutation := by
  obtain ⟨place, passed⟩ := valid.mutation
  exact checkMutation_ok.mp passed

/-- A field of the kind is there. -/
theorem present (valid : head.Valid tight kind) {name : String} (own : name ∈ kind.shape.fields.keys) :
    head.fields.get? name = some (head.field name) := by
  obtain ⟨entry, among, rfl⟩ := List.mem_map.mp own
  obtain ⟨value, found⟩ := Option.isSome_iff_exists.mp (valid.complete entry among)
  rw [BlockContent.field, found, Option.getD_some]

/-- A field that takes only some words holds one of them. -/
theorem choice (valid : head.Valid tight kind) {name : String} {words : List String}
    (choices : kind.shape.choices = some (name, words)) : ∃ word ∈ words, head.field name = .text word := by
  have own : name ∈ kind.shape.fields.keys := by
    revert choices
    cases kind <;> simp +contextual [BlockKind.shape, Table.keys]
  obtain ⟨word, among, same⟩ :=
    List.any_eq_true.mp (valid.passes.choice name words choices _ (valid.present own))
  refine ⟨word, among, ?_⟩
  cases value : head.field name with
  | text found =>
    rw [value] at same
    simp only [Json.isText, decide_eq_true_eq] at same
    rw [same]
  | _ => simp [value, Json.isText] at same

theorem variable_text (valid : head.Valid tight kind) (own : "VAR" ∈ kind.shape.fields.keys) :
    ∃ name, head.field "VAR" = .text name := by
  have form := valid.passes.used _ (valid.present own)
  cases value : head.field "VAR" <;> simp [value, Json.isNonEmptyText] at form ⊢

theorem name_text (valid : head.Valid tight kind) (own : "NAME" ∈ kind.shape.fields.keys) :
    ∃ name, head.field "NAME" = .text name := by
  have form := valid.passes.name _ (valid.present own)
  cases value : head.field "NAME" <;> simp [value, Json.isNonEmptyText] at form ⊢

theorem text_text (valid : head.Valid tight kind) (own : "TEXT" ∈ kind.shape.fields.keys) :
    ∃ text, head.field "TEXT" = .text text := by
  have form := valid.passes.text _ (valid.present own)
  cases value : head.field "TEXT" <;> simp [value, Json.isTextValue] at form ⊢

/-- The items of a mutation can be counted. -/
theorem items (valid : head.Valid tight kind) : ∃ count : Nat, itemCount head.mutation = .ok count := by
  unfold itemCount
  cases found : head.mutation.get? "items" with
  | none => exact ⟨0, rfl⟩
  | some value =>
    have form := valid.mutates.items value found
    unfold Json.isNaturalNumber at form
    split at form
    · rename_i whole
      exact ⟨whole.toNat, by simpa [Json.toWhole] using (Int.toNat_of_nonneg (by simpa using form)).symm⟩
    · cases form

/-- The parameters of a mutation are texts. -/
theorem params (valid : head.Valid tight kind) :
    ∃ params : List String, parameters head.mutation = .ok (params.map .text) := by
  unfold parameters
  cases found : head.mutation.get? "params" with
  | none => exact ⟨[], rfl⟩
  | some value =>
    have form := valid.mutates.params value found
    unfold Json.isListOfNonEmptyTexts at form
    split at form
    · rename_i items
      have texts : ∃ params : List String, items = params.map .text := by
        clear found
        induction items with
        | nil => exact ⟨[], rfl⟩
        | cons item items ih =>
          simp only [List.all_cons, Bool.and_eq_true] at form
          obtain ⟨params, rfl⟩ := ih form.2
          cases item with
          | text name => exact ⟨name :: params, rfl⟩
          | _ => exact absurd form.1 (by simp [Json.isNonEmptyText])
      obtain ⟨params, rfl⟩ := texts
      exact ⟨params, rfl⟩
    · cases form

end BlockHead.Valid

end BlockCompiler
