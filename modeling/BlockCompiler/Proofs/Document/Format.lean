import BlockCompiler.Proofs.Document.Presented

/-!
The format of documents, told without the order in which a value is checked: what the value says apart from
its blocks, what each of its blocks says, wherever it is, and that no two blocks have one id. The check
accepts a value just if it has the format.
-/

namespace BlockCompiler

/-- What the format asks of the value of a block, apart from its inputs and from what follows. -/
structure Json.IsBlock (strict : Bool) (object : Json) : Prop where
  isObject : object.isObject
  formed : Formed object.members
  typed : ∃ type, object.member? "type" = some (.text type) ∧
    (∀ kind, BlockKind.ofName? type = some kind →
      FieldsPass kind (object.entries "fields") ∧ MutationPasses (object.entries "mutation")) ∧
    (strict → isKnownType type)

/-- What the format asks of the declaration of a variable. -/
def Json.IsDeclaration (value : Json) : Prop :=
  value.isObject ∧ ∃ name, value.member? "name" = some (.text name) ∧ name ≠ ""

/-- The format of documents. -/
structure Json.IsDocument (strict : Bool) (data : Json) : Prop where
  isObject : data.isObject
  name : ∃ name, data.member? "name" = some (.text name)
  blocks : ∃ blocks, data.member? "blocks" = some (.list blocks)
  options : ∀ options, data.member? "options" = some options → options.isObject
  base : ∀ value, (data.entries "options").get? "one_based_index" = some value → value.isBool
  declared : ∀ value, data.member? "variables" = some value →
    ∃ declarations, value = .list declarations ∧ ∀ declaration ∈ declarations, declaration.IsDeclaration
  each : ∀ place object, data.block? place = some object → object.IsBlock strict
  ids : (data.tops.flatMap Json.ids).Nodup

section Blocks

variable {strict : Bool} {value : Json}

/-- The value of a block that is read has the format. -/
theorem Json.ReadAs.isBlock {stack : StackSpec} (read : value.ReadAs strict stack) :
    value.IsBlock strict := by
  obtain ⟨place, s, t, accepted⟩ := read
  have described := (described_readStack accepted).1
  match stack with
  | .empty => exact described.elim
  | .block spec inputs next =>
    obtain ⟨isObject, reads, formed, _⟩ := described
    refine ⟨isObject, formed, spec.type, reads.type, fun kind named => ?_, fun isStrict => ?_⟩
    · obtain ⟨place, fields, mutation⟩ := reads.known kind named
      rw [reads.fields] at fields
      rw [reads.mutation] at mutation
      exact ⟨checkFields_ok.mp fields, checkMutation_ok.mp mutation⟩
    · by_contra unknown
      rw [reads.unknown (by simpa [isKnownType] using unknown)] at isStrict
      cases isStrict

/-- A value of the format is read as a block that stands where the value says. -/
theorem Json.IsBlock.exists_reads (isBlock : value.IsBlock strict) :
    ∃ spec : BlockSpec, spec.Reads strict value.members := by
  obtain ⟨_, formed, type, typed, passes, known⟩ := isBlock
  have placed : ∀ key, (∀ found, value.members.get? key = some found → found.asNumber?.isSome) →
      ((value.members.get? key).getD (.int 0)).asNumber?.isSome := by
    intro key holds
    cases found : value.members.get? key with
    | none => rfl
    | some number => exact holds number found
  refine ⟨{
    type
    fields := value.entries "fields"
    mutation := value.entries "mutation"
    comment := commentOf ((value.member? "comment").bind Json.asText?)
    disabled := ((value.member? "disabled").getD .null).isTrue
    ownId := (value.member? "id").bind Json.asText?
    x := (value.member? "x").getD (.int 0)
    y := (value.member? "y").getD (.int 0) },
    typed, rfl, rfl, rfl, rfl, rfl, rfl, rfl, ⟨placed "x" formed.x, placed "y" formed.y⟩, fun kind named =>
    ?_, fun unknown => ?_⟩
  · exact ⟨"", checkFields_ok.mpr (passes kind named).1, checkMutation_ok.mpr (passes kind named).2⟩
  · by_contra isStrict
    have isKnown := known (by simpa using isStrict)
    rw [isKnownType, show BlockKind.ofName? type = none from unknown] at isKnown
    cases isKnown

/-- The value of a member is smaller than the whole. -/
theorem Json.sizeOf_member? {key : String} {found : Json} (there : value.member? key = some found) :
    sizeOf found < sizeOf value := by
  cases value with
  | object members =>
    have inside : sizeOf (key, found) < sizeOf members := List.sizeOf_lt_of_mem (Table.mem_of_get? there)
    have part : sizeOf (key, found) = 1 + sizeOf key + sizeOf found := rfl
    have whole : sizeOf (Json.object members) = 1 + sizeOf members := Json.object.sizeOf_spec members
    omega
  | _ => cases there

/-- Below a block the values get smaller. -/
theorem Json.sizeOf_turn? {turn : Turn} {child : Json} (turned : value.turn? turn = some child) :
    sizeOf child < sizeOf value := by
  cases turn with
  | input name =>
    cases found : value.member? "inputs" with
    | none =>
      rw [Json.turn?, Json.entries, found] at turned
      cases turned
    | some inputs =>
      rw [Json.turn?, Json.entries, found] at turned
      have inside : inputs.member? name = some child := turned
      exact Nat.lt_trans (Json.sizeOf_member? inside) (Json.sizeOf_member? found)
  | next => exact Json.sizeOf_member? (Option.filter_eq_some_iff.mp turned).1

/-- A value describes a stack if it and all below it have the format of blocks. -/
theorem exists_describedBy (proper : value.All Json.IsProper)
    (each : ∀ path object, value.at? path = some object → object.IsBlock strict) :
    ∃ stack : StackSpec, stack.DescribedBy strict value := by
  induction size : sizeOf value using Nat.strongRecOn generalizing value with
  | ind total ih =>
    subst size
    have below : ∀ turn child, value.turn? turn = some child →
        ∃ stack : StackSpec, stack.DescribedBy strict child := by
      intro turn child turned
      refine ih _ (Json.sizeOf_turn? turned) (proper.turn? turned)
        (fun path object found => each (turn :: path) object ?_) rfl
      rw [Json.at?, turned]
      exact found
    have isBlock := each [] value rfl
    obtain ⟨spec, reads⟩ := isBlock.exists_reads
    obtain ⟨rows, within, _⟩ :=
      @exists_rows strict (fun _ _ => True) (value.entries "inputs") fun name child member => by
      obtain ⟨stack, described⟩ :=
        below (.input name) child (Table.get?_of_mem (proper.nodup_entries "inputs") member)
      exact ⟨stack, described, trivial⟩
    cases turned : value.turn? .next with
    | none => exact ⟨.block spec rows .empty, isBlock.isObject, reads, isBlock.formed, within, by rw [turned]⟩
    | some follower =>
      obtain ⟨next, described⟩ := below .next follower turned
      exact ⟨.block spec rows next, isBlock.isObject, reads, isBlock.formed, within,
        by rw [turned]; exact described⟩

/-- Several values describe stacks if each of them does. -/
theorem exists_describedBys {values : List Json}
    (each : ∀ value ∈ values, ∃ stack : StackSpec, stack.DescribedBy strict value) :
    ∃ tops : List StackSpec, List.Forall₂ (Stack.DescribedBy strict) tops values := by
  induction values with
  | nil => exact ⟨[], .nil⟩
  | cons value rest ih =>
    obtain ⟨⟨stack, here⟩, later⟩ := List.forall_mem_cons.mp each
    obtain ⟨others, there⟩ := ih later
    exact ⟨stack :: others, .cons here there⟩

end Blocks

section Declarations

/-- A declaration is read just if it has the format. -/
theorem exists_readVariable {place : String} {value : Json} :
    (∃ declared, readVariable place value = .ok declared) ↔ value.IsDeclaration := by
  cases value with
  | object entries =>
    show (∃ declared, (requireMember entries place "name" >>= fun name =>
        requireForm name.isNonEmptyText (place ++ ".name") .nonEmptyText >>= fun _ => pure _) =
        Except.ok declared) ↔
      true ∧ ∃ name, Table.get? entries "name" = some (.text name) ∧ name ≠ ""
    cases found : requireMember entries place "name" with
    | error error =>
      refine iff_of_false ?_ ?_
      · rintro ⟨_, read⟩
        cases read
      · rintro ⟨_, name, named, _⟩
        rw [requireMember_ok.mpr named] at found
        cases found
    | ok value =>
      rw [requireMember_ok.mp found]
      show (∃ declared,
        (requireForm value.isNonEmptyText (place ++ ".name") .nonEmptyText >>= fun _ => pure _) =
        Except.ok declared) ↔ _
      simp only [unit_bind_ok, requireForm_ok]
      cases value with
      | text name => simp [Json.isNonEmptyText, pure, Except.pure]
      | _ => simp [Json.isNonEmptyText]
  | _ =>
    refine iff_of_false ?_ ?_
    · rintro ⟨_, read⟩
      cases read
    · rintro ⟨isObject, _⟩
      cases isObject

/-- Declarations are read just if all have the format. -/
theorem exists_readVariables {place : String} {i : Nat} {values : List Json} :
    (∃ declared, readItemsAt readVariable place i values = .ok declared) ↔
    ∀ value ∈ values, value.IsDeclaration := by
  induction values generalizing i with
  | nil => exact iff_of_true ⟨[], rfl⟩ (by simp)
  | cons value rest ih =>
    rw [List.forall_mem_cons, ← @exists_readVariable s!"{place}[{i}]", ← @ih (i + 1), readItemsAt]
    cases first : readVariable s!"{place}[{i}]" value with
    | error error =>
      exact iff_of_false (by rintro ⟨_, read⟩; cases read) (by rintro ⟨⟨_, read⟩, _⟩; cases read)
    | ok declared =>
      cases others : readItemsAt readVariable place (i + 1) rest with
      | error error =>
        exact iff_of_false (by rintro ⟨_, read⟩; cases read) (by rintro ⟨_, _, read⟩; cases read)
      | ok more => exact iff_of_true ⟨declared :: more, rfl⟩ ⟨⟨declared, rfl⟩, more, rfl⟩

end Declarations

section Documents

variable {strict : Bool} {data : Json}

/-- A value that is read has the format. -/
theorem isDocument_ofJson {document : Document} {unknown : List UnknownType}
    (read : Document.ofJson strict data = .ok (document, unknown)) : data.IsDocument strict := by
  obtain ⟨described, distinct⟩ := ofJson_iff.mp ⟨unknown, read⟩
  have declares := described.declares
  refine ⟨declares.isObject, ⟨_, declares.name⟩, declares.blocks, fun options found => ?_, declares.base,
    fun value found => ?_,
    fun place object found => ?_, described.ids ▸ distinct⟩
  · simpa [found] using declares.options
  · obtain ⟨declarations, shape, readAll⟩ := declares.declared
    rw [found, Option.getD_some] at shape
    exact ⟨declarations, shape, exists_readVariables.mp ⟨_, readAll⟩⟩
  · obtain ⟨_, _, readThere⟩ := Workspace.exists_at_place (readAs_ofJson read) found
    exact readThere.isBlock

/-- A value of the format describes a document. -/
theorem Json.IsDocument.exists_describedBy (format : data.IsDocument strict)
    (proper : data.All Json.IsProper) :
    ∃ document : Document, document.DescribedBy strict data := by
  obtain ⟨name, named⟩ := format.name
  have options : ((data.member? "options").getD (.object [])).isObject := by
    cases found : data.member? "options" with
    | none => rfl
    | some options => exact format.options options found
  have declared : ∃ declarations, (data.member? "variables").getD (.list []) = .list declarations ∧
      ∀ declaration ∈ declarations, declaration.IsDeclaration := by
    cases found : data.member? "variables" with
    | none => exact ⟨[], rfl, by simp⟩
    | some value => exact format.declared value found
  obtain ⟨declarations, found, formed⟩ := declared
  obtain ⟨declared, readAll⟩ := (@exists_readVariables "variables" 0 declarations).mpr formed
  obtain ⟨tops, described⟩ :
    ∃ tops : List StackSpec, List.Forall₂ (Stack.DescribedBy strict) tops data.tops := by
    refine exists_describedBys fun value member => ?_
    obtain ⟨i, there⟩ := List.mem_iff_getElem?.mp member
    exact BlockCompiler.exists_describedBy (proper.tops value member) fun path object below =>
      format.each ⟨i, path⟩ object (Option.bind_eq_some_iff.mpr ⟨value, there, below⟩)
  exact ⟨⟨name, (((data.entries "options").get? "one_based_index").getD .null).isTrue, declared, tops⟩,
    ⟨format.isObject, named, format.blocks, options, format.base, rfl, declarations, found, readAll⟩,
    described⟩

/-- A value is accepted just if it has the format, and on all others the check fails with an error of its
own. -/
theorem ofJson_iff_isDocument (proper : data.All Json.IsProper) :
    ((∃ document unknown, Document.ofJson strict data = .ok (document, unknown)) ↔ data.IsDocument strict) ∧
      ((∃ error : SchemaError, Document.ofJson strict data = .error error) ↔ ¬ data.IsDocument strict) := by
  have accepts : data.IsDocument strict →
      ∃ document unknown, Document.ofJson strict data = .ok (document, unknown) := by
    intro format
    obtain ⟨document, described⟩ := format.exists_describedBy proper
    exact ⟨document, ofJson_iff.mpr ⟨described, described.ids ▸ format.ids⟩⟩
  refine ⟨⟨fun ⟨document, unknown, read⟩ => isDocument_ofJson read, accepts⟩, fun ⟨error, read⟩ format => ?_,
    fun otherwise => ?_⟩
  · obtain ⟨document, unknown, accepted⟩ := accepts format
    rw [read] at accepted
    cases accepted
  · cases read : Document.ofJson strict data with
    | error error => exact ⟨error, rfl⟩
    | ok accepted => exact absurd (isDocument_ofJson read) otherwise

/-- A loop that holds a block of unknown type, with two different ids and with one id twice. -/
theorem ofJson_iff_isDocument_loop :
    let loop (id : String) :=
      Json.object [("type", .text "controls_repeat_ext"), ("id", .text "a"), ("next", .null),
      ("inputs", .object [("DO", .object [("type", .text "motor_start"), ("id", .text id)])])]
    let data (id : String) := Json.object [("name", .text "loop"), ("blocks", .list [loop id])]
    (data "b").IsDocument false ∧ ¬ (data "b").IsDocument true ∧ ¬ (data "a").IsDocument false := by
  intro loop data
  have proper : ∀ id, (data id).All Json.IsProper := by
    simp [data, loop, Json.All, Json.AllMembers, Json.AllItems, Json.IsProper, Table.keys]
  have accepted : (Document.ofJson false (data "b")).toOption.any fun _ => true := by decide +kernel
  have refused : (Document.ofJson true (data "b")).toOption.isNone ∧
      (Document.ofJson false (data "a")).toOption.isNone := by
    decide +kernel
  have fails : ∀ {strict : Bool} {id : String}, (Document.ofJson strict (data id)).toOption.isNone →
      ∃ error : SchemaError, Document.ofJson strict (data id) = .error error := by
    intro strict id none
    cases read : Document.ofJson strict (data id) with
    | error error => exact ⟨error, rfl⟩
    | ok accepted =>
      rw [read] at none
      cases none
  obtain ⟨⟨document, unknown⟩, read, _⟩ := exists_ok_of_any accepted
  exact ⟨(ofJson_iff_isDocument (proper "b")).1.mp ⟨document, unknown, read⟩,
    (ofJson_iff_isDocument (proper "b")).2.mp (fails refused.1),
    (ofJson_iff_isDocument (proper "a")).2.mp (fails refused.2)⟩

end Documents

end BlockCompiler
