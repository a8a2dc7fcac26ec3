import BlockCompiler.Proofs.Document.Edited

/-!
Documents without comments, and those without comments and without the names of unknown types, of which all
are given one name. They are loaded just as well, and the blocks are at the same places.
-/

namespace BlockCompiler

mutual

/-- The value of a block without the comments of the block and of all below it. -/
def Json.uncommented : Json → Json
  | .object members => .object (Json.uncommentedMembers members)
  | value => value

/-- The members of a block without the comment and those below. -/
def Json.uncommentedMembers : List (String × Json) → List (String × Json)
  | [] => []
  | (key, value) :: rest =>
    if key = "comment" then Json.uncommentedMembers rest
    else if key = "next" then (key, value.uncommented) :: Json.uncommentedMembers rest
    else if key = "inputs" then (key, value.uncommentedInputs) :: Json.uncommentedMembers rest
    else (key, value) :: Json.uncommentedMembers rest

/-- The inputs of a block without comments. -/
def Json.uncommentedInputs : Json → Json
  | .object sockets => .object (Json.uncommentedSockets sockets)
  | value => value

/-- What is plugged into a block, without comments. -/
def Json.uncommentedSockets : List (String × Json) → List (String × Json)
  | [] => []
  | (name, value) :: rest => (name, value.uncommented) :: Json.uncommentedSockets rest

end

/-- The blocks of a document without comments. -/
def Json.uncommentedBlocks : Json → Json
  | .list blocks => .list (blocks.map Json.uncommented)
  | value => value

/-- The value of a document without the comments of its blocks. -/
def Json.withoutComments : Json → Json
  | .object members =>
    .object (members.map fun (key, value) => (key, if key = "blocks" then value.uncommentedBlocks else value))
  | value => value

/-- Members without the comment. -/
def dropComment : MemberEdit := fun key => if key = "comment" then none else some id

/-- A block without its comment. -/
def BlockSpec.uncommented (spec : BlockSpec) : BlockSpec := { spec with comment := none }

mutual

theorem Json.uncommented_eq (value : Json) : value.uncommented = value.edited dropComment := by
  match value with
  | .object members => rw [Json.uncommented, Json.edited, Json.uncommentedMembers_eq members]
  | .null | .bool _ | .number _ | .text _ | .list _ => rw [Json.uncommented, Json.edited] <;> simp

theorem Json.uncommentedMembers_eq (members : List (String × Json)) :
    Json.uncommentedMembers members = Json.editedMembers dropComment members := by
  match members with
  | [] => rw [Json.uncommentedMembers, Json.editedMembers]
  | (key, value) :: rest =>
    rw [Json.uncommentedMembers, Json.editedMembers, Json.uncommentedMembers_eq rest,
      Json.uncommented_eq value,
      Json.uncommentedInputs_eq value]
    by_cases comment : key = "comment"
    · subst comment
      rfl
    · rw [if_neg comment, dropComment, if_neg comment]
      rfl

theorem Json.uncommentedInputs_eq (value : Json) :
    value.uncommentedInputs = value.editedInputs dropComment := by
  match value with
  | .object sockets => rw [Json.uncommentedInputs, Json.editedInputs, Json.uncommentedSockets_eq sockets]
  | .null | .bool _ | .number _ | .text _ | .list _ => rw [Json.uncommentedInputs, Json.editedInputs] <;> simp

theorem Json.uncommentedSockets_eq (sockets : List (String × Json)) :
    Json.uncommentedSockets sockets = Json.editedSockets dropComment sockets := by
  match sockets with
  | [] => rw [Json.uncommentedSockets, Json.editedSockets]
  | (name, value) :: rest =>
    rw [Json.uncommentedSockets, Json.editedSockets, Json.uncommented_eq value,
      Json.uncommentedSockets_eq rest]

end

theorem Json.withoutComments_eq (data : Json) : data.withoutComments = data.editedDocument dropComment := by
  have blocks : Json.uncommentedBlocks = Json.editedBlocks dropComment := by
    funext value
    cases value with
    | list blocks => exact congrArg Json.list (List.map_congr_left fun value _ => Json.uncommented_eq value)
    | _ => rfl
  cases data with
  | object members =>
    rw [Json.withoutComments, Json.editedDocument, blocks]
  | _ => rfl

section Documents

variable {strict : Bool} {oneBased : Option Bool} {data : Json} {document : Document} {ws : Workspace}

/-- Without its comment, a block says what it says otherwise. -/
theorem editsAs_uncommented : EditsAs strict dropComment BlockSpec.uncommented where
  reads {spec members} reads := by
    have gone : Table.get? (Json.editedMembers dropComment members) "comment" = none :=
      Json.get?_editedMembers_own members (by decide)
    refine reads.edited (by simp [dropComment]) ?_ (by rw [gone]; rfl) rfl
    rw [Json.get?_editedMembers_kept members (by decide) rfl, reads.type]
  formed formed := formed_edited formed (by simp [dropComment]) (.inl rfl)

/-- A document without comments is loaded as the document is, and the blocks stand at the same places. -/
theorem exists_loads_uncommented (loaded : loadWorkspace strict oneBased data = .ok ws) :
    ∃ (document : Document) (bare : Workspace),
    document.DescribedBy strict data ∧ ws.Loads oneBased document ∧
      loadWorkspace strict oneBased data.withoutComments = .ok bare ∧
      bare.Loads oneBased (document.edited BlockSpec.uncommented) := by
  obtain ⟨document, described, distinct, loads⟩ := loads_of_loadWorkspace loaded
  obtain ⟨bare, loadedBare, loadsBare⟩ :=
    loads.exists_edited distinct (described.edited editsAs_uncommented) (fun _ => rfl)
      fun _ => ⟨rfl, fun _ => rfl⟩
  exact ⟨document, bare, described, loads, data.withoutComments_eq ▸ loadedBare, loadsBare⟩

end Documents

/-- A type, or one name for all unknown types. -/
def unnamedType (type : String) : String := if isKnownType type then type else "?"

/-- What stands for a type, with one name for all unknown types. -/
def Json.unnamedType : Json → Json
  | .text type => .text (BlockCompiler.unnamedType type)
  | value => value

/-- Members with one name for all unknown types. -/
def unnameTypes : MemberEdit := fun key => if key = "type" then some Json.unnamedType else some id

/-- The value of a document in which the unknown types of blocks have one name, wherever these blocks are. -/
def Json.unnamed (data : Json) : Json := data.editedDocument unnameTypes

/-- A block with one name for all unknown types. -/
def BlockSpec.unnamed (spec : BlockSpec) : BlockSpec := { spec with type := unnamedType spec.type }

section Types

variable {type : String}

theorem unnamedType_of_known (known : isKnownType type) : unnamedType type = type := if_pos known

theorem unnamedType_of_unknown (unknown : BlockKind.ofName? type = none) : unnamedType type = "?" :=
  if_neg (by simp [isKnownType, unknown])

theorem oneLine_unnamedType (unknown : BlockKind.ofName? type = none) : '\n' ∉ (unnamedType type).toList := by
  rw [unnamedType_of_unknown unknown]
  decide

/-- Known types stay known, and unknown ones unknown. -/
theorem ofName?_unnamedType (type : String) :
    BlockKind.ofName? (unnamedType type) = BlockKind.ofName? type := by
  cases unknown : BlockKind.ofName? type with
  | none =>
    rw [unnamedType_of_unknown unknown]
    decide
  | some kind =>
    have known : isKnownType type := by rw [isKnownType, unknown]; rfl
    rw [unnamedType_of_known known, unknown]

end Types

section Blocks

variable {spec : BlockSpec}

theorem BlockSpec.kindred_unnamed (spec : BlockSpec) : spec.Kindred spec.unnamed :=
  ⟨ofName?_unnamedType spec.type, fun _ => rfl⟩

/-- A block has the same content without the name of its type. -/
theorem BlockSpec.content_unnamed (spec : BlockSpec) :
    spec.unnamed.content = { spec.content with type := unnamedType spec.type } := by
  have fields : defaultFields (unnamedType spec.type) = defaultFields spec.type := by
    rw [defaultFields, defaultFields, ofName?_unnamedType]
  rw [BlockSpec.content, BlockSpec.content, BlockSpec.unnamed, fields]

/-- Without the name of its type, a block says what it says otherwise. -/
theorem editsAs_unnamed {strict : Bool} : EditsAs strict unnameTypes BlockSpec.unnamed where
  reads {spec members} reads := by
    refine reads.edited (by simp [unnameTypes]) ?_ ?_ (ofName?_unnamedType spec.type)
    · rw [Json.get?_editedMembers_own members (by decide), reads.type]
      rfl
    · rw [Json.get?_editedMembers_kept members (by decide) rfl, reads.comment]
  formed formed := formed_edited formed (by simp [unnameTypes]) (.inr rfl)

end Blocks

end BlockCompiler
