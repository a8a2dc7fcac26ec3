import BlockCompiler.Proofs.Document.Restated

/-!
Documents of which each block is edited in the same way: values of a document with members of their blocks
dropped or changed, and stacks with other blocks in the same places. They are loaded just as well.
-/

namespace BlockCompiler

section Values

/-- How the members of each block are edited, save for the ones that hold other blocks: what a member of a
name becomes, if it is not dropped. -/
abbrev MemberEdit := String → Option (Json → Json)

mutual

/-- The value of a block with its own members edited, and those of all blocks below it. -/
def Json.edited (own : MemberEdit) : Json → Json
  | .object members => .object (Json.editedMembers own members)
  | value => value

/-- The members of a block, edited. -/
def Json.editedMembers (own : MemberEdit) : List (String × Json) → List (String × Json)
  | [] => []
  | (key, value) :: rest =>
    if key = "next" then (key, value.edited own) :: Json.editedMembers own rest
    else if key = "inputs" then (key, value.editedInputs own) :: Json.editedMembers own rest
    else ((own key).toList.map fun edit => (key, edit value)) ++ Json.editedMembers own rest

/-- The inputs of a block, with edited blocks in them. -/
def Json.editedInputs (own : MemberEdit) : Json → Json
  | .object sockets => .object (Json.editedSockets own sockets)
  | value => value

/-- What is plugged into a block, edited. -/
def Json.editedSockets (own : MemberEdit) : List (String × Json) → List (String × Json)
  | [] => []
  | (name, value) :: rest => (name, value.edited own) :: Json.editedSockets own rest

end

/-- The blocks of a document, edited. -/
def Json.editedBlocks (own : MemberEdit) : Json → Json
  | .list blocks => .list (blocks.map (Json.edited own))
  | value => value

/-- The value of a document with its blocks edited. -/
def Json.editedDocument (own : MemberEdit) : Json → Json
  | .object members =>
    .object (members.map fun (key, value) => (key, if key = "blocks" then value.editedBlocks own else value))
  | value => value

variable {own : MemberEdit}

/-- What is under a key of an edited block. -/
theorem Json.get?_editedMembers (members : Table Json) (key : String) :
    Table.get? (Json.editedMembers own members) key =
    if key = "next" then (members.get? key).map (Json.edited own)
    else if key = "inputs" then (members.get? key).map (Json.editedInputs own)
    else (own key).bind fun edit => (members.get? key).map edit := by
  induction members with
  | nil =>
    rw [Json.editedMembers]
    simp [Table.get?]
  | cons member rest ih =>
    obtain ⟨k, v⟩ := member
    have other : ∀ {value : Json} {more : Table Json}, k ≠ key →
        Table.get? ((k, value) :: more) key = more.get? key :=
      fun differ => if_neg differ
    have here : ∀ {value : Json} {more : Table Json}, Table.get? ((k, value) :: more) k = some value :=
      if_pos rfl
    by_cases same : k = key
    · subst same
      rw [here, Json.editedMembers]
      split_ifs with next inputs
      · exact here
      · exact here
      · rw [if_neg next, if_neg inputs] at ih
        cases edit : own k with
        | none =>
          rw [edit] at ih
          exact ih
        | some edit => exact here
    · rw [other same, ← ih, Json.editedMembers]
      split_ifs
      · exact other same
      · exact other same
      · cases own k with
        | none => rfl
        | some edit => exact other same

theorem Json.get?_editedMembers_own (members : Table Json) {key : String} (apart : key ∉ ["next", "inputs"]) :
    Table.get? (Json.editedMembers own members) key = (own key).bind fun edit =>
      Option.map edit (members.get? key) := by
  simp only [List.mem_cons, List.not_mem_nil, or_false, not_or] at apart
  rw [Json.get?_editedMembers, if_neg apart.1, if_neg apart.2]

/-- A member that is kept stays under its key. -/
theorem Json.get?_editedMembers_kept (members : Table Json) {key : String}
    (apart : key ∉ ["next", "inputs"]) (kept : own key = some id) :
    Table.get? (Json.editedMembers own members) key = members.get? key := by
  rw [Json.get?_editedMembers_own members apart, kept]
  exact Option.map_id_apply ..

theorem Json.isObject_edited (value : Json) : (value.edited own).isObject = value.isObject := by
  cases value <;> rw [Json.edited] <;> simp [Json.isObject]

theorem Json.isNull_edited (value : Json) : (value.edited own).isNull = value.isNull := by
  cases value <;> rw [Json.edited] <;> simp [Json.isNull]

theorem Json.isObject_editedInputs (value : Json) : (value.editedInputs own).isObject = value.isObject := by
  cases value <;> rw [Json.editedInputs] <;> simp [Json.isObject]

theorem Json.members_edited {value : Json} (isObject : value.isObject) :
    (value.edited own).members = Json.editedMembers own value.members := by
  cases value with
  | object members =>
    rw [Json.edited]
    rfl
  | _ => cases isObject

theorem Json.entries_edited {value : Json} (isObject : value.isObject) :
    (value.edited own).entries "inputs" = Json.editedSockets own (value.entries "inputs") := by
  have none : Json.editedSockets own [] = [] := by rw [Json.editedSockets]
  unfold Json.entries Json.member?
  rw [Json.members_edited isObject, Json.get?_editedMembers, if_neg (by decide), if_pos rfl]
  cases Table.get? value.members "inputs" with
  | none => exact none.symm
  | some inputs =>
    rw [Option.map_some, Option.getD_some, Option.getD_some]
    cases inputs with
    | object sockets =>
      rw [Json.editedInputs]
      rfl
    | _ => rw [Json.editedInputs] <;> first | exact none.symm | simp

theorem Json.turn?_edited {value : Json} (isObject : value.isObject) :
    (value.edited own).turn? .next = (value.turn? .next).map (Json.edited own) := by
  unfold Json.turn? Json.member?
  rw [Json.members_edited isObject, Json.get?_editedMembers, if_pos rfl]
  cases Table.get? value.members "next" with
  | none => rfl
  | some follower =>
    rw [Option.map_some, Option.filter_some, Option.filter_some, Json.isNull_edited]
    split_ifs <;> rfl

theorem Table.get?_map {α β : Type} (f : String → α → β) (t : Table α) (key : String) :
    Table.get? (t.map fun (key, value) => (key, f key value)) key = (t.get? key).map (f key) := by
  induction t with
  | nil => rfl
  | cons entry rest ih =>
    obtain ⟨k, v⟩ := entry
    rw [List.map_cons, Table.get?, Table.get?]
    split_ifs with same
    · rw [same]
      rfl
    · exact ih

theorem Json.member?_editedDocument (data : Json) (key : String) : (data.editedDocument own).member? key =
    if key = "blocks" then (data.member? key).map (Json.editedBlocks own) else data.member? key := by
  cases data with
  | object members =>
    have mapped :=
      Table.get?_map (fun key value => if key = "blocks" then Json.editedBlocks own value else value) members
        key
    refine mapped.trans ?_
    show _ = if key = "blocks" then (Table.get? members key).map (Json.editedBlocks own)
      else Table.get? members key
    split_ifs
    · rfl
    · exact Option.map_id_apply ..
  | _ => exact (ite_self _).symm

end Values

section Stacks

mutual

/-- A stack as written down with other blocks in the same places. -/
def Stack.edited (f : BlockSpec → BlockSpec) : StackSpec → StackSpec
  | .empty => .empty
  | .block spec inputs next => .block (f spec) (inputs.edited f) (next.edited f)

/-- What is in some inputs, with other blocks in the same places. -/
def Rows.edited (f : BlockSpec → BlockSpec) : Rows BlockSpec String → Rows BlockSpec String
  | .nil => .nil
  | .cons name plugged rest => .cons name (plugged.edited f) (rest.edited f)

end

/-- A document with other blocks in the same places. -/
def Document.edited (f : BlockSpec → BlockSpec) (document : Document) : Document :=
  { document with tops := document.tops.map (Stack.edited f) }

variable {f g : BlockSpec → BlockSpec}

mutual

theorem Stack.heads_edited (stack : StackSpec) : (stack.edited f).heads = stack.heads.map f := by
  match stack with
  | .empty =>
    rw [Stack.edited]
    rfl
  | .block spec inputs next =>
    rw [Stack.edited, Stack.heads, Stack.heads, Rows.heads_edited inputs, Stack.heads_edited next,
      List.map_cons, List.map_append]

theorem Rows.heads_edited (rows : Rows BlockSpec String) : (rows.edited f).heads = rows.heads.map f := by
  match rows with
  | .nil =>
    rw [Rows.edited]
    rfl
  | .cons name plugged rest =>
    rw [Rows.edited, Rows.heads, Rows.heads, Stack.heads_edited plugged, Rows.heads_edited rest,
      List.map_append]

end

mutual

theorem Stack.size_edited (stack : StackSpec) : (stack.edited f).size = stack.size := by
  match stack with
  | .empty => rw [Stack.edited]
  | .block spec inputs next =>
    rw [Stack.edited, Stack.size, Stack.size, Rows.size_edited inputs, Stack.size_edited next]

theorem Rows.size_edited (rows : Rows BlockSpec String) : (rows.edited f).size = rows.size := by
  match rows with
  | .nil => rw [Rows.edited]
  | .cons name plugged rest =>
    rw [Rows.edited, Rows.size, Rows.size, Stack.size_edited plugged, Rows.size_edited rest]

end

mutual

/-- What is edited after it has been edited before. -/
theorem Stack.edited_edited (stack : StackSpec) : (stack.edited f).edited g = stack.edited (g ∘ f) := by
  match stack with
  | .empty => simp only [Stack.edited]
  | .block spec inputs next =>
    simp only [Stack.edited, Rows.edited_edited inputs, Stack.edited_edited next]
    rfl

theorem Rows.edited_edited (rows : Rows BlockSpec String) :
    (rows.edited f).edited g = rows.edited (g ∘ f) := by
  match rows with
  | .nil => simp only [Rows.edited]
  | .cons name plugged rest => simp only [Rows.edited, Stack.edited_edited plugged, Rows.edited_edited rest]

end

mutual

/-- The same variables are used if each block uses the same. -/
theorem Stack.used_edited (same : ∀ spec : BlockSpec, (f spec).content.used = spec.content.used)
    (stack : StackSpec) :
    (stack.edited f).used = stack.used := by
  match stack with
  | .empty => rw [Stack.edited]
  | .block spec inputs next =>
    rw [Stack.edited, Stack.used, Stack.used, Rows.used_edited same inputs, Stack.used_edited same next, same]

theorem Rows.used_edited (same : ∀ spec : BlockSpec, (f spec).content.used = spec.content.used)
    (rows : Rows BlockSpec String) :
    (rows.edited f).used = rows.used := by
  match rows with
  | .nil => rw [Rows.edited]
  | .cons name plugged rest =>
    rw [Rows.edited, Rows.used, Rows.used, Stack.used_edited same plugged, Rows.used_edited same rest]

end

theorem Rows.labels_edited (rows : Rows BlockSpec String) : (rows.edited f).labels = rows.labels := by
  match rows with
  | .nil => rw [Rows.edited]
  | .cons name plugged rest => rw [Rows.edited, Rows.labels, Rows.labels, Rows.labels_edited rest]

theorem Rows.find?_edited (rows : Rows BlockSpec String) (name : String) :
    (rows.edited f).find? name = (rows.find? name).map fun (k, plugged) => (k, plugged.edited f) := by
  match rows with
  | .nil => rw [Rows.edited]; rfl
  | .cons label plugged rest =>
    rw [Rows.edited, Rows.find?, Rows.find?, Rows.find?_edited rest, Stack.size_edited]
    split_ifs
    · rfl
    · cases rest.find? name <;> rfl

theorem starts_edited (n : Nat) (tops : List StackSpec) :
    starts n (tops.map (Stack.edited f)) = starts n tops := by
  induction tops generalizing n with
  | nil => rfl
  | cons top rest ih => rw [List.map_cons, starts, starts, ih, Stack.size_edited]

variable {R : BlockSpec → BlockSpec → Prop}

mutual

/-- A stack that can be built says in another way what it says, if each of its blocks does. -/
theorem Stack.Builds.restates_edited {asValue : Bool} {stack : StackSpec} (builds : stack.Builds asValue)
    (each : ∀ spec ∈ stack.heads, R spec (f spec)) : stack.Restates R (stack.edited f) := by
  match stack with
  | .empty =>
    rw [Stack.edited]
    rfl
  | .block spec inputs next =>
    obtain ⟨_, distinct, into, _, below⟩ := builds
    obtain ⟨here, others⟩ := List.forall_mem_cons.mp each
    obtain ⟨inside, after⟩ := List.forall_mem_append.mp others
    rw [Stack.edited]
    refine ⟨_, _, _, rfl, here, ?_, ?_, ?_, below.restates_edited after⟩
    · rw [Rows.labels_edited]
    · exact .inr (Rows.labels_edited inputs)
    · refine into.restated_edited distinct inside fun name k plugged found => ?_
      exact ⟨k, by rw [Rows.find?_edited, found]; rfl⟩

/-- What is built into a block is, edited, where it is found. -/
theorem Rows.BuildsInto.restated_edited {inputs others : Rows BlockSpec String} {specs : List RowSpec}
    (into : inputs.BuildsInto specs)
    (distinct : inputs.labels.Nodup) (each : ∀ spec ∈ inputs.heads, R spec (f spec))
    (there : ∀ name k plugged, inputs.find? name = some (k, plugged) →
    ∃ j, others.find? name = some (j, plugged.edited f)) :
    inputs.RestatedIn R others := by
  match inputs with
  | .nil => trivial
  | .cons label first rest =>
    obtain ⟨⟨_, _, _, builds⟩, intoRest⟩ := into
    obtain ⟨apart, distinct⟩ := List.nodup_cons.mp distinct
    obtain ⟨inside, later⟩ := List.forall_mem_append.mp each
    obtain ⟨j, found⟩ := there label 0 first (by rw [Rows.find?, if_pos rfl])
    exact ⟨⟨j, _, found, builds.restates_edited inside⟩,
      intoRest.restated_edited distinct later fun name k plugged below =>
      there name _ plugged (Rows.find?_rest apart below)⟩

end

end Stacks

/-- How members are edited fits how blocks are, where the blocks are read. -/
structure EditsAs (strict : Bool) (own : MemberEdit) (f : BlockSpec → BlockSpec) : Prop where
  reads : ∀ {spec : BlockSpec} {members : Table Json}, spec.Reads strict members →
    (f spec).Reads strict (Json.editedMembers own members)
  formed : ∀ {members : Table Json}, Formed members → Formed (Json.editedMembers own members)

section Described

variable {strict : Bool} {own : MemberEdit} {f : BlockSpec → BlockSpec}

/-- Edited members are read as the block with another type and another comment, if they tell these and the
other members are kept. -/
theorem BlockSpec.Reads.edited {spec : BlockSpec} {members : Table Json} (reads : spec.Reads strict members)
    {type : String}
    {comment : Option String}
    (kept : ∀ key ∈ ["id", "fields", "mutation", "disabled", "x", "y"], own key = some id)
    (typed : Table.get? (Json.editedMembers own members) "type" = some (.text type))
    (commented : comment = commentOf
    ((Table.get? (Json.editedMembers own members) "comment").bind Json.asText?))
    (kind : BlockKind.ofName? type = BlockKind.ofName? spec.type) :
    BlockSpec.Reads strict (Json.editedMembers own members) { spec with type, comment } := by
  have same : ∀ {key}, key ∉ ["next", "inputs"] → key ∈ ["id", "fields", "mutation", "disabled", "x", "y"] →
      Table.get? (Json.editedMembers own members) key = members.get? key :=
    fun apart among => Json.get?_editedMembers_kept members apart (kept _ among)
  exact {
    type := typed
    fields := by rw [same (by decide) (by decide), ← reads.fields]
    mutation := by rw [same (by decide) (by decide), ← reads.mutation]
    comment := commented
    disabled := by rw [same (by decide) (by decide), ← reads.disabled]
    ownId := by rw [same (by decide) (by decide), ← reads.ownId]
    x := by rw [same (by decide) (by decide), ← reads.x]
    y := by rw [same (by decide) (by decide), ← reads.y]
    placed := reads.placed
    known := fun known named => reads.known known (kind.symm.trans named)
    unknown := fun unknown => reads.unknown (kind.symm.trans unknown) }

/-- Members have the forms that the schema asks for, edited, if those that it asks for are kept. A comment may
be dropped. -/
theorem formed_edited {members : Table Json} (formed : Formed members)
    (kept : ∀ key ∈ ["id", "fields", "mutation", "disabled", "x", "y"], own key = some id)
    (comment : own "comment" = none ∨ own "comment" = some id) : Formed (Json.editedMembers own members) := by
  have same : ∀ {key}, key ∉ ["next", "inputs"] → key ∈ ["id", "fields", "mutation", "disabled", "x", "y"] →
      Table.get? (Json.editedMembers own members) key = members.get? key :=
    fun apart among => Json.get?_editedMembers_kept members apart (kept _ among)
  refine ⟨?_, ?_, ?_, fun value found => ?_, fun value found => ?_, ?_, ?_, ?_⟩
  · rw [same (by decide) (by decide)]
    exact formed.id
  · rw [same (by decide) (by decide)]
    exact formed.fields
  · rw [same (by decide) (by decide)]
    exact formed.mutation
  · rw [Json.get?_editedMembers, if_neg (by decide), if_pos rfl] at found
    obtain ⟨inputs, there, rfl⟩ := Option.map_eq_some_iff.mp found
    rw [Json.isObject_editedInputs]
    exact formed.inputs inputs there
  · rcases comment with dropped | kept
    · rw [Json.get?_editedMembers_own members (by decide), dropped] at found
      cases found
    · rw [Json.get?_editedMembers_kept members (by decide) kept] at found
      exact formed.comment value found
  · rw [same (by decide) (by decide)]
    exact formed.disabled
  · rw [same (by decide) (by decide)]
    exact formed.x
  · rw [same (by decide) (by decide)]
    exact formed.y

mutual

/-- An edited value describes the edited stack. -/
theorem Stack.DescribedBy.edited (edits : EditsAs strict own f) {stack : StackSpec} {value : Json}
    (described : stack.DescribedBy strict value) :
    (stack.edited f).DescribedBy strict (value.edited own) := by
  match stack with
  | .empty => exact described.elim
  | .block spec inputs next =>
    obtain ⟨isObject, reads, formed, within, below⟩ := described
    rw [Stack.edited]
    refine ⟨(Json.isObject_edited value).trans isObject, ?_, ?_, ?_, ?_⟩
    · rw [Json.members_edited isObject]
      exact edits.reads reads
    · rw [Json.members_edited isObject]
      exact edits.formed formed
    · rw [Json.entries_edited isObject]
      exact within.edited edits
    · rw [Json.turn?_edited isObject]
      cases there : value.turn? .next with
      | none =>
        rw [there] at below
        obtain rfl : next = .empty := below
        rw [Stack.edited]
        rfl
      | some follower =>
        rw [there] at below
        exact Stack.DescribedBy.edited edits below

theorem Rows.DescribedIn.edited (edits : EditsAs strict own f) {rows : Rows BlockSpec String}
    {members : Table Json} (described : rows.DescribedIn strict members) :
    (rows.edited f).DescribedIn strict (Json.editedSockets own members) := by
  match rows with
  | .nil =>
    obtain rfl : members = [] := described
    rw [Rows.edited, Json.editedSockets]
    rfl
  | .cons name plugged rest =>
    obtain ⟨value, others, rfl, first, second⟩ := described
    rw [Rows.edited, Json.editedSockets]
    exact ⟨_, _, rfl, first.edited edits, second.edited edits⟩

end

end Described

section Documents

variable {strict : Bool} {oneBased : Option Bool} {data other : Json} {document : Document} {ws : Workspace}
  {own : MemberEdit} {f g : BlockSpec → BlockSpec}

theorem Document.DescribedBy.edited (edits : EditsAs strict own f)
    (described : document.DescribedBy strict data) :
    (document.edited f).DescribedBy strict (data.editedDocument own) := by
  obtain ⟨blocks, found⟩ := described.declares.blocks
  have blocksEdited : (data.editedDocument own).member? "blocks" =
      some (.list (blocks.map (Json.edited own))) := by
    rw [Json.member?_editedDocument, if_pos rfl, found]
    rfl
  have same : ∀ {key}, key ≠ "blocks" → (data.editedDocument own).member? key = data.member? key := by
    intro key other
    rw [Json.member?_editedDocument, if_neg other]
  have options : (data.editedDocument own).entries "options" = data.entries "options" := by
    unfold Json.entries
    rw [same (by decide)]
  refine ⟨⟨?_, ?_, ⟨_, blocksEdited⟩, ?_, ?_, ?_, ?_⟩, ?_⟩
  · have isObject := described.declares.isObject
    cases data with
    | object => rfl
    | _ => cases isObject
  · rw [same (by decide)]
    exact described.declares.name
  · rw [same (by decide)]
    exact described.declares.options
  · rw [options]
    exact described.declares.base
  · rw [options]
    exact described.declares.oneBased
  · rw [same (by decide)]
    exact described.declares.declared
  · have tops := described.tops
    rw [Json.tops_eq found] at tops
    rw [Json.tops_eq blocksEdited]
    exact List.forall₂_map_left_iff.mpr
      (List.forall₂_map_right_iff.mpr (tops.imp fun _ _ => Stack.DescribedBy.edited edits))

theorem Document.edited_edited : (document.edited f).edited g = document.edited (g ∘ f) := by
  unfold Document.edited
  rw [List.map_map]
  exact congrArg (fun tops => { document with tops })
    (List.map_congr_left fun top _ => Stack.edited_edited top)

/-- An edited document is loaded if the document is, where blocks keep their kinds and ids. -/
theorem Workspace.Loads.exists_edited (loads : ws.Loads oneBased document) (distinct : document.ownIds.Nodup)
    (described : (document.edited f).DescribedBy strict other) (ids : ∀ spec, (f spec).ownId = spec.ownId)
    (kindred : ∀ spec : BlockSpec, spec.Kindred (f spec)) :
    ∃ bare, loadWorkspace strict oneBased other = .ok bare ∧ bare.Loads oneBased (document.edited f) := by
  have distinctEdited : (document.edited f).ownIds.Nodup := by
    have same : (document.edited f).ownIds = document.ownIds := by
      rw [Document.ownIds, Document.edited, List.flatMap_map, Document.ownIds]
      refine List.flatMap_congr fun top _ => ?_
      rw [Stack.ownIds, Stack.heads_edited, List.filterMap_map, Stack.ownIds]
      exact List.filterMap_congr fun spec _ => ids spec
    rwa [same]
  have builds : ∀ top ∈ (document.edited f).tops, top.Builds false := by
    intro top member
    obtain ⟨whole, among, rfl⟩ := List.mem_map.mp member
    have can := (loads.builds whole among).2.2
    exact can.restated id (can.restates_edited fun spec _ => kindred spec)
  exact exists_loadWorkspace described distinctEdited builds oneBased

end Documents

end BlockCompiler
