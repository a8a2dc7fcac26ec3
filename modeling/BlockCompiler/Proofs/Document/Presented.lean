import BlockCompiler.Proofs.Document.Forest
import BlockCompiler.Proofs.Document.Parts
import BlockCompiler.Proofs.Document.Restated

/-!
Documents that are presented in another way: blocks at the top and the members of objects stand in another
order, blocks have other ids, and those below others stand elsewhere. One is loaded if the other is.
-/

namespace BlockCompiler

/-- Two values are objects with the same members, in some order, or none is an object. -/
structure Json.Permutes (value other : Json) : Prop where
  isObject : other.isObject = value.isObject
  members : value.members.Perm other.members

/-- Two values are objects with the same keys, in some order, or none is an object. -/
structure Json.SharesKeys (value other : Json) : Prop where
  isObject : other.isObject = value.isObject
  keys : (Table.keys value.members).Perm (Table.keys other.members)

/-- Two blocks say the same, apart from what is plugged in and what follows. Blocks at the top stand at the
same place, others at any, and ids are texts or none. -/
structure Json.SaysSameAt (top : Bool) (value other : Json) : Prop where
  isObject : other.isObject = value.isObject
  own : ∀ key ∉ ["id", "fields", "mutation", "inputs", "next", "x", "y"],
    other.member? key = value.member? key
  fields : Option.Rel Json.Permutes (value.member? "fields") (other.member? "fields")
  mutation : Option.Rel Json.Permutes (value.member? "mutation") (other.member? "mutation")
  inputs : Option.Rel Json.SharesKeys (value.member? "inputs") (other.member? "inputs")
  id : (other.member? "id").all Json.isTextValue = (value.member? "id").all Json.isTextValue
  stands : ∀ key ∈ ["x", "y"],
    (other.member? key).all (·.asNumber?.isSome) = (value.member? key).all (·.asNumber?.isSome)
  placed : top → ∀ key ∈ ["x", "y"], other.member? key = value.member? key

/-- Two blocks and all below them say the same: from both, the same turns lead to blocks. -/
def Json.SaysSame (top : Bool) (value other : Json) : Prop :=
  ∀ path, Option.Rel (Json.SaysSameAt (top && path.isEmpty)) (value.at? path) (other.at? path)

/-- A value presents what another does: only its blocks may stand in another order and say the same in another
way. -/
structure Json.Presents (data other : Json) : Prop where
  isObject : other.isObject = data.isObject
  own : ∀ key, key ≠ "blocks" → other.member? key = data.member? key
  blocks : other.member? "blocks" = data.member? "blocks" ∨ ∃ blocks arranged others,
    data.member? "blocks" = some (.list blocks) ∧ other.member? "blocks" = some (.list others) ∧
      blocks.Perm arranged ∧ List.Forall₂ (Json.SaysSame true) arranged others

mutual

/-- The ids that a block and those below it are given. -/
def Json.ids : Json → List String
  | .object members =>
    ((Table.get? members "id").bind Json.asText?).toList ++ (Json.idsInside members ++ Json.idsBelow members)
  | _ => []

/-- The ids of what is plugged into a block, given its members. -/
def Json.idsInside : List (String × Json) → List String
  | [] => []
  | (key, value) :: rest => if key = "inputs" then value.idsOfInputs else Json.idsInside rest

/-- The ids of what follows a block, given its members. -/
def Json.idsBelow : List (String × Json) → List String
  | [] => []
  | (key, value) :: rest => if key = "next" then value.ids else Json.idsBelow rest

/-- The ids of the blocks in an object of inputs. -/
def Json.idsOfInputs : Json → List String
  | .object sockets => Json.idsOfSockets sockets
  | _ => []

/-- The ids of the blocks in some inputs. -/
def Json.idsOfSockets : List (String × Json) → List String
  | [] => []
  | (_, value) :: rest => value.ids ++ Json.idsOfSockets rest

end

section Ids

theorem Json.idsInside_eq (value : Json) :
    Json.idsInside value.members = Json.idsOfSockets (value.entries "inputs") := by
  unfold Json.entries Json.member?
  induction value.members with
  | nil => rw [Json.idsInside]; rfl
  | cons member rest ih =>
    obtain ⟨key, found⟩ := member
    rw [Json.idsInside, Table.get?]
    split_ifs
    · cases found with
      | object sockets =>
        rw [Json.idsOfInputs]
        rfl
      | _ =>
        rw [Json.idsOfInputs]
        · exact (Json.idsOfSockets.eq_1).symm
        · rintro _ ⟨⟩
    · exact ih

theorem Json.idsBelow_eq (value : Json) :
    Json.idsBelow value.members = ((value.turn? .next).map Json.ids).getD [] := by
  unfold Json.turn? Json.member?
  induction value.members with
  | nil => rw [Json.idsBelow]; rfl
  | cons member rest ih =>
    obtain ⟨key, found⟩ := member
    rw [Json.idsBelow, Table.get?]
    split_ifs
    · cases found with
      | null =>
        rw [Json.ids]
        · rfl
        · rintro _ ⟨⟩
      | _ => rfl
    · exact ih

theorem Json.ids_eq {value : Json} (isObject : value.isObject) : value.ids =
    ((value.member? "id").bind Json.asText?).toList ++
      (Json.idsOfSockets (value.entries "inputs") ++ ((value.turn? .next).map Json.ids).getD []) := by
  rw [← Json.idsInside_eq, ← Json.idsBelow_eq]
  cases value with
  | object members => rw [Json.ids]; rfl
  | _ => cases isObject

mutual

/-- The ids of a stack are those in the value that describes it. -/
theorem Stack.DescribedBy.ids {strict : Bool} {stack : StackSpec} {value : Json}
    (described : stack.DescribedBy strict value) :
    value.ids = stack.ownIds := by
  match stack with
  | .empty => exact described.elim
  | .block spec inputs next =>
    obtain ⟨isObject, reads, _, within, below⟩ := described
    have own : spec.ownId = (value.member? "id").bind Json.asText? := reads.ownId
    rw [Json.ids_eq isObject, Stack.ownIds_block, own, within.ids]
    cases there : value.turn? .next with
    | none =>
      rw [there] at below
      obtain rfl : next = .empty := below
      rfl
    | some follower =>
      rw [there] at below
      rw [Option.map_some, Option.getD_some, Stack.DescribedBy.ids below]

theorem Rows.DescribedIn.ids {strict : Bool} {rows : Rows BlockSpec String} {members : Table Json}
    (described : rows.DescribedIn strict members) : Json.idsOfSockets members = rows.ownIds := by
  match rows with
  | .nil =>
    obtain rfl : members = [] := described
    rw [Json.idsOfSockets]
    rfl
  | .cons name plugged rest =>
    obtain ⟨value, others, rfl, first, second⟩ := described
    rw [Json.idsOfSockets, Rows.ownIds_cons, first.ids, second.ids]

end

/-- The ids of a document are those in the value that describes it. -/
theorem Document.DescribedBy.ids {strict : Bool} {data : Json} {document : Document}
    (described : document.DescribedBy strict data) :
    data.tops.flatMap Json.ids = document.ownIds := by
  have tops := described.tops
  rw [Document.ownIds]
  generalize data.tops = values at tops ⊢
  generalize document.tops = whole at tops ⊢
  induction tops with
  | nil => rfl
  | cons first _ ih => rw [List.flatMap_cons, List.flatMap_cons, first.ids, ih]

end Ids

section Same

variable {top : Bool} {value other : Json}

theorem rel_symm {α β : Type} {R : α → β → Prop} {S : β → α → Prop} (back : ∀ {a b}, R a b → S b a)
    {a : Option α} {b : Option β} (related : Option.Rel R a b) : Option.Rel S b a := by
  cases related with
  | none => exact .none
  | some related => exact .some (back related)

theorem exists_of_rel {α β : Type} {R : α → β → Prop} {a : Option α} {b : Option β}
    (related : Option.Rel R a b) {x : α} (there : a = some x) :
    ∃ y, b = some y ∧ R x y := by
  subst there
  cases related with
  | some related => exact ⟨_, rfl, related⟩

theorem none_of_rel {α β : Type} {R : α → β → Prop} {a : Option α} {b : Option β}
    (related : Option.Rel R a b) (absent : a = none) : b = none := by
  subst absent
  cases related
  rfl

theorem rel_refl {α : Type} {R : α → α → Prop} (refl : ∀ a, R a a) (a : Option α) : Option.Rel R a a := by
  cases a with
  | none => exact .none
  | some a => exact .some (refl a)

theorem Json.Permutes.refl (value : Json) : value.Permutes value := ⟨rfl, .refl _⟩

theorem Json.SharesKeys.refl (value : Json) : value.SharesKeys value := ⟨rfl, .refl _⟩

theorem Json.Permutes.symm (permutes : value.Permutes other) : other.Permutes value :=
  ⟨permutes.isObject.symm, permutes.members.symm⟩

theorem Json.SharesKeys.symm (shares : value.SharesKeys other) : other.SharesKeys value :=
  ⟨shares.isObject.symm, shares.keys.symm⟩

theorem Json.SaysSameAt.symm (same : value.SaysSameAt top other) : other.SaysSameAt top value where
  isObject := same.isObject.symm
  own key other := (same.own key other).symm
  fields := rel_symm Json.Permutes.symm same.fields
  mutation := rel_symm Json.Permutes.symm same.mutation
  inputs := rel_symm Json.SharesKeys.symm same.inputs
  id := same.id.symm
  stands key among := (same.stands key among).symm
  placed isTop key among := (same.placed isTop key among).symm

theorem Json.SaysSame.symm (same : value.SaysSame top other) : other.SaysSame top value :=
  fun path => rel_symm Json.SaysSameAt.symm (same path)

/-- Two stacks say the same if their first blocks do, and what every turn leads to from there. -/
theorem Json.saysSame_iff : value.SaysSame top other ↔
    value.SaysSameAt top other ∧
    ∀ turn, Option.Rel (Json.SaysSame false) (value.turn? turn) (other.turn? turn) := by
  constructor
  · intro same
    constructor
    · cases same [] with
      | some here => rwa [List.isEmpty_nil, Bool.and_true] at here
    · intro turn
      have below : ∀ path, Option.Rel (Json.SaysSameAt false) ((value.turn? turn).bind (·.at? path))
          ((other.turn? turn).bind (·.at? path)) := by
        intro path
        have there := same (turn :: path)
        rwa [List.isEmpty_cons, Bool.and_false] at there
      cases first : value.turn? turn with
      | none =>
        cases second : other.turn? turn with
        | none => exact .none
        | some b =>
          have there := below []
          rw [first, second] at there
          cases there
      | some a =>
        cases second : other.turn? turn with
        | none =>
          have there := below []
          rw [first, second] at there
          cases there
        | some b =>
          rw [first, second] at below
          exact .some below
  · rintro ⟨here, below⟩ path
    cases path with
    | nil =>
      rw [List.isEmpty_nil, Bool.and_true]
      exact .some here
    | cons turn path =>
      rw [List.isEmpty_cons, Bool.and_false, Json.at?, Json.at?]
      have there := below turn
      generalize value.turn? turn = first at there ⊢
      generalize other.turn? turn = second at there ⊢
      cases there with
      | none => exact .none
      | some same => exact same path

theorem Json.SaysSameAt.entries {key : String}
    (permutes : Option.Rel Json.Permutes (value.member? key) (other.member? key)) :
    (value.entries key).Perm (other.entries key) := by
  unfold Json.entries
  generalize value.member? key = first at permutes ⊢
  generalize other.member? key = second at permutes ⊢
  cases permutes with
  | none => exact .refl _
  | some permutes => exact permutes.members

theorem Json.SaysSameAt.labels (same : value.SaysSameAt top other) :
    (Table.keys (value.entries "inputs")).Perm (Table.keys (other.entries "inputs")) := by
  have inputs := same.inputs
  unfold Json.entries
  generalize value.member? "inputs" = first at inputs ⊢
  generalize other.member? "inputs" = second at inputs ⊢
  cases inputs with
  | none => exact .refl _
  | some shares => exact shares.keys

end Same

section Tables

theorem Table.get?_perm {α : Type} {t u : Table α} (perm : t.Perm u) (distinct : t.keys.Nodup)
    (key : String) : u.get? key = t.get? key := by
  induction perm with
  | nil => rfl
  | cons entry _ ih =>
    obtain ⟨k, v⟩ := entry
    rw [Table.get?, Table.get?, ih (List.nodup_cons.mp distinct).2]
  | swap first second rest =>
    obtain ⟨k, v⟩ := first
    obtain ⟨l, w⟩ := second
    have differ : l ≠ k := fun same => (List.nodup_cons.mp distinct).1 (same ▸ List.mem_cons_self ..)
    simp only [Table.get?]
    split_ifs with here there
    · exact absurd (there.trans here.symm) differ
    all_goals rfl
  | trans first _ ih ih' => rw [ih' ((first.map _).nodup_iff.mp distinct), ih distinct]

theorem Rows.DescribedIn.labels {strict : Bool} {rows : Rows BlockSpec String} {members : Table Json}
    (described : rows.DescribedIn strict members) : rows.labels = Table.keys members := by
  match rows with
  | .nil =>
    obtain rfl : members = [] := described
    rfl
  | .cons name plugged rest =>
    obtain ⟨value, others, rfl, _, second⟩ := described
    rw [Rows.labels, second.labels]
    rfl

end Tables

/-- Two blocks as written down say the same, whatever their ids and where they stand. -/
structure BlockSpec.SaysSame (spec other : BlockSpec) : Prop extends BlockSpec.Shaped spec other where
  comment : other.comment = spec.comment
  disabled : other.disabled = spec.disabled
  field : ∀ name, other.content.field name = spec.content.field name

section Described

variable {strict top : Bool} {value other : Json} {spec : BlockSpec}

/-- A form that one of two members has, the other has if they are related. -/
theorem forms_of_rel {R : Json → Json → Prop} {holds : Json → Bool} {member counterpart : Option Json}
    (related : Option.Rel R member counterpart) (keeps : ∀ {v w}, R v w → holds w = holds v)
    (formed : ∀ v, member = some v → holds v) : ∀ w, counterpart = some w → holds w := by
  rintro w rfl
  cases related with
  | some related => exact (keeps related).trans (formed _ rfl)

theorem Formed.presented (formed : Formed value.members) (same : value.SaysSameAt top other) :
    Formed other.members := by
  have own : ∀ {key}, key ∉ ["id", "fields", "mutation", "inputs", "next", "x", "y"] →
      other.members.get? key = value.members.get? key :=
    fun notIn => same.own _ notIn
  refine ⟨?_, forms_of_rel same.fields (·.isObject) formed.fields,
    forms_of_rel same.mutation (·.isObject) formed.mutation,
    forms_of_rel same.inputs (·.isObject) formed.inputs, ?_, ?_, ?_, ?_⟩
  · exact (Option.all_eq_true _ _).mp (same.id.trans ((Option.all_eq_true _ _).mpr formed.id))
  · rw [own (by decide)]
    exact formed.comment
  · rw [own (by decide)]
    exact formed.disabled
  · exact (Option.all_eq_true _ _).mp
      ((same.stands "x" (by decide)).trans ((Option.all_eq_true _ _).mpr formed.x))
  · exact (Option.all_eq_true _ _).mp
      ((same.stands "y" (by decide)).trans ((Option.all_eq_true _ _).mpr formed.y))

/-- A coordinate is a number, also where none is given. -/
theorem Formed.stands {member : Option Json} (formed : ∀ v, member = some v → v.asNumber?.isSome) :
    (member.getD (.int 0)).asNumber?.isSome := by
  cases member with
  | none => rfl
  | some v => exact formed v rfl

/-- A block that says the same as one that is read is read as well. -/
theorem BlockSpec.Reads.presented (reads : spec.Reads strict value.members) (formed : Formed value.members)
    (same : value.SaysSameAt top other) (proper : value.All Json.IsProper)
    (proper' : other.All Json.IsProper) :
    ∃ spec' : BlockSpec, spec'.Reads strict other.members ∧ spec.SaysSame spec' := by
  have own : ∀ {key}, key ∉ ["id", "fields", "mutation", "inputs", "next", "x", "y"] →
      other.members.get? key = value.members.get? key :=
    fun notIn => same.own _ notIn
  have formed' := formed.presented same
  have fields : ∀ key, (other.entries "fields").get? key = spec.fields.get? key := by
    rw [reads.fields]
    exact Table.get?_perm (Json.SaysSameAt.entries same.fields) (proper.nodup_entries "fields")
  have mutation : ∀ key, (other.entries "mutation").get? key = spec.mutation.get? key := by
    rw [reads.mutation]
    exact Table.get?_perm (Json.SaysSameAt.entries same.mutation) (proper.nodup_entries "mutation")
  have distinct : spec.fields.keys.Nodup ∧ spec.mutation.keys.Nodup := by
    rw [reads.fields, reads.mutation]
    exact ⟨proper.nodup_entries "fields", proper.nodup_entries "mutation"⟩
  let spec' : BlockSpec := { spec with
    fields := other.entries "fields"
    mutation := other.entries "mutation"
    ownId := (other.member? "id").bind Json.asText?
    x := (other.member? "x").getD (.int 0)
    y := (other.member? "y").getD (.int 0) }
  have type : other.members.get? "type" = some (.text spec'.type) := by
    rw [own (by decide)]
    exact reads.type
  have comment : spec'.comment = commentOf ((other.members.get? "comment").bind Json.asText?) := by
    rw [own (by decide)]
    exact reads.comment
  have disabled : spec'.disabled = ((other.members.get? "disabled").getD .null).isTrue := by
    rw [own (by decide)]
    exact reads.disabled
  refine ⟨spec',
    ⟨type, rfl, rfl, comment, disabled, rfl, rfl, rfl, ⟨Formed.stands formed'.x, Formed.stands formed'.y⟩, ?_,
    reads.unknown⟩,
    ⟨⟨rfl, ?_⟩, rfl, rfl, ?_⟩⟩
  · intro kind named
    obtain ⟨place, passes, mutates⟩ := reads.known kind named
    have passes := checkFields_ok.mp passes
    have mutates := checkMutation_ok.mp mutates
    refine ⟨place, checkFields_ok.mpr ?_, checkMutation_ok.mpr ?_⟩
    · constructor <;> simp only [spec', fields]
      exacts [passes.choice, passes.used, passes.name, passes.number, passes.text]
    · constructor <;> simp only [spec', mutation]
      exacts [mutates.items, mutates.arms, mutates.otherwise, mutates.params]
  · intro key
    rw [Table.get?_ofEntries (proper'.nodup_entries "mutation"), Table.get?_ofEntries distinct.2, mutation]
  · intro name
    have both : spec'.content.fields.get? name = spec.content.fields.get? name := by
      show ((defaultFields spec.type).update (other.entries "fields")).get? name =
        ((defaultFields spec.type).update spec.fields).get? name
      rw [Table.get?_update (proper'.nodup_entries "fields"), Table.get?_update distinct.1, fields]
    rw [BlockContent.field, BlockContent.field, both]

end Described

/-- All blocks at and below a value are of known types. -/
def Json.IsKnown (value : Json) : Prop :=
  ∀ path object type, value.at? path = some object → object.member? "type" = some (.text type) →
    isKnownType type

section Stacks

variable {strict : Bool}

theorem Json.IsKnown.turn? {value child : Json} {turn : Turn} (known : value.IsKnown)
    (turned : value.turn? turn = some child) :
    child.IsKnown := by
  intro path object type found named
  refine known (turn :: path) object type ?_ named
  rw [Json.at?, turned]
  exact found

theorem Json.All.turn? {P : Json → Prop} {value child : Json} {turn : Turn} (all : value.All P)
    (turned : value.turn? turn = some child) :
    child.All P := by
  cases turn with
  | input name => exact (all.entries "inputs").get? turned
  | next =>
    obtain ⟨found, _⟩ := Option.filter_eq_some_iff.mp turned
    exact all.member? found

/-- There are rows that some members describe if each of these describes a stack. -/
theorem exists_rows {Q : String → StackSpec → Prop} {members : Table Json}
    (each : ∀ name value, (name, value) ∈ members → ∃ stack : StackSpec, stack.DescribedBy strict value ∧
    Q name stack) :
    ∃ rows : Rows BlockSpec String, rows.DescribedIn strict members ∧
      ∀ name k found, rows.find? name = some (k, found) → Q name found := by
  induction members with
  | nil => exact ⟨.nil, rfl, by rintro _ _ _ ⟨⟩⟩
  | cons member rest ih =>
    obtain ⟨label, value⟩ := member
    obtain ⟨first, described, holds⟩ := each label value (List.mem_cons_self ..)
    obtain ⟨rows, within, all⟩ := ih fun name value member => each name value (List.mem_cons_of_mem _ member)
    refine ⟨.cons label first rows, ⟨_, _, rfl, described, within⟩, fun name k found there => ?_⟩
    rcases Rows.find?_cons there with ⟨rfl, _, rfl⟩ | ⟨_, j, below, _⟩
    · exact holds
    · exact all name j found below

/-- Inputs that have counterparts among some members are restated in rows that these describe. -/
theorem Rows.DescribedIn.exists_restated {R : BlockSpec → BlockSpec → Prop} {inputs : Rows BlockSpec String}
    {members others : Table Json}
    (described : inputs.DescribedIn strict members) (distinct : members.keys.Nodup)
    (keys : members.keys.Perm others.keys)
    (counterparts : ∀ name k plugged, inputs.find? name = some (k, plugged) → ∃ w, others.get? name = some w ∧
      ∃ stack' : StackSpec, stack'.DescribedBy strict w ∧ plugged.Restates R stack') :
    ∃ rows : Rows BlockSpec String, rows.DescribedIn strict others ∧ rows.labels.Perm inputs.labels ∧
    inputs.RestatedIn R rows := by
  have distinct' := keys.nodup_iff.mp distinct
  obtain ⟨rows, described', restates⟩ := @exists_rows strict
    (fun name stack' => ∀ k plugged, inputs.find? name = some (k, plugged) → plugged.Restates R stack') others
      fun name w member => by
      have labelled : name ∈ inputs.labels := by
        rw [described.labels, keys.mem_iff]
        exact List.mem_map_of_mem member
      obtain ⟨⟨k, plugged⟩, found⟩ := Option.isSome_iff_exists.mp (Rows.find?_isSome.mpr labelled)
      obtain ⟨v, found', stack', described', restates⟩ := counterparts name k plugged found
      obtain rfl : w = v := Option.some.inj ((Table.get?_of_mem distinct' member).symm.trans found')
      refine ⟨stack', described', fun _ _ there => ?_⟩
      obtain ⟨_, rfl⟩ := Prod.mk.inj (Option.some.inj (found.symm.trans there))
      exact restates
  have labels : rows.labels.Perm inputs.labels := by
    rw [described'.labels, described.labels]
    exact keys.symm
  refine ⟨rows, described', labels,
    Rows.restatedIn_of_find? (described.labels ▸ distinct) fun name k plugged found => ?_⟩
  have labelled : name ∈ rows.labels := labels.mem_iff.mpr (Rows.find?_isSome.mp (by rw [found]; rfl))
  obtain ⟨⟨j, counterpart⟩, found'⟩ := Option.isSome_iff_exists.mp (Rows.find?_isSome.mpr labelled)
  exact ⟨j, counterpart, found', restates name j counterpart found' k plugged found⟩

mutual

/-- What describes a stack, and says the same in another way, describes the stack in another way. -/
theorem Stack.DescribedBy.presented {top : Bool} {stack : StackSpec} {value other : Json}
    (described : stack.DescribedBy strict value) (same : value.SaysSame top other) (known : value.IsKnown)
    (proper : value.All Json.IsProper) (proper' : other.All Json.IsProper) :
    ∃ stack' : StackSpec, stack'.DescribedBy strict other ∧ stack.Restates BlockSpec.SaysSame stack' := by
  match stack with
  | .empty => exact described.elim
  | .block spec inputs next =>
    obtain ⟨isObject, reads, formed, within, below⟩ := described
    obtain ⟨here, turns⟩ := Json.saysSame_iff.mp same
    obtain ⟨spec', reads', alike⟩ := reads.presented formed here proper proper'
    have distinct := proper.nodup_entries "inputs"
    obtain ⟨rows, within', labels, inside⟩ := within.exists_restated distinct here.labels <|
      within.presented distinct fun name v found => by
        have turned : value.turn? (.input name) = some v := found
        obtain ⟨w, turned', same⟩ := exists_of_rel (turns _) turned
        exact ⟨w, turned', same, known.turn? turned, proper.turn? turned, proper'.turn? turned'⟩
    have follows : ∃ next' : StackSpec, (match other.turn? .next with
        | some follower => next'.DescribedBy strict follower
        | none => next' = .empty) ∧ next.Restates BlockSpec.SaysSame next' := by
      cases turned : value.turn? .next with
      | none =>
        rw [turned] at below
        obtain rfl : next = .empty := below
        rw [none_of_rel (turns _) turned]
        exact ⟨.empty, rfl, rfl⟩
      | some v =>
        rw [turned] at below
        obtain ⟨w, turned', same⟩ := exists_of_rel (turns _) turned
        rw [turned']
        exact Stack.DescribedBy.presented below same (known.turn? turned) (proper.turn? turned)
          (proper'.turn? turned')
    obtain ⟨next', below', after⟩ := follows
    exact ⟨.block spec' rows next',
      ⟨here.isObject.trans isObject, reads', formed.presented here, within', below'⟩,
      spec', rows, next', rfl, alike, labels, .inl (known [] value spec.type rfl reads.type), inside, after⟩

/-- Each of the inputs is described in another way. -/
theorem Rows.DescribedIn.presented {rows : Rows BlockSpec String} {members others : Table Json}
    (described : rows.DescribedIn strict members)
    (distinct : members.keys.Nodup)
      (each : ∀ name v, members.get? name = some v → ∃ w, others.get? name = some w ∧
      v.SaysSame false w ∧ v.IsKnown ∧ v.All Json.IsProper ∧ w.All Json.IsProper) :
    ∀ name k plugged, rows.find? name = some (k, plugged) → ∃ w, others.get? name = some w ∧
      ∃ stack' : StackSpec, stack'.DescribedBy strict w ∧ plugged.Restates BlockSpec.SaysSame stack' := by
  match rows with
  | .nil => rintro _ _ _ ⟨⟩
  | .cons label first rest =>
    obtain ⟨value, members, rfl, here, there⟩ := described
    obtain ⟨apart, distinct⟩ := List.nodup_cons.mp distinct
    intro name k plugged found
    rcases Rows.find?_cons found with ⟨rfl, _, is⟩ | ⟨_, j, below, _⟩
    · obtain ⟨w, found', same, known, proper, proper'⟩ := each label value (if_pos rfl)
      exact is ▸ ⟨w, found', here.presented same known proper proper'⟩
    · refine there.presented distinct (fun name v found => each name v ?_) name j plugged below
      rw [Table.get?, if_neg, found]
      rintro rfl
      exact apart (List.mem_map.mpr ⟨_, Table.mem_of_get? found, rfl⟩)

end

end Stacks

section Documents

variable {strict : Bool} {oneBased : Option Bool} {data other : Json} {document : Document}

theorem Json.SaysSame.refl (top : Bool) (value : Json) : value.SaysSame top value := by
  have same : ∀ (top : Bool) (found : Json), found.SaysSameAt top found := fun _ _ =>
    ⟨rfl, fun _ _ => rfl, rel_refl Json.Permutes.refl _, rel_refl Json.Permutes.refl _,
      rel_refl Json.SharesKeys.refl _, rfl,
      fun _ _ => rfl, fun _ _ _ => rfl⟩
  exact fun path => rel_refl (same _) _

theorem Json.Presents.symm (presents : data.Presents other) : other.Presents data := by
  refine ⟨presents.isObject.symm, fun key isOwn => (presents.own key isOwn).symm, ?_⟩
  rcases presents.blocks with same | ⟨blocks, arranged, others, found, found', perm, same⟩
  · exact .inl same.symm
  · have turned : List.Forall₂ (flip (Json.SaysSame true)) arranged others :=
      same.imp fun _ _ => Json.SaysSame.symm
    have back : Relation.Comp (List.Forall₂ (Json.SaysSame true)) List.Perm others blocks :=
      ⟨arranged, turned.flip, perm.symm⟩
    rw [List.forall₂_comp_perm_eq_perm_comp_forall₂] at back
    obtain ⟨arranged', perm', same'⟩ := back
    exact .inr ⟨others, arranged', blocks, found', found, perm', same'⟩

/-- The blocks at the top, in another order, say the same as those that are presented. -/
theorem Json.Presents.tops (presents : data.Presents other) :
    ∃ arranged, data.tops.Perm arranged ∧ List.Forall₂ (Json.SaysSame true) arranged other.tops := by
  rcases presents.blocks with same | ⟨blocks, arranged, others, found, found', perm, same⟩
  · refine ⟨data.tops, .refl _, ?_⟩
    rw [show other.tops = data.tops by unfold Json.tops; rw [same]]
    exact List.forall₂_same.mpr fun value _ => .refl true value
  · rw [Json.tops_eq found, Json.tops_eq found']
    exact ⟨arranged, perm, same⟩

/-- Two stacks say the same in another way, and stand at the same place. -/
def Stack.SaysSame (top other : StackSpec) : Prop :=
  top.Restates BlockSpec.SaysSame other ∧
    Option.Rel (fun spec spec' : BlockSpec => spec'.x = spec.x ∧ spec'.y = spec.y) top.head? other.head?

/-- A stack at the top is described in another way, and stands at the same place. -/
theorem Stack.DescribedBy.top_presented {stack : StackSpec} {value other : Json}
    (described : stack.DescribedBy strict value) (same : value.SaysSame true other) (known : value.IsKnown)
    (proper : value.All Json.IsProper) (proper' : other.All Json.IsProper) :
    ∃ stack' : StackSpec, stack'.DescribedBy strict other ∧ stack.SaysSame stack' := by
  obtain ⟨stack', described', restates⟩ := described.presented same known proper proper'
  refine ⟨stack', described', restates, ?_⟩
  cases stack with
  | empty => exact described.elim
  | block spec inputs next =>
    obtain ⟨spec', inputs', next', rfl, _⟩ := restates
    obtain ⟨_, reads, _⟩ := described
    obtain ⟨_, reads', _⟩ := described'
    have placed := (Json.saysSame_iff.mp same).1.placed rfl
    have x : other.members.get? "x" = value.members.get? "x" := placed "x" (by decide)
    have y : other.members.get? "y" = value.members.get? "y" := placed "y" (by decide)
    exact .some ⟨by rw [reads'.x, reads.x, x], by rw [reads'.y, reads.y, y]⟩

/-- Stacks are described in another way, each where it stands. -/
theorem exists_tops_presented {tops : List StackSpec} {values others : List Json}
    (described : List.Forall₂ (Stack.DescribedBy strict) tops values)
    (same : List.Forall₂ (Json.SaysSame true) values others) (known : ∀ value ∈ values, value.IsKnown)
    (proper : ∀ value ∈ values, value.All Json.IsProper)
    (proper' : ∀ value ∈ others, value.All Json.IsProper) :
    ∃ tops', List.Forall₂ (Stack.DescribedBy strict) tops' others ∧
    List.Forall₂ Stack.SaysSame tops tops' := by
  induction described generalizing others with
  | nil =>
    cases same
    exact ⟨[], .nil, .nil⟩
  | cons first _ ih =>
    obtain _ | ⟨sameFirst, sameRest⟩ := same
    obtain ⟨knownFirst, knownRest⟩ := List.forall_mem_cons.mp known
    obtain ⟨properFirst, properRest⟩ := List.forall_mem_cons.mp proper
    obtain ⟨properFirst', properRest'⟩ := List.forall_mem_cons.mp proper'
    obtain ⟨stack', described', standsSame⟩ :=
      first.top_presented sameFirst knownFirst properFirst properFirst'
    obtain ⟨tops', others', standSame⟩ := ih sameRest knownRest properRest properRest'
    exact ⟨stack' :: tops', .cons described' others', .cons standsSame standSame⟩

/-- What describes a document describes it in another way if it is presented in another way. -/
theorem Document.DescribedBy.presented (described : document.DescribedBy strict data)
    (presents : data.Presents other) (known : ∀ top ∈ data.tops, top.IsKnown)
    (proper : data.All Json.IsProper) (proper' : other.All Json.IsProper) :
    ∃ document' : Document, document'.DescribedBy strict other ∧ document'.declared = document.declared ∧
      document'.oneBased = document.oneBased ∧
      ∃ arranged, document.tops.Perm arranged ∧ List.Forall₂ Stack.SaysSame arranged document'.tops := by
  obtain ⟨values, perm, same⟩ := presents.tops
  have rearranged : Relation.Comp (List.Forall₂ (Stack.DescribedBy strict)) List.Perm document.tops values :=
    ⟨_, described.tops, perm⟩
  rw [List.forall₂_comp_perm_eq_perm_comp_forall₂] at rearranged
  obtain ⟨arranged, perm', describedValues⟩ := rearranged
  obtain ⟨tops', describedOthers, standSame⟩ := exists_tops_presented describedValues same
    (fun value member => known value (perm.mem_iff.mpr member))
      (fun value member => proper.tops value (perm.mem_iff.mpr member)) proper'.tops
  have own : ∀ {key}, key ≠ "blocks" → other.member? key = data.member? key :=
    fun isOwn => presents.own _ isOwn
  have options : other.entries "options" = data.entries "options" := by
    unfold Json.entries
    rw [own (by decide)]
  obtain ⟨isObject, name, ⟨blocks, found⟩, isOptions, base, oneBased, declared⟩ := described.declares
  have blocks' : ∃ others, other.member? "blocks" = some (.list others) := by
    rcases presents.blocks with same | ⟨_, _, others, _, found', _⟩
    · exact ⟨blocks, same.trans found⟩
    · exact ⟨others, found'⟩
  refine ⟨{ document with tops := tops' },
    ⟨⟨presents.isObject.trans isObject, ?_, blocks', ?_, ?_, ?_, ?_⟩, describedOthers⟩, rfl, rfl,
    arranged, perm', standSame⟩
  · rw [own (by decide)]
    exact name
  · rw [own (by decide)]
    exact isOptions
  · rw [options]
    exact base
  · rw [options]
    exact oneBased
  · rw [own (by decide)]
    exact declared

/-- All blocks of a document are of known types if those at and below each of its tops are. -/
theorem Json.isKnown_tops : (∀ top ∈ data.tops, top.IsKnown) ↔
    ∀ place object type, data.block? place = some object → object.member? "type" = some (.text type) →
    isKnownType type := by
  constructor
  · intro known place object type found
    obtain ⟨top, here, below⟩ := Option.bind_eq_some_iff.mp found
    exact known top (List.mem_of_getElem? here) place.path object type below
  · intro known top member path object type found
    obtain ⟨i, here⟩ := List.mem_iff_getElem?.mp member
    exact known ⟨i, path⟩ object type (Option.bind_eq_some_iff.mpr ⟨top, here, found⟩)

theorem Json.SaysSame.isKnown {top : Bool} {value other : Json} (same : value.SaysSame top other)
    (known : value.IsKnown) : other.IsKnown := by
  intro path object type found named
  obtain ⟨whole, found', alike⟩ := exists_of_rel (rel_symm (fun same => same) (same path)) found
  exact known path whole type found' ((alike.own "type" (by decide)).symm.trans named)

/-- What is presented in another way has blocks of known types as well. -/
theorem Json.Presents.isKnown (presents : data.Presents other) (known : ∀ top ∈ data.tops, top.IsKnown) :
    ∀ top ∈ other.tops, top.IsKnown := by
  intro top member
  obtain ⟨arranged, perm, same⟩ := presents.tops
  obtain ⟨value, among, alike⟩ := exists_related same.flip member
  have alike : value.SaysSame true top := alike
  exact alike.isKnown (known value (perm.mem_iff.mpr among))

/-- A document that is presented in another way is loaded if the document is, and if no id is there twice. -/
theorem Workspace.Loads.exists_presented {ws : Workspace} (loads : ws.Loads oneBased document)
    (described : document.DescribedBy strict data) (presents : data.Presents other)
    (known : ∀ top ∈ data.tops, top.IsKnown) (proper : data.All Json.IsProper)
    (proper' : other.All Json.IsProper) (distinct : (other.tops.flatMap Json.ids).Nodup) :
    ∃ (document' : Document) (bare : Workspace), loadWorkspace strict oneBased other = .ok bare ∧
      bare.Loads oneBased document' ∧
      document'.declared = document.declared ∧ document'.oneBased = document.oneBased ∧
      ∃ arranged, document.tops.Perm arranged ∧ List.Forall₂ Stack.SaysSame arranged document'.tops := by
  obtain ⟨document', described', declared, base, arranged, perm, same⟩ :=
    described.presented presents known proper proper'
  have builds : ∀ top' ∈ document'.tops, top'.Builds false := by
    intro top' member
    obtain ⟨top, among, restates, _⟩ := exists_related same.flip member
    exact (loads.builds top (perm.mem_iff.mpr among)).2.2.restated (·.toShaped.kindred) restates
  obtain ⟨bare, loaded, loadsBare⟩ :=
    exists_loadWorkspace described' (described'.ids ▸ distinct) builds oneBased
  exact ⟨document', bare, loaded, loadsBare, declared, base, arranged, perm, same⟩

/-- One of two documents that are presented in two ways is accepted if the other is. -/
theorem exists_loadWorkspace_presented (presents : data.Presents other)
    (known : ∀ top ∈ data.tops, top.IsKnown) (proper : data.All Json.IsProper)
    (proper' : other.All Json.IsProper)
    (ids : (data.tops.flatMap Json.ids).Nodup → (other.tops.flatMap Json.ids).Nodup) {ws : Workspace}
    (loaded : loadWorkspace strict oneBased data = .ok ws) :
    ∃ bare, loadWorkspace strict oneBased other = .ok bare := by
  obtain ⟨document, described, distinct, loads⟩ := loads_of_loadWorkspace loaded
  obtain ⟨_, bare, loaded', _⟩ :=
    loads.exists_presented described presents known proper proper' (ids (described.ids ▸ distinct))
  exact ⟨bare, loaded'⟩

end Documents

end BlockCompiler
