import BlockCompiler.Proofs.Document.Accepted
import BlockCompiler.Proofs.Emission.Ready

/-!
Which values are documents: those that describe one, if no two of their blocks have one id.
-/

namespace BlockCompiler

/-- The members of a block have the forms that the schema asks for, apart from its kind. -/
structure Formed (members : Table Json) : Prop where
  id : ∀ value, members.get? "id" = some value → value.isTextValue
  fields : ∀ value, members.get? "fields" = some value → value.isObject
  mutation : ∀ value, members.get? "mutation" = some value → value.isObject
  inputs : ∀ value, members.get? "inputs" = some value → value.isObject
  comment : ∀ value, members.get? "comment" = some value → value.isNull || value.isTextValue
  disabled : ∀ value, members.get? "disabled" = some value → value.isBool
  x : ∀ value, members.get? "x" = some value → value.asNumber?.isSome
  y : ∀ value, members.get? "y" = some value → value.asNumber?.isSome

mutual

/-- A value describes a stack, whatever the ids of its blocks. -/
def Stack.DescribedBy (strict : Bool) : StackSpec → Json → Prop
  | .empty, _ => False
  | .block spec inputs next, value =>
    value.isObject ∧ spec.Reads strict value.members ∧ Formed value.members ∧
      inputs.DescribedIn strict (value.entries "inputs") ∧
      match value.turn? .next with
      | some follower => next.DescribedBy strict follower
      | none => next = .empty

/-- The members of an object describe what is in the rows of a block. -/
def Rows.DescribedIn (strict : Bool) : Rows BlockSpec String → Table Json → Prop
  | .nil, members => members = []
  | .cons name plugged rest, members =>
    ∃ value others, members = (name, value) :: others ∧ plugged.DescribedBy strict value ∧
      rest.DescribedIn strict others

end

/-- The ids that the blocks of a stack are given, empty ones among them. -/
def Stack.ownIds (stack : StackSpec) : List String := stack.heads.filterMap (·.ownId)

/-- The ids that the blocks in some rows are given. -/
def Rows.ownIds (rows : Rows BlockSpec String) : List String := rows.heads.filterMap (·.ownId)

/-- Ids are new to a check, and pairwise different. -/
def SchemaState.Misses (s : SchemaState) (ids : List String) : Prop := ids.Nodup ∧ ∀ id ∈ ids, id ∉ s.ids

section Ids

variable {s t : SchemaState} {ids more : List String}

theorem SchemaState.misses_nil : s.Misses [] := ⟨List.nodup_nil, by simp⟩

/-- Ids are new just if the first of them are, and the others are after these. -/
theorem SchemaState.misses_append (after : t.ids = ids.reverse ++ s.ids) :
    s.Misses (ids ++ more) ↔ s.Misses ids ∧ t.Misses more := by
  unfold Misses
  rw [after, List.nodup_append]
  constructor
  · rintro ⟨⟨first, second, apart⟩, unused⟩
    refine ⟨⟨first, fun id member => unused id (List.mem_append_left _ member)⟩, second,
      fun id member used => ?_⟩
    rcases List.mem_append.mp used with here | before
    · exact apart id (List.mem_reverse.mp here) id member rfl
    · exact unused id (List.mem_append_right _ member) before
  · rintro ⟨⟨first, unused⟩, second, unusedThere⟩
    refine ⟨⟨first, second, ?_⟩, fun id member => ?_⟩
    · rintro id here _ there rfl
      exact unusedThere id there (List.mem_append_left _ (List.mem_reverse.mpr here))
    · rcases List.mem_append.mp member with here | there
      · exact unused id here
      · exact fun before => unusedThere id there (List.mem_append_right _ before)

end Ids

section Checks

variable {α : Type} {s t : SchemaState}

theorem accepts_get {r : SchemaState} : Accepts (get : Checking SchemaState) s r t ↔ r = s ∧ t = s := by
  show (Except.ok (s, s) : Except SchemaError _) = .ok (r, t) ↔ _
  simp only [Except.ok.injEq, Prod.mk.injEq]
  exact and_congr eq_comm eq_comm

theorem accepts_set {r : SchemaState} {u : PUnit} : Accepts (set r : Checking PUnit) s u t ↔ t = r := by
  show (Except.ok (PUnit.unit, r) : Except SchemaError _) = .ok (u, t) ↔ _
  simp only [Except.ok.injEq, Prod.mk.injEq, true_and]
  exact eq_comm

/-- The check of an id accepts a new one, and remembers it. -/
theorem accepts_checkId {members : Table Json} {place : String} {u : Unit} :
    Accepts (checkId members place) s u t ↔
      (∀ value, members.get? "id" = some value → value.isTextValue) ∧
        s.Misses ((members.get? "id").bind Json.asText?).toList ∧
        t = { s with ids := ((members.get? "id").bind Json.asText?).toList.reverse ++ s.ids } := by
  unfold checkId SchemaState.Misses
  cases members.get? "id" with
  | none =>
    simp only [accepts_pure]
    simp
  | some value =>
    cases value with
    | text id =>
      dsimp only
      rw [accepts_bind]
      constructor
      · rintro ⟨r, _, got, rest⟩
        obtain ⟨same, rfl⟩ := accepts_get.mp got
        subst same
        by_cases known : r.ids.contains id
        · rw [if_pos known] at rest
          obtain ⟨_, _, failed, _⟩ := accepts_bind.mp rest
          exact absurd failed not_accepts_throw
        · rw [if_neg known] at rest
          obtain rfl := accepts_set.mp rest
          simpa [Json.isTextValue, Json.asText?] using known
      · rintro ⟨_, ⟨_, unused⟩, rfl⟩
        have known : ¬ s.ids.contains id := by simpa [Json.asText?] using unused
        refine ⟨s, s, accepts_get.mpr ⟨rfl, rfl⟩, ?_⟩
        rw [if_neg known]
        exact accepts_set.mpr rfl
    | _ =>
      constructor
      · intro failed
        exact absurd failed not_accepts_throw
      · rintro ⟨form, _⟩
        simp [Json.isTextValue] at form

theorem accepts_modify {change : SchemaState → SchemaState} {u : PUnit} :
    Accepts (modify change : Checking PUnit) s u t ↔ t = change s := by
  show (Except.ok (PUnit.unit, change s) : Except SchemaError _) = .ok (u, t) ↔ _
  simp only [Except.ok.injEq, Prod.mk.injEq, true_and]
  exact eq_comm

theorem accepts_check {check : Except SchemaError Unit} {next : Checking α} {a : α} :
    Accepts (liftM check >>= fun _ => next) s a t ↔ check = .ok () ∧ Accepts next s a t := by
  rw [accepts_bind]
  constructor
  · rintro ⟨_, _, first, second⟩
    obtain ⟨passed, rfl⟩ := accepts_lift.mp first
    exact ⟨passed, second⟩
  · rintro ⟨passed, second⟩
    exact ⟨_, _, accepts_lift.mpr ⟨passed, rfl⟩, second⟩

/-- A block that is accepted is formed, and its id is new. -/
theorem formed_checkBlock {strict : Bool} {members : Table Json} {place : String} {spec : BlockSpec}
    (accepted : Accepts (checkBlock strict members place) s spec t) :
    Formed members ∧ s.Misses spec.ownId.toList ∧ t.ids = spec.ownId.toList.reverse ++ s.ids := by
  have reads := reads_checkBlock accepted
  unfold checkBlock at accepted
  obtain ⟨value, _, required, accepted⟩ := accepts_bind.mp accepted
  obtain ⟨present, rfl⟩ := accepts_lift.mp required
  obtain rfl : value = .text spec.type :=
    Option.some.inj ((requireMember_ok.mp present).symm.trans reads.type)
  obtain ⟨type, _, given, afterwards⟩ := accepts_bind.mp accepted
  obtain ⟨rfl, rfl⟩ := accepts_pure.mp given
  obtain ⟨_, u, named, accepted⟩ := accepts_bind.mp afterwards
  obtain ⟨id, misses, rfl⟩ := accepts_checkId.mp named
  obtain ⟨fields, accepted⟩ := accepts_check.mp accepted
  obtain ⟨mutation, accepted⟩ := accepts_check.mp accepted
  obtain ⟨inputs, accepted⟩ := accepts_check.mp accepted
  obtain ⟨comment, accepted⟩ := accepts_check.mp accepted
  obtain ⟨disabled, accepted⟩ := accepts_check.mp accepted
  obtain ⟨x, accepted⟩ := accepts_check.mp accepted
  obtain ⟨y, accepted⟩ := accepts_check.mp accepted
  rw [← reads.ownId] at misses accepted
  refine ⟨⟨id, checkMember_ok.mp fields, checkMember_ok.mp mutation, checkMember_ok.mp inputs,
    checkMember_ok.mp comment,
    checkMember_ok.mp disabled, checkMember_ok.mp x, checkMember_ok.mp y⟩, misses, ?_⟩
  cases named : BlockKind.ofName? spec.type with
  | some kind =>
    simp only [named] at accepted
    obtain ⟨_, accepted⟩ := accepts_check.mp accepted
    obtain ⟨_, accepted⟩ := accepts_check.mp accepted
    rw [(accepts_pure.mp accepted).2]
  | none =>
    simp only [named] at accepted
    rw [if_neg (by simp [reads.unknown named])] at accepted
    obtain ⟨_, _, changed, accepted⟩ := accepts_bind.mp accepted
    obtain rfl := accepts_modify.mp changed
    rw [(accepts_pure.mp accepted).2]

/-- A block that is formed and can be read is accepted if its id is new. -/
theorem exists_checkBlock {strict : Bool} {members : Table Json} {spec : BlockSpec}
    (reads : spec.Reads strict members) (formed : Formed members) (misses : s.Misses spec.ownId.toList)
    (place : String) :
    ∃ t, Accepts (checkBlock strict members place) s spec t := by
  have spelled : spec = {
      type := spec.type
      fields := ((members.get? "fields").getD .null).members
      mutation := ((members.get? "mutation").getD .null).members
      comment := commentOf ((members.get? "comment").bind Json.asText?)
      disabled := ((members.get? "disabled").getD .null).isTrue
      ownId := (members.get? "id").bind Json.asText?
      x := (members.get? "x").getD (.int 0)
      y := (members.get? "y").getD (.int 0) } := by
    rw [← reads.fields, ← reads.mutation, ← reads.comment, ← reads.disabled, ← reads.ownId, ← reads.x,
      ← reads.y]
  rw [reads.ownId] at misses
  unfold checkBlock
  refine ⟨if (BlockKind.ofName? spec.type).isSome then
      { s with ids := ((members.get? "id").bind Json.asText?).toList.reverse ++ s.ids }
    else ⟨((members.get? "id").bind Json.asText?).toList.reverse ++ s.ids, ⟨place, spec.type⟩ :: s.unknown⟩,
    ?_⟩
  rw [spelled]
  refine accepts_bind.mpr ⟨_, _, accepts_lift.mpr ⟨requireMember_ok.mpr reads.type, rfl⟩, ?_⟩
  refine accepts_bind.mpr ⟨_, _, accepts_pure.mpr ⟨rfl, rfl⟩, ?_⟩
  refine accepts_bind.mpr ⟨⟨⟩, _, accepts_checkId.mpr ⟨formed.id, misses, rfl⟩, ?_⟩
  refine accepts_check.mpr ⟨checkMember_ok.mpr formed.fields, ?_⟩
  refine accepts_check.mpr ⟨checkMember_ok.mpr formed.mutation, ?_⟩
  refine accepts_check.mpr ⟨checkMember_ok.mpr formed.inputs, ?_⟩
  refine accepts_check.mpr ⟨checkMember_ok.mpr formed.comment, ?_⟩
  refine accepts_check.mpr ⟨checkMember_ok.mpr formed.disabled, ?_⟩
  refine accepts_check.mpr ⟨checkMember_ok.mpr formed.x, ?_⟩
  refine accepts_check.mpr ⟨checkMember_ok.mpr formed.y, ?_⟩
  cases named : BlockKind.ofName? spec.type with
  | some kind =>
    obtain ⟨_, fields, mutation⟩ := reads.known kind named
    rw [reads.fields] at fields
    rw [reads.mutation] at mutation
    refine accepts_check.mpr ⟨checkFields_ok.mpr (checkFields_ok.mp fields), ?_⟩
    refine accepts_check.mpr ⟨checkMutation_ok.mpr (checkMutation_ok.mp mutation), ?_⟩
    exact accepts_pure.mpr ⟨rfl, rfl⟩
  | none =>
    simp only [reads.unknown named]
    exact accepts_bind.mpr ⟨⟨⟩, _, accepts_modify.mpr rfl, accepts_pure.mpr ⟨rfl, rfl⟩⟩

end Checks

theorem Stack.ownIds_block (spec : BlockSpec) (inputs : Rows BlockSpec String) (next : StackSpec) :
    (Stack.block spec inputs next).ownIds = spec.ownId.toList ++ (inputs.ownIds ++ next.ownIds) := by
  rw [ownIds, heads, List.filterMap_cons, List.filterMap_append, Rows.ownIds, ownIds]
  cases spec.ownId <;> rfl

theorem Rows.ownIds_cons (name : String) (plugged : StackSpec) (rest : Rows BlockSpec String) :
    (Rows.cons name plugged rest).ownIds = plugged.ownIds ++ rest.ownIds := by
  rw [ownIds, heads, List.filterMap_append, Stack.ownIds, ownIds]

theorem ids_after {first second : List String} {s t u : SchemaState} (here : t.ids = first.reverse ++ s.ids)
    (there : u.ids = second.reverse ++ t.ids) : u.ids = (first ++ second).reverse ++ s.ids := by
  rw [there, here, List.reverse_append, List.append_assoc]

mutual

/-- A stack that is read is described by its value, and its ids are new. -/
theorem described_readStack {strict : Bool} {place : String} {value : Json} {stack : StackSpec}
    {s t : SchemaState} (accepted : Accepts (readStack strict place value) s stack t) :
    stack.DescribedBy strict value ∧ s.Misses stack.ownIds ∧ t.ids = stack.ownIds.reverse ++ s.ids := by
  match stack with
  | .empty =>
    obtain ⟨_, _, _, shape, _⟩ := Json.ReadAs.block ⟨_, _, _, accepted⟩
    cases shape
  | .block spec inputs next =>
    cases value with
    | object members =>
      rw [readStack] at accepted
      obtain ⟨_, u, checked, accepted⟩ := accepts_bind.mp accepted
      obtain ⟨_, v, plugged, accepted⟩ := accepts_bind.mp accepted
      obtain ⟨_, w, follows, accepted⟩ := accepts_bind.mp accepted
      obtain ⟨shape, rfl⟩ := accepts_pure.mp accepted
      cases shape
      obtain ⟨formed, own, here⟩ := formed_checkBlock checked
      rw [readInputs_eq] at plugged
      obtain ⟨describedInputs, newInputs, idsInputs⟩ := described_readSockets plugged
      have after := ids_after here idsInputs
      rw [readNext_eq] at follows
      have below : (match Json.turn? (.object members) .next with
            | some follower => next.DescribedBy strict follower
            | none => next = .empty) ∧ v.Misses next.ownIds ∧ t.ids = next.ownIds.reverse ++ v.ids := by
        show (match (Table.get? members "next").filter (!·.isNull) with
            | some follower => next.DescribedBy strict follower
            | none => next = .empty) ∧ _
        cases there : (Table.get? members "next").filter (!·.isNull) with
        | none =>
          simp only [there] at follows
          obtain ⟨rfl, rfl⟩ := accepts_pure.mp follows
          exact ⟨rfl, SchemaState.misses_nil, rfl⟩
        | some follower =>
          simp only [there] at follows
          exact described_readStack follows
      obtain ⟨describedNext, newNext, idsNext⟩ := below
      rw [Stack.ownIds_block, ← List.append_assoc]
      refine ⟨⟨rfl, reads_checkBlock checked, formed, describedInputs, describedNext⟩, ?_,
        ids_after after idsNext⟩
      exact (SchemaState.misses_append after).mpr
        ⟨(SchemaState.misses_append here).mpr ⟨own, newInputs⟩, newNext⟩
    | _ =>
      rw [readStack.eq_def] at accepted
      exact absurd accepted not_accepts_throw

theorem described_readSockets {strict : Bool} {place : String} {members : Table Json}
    {rows : Rows BlockSpec String} {s t : SchemaState}
    (accepted : Accepts (readSockets strict place members) s rows t) :
    rows.DescribedIn strict members ∧ s.Misses rows.ownIds ∧ t.ids = rows.ownIds.reverse ++ s.ids := by
  match rows with
  | .nil =>
    cases members with
    | nil =>
      rw [readSockets] at accepted
      obtain ⟨_, rfl⟩ := accepts_pure.mp accepted
      exact ⟨rfl, SchemaState.misses_nil, rfl⟩
    | cons member rest =>
      rw [readSockets] at accepted
      obtain ⟨_, _, _, accepted⟩ := accepts_bind.mp accepted
      obtain ⟨_, _, _, accepted⟩ := accepts_bind.mp accepted
      cases (accepts_pure.mp accepted).1
  | .cons name plugged others =>
    cases members with
    | nil =>
      rw [readSockets] at accepted
      cases (accepts_pure.mp accepted).1
    | cons member rest =>
      rw [readSockets] at accepted
      obtain ⟨_, u, first, accepted⟩ := accepts_bind.mp accepted
      obtain ⟨_, v, second, accepted⟩ := accepts_bind.mp accepted
      obtain ⟨shape, rfl⟩ := accepts_pure.mp accepted
      cases shape
      obtain ⟨described, new, ids⟩ := described_readStack first
      obtain ⟨describedRest, newRest, idsRest⟩ := described_readSockets second
      rw [Rows.ownIds_cons]
      exact ⟨⟨_, _, rfl, described, describedRest⟩, (SchemaState.misses_append ids).mpr ⟨new, newRest⟩,
        ids_after ids idsRest⟩

end

mutual

/-- A stack is read from a value that describes it where its ids are new. -/
theorem exists_readStack {strict : Bool} {value : Json} {stack : StackSpec} {s : SchemaState}
    (described : stack.DescribedBy strict value) (misses : s.Misses stack.ownIds) (place : String) :
    ∃ t, Accepts (readStack strict place value) s stack t := by
  match stack with
  | .empty => exact described.elim
  | .block spec inputs next =>
    obtain ⟨isObject, reads, formed, describedInputs, describedNext⟩ := described
    cases value with
    | object members =>
      rw [Stack.ownIds_block, ← List.append_assoc] at misses
      have prefixes : s.Misses (spec.ownId.toList ++ inputs.ownIds) :=
        ⟨(List.nodup_append.mp misses.1).1, fun id member => misses.2 id (List.mem_append_left _ member)⟩
      have first : s.Misses spec.ownId.toList :=
        ⟨(List.nodup_append.mp prefixes.1).1, fun id member => prefixes.2 id (List.mem_append_left _ member)⟩
      obtain ⟨u, checked⟩ := exists_checkBlock reads formed first place
      obtain ⟨_, _, here⟩ := formed_checkBlock checked
      obtain ⟨v, plugged⟩ :=
        exists_readSockets describedInputs ((SchemaState.misses_append here).mp prefixes).2 place
      have after := ids_after here (described_readSockets plugged).2.2
      have newNext := ((SchemaState.misses_append after).mp misses).2
      have below : ∃ t, Accepts (readNext strict place members) v next t := by
        rw [readNext_eq]
        cases there : (Table.get? members "next").filter (!·.isNull) with
        | none =>
          have none : Json.turn? (.object members) .next = none := there
          rw [none] at describedNext
          obtain rfl : next = .empty := describedNext
          exact ⟨v, accepts_pure.mpr ⟨rfl, rfl⟩⟩
        | some follower =>
          have some : Json.turn? (.object members) .next = some follower := there
          rw [some] at describedNext
          exact exists_readStack describedNext newNext _
      obtain ⟨t, follows⟩ := below
      rw [readStack, readInputs_eq]
      exact ⟨t,
        accepts_bind.mpr ⟨_, _, checked, accepts_bind.mpr ⟨_, _, plugged, accepts_bind.mpr ⟨_, _, follows,
        accepts_pure.mpr ⟨rfl, rfl⟩⟩⟩⟩⟩
    | _ => cases isObject

theorem exists_readSockets {strict : Bool} {members : Table Json} {rows : Rows BlockSpec String}
    {s : SchemaState} (described : rows.DescribedIn strict members) (misses : s.Misses rows.ownIds)
    (place : String) :
    ∃ t, Accepts (readSockets strict place members) s rows t := by
  match rows with
  | .nil =>
    obtain rfl : members = [] := described
    rw [readSockets]
    exact ⟨s, accepts_pure.mpr ⟨rfl, rfl⟩⟩
  | .cons name plugged rest =>
    obtain ⟨value, others, rfl, first, second⟩ := described
    rw [Rows.ownIds_cons] at misses
    have here : s.Misses plugged.ownIds :=
      ⟨(List.nodup_append.mp misses.1).1, fun id member => misses.2 id (List.mem_append_left _ member)⟩
    obtain ⟨u, reads⟩ := exists_readStack first here s!"{place}.inputs.{name}"
    have after := (described_readStack reads).2.2
    obtain ⟨t, readsRest⟩ := exists_readSockets second ((SchemaState.misses_append after).mp misses).2 place
    rw [readSockets]
    exact ⟨t, accepts_bind.mpr ⟨_, _, reads, accepts_bind.mpr ⟨_, _, readsRest, accepts_pure.mpr ⟨rfl, rfl⟩⟩⟩⟩

end

end BlockCompiler
