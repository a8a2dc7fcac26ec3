import BlockCompiler.Proofs.Document.Loaded

/-!
Stacks that are written down in another way: blocks correspond one by one, and inputs may stand in another
order. What is written down in another way can be built just as well.
-/

namespace BlockCompiler

mutual

/-- A stack is written down in another way, so that the blocks at corresponding places are related. Blocks of
unknown types keep the order of their inputs. -/
def Stack.Restates (R : BlockSpec → BlockSpec → Prop) : StackSpec → StackSpec → Prop
  | .empty, other => other = .empty
  | .block spec inputs next, other =>
    ∃ spec' inputs' next', other = .block spec' inputs' next' ∧ R spec spec' ∧
      inputs'.labels.Perm inputs.labels ∧ (isKnownType spec.type ∨ inputs'.labels = inputs.labels) ∧
      inputs.RestatedIn R inputs' ∧ next.Restates R next'

/-- What is in some inputs is written down in another way in others of the same names. -/
def Rows.RestatedIn (R : BlockSpec → BlockSpec → Prop) : Rows BlockSpec String → Rows BlockSpec String → Prop
  | .nil, _ => True
  | .cons name plugged rest, others =>
    (∃ k found, others.find? name = some (k, found) ∧ plugged.Restates R found) ∧ rest.RestatedIn R others

end

/-- Two blocks as written down are of one type, and their mutations say the same. -/
structure BlockSpec.Shaped (spec other : BlockSpec) : Prop where
  type : other.type = spec.type
  mutation : ∀ key, (Table.ofEntries other.mutation).get? key = (Table.ofEntries spec.mutation).get? key

/-- Two blocks as written down are of one kind, or both of unknown types, and their mutations say the same. -/
structure BlockSpec.Kindred (spec other : BlockSpec) : Prop where
  kind : BlockKind.ofName? other.type = BlockKind.ofName? spec.type
  mutation : ∀ key, (Table.ofEntries other.mutation).get? key = (Table.ofEntries spec.mutation).get? key

section Shapes

variable {spec other : BlockSpec} {inputs : Rows BlockSpec String}

theorem BlockSpec.Shaped.kindred (shaped : spec.Shaped other) : spec.Kindred other :=
  ⟨by rw [shaped.type], shaped.mutation⟩

/-- What a family adds depends on what a mutation says under each key. -/
theorem RowFamily.rows_congr {mutation other : Table Json}
    (same : ∀ key, other.get? key = mutation.get? key) (family : RowFamily) :
    family.rows other = family.rows mutation := by
  cases family <;> simp only [rows, itemCount, parameters, same]

theorem BlockSpec.Kindred.plug (kindred : spec.Kindred other) (asValue : Bool) :
    other.plug asValue = spec.plug asValue := by
  rw [BlockSpec.plug, BlockSpec.plug, kindred.kind]

theorem BlockSpec.Kindred.stop (kindred : spec.Kindred other) : other.stop = spec.stop := by
  simp only [BlockSpec.stop, kindred.kind, RowFamily.rows_congr kindred.mutation]

theorem BlockSpec.Kindred.rows_of_known (kindred : spec.Kindred other) (known : isKnownType spec.type)
    (inputs others : Rows BlockSpec String) :
    other.rows others = spec.rows inputs := by
  obtain ⟨kind, named⟩ := Option.isSome_iff_exists.mp known
  simp only [BlockSpec.rows, kindred.kind, named, BlockKind.rows, RowFamily.rows_congr kindred.mutation]

end Shapes

section Inputs

variable {name : String} {plugged : StackSpec} {k : Nat}

/-- What is in a row of a name that no row before it has. -/
theorem Rows.find?_rest {label : String} {first : StackSpec} {rest : Rows BlockSpec String}
    (apart : label ∉ rest.labels) (found : rest.find? name = some (k, plugged)) :
    (Rows.cons label first rest).find? name = some (first.size + k, plugged) := by
  have member : name ∈ rest.labels := by rw [← Rows.find?_isSome, found]; rfl
  have differ : label ≠ name := fun same => apart (same ▸ member)
  rw [Rows.find?, if_neg differ, found]
  rfl

/-- What is built into rows is so for each input. -/
theorem Rows.buildsInto_iff {inputs : Rows BlockSpec String} {specs : List RowSpec}
    (distinct : inputs.labels.Nodup) : inputs.BuildsInto specs ↔
    ∀ name k plugged, inputs.find? name = some (k, plugged) → ∃ row, specs.find? (·.1 = name) = some row ∧
      (∀ head ∈ plugged.head?, (head.plug (row.2.1 = .value)).GoesInto row) ∧
      plugged.Builds (row.2.1 = .value) := by
  match inputs with
  | .nil => simp [Rows.BuildsInto, Rows.find?]
  | .cons label first rest =>
    obtain ⟨apart, distinct⟩ := List.nodup_cons.mp distinct
    rw [Rows.BuildsInto, Rows.buildsInto_iff distinct]
    constructor
    · rintro ⟨here, there⟩ name k plugged found
      rcases Rows.find?_cons found with ⟨rfl, _, rfl⟩ | ⟨_, j, below, _⟩
      · exact here
      · exact there name j plugged below
    · intro each
      exact ⟨each label 0 first (by rw [Rows.find?, if_pos rfl]),
        fun name k plugged found => each name _ plugged (Rows.find?_rest apart found)⟩

theorem Rows.shownIn_of_find? {inputs : Rows BlockSpec String} {k : Nat} {row : RowHead}
    (found : inputs.find? row.name = some (k, plugged)) :
    inputs.shownIn row = plugged.shown (row.kind = .value) := by
  match inputs with
  | .nil => cases found
  | .cons label first rest =>
    rw [Rows.shownIn]
    rcases Rows.find?_cons found with ⟨rfl, _, rfl⟩ | ⟨differ, j, below, _⟩
    · rw [if_pos rfl]
    · rw [if_neg (Ne.symm differ)]
      exact Rows.shownIn_of_find? below

/-- The kinds of rows that are inferred are those of what is found under their names. -/
theorem Rows.inferredRows_eq {inputs : Rows BlockSpec String} (distinct : inputs.labels.Nodup) :
    Edit.inferredRows inputs = inputs.labels.map fun name =>
    (name, if ((inputs.find? name).bind (·.2.head?)).any (isValueType ·.type) then RowKind.value
    else RowKind.statement, none) := by
  match inputs with
  | .nil => rfl
  | .cons label first rest =>
    obtain ⟨apart, distinct⟩ := List.nodup_cons.mp distinct
    have later := Rows.inferredRows_eq distinct
    rw [Edit.inferredRows, Rows.labels, List.map_cons, later, Rows.find?, if_pos rfl]
    refine congrArg₂ List.cons rfl (List.map_congr_left fun name member => ?_)
    have differ : label ≠ name := fun same => apart (same ▸ member)
    rw [Rows.find?, if_neg differ]
    cases rest.find? name <;> rfl

end Inputs

section Restated

variable {R : BlockSpec → BlockSpec → Prop} {inputs others : Rows BlockSpec String} {name : String}
  {found stack other : StackSpec} {k : Nat}

/-- An input has its counterpart. -/
theorem Rows.RestatedIn.find? {inputs : Rows BlockSpec String} {plugged : StackSpec} {k : Nat}
    (restated : inputs.RestatedIn R others) (here : inputs.find? name = some (k, plugged)) :
    ∃ j found, others.find? name = some (j, found) ∧ plugged.Restates R found := by
  match inputs with
  | .nil => cases here
  | .cons label first rest =>
    obtain ⟨counterpart, later⟩ := restated
    rcases Rows.find?_cons here with ⟨rfl, _, rfl⟩ | ⟨_, _, below, _⟩
    · exact counterpart
    · exact later.find? below

/-- Every input is the counterpart of one. -/
theorem Rows.RestatedIn.find?_back (restated : inputs.RestatedIn R others)
    (perm : others.labels.Perm inputs.labels) (there : others.find? name = some (k, found)) :
    ∃ j plugged, inputs.find? name = some (j, plugged) ∧ plugged.Restates R found := by
  have member : name ∈ inputs.labels := by
    rw [← perm.mem_iff, ← Rows.find?_isSome, there]
    rfl
  obtain ⟨⟨j, plugged⟩, here⟩ := Option.isSome_iff_exists.mp (Rows.find?_isSome.mpr member)
  obtain ⟨_, counterpart, is, restates⟩ := restated.find? here
  obtain ⟨_, rfl⟩ := Prod.mk.inj (Option.some.inj (there.symm.trans is))
  exact ⟨j, plugged, here, restates⟩

/-- Inputs are restated if each of them has its counterpart. -/
theorem Rows.restatedIn_of_find? {inputs : Rows BlockSpec String} (distinct : inputs.labels.Nodup)
    (each : ∀ name k plugged, inputs.find? name = some (k, plugged) →
    ∃ j found, others.find? name = some (j, found) ∧ plugged.Restates R found) :
    inputs.RestatedIn R others := by
  match inputs with
  | .nil => trivial
  | .cons label first rest =>
    obtain ⟨apart, distinct⟩ := List.nodup_cons.mp distinct
    exact ⟨each label 0 first (by rw [Rows.find?, if_pos rfl]),
      Rows.restatedIn_of_find? distinct fun name k plugged below =>
      each name _ plugged (Rows.find?_rest apart below)⟩

theorem Stack.Restates.head? (restates : stack.Restates R other) : Option.Rel R stack.head? other.head? := by
  cases stack with
  | empty =>
    obtain rfl : other = .empty := restates
    exact .none
  | block spec inputs next =>
    obtain ⟨_, _, _, rfl, related, _⟩ := restates
    exact .some related

/-- Blocks have the same rows in both ways. -/
theorem Rows.RestatedIn.rows {spec spec' : BlockSpec} (restated : inputs.RestatedIn R others)
    (shapes : ∀ {spec other}, R spec other → spec.Kindred other) (kindred : spec.Kindred spec')
    (distinct : inputs.labels.Nodup) (same : isKnownType spec.type ∨ others.labels = inputs.labels) :
    spec'.rows others = spec.rows inputs := by
  by_cases known : isKnownType spec.type
  · exact kindred.rows_of_known known inputs others
  · have labels := same.resolve_left known
    have named : BlockKind.ofName? spec.type = none := by simpa [isKnownType] using known
    simp only [BlockSpec.rows, kindred.kind, named]
    rw [Rows.inferredRows_eq distinct, Rows.inferredRows_eq (labels ▸ distinct), labels]
    refine List.map_congr_left fun name member => ?_
    obtain ⟨⟨k, plugged⟩, here⟩ := Option.isSome_iff_exists.mp (Rows.find?_isSome.mpr member)
    obtain ⟨j, found, there, restates⟩ := restated.find? here
    have heads := restates.head?
    rw [here, there, Option.bind_some, Option.bind_some]
    dsimp only
    cases plugged <;> cases found <;> cases heads
    · rfl
    · rename_i related
      simp only [Stack.head?, Option.any_some, isValueType, (shapes related).kind]
      rfl

mutual

/-- What can be built can be built if it is written down in another way. -/
theorem Stack.Builds.restated (shapes : ∀ {spec other}, R spec other → spec.Kindred other) {asValue : Bool}
    {stack other : StackSpec} (builds : stack.Builds asValue) (restates : stack.Restates R other) :
    other.Builds asValue := by
  match stack with
  | .empty =>
    obtain rfl : other = .empty := restates
    trivial
  | .block spec inputs next =>
    obtain ⟨stop, distinct, into, follows, below⟩ := builds
    obtain ⟨spec', inputs', next', rfl, related, perm, same, inside, after⟩ := restates
    have kindred := shapes related
    have distinct' := perm.nodup_iff.mpr distinct
    refine ⟨kindred.stop.trans stop, distinct', ?_, fun follower there => ?_, below.restated shapes after⟩
    · rw [inside.rows shapes kindred distinct same, Rows.buildsInto_iff distinct']
      intro name k found there
      obtain ⟨j, plugged, here, _⟩ := inside.find?_back perm there
      obtain ⟨_, counterpart, is, row⟩ := into.restated shapes inside here
      obtain ⟨_, rfl⟩ := Prod.mk.inj (Option.some.inj (there.symm.trans is))
      exact row
    · have heads := after.head?
      rw [show next'.head? = some follower from there] at heads
      generalize first : next.head? = before at heads
      cases heads with
      | some relatedNext =>
        obtain ⟨statement, statement'⟩ := follows _ first
        exact ⟨(kindred.plug _).trans statement, ((shapes relatedNext).plug _).trans statement'⟩

theorem Rows.BuildsInto.restated (shapes : ∀ {spec other}, R spec other → spec.Kindred other)
    {inputs others : Rows BlockSpec String} {specs : List RowSpec} (into : inputs.BuildsInto specs)
    (restated : inputs.RestatedIn R others) {name : String} {k : Nat} {plugged : StackSpec}
    (here : inputs.find? name = some (k, plugged)) :
    ∃ j found, others.find? name = some (j, found) ∧ ∃ row, specs.find? (·.1 = name) = some row ∧
      (∀ head ∈ found.head?, (head.plug (row.2.1 = .value)).GoesInto row) ∧
      found.Builds (row.2.1 = .value) := by
  match inputs with
  | .nil => cases here
  | .cons label first rest =>
    obtain ⟨⟨row, search, goes, builds⟩, intoRest⟩ := into
    obtain ⟨⟨j, counterpart, there, restates⟩, later⟩ := restated
    rcases Rows.find?_cons here with ⟨rfl, _, _⟩ | ⟨_, _, below, _⟩
    · refine ⟨j, counterpart, there, row, search, fun head first => ?_, builds.restated shapes restates⟩
      have heads := restates.head?
      rw [show counterpart.head? = some head from first] at heads
      generalize before : Stack.head? _ = whole at heads
      cases heads with
      | some related =>
        rw [(shapes related).plug]
        exact goes _ before
    · exact intoRest.restated shapes later below

end

/-- A block in some rows is in what is found under a name. -/
theorem Rows.exists_find?_of_mem_heads {inputs : Rows BlockSpec String} (distinct : inputs.labels.Nodup)
    {spec : BlockSpec} (member : spec ∈ inputs.heads) :
    ∃ name k plugged, inputs.find? name = some (k, plugged) ∧ spec ∈ plugged.heads := by
  match inputs with
  | .nil => cases member
  | .cons label first rest =>
    obtain ⟨apart, distinct⟩ := List.nodup_cons.mp distinct
    rw [Rows.heads, List.mem_append] at member
    rcases member with here | there
    · exact ⟨label, 0, first, by rw [Rows.find?, if_pos rfl], here⟩
    · obtain ⟨name, k, plugged, found, among⟩ := Rows.exists_find?_of_mem_heads distinct there
      exact ⟨name, _, plugged, Rows.find?_rest apart found, among⟩

mutual

/-- Every block of a stack in another way is a block of the stack in another way. -/
theorem Stack.Builds.exists_head {asValue : Bool} {stack other : StackSpec} (builds : stack.Builds asValue)
    (restates : stack.Restates R other) {spec' : BlockSpec} (member : spec' ∈ other.heads) :
    ∃ spec ∈ stack.heads, R spec spec' := by
  match stack with
  | .empty =>
    obtain rfl : other = .empty := restates
    cases member
  | .block spec inputs next =>
    obtain ⟨_, distinct, into, _, below⟩ := builds
    obtain ⟨_, others, _, rfl, related, perm, _, inside, after⟩ := restates
    rw [Stack.heads]
    rcases List.mem_cons.mp member with rfl | member
    · exact ⟨spec, List.mem_cons_self .., related⟩
    rcases List.mem_append.mp member with plugged | follows
    · obtain ⟨name, k, found, there, among⟩ :=
        Rows.exists_find?_of_mem_heads (perm.nodup_iff.mpr distinct) plugged
      obtain ⟨j, plugged, here, _⟩ := inside.find?_back perm there
      obtain ⟨head, member, related⟩ := into.exists_head inside here there among
      exact ⟨head, List.mem_cons_of_mem _ (List.mem_append_left _ member), related⟩
    · obtain ⟨head, member, related⟩ := below.exists_head after follows
      exact ⟨head, List.mem_cons_of_mem _ (List.mem_append_right _ member), related⟩

theorem Rows.BuildsInto.exists_head {inputs others : Rows BlockSpec String} {specs : List RowSpec}
    (into : inputs.BuildsInto specs) (restated : inputs.RestatedIn R others) {name : String} {j k : Nat}
    {plugged found : StackSpec} (here : inputs.find? name = some (j, plugged))
    (there : others.find? name = some (k, found)) {spec' : BlockSpec} (member : spec' ∈ found.heads) :
    ∃ spec ∈ inputs.heads, R spec spec' := by
  match inputs with
  | .nil => cases here
  | .cons label first rest =>
    obtain ⟨⟨_, _, _, builds⟩, intoRest⟩ := into
    obtain ⟨⟨_, counterpart, is, restates⟩, later⟩ := restated
    rw [Rows.heads]
    rcases Rows.find?_cons here with ⟨rfl, _, _⟩ | ⟨_, _, below, _⟩
    · obtain ⟨_, rfl⟩ := Prod.mk.inj (Option.some.inj (there.symm.trans is))
      obtain ⟨head, among, related⟩ := builds.exists_head restates member
      exact ⟨head, List.mem_append_left _ among, related⟩
    · obtain ⟨head, among, related⟩ := intoRest.exists_head later below there member
      exact ⟨head, List.mem_append_right _ among, related⟩

end

mutual

/-- A stack that can be built is written down as it is, if each block of it is related to itself. -/
theorem Stack.Builds.restates_self {asValue : Bool} {stack : StackSpec} (builds : stack.Builds asValue)
    (each : ∀ spec ∈ stack.heads, R spec spec) : stack.Restates R stack := by
  match stack with
  | .empty => rfl
  | .block spec inputs next =>
    obtain ⟨_, distinct, into, _, below⟩ := builds
    obtain ⟨first, others⟩ := List.forall_mem_cons.mp each
    obtain ⟨inside, after⟩ := List.forall_mem_append.mp others
    exact ⟨spec, inputs, next, rfl, first, .refl _,
      .inr rfl, into.restates_self distinct (fun _ k _ found => ⟨k, found⟩) inside,
      below.restates_self after⟩

theorem Rows.BuildsInto.restates_self {inputs others : Rows BlockSpec String} {specs : List RowSpec}
    (into : inputs.BuildsInto specs)
    (distinct : inputs.labels.Nodup)
    (there : ∀ name k plugged, inputs.find? name = some (k, plugged) →
    ∃ j, others.find? name = some (j, plugged))
    (each : ∀ spec ∈ inputs.heads, R spec spec) : inputs.RestatedIn R others := by
  match inputs with
  | .nil => trivial
  | .cons label first rest =>
    obtain ⟨⟨_, _, _, builds⟩, intoRest⟩ := into
    obtain ⟨apart, distinct⟩ := List.nodup_cons.mp distinct
    obtain ⟨inside, later⟩ := List.forall_mem_append.mp each
    obtain ⟨j, found⟩ := there label 0 first (by rw [Rows.find?, if_pos rfl])
    exact ⟨⟨j, first, found, builds.restates_self inside⟩,
      intoRest.restates_self distinct (fun name k plugged below =>
      there name _ plugged (Rows.find?_rest apart below)) later⟩

end

end Restated

end BlockCompiler
