import BlockCompiler.Proofs.Document.Format
import BlockCompiler.Proofs.Document.Refused

/-!
Which edges of a document are legal, told from the two blocks at their ends and from the socket that the first
of them sits in. What the schema lets through is loaded just if all edges are legal.
-/

namespace BlockCompiler

/-- The kind of the block that a value tells, if its type is known. -/
def Json.kind? (object : Json) : Option BlockKind :=
  ((object.member? "type").bind Json.asText?).bind BlockKind.ofName?

/-- The rows that a kind and the mutation of a block give it. -/
def Json.rowsOf (object : Json) (kind : BlockKind) : List RowSpec :=
  kind.rows (Table.ofEntries (object.entries "mutation"))

/-- Whether a turn leads into the socket of a value, as the type of a block has it. -/
def Json.opensValue (object : Json) : Turn → Bool
  | .input name =>
    object.kind?.any fun kind => (object.rowsOf kind).any fun row => row.1 = name ∧ row.2.1 = .value
  | .next => false

/-- An edge may lead from a block, in the socket of a value or not, to another. A block of unknown type takes
all that can be plugged in, and where it sits tells whether it is a value. -/
def Json.Allows (object : Json) (sits : Bool) : Turn → Json → Prop
  | .input name, child =>
    match object.kind? with
    | some kind =>
      ∃ row ∈ object.rowsOf kind, row.1 = name ∧ ∀ inner ∈ child.kind?, inner.shape.plug.GoesInto row
    | none => ∀ inner ∈ child.kind?, inner.shape.plug ≠ .loose
  | .next, child =>
    (match object.kind? with
      | some kind => kind.shape.plug = .statement
      | none => ¬ sits) ∧
      ∀ inner ∈ child.kind?, inner.shape.plug = .statement

/-- Turns lead from a block, in the socket of a value or not, to a block that is in one or not. -/
inductive Json.Leads : Json → Bool → Json → Bool → Prop where
  | here {object : Json} {sits : Bool} : object.Leads sits object sits
  | turn {object child part : Json} {sits lies : Bool} {turn : Turn} (turned : object.turn? turn = some child)
      (below : child.Leads (object.opensValue turn) part lies) : object.Leads sits part lies

/-- The edges at a block and below it are legal. -/
def Json.Legal (object : Json) (sits : Bool) : Prop :=
  ∀ part lies turn child, object.Leads sits part lies → part.turn? turn = some child →
    part.Allows lies turn child

/-- An edge of a document, from a block that is in the socket of a value or not. -/
def Json.HasEdge (data object : Json) (sits : Bool) (turn : Turn) (child : Json) : Prop :=
  (∃ top ∈ data.tops, top.Leads false object sits) ∧ object.turn? turn = some child

section Legal

variable {object child : Json} {sits : Bool} {turn : Turn} {kind : BlockKind}

/-- Edges are legal if those at the block are, and those below each block that it holds. -/
theorem Json.legal_iff : object.Legal sits ↔
    ∀ turn child, object.turn? turn = some child → object.Allows sits turn child ∧
    child.Legal (object.opensValue turn) := by
  constructor
  · intro legal turn child turned
    exact ⟨legal object sits turn child .here turned,
      fun part lies other found leads => legal part lies other found (.turn turned leads)⟩
  · intro each part lies turn child leads turned
    cases leads with
    | here => exact (each turn child turned).1
    | turn first below => exact (each _ _ first).2 part lies turn child below turned

theorem Json.allows_of_known (known : object.kind? = some kind) (other : Bool) :
    object.Allows sits turn child ↔ object.Allows other turn child := by
  cases turn <;> simp only [Json.Allows, known]

/-- It does not matter where a block of known type sits. -/
theorem Json.legal_of_known (known : object.kind? = some kind) (other : Bool) :
    object.Legal sits ↔ object.Legal other := by
  rw [Json.legal_iff, Json.legal_iff]
  simp only [Json.allows_of_known known other]

end Legal

section Rows

variable {strict : Bool} {value : Json} {stack plugged : StackSpec} {row : RowSpec} {spec : BlockSpec}
  {inputs : Rows BlockSpec String} {name : String} {k : Nat}

/-- A block goes into a socket just if its plug does, in case its type is known. -/
theorem BlockSpec.goesInto_iff (spec : BlockSpec) (socketed : row.2.1 ≠ .dummy) :
    (spec.plug (row.2.1 = .value)).GoesInto row ↔
    ∀ inner ∈ BlockKind.ofName? spec.type, inner.shape.plug.GoesInto row := by
  unfold BlockSpec.plug
  cases BlockKind.ofName? spec.type with
  | some kind => simp
  | none =>
    cases form : row.2.1 with
    | value =>
      have meets : row.2.2.meets none := by cases row.2.2 <;> rfl
      simpa [Plug.goesInto_value form] using meets
    | statement => simp [Plug.goesInto_statement form]
    | dummy => exact absurd form socketed

/-- The row that a block of unknown type gets for an input. -/
def inferredRow (name : String) (spec : BlockSpec) : RowSpec :=
  (name, if isValueType spec.type then .value else .statement, none)

/-- A block goes into the row that is inferred for it, unless it plugs into nothing. -/
theorem BlockSpec.goesInto_inferredRow (spec : BlockSpec) (name : String) :
    (spec.plug ((inferredRow name spec).2.1 = .value)).GoesInto (inferredRow name spec) ↔
      ∀ inner ∈ BlockKind.ofName? spec.type, inner.shape.plug ≠ .loose := by
  have socketed : (inferredRow name spec).2.1 ≠ .dummy := by
    unfold inferredRow
    split <;> simp
  rw [spec.goesInto_iff socketed]
  unfold inferredRow isValueType
  cases BlockKind.ofName? spec.type with
  | none => simp
  | some kind => cases plug : kind.shape.plug <;> simp [Plug.GoesInto, Shape.isValue, plug, TypeCheck.meets]

theorem Rows.find?_inferredRows (distinct : inputs.labels.Nodup)
    (found : inputs.find? name = some (k, plugged)) (head : plugged.head? = some spec) :
    (Edit.inferredRows inputs).find? (·.1 = name) = some (inferredRow name spec) := by
  have labelled : name ∈ inputs.labels := Rows.find?_isSome.mp (by rw [found]; rfl)
  have member : inferredRow name spec ∈ Edit.inferredRows inputs := by
    rw [Rows.inferredRows_eq distinct]
    exact List.mem_map.mpr ⟨name, labelled, by simp [found, head, inferredRow]⟩
  exact find?_of_nodup (labels_inferredRows inputs ▸ distinct) member

/-- A value that describes a stack tells the kind of its head. -/
theorem Stack.DescribedBy.exists_head (described : stack.DescribedBy strict value) :
    ∃ spec, stack.head? = some spec ∧ value.kind? = BlockKind.ofName? spec.type := by
  cases stack with
  | empty => exact described.elim
  | block spec inputs next =>
    obtain ⟨_, reads, _⟩ := described
    have typed : value.member? "type" = some (.text spec.type) := reads.type
    refine ⟨spec, rfl, ?_⟩
    rw [Json.kind?, typed]
    rfl

end Rows

section Builds

variable {strict : Bool} {value child : Json} {stack plugged next : StackSpec} {spec : BlockSpec}
  {inputs : Rows BlockSpec String} {name : String} {k : Nat} {sits : Bool}

/-- What an input holds can be built into its row just if the edge to it is legal, and those below. -/
theorem builds_input_iff (reads : spec.Reads strict value.members) (distinct : inputs.labels.Nodup)
    (kindIs : value.kind? = BlockKind.ofName? spec.type) (found : inputs.find? name = some (k, plugged))
    (described : plugged.DescribedBy strict child) (below : ∀ s, plugged.Builds s ↔ child.Legal s) :
    (∃ row, (spec.rows inputs).find? (·.1 = name) = some row ∧
        (∀ head ∈ plugged.head?, (head.plug (row.2.1 = .value)).GoesInto row) ∧
        plugged.Builds (row.2.1 = .value)) ↔
      value.Allows sits (.input name) child ∧ child.Legal (value.opensValue (.input name)) := by
  obtain ⟨head, isHead, childKind⟩ := described.exists_head
  have mutation : spec.mutation = value.entries "mutation" := reads.mutation
  simp only [isHead, Option.mem_some_iff, forall_eq', below, Json.Allows, Json.opensValue,
    BlockSpec.rows, childKind]
  cases known : BlockKind.ofName? spec.type with
  | some kind =>
    have rows : kind.rows (Table.ofEntries spec.mutation) = value.rowsOf kind := by rw [mutation, Json.rowsOf]
    have labels : ((value.rowsOf kind).map (·.1)).Nodup := nodup_kind_rows kind _
    rw [known] at kindIs
    simp only [kindIs, rows, Option.any_some]
    have opens : ∀ row ∈ value.rowsOf kind, row.1 = name →
        ((value.rowsOf kind).any fun row => row.1 = name ∧ row.2.1 = .value) = decide (row.2.1 = .value) := by
      intro row member named
      rw [Bool.eq_iff_iff, List.any_eq_true, decide_eq_true_iff]
      constructor
      · rintro ⟨other, among, is⟩
        obtain ⟨same, isValue⟩ := of_decide_eq_true is
        rwa [List.inj_on_of_nodup_map labels member among (named.trans same.symm)]
      · exact fun isValue => ⟨row, member, by simp [named, isValue]⟩
    constructor
    · rintro ⟨row, search, goes, legal⟩
      have member := List.mem_of_find?_eq_some search
      have named : row.1 = name := by simpa using List.find?_some search
      refine ⟨⟨row, member, named, (head.goesInto_iff (kind_rows_usable kind _ row member).2).mp goes⟩, ?_⟩
      rw [opens row member named]
      exact legal
    · rintro ⟨⟨row, member, named, goes⟩, legal⟩
      rw [opens row member named] at legal
      refine ⟨row, ?_, (head.goesInto_iff (kind_rows_usable kind _ row member).2).mpr goes, legal⟩
      rw [← named]
      exact find?_of_nodup labels member
  | none =>
    rw [known] at kindIs
    simp only [kindIs, Rows.find?_inferredRows distinct found isHead, Option.some.injEq, exists_eq_left',
      Option.any_none]
    rw [head.goesInto_inferredRow]
    refine and_congr_right fun _ => ?_
    -- A block that is a value is of known type, so that it does not matter where it sits.
    cases named : BlockKind.ofName? head.type with
    | none => simp [inferredRow, isValueType, named]
    | some inner => exact Json.legal_of_known (childKind.trans named) false

/-- What follows a block can be built just if the edge to it is legal, and those below. -/
theorem builds_next_iff (kindIs : value.kind? = BlockKind.ofName? spec.type)
    (described : next.DescribedBy strict child) (below : next.Builds false ↔ child.Legal false) :
    ((∀ follower ∈ next.head?, spec.plug sits = .statement ∧ follower.plug false = .statement) ∧
      next.Builds false) ↔
      value.Allows sits .next child ∧ child.Legal (value.opensValue .next) := by
  obtain ⟨head, isHead, childKind⟩ := described.exists_head
  simp only [isHead, Option.mem_some_iff, forall_eq', below, Json.Allows, Json.opensValue, BlockSpec.plug,
    kindIs, childKind]
  refine and_congr_left fun _ => and_congr ?_ ?_
  · cases BlockKind.ofName? spec.type with
    | some kind => rfl
    | none => cases sits <;> simp
  · cases BlockKind.ofName? head.type <;> simp

/-- A stack can be built just if all edges are legal in the value that describes it. -/
theorem Stack.DescribedBy.builds_iff (described : stack.DescribedBy strict value)
    (proper : value.All Json.IsProper) :
    stack.Builds sits ↔ value.Legal sits := by
  induction size : sizeOf value using Nat.strongRecOn generalizing value stack sits with
  | ind total ih =>
    subst size
    cases stack with
    | empty => exact described.elim
    | block spec inputs next =>
      obtain ⟨spec', isHead, kindIs⟩ := Stack.DescribedBy.exists_head described
      obtain rfl : spec = spec' := Option.some.inj isHead
      obtain ⟨_, reads, _, within, after⟩ := described
      have stop : spec.stop = none := (reads.checked proper fun none : False => none.elim).stop
      have distinct : inputs.labels.Nodup := within.labels ▸ proper.nodup_entries "inputs"
      have below : ∀ {turn child} {stack : StackSpec}, value.turn? turn = some child →
          stack.DescribedBy strict child →
          ∀ s, stack.Builds s ↔ child.Legal s := fun turned described s =>
        ih _ (Json.sizeOf_turn? turned) described (proper.turn? turned) rfl
      rw [Stack.Builds, Rows.buildsInto_iff distinct, Json.legal_iff]
      have turnsIn : ∀ {name k plugged}, inputs.find? name = some (k, plugged) →
          ∃ child, value.turn? (.input name) = some child ∧ plugged.DescribedBy strict child := by
        intro name k plugged found
        have there := within.find? name
        rw [found] at there
        generalize turned : (value.entries "inputs").get? name = child at there
        cases there with
        | some described => exact ⟨_, turned, described⟩
      constructor
      · rintro ⟨_, _, into, follows, builds⟩ turn child turned
        cases turn with
        | input name =>
          have there := within.find? name
          rw [show (value.entries "inputs").get? name = some child from turned] at there
          generalize found : inputs.find? name = plugged at there
          cases there with
          | some described =>
            exact (builds_input_iff reads distinct kindIs found described (below turned described)).mp
              (into name _ _ found)
        | next =>
          rw [turned] at after
          exact (builds_next_iff kindIs after (below turned after false)).mp ⟨follows, builds⟩
      · intro legal
        refine ⟨stop, distinct, fun name k plugged found => ?_, ?_⟩
        · obtain ⟨child, turned, described⟩ := turnsIn found
          exact (builds_input_iff reads distinct kindIs found described (below turned described)).mpr
            (legal _ child turned)
        · cases turned : value.turn? .next with
          | none =>
            rw [turned] at after
            obtain rfl : next = .empty := after
            exact ⟨by simp [Stack.head?], trivial⟩
          | some child =>
            rw [turned] at after
            exact (builds_next_iff kindIs after (below turned after false)).mpr (legal .next child turned)

end Builds

section Load

variable {strict : Bool} {data : Json} {document : Document}

/-- All stacks of a document can be built just if no edge is illegal. -/
theorem Document.DescribedBy.builds_iff (described : document.DescribedBy strict data)
    (proper : data.All Json.IsProper) :
    (∀ top ∈ document.tops, top.Builds false) ↔
      ∀ object sits turn child, data.HasEdge object sits turn child → object.Allows sits turn child := by
  have legal :
      (∀ object sits turn child, data.HasEdge object sits turn child → object.Allows sits turn child) ↔
      ∀ top ∈ data.tops, top.Legal false :=
    ⟨fun each top among object sits turn child leads turned =>
      each object sits turn child ⟨⟨top, among, leads⟩, turned⟩,
      fun each object sits turn child ⟨⟨top, among, leads⟩, turned⟩ =>
      each top among object sits turn child leads turned⟩
  rw [legal]
  have each := described.tops
  have proper := proper.tops
  generalize data.tops = values at each proper
  generalize document.tops = tops at each
  induction each with
  | nil => simp
  | cons first _ ih =>
    obtain ⟨here, others⟩ := List.forall_mem_cons.mp proper
    rw [List.forall_mem_cons, List.forall_mem_cons, first.builds_iff here]
    exact and_congr_right fun _ => ih others

/-- What the schema lets through is not loaded just if an edge is illegal, and then as a block does not fit
where it should go: no id is taken, no socket in use, no block linked to itself and no row there already. -/
theorem loadWorkspace_fails_iff_illegal {unknown : List UnknownType} (proper : data.All Json.IsProper)
    (accepted : Document.ofJson strict data = .ok (document, unknown)) (oneBased : Option Bool) :
    ((∃ error, loadWorkspace strict oneBased data = .error error) ↔
        ∃ object sits turn child, data.HasEdge object sits turn child ∧ ¬ object.Allows sits turn child) ∧
      ∀ error, loadWorkspace strict oneBased data = .error error →
        ∃ refusal : EditError, error = .edit refusal ∧ refusal.isUnfit := by
  obtain ⟨described, distinct⟩ := ofJson_iff.mp ⟨unknown, accepted⟩
  have builds := described.builds_iff proper
  by_cases legal : ∀ object sits turn child, data.HasEdge object sits turn child →
    object.Allows sits turn child
  · obtain ⟨ws, loaded, _⟩ := exists_loadWorkspace described distinct (builds.mpr legal) oneBased
    refine ⟨⟨fun ⟨error, failed⟩ => ?_, fun ⟨object, sits, turn, child, edge, illegal⟩ => ?_⟩,
      fun error failed => ?_⟩
    · rw [loaded] at failed
      cases failed
    · exact absurd (legal object sits turn child edge) illegal
    · rw [loaded] at failed
      cases failed
  · have illegal : ∃ object sits turn child, data.HasEdge object sits turn child ∧
        ¬ object.Allows sits turn child := by
      by_contra never
      exact legal fun object sits turn child edge => by_contra fun against =>
        never ⟨object, sits, turn, child, edge, against⟩
    obtain ⟨refusal, failed, unfit⟩ :=
      exists_isUnfit_loadWorkspace proper described distinct (fun all => legal (builds.mp all)) oneBased
    refine ⟨⟨fun _ => illegal, fun _ => ⟨_, failed⟩⟩, fun error given => ⟨refusal, ?_, unfit⟩⟩
    rw [failed] at given
    exact (Except.error.inj given).symm

/-- A block of unknown type is a value where it is printed, so that nothing can follow it there. -/
theorem loadWorkspace_fails_iff_illegal_follower :
    let sensor :=
      Json.object [("type", .text "sensor_read"), ("next", .object [("type", .text "motor_start")])]
    let print := Json.object [("type", .text "text_print"), ("inputs", .object [("TEXT", sensor)])]
    let data := Json.object [("name", .text "printed"), ("blocks", .list [print])]
    ∃ refusal : EditError, loadWorkspace false none data = .error (.edit refusal) ∧ refusal.isUnfit := by
  intro sensor print data
  have proper : data.All Json.IsProper := by
    simp [data, print, sensor, Json.All, Json.AllMembers, Json.AllItems, Json.IsProper, Table.keys]
  have accepts : (Document.ofJson false data).toOption.any fun _ => true := by decide +kernel
  obtain ⟨⟨document, unknown⟩, accepted, _⟩ := exists_ok_of_any accepts
  have sits : print.opensValue (.input "TEXT") = true := by decide +kernel
  have printed : print.turn? (.input "TEXT") = some sensor := rfl
  have leads : print.Leads false sensor true := .turn printed (by rw [sits]; exact .here)
  have edge : data.HasEdge sensor true .next (.object [("type", .text "motor_start")]) :=
    ⟨⟨print, List.mem_singleton_self _, leads⟩, rfl⟩
  have unnamed : sensor.kind? = none := by decide +kernel
  have illegal : ¬ sensor.Allows true .next (.object [("type", .text "motor_start")]) := by
    simp [Json.Allows, unnamed]
  obtain ⟨error, failed⟩ :=
    (loadWorkspace_fails_iff_illegal proper accepted none).1.mpr ⟨_, _, _, _, edge, illegal⟩
  obtain ⟨refusal, rfl, unfit⟩ := (loadWorkspace_fails_iff_illegal proper accepted none).2 error failed
  exact ⟨refusal, failed, unfit⟩

end Load

end BlockCompiler
