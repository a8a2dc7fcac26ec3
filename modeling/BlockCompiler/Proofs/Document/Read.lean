import BlockCompiler.Document.Schema
import BlockCompiler.Proofs.Document.Paths

/-!
What the schema makes of a value that it accepts.
-/

namespace BlockCompiler

/-- A check that starts in one state accepts with a value and ends in another state. -/
def Accepts {α : Type} (check : Checking α) (s : SchemaState) (a : α) (t : SchemaState) : Prop :=
  check.run s = .ok (a, t)

section Accepts

variable {α β : Type} {check : Checking α} {f : α → Checking β} {s t : SchemaState}

theorem accepts_pure {a b : α} : Accepts (pure a) s b t ↔ b = a ∧ t = s := by
  show (Except.ok (a, s) : Except SchemaError _) = .ok (b, t) ↔ _
  simp only [Except.ok.injEq, Prod.mk.injEq]
  exact and_congr eq_comm eq_comm

theorem accepts_bind {b : β} :
    Accepts (check >>= f) s b t ↔ ∃ a u, Accepts check s a u ∧ Accepts (f a) u b t := by
  unfold Accepts
  rw [StateT.run_bind]
  cases result : check.run s with
  | error error =>
    constructor
    · intro given
      cases given
    · rintro ⟨a, u, first, _⟩
      cases first
  | ok pair =>
    obtain ⟨a, u⟩ := pair
    constructor
    · intro given
      exact ⟨a, u, rfl, given⟩
    · rintro ⟨a, u, first, second⟩
      cases first
      exact second

theorem accepts_lift {x : Except SchemaError α} {a : α} :
    Accepts (liftM x : Checking α) s a t ↔ x = .ok a ∧ t = s := by
  cases x with
  | error error =>
    constructor
    · intro given
      cases given
    · rintro ⟨given, _⟩
      cases given
  | ok b =>
    show (Except.ok (b, s) : Except SchemaError _) = .ok (a, t) ↔ _
    simp only [Except.ok.injEq, Prod.mk.injEq]
    exact and_congr_right fun _ => eq_comm

theorem not_accepts_throw {error : SchemaError} {a : α} : ¬ Accepts (throw error) s a t := by
  intro given
  cases given

end Accepts

theorem requireForm_ok {holds : Bool} {place : String} {form : SchemaForm} :
    requireForm holds place form = .ok () ↔ holds := by
  unfold requireForm
  cases holds <;> simp

/-- A check of a member passes if the member is missing or has its form. -/
theorem checkMember_ok {members : Table Json} {place key : String} {holds : Json → Bool} {form : SchemaForm} :
    checkMember members place key holds form = .ok () ↔ ∀ value, members.get? key = some value →
    holds value := by
  unfold checkMember
  cases members.get? key <;> simp [requireForm_ok]

theorem requireMember_ok {members : Table Json} {place key : String} {value : Json} :
    requireMember members place key = .ok value ↔ members.get? key = some value := by
  unfold requireMember
  cases members.get? key <;> simp

/-- What is read of a block, given the members of its value. -/
structure BlockSpec.Reads (strict : Bool) (members : Table Json) (spec : BlockSpec) : Prop where
  type : members.get? "type" = some (.text spec.type)
  fields : spec.fields = ((members.get? "fields").getD .null).members
  mutation : spec.mutation = ((members.get? "mutation").getD .null).members
  comment : spec.comment = commentOf ((members.get? "comment").bind Json.asText?)
  disabled : spec.disabled = ((members.get? "disabled").getD .null).isTrue
  ownId : spec.ownId = (members.get? "id").bind Json.asText?
  x : spec.x = (members.get? "x").getD (.int 0)
  y : spec.y = (members.get? "y").getD (.int 0)
  placed : spec.x.asNumber?.isSome ∧ spec.y.asNumber?.isSome
  known : ∀ kind, BlockKind.ofName? spec.type = some kind →
    ∃ place, checkFields kind spec.fields place = .ok () ∧ checkMutation spec.mutation place = .ok ()
  unknown : BlockKind.ofName? spec.type = none → strict = false

theorem reads_checkBlock {strict : Bool} {members : Table Json} {place : String} {s t : SchemaState}
    {spec : BlockSpec} (accepted : Accepts (checkBlock strict members place) s spec t) :
    spec.Reads strict members := by
  unfold checkBlock at accepted
  obtain ⟨value, _, required, accepted⟩ := accepts_bind.mp accepted
  have present := requireMember_ok.mp (accepts_lift.mp required).1
  have typed : ∃ type, value = .text type := by
    cases value with
    | text type => exact ⟨type, rfl⟩
    | _ =>
      obtain ⟨_, _, failed, _⟩ := accepts_bind.mp accepted
      exact absurd failed not_accepts_throw
  obtain ⟨word, rfl⟩ := typed
  obtain ⟨type, _, given, afterwards⟩ := accepts_bind.mp accepted
  obtain ⟨rfl, rfl⟩ := accepts_pure.mp given
  obtain ⟨_, _, _, accepted⟩ := accepts_bind.mp afterwards
  obtain ⟨_, _, _, accepted⟩ := accepts_bind.mp accepted
  obtain ⟨_, _, _, accepted⟩ := accepts_bind.mp accepted
  obtain ⟨_, _, _, accepted⟩ := accepts_bind.mp accepted
  obtain ⟨_, _, _, accepted⟩ := accepts_bind.mp accepted
  obtain ⟨_, _, _, accepted⟩ := accepts_bind.mp accepted
  obtain ⟨_, _, placedX, accepted⟩ := accepts_bind.mp accepted
  obtain ⟨_, _, placedY, accepted⟩ := accepts_bind.mp accepted
  have placed : ∀ key, (∀ value, members.get? key = some value → value.asNumber?.isSome) →
      ((members.get? key).getD (.int 0)).asNumber?.isSome := by
    intro key holds
    cases found : members.get? key with
    | none => rfl
    | some value => exact holds value found
  have placedX := placed "x" (checkMember_ok.mp (accepts_lift.mp placedX).1)
  have placedY := placed "y" (checkMember_ok.mp (accepts_lift.mp placedY).1)
  cases named : BlockKind.ofName? type with
  | some kind =>
    simp only [named] at accepted
    obtain ⟨_, _, fields, accepted⟩ := accepts_bind.mp accepted
    obtain ⟨_, _, mutation, accepted⟩ := accepts_bind.mp accepted
    obtain ⟨rfl, rfl⟩ := accepts_pure.mp accepted
    refine ⟨present, rfl, rfl, rfl, rfl, rfl, rfl, rfl, ⟨placedX, placedY⟩, ?_, ?_⟩
    · intro kind' named'
      obtain rfl := Option.some.inj (named.symm.trans named')
      exact ⟨place, (accepts_lift.mp fields).1, (accepts_lift.mp mutation).1⟩
    · intro unknown
      rw [named] at unknown
      cases unknown
  | none =>
    simp only [named] at accepted
    by_cases checked : strict
    · rw [if_pos checked] at accepted
      obtain ⟨_, _, failed, _⟩ := accepts_bind.mp accepted
      exact absurd failed not_accepts_throw
    · rw [if_neg checked] at accepted
      obtain ⟨_, _, _, accepted⟩ := accepts_bind.mp accepted
      obtain ⟨rfl, rfl⟩ := accepts_pure.mp accepted
      refine ⟨present, rfl, rfl, rfl, rfl, rfl, rfl, rfl, ⟨placedX, placedY⟩, ?_, ?_⟩
      · intro kind known
        rw [named] at known
        cases known
      · intro _
        simpa using checked

/-- What is plugged into a block is read from the object of its inputs. -/
theorem readInputs_eq (strict : Bool) (place : String) (members : Table Json) :
    readInputs strict place members =
      readSockets strict place ((members.get? "inputs").getD .null).members := by
  have none_read : readSockets strict place [] = pure .nil := by rw [readSockets]
  induction members with
  | nil =>
    rw [readInputs]
    exact none_read.symm
  | cons member rest ih =>
    obtain ⟨key, value⟩ := member
    rw [readInputs.eq_def, Table.get?]
    by_cases same : key = "inputs"
    · simp only [same, if_true]
      cases value with
      | object inputs => rfl
      | _ => exact none_read.symm
    · simp only [same, if_false]
      exact ih

theorem readNext_eq (strict : Bool) (place : String) (members : Table Json) :
    readNext strict place members = match (members.get? "next").filter (!·.isNull) with
      | some value => readStack strict (place ++ ".next") value
      | none => pure .empty := by
  induction members with
  | nil =>
    rw [readNext]
    rfl
  | cons member rest ih =>
    obtain ⟨key, value⟩ := member
    rw [readNext.eq_def, Table.get?]
    by_cases same : key = "next"
    · simp only [same, if_true]
      cases value <;> rfl
    · simp only [same, if_false]
      exact ih

/-- A value is read as a stack, at some place and in some state. -/
def Json.ReadAs (strict : Bool) (object : Json) (stack : StackSpec) : Prop :=
  ∃ place s t, Accepts (readStack strict place object) s stack t

/-- The members of an object are read as rows, at some place and in some state. -/
def Rows.ReadFrom (strict : Bool) (inputs : Table Json) (rows : Rows BlockSpec String) : Prop :=
  ∃ place s t, Accepts (readSockets strict place inputs) s rows t

/-- The value of a member, if a value is an object that has it. -/
def Json.member? (value : Json) (key : String) : Option Json := Table.get? value.members key

/-- The members of the object that is the value of a member. Other values have none. -/
def Json.entries (value : Json) (key : String) : Table Json := ((value.member? key).getD .null).members

/-- The value to which a turn leads from the value of a block. Null is no block. -/
def Json.turn? (object : Json) : Turn → Option Json
  | .input name => Table.get? (object.entries "inputs") name
  | .next => (object.member? "next").filter (!·.isNull)

/-- A block is read with its rows and with what follows it. -/
theorem Json.ReadAs.block {strict : Bool} {object : Json} {stack : StackSpec}
    (read : object.ReadAs strict stack) :
    ∃ spec inputs next, stack = .block spec inputs next ∧ spec.Reads strict object.members ∧
      inputs.ReadFrom strict (object.entries "inputs") ∧
      ∃ place s t, Accepts (readNext strict place object.members) s next t := by
  obtain ⟨place, s, t, accepted⟩ := read
  cases object with
  | object members =>
    rw [readStack] at accepted
    obtain ⟨spec, _, checked, accepted⟩ := accepts_bind.mp accepted
    obtain ⟨inputs, u, plugged, accepted⟩ := accepts_bind.mp accepted
    obtain ⟨next, _, follows, accepted⟩ := accepts_bind.mp accepted
    obtain ⟨rfl, rfl⟩ := accepts_pure.mp accepted
    refine ⟨spec, inputs, next, rfl, reads_checkBlock checked, ?_, _, _, _, follows⟩
    rw [readInputs_eq] at plugged
    exact ⟨_, _, _, plugged⟩
  | _ =>
    rw [readStack.eq_def] at accepted
    exact absurd accepted not_accepts_throw

theorem Json.ReadAs.next {strict : Bool} {object : Json} {place : String} {s t : SchemaState}
    {next : StackSpec} (follows : Accepts (readNext strict place object.members) s next t) :
    Option.Rel (Json.ReadAs strict) (object.turn? .next) (if next.head?.isSome then some next else none) := by
  rw [readNext_eq] at follows
  show Option.Rel _ ((Table.get? object.members "next").filter (!·.isNull)) _
  cases there : (Table.get? object.members "next").filter (!·.isNull) with
  | none =>
    simp only [there] at follows
    obtain ⟨rfl, _⟩ := accepts_pure.mp follows
    exact .none
  | some value =>
    simp only [there] at follows
    have read : value.ReadAs strict next := ⟨_, _, _, follows⟩
    obtain ⟨_, _, _, rfl, _⟩ := read.block
    exact .some read

theorem Rows.ReadFrom.cases {strict : Bool} {inputs : Table Json} {rows : Rows BlockSpec String}
    (read : rows.ReadFrom strict inputs) :
    inputs = [] ∧ rows = .nil ∨ ∃ name value rest plugged others, inputs = (name, value) :: rest ∧
      rows = .cons name plugged others ∧ value.ReadAs strict plugged ∧ others.ReadFrom strict rest := by
  obtain ⟨place, s, t, accepted⟩ := read
  cases inputs with
  | nil =>
    rw [readSockets] at accepted
    exact .inl ⟨rfl, (accepts_pure.mp accepted).1⟩
  | cons member rest =>
    obtain ⟨name, value⟩ := member
    rw [readSockets] at accepted
    obtain ⟨plugged, _, first, accepted⟩ := accepts_bind.mp accepted
    obtain ⟨others, _, second, accepted⟩ := accepts_bind.mp accepted
    exact .inr ⟨name, value, rest, plugged, others, rfl, (accepts_pure.mp accepted).1, ⟨_, _, _, first⟩,
      _, _, _, second⟩

theorem Rows.ReadFrom.find? {strict : Bool} {inputs : Table Json} {rows : Rows BlockSpec String}
    (read : rows.ReadFrom strict inputs) (name : String) :
    Option.Rel (Json.ReadAs strict) (inputs.get? name) ((rows.find? name).map (·.2)) := by
  induction inputs generalizing rows with
  | nil =>
    obtain ⟨_, rfl⟩ | ⟨_, _, _, _, _, absent, _⟩ := read.cases
    · exact .none
    · cases absent
  | cons member rest ih =>
    obtain ⟨absent, _⟩ | ⟨label, value, _, plugged, others, shape, rfl, first, second⟩ := read.cases
    · cases absent
    · cases shape
      rw [Table.get?, Rows.find?]
      by_cases same : label = name
      · rw [if_pos same, if_pos same]
        exact .some first
      · rw [if_neg same, if_neg same, Option.map_map]
        exact ih second

/-- What a turn leads to is read as what the turn leads to in the stack. -/
theorem Json.ReadAs.turn? {strict : Bool} {object : Json} {stack : StackSpec}
    (read : object.ReadAs strict stack) (turn : Turn) :
    Option.Rel (Json.ReadAs strict) (object.turn? turn) ((stack.turn? turn).map (·.2)) := by
  obtain ⟨spec, inputs, next, rfl, _, plugged, _, _, _, follows⟩ := read.block
  cases turn with
  | input name =>
    rw [Stack.turn?, Option.map_map]
    exact plugged.find? name
  | next =>
    have there := Json.ReadAs.next follows
    rw [Stack.turn?, apply_ite (Option.map _)]
    exact there

mutual

/-- No row of a stack that is read is empty. -/
theorem Json.ReadAs.full {strict : Bool} {object : Json} {stack : StackSpec}
    (read : object.ReadAs strict stack) :
    stack.Full := by
  match stack with
  | .empty => trivial
  | .block spec inputs next =>
    obtain ⟨_, _, _, shape, _, plugged, _, _, _, follows⟩ := read.block
    cases shape
    refine ⟨plugged.full, ?_⟩
    have there := Json.ReadAs.next follows
    cases next with
    | empty => trivial
    | block head rows following =>
      generalize object.turn? .next = found at there
      cases there with
      | some read => exact read.full

theorem Rows.ReadFrom.full {strict : Bool} {inputs : Table Json} {rows : Rows BlockSpec String}
    (read : rows.ReadFrom strict inputs) : rows.Full := by
  match rows with
  | .nil => trivial
  | .cons label plugged rest =>
    obtain ⟨_, absent⟩ | ⟨_, value, _, _, _, _, shape, first, second⟩ := read.cases
    · cases absent
    · cases shape
      refine ⟨?_, first.full, second.full⟩
      obtain ⟨_, _, _, rfl, _⟩ := first.block
      rfl

end

end BlockCompiler
