import BlockCompiler.Proofs.Document.Described
import BlockCompiler.Proofs.Number.Bounded
import BlockCompiler.Proofs.Tables

/-!
What holds of all parts of a JSON value, and so of the blocks that it describes. Values come from texts: the
keys of an object are different, and its decimals are binary64 numbers.
-/

namespace BlockCompiler

namespace Table

variable {α : Type} {t changes : Table α}

/-- What is laid over a table counts first, if its keys are different. -/
theorem get?_update (distinct : changes.keys.Nodup) (key : String) :
    (t.update changes).get? key = (changes.get? key).or (t.get? key) := by
  induction changes generalizing t with
  | nil => rfl
  | cons entry rest ih =>
    obtain ⟨k, v⟩ := entry
    obtain ⟨first, others⟩ := List.nodup_cons.mp distinct
    have shape : t.update ((k, v) :: rest) = (t.set k v).update rest := rfl
    rw [shape, ih others, get?_set, get?]
    by_cases same : k = key
    · subst same
      rw [get?_of_not_mem first, if_pos rfl, if_pos rfl]
      rfl
    · rw [if_neg same, if_neg same]

/-- The entries of a table with different keys. -/
theorem get?_ofEntries (distinct : changes.keys.Nodup) (key : String) :
    (ofEntries changes).get? key = changes.get? key := by
  rw [ofEntries, get?_update distinct]
  cases changes.get? key <;> rfl

theorem has_update (key : String) :
    (t.update changes).has key = (t.has key || changes.keys.contains key) := by
  induction changes generalizing t with
  | nil => simp [update, keys]
  | cons entry rest ih =>
    have shape : t.update (entry :: rest) = (t.set entry.1 entry.2).update rest := rfl
    rw [shape, ih, has, get?_set, has]
    by_cases same : entry.1 = key
    · simp [same, keys]
    · have differs : (key == entry.1) = false := beq_false_of_ne (Ne.symm same)
      simp [same, keys, differs]

end Table

mutual

/-- A property holds of a value and of all its parts. -/
def Json.All (P : Json → Prop) : Json → Prop
  | .list items => P (.list items) ∧ Json.AllItems P items
  | .object members => P (.object members) ∧ Json.AllMembers P members
  | value => P value

/-- A property holds of all items and of all their parts. -/
def Json.AllItems (P : Json → Prop) : List Json → Prop
  | [] => True
  | item :: rest => Json.All P item ∧ Json.AllItems P rest

/-- A property holds of the values of all members and of all their parts. -/
def Json.AllMembers (P : Json → Prop) : List (String × Json) → Prop
  | [] => True
  | (_, value) :: rest => Json.All P value ∧ Json.AllMembers P rest

end

/-- The keys of an object are different, and decimals are binary64 numbers. -/
def Json.IsProper : Json → Prop
  | .object members => (Table.keys members).Nodup
  | .number (.float value) => value.IsBounded
  | _ => True

/-- A whole number, written as a number or in a text, has fewer than 4300 digits. -/
def Json.IsShort : Json → Prop
  | .number (.int value) => value.natAbs < tenTo (digitLimit - 1)
  | .text numeral =>
    ∀ whole, numberOf (.text numeral) = .ok (.int whole) → whole.natAbs < tenTo (digitLimit - 1)
  | _ => True

/-- A text that is no number is short, however long it is. -/
theorem Json.isShort_text {text : String} (none : (numberOf (.text text)).toOption.isNone) :
    (Json.text text).IsShort := by
  intro whole isNumber
  rw [isNumber] at none
  cases none

mutual

/-- Whether two values are the same. -/
def Json.isSame : Json → Json → Bool
  | .null, .null => true
  | .bool a, .bool b => a = b
  | .number a, .number b => a = b
  | .text a, .text b => a = b
  | .list items, .list others => Json.areSame items others
  | .object members, .object others => Json.haveSame members others
  | _, _ => false

/-- Whether two lists have the same items. -/
def Json.areSame : List Json → List Json → Bool
  | [], [] => true
  | item :: rest, other :: others => Json.isSame item other && Json.areSame rest others
  | _, _ => false

/-- Whether two objects have the same members. -/
def Json.haveSame : List (String × Json) → List (String × Json) → Bool
  | [], [] => true
  | (key, value) :: rest, (name, other) :: others =>
    key = name && Json.isSame value other && Json.haveSame rest others
  | _, _ => false

end

mutual

theorem Json.eq_of_isSame {value other : Json} (same : value.isSame other) : value = other := by
  cases value <;> cases other <;> simp only [Json.isSame, decide_eq_true_eq, Bool.false_eq_true] at same
  case list.list items others => rw [Json.eq_of_areSame same]
  case object.object members others => rw [Json.eq_of_haveSame same]
  all_goals simp [same]

theorem Json.eq_of_areSame {items others : List Json} (same : Json.areSame items others) :
    items = others := by
  cases items <;> cases others <;> simp only [Json.areSame, Bool.and_eq_true, Bool.false_eq_true] at same
  · rfl
  · rw [Json.eq_of_isSame same.1, Json.eq_of_areSame same.2]

theorem Json.eq_of_haveSame {members others : List (String × Json)} (same : Json.haveSame members others) :
    members = others := by
  cases members <;> cases others <;>
    simp only [Json.haveSame, Bool.and_eq_true, decide_eq_true_eq, Bool.false_eq_true] at same
  · rfl
  · obtain ⟨⟨key, value⟩, rest⟩ := same
    rw [Prod.ext key (Json.eq_of_isSame value), Json.eq_of_haveSame rest]

end

section All

variable {P : Json → Prop} {value part : Json}

theorem Json.All.here (all : value.All P) : P value := by
  cases value with
  | list => exact all.1
  | object => exact all.1
  | _ => exact all

theorem Json.AllMembers.get? {members : Table Json} (all : Json.AllMembers P members) {key : String}
    (found : members.get? key = some part) : part.All P := by
  induction members with
  | nil => cases found
  | cons member rest ih =>
    obtain ⟨k, v⟩ := member
    obtain ⟨first, others⟩ := all
    rw [Table.get?] at found
    split_ifs at found
    · cases found
      exact first
    · exact ih others found

theorem Json.All.members (all : value.All P) : Json.AllMembers P value.members := by
  cases value with
  | object => exact all.2
  | _ => trivial

theorem Json.All.member? (all : value.All P) {key : String}
    (found : value.member? key = some part) : part.All P :=
  all.members.get? found

theorem Json.All.entries (all : value.All P) (key : String) : Json.AllMembers P (value.entries key) := by
  unfold Json.entries
  cases found : value.member? key with
  | none => trivial
  | some part => exact (all.member? found).members

/-- The members of a proper value have different keys. -/
theorem Json.All.nodup_entries (proper : value.All Json.IsProper) (key : String) :
    (Table.keys (value.entries key)).Nodup := by
  unfold Json.entries
  cases found : value.member? key with
  | none => exact List.nodup_nil
  | some part =>
    have inside := proper.member? found
    cases part with
    | object members => exact inside.here
    | _ => exact List.nodup_nil

theorem Json.AllItems.forall {items : List Json} (all : Json.AllItems P items) :
    ∀ item ∈ items, item.All P := by
  induction items with
  | nil => simp
  | cons item rest ih => exact List.forall_mem_cons.mpr ⟨all.1, ih all.2⟩

theorem Json.All.tops (all : value.All P) : ∀ top ∈ value.tops, top.All P := by
  unfold Json.tops
  split
  · rename_i blocks found
    exact (all.member? found).2.forall
  · simp

mutual

/-- What holds of all values holds of all parts of a value. -/
theorem Json.all_of_forall (holds : ∀ value, P value) (value : Json) : value.All P := by
  match value with
  | .list items => exact ⟨holds _, Json.allItems_of_forall holds items⟩
  | .object members => exact ⟨holds _, Json.allMembers_of_forall holds members⟩
  | .null | .bool _ | .number _ | .text _ => exact holds _

theorem Json.allItems_of_forall (holds : ∀ value, P value) (items : List Json) : Json.AllItems P items := by
  match items with
  | [] => trivial
  | item :: rest => exact ⟨Json.all_of_forall holds item, Json.allItems_of_forall holds rest⟩

theorem Json.allMembers_of_forall (holds : ∀ value, P value) (members : List (String × Json)) :
    Json.AllMembers P members := by
  match members with
  | [] => trivial
  | (_, value) :: rest => exact ⟨Json.all_of_forall holds value, Json.allMembers_of_forall holds rest⟩

end

mutual

theorem Json.all_and {P Q : Json → Prop} (value : Json) :
    value.All (fun part => P part ∧ Q part) ↔ value.All P ∧ value.All Q := by
  match value with
  | .list items => simp only [Json.All, Json.allItems_and items, and_and_and_comm]
  | .object members => simp only [Json.All, Json.allMembers_and members, and_and_and_comm]
  | .null | .bool _ | .number _ | .text _ => simp only [Json.All]

theorem Json.allItems_and {P Q : Json → Prop} (items : List Json) :
    Json.AllItems (fun part => P part ∧ Q part) items ↔ Json.AllItems P items ∧ Json.AllItems Q items := by
  match items with
  | [] => simp only [Json.AllItems, and_self]
  | item :: rest => simp only [Json.AllItems, Json.all_and item, Json.allItems_and rest, and_and_and_comm]

theorem Json.allMembers_and {P Q : Json → Prop} (members : List (String × Json)) :
    Json.AllMembers (fun part => P part ∧ Q part) members ↔
    Json.AllMembers P members ∧ Json.AllMembers Q members := by
  match members with
  | [] => simp only [Json.AllMembers, and_self]
  | (_, value) :: rest =>
    simp only [Json.AllMembers, Json.all_and value, Json.allMembers_and rest, and_and_and_comm]

end

mutual

/-- The blocks of a stack come from parts of the value that describes it. -/
theorem Stack.DescribedBy.parts {strict : Bool} {stack : StackSpec} {value : Json}
    (described : stack.DescribedBy strict value) (all : value.All P) :
    ∀ spec ∈ stack.heads, ∃ part : Json, part.All P ∧ spec.Reads strict part.members := by
  match stack with
  | .empty => exact described.elim
  | .block spec inputs next =>
    obtain ⟨_, reads, _, within, below⟩ := described
    rw [Stack.heads]
    refine List.forall_mem_cons.mpr
      ⟨⟨value, all, reads⟩, List.forall_mem_append.mpr ⟨within.parts (all.entries _), ?_⟩⟩
    cases turned : value.turn? .next with
    | none =>
      rw [turned] at below
      obtain rfl : next = .empty := below
      simp [Stack.heads]
    | some follower =>
      rw [turned] at below
      have found : (value.member? "next").filter (!·.isNull) = some follower := turned
      obtain ⟨found, _⟩ := Option.filter_eq_some_iff.mp found
      exact Stack.DescribedBy.parts below (all.member? found)

theorem Rows.DescribedIn.parts {strict : Bool} {rows : Rows BlockSpec String} {members : Table Json}
    (described : rows.DescribedIn strict members) (all : Json.AllMembers P members) :
    ∀ spec ∈ rows.heads, ∃ part : Json, part.All P ∧ spec.Reads strict part.members := by
  match rows with
  | .nil => simp [Rows.heads]
  | .cons name plugged rest =>
    obtain ⟨value, others, rfl, first, second⟩ := described
    rw [Rows.heads]
    exact List.forall_mem_append.mpr ⟨first.parts all.1, second.parts all.2⟩

end

end All

/-- What is found under a name is described by what the members have under it. -/
theorem Rows.DescribedIn.find? {strict : Bool} {inputs : Rows BlockSpec String} {members : Table Json}
    (described : inputs.DescribedIn strict members) (name : String) :
    Option.Rel (fun found value => found.2.DescribedBy strict value) (inputs.find? name)
    (members.get? name) := by
  match inputs with
  | .nil =>
    obtain rfl : members = [] := described
    exact .none
  | .cons label plugged rest =>
    obtain ⟨value, others, rfl, first, second⟩ := described
    have later := second.find? name
    rw [Rows.find?, Table.get?]
    split_ifs
    · exact .some first
    · generalize rest.find? name = there, Table.get? others name = found at later
      cases later with
      | none => exact .none
      | some described => exact .some described

end BlockCompiler
