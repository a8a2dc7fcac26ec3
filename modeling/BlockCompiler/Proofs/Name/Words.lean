import BlockCompiler.Proofs.Name.Runs
import BlockCompiler.Proofs.Number.Digits

/-!
Identifiers are words: whatever a name is, letters, digits and underscores stand for it, and no digit comes
first. Only identifiers of ASCII stay what they are, so turning a text into one a second time changes nothing.
-/

namespace BlockCompiler

/-- Characters that stand in identifiers, with no digit at their head. -/
def IsName (text : List Char) : Prop :=
  text ≠ [] ∧ (∀ c ∈ text, isIdentifierChar c) ∧ ∀ c ∈ text.head?, c.isDigit = false

/-- Whether a text is a name is told by its characters one by one. -/
instance (text : List Char) : Decidable (IsName text) :=
  decidable_of_iff (!text.isEmpty && text.all isIdentifierChar && !text.head?.any Char.isDigit) (by
    cases text <;> simp [IsName])

theorem isIdentifierChar_of_isDigit {c : Char} (digit : c.isDigit) : isIdentifierChar c := by
  simp [isIdentifierChar, Char.isAlphanum, digit]

theorem IsName.append {text more : List Char} (isName : IsName text) (all : ∀ c ∈ more, isIdentifierChar c) :
    IsName (text ++ more) := by
  obtain ⟨filled, chars, first⟩ := isName
  refine ⟨by simp [filled], ?_, ?_⟩
  · intro c among
    exact (List.mem_append.mp among).elim (chars c) (all c)
  · cases text with
    | nil => exact absurd rfl filled
    | cons c rest => exact first

theorem isIdentifierChar_upperHexDigit {n : Nat} (small : n < 16) : isIdentifierChar (upperHexDigit n) := by
  have all : ∀ n < 16, isIdentifierChar (upperHexDigit n) := by decide
  exact all n small

theorem isIdentifierChar_identifierChar (c : Char) : ∀ d ∈ identifierChar c, isIdentifierChar d := by
  intro d among
  unfold identifierChar at among
  split_ifs at among with inName plain
  · rw [List.mem_singleton.mp among]
    exact inName
  · rw [List.mem_singleton.mp among]
    decide
  · obtain ⟨byte, _, inside⟩ := List.mem_flatMap.mp among
    have bound : byte.toNat < 256 := byte.toNat_lt
    simp only [escapedByte, List.mem_cons, List.not_mem_nil, or_false] at inside
    rcases inside with rfl | rfl | rfl
    · decide
    · exact isIdentifierChar_upperHexDigit (by omega)
    · exact isIdentifierChar_upperHexDigit (by omega)

theorem isName_safeName (name : String) : IsName (safeName name).toList := by
  have all : ∀ c ∈ name.toList.flatMap identifierChar, isIdentifierChar c := by
    intro c among
    obtain ⟨d, _, inside⟩ := List.mem_flatMap.mp among
    exact isIdentifierChar_identifierChar d c inside
  unfold safeName
  split
  · decide
  · rename_i c rest shape
    rw [shape] at all
    split_ifs with digit
    · have company : IsName "my_".toList := by decide
      rw [String.toList_append, String.toList_ofList (l := c :: rest)]
      exact company.append all
    · rw [String.toList_ofList]
      refine ⟨by simp, all, ?_⟩
      intro d headed
      simp only [List.head?_cons, Option.mem_some_iff] at headed
      rw [← headed]
      simpa using digit

theorem IsName.numbered {base : String} (isName : IsName base.toList) (i : Nat) :
    IsName (base ++ toString i).toList := by
  rw [String.toList_append]
  exact isName.append fun c among => isIdentifierChar_of_isDigit ((areDigits_toString i).2 c among)

namespace Registry

variable {registry : Registry} {name : String} {category : NameCategory}

theorem isName_firstFree {base : String} (isName : IsName base.toList) (fuel i : Nat) :
    IsName (registry.firstFree base fuel i).toList := by
  induction fuel generalizing i with
  | zero => exact isName.numbered i
  | succ fuel ih =>
    rw [firstFree]
    split_ifs with free
    · exact isName.numbered i
    · exact ih (i + 1)

theorem isName_allocate (name : String) : IsName (registry.allocate name).1.toList := by
  have base := isName_safeName name
  simp only [allocate, candidate]
  split_ifs with free
  · exact base
  · exact isName_firstFree base _ _

/-- What the identifiers of a registry are made of: words alone, with nothing written before them. -/
structure Plain (registry : Registry) : Prop where
  unled : registry.variableLead = ""
  words : ∀ key text, registry.assigned.get? key = some text → IsName text.toList

theorem plain_ofReserved (words : List String) : (ofReserved words "").Plain :=
  ⟨rfl, fun key text found => by simp [ofReserved, reserve, Table.get?] at found⟩

/-- The registry after a name was asked for still has all its identifiers, and that of the name. -/
theorem Plain.getName (plain : registry.Plain) (name : String) (category : NameCategory) :
    (registry.getName name category).2.Plain ∧ IsName (registry.getName name category).1.toList ∧
      (registry.getName name category).2.assigned.get? (nameKey name category) =
        some (registry.getName name category).1 ∧
      ∀ key text, registry.assigned.get? key = some text →
        (registry.getName name category).2.assigned.get? key = some text := by
  cases assigned : registry.assigned.get? (nameKey name category) with
  | some text =>
    have answer : registry.getName name category = (text, registry) := by
      simp [Registry.getName, assigned, leadOf_of_unled plain.unled]
    rw [answer]
    exact ⟨plain, plain.words _ text assigned, assigned, fun _ _ found => found⟩
  | none =>
    have led : (registry.allocate name).2.leadOf category = "" := leadOf_of_unled plain.unled category
    have isName : IsName (registry.allocate name).1.toList := isName_allocate name
    have answer : registry.getName name category = ((registry.allocate name).1,
        { (registry.allocate name).2 with
          assigned := registry.assigned.set (nameKey name category) (registry.allocate name).1 }) := by
      simp only [Registry.getName, assigned, led, String.empty_append]
      rfl
    rw [answer]
    refine ⟨⟨plain.unled, ?_⟩, isName, by rw [Table.get?_set, if_pos rfl], ?_⟩
    · intro key text found
      rw [Table.get?_set] at found
      split_ifs at found
      · exact Option.some.inj found ▸ isName
      · exact plain.words key text found
    · intro key text found
      rw [Table.get?_set, if_neg]
      · exact found
      · rintro rfl
        rw [assigned] at found
        cases found

theorem Plain.distinctName (plain : registry.Plain) (name : String) (category : NameCategory) :
    (registry.distinctName name category).2.Plain ∧ IsName (registry.distinctName name category).1.toList ∧
      (registry.distinctName name category).2.assigned = registry.assigned := by
  have led : (registry.allocate name).2.leadOf category = "" := leadOf_of_unled plain.unled category
  simp only [Registry.distinctName, led, String.empty_append]
  exact ⟨⟨plain.unled, plain.words⟩, isName_allocate name, rfl⟩

theorem Plain.getNames (plain : registry.Plain) (names : List String) (category : NameCategory) :
    (registry.getNames names category).2.Plain := by
  induction names generalizing registry with
  | nil => exact plain
  | cons name rest ih => exact ih (plain.getName name category).1

end Registry

/-- Whether a character is a letter of ASCII. -/
def IsLetter (c : Char) : Prop := ('a' ≤ c ∧ c ≤ 'z') ∨ ('A' ≤ c ∧ c ≤ 'Z')

/-- A text is an identifier: a letter or an underscore, and then letters, digits and underscores. -/
def IsIdentifier (text : String) : Prop :=
  ∃ first rest, text.toList = first :: rest ∧ (IsLetter first ∨ first = '_') ∧
    ∀ c ∈ rest, IsLetter c ∨ ('0' ≤ c ∧ c ≤ '9') ∨ c = '_'

/-- Characters of identifiers are letters, digits and the underscore. -/
theorem isIdentifierChar_iff {c : Char} : isIdentifierChar c ↔
    (((65 ≤ c.toNat ∧ c.toNat ≤ 90) ∨ (97 ≤ c.toNat ∧ c.toNat ≤ 122)) ∨ (48 ≤ c.toNat ∧ c.toNat ≤ 57)) ∨
    c = '_' := by
  have shape : isIdentifierChar c =
      (((decide (c.val ≥ 65 ∧ c.val ≤ 90) || (decide (c.val ≥ 97) && decide (c.val ≤ 122))) ||
      (decide (c.val ≥ 48) && decide (c.val ≤ 57))) || decide (c = '_')) := rfl
  rw [shape]
  simp only [Bool.or_eq_true, Bool.and_eq_true, decide_eq_true_eq, ge_iff_le, UInt32.le_iff_toNat_le]
  rfl

theorem isIdentifierChar_iff_isLetter {c : Char} :
    isIdentifierChar c ↔ IsLetter c ∨ ('0' ≤ c ∧ c ≤ '9') ∨ c = '_' := by
  show _ ↔ ((97 ≤ c.toNat ∧ c.toNat ≤ 122) ∨ (65 ≤ c.toNat ∧ c.toNat ≤ 90)) ∨
    (48 ≤ c.toNat ∧ c.toNat ≤ 57) ∨ c = '_'
  rw [isIdentifierChar_iff]
  tauto

theorem isDigit_iff {c : Char} : c.isDigit ↔ '0' ≤ c ∧ c ≤ '9' := by
  simp only [Char.isDigit, Bool.and_eq_true, decide_eq_true_eq, Char.le_def, ge_iff_le]

theorem isDigit_eq_false_of_isLetter {c : Char} (letter : IsLetter c) : c.isDigit = false := by
  rw [Bool.eq_false_iff, Ne, isDigit_iff]
  rintro ⟨_, below⟩
  rcases letter with ⟨above, _⟩ | ⟨above, _⟩ <;> exact absurd (Char.le_trans above below) (by decide)

theorem isIdentifier_iff {text : String} : IsIdentifier text ↔ IsName text.toList := by
  constructor
  · rintro ⟨first, rest, shape, leads, others⟩
    rw [shape]
    refine ⟨by
      simp, List.forall_mem_cons.mpr
        ⟨?_, fun c member => isIdentifierChar_iff_isLetter.mpr (others c member)⟩, ?_⟩
    · exact isIdentifierChar_iff_isLetter.mpr (leads.imp id .inr)
    · rintro c ⟨⟩
      rcases leads with letter | rfl
      · exact isDigit_eq_false_of_isLetter letter
      · rfl
  · rintro ⟨filled, chars, leads⟩
    obtain ⟨first, rest, shape⟩ := List.exists_cons_of_ne_nil filled
    rw [shape] at chars leads
    obtain ⟨here, others⟩ := List.forall_mem_cons.mp chars
    refine ⟨first, rest, shape, ?_, fun c member => isIdentifierChar_iff_isLetter.mp (others c member)⟩
    rcases isIdentifierChar_iff_isLetter.mp here with letter | digit | underscore
    · exact .inl letter
    · exact absurd (isDigit_iff.mpr digit) (by simp [leads first rfl])
    · exact .inr underscore

/-- The characters of an identifier stand for themselves. -/
theorem flatMap_identifierChar {chars : List Char} (all : ∀ c ∈ chars, isIdentifierChar c) :
    chars.flatMap identifierChar = chars := by
  have each : ∀ c ∈ chars, identifierChar c = [c] := fun c member => if_pos (all c member)
  rw [List.flatMap_congr each, List.flatMap_singleton']

/-- A name is what it stands for just if it is an identifier. -/
theorem safeName_eq_self_iff {name : String} : safeName name = name ↔ IsIdentifier name := by
  rw [isIdentifier_iff]
  constructor
  · intro same
    rw [← same]
    exact isName_safeName name
  · rintro ⟨filled, chars, leads⟩
    obtain ⟨first, rest, shape⟩ := List.exists_cons_of_ne_nil filled
    have plain : first.isDigit = false := leads first (by rw [shape]; rfl)
    have whole : name.toList.flatMap identifierChar = first :: rest := by
      rw [flatMap_identifierChar chars, shape]
    unfold safeName
    rw [whole]
    dsimp only
    rw [plain, if_neg (by simp), ← shape, String.ofList_toList]

/-- Any text is turned into an identifier of ASCII. The text stays what it is just if it is an identifier, and
so it does the second time. What is handed out as a fresh identifier is one, unless something is written
before the names of its category. -/
theorem safeName_isIdentifier (name : String) :
    IsIdentifier (safeName name) ∧ (safeName name = name ↔ IsIdentifier name) ∧
      safeName (safeName name) = safeName name ∧
      ∀ (registry : Registry) (category : NameCategory), registry.leadOf category = "" →
        IsIdentifier (registry.distinctName name category).1 := by
  have legal : IsIdentifier (safeName name) := isIdentifier_iff.mpr (isName_safeName name)
  refine ⟨legal, safeName_eq_self_iff, safeName_eq_self_iff.mpr legal, fun registry category unled => ?_⟩
  have stays : (registry.allocate name).2.leadOf category = "" := unled
  simp only [Registry.distinctName, stays, String.empty_append]
  exact isIdentifier_iff.mpr (Registry.isName_allocate name)

/-- A name that is reserved, for a procedure where only variables are written behind something. -/
theorem safeName_isIdentifier_reserved :
    (Registry.ofReserved ["if"] "v").leadOf .procedure = "" ∧
      ((Registry.ofReserved ["if"] "v").distinctName "if" .procedure).1 = "if2" ∧
      IsIdentifier ((Registry.ofReserved ["if"] "v").distinctName "if" .procedure).1 :=
  ⟨rfl, by decide +kernel, (safeName_isIdentifier "if").2.2.2 _ .procedure rfl⟩

end BlockCompiler
