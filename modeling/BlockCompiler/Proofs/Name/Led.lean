import BlockCompiler.Proofs.Name.Runs

/-!
Runs of calls to a registry that writes something before its variables. Identifiers are chosen without what
is written before them: a run goes as it would go for a registry that writes nothing, and only its answers
to variables get something in front. So identifiers that differ may lead to answers that are the same, though
never within the variables and never within the other names, and an answer for a variable may be reserved.
-/

namespace BlockCompiler

/-- The category of the name a call is about. -/
def RegistryCall.category? : RegistryCall → Option NameCategory
  | .get _ category => some category
  | .distinct _ category => some category
  | .reserve _ => none

/-- Two calls of a run are for one identifier: they are one call, or both are for the identifier of a name, of
one category, where the names differ in nothing but case. -/
def ForOneIdentifier (calls : List RegistryCall) (i j : Nat) : Prop :=
  i = j ∨ ∃ n m category, calls[i]? = some (.get n category) ∧ calls[j]? = some (.get m category) ∧
    lower n = lower m

namespace Registry

/-- A registry that writes nothing before its names and is the same apart from this. -/
def unled (registry : Registry) : Registry := { registry with variableLead := "" }

@[simp] theorem variableLead_unled (registry : Registry) : registry.unled.variableLead = "" := rfl

@[simp] theorem reserved_unled (registry : Registry) : registry.unled.reserved = registry.reserved := rfl

@[simp] theorem reset_unled (registry : Registry) : registry.unled.reset = registry.reset.unled := rfl

@[simp] theorem leadOf_unled (registry : Registry) (category : NameCategory) :
    registry.unled.leadOf category = "" := leadOf_of_unled rfl category

theorem leadOf_ne_empty {registry : Registry} {category : NameCategory}
    (lead : registry.leadOf category ≠ "") :
    registry.variableLead ≠ "" ∧ category = .variable := by
  match category with
  | .variable => exact ⟨lead, rfl⟩
  | .procedure => exact absurd rfl lead
  | .developer => exact absurd rfl lead

/-- Only between a variable and what is no variable does it differ what is written before a name. -/
theorem variable_of_leadOf_ne {registry : Registry} {c d : NameCategory}
    (leads : registry.leadOf c ≠ registry.leadOf d) :
    registry.variableLead ≠ "" ∧ (c = .variable ↔ d ≠ .variable) := by
  by_cases plain : registry.leadOf c = ""
  · obtain ⟨led, rfl⟩ := leadOf_ne_empty (fun empty => leads (plain.trans empty.symm))
    refine ⟨led, iff_of_false ?_ (by simp)⟩
    rintro rfl
    exact leads rfl
  · obtain ⟨led, rfl⟩ := leadOf_ne_empty plain
    refine ⟨led, iff_of_true rfl ?_⟩
    rintro rfl
    exact leads rfl

theorem firstFree_unled (registry : Registry) (base : String) (fuel i : Nat) :
    registry.unled.firstFree base fuel i = registry.firstFree base fuel i := by
  induction fuel generalizing i with
  | zero => rfl
  | succ fuel ih =>
    rw [firstFree, firstFree, ih]
    rfl

theorem candidate_unled (registry : Registry) (base : String) :
    registry.unled.candidate base = registry.candidate base := by
  rw [candidate, candidate, firstFree_unled]
  rfl

theorem allocate_unled (registry : Registry) (name : String) :
    registry.unled.allocate name = ((registry.allocate name).1, (registry.allocate name).2.unled) := by
  simp only [allocate, candidate_unled]
  rfl

/-- What is written before names stays what it is. -/
theorem variableLead_call (registry : Registry) (call : RegistryCall) :
    (registry.call call).2.variableLead = registry.variableLead := by
  cases call with
  | get name category =>
    cases assigned : registry.assigned.get? (nameKey name category) <;>
      simp [Registry.call, getName, assigned, allocate]
  | distinct name category => rfl
  | reserve words => rfl

/-- A call to a registry that writes nothing before its names leaves what the call leaves otherwise. -/
theorem call_unled (registry : Registry) (call : RegistryCall) :
    (registry.unled.call call).2 = (registry.call call).2.unled := by
  cases call with
  | get name category =>
    have known : registry.unled.assigned = registry.assigned := rfl
    cases assigned : registry.assigned.get? (nameKey name category) with
    | some text => simp only [Registry.call, getName, known, assigned]
    | none =>
      simp only [Registry.call, getName, known, assigned, allocate_unled]
      rfl
  | distinct name category => simp only [Registry.call, distinctName, allocate_unled]
  | reserve words => rfl

/-- A call is answered by what a registry that writes nothing before its names would answer, behind what is
written before the names of the category. -/
theorem answer_call {registry : Registry} {call : RegistryCall} {category : NameCategory}
    (named : call.category? = some category) :
    ∃ text, (registry.unled.call call).1 = some text ∧
      (registry.call call).1 = some (registry.leadOf category ++ text) := by
  have stays : ∀ name, (registry.allocate name).2.leadOf category = registry.leadOf category := fun _ => rfl
  cases call with
  | get name other =>
    obtain rfl : other = category := by simpa [RegistryCall.category?] using named
    have known : registry.unled.assigned = registry.assigned := rfl
    cases assigned : registry.assigned.get? (nameKey name other) with
    | some text => exact ⟨text, by simp [Registry.call, getName, known, assigned]⟩
    | none =>
      refine ⟨(registry.allocate name).1, ?_, ?_⟩
      · simp [Registry.call, getName, known, assigned, allocate_unled]
      · simp [Registry.call, getName, assigned, stays]
  | distinct name other =>
    obtain rfl : other = category := by simpa [RegistryCall.category?] using named
    refine ⟨(registry.allocate name).1, ?_, ?_⟩
    · simp [Registry.call, distinctName, allocate_unled]
    · simp [Registry.call, distinctName, stays]
  | reserve words => cases named

theorem after_unled (registry : Registry) (calls : List RegistryCall) :
    registry.unled.after calls = (registry.after calls).unled := by
  induction calls generalizing registry with
  | nil => rfl
  | cons call rest ih => exact (congrArg (after · rest) (registry.call_unled call)).trans (ih _)

theorem variableLead_after (registry : Registry) (calls : List RegistryCall) :
    (registry.after calls).variableLead = registry.variableLead := by
  induction calls generalizing registry with
  | nil => rfl
  | cons call rest ih => exact (ih _).trans (registry.variableLead_call call)

theorem leadOf_after (registry : Registry) (calls : List RegistryCall) (category : NameCategory) :
    (registry.after calls).leadOf category = registry.leadOf category := by
  cases category <;> simp [leadOf, variableLead_after]

theorem exists_answer {registry : Registry} {calls : List RegistryCall} {i : Nat} {call : RegistryCall}
    {category : NameCategory} (at_i : calls[i]? = some call) (named : call.category? = some category) :
    ∃ text, registry.unled.answer? calls i = some text ∧
      registry.answer? calls i = some (registry.leadOf category ++ text) := by
  obtain ⟨text, bare, full⟩ := @answer_call (registry.after (calls.take i)) _ _ named
  refine ⟨text, ?_, ?_⟩
  · simpa [answer?, at_i, after_unled] using bare
  · simpa [answer?, at_i, leadOf_after] using full

/-- Where nothing is written before names, two calls have one answer just if they are for one identifier. -/
theorem Consistent.answer_eq_iff {registry : Registry} (consistent : registry.Consistent)
    {calls : List RegistryCall} {i j : Nat} {call other : RegistryCall} {c d : NameCategory}
    (at_i : calls[i]? = some call) (at_j : calls[j]? = some other)
    (named_i : call.category? = some c) (named_j : other.category? = some d) :
    registry.answer? calls i = registry.answer? calls j ↔ ForOneIdentifier calls i j := by
  rcases eq_or_ne i j with rfl | apart
  · exact iff_of_true rfl (.inl rfl)
  have alone : ∀ {k l name category}, calls[k]? = some (.distinct name category) → k = i ∧ l = j ∨
      k = j ∧ l = i →
      ¬ ForOneIdentifier calls i j := by
    rintro k l name category at_k which (same | ⟨n, m, category, get_i, get_j, -⟩)
    · exact apart same
    · rcases which with ⟨rfl, -⟩ | ⟨rfl, -⟩
      · cases at_k.symm.trans get_i
      · cases at_k.symm.trans get_j
  cases call with
  | reserve => cases named_i
  | distinct =>
    exact iff_of_false (consistent.distinct_alone at_i apart.symm).symm (alone at_i (.inl ⟨rfl, rfl⟩))
  | get n category =>
    cases other with
    | reserve => cases named_j
    | distinct => exact iff_of_false (consistent.distinct_alone at_j apart) (alone at_j (.inr ⟨rfl, rfl⟩))
    | get m other =>
      have keys : nameKey n category = nameKey m other ↔ ForOneIdentifier calls i j := by
        rw [nameKey_inj]
        constructor
        · rintro ⟨same, rfl⟩
          exact .inr ⟨n, m, category, at_i, at_j, same⟩
        · rintro (same | ⟨_, _, _, get_i, get_j, same⟩)
          · exact absurd same apart
          · cases at_i.symm.trans get_i
            cases at_j.symm.trans get_j
            exact ⟨same, rfl⟩
      rw [← keys]
      rcases Nat.lt_or_gt_of_ne apart with before | behind
      · exact consistent.get_again before at_i at_j
      · exact eq_comm.trans ((consistent.get_again behind at_j at_i).trans eq_comm)

/-- What was reserved stays reserved and is never handed out. -/
theorem Step.unreserved_stays {registry next : Registry} {call : RegistryCall} {answer : Option String}
    (step : registry.Step call answer next) {word : String}
    (holds : word ∈ registry.reserved ∧ word ∉ registry.taken) :
    word ∈ next.reserved ∧ word ∉ next.taken := by
  cases step with
  | known => exact holds
  | new _ _ unreserved =>
    have other := ne_of_mem_of_not_mem holds.1 unreserved
    exact ⟨holds.1, List.not_mem_cons_of_ne_of_not_mem other holds.2⟩
  | distinct _ unreserved =>
    have other := ne_of_mem_of_not_mem holds.1 unreserved
    exact ⟨holds.1, List.not_mem_cons_of_ne_of_not_mem other holds.2⟩
  | reserve => exact ⟨List.mem_append_left _ holds.1, holds.2⟩

/-- No answer is a word that was reserved at the start, where nothing is written before names. -/
theorem Consistent.answer_unreserved {registry : Registry} (consistent : registry.Consistent)
    (nothing : registry.taken = []) {calls : List RegistryCall} {i : Nat} {text : String}
    (answered : registry.answer? calls i = some text) : text ∉ registry.reserved := by
  intro reserved
  obtain ⟨call, at_i⟩ : ∃ call, calls[i]? = some call := by
    cases at_i : calls[i]? with
    | none => simp [answer?, at_i] at answered
    | some call => exact ⟨call, rfl⟩
  have step := consistent.step_at at_i
  rw [answered] at step
  have kept := (after_induction (fun registry => text ∈ registry.reserved ∧ text ∉ registry.taken) consistent
    (fun step holds => step.unreserved_stays holds) ⟨reserved, by simp [nothing]⟩ (calls.take (i + 1))).2
  exact kept.2 (step.answer_taken (consistent.after _))

/-- The promise of a registry that writes something before its variables, in any run of calls after a reset.
Each answer is an identifier behind what is written before the names of its category. The identifiers are not
reserved, and are the same only for calls that are for one identifier. So answers that are for different
identifiers are the same only between a variable and what is no variable, and an answer is reserved only if
it is for a variable. -/
theorem answers_apart (registry : Registry) (calls : List RegistryCall) :
    ∃ identifier : Nat → String,
      (∀ i call category, calls[i]? = some call → call.category? = some category →
        registry.reset.answer? calls i = some (registry.leadOf category ++ identifier i) ∧
          identifier i ∉ registry.reserved) ∧
      ∀ i j call other c d, calls[i]? = some call → calls[j]? = some other →
        call.category? = some c → other.category? = some d →
        (identifier i = identifier j ↔ ForOneIdentifier calls i j) ∧
        (registry.reset.answer? calls i = registry.reset.answer? calls j → ¬ ForOneIdentifier calls i j →
          registry.variableLead ≠ "" ∧ (c = .variable ↔ d ≠ .variable)) ∧
        (∀ text ∈ registry.reserved, registry.reset.answer? calls i = some text →
          registry.variableLead ≠ "" ∧ c = .variable) := by
  have consistent : registry.reset.unled.Consistent := @consistent_reset registry.unled rfl
  have answers : ∀ {i call category}, calls[i]? = some call → call.category? = some category →
      registry.reset.unled.answer? calls i = some ((registry.reset.unled.answer? calls i).getD "") ∧
      registry.reset.answer? calls i =
        some (registry.leadOf category ++ (registry.reset.unled.answer? calls i).getD "") := by
    intro i call category at_i named
    obtain ⟨text, bare, full⟩ := @exists_answer registry.reset _ _ _ _ at_i named
    rw [bare]
    exact ⟨rfl, full⟩
  have unreserved : ∀ {i call category}, calls[i]? = some call → call.category? = some category →
      (registry.reset.unled.answer? calls i).getD "" ∉ registry.reserved := fun at_i named =>
    consistent.answer_unreserved rfl (answers at_i named).1
  refine ⟨fun i => (registry.reset.unled.answer? calls i).getD "", ?_, ?_⟩
  · exact fun i call category at_i named => ⟨(answers at_i named).2, unreserved at_i named⟩
  intro i j call other c d at_i at_j named_i named_j
  have same : (registry.reset.unled.answer? calls i).getD "" =
      (registry.reset.unled.answer? calls j).getD "" ↔
      ForOneIdentifier calls i j := by
    rw [← consistent.answer_eq_iff at_i at_j named_i named_j, (answers at_i named_i).1,
      (answers at_j named_j).1]
    simp
  refine ⟨same, ?_, ?_⟩
  · intro equal apart
    rw [(answers at_i named_i).2, (answers at_j named_j).2, Option.some.injEq] at equal
    -- behind the same lead the identifiers would be the same
    have leads : registry.leadOf c ≠ registry.leadOf d := fun lead =>
      apart (same.mp (String.append_right_inj _ |>.mp (lead ▸ equal)))
    exact variable_of_leadOf_ne leads
  · intro text reserved answered
    rw [(answers at_i named_i).2, Option.some.injEq] at answered
    refine leadOf_ne_empty fun empty => ?_
    rw [empty, String.empty_append] at answered
    exact unreserved at_i named_i (answered ▸ reserved)

/-- A variable and a distinct name of a procedure, behind a lead that a reserved word starts with. -/
theorem answers_apart_led :
    ∃ identifier : Nat → String,
      (ofReserved ["if"] "i").reset.answer? [.get "f" .variable, .distinct "if" .procedure] 0 =
          some ("i" ++ identifier 0) ∧
        identifier 0 ≠ identifier 1 ∧ identifier 1 ≠ "if" ∧
        (ofReserved ["if"] "i").reset.answer? [.get "f" .variable, .distinct "if" .procedure] 1 =
          some ("" ++ identifier 1) := by
  obtain ⟨identifier, answered, apart⟩ :=
    answers_apart (ofReserved ["if"] "i") [.get "f" .variable, .distinct "if" .procedure]
  have pair := apart 0 1 _ _ _ _ rfl rfl rfl rfl
  refine ⟨identifier, (answered 0 _ _ rfl rfl).1, ?_, ?_, (answered 1 _ _ rfl rfl).1⟩
  · intro same
    rcases pair.1.mp same with equal | ⟨_, _, _, _, other, _⟩
    · exact absurd equal (by decide)
    · cases other
  · intro equal
    exact (answered 1 _ _ rfl rfl).2 (by rw [equal]; decide +kernel)

/-- An answer for a variable may be a reserved word, and the answers to calls for different identifiers may be
the same. -/
theorem answers_meet :
    (ofReserved ["if"] "i").reset.answer? [.get "f" .variable] 0 = some "if" ∧
      (ofReserved ["if"] "i").isReserved "if" = true ∧
      (ofReserved [] "i").reset.answer? [.distinct "x" .variable, .distinct "ix" .procedure] 0 =
        (ofReserved [] "i").reset.answer? [.distinct "x" .variable, .distinct "ix" .procedure] 1 := by
  decide +kernel

end Registry

end BlockCompiler
