import BlockCompiler.Proofs.Name.Fresh
import BlockCompiler.Proofs.Name.Keys

/-!
Runs of calls to a registry that writes nothing before its names. In a run two names have one identifier
just if they differ in nothing but case and are of one category. An identifier that was asked for as a
distinct one is the answer to no other call, and none is reserved when it is first handed out.
-/

namespace BlockCompiler

/-- A call to a registry. -/
inductive RegistryCall where
  | get (name : String) (category : NameCategory)
  | distinct (name : String) (category : NameCategory)
  | reserve (words : List String)

namespace Registry

/-- The answer to a call and the registry after it. A reservation has no answer. -/
def call (registry : Registry) : RegistryCall → Option String × Registry
  | .get name category => (some (registry.getName name category).1, (registry.getName name category).2)
  | .distinct name category =>
    (some (registry.distinctName name category).1, (registry.distinctName name category).2)
  | .reserve words => (none, registry.reserve words)

/-- The registry after a run of calls. -/
def after (registry : Registry) (calls : List RegistryCall) : Registry :=
  calls.foldl (fun registry call => (registry.call call).2) registry

/-- The answer to one call of a run. -/
def answer? (registry : Registry) (calls : List RegistryCall) (i : Nat) : Option String :=
  calls[i]?.bind fun call => ((registry.after (calls.take i)).call call).1

/-- All that one call can do, where nothing is written before names. -/
inductive Step (registry : Registry) : RegistryCall → Option String → Registry → Prop
  | known {name category text} (assigned : registry.assigned.get? (nameKey name category) = some text) :
      Step registry (.get name category) (some text) registry
  | new {name category text} (unassigned : registry.assigned.get? (nameKey name category) = none)
      (fresh : text ∉ registry.taken) (unreserved : text ∉ registry.reserved) :
      Step registry (.get name category) (some text)
        { registry with
          taken := text :: registry.taken
          assigned := registry.assigned.set (nameKey name category) text }
  | distinct {name category text} (fresh : text ∉ registry.taken) (unreserved : text ∉ registry.reserved) :
      Step registry (.distinct name category) (some text) { registry with taken := text :: registry.taken }
  | reserve {words} : Step registry (.reserve words) none (registry.reserve words)

theorem leadOf_of_unled {registry : Registry} (unled : registry.variableLead = "") (category : NameCategory) :
    registry.leadOf category = "" := by
  cases category <;> simp [leadOf, unled]

theorem call_step {registry : Registry} (unled : registry.variableLead = "") (call : RegistryCall) :
    registry.Step call (registry.call call).1 (registry.call call).2 := by
  cases call with
  | get name category =>
    obtain ⟨fresh, unreserved⟩ := registry.allocate_fresh name
    have lead : registry.leadOf category = "" := leadOf_of_unled unled category
    cases assigned : registry.assigned.get? (nameKey name category) with
    | some text =>
      have step : registry.call (.get name category) = (some text, registry) := by
        simp [Registry.call, getName, assigned, lead]
      rw [step]
      exact .known assigned
    | none =>
      have led : (registry.allocate name).2.leadOf category = "" := lead
      simp only [Registry.call, getName, assigned, led, String.empty_append]
      exact .new assigned fresh unreserved
  | distinct name category =>
    obtain ⟨fresh, unreserved⟩ := registry.allocate_fresh name
    have led : (registry.allocate name).2.leadOf category = "" := leadOf_of_unled unled category
    simp only [Registry.call, distinctName, led, String.empty_append]
    exact .distinct fresh unreserved
  | reserve words => exact .reserve

/-- What holds of a registry after every run: names have identifiers that were handed out, and no two keys
have the same one. -/
structure Consistent (registry : Registry) : Prop where
  unled : registry.variableLead = ""
  taken : ∀ key text, registry.assigned.get? key = some text → text ∈ registry.taken
  apart : ∀ key other text, registry.assigned.get? key = some text →
    registry.assigned.get? other = some text → key = other

theorem consistent_reset {registry : Registry} (unled : registry.variableLead = "") :
    registry.reset.Consistent := by
  refine ⟨unled, ?_, ?_⟩ <;> simp [reset, Table.get?]

theorem Step.consistent {registry next : Registry} {call : RegistryCall} {answer : Option String}
    (step : registry.Step call answer next) (holds : registry.Consistent) : next.Consistent := by
  cases step with
  | known => exact holds
  | @new name category text unassigned fresh unreserved =>
    refine ⟨holds.unled, ?_, ?_⟩
    · intro key other has
      rw [Table.get?_set] at has
      split at has
      · cases has
        exact List.mem_cons_self
      · exact List.mem_cons_of_mem _ (holds.taken key other has)
    · intro key other same hasKey hasOther
      rw [Table.get?_set] at hasKey hasOther
      split at hasKey <;> split at hasOther
      · rename_i atKey atOther
        exact atKey.symm.trans atOther
      · cases hasKey
        exact absurd (holds.taken other _ hasOther) fresh
      · cases hasOther
        exact absurd (holds.taken key _ hasKey) fresh
      · exact holds.apart key other same hasKey hasOther
  | distinct fresh unreserved =>
    exact ⟨holds.unled, fun key text has => List.mem_cons_of_mem _ (holds.taken key text has), holds.apart⟩
  | reserve => exact ⟨holds.unled, holds.taken, holds.apart⟩

theorem Step.taken_grows {registry next : Registry} {call : RegistryCall} {answer : Option String}
    (step : registry.Step call answer next) {text : String} (member : text ∈ registry.taken) :
    text ∈ next.taken := by
  cases step with
  | known => exact member
  | new => exact List.mem_cons_of_mem _ member
  | distinct => exact List.mem_cons_of_mem _ member
  | reserve => exact member

theorem Step.assigned_stays {registry next : Registry} {call : RegistryCall} {answer : Option String}
    (step : registry.Step call answer next) {key text : String}
    (has : registry.assigned.get? key = some text) : next.assigned.get? key = some text := by
  cases step with
  | known => exact has
  | new unassigned =>
    rw [Table.get?_set, if_neg]
    · exact has
    · intro same
      rw [same, has] at unassigned
      exact absurd unassigned (by simp)
  | distinct => exact has
  | reserve => exact has

/-- An identifier that was handed out and belongs to no key. -/
def Private (registry : Registry) (text : String) : Prop :=
  text ∈ registry.taken ∧ ∀ key, registry.assigned.get? key ≠ some text

theorem Step.private_stays {registry next : Registry} {call : RegistryCall} {answer : Option String}
    (step : registry.Step call answer next) {text : String} (holds : registry.Private text) :
    next.Private text := by
  refine ⟨step.taken_grows holds.1, ?_⟩
  intro key has
  cases step with
  | known => exact holds.2 key has
  | new unassigned fresh =>
    rw [Table.get?_set] at has
    split at has
    · cases has
      exact fresh holds.1
    · exact holds.2 key has
  | distinct => exact holds.2 key has
  | reserve => exact holds.2 key has

theorem Step.private_unanswered {registry next : Registry} {call : RegistryCall} {answer : Option String}
    (step : registry.Step call answer next) {text : String} (holds : registry.Private text) :
    answer ≠ some text := by
  rintro rfl
  cases step with
  | known assigned => exact holds.2 _ assigned
  | new _ fresh => exact fresh holds.1
  | distinct fresh => exact fresh holds.1

/-- What every answer leaves behind: it was handed out. -/
theorem Step.answer_taken {registry next : Registry} {call : RegistryCall} {text : String}
    (step : registry.Step call (some text) next) (holds : registry.Consistent) : text ∈ next.taken := by
  cases step with
  | known assigned => exact holds.taken _ _ assigned
  | new => exact List.mem_cons_self
  | distinct => exact List.mem_cons_self

theorem Step.get_assigned {registry next : Registry} {name : String} {category : NameCategory}
    {answer : Option String} (step : registry.Step (.get name category) answer next) :
    next.assigned.get? (nameKey name category) = answer := by
  cases step with
  | known assigned => exact assigned
  | new => rw [Table.get?_set, if_pos rfl]

theorem Step.distinct_fresh {registry next : Registry} {name : String} {category : NameCategory}
    {text : String} (step : registry.Step (.distinct name category) (some text) next) :
    text ∉ registry.taken := by
  cases step with
  | distinct fresh => exact fresh

theorem Step.distinct_private {registry next : Registry} {name : String} {category : NameCategory}
    {text : String} (step : registry.Step (.distinct name category) (some text) next)
    (holds : registry.Consistent) : next.Private text := by
  cases step with
  | distinct fresh => exact ⟨List.mem_cons_self, fun key has => fresh (holds.taken key _ has)⟩

/-- What belongs to a key after a step did so before, or it is the answer. -/
theorem Step.assigned_origin {registry next : Registry} {call : RegistryCall} {answer : Option String}
    (step : registry.Step call answer next) {key text : String}
    (has : next.assigned.get? key = some text) :
    registry.assigned.get? key = some text ∨ answer = some text := by
  cases step with
  | known => exact Or.inl has
  | new =>
    rw [Table.get?_set] at has
    split at has
    · exact Or.inr has
    · exact Or.inl has
  | distinct => exact Or.inl has
  | reserve => exact Or.inl has

/-- An answer belonged to a key before, or it is not reserved. -/
theorem Step.answer_origin {registry next : Registry} {call : RegistryCall} {text : String}
    (step : registry.Step call (some text) next) :
    (∃ key, registry.assigned.get? key = some text) ∨ text ∉ registry.reserved := by
  cases step with
  | known assigned => exact Or.inl ⟨_, assigned⟩
  | new _ _ unreserved => exact Or.inr unreserved
  | distinct _ unreserved => exact Or.inr unreserved

theorem after_nil (registry : Registry) : registry.after [] = registry := rfl

theorem after_append (registry : Registry) (calls more : List RegistryCall) :
    registry.after (calls ++ more) = (registry.after calls).after more :=
  List.foldl_append

/-- What a step keeps, a run keeps. -/
theorem after_induction (Keeps : Registry → Prop) {registry : Registry} (consistent : registry.Consistent)
    (step : ∀ {registry next call answer}, registry.Step call answer next → Keeps registry → Keeps next)
    (start : Keeps registry) (calls : List RegistryCall) :
    (registry.after calls).Consistent ∧ Keeps (registry.after calls) := by
  induction calls generalizing registry with
  | nil => exact ⟨consistent, start⟩
  | cons call rest ih =>
    have here := call_step consistent.unled call
    exact ih (here.consistent consistent) (step here start)

theorem Consistent.after {registry : Registry} (consistent : registry.Consistent)
    (calls : List RegistryCall) :
    (registry.after calls).Consistent :=
  (after_induction (fun _ => True) consistent (fun _ _ => trivial) trivial calls).1

/-- A call of a run, as a step between two registries of the run. -/
theorem Consistent.step_at {registry : Registry} (consistent : registry.Consistent)
    {calls : List RegistryCall} {i : Nat} {call : RegistryCall} (at_i : calls[i]? = some call) :
    (registry.after (calls.take i)).Step call (registry.answer? calls i)
    (registry.after (calls.take (i + 1))) := by
  have step := call_step (consistent.after (calls.take i)).unled call
  have next : registry.after (calls.take (i + 1)) = ((registry.after (calls.take i)).call call).2 := by
    rw [List.take_add_one, at_i, after_append]
    rfl
  rw [next, answer?, at_i]
  exact step

/-- What holds right after a call and is kept by steps holds when a later call is made. -/
theorem Consistent.later (Keeps : Registry → Prop) {registry : Registry} (consistent : registry.Consistent)
    (step : ∀ {registry next call answer}, registry.Step call answer next → Keeps registry → Keeps next)
    {calls : List RegistryCall} {i j : Nat} (before : i < j)
    (start : Keeps (registry.after (calls.take (i + 1)))) : Keeps (registry.after (calls.take j)) := by
  have split : calls.take j = calls.take (i + 1) ++ (calls.take j).drop (i + 1) := by
    conv_lhs => rw [← List.take_append_drop (i + 1) (calls.take j)]
    rw [List.take_take, min_eq_left (by omega)]
  rw [split, after_append]
  exact (after_induction Keeps (consistent.after _) step start _).2

/-- The identifier of a name that was asked for before is the one of that time just if the two names have one
key. -/
theorem Consistent.get_again {registry : Registry} (consistent : registry.Consistent)
    {calls : List RegistryCall} {i j : Nat} {n m : String} {c d : NameCategory} (before : i < j)
    (at_i : calls[i]? = some (.get n c)) (at_j : calls[j]? = some (.get m d)) :
    registry.answer? calls i = registry.answer? calls j ↔ nameKey n c = nameKey m d := by
  have first := consistent.step_at at_i
  have second := consistent.step_at at_j
  obtain ⟨text, answered⟩ : ∃ text, registry.answer? calls i = some text := by simp [answer?, at_i, call]
  rw [answered] at first ⊢
  have kept : (registry.after (calls.take j)).assigned.get? (nameKey n c) = some text :=
    consistent.later (fun registry => registry.assigned.get? (nameKey n c) = some text)
      (fun step has => step.assigned_stays has) before first.get_assigned
  have now := second.get_assigned
  have stays := second.assigned_stays kept
  constructor
  · intro same
    rw [← same] at now
    exact (consistent.after _).apart _ _ text stays now
  · intro same
    rw [same] at stays
    exact stays.symm.trans now

/-- The answer to a call for a distinct identifier was no answer before and becomes none later. -/
theorem Consistent.distinct_alone {registry : Registry} (consistent : registry.Consistent)
    {calls : List RegistryCall} {i j : Nat} {name : String} {category : NameCategory}
    (at_i : calls[i]? = some (.distinct name category)) (other : j ≠ i) :
    registry.answer? calls j ≠ registry.answer? calls i := by
  have step := consistent.step_at at_i
  obtain ⟨text, answered⟩ : ∃ text, registry.answer? calls i = some text := by simp [answer?, at_i, call]
  rw [answered] at step ⊢
  intro same
  obtain ⟨call, at_j⟩ : ∃ call, calls[j]? = some call := by
    cases at_j : calls[j]? with
    | none => simp [answer?, at_j] at same
    | some call => exact ⟨call, rfl⟩
  have there := consistent.step_at at_j
  rcases Nat.lt_or_gt_of_ne other with before | behind
  · rw [same] at there
    have taken := consistent.later (fun registry => text ∈ registry.taken)
      (fun step member => step.taken_grows member) before (there.answer_taken (consistent.after _))
    exact step.distinct_fresh taken
  · have alone := consistent.later (fun registry => registry.Private text)
      (fun step holds => step.private_stays holds) behind (step.distinct_private (consistent.after _))
    exact there.private_unanswered alone same

/-- Whatever belongs to a key was the answer to an earlier call, where no key had anything at the start. -/
theorem Consistent.assigned_answered {registry : Registry} (consistent : registry.Consistent)
    (nothing : registry.assigned = []) {calls : List RegistryCall} {i : Nat} {key text : String}
    (has : (registry.after (calls.take i)).assigned.get? key = some text) :
    ∃ j < i, registry.answer? calls j = some text := by
  induction i with
  | zero => simp [after_nil, nothing, Table.get?] at has
  | succ i ih =>
    cases at_i : calls[i]? with
    | none =>
      rw [List.take_add_one, at_i, Option.toList_none, List.append_nil] at has
      obtain ⟨j, before, answered⟩ := ih has
      exact ⟨j, by omega, answered⟩
    | some call =>
      rcases (consistent.step_at at_i).assigned_origin has with old | new
      · obtain ⟨j, before, answered⟩ := ih old
        exact ⟨j, by omega, answered⟩
      · exact ⟨i, Nat.lt_succ_self i, new⟩

/-- An answer that was none before is not reserved when it is given. -/
theorem Consistent.first_unreserved {registry : Registry} (consistent : registry.Consistent)
    (nothing : registry.assigned = []) {calls : List RegistryCall} {i : Nat} {text : String}
    (answered : registry.answer? calls i = some text)
    (first : ∀ j < i, registry.answer? calls j ≠ some text) :
    (registry.after (calls.take i)).isReserved text = false := by
  obtain ⟨call, at_i⟩ : ∃ call, calls[i]? = some call := by
    cases at_i : calls[i]? with
    | none => simp [answer?, at_i] at answered
    | some call => exact ⟨call, rfl⟩
  have step := consistent.step_at at_i
  rw [answered] at step
  rcases step.answer_origin with ⟨key, has⟩ | unreserved
  · obtain ⟨j, before, earlier⟩ := consistent.assigned_answered nothing has
    exact absurd earlier (first j before)
  · simpa [isReserved] using unreserved

/-- Names never merge and never split, in any run of calls after a reset. -/
theorem identifiers_apart (registry : Registry) (unled : registry.variableLead = "")
    (calls : List RegistryCall) :
    (∀ i n c, calls[i]? = some (.get n c) ∨ calls[i]? = some (.distinct n c) →
      ∃ text, registry.reset.answer? calls i = some text) ∧
    (∀ i j n m c d, calls[i]? = some (.get n c) → calls[j]? = some (.get m d) →
      (registry.reset.answer? calls i = registry.reset.answer? calls j ↔ lower n = lower m ∧ c = d)) ∧
    (∀ i j n c, calls[i]? = some (.distinct n c) → j ≠ i →
      registry.reset.answer? calls j ≠ registry.reset.answer? calls i) ∧
    (∀ i text, registry.reset.answer? calls i = some text →
      (∀ j < i, registry.reset.answer? calls j ≠ some text) →
      (registry.reset.after (calls.take i)).isReserved text = false) := by
  have consistent := consistent_reset unled
  refine ⟨?_, ?_, ?_, ?_⟩
  · rintro i n c (at_i | at_i) <;> simp [answer?, at_i, call]
  · intro i j n m c d at_i at_j
    rw [← nameKey_inj]
    rcases Nat.lt_trichotomy i j with before | rfl | behind
    · exact consistent.get_again before at_i at_j
    · obtain ⟨rfl, rfl⟩ : n = m ∧ c = d := by simpa [at_i] using at_j
      simp
    · exact eq_comm.trans ((consistent.get_again behind at_j at_i).trans eq_comm)
  · intro i j n c at_i other
    exact consistent.distinct_alone at_i other
  · intro i text answered first
    exact consistent.first_unreserved rfl answered first

/-- Two writings of a reserved word as a name have one identifier, which is not the word, and a distinct
identifier that was asked for between them is another one. -/
theorem identifiers_apart_for :
    (ofReserved ["for"] "").variableLead = "" ∧
      (ofReserved ["for"] "").reset.answer?
          [.get "for" .variable, .distinct "for" .procedure, .get "FOR" .variable] 0 = some "for2" ∧
      (ofReserved ["for"] "").reset.answer?
          [.get "for" .variable, .distinct "for" .procedure, .get "FOR" .variable] 0 =
        (ofReserved ["for"] "").reset.answer?
          [.get "for" .variable, .distinct "for" .procedure, .get "FOR" .variable] 2 ∧
      (ofReserved ["for"] "").reset.answer?
          [.get "for" .variable, .distinct "for" .procedure, .get "FOR" .variable] 0 ≠
        (ofReserved ["for"] "").reset.answer?
          [.get "for" .variable, .distinct "for" .procedure, .get "FOR" .variable] 1 := by
  have apart := identifiers_apart (ofReserved ["for"] "") rfl
    [.get "for" .variable, .distinct "for" .procedure, .get "FOR" .variable]
  refine ⟨rfl, by decide +kernel, ?_, ?_⟩
  · exact (apart.2.1 0 2 "for" "FOR" .variable .variable rfl rfl).mpr ⟨by decide +kernel, rfl⟩
  · exact apart.2.2.1 1 0 "for" .procedure rfl (by decide)

end Registry

end BlockCompiler
