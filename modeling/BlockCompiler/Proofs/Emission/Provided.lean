import BlockCompiler.Proofs.Coupling.Variables
import BlockCompiler.Proofs.Emission.Acts

/-!
Helper functions that are provided. As long as nothing else is defined under the name that is wanted for a
helper function, it is provided: it has one identifier in a pass, which belongs to it alone, and it is defined
as the first of its sources says. Whatever else is defined under the name takes its place.
-/

namespace BlockCompiler

/-- A call on a pass: a single act, or the code of a stack of some workspace. -/
inductive PassCall where
  | act (act : PassAct)
  | generate (ws : Workspace) (b : Option Nat)

/-- The emission that a call is, with the identifier that it gives. -/
def PassCall.emission (emitter : Emitter) : PassCall → Emission (Option String)
  | .act single => single.emission
  | .generate ws b => (fun _ => none) <$> emitter.emitBlock ws b

/-- The acts that a call may consist of. -/
def PassCall.May : PassCall → PassAct → Prop
  | .act single, other => other = single
  | .generate .., other => other.IsTemplates fun _ => True

/-- A call may define something under a key that is not a helper function. -/
def PassCall.Writes (call : PassCall) (key : String) : Prop := ∃ code, call.May (.define key code)

namespace Emitter

/-- The pass over a workspace after so many of some calls, whether they succeed or fail. -/
def passAt (emitter : Emitter) (ws : Workspace) (calls : List PassCall) (i : Nat) : Pass :=
  (calls.take i).foldl
    (fun pass call => ((call.emission emitter).run pass : Except EmissionError (Option String) × Pass).2)
    (emitter.start ws)

/-- The identifier that one of some calls gives. -/
def answer? (emitter : Emitter) (ws : Workspace) (calls : List PassCall) (i : Nat) : Option String :=
  calls[i]?.bind fun call =>
    ((call.emission emitter).run (emitter.passAt ws calls i) : Except EmissionError
      (Option String) × Pass).1.toOption.join

end Emitter

namespace Pass

/-- Something is defined under a key that is no helper function. -/
def DefinesOther (pass : Pass) (key : String) : Prop :=
  pass.definitions.has key ∧ pass.functions.get? key = none

/-- What holds of a pass all the time: a helper function has an identifier of its own and is defined, and no
key has two definitions. -/
structure Provides (pass : Pass) : Prop where
  names : pass.names.Consistent
  provided : ∀ key name, pass.functions.get? key = some name →
    pass.names.Private name ∧ IsName name.toList ∧ name ∉ pass.names.reserved ∧ pass.definitions.has key
  apart : ∀ key other name, pass.functions.get? key = some name →
    pass.functions.get? other = some name → key = other
  distinct : pass.definitions.keys.Nodup

/-- What a later state of a pass has in common with an earlier one: helper functions stay, new ones have new
identifiers, and where something else is defined there never is one. -/
structure Continues (after before : Pass) : Prop where
  taken : ∀ name ∈ before.names.taken, name ∈ after.names.taken
  reserved : after.names.reserved = before.names.reserved
  functions : ∀ key name, before.functions.get? key = some name → after.functions.get? key = some name
  fresh : ∀ key name, before.functions.get? key = none → after.functions.get? key = some name →
    name ∉ before.names.taken
  foreign : ∀ key, before.DefinesOther key → after.DefinesOther key

variable {s t u : Pass} {act : PassAct} {answer : Option String} {key : String}

theorem Continues.refl : s.Continues s := by
  refine ⟨fun _ => id, rfl, fun _ _ => id, fun key name unknown known => ?_, fun _ => id⟩
  rw [unknown] at known
  cases known

theorem Continues.trans (second : u.Continues t) (first : t.Continues s) : u.Continues s where
  taken name member := second.taken name (first.taken name member)
  reserved := second.reserved.trans first.reserved
  functions key name known := second.functions key name (first.functions key name known)
  fresh key name unknown known := by
    cases between : t.functions.get? key with
    | none => exact fun member => second.fresh key name between known (first.taken name member)
    | some other =>
      obtain rfl := Option.some.inj ((second.functions key other between).symm.trans known)
      exact first.fresh key other unknown between
  foreign key foreign := second.foreign key (first.foreign key foreign)

/-- A step of the registry that leaves definitions and helper functions alone. -/
theorem Provides.withNames (provides : s.Provides) {names : Registry} {call : RegistryCall}
    (step : s.names.Step call answer names) (reserved : names.reserved = s.names.reserved) :
    Provides { s with names } ∧ Continues { s with names } s := by
  refine ⟨⟨step.consistent provides.names, fun key name known => ?_, provides.apart, provides.distinct⟩,
    ⟨fun _ => step.taken_grows, reserved, fun _ _ => id, ?_, fun _ => id⟩⟩
  · obtain ⟨isPrivate, isName, unreserved, defined⟩ := provides.provided key name known
    exact ⟨step.private_stays isPrivate, isName, reserved.symm ▸ unreserved, defined⟩
  · exact (Continues.refl (s := s)).fresh

theorem Provides.define (provides : s.Provides) (key code : String) :
    (s.define key code).Provides ∧ (s.define key code).Continues s := by
  have has (other : String) (defined : s.definitions.has other) :
      (s.define key code).definitions.has other := by
    rw [Pass.define, Table.has_set, defined, Bool.or_true]
  refine ⟨⟨provides.names, fun other name known => ?_, provides.apart, Table.nodup_set provides.distinct⟩,
    ⟨fun _ => id, rfl, fun _ _ => id, (Continues.refl (s := s)).fresh,
    fun other foreign => ⟨has other foreign.1, foreign.2⟩⟩⟩
  obtain ⟨isPrivate, isName, unreserved, defined⟩ := provides.provided other name known
  exact ⟨isPrivate, isName, unreserved, has other defined⟩

/-- A helper function that is provided under a key at which nothing is defined has an identifier that is
new. -/
theorem Provides.provide (provides : s.Provides) {wanted name : String} {names : Registry}
    (undefined : s.definitions.has wanted = false)
    (step : s.names.Step (.distinct wanted .procedure) (some name) names)
    (reserved : names.reserved = s.names.reserved) (isName : IsName name.toList) (code : String) :
    Provides { s with
        names, functions := s.functions.set wanted name, definitions := s.definitions.set wanted code } ∧
    Continues { s with
        names, functions := s.functions.set wanted name,
        definitions := s.definitions.set wanted code } s := by
  have unknown : s.functions.get? wanted = none := by
    cases known : s.functions.get? wanted with
    | none => rfl
    | some other =>
      have defined := (provides.provided wanted other known).2.2.2
      rw [undefined] at defined
      cases defined
  have fresh := step.distinct_fresh
  have unreserved : name ∉ s.names.reserved := by
    cases step with
    | distinct _ unreserved => exact unreserved
  have elsewhere {key other : String} (known : s.functions.get? key = some other) : other ≠ name := by
    rintro rfl
    exact fresh (provides.provided key other known).1.1
  refine ⟨⟨step.consistent provides.names, fun key other known => ?_, fun key other last known same => ?_,
    Table.nodup_set provides.distinct⟩, ⟨fun _ => step.taken_grows, reserved, fun key other known => ?_,
    fun key other unknown known => ?_, fun key foreign => ?_⟩⟩
  · rw [Table.get?_set] at known
    rw [Table.has_set]
    split_ifs at known with here
    · cases known
      exact ⟨step.distinct_private provides.names, isName, reserved.symm ▸ unreserved, by simp [here]⟩
    · obtain ⟨isPrivate, isName, unreserved, defined⟩ := provides.provided key other known
      exact ⟨step.private_stays isPrivate, isName, reserved.symm ▸ unreserved, by simp [defined]⟩
  · rw [Table.get?_set] at known same
    split_ifs at known same with here there there
    · exact here.symm.trans there
    · cases known
      exact absurd rfl (elsewhere same)
    · cases same
      exact absurd rfl (elsewhere known)
    · exact provides.apart key other last known same
  · rw [Table.get?_set, if_neg]
    · exact known
    · rintro rfl
      rw [unknown] at known
      cases known
  · rw [Table.get?_set] at known
    split_ifs at known
    · cases known
      exact fresh
    · rw [unknown] at known
      cases known
  · have other : wanted ≠ key := by
      rintro rfl
      have defined := foreign.1
      rw [undefined] at defined
      cases defined
    refine ⟨?_, ?_⟩
    · rw [Table.has_set, foreign.1, Bool.or_true]
    · rw [Table.get?_set, if_neg other]
      exact foreign.2

/-- No step takes a helper function away, or gives one where something else is defined. -/
theorem Provides.step (provides : s.Provides) (step : s.Step act answer t) : t.Provides ∧ t.Continues s := by
  cases step with
  | define => exact provides.define ..
  | @getName name category =>
    have step := Registry.call_step provides.names.unled (.get name category)
    have reserved : (s.names.getName name category).2.reserved = s.names.reserved := by
      cases assigned : s.names.assigned.get? (nameKey name category) <;>
        simp [Registry.getName, Registry.allocate, assigned]
    exact provides.withNames step reserved
  | @distinctName name category =>
    exact provides.withNames (Registry.call_step provides.names.unled (.distinct name category)) rfl
  | provideKnown | provideForeign => exact ⟨provides, .refl⟩
  | @provideNew wanted lines undefined =>
    have isName : IsName (s.names.distinctName wanted .procedure).1.toList := by
      have led : (s.names.allocate wanted).2.leadOf .procedure = "" :=
        Registry.leadOf_of_unled provides.names.unled .procedure
      simp only [Registry.distinctName, led, String.empty_append]
      exact Registry.isName_allocate wanted
    exact provides.provide undefined
      (Registry.call_step provides.names.unled (.distinct wanted .procedure)) rfl isName _
  | note =>
    exact ⟨⟨provides.names, provides.provided, provides.apart, provides.distinct⟩,
      ⟨fun _ => id, rfl, fun _ _ => id,
      (Continues.refl (s := s)).fresh, fun _ => id⟩⟩

/-- Where nothing else is defined, nothing else is as long as no act defines under the key. -/
theorem Step.not_definesOther (step : s.Step act answer t) (other : ∀ code, act ≠ .define key code)
    (none : ¬ s.DefinesOther key) :
    ¬ t.DefinesOther key := by
  rintro ⟨defined, unknown⟩
  cases step with
  | @define key' code =>
    rw [Pass.define, Table.has_set] at defined
    have apart : key' ≠ key := by
      rintro rfl
      exact other code rfl
    exact none ⟨by simpa [apart] using defined, unknown⟩
  | getName | distinctName | provideKnown | provideForeign | note => exact none ⟨defined, unknown⟩
  | @provideNew wanted lines undefined =>
    rw [Table.get?_set] at unknown
    split_ifs at unknown with here
    rw [Table.has_set] at defined
    exact none ⟨by simpa [here] using defined, unknown⟩

/-- A definition stays as it is as long as no act defines under its key. -/
theorem Step.definition_stays (step : s.Step act answer t) (other : ∀ code, act ≠ .define key code)
    {code : String} (found : s.definitions.get? key = some code) : t.definitions.get? key = some code := by
  cases step with
  | @define key' code' =>
    have apart : key' ≠ key := by
      rintro rfl
      exact other code' rfl
    rw [Pass.define, Table.get?_set, if_neg apart]
    exact found
  | getName | distinctName | provideKnown | provideForeign | note => exact found
  | @provideNew wanted lines undefined =>
    have apart : wanted ≠ key := by
      rintro rfl
      rw [Table.has, found] at undefined
      cases undefined
    rw [Table.get?_set, if_neg apart]
    exact found

/-- What an act gives to provide a helper function is what the function has then, and nothing where something
else is defined. -/
theorem Step.provided {wanted : String} {lines : List String}
    (step : s.Step (.provide wanted lines) answer t) :
    t.functions.get? wanted = answer ∧ (answer = none ↔ s.DefinesOther wanted) := by
  cases step with
  | provideKnown defined known => exact ⟨known, by simp [DefinesOther, known]⟩
  | provideNew undefined => exact ⟨by rw [Table.get?_set, if_pos rfl], by simp [DefinesOther, undefined]⟩
  | provideForeign defined unknown => exact ⟨unknown, by simp [DefinesOther, defined, unknown]⟩

/-- A helper function under whose name nothing is defined is defined with its identifier in place. -/
theorem Step.sourced {wanted : String} {lines : List String} (step : s.Step (.provide wanted lines) answer t)
    (undefined : s.definitions.has wanted = false) :
    ∃ name, t.functions.get? wanted = some name ∧
    t.definitions.get? wanted = some (Emission.sourceUnder name lines) := by
  cases step with
  | provideKnown defined | provideForeign defined =>
    rw [undefined] at defined
    cases defined
  | provideNew =>
    exact ⟨(s.names.distinctName wanted .procedure).1,
      by rw [Table.get?_set, if_pos rfl], by rw [Table.get?_set, if_pos rfl]⟩

/-- What an act gives is handed out afterwards. -/
theorem Step.answer_taken (provides : s.Provides) {name : String} (step : s.Step act (some name) t) :
    name ∈ t.names.taken := by
  cases step with
  | @getName wanted category =>
    exact (Registry.call_step provides.names.unled (.get wanted category)).answer_taken provides.names
  | @distinctName wanted category =>
    exact (Registry.call_step provides.names.unled (.distinct wanted category)).answer_taken provides.names
  | provideKnown defined known => exact (provides.provided _ name known).1.1
  | @provideNew wanted lines undefined =>
    exact (Registry.call_step provides.names.unled (.distinct wanted .procedure)).answer_taken provides.names

/-- What an act gives is the identifier of a helper function only if it provides the function. -/
theorem Step.answer_apart (provides : s.Provides) {wanted name : String} (step : s.Step act answer t)
    (known : t.functions.get? wanted = some name) (other : ∀ lines, act ≠ .provide wanted lines) :
    answer ≠ some name := by
  cases step with
  | define | provideForeign | note => exact nofun
  | @getName asked category =>
    exact (Registry.call_step provides.names.unled (.get asked category)).private_unanswered
      (provides.provided wanted name known).1
  | @distinctName asked category =>
    exact (Registry.call_step provides.names.unled (.distinct asked category)).private_unanswered
      (provides.provided wanted name known).1
  | @provideKnown asked lines given defined found =>
    intro same
    obtain rfl := Option.some.inj same
    obtain rfl := provides.apart _ _ _ found known
    exact other lines rfl
  | @provideNew asked lines undefined =>
    have apart : asked ≠ wanted := by
      rintro rfl
      exact other lines rfl
    rw [Table.get?_set, if_neg apart] at known
    exact (Registry.call_step provides.names.unled (.distinct asked .procedure)).private_unanswered
      (provides.provided wanted name known).1

end Pass

namespace Emitter

open Pass

variable {emitter : Emitter} {ws : Workspace} {calls : List PassCall} {i j : Nat} {act : PassAct}
  {call : PassCall}

theorem functions_start (emitter : Emitter) (ws : Workspace) : (emitter.start ws).functions = [] := by
  unfold start
  cases ws.declared <;> rfl

theorem provides_start (emitter : Emitter) (ws : Workspace) : (emitter.start ws).Provides where
  names := (emitter.lists_start ws).1
  provided key name known := by
    rw [functions_start] at known
    cases known
  apart key other name known := by
    rw [functions_start] at known
    cases known
  distinct := by
    unfold start
    cases ws.declared with
    | nil => exact List.nodup_nil
    | cons => exact List.nodup_singleton _

theorem passAt_succ (at_i : calls[i]? = some call) : emitter.passAt ws calls (i + 1) =
    ((call.emission emitter).run (emitter.passAt ws calls i) : Except EmissionError
    (Option String) × Pass).2 := by
  rw [passAt, List.take_add_one, at_i, List.foldl_append]
  rfl

/-- A single act of some calls, as a step between two states of the pass. -/
theorem step_at (at_i : calls[i]? = some (.act act)) :
    (emitter.passAt ws calls i).Step act (emitter.answer? ws calls i) (emitter.passAt ws calls (i + 1)) := by
  rw [passAt_succ at_i, answer?, at_i]
  exact act_step _ act

/-- The code of a stack gives no identifier. -/
theorem answer?_generate {other : Workspace} {b : Option Nat} (at_i : calls[i]? = some (.generate other b)) :
    emitter.answer? ws calls i = none := by
  rw [answer?, at_i, Option.bind_some, PassCall.emission, map_eq_pure_bind, run_bind]
  generalize ((emitter.emitBlock other b).run (emitter.passAt ws calls i) : Except EmissionError Output ×
    Pass) = outcome
  obtain ⟨result, t⟩ := outcome
  cases result <;> rfl

/-- The code of a stack comes about by acts of templates. -/
theorem follows_emitBlock (templates : emitter.templates = knownTemplates) (ws : Workspace) (b : Option Nat) :
    Emission.Follows (fun _ => True) (emitter.emitBlock ws b) := by
  unfold emitBlock
  cases ws.stack? b with
  | none => exact follows_throw _
  | some stack => exact follows_emit templates (fun _ _ => trivial) stack fun _ _ _ _ => trivial

/-- What each act that some calls may do does to a pass, all of these calls do, if it can be done one after
another. -/
theorem passAt_of_steps (templates : emitter.templates = knownTemplates) {R : Pass → Pass → Prop}
    (refl : ∀ s, R s s)
    (trans : ∀ s t u, R s t → R t u → R s u) (before : i ≤ j)
    (each : ∀ m, i ≤ m → m < j → ∀ call ∈ calls[m]?, ∀ act, call.May act →
    ∀ s answer t, Pass.Step s act answer t → R s t) :
    R (emitter.passAt ws calls i) (emitter.passAt ws calls j) := by
  induction j, before using Nat.le_induction with
  | base => exact refl _
  | succ j before ih =>
    refine trans _ _ _ (ih fun m from_i below => each m from_i (Nat.lt_succ_of_lt below)) ?_
    cases at_j : calls[j]? with
    | none =>
      have same : emitter.passAt ws calls (j + 1) = emitter.passAt ws calls j := by
        rw [passAt, List.take_add_one, at_j, Option.toList_none, List.append_nil, passAt]
      rw [same]
      exact refl _
    | some call =>
      have here := each j before (Nat.lt_succ_self j) call at_j
      cases call with
      | act act => exact here act rfl _ _ _ (step_at at_j)
      | generate other b =>
        obtain ⟨acts, among, same⟩ := follows_emitBlock templates other b (emitter.passAt ws calls j)
        rw [passAt_succ at_j, PassCall.emission, snd_run_map, same]
        exact after_of_steps refl trans (fun act member => here act (among act member)) _

theorem later_passAt (templates : emitter.templates = knownTemplates) (before : i ≤ j) :
    (emitter.passAt ws calls i).Provides →
    (emitter.passAt ws calls j).Provides ∧
    (emitter.passAt ws calls j).Continues (emitter.passAt ws calls i) := by
  refine passAt_of_steps (R := fun s t => s.Provides → t.Provides ∧ t.Continues s) templates
    (fun s provides => ⟨provides, .refl⟩)
    (fun s t u first second provides => ?_) before fun _ _ _ _ _ act _ s answer t step provides =>
      provides.step step
  obtain ⟨between, one⟩ := first provides
  obtain ⟨last, other⟩ := second between
  exact ⟨last, other.trans one⟩

theorem provides_passAt (templates : emitter.templates = knownTemplates) (i : Nat) :
    (emitter.passAt ws calls i).Provides :=
  (later_passAt templates (Nat.zero_le i) (emitter.provides_start ws)).1

theorem continues_passAt (templates : emitter.templates = knownTemplates) (before : i ≤ j) :
    (emitter.passAt ws calls j).Continues (emitter.passAt ws calls i) :=
  (later_passAt templates before (provides_passAt templates i)).2

/-- A helper function has one identifier at all times at which it has one. -/
theorem functions_agree (templates : emitter.templates = knownTemplates) {wanted name other : String}
    (here : (emitter.passAt ws calls i).functions.get? wanted = some name)
    (there : (emitter.passAt ws calls j).functions.get? wanted = some other) : name = other := by
  rcases Nat.le_total i j with before | behind
  · exact Option.some.inj (((continues_passAt templates before).functions wanted name here).symm.trans there)
  · exact Option.some.inj (here.symm.trans ((continues_passAt templates behind).functions wanted other there))

/-- Nothing else is ever defined under the name of a helper function that has an identifier at some time. -/
theorem not_definesOther_of_function (templates : emitter.templates = knownTemplates) {wanted name : String}
    (given : (emitter.passAt ws calls i).functions.get? wanted = some name) (j : Nat) :
    ¬ (emitter.passAt ws calls j).DefinesOther wanted := by
  intro foreign
  rcases Nat.le_total j i with before | behind
  · have still := (continues_passAt templates before).foreign wanted foreign
    rw [still.2] at given
    cases given
  · have kept := (continues_passAt templates behind).functions wanted name given
    rw [foreign.2] at kept
    cases kept

/-- No other call gives the identifier of a helper function. -/
theorem answer_apart_of_function (templates : emitter.templates = knownTemplates) {wanted name : String}
    (given : (emitter.passAt ws calls i).functions.get? wanted = some name) {call : PassCall}
    (at_j : calls[j]? = some call) (other : ∀ lines, call ≠ .act (.provide wanted lines)) :
    emitter.answer? ws calls j ≠ some name := by
  intro same
  cases call with
  | generate alone b =>
    rw [answer?_generate at_j] at same
    cases same
  | act act =>
    have there := @step_at emitter ws _ _ _ at_j
    cases known : (emitter.passAt ws calls (j + 1)).functions.get? wanted with
    | some second =>
      obtain rfl := functions_agree templates known given
      exact there.answer_apart (provides_passAt templates j) known
        (fun lines act => other lines (act ▸ rfl)) same
    | none =>
      -- The helper function is not provided yet, and when it is, the answer has been handed out.
      have before : j + 1 ≤ i := by
        by_contra behind
        have kept := (continues_passAt templates (Nat.le_of_not_le behind)).functions wanted name given
        rw [known] at kept
        cases kept
      rw [same] at there
      exact (continues_passAt templates before).fresh wanted name known given
        (there.answer_taken (provides_passAt templates j))

/-- Where something else is defined under the name of a helper function, it was at the start, or some call
before may have defined it. -/
theorem writes_of_isForeign (templates : emitter.templates = knownTemplates) {wanted : String}
    (foreign : (emitter.passAt ws calls i).DefinesOther wanted) :
    (emitter.start ws).definitions.has wanted ∨ ∃ j < i, ∃ call ∈ calls[j]?, call.Writes wanted := by
  by_contra none
  rw [not_or] at none
  obtain ⟨undefined, unwritten⟩ := none
  refine passAt_of_steps (R := fun s t => ¬ s.DefinesOther wanted → ¬ t.DefinesOther wanted)
    templates (fun _ => id)
    (fun _ _ _ first second => second ∘ first) (Nat.zero_le i)
      (fun m _ below call member act may s answer t step => ?_)
    (fun start => undefined start.1) foreign
  refine step.not_definesOther fun code writes => unwritten ⟨m, below, call, member, code, ?_⟩
  rwa [← writes]

/-- The definition of a helper function stays until some call may define under its name. -/
theorem source_stays (templates : emitter.templates = knownTemplates) {wanted : String} {k : Nat}
    {lines : List String} (at_k : calls[k]? = some (.act (.provide wanted lines)))
    (undefined : (emitter.passAt ws calls k).definitions.has wanted = false) (after : k < j)
    (unwritten : ∀ m, k < m → m < j → ∀ call ∈ calls[m]?, ¬ call.Writes wanted) :
    ∃ name, (emitter.passAt ws calls (k + 1)).functions.get? wanted = some name ∧
      (emitter.passAt ws calls j).definitions.get? wanted = some (Emission.sourceUnder name lines) := by
  obtain ⟨name, known, source⟩ := (@step_at emitter ws _ _ _ at_k).sourced undefined
  refine ⟨name, known, passAt_of_steps (i := k + 1)
    (R := fun s t => ∀ code, s.definitions.get? wanted = some code → t.definitions.get? wanted = some code)
    templates
    (fun _ _ => id) (fun _ _ _ first second code => second code ∘ first code) after
    (fun m later below call member act may s answer t step code => ?_) _ source⟩
  exact step.definition_stays fun code writes => unwritten m later below call member ⟨code, writes ▸ may⟩

/-- Helper functions in a pass, whatever is called on it. A helper function cannot be provided just if
something else is defined under its name; this fails and changes nothing, and something else is defined there
only if the variables are or some earlier call may have done so. Otherwise it is provided: all calls for it
give one identifier, which is a name, is not reserved and is given by no other call nor to a variable, and its
definition is the source of the first call with this identifier in place, until some call may define under the
name. No key ever has two definitions. -/
theorem provideFunction_serves (templates : emitter.templates = knownTemplates) (ws : Workspace)
    (calls : List PassCall) :
    (∀ i, (emitter.passAt ws calls i).definitions.keys.Nodup) ∧
      ∀ i wanted lines, calls[i]? = some (.act (.provide wanted lines)) →
        ((emitter.passAt ws calls i).DefinesOther wanted →
          (Emission.provideFunction wanted lines).run (emitter.passAt ws calls i) =
              ((.error (.notAFunction wanted), emitter.passAt ws calls i) : Except EmissionError
              String × Pass) ∧
            ((emitter.start ws).definitions.has wanted ∨ ∃ j < i, ∃ call ∈ calls[j]?, call.Writes wanted)) ∧
        (¬ (emitter.passAt ws calls i).DefinesOther wanted → ∃ name : String, IsName name.toList ∧
          (emitter.start ws).names.isReserved name = false ∧ name ∉ (emitter.start ws).names.taken ∧
          (∀ j others, calls[j]? = some (.act (.provide wanted others)) →
          emitter.answer? ws calls j = some name) ∧
          (∀ j call, calls[j]? = some call → (∀ others, call ≠ .act (.provide wanted others)) →
            emitter.answer? ws calls j ≠ some name) ∧
          ∀ k first, calls[k]? = some (.act (.provide wanted first)) →
            (emitter.passAt ws calls k).definitions.has wanted = false → ∀ j, k < j →
            (∀ m, k < m → m < j → ∀ call ∈ calls[m]?, ¬ call.Writes wanted) →
            (emitter.passAt ws calls j).definitions.get? wanted =
            some (Emission.sourceUnder name first)) := by
  refine ⟨fun i => (provides_passAt templates i).distinct,
    fun i wanted lines at_i => ⟨fun foreign => ?_, fun own => ?_⟩⟩
  · exact ⟨run_provideFunction_foreign foreign.1 foreign.2 lines, writes_of_isForeign templates foreign⟩
  obtain ⟨given, failed⟩ := (@step_at emitter ws _ _ _ at_i).provided
  obtain ⟨name, answered⟩ : ∃ name, emitter.answer? ws calls i = some name :=
    Option.ne_none_iff_exists'.mp fun none => own (failed.mp none)
  rw [answered] at given
  have continues := @continues_passAt emitter ws calls _ _ templates (Nat.zero_le (i + 1))
  obtain ⟨_, isName, unreserved, _⟩ := (provides_passAt templates (i + 1)).provided wanted name given
  refine ⟨name, isName, ?_, ?_, fun j others at_j => ?_, fun j call at_j other => ?_,
    fun k first at_k undefined j after unwritten => ?_⟩
  · rw [continues.reserved] at unreserved
    have bare : name ∉ (emitter.start ws).names.reserved := unreserved
    simpa [Registry.isReserved] using bare
  · refine continues.fresh wanted name ?_ given
    show (emitter.start ws).functions.get? wanted = none
    rw [functions_start]
    rfl
  · obtain ⟨there, failedThere⟩ := (@step_at emitter ws _ _ _ at_j).provided
    obtain ⟨second, answer⟩ : ∃ second, emitter.answer? ws calls j = some second :=
      Option.ne_none_iff_exists'.mp fun none =>
        not_definesOther_of_function templates given j (failedThere.mp none)
    rw [answer] at there
    rw [answer, functions_agree templates there given]
  · exact answer_apart_of_function templates given at_j other
  · obtain ⟨second, known, source⟩ := source_stays templates at_k undefined after unwritten
    rwa [← functions_agree templates known given]

/-- A helper function that is provided twice, with a procedure of its name in between, and then one under
whose name something else is defined. -/
theorem provideFunction_serves_helper :
    let lines := ["int " ++ functionPlaceholder ++ "() \x7b", "\x7d"]
    let calls :=
      [PassCall.act (.provide "helper" lines), .act (.getName "helper" .procedure),
        .act (.provide "helper" []),
      .act (.define "other" "int other;"), .act (.provide "other" lines)]
    let emitter : Emitter := {}
    emitter.templates = knownTemplates ∧ ¬ (emitter.passAt {} calls 0).DefinesOther "helper" ∧
      emitter.answer? {} calls 0 = some "helper" ∧ emitter.answer? {} calls 2 = some "helper" ∧
      emitter.answer? {} calls 1 ≠ some "helper" ∧
      (emitter.passAt {} calls 3).definitions.get? "helper" = some (Emission.sourceUnder "helper" lines) ∧
      (emitter.passAt {} calls 4).DefinesOther "other" ∧
        ∃ j < 4, ∃ call ∈ calls[j]?, call.Writes "other" := by
  intro lines calls emitter
  have own : ¬ (emitter.passAt {} calls 0).DefinesOther "helper" :=
    fun foreign => absurd foreign.1 (by decide +kernel)
  have foreign : (emitter.passAt {} calls 4).DefinesOther "other" := ⟨by decide +kernel, by decide +kernel⟩
  have serves := (@provideFunction_serves emitter rfl {} calls).2
  obtain ⟨name, _, _, _, all, others, source⟩ := (serves 0 "helper" lines rfl).2 own
  have first : emitter.answer? {} calls 0 = some "helper" := by decide +kernel
  obtain rfl : name = "helper" := Option.some.inj ((all 0 lines rfl).symm.trans first)
  have unwritten : ∀ m, 0 < m → m < 3 → ∀ call ∈ calls[m]?, ¬ call.Writes "helper" := by
    rintro m positive below call member ⟨code, may⟩
    obtain rfl | rfl : m = 1 ∨ m = 2 := by omega
    all_goals
      cases member
      cases may
  refine ⟨rfl, own, first, all 2 [] rfl, others 1 _ rfl (fun _ => nofun),
    source 0 lines rfl (by decide +kernel) 3 (by decide) unwritten, foreign, ?_⟩
  rcases ((serves 4 "other" lines rfl).1 foreign).2 with atStart | written
  · exact absurd atStart (by decide +kernel)
  · exact written

/-- A helper function cannot be provided under a key at which something is defined already. -/
theorem provideFunction_fails :
    let calls :=
      [PassCall.act (.define "helper" "int helper;"),
      .act (.provide "helper" ["int " ++ functionPlaceholder ++ "() \x7b", "\x7d"])]
    (({} : Emitter).answer? {} calls 1) = none ∧
      ((Emission.provideFunction "helper" ["int " ++ functionPlaceholder ++ "() \x7b", "\x7d"]).run
        (({} : Emitter).passAt {} calls 1) :
        Except EmissionError String × Pass).1.toOption = none := by
  decide +kernel

end Emitter

end BlockCompiler
