import BlockCompiler.Name.Registry
import Mathlib.Data.Finset.Card
import Mathlib.Order.Bounds.Defs
import Mathlib.Order.Nat
import Mathlib.Tactic.Push
import Mathlib.Tactic.Tauto

/-!
Fresh identifiers: an identifier that is handed out for the first time was neither handed out before nor
reserved. It is found by a search, round by round: a candidate that is in use gives way to the base with the
next number. No candidate comes a second time, so a search has at most as many rounds as there are words in
use. It ends with the base, or with the base and the least number that makes it free.
-/

namespace BlockCompiler

namespace Registry

theorem isFree_iff {registry : Registry} {word : String} :
    registry.isFree word ↔ word ∉ registry.taken ∧ word ∉ registry.reserved := by
  simp [isFree]

theorem append_toString_inj {base : String} {i j : Nat} (same : base ++ toString i = base ++ toString j) :
    i = j := by
  have chars := congrArg String.toList same
  simp only [String.toList_append, List.append_cancel_left_eq, Nat.toString_eq_repr, Nat.toList_repr] at chars
  have values := congrArg (fun digits => Nat.ofDigitChars 10 digits 0) chars
  simpa only [Nat.ofDigitChars_ten_toDigits] using values

/-- Among different words, one more than are in use, one is free. -/
theorem exists_isFree_of_injective (registry : Registry) {words : Nat → String}
    (distinct : Function.Injective words) :
    ∃ k ≤ (registry.taken ++ registry.reserved).toFinset.card, registry.isFree (words k) := by
  by_contra none
  push Not at none
  have inUse : ∀ k ∈ Finset.range ((registry.taken ++ registry.reserved).toFinset.card + 1),
      words k ∈ (registry.taken ++ registry.reserved).toFinset := by
    intro k inRange
    have used := none k (Nat.lt_succ_iff.mp (Finset.mem_range.mp inRange))
    rw [Ne, isFree_iff] at used
    rw [List.mem_toFinset, List.mem_append]
    tauto
  have count := Finset.card_le_card_of_injOn words inUse distinct.injOn
  rw [Finset.card_range] at count
  omega

/-- Where a search stands: its candidate, and the number it tried last. The base alone counts as number
one. -/
structure SearchState where
  candidate : String
  number : Nat

/-- One round of a search. A candidate in use gives way to the base with the next number, and a free one ends
the search. -/
def searchStep (registry : Registry) (base : String) (state : SearchState) : Option SearchState :=
  if registry.isFree state.candidate then none
  else some ⟨base ++ toString (state.number + 1), state.number + 1⟩

/-- A search that starts with a base is at a state after so many rounds. -/
inductive Searches (registry : Registry) (base : String) : Nat → SearchState → Prop
  | start : Searches registry base 0 ⟨base, 1⟩
  | next {rounds : Nat} {state later : SearchState} : Searches registry base rounds state →
      registry.searchStep base state = some later → Searches registry base (rounds + 1) later

/-- The candidate after so many rounds. -/
def attempt (base : String) : Nat → String
  | 0 => base
  | rounds + 1 => base ++ toString (rounds + 2)

variable {registry : Registry} {base : String}

theorem attempt_injective (base : String) : Function.Injective (attempt base) := by
  have numbered : ∀ n : Nat, base ≠ base ++ toString n := by
    intro n same
    have chars := congrArg String.toList same
    rw [String.toList_append, List.self_eq_append_right, Nat.toString_eq_repr, Nat.toList_repr] at chars
    exact Nat.toDigits_ne_nil chars
  intro i j same
  match i, j with
  | 0, 0 => rfl
  | 0, j + 1 => exact absurd same (numbered _)
  | i + 1, 0 => exact absurd same.symm (numbered _)
  | i + 1, j + 1 => exact congrArg Nat.pred (append_toString_inj same)

theorem searchStep_eq_none {state : SearchState} :
    registry.searchStep base state = none ↔ registry.isFree state.candidate := by
  unfold searchStep
  split_ifs with free <;> simp [free]

/-- All candidates of the rounds so far are in use. -/
theorem Searches.state_eq {rounds : Nat} {state : SearchState}
    (searches : registry.Searches base rounds state) :
    state = ⟨attempt base rounds, rounds + 1⟩ ∧ ∀ k < rounds, ¬ registry.isFree (attempt base k) := by
  induction searches with
  | start => exact ⟨rfl, fun k early => absurd early (Nat.not_lt_zero k)⟩
  | @next rounds state later _ step ih =>
    obtain ⟨rfl, used⟩ := ih
    unfold searchStep at step
    split_ifs at step with free
    refine ⟨(Option.some.inj step).symm, fun k early => ?_⟩
    rcases Nat.lt_succ_iff_lt_or_eq.mp early with before | rfl
    · exact used k before
    · exact free

/-- While all candidates are in use, the search goes on. -/
theorem searches_of_used {rounds : Nat} (used : ∀ k < rounds, ¬ registry.isFree (attempt base k)) :
    registry.Searches base rounds ⟨attempt base rounds, rounds + 1⟩ := by
  induction rounds with
  | zero => exact .start
  | succ rounds ih =>
    refine .next (ih fun k early => used k (by omega)) ?_
    exact if_neg (used rounds (Nat.lt_succ_self rounds))

/-- A search has no more rounds than there are words in use. -/
theorem Searches.rounds_le {rounds : Nat} {state : SearchState}
    (searches : registry.Searches base rounds state) :
    rounds ≤ (registry.taken ++ registry.reserved).toFinset.card := by
  obtain ⟨k, within, free⟩ := registry.exists_isFree_of_injective (attempt_injective base)
  by_contra longer
  exact searches.state_eq.2 k (by omega) free

/-- Every search ends. -/
theorem exists_searches (registry : Registry) (base : String) :
    ∃ rounds state, registry.Searches base rounds state ∧ registry.searchStep base state = none := by
  obtain ⟨k, _, free⟩ := registry.exists_isFree_of_injective (attempt_injective base)
  have found : ∃ k, registry.isFree (attempt base k) := ⟨k, free⟩
  refine ⟨Nat.find found, _, searches_of_used fun j early => Nat.find_min found early, ?_⟩
  exact searchStep_eq_none.mpr (Nat.find_spec found)

/-- What the numbers lead to is the one with the least of them that is free. -/
theorem firstFree_eq {fuel i k : Nat} (after : i ≤ k) (within : k ≤ i + fuel)
    (free : registry.isFree (base ++ toString k))
    (used : ∀ j, i ≤ j → j < k → ¬ registry.isFree (base ++ toString j)) :
    registry.firstFree base fuel i = base ++ toString k := by
  induction fuel generalizing i with
  | zero =>
    obtain rfl : k = i := by omega
    rfl
  | succ fuel ih =>
    rw [firstFree]
    split_ifs with here
    · obtain rfl : i = k := by
        by_contra other
        exact used i (Nat.le_refl i) (by omega) here
      rfl
    · have later : k ≠ i := fun same => here (same ▸ free)
      exact ih (by omega) (by omega) fun j afterNext => used j (by omega)

/-- A search that is at its end is at the identifier that the base leads to. -/
theorem Searches.candidate_eq {rounds : Nat} {state : SearchState}
    (searches : registry.Searches base rounds state) (ended : registry.searchStep base state = none) :
    registry.candidate base = state.candidate := by
  obtain ⟨rfl, used⟩ := searches.state_eq
  have free := searchStep_eq_none.mp ended
  have few := searches.rounds_le
  have bound := (registry.taken ++ registry.reserved).toFinset_card_le
  rw [List.length_append] at bound
  cases rounds with
  | zero => exact if_pos free
  | succ rounds =>
    have first : ¬ registry.isFree base := used 0 (Nat.succ_pos rounds)
    rw [candidate, if_neg first]
    refine firstFree_eq (by omega) (by omega) free fun j after early => ?_
    obtain ⟨before, rfl⟩ := Nat.exists_eq_add_of_le' after
    exact used (before + 1) (by omega)

theorem isFree_candidate (registry : Registry) (base : String) :
    registry.isFree (registry.candidate base) := by
  obtain ⟨rounds, state, searches, ended⟩ := registry.exists_searches base
  rw [searches.candidate_eq ended]
  exact searchStep_eq_none.mp ended

theorem allocate_fresh (registry : Registry) (name : String) :
    (registry.allocate name).1 ∉ registry.taken ∧ (registry.allocate name).1 ∉ registry.reserved :=
  isFree_iff.mp (registry.isFree_candidate (safeName name))

/-- The search for a fresh identifier ends, after at most as many rounds as there are words in use and one
more look. It ends with the identifier that the name stands for if this is free, and else with the least
number from two on behind it for which it is. This identifier is then in use, and nothing else is changed. -/
theorem distinctName_least (registry : Registry) (name : String) (category : NameCategory) :
    (∀ rounds state, registry.Searches (safeName name) rounds state →
      rounds ≤ (registry.taken ++ registry.reserved).toFinset.card) ∧
    ∃ rounds chosen last, registry.Searches (safeName name) rounds ⟨chosen, last⟩ ∧
      registry.searchStep (safeName name) ⟨chosen, last⟩ = none ∧
      (registry.isFree (safeName name) → chosen = safeName name) ∧
      (¬ registry.isFree (safeName name) → chosen = safeName name ++ toString last ∧
        IsLeast {i | 2 ≤ i ∧ registry.isFree (safeName name ++ toString i)} last) ∧
      registry.distinctName name category =
        (registry.leadOf category ++ chosen, { registry with taken := chosen :: registry.taken }) := by
  refine ⟨fun rounds state searches => searches.rounds_le, ?_⟩
  obtain ⟨rounds, state, searches, ended⟩ := registry.exists_searches (safeName name)
  have chosen := searches.candidate_eq ended
  have free := searchStep_eq_none.mp ended
  obtain ⟨rfl, used⟩ := searches.state_eq
  refine ⟨rounds, _, _, searches, ended, fun first => ?_, fun first => ?_, ?_⟩
  · cases rounds with
    | zero => rfl
    | succ rounds => exact absurd first (used 0 (Nat.succ_pos rounds))
  · cases rounds with
    | zero => exact absurd free first
    | succ rounds =>
      refine ⟨rfl, ⟨by omega, free⟩, ?_⟩
      rintro i ⟨after, freeThere⟩
      by_contra early
      obtain ⟨before, rfl⟩ := Nat.exists_eq_add_of_le' after
      exact used (before + 1) (by omega) freeThere
  · rw [distinctName, allocate, chosen]
    rfl

end Registry

end BlockCompiler
