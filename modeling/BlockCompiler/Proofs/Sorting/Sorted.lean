import BlockCompiler.Proofs.Sorting.Merged
import BlockCompiler.Sorting.Runs

/-!
Sorting by runs comes to an end if any two items compare, whether comparisons are consistent or not, and gives
the same items.
-/

namespace BlockCompiler

variable {α β γ : Type}

/-- A step of sorting has an outcome, whatever the patience, and that is as wanted. -/
def SortStep.Gives (x : SortStep β) (Wanted : β → Prop) : Prop :=
  ∀ patience, ∃ b last, x.run patience = some (b, last) ∧ Wanted b

section Gives

variable {x : SortStep β} {f : β → SortStep γ} {Wanted Other : β → Prop} {Last : γ → Prop}

theorem SortStep.Gives.bind (first : x.Gives Wanted) (second : ∀ b, Wanted b → (f b).Gives Last) :
    (x >>= f).Gives Last := by
  intro patience
  obtain ⟨b, left, found, wanted⟩ := first patience
  obtain ⟨c, last, foundLast, holds⟩ := second b wanted left
  refine ⟨c, last, ?_, holds⟩
  rw [StateT.run_bind, found]
  exact foundLast

theorem gives_pure {b : β} (holds : Wanted b) : SortStep.Gives (pure b) Wanted :=
  fun patience => ⟨b, patience, rfl, holds⟩

theorem gives_lift {found : Option β} (there : ∃ b, found = some b) :
    SortStep.Gives (liftM found : SortStep β) fun b => found = some b := by
  obtain ⟨b, rfl⟩ := there
  exact fun patience => ⟨b, patience, rfl, rfl⟩

theorem SortStep.Gives.imp (gives : x.Gives Wanted) (weaker : ∀ b, Wanted b → Other b) : x.Gives Other := by
  intro patience
  obtain ⟨b, last, found, wanted⟩ := gives patience
  exact ⟨b, last, found, weaker b wanted⟩

end Gives

/-- The items of runs that stand in reverse. -/
def itemsOf (runs : List (Run α)) : List α := runs.reverse.flatMap (·.items)

theorem itemsOf_cons (run : Run α) (runs : List (Run α)) :
    itemsOf (run :: runs) = itemsOf runs ++ run.items := by
  simp [itemsOf]

/-- Merging the last two runs changes the order of items only. -/
theorem perm_itemsOf {left right run : Run α} (perm : run.items.Perm (left.items ++ right.items))
    (rest : List (Run α)) :
    (itemsOf (run :: rest)).Perm (itemsOf (right :: left :: rest)) := by
  rw [itemsOf_cons, itemsOf_cons, itemsOf_cons, List.append_assoc]
  exact perm.append_left _

section Sorting

variable {less : α → α → Option Bool} (answers : Answers less)

include answers

theorem Answers.opposite (a b : α) : ∃ answer, (not <$> less a b) = some answer := by
  obtain ⟨answer, found⟩ := answers a b
  exact ⟨!answer, by rw [found]; rfl⟩

/-- Insertion gives all items. -/
theorem exists_insertAll (sorted : Array α) (items : List α) :
    ∃ result, insertAll less sorted items = some result ∧ result.toList.Perm (sorted.toList ++ items) := by
  induction items generalizing sorted with
  | nil => exact ⟨sorted, rfl, by simp⟩
  | cons item rest ih =>
    have probes : ∀ i < sorted.size, ∃ answer,
        (sorted[i]?.bind fun other => not <$> less item other) = some answer := by
      intro i below
      rw [Array.getElem?_eq_getElem below]
      exact answers.opposite item _
    obtain ⟨place, found⟩ := exists_halve 0 sorted.size probes
    obtain ⟨result, inserted, perm⟩ :=
      ih ((sorted.extract 0 place).push item ++ sorted.extract place sorted.size)
    refine ⟨result, ?_, perm.trans ?_⟩
    · rw [insertAll, found]
      exact inserted
    · have parts : ((sorted.extract 0 place).push item ++ sorted.extract place sorted.size).toList =
          sorted.toList.take place ++ item :: sorted.toList.drop place := by
        simp [List.take_of_length_le]
      rw [parts]
      have middle : (sorted.toList.take place ++ item :: sorted.toList.drop place).Perm
          (item :: sorted.toList) := by
        have moved := @List.perm_middle _ item (sorted.toList.take place) (sorted.toList.drop place)
        rwa [List.take_append_drop] at moved
      exact (middle.append_right rest).trans List.perm_middle.symm

/-- A chain is the head of a list. -/
theorem exists_takeChain (descends : Bool) (last : α) (items : List α) :
    ∃ chain later, takeChain less descends last items = some chain ∧ items = chain ++ later := by
  induction items generalizing last with
  | nil => exact ⟨[], [], rfl, rfl⟩
  | cons item rest ih =>
    obtain ⟨answer, compared⟩ := answers item last
    rw [takeChain, compared]
    simp only [Option.bind_eq_bind, Option.bind_some]
    split_ifs
    · obtain ⟨chain, later, found, shape⟩ := ih item
      exact ⟨item :: chain, later, by rw [found]; rfl, by rw [shape, List.cons_append]⟩
    · exact ⟨[], item :: rest, rfl, rfl⟩

/-- A run and what is left after it are all items. -/
theorem exists_takeRun (least : Nat) (items : List α) :
    ∃ run rest, takeRun less least items = some (run, rest) ∧
    (run ++ rest).Perm items ∧ (items ≠ [] → rest.length < items.length) := by
  match items with
  | [] => exact ⟨[], [], rfl, .refl _, fun filled => absurd rfl filled⟩
  | [item] => exact ⟨[item], [], rfl, .refl _, fun _ => by simp⟩
  | first :: second :: rest =>
    obtain ⟨descends, compared⟩ := answers second first
    obtain ⟨chain, later, chained, rfl⟩ := exists_takeChain answers descends second rest
    let head := first :: second :: chain
    let missing := least - head.length
    obtain ⟨run, inserted, perm⟩ :=
      exists_insertAll answers (if descends then head.reverse else head).toArray (later.take missing)
    have dropped : (chain ++ later).drop (head.length - 2) = later := List.drop_left
    refine ⟨run.toList, later.drop missing, ?_, ?_, fun _ => ?_⟩
    · rw [takeRun, compared]
      simp only [Option.bind_eq_bind, Option.bind_some, chained]
      rw [dropped, inserted]
      rfl
    · have turned : (if descends then head.reverse else head).Perm head := by
        split_ifs
        · exact List.reverse_perm _
        · exact .refl _
      refine (perm.append_right _).trans ?_
      rw [List.append_assoc, List.take_append_drop]
      exact turned.append_right later
    · simp only [List.length_drop, List.length_cons, List.length_append]
      omega

/-- Merged parts have the items of both. -/
theorem gives_mergeParts (first second : List α) :
    (mergeParts less first second).Gives fun merged => merged.Perm (first ++ second) := by
  intro patience
  show ∃ merged last, mergeParts less first second patience = some (merged, last) ∧ _
  unfold mergeParts
  split_ifs with empty
  · rw [List.isEmpty_iff] at empty
    subst empty
    exact ⟨first, patience, rfl, by rw [List.append_nil]⟩
  · obtain ⟨merged, last, found, perm⟩ :=
      (MergeOrder.total_fromHeads answers).mergeLists patience first second
    exact ⟨merged.reverse, last, by rw [found]; rfl, merged.reverse_perm.trans perm⟩
  · obtain ⟨merged, last, found, perm⟩ :=
      (MergeOrder.total_fromEnds answers).mergeLists patience second.reverse first.reverse
    refine ⟨merged, last, found, perm.trans ?_⟩
    exact ((second.reverse_perm.append first.reverse_perm)).trans List.perm_append_comm

/-- A run that is merged from two has the items of both. -/
theorem gives_mergeRuns (left right : Run α) :
    (mergeRuns less left right).Gives fun run => run.items.Perm (left.items ++ right.items) := by
  unfold mergeRuns
  split
  · rename_i head others last heads ends
    have filled : left.items ≠ [] := by
      intro empty
      rw [empty] at ends
      cases ends
    have inside : 0 < left.items.toArray.size := by simpa using List.length_pos_of_ne_nil filled
    refine (gives_lift (exists_boundary (answers.opposite head) inside)).bind fun before _ => ?_
    split_ifs
    · exact gives_pure (.refl _)
    · have far : right.items.length - 1 < right.items.toArray.size := by simp [heads]
      refine (gives_lift (exists_boundary (fun item => answers item last) far)).bind fun count _ => ?_
      refine (gives_mergeParts answers _ _).bind fun merged perm => gives_pure ?_
      have inner := (perm.append_left (left.items.take before)).append_right (right.items.drop count)
      refine inner.trans ?_
      rw [← List.append_assoc, List.take_append_drop, List.append_assoc, List.take_append_drop]
  · exact gives_pure (.refl _)

theorem gives_mergeAbove (power : Nat) (runs : List (Run α)) :
    (mergeAbove less power runs).Gives fun merged => (itemsOf merged).Perm (itemsOf runs) := by
  fun_induction mergeAbove less power runs with
  | case1 right left rest above ih =>
    refine (gives_mergeRuns answers left right).bind fun run perm => ?_
    exact (ih run).imp fun _ merged => merged.trans (perm_itemsOf perm rest)
  | case2 => exact gives_pure (.refl _)
  | case3 => exact gives_pure (.refl _)

theorem gives_mergeAll (runs : List (Run α)) :
    (mergeAll less runs).Gives fun merged => merged.Perm (itemsOf runs) := by
  fun_induction mergeAll less runs with
  | case1 => exact gives_pure (.refl _)
  | case2 run => exact gives_pure (by simp [itemsOf])
  | case3 right left =>
    refine (gives_mergeRuns answers left right).bind fun run perm => gives_pure ?_
    simpa [itemsOf] using perm
  | case4 last right left rest longer ih =>
    refine (gives_mergeRuns answers left right).bind fun run perm => ?_
    refine (ih run).imp fun merged all => all.trans ?_
    rw [itemsOf_cons, itemsOf_cons last]
    exact (perm_itemsOf perm rest).append_right _
  | case5 last right left rest shorter ih =>
    refine (gives_mergeRuns answers right last).bind fun run perm => ?_
    exact (ih run).imp fun merged all => all.trans (perm_itemsOf perm (left :: rest))

/-- The runs that items are cut into have all items, if there is fuel for each of them. -/
theorem gives_collectRuns (size fuel start : Nat) (runs : List (Run α)) (rest : List α)
    (enough : rest.length ≤ fuel) :
    (collectRuns less size fuel start runs rest).Gives fun merged =>
      (itemsOf merged).Perm (itemsOf runs ++ rest) := by
  induction fuel generalizing start runs rest with
  | zero =>
    obtain rfl : rest = [] := List.eq_nil_of_length_eq_zero (Nat.le_zero.mp enough)
    exact gives_pure (by rw [List.append_nil])
  | succ fuel ih =>
    cases rest with
    | nil => exact gives_pure (by rw [List.append_nil])
    | cons item rest =>
      rw [collectRuns.eq_3 _ _ _ _ _ _ (by simp)]
      refine (gives_lift ?_).bind fun parts found => ?_
      · obtain ⟨run, later, found, _⟩ := exists_takeRun answers (leastRun size) (item :: rest)
        exact ⟨(run, later), found⟩
      obtain ⟨run, later, same, perm, fewer⟩ := exists_takeRun answers (leastRun size) (item :: rest)
      obtain rfl : (run, later) = parts := Option.some.inj (same.symm.trans found)
      have shorter := fewer (by simp)
      have onward : ∀ merged : List (Run α), (itemsOf merged).Perm (itemsOf runs) →
          (collectRuns less size fuel (start + run.length) (⟨start, run, 0⟩ :: merged) later).Gives
            fun sorted => (itemsOf sorted).Perm (itemsOf runs ++ item :: rest) := by
        intro merged alike
        refine (ih (start + run.length) (⟨start, run, 0⟩ :: merged) later ?_).imp fun sorted all =>
          all.trans ?_
        · rw [List.length_cons] at shorter enough
          omega
        · rw [itemsOf_cons, List.append_assoc]
          exact (alike.append_right _).trans (perm.append_left _)
      cases runs with
      | nil => exact onward [] (.refl _)
      | cons previous earlier =>
        refine (gives_mergeAbove answers _ (previous :: earlier)).bind fun merged alike => ?_
        cases merged with
        | nil => exact onward [] alike
        | cons last others =>
          exact onward ({ last with power := _ } :: others) (by simpa [itemsOf] using alike)

/-- Sorting by runs gives the same items in some order. -/
theorem exists_sortByRuns (items : List α) :
    ∃ sorted, sortByRuns less items = some sorted ∧ sorted.Perm items := by
  have gives : SortStep.Gives (do mergeAll less (← collectRuns less items.length items.length 0 [] items))
      fun sorted => sorted.Perm items := by
    refine (gives_collectRuns answers items.length items.length 0 [] items (Nat.le_refl _)).bind
      fun runs perm => ?_
    exact (gives_mergeAll answers runs).imp fun sorted same => same.trans perm
  obtain ⟨sorted, last, found, perm⟩ := gives MergeOrder.worthwhile
  exact ⟨sorted, by rw [sortByRuns, found]; rfl, perm⟩

end Sorting

end BlockCompiler
