import BlockCompiler.Sorting.Merging
import Mathlib.Data.List.Perm.Basic
import Mathlib.Tactic.Ring

/-!
Merging comes to an end if any two items compare, whether comparisons are consistent or not, and what is
merged are the items of the two lists.
-/

namespace BlockCompiler

variable {α : Type}

/-- A comparison has an answer for any two items. -/
def Answers (less : α → α → Option Bool) : Prop := ∀ a b, ∃ answer, less a b = some answer

section Search

variable {test : Nat → Option Bool}

theorem exists_halve (low high : Nat) (answers : ∀ i < high, ∃ answer, test i = some answer) :
    ∃ place, halve test low high = some place := by
  fun_induction halve test low high with
  | case1 low high lt middle failed =>
    obtain ⟨answer, found⟩ := answers middle (by omega)
    rw [failed] at found
    cases found
  | case2 low high lt middle passed ih => exact ih answers
  | case3 low high lt middle refused ih => exact ih fun i below => answers i (by omega)
  | case4 low high done => exact ⟨low, rfl⟩

theorem exists_stride (test : Nat → Option Bool) (most last next : Nat)
    (answers : ∀ d < most, ∃ answer, test d = some answer) :
    ∃ near far, stride test most last next = some (near, far) ∧ far ≤ most := by
  fun_induction stride test most last next with
  | case1 last next lt failed =>
    obtain ⟨answer, found⟩ := answers next lt
    rw [failed] at found
    cases found
  | case2 last next lt passed ih => exact ih
  | case3 last next lt refused => exact ⟨last, next, rfl, Nat.le_of_lt lt⟩
  | case4 last next done => exact ⟨last, most, rfl, Nat.le_refl _⟩

theorem exists_boundary {test : α → Option Bool} (answers : ∀ a, ∃ answer, test a = some answer)
    {items : Array α} {start : Nat} (inside : start < items.size) :
    ∃ place, boundary test items start = some place := by
  have probes : ∀ i < items.size, ∃ answer, (items[i]?.bind test) = some answer := by
    intro i below
    rw [Array.getElem?_eq_getElem below]
    exact answers _
  unfold boundary
  obtain ⟨answer, first⟩ := probes start inside
  simp only [first, Option.bind_eq_bind, Option.bind_some]
  cases answer with
  | true =>
    obtain ⟨near, far, strides, le⟩ :=
      exists_stride (fun d => items[start + d]?.bind test) (items.size - start) 0 1
        fun d below => probes _ (by omega)
    simp only [strides, Option.bind_some, if_true]
    exact exists_halve _ _ fun i below => probes i (by omega)
  | false =>
    obtain ⟨near, far, strides, le⟩ :=
      exists_stride (fun d => not <$> (items[start - d]?.bind test)) (start + 1) 0 1
        fun d _ => by
          obtain ⟨answer, found⟩ := probes (start - d) (by omega)
          exact ⟨!answer, by rw [found]; rfl⟩
    simp only [Bool.false_eq_true, if_false]
    rw [strides]
    exact exists_halve _ _ fun i below => probes i (by omega)

end Search

namespace Merging

/-- The items of a merge. -/
def items : Merging α → List α
  | .going merged first second => merged ++ (first ++ second)
  | .done merged => merged

/-- How many items are still to be merged. -/
def left : Merging α → Nat
  | .going _ first second => first.length + second.length
  | .done _ => 0

/-- A merge that goes on has items in both lists. -/
def IsLive : Merging α → Prop
  | .going _ first second => first ≠ [] ∧ second ≠ []
  | .done _ => True

theorem settle_live (merged first second : List α) : (settle merged first second).IsLive := by
  unfold settle
  split
  · trivial
  · trivial
  · trivial
  · rename_i noFirst _ noSecond
    exact ⟨noFirst, noSecond⟩

theorem settle_left (merged first second : List α) :
    (settle merged first second).left ≤ first.length + second.length := by
  unfold settle
  split <;> simp [left]

theorem settle_perm (merged first second : List α) :
    (settle merged first second).items.Perm (merged ++ (first ++ second)) := by
  have moved : ∀ rest : List α, (rest.reverse ++ merged).Perm (merged ++ rest) :=
    fun rest => List.perm_append_comm.trans (List.Perm.append_left merged rest.reverse_perm)
  unfold settle
  split
  · exact moved _
  · simpa [items] using moved _
  · rename_i item _
    exact ((moved _).cons item).trans List.perm_middle.symm
  · exact .refl _

variable {merged first second : List α}

theorem takeFirst_perm (count : Nat) (merging : Merging α) :
    (merging.takeFirst count).items.Perm merging.items := by
  cases merging with
  | done => exact .refl _
  | going merged first second =>
    refine (settle_perm ..).trans ?_
    have whole : first.take count ++ (first.drop count ++ second) = first ++ second := by
      rw [← List.append_assoc, List.take_append_drop]
    have moved : ((first.take count).reverse ++ merged).Perm (merged ++ first.take count) :=
      List.perm_append_comm.trans (List.Perm.append_left merged (List.reverse_perm _))
    have all := moved.append_right (first.drop count ++ second)
    rwa [List.append_assoc merged, whole] at all

theorem takeSecond_perm (count : Nat) (merging : Merging α) :
    (merging.takeSecond count).items.Perm merging.items := by
  cases merging with
  | done => exact .refl _
  | going merged first second =>
    refine (settle_perm ..).trans ?_
    have moved : ((second.take count).reverse ++ merged).Perm (merged ++ second.take count) :=
      List.perm_append_comm.trans (List.Perm.append_left merged (List.reverse_perm _))
    refine (moved.append_right (first ++ second.drop count)).trans ?_
    rw [List.append_assoc]
    refine List.Perm.append_left merged ?_
    rw [← List.append_assoc]
    refine (List.perm_append_comm.append_right _).trans ?_
    rw [List.append_assoc, List.take_append_drop]

theorem takeFirst_left (count : Nat) (merging : Merging α) :
    (merging.takeFirst count).left ≤ merging.left := by
  cases merging with
  | done => exact Nat.le_refl _
  | going merged first second =>
    refine (settle_left ..).trans ?_
    simp only [List.length_drop, left]
    omega

theorem takeSecond_left (count : Nat) (merging : Merging α) :
    (merging.takeSecond count).left ≤ merging.left := by
  cases merging with
  | done => exact Nat.le_refl _
  | going merged first second =>
    refine (settle_left ..).trans ?_
    simp only [List.length_drop, left]
    omega

/-- One item less is left of a merge that goes on. -/
theorem IsLive.takeFirst_one {merging : Merging α} (live : merging.IsLive) :
    (merging.takeFirst 1).left ≤ merging.left - 1 := by
  cases merging with
  | done => exact Nat.zero_le _
  | going merged first second =>
    have filled := List.length_pos_of_ne_nil live.1
    refine (settle_left ..).trans ?_
    simp only [List.length_drop, left]
    omega

theorem IsLive.takeSecond_one {merging : Merging α} (live : merging.IsLive) :
    (merging.takeSecond 1).left ≤ merging.left - 1 := by
  cases merging with
  | done => exact Nat.zero_le _
  | going merged first second =>
    have filled := List.length_pos_of_ne_nil live.2
    refine (settle_left ..).trans ?_
    simp only [List.length_drop, left]
    omega

theorem IsLive.takeFirst {merging : Merging α} (live : merging.IsLive) (count : Nat) :
    (merging.takeFirst count).IsLive := by
  cases merging with
  | done => exact live
  | going => exact settle_live ..

theorem IsLive.takeSecond {merging : Merging α} (live : merging.IsLive) (count : Nat) :
    (merging.takeSecond count).IsLive := by
  cases merging with
  | done => exact live
  | going => exact settle_live ..

end Merging

namespace MergeOrder

/-- Any two items of two lists compare, and all searches in lists have an outcome. -/
structure Total (order : MergeOrder α) : Prop where
  secondBefore : ∀ b a, ∃ answer, order.secondBefore b a = some answer
  countFirst : ∀ b first, first ≠ [] → ∃ count, order.countFirst b first = some count
  countSecond : ∀ a second, second ≠ [] → ∃ count, order.countSecond a second = some count

variable {order : MergeOrder α} {merging : Merging α}

/-- A search in one list leads to a state with the same items, of which fewer are left to be merged. -/
theorem Total.runFirst (total : order.Total) (live : merging.IsLive) :
    ∃ count next, order.runFirst merging = some (count, next) ∧
    next.IsLive ∧ next.items.Perm merging.items ∧ next.left ≤ merging.left - 1 := by
  cases merging with
  | done merged => exact ⟨0, _, rfl, trivial, .refl _, Nat.zero_le _⟩
  | going merged first second =>
    obtain ⟨filled, filledSecond⟩ := live
    obtain ⟨b, second, rfl⟩ := List.exists_cons_of_ne_nil filledSecond
    obtain ⟨count, counted⟩ := total.countFirst b first filled
    have liveHere : (Merging.going merged first (b :: second)).IsLive := ⟨filled, filledSecond⟩
    have taken := liveHere.takeFirst count
    refine ⟨count, _, by rw [MergeOrder.runFirst, counted]; rfl, taken.takeSecond 1, ?_, ?_⟩
    · exact (Merging.takeSecond_perm ..).trans (Merging.takeFirst_perm ..)
    · exact taken.takeSecond_one.trans (Nat.sub_le_sub_right (Merging.takeFirst_left ..) 1)

theorem Total.runSecond (total : order.Total) (live : merging.IsLive) :
    ∃ count next, order.runSecond merging = some (count, next) ∧
    next.IsLive ∧ next.items.Perm merging.items ∧ next.left ≤ merging.left - 1 := by
  cases merging with
  | done merged => exact ⟨0, _, rfl, trivial, .refl _, Nat.zero_le _⟩
  | going merged first second =>
    obtain ⟨filled, filledSecond⟩ := live
    obtain ⟨a, first, rfl⟩ := List.exists_cons_of_ne_nil filled
    obtain ⟨count, counted⟩ := total.countSecond a second filledSecond
    have liveHere : (Merging.going merged (a :: first) second).IsLive := ⟨filled, filledSecond⟩
    have taken := liveHere.takeSecond count
    refine ⟨count, _, by rw [MergeOrder.runSecond, counted]; rfl, taken.takeFirst 1, ?_, ?_⟩
    · exact (Merging.takeFirst_perm ..).trans (Merging.takeSecond_perm ..)
    · exact taken.takeFirst_one.trans (Nat.sub_le_sub_right (Merging.takeSecond_left ..) 1)

theorem Total.searchBoth (total : order.Total) (live : merging.IsLive) :
    ∃ count next, order.searchBoth merging = some (count, next) ∧
    next.IsLive ∧ next.items.Perm merging.items ∧ next.left ≤ merging.left - 1 := by
  unfold MergeOrder.searchBoth
  cases order.searchesFirst with
  | true =>
    obtain ⟨one, middle, first, liveMiddle, permMiddle, leMiddle⟩ := total.runFirst live
    obtain ⟨other, next, second, liveNext, permNext, leNext⟩ := total.runSecond liveMiddle
    exact ⟨max one other, next, by simp [first, second], liveNext, permNext.trans permMiddle, by omega⟩
  | false =>
    obtain ⟨one, middle, first, liveMiddle, permMiddle, leMiddle⟩ := total.runSecond live
    obtain ⟨other, next, second, liveNext, permNext, leNext⟩ := total.runFirst liveMiddle
    exact ⟨max one other, next, by simp [first, second], liveNext, permNext.trans permMiddle, by omega⟩

/-- A merge comes to an end with all its items, in each of its two modes. -/
theorem Total.merges (total : order.Total) (fuel : Nat) :
    (∀ patience inRowFirst inRowSecond (merging : Merging α), merging.IsLive → merging.left ≤ fuel →
      ∃ merged last, order.steadily fuel patience inRowFirst inRowSecond merging = some (merged, last) ∧
        merged.Perm merging.items) ∧
    (∀ patience (merging : Merging α), merging.IsLive → merging.left ≤ fuel →
      ∃ merged last, order.searching fuel patience merging = some (merged, last) ∧
      merged.Perm merging.items) := by
  induction fuel with
  | zero =>
    refine ⟨fun patience inRowFirst inRowSecond merging live le => ?_, fun patience merging live le => ?_⟩
    · cases merging with
      | done merged => exact ⟨merged, patience, by rw [steadily], .refl _⟩
      | going merged first second =>
        have filled := List.length_pos_of_ne_nil live.1
        simp only [Merging.left] at le
        omega
    · cases merging with
      | done merged => exact ⟨merged, patience, by rw [searching], .refl _⟩
      | going merged first second =>
        have filled := List.length_pos_of_ne_nil live.1
        simp only [Merging.left] at le
        omega
  | succ fuel ih =>
    obtain ⟨steady, search⟩ := ih
    refine ⟨fun patience inRowFirst inRowSecond merging live le => ?_, fun patience merging live le => ?_⟩
    · cases merging with
      | done merged => exact ⟨merged, patience, by rw [steadily], .refl _⟩
      | going merged first second =>
        obtain ⟨a, first, rfl⟩ := List.exists_cons_of_ne_nil live.1
        obtain ⟨b, second, rfl⟩ := List.exists_cons_of_ne_nil live.2
        obtain ⟨answer, compared⟩ := total.secondBefore b a
        have one := live.takeFirst_one
        have other := live.takeSecond_one
        rw [steadily]
        simp only [compared, Option.bind_eq_bind, Option.bind_some]
        cases answer with
        | true =>
          rw [if_pos rfl]
          split_ifs
          · obtain ⟨last, patience, found, perm⟩ :=
              steady patience 0 (inRowSecond + 1) _ (live.takeSecond 1) (by omega)
            exact ⟨last, patience, found, perm.trans (Merging.takeSecond_perm ..)⟩
          · obtain ⟨last, patience, found, perm⟩ := search patience _ (live.takeSecond 1) (by omega)
            exact ⟨last, patience, found, perm.trans (Merging.takeSecond_perm ..)⟩
        | false =>
          rw [if_neg (by simp)]
          split_ifs
          · obtain ⟨last, patience, found, perm⟩ :=
              steady patience (inRowFirst + 1) 0 _ (live.takeFirst 1) (by omega)
            exact ⟨last, patience, found, perm.trans (Merging.takeFirst_perm ..)⟩
          · obtain ⟨last, patience, found, perm⟩ := search patience _ (live.takeFirst 1) (by omega)
            exact ⟨last, patience, found, perm.trans (Merging.takeFirst_perm ..)⟩
    · cases merging with
      | done merged => exact ⟨merged, patience, by rw [searching], .refl _⟩
      | going merged first second =>
        obtain ⟨count, next, searched, liveNext, permNext, leNext⟩ := total.searchBoth live
        rw [searching.eq_2 _ _ _ _ (by simp)]
        simp only [searched, Option.bind_eq_bind, Option.bind_some]
        cases next with
        | done merged => exact ⟨merged, patience, rfl, permNext⟩
        | going mergedNext firstNext secondNext =>
          dsimp only
          split_ifs
          · obtain ⟨last, patience, found, perm⟩ := search (max 1 (patience - 1)) _ liveNext (by omega)
            exact ⟨last, patience, found, perm.trans permNext⟩
          · obtain ⟨last, patience, found, perm⟩ := steady (patience + 1) 0 0 _ liveNext (by omega)
            exact ⟨last, patience, found, perm.trans permNext⟩

/-- Two lists are merged into one with the items of both. -/
theorem Total.mergeLists (total : order.Total) (patience : Nat) (first second : List α) :
    ∃ merged last, order.mergeLists patience first second = some (merged, last) ∧
    merged.Perm (first ++ second) := by
  have live : ((Merging.going [] first second).takeSecond 1).IsLive := Merging.settle_live ..
  obtain ⟨merged, last, found, perm⟩ := (total.merges (first.length + second.length)).1 patience 0 0 _ live
    (Merging.takeSecond_left ..)
  exact ⟨merged, last, found, perm.trans (Merging.takeSecond_perm ..)⟩

variable {less : α → α → Option Bool}

theorem total_fromHeads (answers : Answers less) : (fromHeads less).Total where
  secondBefore b a := answers b a
  countFirst b first filled := by
    refine exists_boundary (fun a => ?_) (by simpa using List.length_pos_of_ne_nil filled)
    obtain ⟨answer, found⟩ := answers b a
    exact ⟨!answer, by rw [found]; rfl⟩
  countSecond a second filled :=
    exists_boundary (fun b => answers b a) (by simpa using List.length_pos_of_ne_nil filled)

theorem total_fromEnds (answers : Answers less) : (fromEnds less).Total where
  secondBefore b a := answers a b
  countFirst b first filled := by
    have size := List.length_pos_of_ne_nil filled
    have inside : first.length - 1 < first.reverse.toArray.size := by
      rw [List.size_toArray, List.length_reverse]
      omega
    obtain ⟨place, found⟩ := exists_boundary (fun a => answers a b) inside
    exact ⟨first.length - place, by simp only [fromEnds, found, Option.bind_eq_bind, Option.bind_some]; rfl⟩
  countSecond a second filled := by
    have size := List.length_pos_of_ne_nil filled
    have inside : second.length - 1 < second.reverse.toArray.size := by
      rw [List.size_toArray, List.length_reverse]
      omega
    have opposite : ∀ b, ∃ answer, (not <$> less a b) = some answer := by
      intro b
      obtain ⟨answer, found⟩ := answers a b
      exact ⟨!answer, by rw [found]; rfl⟩
    obtain ⟨place, found⟩ := exists_boundary opposite inside
    exact ⟨second.length - place, by simp only [fromEnds, found, Option.bind_eq_bind, Option.bind_some]; rfl⟩

end MergeOrder

end BlockCompiler
