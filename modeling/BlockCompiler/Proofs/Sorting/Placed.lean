import BlockCompiler.Workspace.Position
import Mathlib.Algebra.Order.Field.Basic
import Mathlib.Data.Int.Order.Basic
import Mathlib.Data.List.Nodup
import Mathlib.Data.List.Perm.Basic
import Mathlib.Data.Prod.Lex
import Mathlib.Data.Rat.Cast.Order
import Mathlib.Tactic.Linarith

/-!
Items in the order of their positions. Without NaNs positions are in a linear order, and sorting by them is
stable.
-/

namespace BlockCompiler

namespace Number

/-- The place of a number among all others. Infinities stand at the two ends. -/
def rank (a : Number) : Int ×ₗ ℚ :=
  toLex (a.side, match a.quotient? with
    | some (p, q) => (p : ℚ) / q
    | none => 0)

theorem denominator_pos {a : Number} {p : Int} {q : Nat} (quotient : a.quotient? = some (p, q)) : 0 < q := by
  unfold quotient? at quotient
  split at quotient
  · cases quotient
    exact Nat.one_pos
  · cases quotient
    exact Nat.pow_pos (by decide)
  · cases quotient

/-- A number that is no quotient is an infinity or a NaN. -/
theorem side_of_quotient? {a : Number} (quotient : a.quotient? = none) (number : a.isNan = false) :
    a.side = 1 ∨ a.side = -1 := by
  cases a with
  | int value => cases quotient
  | float value =>
    cases value with
    | finite => cases quotient
    | infinite negative => cases negative <;> simp [side]
    | nan => cases number

theorem side_of_some {a : Number} {pair : Int × Nat} (quotient : a.quotient? = some pair) : a.side = 0 := by
  cases a with
  | int value => rfl
  | float value =>
    cases value with
    | finite => rfl
    | infinite => cases quotient
    | nan => cases quotient

/-- Numbers that are no NaNs compare by their ranks. -/
theorem lt_iff {a b : Number} (number : a.isNan = false) (number' : b.isNan = false) :
    a.lt b ↔ a.rank < b.rank := by
  rw [lt, number, number', rank, rank, Prod.Lex.toLex_lt_toLex]
  cases first : a.quotient? with
  | some pair =>
    obtain ⟨p, q⟩ := pair
    have positive : (0 : ℚ) < q := by exact_mod_cast denominator_pos first
    cases second : b.quotient? with
    | some other =>
      obtain ⟨r, s⟩ := other
      have positive' : (0 : ℚ) < s := by exact_mod_cast denominator_pos second
      simp only [side_of_some first, side_of_some second, lt_self_iff_false, false_or, true_and]
      rw [div_lt_div_iff₀ positive positive']
      simp only [Bool.or_self, Bool.false_eq_true, if_false, decide_eq_true_eq]
      exact_mod_cast Iff.rfl
    | none =>
      rcases side_of_quotient? second number' with side | side <;> simp [side_of_some first, side]
  | none =>
    cases second : b.quotient? with
    | some other =>
      rcases side_of_quotient? first number with side | side <;> simp [side_of_some second, side]
    | none => simp

theorem same_iff {a b : Number} (number : a.isNan = false) (number' : b.isNan = false) :
    a.same b ↔ a.rank = b.rank := by
  have forth := lt_iff number number'
  have back := lt_iff number' number
  rw [same, number, number']
  simp only [Bool.or_self, Bool.false_eq_true, if_false, Bool.and_eq_true,
    Bool.not_eq_true', ← Bool.not_eq_true, forth, back, not_lt]
  exact ⟨fun both => le_antisymm both.2 both.1, fun same => ⟨same.ge, same.le⟩⟩

end Number

namespace Position

/-- The place of a position among all others: first by how far down it is, then by how far to the right. -/
def rank (a : Position) : (Int ×ₗ ℚ) ×ₗ (Int ×ₗ ℚ) := toLex (a.1.rank, a.2.rank)

/-- Positions without NaNs compare by their ranks. -/
theorem before_iff {a b : Position} (number : a.isNan = false) (number' : b.isNan = false) :
    a.before b ↔ a.rank < b.rank := by
  simp only [isNan, Bool.or_eq_false_iff] at number number'
  have down := Number.lt_iff number.1 number'.1
  have level := Number.same_iff number.1 number'.1
  have right := Number.lt_iff number.2 number'.2
  rw [before, rank, rank, Prod.Lex.toLex_lt_toLex]
  by_cases same : a.1.same b.1
  · rw [if_pos same, right, level.mp same]
    simp
  · rw [if_neg same, down]
    simp [mt level.mpr same]

end Position

section Sorting

variable {α : Type} {items others : List (Position × α)}

/-- Without NaNs, sorting by positions is sorting by their ranks. -/
theorem sortByPosition_eq (numbers : ∀ item ∈ items, item.1.isNan = false) :
    sortByPosition items = items.mergeSort fun a b => decide (a.1.rank ≤ b.1.rank) := by
  have same := List.map_mergeSort (f := id) (l := items) (r := fun a b : Position × α => !b.1.before a.1)
    (s := fun a b => decide (a.1.rank ≤ b.1.rank)) fun a member b member' => by
      have before := Position.before_iff (numbers b member') (numbers a member)
      rw [Bool.eq_iff_iff]
      simp [← Bool.not_eq_true, before]
  rw [List.map_id, List.map_id] at same
  exact same

theorem rank_trans (a b c : Position × α) (first : decide (a.1.rank ≤ b.1.rank))
    (second : decide (b.1.rank ≤ c.1.rank)) :
    decide (a.1.rank ≤ c.1.rank) := by
  rw [decide_eq_true_eq] at *
  exact first.trans second

theorem rank_total (a b : Position × α) : decide (a.1.rank ≤ b.1.rank) || decide (b.1.rank ≤ a.1.rank) := by
  simpa using le_total a.1.rank b.1.rank

/-- Leaving out items and sorting the others is the same as sorting all and leaving them out then. -/
theorem filter_mergeSort {le : α → α → Bool} (trans : ∀ a b c, le a b → le b c → le a c)
    (total : ∀ a b, le a b || le b a) (keep : α → Bool) (list : List α) :
    (list.mergeSort le).filter keep = (list.filter keep).mergeSort le := by
  -- An item parts what is sorted into what must come before it and what need not.
  have parted : ∀ {a : α} {before after : List α}, (∀ b ∈ before, !le a b) → (∀ b ∈ after, le a b) →
      before = (before ++ after).filter (fun b => !le a b) ∧ after = (before ++ after).filter (le a) := by
    intro a before after earlier later
    rw [List.filter_append, List.filter_append, List.filter_eq_self.mpr earlier,
      List.filter_eq_self.mpr later]
    have none : after.filter (fun b => !le a b) = [] := List.filter_eq_nil_iff.mpr fun b member => by
      simp [later b member]
    have none' : before.filter (le a) = [] := List.filter_eq_nil_iff.mpr fun b member => by
      simpa using earlier b member
    rw [none, none', List.append_nil, List.nil_append]
    exact ⟨rfl, rfl⟩
  have after_cons : ∀ {a : α} {rest before after : List α}, (a :: rest).mergeSort le = before ++ a :: after →
      ∀ b ∈ after, le a b := by
    intro a rest before after sorted
    have pairs := List.pairwise_mergeSort trans total (a :: rest)
    rw [sorted] at pairs
    exact fun b member => (List.pairwise_cons.mp (List.pairwise_append.mp pairs).2.1).1 b member
  induction list with
  | nil => simp
  | cons a rest ih =>
    obtain ⟨before, after, sorted, others, earlier⟩ := List.mergeSort_cons trans total a rest
    have later := after_cons sorted
    rw [others, List.filter_append] at ih
    by_cases kept : keep a
    · obtain ⟨before', after', sorted', others', earlier'⟩ :=
        List.mergeSort_cons trans total a (rest.filter keep)
      have later' := after_cons sorted'
      rw [List.filter_cons_of_pos kept, sorted, sorted', List.filter_append, List.filter_cons_of_pos kept]
      obtain ⟨first, second⟩ := parted earlier' later'
      obtain ⟨first', second'⟩ :=
        parted (fun b member => earlier b (List.mem_filter.mp member).1 : ∀ b ∈ before.filter keep, _)
          (fun b member => later b (List.mem_filter.mp member).1 : ∀ b ∈ after.filter keep, _)
      have whole := ih.trans others'
      have left : before.filter keep = before' := by rw [first', whole, ← first]
      have right : after.filter keep = after' := by rw [second', whole, ← second]
      rw [left, right]
    · rw [List.filter_cons_of_neg kept, sorted, List.filter_append, List.filter_cons_of_neg kept, ih]

/-- Items that are left out do not change the order of the others. -/
theorem filter_sortByPosition (numbers : ∀ item ∈ items, item.1.isNan = false) (keep : Position × α → Bool) :
    (sortByPosition items).filter keep = sortByPosition (items.filter keep) := by
  rw [sortByPosition_eq numbers,
    sortByPosition_eq fun item member => numbers item (List.mem_filter.mp member).1]
  exact filter_mergeSort rank_trans rank_total keep items

/-- Items with different positions are in the same order wherever they were before. -/
theorem sortByPosition_perm (numbers : ∀ item ∈ items, item.1.isNan = false) (perm : items.Perm others)
    (distinct : (items.map (·.1.rank)).Nodup) : sortByPosition items = sortByPosition others := by
  rw [sortByPosition_eq numbers, sortByPosition_eq fun item member => numbers item (perm.mem_iff.mpr member)]
  refine List.Perm.eq_of_pairwise (fun a b first second here there => ?_)
    (List.pairwise_mergeSort rank_trans rank_total items)
    (List.pairwise_mergeSort rank_trans rank_total others)
    ((List.mergeSort_perm items _).trans (perm.trans (List.mergeSort_perm others _).symm))
  rw [decide_eq_true_eq] at here there
  have member : a ∈ items := (List.mergeSort_perm items _).mem_iff.mp first
  have member' : b ∈ items := perm.mem_iff.mpr ((List.mergeSort_perm others _).mem_iff.mp second)
  exact List.inj_on_of_nodup_map distinct member member' (le_antisymm here there)

/-- Two items in the wrong order change places. -/
theorem sortByPosition_swap {first second : Position × α} (before : second.1.before first.1) :
    sortByPosition [first, second] = [second, first] := by
  simp [sortByPosition, List.mergeSort, List.MergeSort.Internal.splitInTwo, before]

/-- What items carry does not matter for their order. -/
theorem map_sortByPosition {β : Type} (f : α → β) :
    (sortByPosition items).map (fun item => (item.1, f item.2)) =
    sortByPosition (items.map fun item => (item.1, f item.2)) :=
  List.map_mergeSort fun _ _ _ _ => rfl

/-- The order of the top blocks, when their positions are known. -/
theorem Workspace.orderedTopBlocks?_eq {ws : Workspace} {number : α → Nat}
    (tops : ws.topBlocks = items.map fun item => number item.2)
    (placed : ∀ item ∈ items, (ws.block (number item.2)).position? = some item.1) :
    ws.orderedTopBlocks? = some ((sortByPosition items).map fun item => number item.2) := by
  have positions : (items.map fun item => number item.2).mapM (fun b => (ws.block b).position?.map (·, b)) =
      some (items.map fun item => (item.1, number item.2)) := by
    clear tops
    induction items with
    | nil => rfl
    | cons item rest ih =>
      obtain ⟨first, others⟩ := List.forall_mem_cons.mp placed
      rw [List.map_cons, List.mapM_cons, first, ih others]
      rfl
  have sorted := congrArg (List.map Prod.snd) (@map_sortByPosition _ items _ number)
  rw [List.map_map] at sorted
  unfold Workspace.orderedTopBlocks?
  dsimp only
  rw [tops, positions]
  exact congrArg some sorted.symm

theorem Block.isNan_of_position? {block : Block} {position : Position}
    (placed : block.position? = some position) :
    position.isNan = false := by
  unfold Block.position? at placed
  obtain ⟨y, _, placed⟩ := Option.bind_eq_some_iff.mp placed
  obtain ⟨x, _, placed⟩ := Option.bind_eq_some_iff.mp placed
  dsimp only at placed
  split_ifs at placed with number
  cases placed
  simpa using number

/-- The order of the top blocks does not depend on the order in which they were made, if they are at different
positions. -/
theorem Workspace.orderedTopBlocks?_perm {ws : Workspace} {number : α → Nat}
    (tops : ws.topBlocks.Perm (items.map fun item => number item.2))
    (placed : ∀ item ∈ items, (ws.block (number item.2)).position? = some item.1)
    (distinct : (items.map (·.1.rank)).Nodup) :
    ws.orderedTopBlocks? = some ((sortByPosition items).map fun item => number item.2) := by
  have numbered :
      List.Forall₂ (fun b item => b = number item.2) (items.map fun item => number item.2) items :=
    List.forall₂_map_left_iff.mpr (List.forall₂_same.mpr fun _ _ => rfl)
  obtain ⟨others, same, perm⟩ := List.perm_comp_forall₂ tops numbered
  have among : ∀ item ∈ others, (ws.block (number item.2)).position? = some item.1 :=
    fun item member => placed item (perm.mem_iff.mp member)
  have topsAre : ws.topBlocks = others.map fun item => number item.2 := by
    have mapped : List.Forall₂ Eq ws.topBlocks (others.map fun item => number item.2) :=
      List.forall₂_map_right_iff.mpr same
    rwa [List.forall₂_eq_eq_eq] at mapped
  rw [orderedTopBlocks?_eq topsAre among,
    sortByPosition_perm (fun item member => Block.isNan_of_position? (among item member)) perm
    ((perm.map _).nodup_iff.mpr distinct)]

end Sorting

/-- The blocks at the top are at positions, one of every two before the other. -/
def Workspace.Apart (ws : Workspace) : Prop :=
  ∃ positions : List Position, ws.topBlocks.map (fun b => (ws.block b).position?) = positions.map some ∧
    positions.Pairwise fun a b => a.before b ∨ b.before a

section Places

variable {ws bare : Workspace} {places : List (Nat × Option Nat)}

theorem filterMap_eq_map_filter {α β : Type} (f : α → Option β) (default : β) (list : List α) :
    list.filterMap f = (list.filter fun a => (f a).isSome).map fun a => (f a).getD default := by
  induction list with
  | nil => rfl
  | cons a rest ih => cases found : f a <;> simp [found, ih]

/-- The top blocks of a workspace in order, and those of one in which some are missing. -/
theorem Workspace.exists_ordered (tops : ws.topBlocks = places.map (·.1))
    (topsBare : bare.topBlocks = places.filterMap (·.2))
    (placed : ∀ place ∈ places, (ws.block place.1).position?.isSome)
    (same : ∀ place ∈ places, ∀ d ∈ place.2, (bare.block d).position? = (ws.block place.1).position?) :
    ∃ sorted : List (Nat × Option Nat), sorted.Perm places ∧ ws.orderedTopBlocks? = some (sorted.map (·.1)) ∧
      bare.orderedTopBlocks? = some (sorted.filterMap (·.2)) := by
  let items := places.map fun place => (((ws.block place.1).position?).getD (.int 0, .int 0), place)
  have known : ∀ item ∈ items, item.2 ∈ places ∧ (ws.block item.2.1).position? = some item.1 := by
    intro item member
    obtain ⟨place, among, rfl⟩ := List.mem_map.mp member
    obtain ⟨position, found⟩ := Option.isSome_iff_exists.mp (placed place among)
    exact ⟨among, by rw [found, Option.getD_some]⟩
  have whole : items.map (·.2) = places := by
    rw [List.map_map]
    exact List.map_id _
  have numbers : ∀ item ∈ items, item.1.isNan = false :=
    fun item member => Block.isNan_of_position? (known item member).2
  have first : ws.orderedTopBlocks? = some ((sortByPosition items).map fun item => item.2.1) :=
    Workspace.orderedTopBlocks?_eq (by rw [tops, ← whole, List.map_map]; rfl) fun item member =>
      (known item member).2
  let kept := items.filter (·.2.2.isSome)
  have second : bare.orderedTopBlocks? = some ((sortByPosition kept).map fun item => item.2.2.getD 0) := by
    refine @Workspace.orderedTopBlocks?_eq _ kept bare (fun place => place.2.getD 0) ?_ fun item member => ?_
    · rw [topsBare, filterMap_eq_map_filter _ 0, ← whole, List.filter_map, List.map_map]
      rfl
    · obtain ⟨among, some⟩ := List.mem_filter.mp member
      obtain ⟨d, is⟩ := Option.isSome_iff_exists.mp some
      rw [is, Option.getD_some, same item.2 (known item among).1 d is, (known item among).2]
  refine ⟨(sortByPosition items).map (·.2), ?_, ?_, ?_⟩
  · have perm := (List.mergeSort_perm items fun a b => !b.1.before a.1).map (·.2)
    rwa [whole] at perm
  · rw [first, List.map_map]
    rfl
  · rw [second, ← filter_sortByPosition numbers, filterMap_eq_map_filter _ 0, List.filter_map, List.map_map]
    rfl

/-- Blocks that are apart have positions of different ranks. -/
theorem Workspace.Apart.ranks (apart : ws.Apart) : (∀ b ∈ ws.topBlocks, (ws.block b).position?.isSome) ∧
    (ws.topBlocks.map fun b => (ws.block b).position?.map Position.rank).Nodup := by
  obtain ⟨positions, placed, differ⟩ := apart
  have each : ∀ b ∈ ws.topBlocks, ∃ a ∈ positions, (ws.block b).position? = some a := by
    intro b member
    have among : (ws.block b).position? ∈ positions.map some := placed ▸ List.mem_map_of_mem member
    obtain ⟨a, inside, same⟩ := List.mem_map.mp among
    exact ⟨a, inside, same.symm⟩
  have numbers : ∀ a ∈ positions, a.isNan = false := by
    intro a member
    have among : some a ∈ ws.topBlocks.map fun b => (ws.block b).position? :=
      placed ▸ List.mem_map_of_mem member
    obtain ⟨b, _, same⟩ := List.mem_map.mp among
    exact Block.isNan_of_position? same
  refine ⟨fun b member => ?_, ?_⟩
  · obtain ⟨a, _, same⟩ := each b member
    rw [same]
    rfl
  · have split : (ws.topBlocks.map fun b => (ws.block b).position?.map Position.rank) =
        (positions.map Position.rank).map some := by
      have mapped := congrArg (List.map (Option.map Position.rank)) placed
      rw [List.map_map, List.map_map] at mapped
      refine mapped.trans ?_
      rw [List.map_map]
      rfl
    rw [split]
    refine List.Nodup.map (Option.some_injective _) ?_
    rw [List.nodup_iff_pairwise_ne, List.pairwise_map]
    refine differ.imp_of_mem fun {a b} member member' before => ?_
    rcases before with first | second
    · exact ((Position.before_iff (numbers a member) (numbers b member')).mp first).ne
    · exact ((Position.before_iff (numbers b member') (numbers a member)).mp second).ne'

/-- The top blocks of two workspaces in order, of which the first were made in another order. -/
theorem Workspace.Apart.exists_ordered {pairs : List (Nat × Nat)} (apart : ws.Apart)
    (tops : ws.topBlocks.Perm (pairs.map (·.1))) (topsOther : bare.topBlocks = pairs.map (·.2))
    (same : ∀ pair ∈ pairs, (bare.block pair.2).position? = (ws.block pair.1).position?) :
    ∃ sorted : List (Nat × Nat), sorted.Perm pairs ∧ ws.orderedTopBlocks? = some (sorted.map (·.1)) ∧
      bare.orderedTopBlocks? = some (sorted.map (·.2)) := by
  obtain ⟨placed, ranks⟩ := apart.ranks
  let items := pairs.map fun pair => (((ws.block pair.1).position?).getD (.int 0, .int 0), pair)
  have known : ∀ item ∈ items, item.2 ∈ pairs ∧ (ws.block item.2.1).position? = some item.1 := by
    intro item member
    obtain ⟨pair, among, rfl⟩ := List.mem_map.mp member
    obtain ⟨position, found⟩ :=
      Option.isSome_iff_exists.mp (placed pair.1 (tops.mem_iff.mpr (List.mem_map_of_mem among)))
    exact ⟨among, by simp only [found, Option.getD_some]⟩
  have through : ∀ {β : Type} (f : Nat × Nat → β), items.map (fun item => f item.2) = pairs.map f :=
    fun f => by
    simp only [items, List.map_map, Function.comp_def]
  have distinct : (items.map (·.1.rank)).Nodup := by
    have ranksOf : (items.map (·.1.rank)).map some = pairs.map fun pair =>
        (ws.block pair.1).position?.map Position.rank := by
      rw [← through, List.map_map]
      exact List.map_congr_left fun item member => by rw [(known item member).2]; rfl
    have all := (tops.map fun b => (ws.block b).position?.map Position.rank).nodup_iff.mp ranks
    rw [List.map_map] at all
    exact List.Nodup.of_map some (ranksOf ▸ all)
  have first : ws.topBlocks.Perm (items.map fun item => item.2.1) := tops.trans (.of_eq (through (·.1)).symm)
  have second : bare.topBlocks = items.map fun item => item.2.2 := topsOther.trans (through (·.2)).symm
  refine ⟨(sortByPosition items).map (·.2), ?_, ?_, ?_⟩
  · exact ((List.mergeSort_perm items _).map _).trans (.of_eq ((through id).trans (List.map_id _)))
  · rw [orderedTopBlocks?_perm first (fun item member => (known item member).2) distinct, List.map_map]
    rfl
  · rw [orderedTopBlocks?_eq second fun item member =>
      (same item.2 (known item member).1).trans (known item member).2, List.map_map]
    rfl

end Places

end BlockCompiler
