import BlockCompiler.Number.Binary64
import BlockCompiler.Sorting.Merging

/-!
Sorting by runs. Items are cut into runs that are sorted already or are made so by insertion, and
neighbouring runs are merged. Items that are alike stay in their order.
-/

namespace BlockCompiler

variable {α : Type}

/-- Insert items into sorted ones, one after another, each as far to the right as it may stand. -/
def insertAll (less : α → α → Option Bool) : Array α → List α → Option (Array α)
  | sorted, [] => some sorted
  | sorted, item :: rest => do
    let place ← halve (fun i => sorted[i]?.bind fun other => not <$> less item other) 0 sorted.size
    insertAll less ((sorted.extract 0 place).push item ++ sorted.extract place sorted.size) rest

/-- The longest head of a list in which each item comes before its forerunner, or none does. -/
def takeChain (less : α → α → Option Bool) (descends : Bool) : α → List α → Option (List α)
  | last, item :: rest => do
    if (← less item last) = descends then return item :: (← takeChain less descends item rest)
    else return []
  | _, [] => some []

/-- Cut off the first run. One that descends is reversed, and one of fewer items than the least number is
filled up. -/
def takeRun (less : α → α → Option Bool) (least : Nat) : List α → Option (List α × List α)
  | first :: second :: rest => do
    let descends ← less second first
    let chain := first :: second :: (← takeChain less descends second rest)
    let rest := rest.drop (chain.length - 2)
    let missing := least - chain.length
    let run ← insertAll less (if descends then chain.reverse else chain).toArray (rest.take missing)
    return (run.toList, rest.drop missing)
  | items => some (items, [])

/-- The least number of items in a run: all of fewer than 64, and else such that the number of runs is near
to a power of two and not above it. -/
def leastRun (size : Nat) : Nat :=
  let parts := twoTo (size.log2 - 5)
  (size + parts - 1) / parts

/-- A run: where it starts, its items, and once there is a run behind it, the power of the boundary between
the two. -/
structure Run (α : Type) where
  start : Nat
  items : List α
  power : Nat := 0

/-- The power of the boundary between two runs: how often all items must be halved until the middles of the
runs lie in different parts. -/
def boundaryPower (size start left right : Nat) : Nat :=
  let twiceFirst := 2 * start + left
  let twiceSecond := twiceFirst + left + right
  let apart (k : Nat) : Bool := twiceFirst * twoTo k / size != twiceSecond * twoTo k / size
  ((List.range (size.log2 + 2)).find? apart).getD 0 + 1

/-- Steps of sorting, which hand on the patience of merges and may have no outcome. -/
abbrev SortStep := StateT Nat Option

/-- Merge two parts, the shorter of which is moved. The head of the second part is known to come first. -/
def mergeParts (less : α → α → Option Bool) (first second : List α) : SortStep (List α) := fun patience =>
  if second.isEmpty then some (first, patience)
  else if first.length ≤ second.length then do
    let (merged, patience) ← (MergeOrder.fromHeads less).mergeLists patience first second
    return (merged.reverse, patience)
  else (MergeOrder.fromEnds less).mergeLists patience second.reverse first.reverse

/-- Merge two neighbouring runs. What stands where it belongs at the head of the left one and at the end of
the right one is left alone. -/
def mergeRuns (less : α → α → Option Bool) (left right : Run α) : SortStep (Run α) := do
  match right.items, left.items.getLast? with
  | head :: _, some last =>
    let before ← (boundary (fun item => not <$> less head item) left.items.toArray 0 : Option Nat)
    if before = left.items.length then return { left with items := left.items ++ right.items }
    let farEnd := right.items.length - 1
    let count ← (boundary (fun item => less item last) right.items.toArray farEnd : Option Nat)
    let merged ← mergeParts less (left.items.drop before) (right.items.take count)
    return { left with items := left.items.take before ++ merged ++ right.items.drop count }
  | _, _ => return { left with items := left.items ++ right.items }

/-- Merge the last two runs as long as the boundary between them has more than some power. Runs stand in
reverse. -/
def mergeAbove (less : α → α → Option Bool) (power : Nat) : List (Run α) → SortStep (List (Run α))
  | right :: left :: rest => do
    if power < left.power then
      let run ← mergeRuns less left right
      mergeAbove less power (run :: rest)
    else return right :: left :: rest
  | runs => return runs
termination_by runs => runs.length

/-- Merge all runs, which stand in reverse. The last one waits while the one before it is longer than the
one before that. -/
def mergeAll (less : α → α → Option Bool) : List (Run α) → SortStep (List α)
  | [] => return []
  | [run] => return run.items
  | [right, left] => do return (← mergeRuns less left right).items
  | last :: right :: left :: rest => do
    if left.items.length < last.items.length then
      let run ← mergeRuns less left right
      mergeAll less (last :: run :: rest)
    else
      let run ← mergeRuns less right last
      mergeAll less (run :: left :: rest)
termination_by runs => runs.length

/-- Cut items into runs, and merge those found before as far as the powers of their boundaries ask for it.
Every run takes an item, so the number of items is fuel enough. -/
def collectRuns (less : α → α → Option Bool) (size : Nat) :
    (fuel start : Nat) → List (Run α) → List α → SortStep (List (Run α))
  | 0, _, runs, _ => return runs
  | _, _, runs, [] => return runs
  | fuel + 1, start, runs, rest => do
    let (items, rest) ← takeRun less (leastRun size) rest
    let runs ←
      match runs with
      | [] => pure []
      | last :: _ =>
        let power := boundaryPower size last.start last.items.length items.length
        match ← mergeAbove less power runs with
        | [] => pure []
        | last :: earlier => pure ({ last with power } :: earlier)
    collectRuns less size fuel (start + items.length) (⟨start, items, 0⟩ :: runs) rest

/-- Items sorted by a comparison, unless it has no answer for some of them. -/
def sortByRuns (less : α → α → Option Bool) (items : List α) : Option (List α) := do
  let sorted : SortStep (List α) := do
    mergeAll less (← collectRuns less items.length items.length 0 [] items)
  return (← sorted.run MergeOrder.worthwhile).1

end BlockCompiler
