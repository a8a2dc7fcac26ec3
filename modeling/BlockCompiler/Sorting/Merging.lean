import BlockCompiler.Sorting.Search

/-!
Merging two sorted lists. Where one of them keeps coming first, a search tells how many of its items come
before the other's next one. How often it must come first in a row is the patience of the merge.

A comparison may have no answer, and then there is none here either. Where comparisons are not consistent,
the outcome still depends on nothing but their answers.
-/

namespace BlockCompiler

variable {α : Type}

/-- The state of a merge: either two lists and what is merged so far, last item first, or the outcome,
last item first as well. -/
inductive Merging (α : Type) where
  | going (merged first second : List α)
  | done (merged : List α)

namespace Merging

/-- End a merge if one list is used up, or if one item of the first list is left. That item is known to
come last. -/
def settle (merged first second : List α) : Merging α :=
  match first, second with
  | [], second => .done (second.reverse ++ merged)
  | first, [] => .done (first.reverse ++ merged)
  | [item], second => .done (item :: second.reverse ++ merged)
  | first, second => .going merged first second

/-- Take some items of the first list. -/
def takeFirst (count : Nat) : Merging α → Merging α
  | .going merged first second =>
    settle ((first.take count).reverse ++ merged) (first.drop count) second
  | merging => merging

/-- Take some items of the second list. -/
def takeSecond (count : Nat) : Merging α → Merging α
  | .going merged first second =>
    settle ((second.take count).reverse ++ merged) first (second.drop count)
  | merging => merging

end Merging

/-- How items of two lists compare: whether an item of the second list comes before one of the first, how
many items of a list come before one of the other, and which list is searched before the other. -/
structure MergeOrder (α : Type) where
  secondBefore : α → α → Option Bool
  countFirst : α → List α → Option Nat
  countSecond : α → List α → Option Nat
  searchesFirst : Bool

namespace MergeOrder

/-- Two lists merged from their heads: the first one stands to the left of the second one. -/
def fromHeads (less : α → α → Option Bool) : MergeOrder α where
  secondBefore b a := less b a
  countFirst b first := boundary (fun a => not <$> less b a) first.toArray 0
  countSecond a second := boundary (fun b => less b a) second.toArray 0
  searchesFirst := true

/-- Two lists merged from their ends, and so both reversed: the first one stands to the right of the second
one. -/
def fromEnds (less : α → α → Option Bool) : MergeOrder α where
  secondBefore b a := less a b
  countFirst b first := do
    return first.length - (← boundary (fun a => less a b) first.reverse.toArray (first.length - 1))
  countSecond a second := do
    let kept ← boundary (fun b => not <$> less a b) second.reverse.toArray (second.length - 1)
    return second.length - kept
  searchesFirst := false

/-- Take the items of the first list that come before the second list's next one, and then that one. -/
def runFirst (order : MergeOrder α) : Merging α → Option (Nat × Merging α)
  | .going merged first (b :: second) => do
    let count ← order.countFirst b first
    return (count, ((Merging.going merged first (b :: second)).takeFirst count).takeSecond 1)
  | merging => some (0, merging)

/-- Take the items of the second list that come before the first list's next one, and then that one. -/
def runSecond (order : MergeOrder α) : Merging α → Option (Nat × Merging α)
  | .going merged (a :: first) second => do
    let count ← order.countSecond a second
    return (count, ((Merging.going merged (a :: first) second).takeSecond count).takeFirst 1)
  | merging => some (0, merging)

/-- Search in one list and then in the other. The greater one of the two counts is told. -/
def searchBoth (order : MergeOrder α) (merging : Merging α) : Option (Nat × Merging α) := do
  let (one, merging) ← if order.searchesFirst then order.runFirst merging else order.runSecond merging
  let (other, merging) ← if order.searchesFirst then order.runSecond merging else order.runFirst merging
  return (max one other, merging)

/-- The count from which a search was worth it. -/
def worthwhile : Nat := 7

mutual

/-- Merge item by item, until one list has come first so often in a row that patience is at its end. -/
def steadily (order : MergeOrder α) :
    (fuel patience inRowFirst inRowSecond : Nat) → Merging α → Option (List α × Nat)
  | _, patience, _, _, .done merged => some (merged, patience)
  | fuel + 1, patience, inRowFirst, inRowSecond, .going merged (a :: first) (b :: second) => do
    let merging := Merging.going merged (a :: first) (b :: second)
    if ← order.secondBefore b a then
      if inRowSecond + 1 < patience then
        order.steadily fuel patience 0 (inRowSecond + 1) (merging.takeSecond 1)
      else order.searching fuel patience (merging.takeSecond 1)
    else if inRowFirst + 1 < patience then
      order.steadily fuel patience (inRowFirst + 1) 0 (merging.takeFirst 1)
    else order.searching fuel patience (merging.takeFirst 1)
  | _, _, _, _, _ => none

/-- Merge by searching, as long as it is worth it. Patience shrinks while it is and grows when it is not
any more. -/
def searching (order : MergeOrder α) : (fuel patience : Nat) → Merging α → Option (List α × Nat)
  | _, patience, .done merged => some (merged, patience)
  | fuel + 1, patience, merging => do
    match ← order.searchBoth merging with
    | (_, .done merged) => return (merged, patience)
    | (count, merging) =>
      if worthwhile ≤ count then order.searching fuel (max 1 (patience - 1)) merging
      else order.steadily fuel (patience + 1) 0 0 merging
  | _, _, _ => none

end

/-- Merge two lists of which the second one's head is known to come first. The outcome has its last item
first, and patience comes with it. -/
def mergeLists (order : MergeOrder α) (patience : Nat) (first second : List α) : Option (List α × Nat) :=
  order.steadily (first.length + second.length) patience 0 0 ((Merging.going [] first second).takeSecond 1)

end MergeOrder

end BlockCompiler
