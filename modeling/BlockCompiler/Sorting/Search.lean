/-!
Searching in sorted items with few tests. A test says of an item whether it stands on the left of the
place that is sought, and may have no answer.
-/

namespace BlockCompiler

/-- Between two places, the one that parts the items that pass a test from the others, found by halving. -/
def halve (test : Nat → Option Bool) (low high : Nat) : Option Nat :=
  if low < high then
    let middle := low + (high - low) / 2
    match test middle with
    | none => none
    | some true => halve test (middle + 1) high
    | some false => halve test low middle
  else some low
termination_by high - low

/-- Go on in strides of 1, 3, 7 and so on as long as a test holds, but no further than to some end. The
answer is the last stride at which it held, and the next one. -/
def stride (test : Nat → Option Bool) (most last next : Nat) : Option (Nat × Nat) :=
  if next < most then
    match test next with
    | none => none
    | some true => stride test most next (2 * next + 1)
    | some false => some (last, next)
  else some (last, most)
termination_by most - next

variable {α : Type}

/-- How many of some items pass a test, where those that do stand first. The search sets out from one of
the items, strides away from it and then halves what is between the last two strides. -/
def boundary (test : α → Option Bool) (items : Array α) (start : Nat) : Option Nat := do
  let probe (i : Nat) : Option Bool := items[i]?.bind test
  if ← probe start then
    let (last, next) ← stride (fun d => probe (start + d)) (items.size - start) 0 1
    halve probe (start + last + 1) (start + next)
  else
    let (last, next) ← stride (fun d => not <$> probe (start - d)) (start + 1) 0 1
    halve probe (start + 1 - next) (start - last)

end BlockCompiler
