/-!
Sets of characters given by ranges of code points.
-/

namespace BlockCompiler

/-- Whether a code point lies in one of the given ranges, which are increasing and disjoint. -/
def inRanges : List (Nat × Nat) → Nat → Bool
  | [], _ => false
  | (first, last) :: rest, c => if c < first then false else c ≤ last || inRanges rest c

end BlockCompiler
