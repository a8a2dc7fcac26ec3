/-!
Runs of letters whose other case lies at one fixed distance.
-/

namespace BlockCompiler

/-- A run of code points, from the first to the last in steps of one or two, with the distance to
their counterparts. -/
abbrev CaseRun := Nat × Nat × Nat × Int

/-- The counterpart of a code point under increasing, disjoint runs; one outside all runs stays. -/
def mapCase : List CaseRun → Nat → Nat
  | [], c => c
  | (first, last, step, distance) :: rest, c =>
    if c < first then c
    else if c ≤ last && (c - first) % step == 0 then (c + distance).toNat
    else mapCase rest c

end BlockCompiler
