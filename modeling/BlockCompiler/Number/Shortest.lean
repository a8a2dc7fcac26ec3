import BlockCompiler.Number.Binary64

/-!
The shortest decimal form of a binary64 number: the fewest digits that read back as the same number,
and of those the nearest to it.
-/

namespace BlockCompiler

namespace Binary64

/-- The power of ten that a positive magnitude reaches: the greatest `k` with `10 ^ k` at most it. -/
def decimalLead (mantissa : Nat) (exponent : Int) : Int :=
  let guess := ((mantissa.log2 + exponent) * 30103).fdiv 100000
  let reaches (k : Int) : Bool :=
    tenTo k.toNat * denominator exponent ≤ numerator mantissa exponent * tenTo (-k).toNat
  if reaches (guess + 1) then guess + 1 else if reaches guess then guess else guess - 1

/-- The decimal with `count` digits, as a whole number and a power of ten, that rounds to a positive
magnitude, if there is one: the nearer of the magnitude's two neighbours on the decimal grid, the even
one when both are as near. -/
def decimalOfSize? (mantissa : Nat) (exponent : Int) (count : Nat) : Option (Nat × Int) :=
  let power := decimalLead mantissa exponent + 1 - count
  let grid := tenTo power.toNat * twoTo (2 - exponent).toNat
  let scale := twoTo (exponent - 2).toNat * tenTo (-power).toNat
  let value := 4 * mantissa * scale
  let low := (if mantissa = twoTo 52 ∧ -1074 < exponent then 4 * mantissa - 1 else 4 * mantissa - 2) * scale
  let high := (4 * mantissa + 2) * scale
  let readsBack (point : Nat) : Bool :=
    if mantissa % 2 = 0 then low ≤ point && point ≤ high else low < point && point < high
  let below := value / grid
  let fromBelow := value - below * grid
  let fromAbove := (below + 1) * grid - value
  match readsBack (below * grid), readsBack ((below + 1) * grid) with
  | true, true =>
    if fromBelow < fromAbove || (fromBelow == fromAbove && below % 2 == 0) then some (below, power)
    else some (below + 1, power)
  | true, false => some (below, power)
  | false, true => some (below + 1, power)
  | false, false => none

/-- The fewest digits of a positive magnitude. Seventeen always suffice. -/
def shortestDecimal (mantissa : Nat) (exponent : Int) : Nat × Int :=
  ((List.range 17).findSome? fun n => decimalOfSize? mantissa exponent (n + 1)).getD (mantissa, 0)

/-- A decimal with its trailing zeros moved into the power. -/
def trimZeros : Nat → Nat × Int → Nat × Int
  | 0, decimal => decimal
  | fuel + 1, (digits, power) =>
    if digits % 10 = 0 ∧ digits ≠ 0 then trimZeros fuel (digits / 10, power + 1) else (digits, power)

/-- How decimals are laid out: in positional notation while the point falls from three places before
the first digit to sixteen places after it, otherwise with an exponent of two digits or more. Positional
notation always shows a digit after the point. -/
def layout (digits : Nat) (power : Int) : String :=
  let figures := (toString digits).toList
  let point := figures.length + power
  if point ≤ -4 ∨ 16 < point then
    let exponent := point - 1
    let size := toString exponent.natAbs
    let shown := if size.length < 2 then "0" ++ size else size
    let fraction := if figures.length = 1 then [] else '.' :: figures.drop 1
    String.ofList (figures.take 1 ++ fraction) ++ (if exponent < 0 then "e-" else "e+") ++ shown
  else if point ≤ 0 then
    "0." ++ String.ofList (List.replicate (-point).toNat '0' ++ figures)
  else if figures.length ≤ point then
    String.ofList (figures ++ List.replicate (point - figures.length).toNat '0') ++ ".0"
  else
    String.ofList (figures.take point.toNat) ++ "." ++ String.ofList (figures.drop point.toNat)

/-- The shortest text of a number. -/
def text : Binary64 → String
  | .nan => "nan"
  | .infinite negative => if negative then "-inf" else "inf"
  | .finite negative mantissa exponent =>
    let sign := if negative then "-" else ""
    if mantissa = 0 then sign ++ "0.0"
    else
      let (digits, power) := trimZeros 17 (shortestDecimal mantissa exponent)
      sign ++ layout digits power

end Binary64

end BlockCompiler
