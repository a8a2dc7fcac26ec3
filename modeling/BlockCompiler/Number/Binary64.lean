/-!
Binary floating-point numbers of 64 bits, with exact rounding in whole-number arithmetic.
-/

namespace BlockCompiler

/-- A power of two. -/
def twoTo (n : Nat) : Nat := Nat.pow 2 n

/-- A power of ten. -/
def tenTo (n : Nat) : Nat := Nat.pow 10 n

/-- A binary64 number. The magnitude of a finite one is its mantissa times two to its exponent, where
the mantissa has 53 bits, or fewer at the least exponent, -1074. -/
inductive Binary64 where
  | finite (negative : Bool) (mantissa : Nat) (exponent : Int)
  | infinite (negative : Bool)
  | nan
  deriving DecidableEq, Repr

namespace Binary64

/-- A quotient rounded to the nearest whole number, a half to the even one. -/
def roundHalfEven (num den : Nat) : Nat :=
  let quotient := num / den
  let twice := 2 * (num % den)
  if twice < den || (twice == den && quotient % 2 == 0) then quotient else quotient + 1

/-- The number nearest to a positive quotient; of two nearest ones, the one with an even mantissa. -/
def ofQuotient (negative : Bool) (num den : Nat) : Binary64 :=
  let lead : Int := (num.log2 : Int) - den.log2
  let top := if den * twoTo lead.toNat ≤ num * twoTo (-lead).toNat then lead else lead - 1
  let exponent := max (top - 52) (-1074)
  let rounded := roundHalfEven (num * twoTo (-exponent).toNat) (den * twoTo exponent.toNat)
  let (mantissa, exponent) := if rounded = twoTo 53 then (twoTo 52, exponent + 1) else (rounded, exponent)
  if 971 < exponent then .infinite negative else .finite negative mantissa exponent

/-- The number nearest to some digits, read as a whole number, times a power of ten. Powers that leave
no doubt about the outcome are not computed. -/
def ofDecimal (negative : Bool) (digits : Nat) (power : Int) : Binary64 :=
  if digits = 0 then .finite negative 0 (-1074)
  else if 310 < power then .infinite negative
  else if power + digits.log2 + 1 < -330 then .finite negative 0 (-1074)
  else ofQuotient negative (digits * tenTo power.toNat) (tenTo (-power).toNat)

/-- The numerator of a mantissa times a power of two. -/
def numerator (mantissa : Nat) (exponent : Int) : Nat := mantissa * twoTo exponent.toNat

/-- The denominator of a number with this exponent. -/
def denominator (exponent : Int) : Nat := twoTo (-exponent).toNat

/-- A magnitude with its sign. -/
def signed (negative : Bool) (magnitude : Nat) : Int :=
  if negative then -(magnitude : Int) else magnitude

/-- The whole part of a finite number. -/
def truncate? : Binary64 → Option Int
  | .finite negative mantissa exponent =>
    some (signed negative (numerator mantissa exponent / denominator exponent))
  | _ => none

/-- Whether a number is finite and whole. -/
def isWhole : Binary64 → Bool
  | .finite _ mantissa exponent => numerator mantissa exponent % denominator exponent == 0
  | _ => false

/-- Whether a number equals zero, of either sign. -/
def isZero : Binary64 → Bool
  | .finite _ mantissa _ => mantissa == 0
  | _ => false

/-- Whether a number is at least zero. -/
def isNonNegative : Binary64 → Bool
  | .finite negative mantissa _ => !negative || mantissa == 0
  | .infinite negative => !negative
  | .nan => false

end Binary64

end BlockCompiler
