import BlockCompiler.Proofs.Number.Bounded
import Mathlib.Algebra.Order.Field.Power
import Mathlib.Data.Rat.Cast.Order
import Mathlib.Tactic.FieldSimp
import Mathlib.Tactic.Linarith
import Mathlib.Tactic.Positivity
import Mathlib.Tactic.Qify

/-!
Rounding: a quotient that lies nearer to a binary64 number than to its neighbours is rounded to it.
-/

namespace BlockCompiler

/-- A power with an exponent of either sign is a quotient of powers. -/
theorem zpow_eq_div {base : ℚ} (nonzero : base ≠ 0) (exponent : Int) :
    base ^ exponent = base ^ exponent.toNat / base ^ (-exponent).toNat := by
  have parts : (exponent.toNat : Int) - (-exponent).toNat = exponent := Int.toNat_sub_toNat_neg exponent
  rw [← zpow_natCast, ← zpow_natCast, ← zpow_sub₀ nonzero, parts]

theorem two_zpow (exponent : Int) : (2 : ℚ) ^ exponent = twoTo exponent.toNat / twoTo (-exponent).toNat := by
  rw [zpow_eq_div two_ne_zero, twoTo, twoTo, Nat.pow_eq, Nat.pow_eq, Nat.cast_pow, Nat.cast_pow,
    Nat.cast_ofNat]

theorem ten_zpow (power : Int) : (10 : ℚ) ^ power = tenTo power.toNat / tenTo (-power).toNat := by
  rw [zpow_eq_div (by norm_num), tenTo, tenTo, Nat.pow_eq, Nat.pow_eq, Nat.cast_pow, Nat.cast_pow,
    Nat.cast_ofNat]

theorem twoTo_pos (n : Nat) : (0 : ℚ) < twoTo n := Nat.cast_pos.mpr (Nat.two_pow_pos n)

theorem two_zpow_pos (exponent : Int) : (0 : ℚ) < 2 ^ exponent := zpow_pos two_pos exponent

theorem lt_of_two_zpow_lt {a b : Int} (lt : (2 : ℚ) ^ a < 2 ^ b) : a < b :=
  (zpow_lt_zpow_iff_right₀ one_lt_two).mp lt

theorem two_zpow_mono {a b : Int} (le : a ≤ b) : (2 : ℚ) ^ a ≤ 2 ^ b := zpow_le_zpow_right₀ one_le_two le

theorem two_zpow_add (a b : Int) : (2 : ℚ) ^ (a + b) = 2 ^ a * 2 ^ b := zpow_add₀ two_ne_zero a b

theorem two_zpow_sub_one (a : Int) : (2 : ℚ) ^ (a - 1) = 2 ^ a / 2 := zpow_sub_one₀ two_ne_zero a

namespace Binary64

/-- A mantissa and an exponent as they are kept in 64 bits: the mantissa has 53 bits, or fewer at the least
exponent. -/
structure Kept (mantissa : Nat) (exponent : Int) : Prop where
  limited : mantissa < twoTo 53
  least : -1074 ≤ exponent
  greatest : exponent ≤ 971
  full : -1074 < exponent → twoTo 52 ≤ mantissa

/-- Four times a mantissa less the distance, in quarters of its unit, by which a value may lie below it and is
still rounded to it. Below the least mantissa of 53 bits, the next number is half as far. -/
def lowest (mantissa : Nat) (exponent : Int) : Nat :=
  if mantissa = twoTo 52 ∧ -1074 < exponent then 4 * mantissa - 1 else 4 * mantissa - 2

/-- A value that is rounded to a magnitude: it is no further from it than half way to its neighbours, and
nearer where its mantissa is odd. -/
structure Rounds (mantissa : Nat) (exponent : Int) (value : ℚ) : Prop where
  low : lowest mantissa exponent * 2 ^ exponent ≤ 4 * value
  high : 4 * value ≤ (4 * mantissa + 2) * 2 ^ exponent
  odd : mantissa % 2 = 1 → lowest mantissa exponent * 2 ^ exponent < 4 * value ∧
    4 * value < (4 * mantissa + 2) * 2 ^ exponent

/-- A quotient is rounded to the whole number that is no further than a half from it, and nearer where that is
odd. -/
theorem roundHalfEven_eq {num den n : Nat} (positive : 0 < den) (low : 2 * (n * den) ≤ 2 * num + den)
    (high : 2 * num ≤ 2 * (n * den) + den)
    (odd : n % 2 = 1 → 2 * (n * den) < 2 * num + den ∧ 2 * num < 2 * (n * den) + den) :
    roundHalfEven num den = n := by
  have split : den * (num / den) + num % den = num := Nat.div_add_mod num den
  have rest : num % den < den := Nat.mod_lt num positive
  have product : den * (num / den) = num / den * den := Nat.mul_comm ..
  unfold roundHalfEven
  extract_lets quotient twice
  change den * quotient + num % den = num at split
  change den * quotient = quotient * den at product
  have twiceRest : twice = 2 * (num % den) := rfl
  clear_value quotient twice
  obtain rfl | rfl : n = quotient ∨ n = quotient + 1 := by
    have above : n < quotient + 2 := by
      by_contra far
      have := Nat.mul_le_mul_right den (Nat.le_of_not_lt far)
      rw [Nat.add_mul] at this
      omega
    have below : quotient < n + 1 := by
      by_contra far
      have := Nat.mul_le_mul_right den (Nat.le_of_not_lt far)
      rw [Nat.add_mul] at this
      omega
    omega
  · rw [if_pos]
    simp only [Bool.or_eq_true, Bool.and_eq_true, decide_eq_true_eq, beq_iff_eq]
    omega
  · rw [Nat.add_mul] at low high odd
    rw [if_neg]
    simp only [Bool.or_eq_true, Bool.and_eq_true, decide_eq_true_eq, beq_iff_eq]
    omega

section Quotients

variable {num den : Nat}

/-- Rounding to a multiple of a power of two. -/
theorem roundHalfEven_scaled {n : Nat} {exponent : Int} (positive : 0 < den)
    (low : (2 * n - 1) * (2 : ℚ) ^ exponent ≤ 2 * (num / den))
    (high : 2 * (num / den) ≤ (2 * n + 1) * (2 : ℚ) ^ exponent)
    (odd : n % 2 = 1 → (2 * n - 1) * (2 : ℚ) ^ exponent < 2 * (num / den) ∧
    2 * (num / den) < (2 * n + 1) * (2 : ℚ) ^ exponent) :
    roundHalfEven (num * twoTo (-exponent).toNat) (den * twoTo exponent.toNat) = n := by
  rw [two_zpow] at low high odd
  have upper := twoTo_pos exponent.toNat
  have lower := twoTo_pos (-exponent).toNat
  have below : (0 : ℚ) < den := Nat.cast_pos.mpr positive
  have scaled : 0 < den * twoTo exponent.toNat := Nat.mul_pos positive (Nat.two_pow_pos _)
  generalize twoTo exponent.toNat = a at *
  generalize twoTo (-exponent).toNat = b at *
  have left : (2 * n - 1) * ((a : ℚ) / b) = ((2 * n - 1) * a * den) / (b * den) := by field_simp
  have right : (2 * n + 1) * ((a : ℚ) / b) = ((2 * n + 1) * a * den) / (b * den) := by field_simp
  have middle : 2 * ((num : ℚ) / den) = (2 * num * b) / (b * den) := by field_simp
  have common : (0 : ℚ) < b * den := mul_pos lower below
  rw [left, middle] at low
  rw [middle, right] at high
  rw [left, middle, right] at odd
  simp only [div_le_div_iff_of_pos_right common, div_lt_div_iff_of_pos_right common] at low high odd
  apply roundHalfEven_eq scaled
  · qify
    linarith
  · qify
    linarith
  · intro isOdd
    obtain ⟨first, second⟩ := odd isOdd
    constructor
    · qify
      linarith
    · qify
      linarith

/-- The binary logarithms of two numbers tell that of their quotient but for one. -/
theorem quotient_near_lead (above : num ≠ 0) (below : den ≠ 0) :
    (2 : ℚ) ^ ((num.log2 : Int) - den.log2 - 1) < num / den ∧
    (num : ℚ) / den < 2 ^ ((num.log2 : Int) - den.log2 + 1) := by
  have bounds : ∀ {n : Nat}, n ≠ 0 → (2 : ℚ) ^ (n.log2 : Int) ≤ n ∧ (n : ℚ) < 2 ^ ((n.log2 : Int) + 1) := by
    intro n nonzero
    have next : (2 : ℚ) ^ ((n.log2 : Int) + 1) = ((2 ^ (n.log2 + 1) : Nat) : ℚ) := by
      rw [← Nat.cast_succ, zpow_natCast, Nat.cast_pow, Nat.cast_ofNat]
    rw [zpow_natCast, next]
    constructor
    · exact_mod_cast Nat.log2_self_le nonzero
    · exact_mod_cast @Nat.lt_log2_self n
  have ⟨lowNum, highNum⟩ := bounds above
  have ⟨lowDen, highDen⟩ := bounds below
  have positive : (0 : ℚ) < den := Nat.cast_pos.mpr (Nat.pos_of_ne_zero below)
  constructor
  · rw [lt_div_iff₀ positive]
    calc (2 : ℚ) ^ ((num.log2 : Int) - den.log2 - 1) * den
        < 2 ^ ((num.log2 : Int) - den.log2 - 1) * 2 ^ ((den.log2 : Int) + 1) := by gcongr
      _ = 2 ^ (num.log2 : Int) := by rw [← two_zpow_add]; congr 1; ring
      _ ≤ num := lowNum
  · rw [div_lt_iff₀ positive]
    calc (num : ℚ) < 2 ^ ((num.log2 : Int) + 1) := highNum
      _ = 2 ^ ((num.log2 : Int) - den.log2 + 1) * 2 ^ (den.log2 : Int) := by
        rw [← two_zpow_add]; congr 1; ring
      _ ≤ 2 ^ ((num.log2 : Int) - den.log2 + 1) * den := by gcongr

/-- The greatest power of two that is not above a quotient. -/
theorem quotient_near_top (above : num ≠ 0) (below : den ≠ 0) {lead : Int}
    (shape : lead = (num.log2 : Int) - den.log2) :
    let top := if den * twoTo lead.toNat ≤ num * twoTo (-lead).toNat then lead else lead - 1
    (2 : ℚ) ^ top ≤ num / den ∧ (num : ℚ) / den < 2 ^ (top + 1) := by
  intro top
  have ⟨low, high⟩ := quotient_near_lead above below
  rw [← shape] at low high
  have positive : (0 : ℚ) < den := Nat.cast_pos.mpr (Nat.pos_of_ne_zero below)
  have reaches : (2 : ℚ) ^ lead ≤ num / den ↔ den * twoTo lead.toNat ≤ num * twoTo (-lead).toNat := by
    rw [two_zpow, div_le_div_iff₀ (twoTo_pos _) positive, ← Nat.cast_mul, ← Nat.cast_mul, Nat.cast_le,
      Nat.mul_comm den]
  by_cases reached : den * twoTo lead.toNat ≤ num * twoTo (-lead).toNat
  · have same : top = lead := if_pos reached
    rw [same]
    exact ⟨reaches.mpr reached, high⟩
  · have same : top = lead - 1 := if_neg reached
    rw [same, sub_add_cancel]
    exact ⟨low.le, lt_of_not_ge fun most => reached (reaches.mp most)⟩

end Quotients

section Values

variable {mantissa : Nat} {exponent : Int} {value : ℚ}

theorem lowest_le (mantissa : Nat) (exponent : Int) : lowest mantissa exponent ≤ 4 * mantissa := by
  unfold lowest
  split_ifs <;> omega

theorem le_lowest (mantissa : Nat) (exponent : Int) : (4 * mantissa - 2 : ℚ) ≤ lowest mantissa exponent := by
  have near : 4 * mantissa ≤ lowest mantissa exponent + 2 := by
    unfold lowest
    split_ifs <;> omega
  have cast : (4 * mantissa : ℚ) ≤ lowest mantissa exponent + 2 := by exact_mod_cast near
  linarith

/-- A value that is rounded to a magnitude lies below the next power of two. -/
theorem Rounds.lt_next (rounds : Rounds mantissa exponent value) (kept : Kept mantissa exponent) :
    value < 2 ^ (exponent + 53) := by
  have unit := two_zpow_pos exponent
  have limit : (mantissa : ℚ) + 1 ≤ 2 ^ 53 := by exact_mod_cast kept.limited
  have most : 4 * value ≤ (4 * 2 ^ 53 - 2) * 2 ^ exponent := rounds.high.trans (by gcongr; linarith)
  rw [two_zpow_add]
  norm_num at most ⊢
  linarith

/-- A value that is rounded to more than the least mantissa of 53 bits is not below that. -/
theorem Rounds.not_below (rounds : Rounds mantissa exponent value) (more : twoTo 52 < mantissa) :
    2 ^ (exponent + 52) ≤ value := by
  have unit := two_zpow_pos exponent
  have limit : (2 : ℚ) ^ 52 + 1 ≤ mantissa := by exact_mod_cast more
  have least : (4 * 2 ^ 52 : ℚ) * 2 ^ exponent ≤ lowest mantissa exponent * 2 ^ exponent := by
    gcongr
    linarith [le_lowest mantissa exponent]
  rw [two_zpow_add]
  have := rounds.low
  norm_num at least ⊢
  linarith

/-- A value below the least mantissa of 53 bits that is rounded to it is nearly twice as much in the unit
below. -/
theorem Rounds.near_full (rounds : Rounds mantissa exponent value) (first : mantissa = twoTo 52)
    (more : -1074 < exponent) :
    (2 * 2 ^ 53 - 1) * 2 ^ (exponent - 1) ≤ 2 * value := by
  have low := rounds.low
  have same : ((4 * twoTo 52 - 1 : Nat) : ℚ) = 2 * 2 ^ 53 - 1 := by norm_num [twoTo]
  rw [lowest, if_pos ⟨first, more⟩, first, same] at low
  rw [two_zpow_sub_one]
  linarith

/-- A quotient is rounded to the number around which it lies. -/
theorem ofQuotient_of_rounds {num den : Nat} (kept : Kept mantissa exponent) (above : num ≠ 0)
    (below : den ≠ 0) (rounds : Rounds mantissa exponent (num / den)) (negative : Bool) :
    ofQuotient negative num den = .finite negative mantissa exponent := by
  have positive : 0 < den := Nat.pos_of_ne_zero below
  unfold ofQuotient
  extract_lets lead top power rounded
  obtain ⟨low, high⟩ : (2 : ℚ) ^ top ≤ num / den ∧ (num : ℚ) / den < 2 ^ (top + 1) :=
    quotient_near_top above below rfl
  have scale : power = max (top - 52) (-1074) := rfl
  have nearest : rounded = roundHalfEven (num * twoTo (-power).toNat) (den * twoTo power.toNat) := rfl
  clear_value top power rounded
  have notAbove : top < exponent + 53 := lt_of_two_zpow_lt (low.trans_lt (rounds.lt_next kept))
  have ⟨limited, least, greatest, full⟩ := kept
  have unit := two_zpow_pos power
  rcases Int.lt_or_le power exponent with less | most
  · -- The quotient lies below the least mantissa of 53 bits, and is rounded up to it.
    have short : (num : ℚ) / den < 2 ^ (exponent + 52) := high.trans_le (two_zpow_mono (by omega))
    have first : mantissa = twoTo 52 := by
      refine Nat.le_antisymm (Nat.le_of_not_lt fun more => ?_) (full (by omega))
      exact absurd (rounds.not_below more) (not_le.mpr short)
    have near := rounds.near_full first (by omega)
    have half : exponent + 51 < top + 1 := by
      refine lt_of_two_zpow_lt (lt_of_le_of_lt ?_ high)
      have unit := two_zpow_pos (exponent - 1)
      rw [show exponent + 51 = exponent - 1 + 52 by ring, two_zpow_add]
      norm_num at near ⊢
      linarith
    obtain rfl : power = exponent - 1 := by omega
    have same : rounded = twoTo 53 := by
      have cast : ((twoTo 53 : Nat) : ℚ) = 2 ^ 53 := by norm_num [twoTo]
      have next : (2 : ℚ) ^ (exponent + 52) = 2 ^ 53 * 2 ^ (exponent - 1) := by
        rw [show exponent + 52 = 53 + (exponent - 1) by ring, two_zpow_add]
        norm_num
      rw [nearest]
      apply roundHalfEven_scaled positive
      · rwa [cast]
      · rw [cast]
        linarith
      · exact fun isOdd => absurd isOdd (by decide)
    simp only [if_pos same]
    rw [if_neg (by omega), sub_add_cancel, first]
  · obtain rfl : power = exponent := by omega
    have quarters : (2 * mantissa - 1) * (2 : ℚ) ^ power * 2 ≤ lowest mantissa power * 2 ^ power := by
      rw [mul_right_comm]
      gcongr
      linarith [le_lowest mantissa power]
    have same : rounded = mantissa := by
      rw [nearest]
      apply roundHalfEven_scaled positive
      · linarith [rounds.low]
      · linarith [rounds.high]
      · intro isOdd
        constructor
        · linarith [(rounds.odd isOdd).1]
        · linarith [(rounds.odd isOdd).2]
    simp only [same, if_neg (Nat.ne_of_lt limited)]
    exact if_neg (by omega)

/-- What is rounded to a magnitude is not nearer to zero than half the least number, if the magnitude is not
zero. -/
theorem Rounds.not_tiny (rounds : Rounds mantissa exponent value) (kept : Kept mantissa exponent)
    (nonzero : mantissa ≠ 0) :
    2 ^ (-1075 : Int) ≤ value := by
  have positive : (1 : ℚ) ≤ mantissa := by exact_mod_cast Nat.pos_of_ne_zero nonzero
  have unit : (2 : ℚ) ^ (-1074 : Int) ≤ 2 ^ exponent := two_zpow_mono kept.least
  have least : 2 * (2 : ℚ) ^ (-1074 : Int) ≤ lowest mantissa exponent * 2 ^ exponent := by
    gcongr
    linarith [le_lowest mantissa exponent]
  rw [show (-1075 : Int) = -1074 - 1 by rfl, two_zpow_sub_one]
  linarith [rounds.low]

/-- A decimal is rounded to the number around which it lies. -/
theorem ofDecimal_of_rounds {digits : Nat} {power : Int} (kept : Kept mantissa exponent)
    (nonzero : mantissa ≠ 0) (rounds : Rounds mantissa exponent (digits * 10 ^ power)) (negative : Bool) :
    ofDecimal negative digits power = .finite negative mantissa exponent := by
  have positive : (0 : ℚ) < digits * 10 ^ power := (two_zpow_pos _).trans_le (rounds.not_tiny kept nonzero)
  have shift : (0 : ℚ) < 10 ^ power := zpow_pos (by norm_num) power
  have digits_ne : digits ≠ 0 := by
    rintro rfl
    simp at positive
  have one : (1 : ℚ) ≤ digits := by exact_mod_cast Nat.pos_of_ne_zero digits_ne
  unfold ofDecimal
  rw [if_neg digits_ne, if_neg, if_neg]
  · refine ofQuotient_of_rounds kept (Nat.mul_ne_zero digits_ne (tenTo_pos _).ne')
      (tenTo_pos _).ne' ?_ negative
    rwa [Nat.cast_mul, mul_div_assoc, ← ten_zpow]
  · intro tiny
    have bits : (digits : ℚ) < 10 ^ ((digits.log2 : Int) + 1) := by
      calc (digits : ℚ) < ((2 ^ (digits.log2 + 1) : Nat) : ℚ) := by exact_mod_cast @Nat.lt_log2_self digits
        _ ≤ ((10 ^ (digits.log2 + 1) : Nat) : ℚ) := by
          exact_mod_cast Nat.pow_le_pow_left (by decide) _
        _ = 10 ^ ((digits.log2 : Int) + 1) := by
          rw [← Nat.cast_succ, zpow_natCast, Nat.cast_pow, Nat.cast_ofNat]
    have small : digits * (10 : ℚ) ^ power < 2 ^ (-1075 : Int) := by
      calc digits * (10 : ℚ) ^ power < 10 ^ ((digits.log2 : Int) + 1) * 10 ^ power := by gcongr
        _ = 10 ^ ((digits.log2 : Int) + 1 + power) := (zpow_add₀ (by norm_num) _ _).symm
        _ ≤ 10 ^ (-331 : Int) := zpow_le_zpow_right₀ (by norm_num) (by omega)
        _ ≤ 2 ^ (-1075 : Int) := by
          have far : (2 ^ 1075 : Nat) ≤ 10 ^ 331 := by decide +kernel
          rw [zpow_neg, zpow_neg]
          gcongr
          exact_mod_cast far
    exact absurd (rounds.not_tiny kept nonzero) (not_le.mpr small)
  · intro large
    have upper : digits * (10 : ℚ) ^ power < 2 ^ (1024 : Int) :=
      (rounds.lt_next kept).trans_le (two_zpow_mono (by have := kept.greatest; omega))
    have lower : (10 : ℚ) ^ (311 : Int) ≤ digits * 10 ^ power := by
      calc (10 : ℚ) ^ (311 : Int) ≤ 10 ^ power := zpow_le_zpow_right₀ (by norm_num) (by omega)
        _ ≤ digits * 10 ^ power := le_mul_of_one_le_left shift.le one
    have far : (2 ^ 1024 : Nat) < 10 ^ 311 := by decide +kernel
    have apart : (2 : ℚ) ^ (1024 : Int) < 10 ^ (311 : Int) := by exact_mod_cast far
    exact absurd (lower.trans_lt upper) (not_lt.mpr apart.le)

end Values

/-- A number that is kept in 64 bits. -/
def IsKept : Binary64 → Prop
  | .finite _ mantissa exponent => Kept mantissa exponent
  | _ => True

/-- Rounding gives one of the two whole numbers next to a quotient. -/
theorem roundHalfEven_near (num den : Nat) :
    num / den ≤ roundHalfEven num den ∧ roundHalfEven num den ≤ num / den + 1 := by
  simp only [roundHalfEven]
  split <;> omega

/-- What a quotient is rounded to is kept in 64 bits. -/
theorem ofQuotient_kept (negative : Bool) {num den : Nat} (above : num ≠ 0) (below : den ≠ 0) :
    (ofQuotient negative num den).IsKept := by
  unfold ofQuotient
  extract_lets lead top power rounded
  obtain ⟨low, high⟩ : (2 : ℚ) ^ top ≤ num / den ∧ (num : ℚ) / den < 2 ^ (top + 1) :=
    quotient_near_top above below rfl
  have scale : power = max (top - 52) (-1074) := rfl
  have near : num * twoTo (-power).toNat / (den * twoTo power.toNat) ≤ rounded ∧
      rounded ≤ num * twoTo (-power).toNat / (den * twoTo power.toNat) + 1 := roundHalfEven_near ..
  clear_value top power rounded
  have scaled : ((num * twoTo (-power).toNat : Nat) : ℚ) / (den * twoTo power.toNat : Nat) * 2 ^ power =
      num / den := by
    have upper := twoTo_pos power.toNat
    have lower := twoTo_pos (-power).toNat
    rw [two_zpow]
    push_cast
    field_simp
  have positive : 0 < den * twoTo power.toNat := Nat.mul_pos (Nat.pos_of_ne_zero below) (Nat.two_pow_pos _)
  generalize num * twoTo (-power).toNat = p at *
  generalize den * twoTo power.toNat = q at *
  have unit := two_zpow_pos power
  have positiveQ : (0 : ℚ) < q := Nat.cast_pos.mpr positive
  have most : p / q < 2 ^ 53 := by
    have less : (p : ℚ) / q * 2 ^ power < 2 ^ 53 * 2 ^ power := by
      rw [scaled]
      refine high.trans_le ((two_zpow_mono (show top + 1 ≤ 53 + power by omega)).trans_eq ?_)
      rw [two_zpow_add]
      norm_num
    rw [Nat.div_lt_iff_lt_mul positive]
    exact_mod_cast (div_lt_iff₀ positiveQ).mp (lt_of_mul_lt_mul_right less unit.le)
  have least : -1074 < power → 2 ^ 52 ≤ p / q := by
    intro more
    have least : 2 ^ 52 * 2 ^ power ≤ (p : ℚ) / q * 2 ^ power := by
      rw [scaled]
      refine le_trans (Eq.le ?_) ((two_zpow_mono (show 52 + power ≤ top by omega)).trans low)
      rw [two_zpow_add]
      norm_num
    rw [Nat.le_div_iff_mul_le positive]
    exact_mod_cast (le_div_iff₀ positiveQ).mp (le_of_mul_le_mul_right least unit)
  have widths : twoTo 52 = 2 ^ 52 ∧ twoTo 53 = 2 ^ 53 := ⟨rfl, rfl⟩
  by_cases full : rounded = twoTo 53
  · simp only [if_pos full]
    split_ifs with large
    · trivial
    · exact ⟨by omega, by omega, by omega, fun _ => Nat.le_refl _⟩
  · simp only [if_neg full]
    split_ifs with large
    · trivial
    · exact ⟨by omega, by omega, by omega, fun more => by have := least more; omega⟩

/-- What a decimal is rounded to is kept in 64 bits. -/
theorem ofDecimal_kept (negative : Bool) (digits : Nat) (power : Int) :
    (ofDecimal negative digits power).IsKept := by
  have zero : Kept 0 (-1074) := ⟨by decide, by decide, by decide, fun more => absurd more (by decide)⟩
  unfold ofDecimal
  split_ifs with none
  · exact zero
  · trivial
  · exact zero
  · exact ofQuotient_kept negative (Nat.mul_ne_zero none (tenTo_pos _).ne') (tenTo_pos _).ne'

end Binary64

/-- Numbers that are read are kept in 64 bits. -/
theorem readDecimal_kept {text : String} {value : Binary64} (read : readDecimal text = .ok value) :
    value.IsKept := by
  rcases readDecimal_cases read with ⟨negative, rfl⟩ | rfl | ⟨negative, digits, power, rfl⟩
  · trivial
  · trivial
  · exact Binary64.ofDecimal_kept negative digits power

end BlockCompiler
