import BlockCompiler.Proofs.Number.Literals

/-!
Finite binary64 numbers are not large: their whole parts can be written.
-/

namespace BlockCompiler

theorem twoTo_le_tenTo (n : Nat) : twoTo n ≤ tenTo n := by
  have small : 2 ≤ 10 := by decide
  exact Nat.pow_le_pow_left small n

theorem twoTo_mono {m n : Nat} (le : m ≤ n) : twoTo m ≤ twoTo n := by
  have positive : 0 < 2 := by decide
  exact Nat.pow_le_pow_right positive le

theorem twoTo_add (m n : Nat) : twoTo (m + n) = twoTo m * twoTo n := Nat.pow_add 2 m n

namespace Binary64

/-- The mantissa and the exponent of a finite number are not above those of the largest. -/
def IsBounded : Binary64 → Prop
  | .finite _ mantissa exponent => mantissa < twoTo 53 ∧ exponent ≤ 971
  | _ => True

/-- The whole part of a number of limited mantissa and exponent has few digits. -/
theorem truncate?_small {negative : Bool} {mantissa : Nat} {exponent n : Int} (lead : mantissa ≤ twoTo 55)
    (power : exponent ≤ 971) (truncated : (finite negative mantissa exponent).truncate? = some n) :
    n.natAbs < tenTo 1027 := by
  obtain rfl := Option.some.inj truncated
  rw [natAbs_signed]
  have scaled : twoTo exponent.toNat ≤ twoTo 971 := twoTo_mono (by omega)
  have combined : twoTo 55 * twoTo 971 = twoTo 1026 := (twoTo_add 55 971).symm
  calc numerator mantissa exponent / denominator exponent ≤ mantissa * twoTo exponent.toNat :=
    Nat.div_le_self _ _
      _ ≤ twoTo 55 * twoTo 971 := Nat.mul_le_mul lead scaled
      _ = twoTo 1026 := combined
      _ ≤ tenTo 1026 := twoTo_le_tenTo 1026
      _ < tenTo 1027 := tenTo_lt (by omega)

theorem IsBounded.small {x : Binary64} (bounded : x.IsBounded) {n : Int} (truncated : x.truncate? = some n) :
    n.natAbs < tenTo 1027 := by
  cases x with
  | finite negative mantissa exponent =>
    have lead : twoTo 53 ≤ twoTo 55 := twoTo_mono (by omega)
    exact truncate?_small (Nat.le_of_lt (Nat.lt_of_lt_of_le bounded.1 lead)) bounded.2 truncated
  | _ => cases truncated

/-- What a quotient is rounded to has a mantissa of limited size. -/
theorem ofQuotient_bounded {negative : Bool} {num den : Nat} (positive : den ≠ 0) {n : Int}
    (truncated : (ofQuotient negative num den).truncate? = some n) : n.natAbs < tenTo 1027 := by
  unfold ofQuotient at truncated
  extract_lets first top exponent rounded at truncated
  have low : (num.log2 : Int) - den.log2 - 53 ≤ exponent := by
    have near : first - 1 ≤ top := by
      simp only [top]
      split <;> omega
    have shown : first = (num.log2 : Int) - den.log2 := rfl
    omega
  have roundedBound : rounded ≤ twoTo 54 + 1 := by
    have powers : 0 < twoTo (-exponent).toNat ∧ 0 < twoTo exponent.toNat :=
      ⟨Nat.two_pow_pos _, Nat.two_pow_pos _⟩
    have upper : num < twoTo (num.log2 + 1) := Nat.lt_log2_self
    have lower : twoTo den.log2 ≤ den := Nat.log2_self_le positive
    have scaled : twoTo (num.log2 + 1) * twoTo (-exponent).toNat ≤
        twoTo den.log2 * twoTo exponent.toNat * twoTo 54 := by
      have all : twoTo (num.log2 + 1 + (-exponent).toNat) ≤ twoTo (den.log2 + exponent.toNat + 54) :=
        twoTo_mono (by omega)
      simpa only [twoTo_add] using all
    have quotient : num * twoTo (-exponent).toNat / (den * twoTo exponent.toNat) < twoTo 54 := by
      apply Nat.div_lt_of_lt_mul
      calc num * twoTo (-exponent).toNat < twoTo (num.log2 + 1) * twoTo (-exponent).toNat :=
            Nat.mul_lt_mul_of_pos_right upper powers.1
        _ ≤ twoTo den.log2 * twoTo exponent.toNat * twoTo 54 := scaled
        _ ≤ den * twoTo exponent.toNat * twoTo 54 := Nat.mul_le_mul_right _ (Nat.mul_le_mul_right _ lower)
    have atMost : ∀ p q, roundHalfEven p q ≤ p / q + 1 := by
      intro p q
      simp only [roundHalfEven]
      split <;> omega
    have := atMost (num * twoTo (-exponent).toNat) (den * twoTo exponent.toNat)
    omega
  have wide : twoTo 54 + 1 ≤ twoTo 55 := by decide
  by_cases full : rounded = twoTo 53
  · simp only [if_pos full] at truncated
    split_ifs at truncated with large
    · cases truncated
    · exact truncate?_small (twoTo_mono (by omega)) (by omega) truncated
  · simp only [if_neg full] at truncated
    split_ifs at truncated with large
    · cases truncated
    · exact truncate?_small (Nat.le_trans roundedBound wide) (by omega) truncated

theorem ofDecimal_bounded {negative : Bool} {digits : Nat} {power n : Int}
    (truncated : (ofDecimal negative digits power).truncate? = some n) : n.natAbs < tenTo 1027 := by
  have zero : ∀ n, (finite negative 0 (-1074)).truncate? = some n → n.natAbs < tenTo 1027 :=
    fun n truncated =>
    truncate?_small (Nat.zero_le _) (by omega) truncated
  unfold ofDecimal at truncated
  split_ifs at truncated
  · exact zero n truncated
  · cases truncated
  · exact zero n truncated
  · exact ofQuotient_bounded (Nat.ne_of_gt (Nat.pow_pos (by decide))) truncated

end Binary64

/-- What is read as a decimal is an infinity, no number, or the number nearest to some digits. -/
theorem readDecimal_cases {text : String} {value : Binary64} (read : readDecimal text = .ok value) :
    (∃ negative, value = .infinite negative) ∨ value = .nan ∨
      ∃ negative digits power, value = Binary64.ofDecimal negative digits power := by
  unfold readDecimal at read
  generalize takeSign (trimEnds isNumeralBlank text.toList) = split at read
  obtain ⟨negative, body⟩ := split
  dsimp only at read
  split_ifs at read
  · cases read
    exact .inl ⟨negative, rfl⟩
  · cases read
    exact .inr (.inl rfl)
  · cases magnitude : readMagnitude? negative body with
    | none =>
      rw [magnitude] at read
      cases read
    | some found =>
      rw [magnitude] at read
      cases read
      unfold readMagnitude? at magnitude
      dsimp only at magnitude
      split at magnitude
      all_goals
        split_ifs at magnitude
        obtain ⟨power, _, rfl⟩ := Option.map_eq_some_iff.mp magnitude
        exact .inr (.inr ⟨negative, _, _, rfl⟩)

/-- A decimal that is read has a whole part of few digits, if it has one. -/
theorem readDecimal_bounded {text : String} {value : Binary64} (read : readDecimal text = .ok value) {n : Int}
    (truncated : value.truncate? = some n) : n.natAbs < tenTo 1027 := by
  rcases readDecimal_cases read with ⟨negative, rfl⟩ | rfl | ⟨negative, digits, power, rfl⟩
  · cases truncated
  · cases truncated
  · exact Binary64.ofDecimal_bounded truncated

end BlockCompiler
