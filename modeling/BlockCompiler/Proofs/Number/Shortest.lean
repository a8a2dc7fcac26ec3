import BlockCompiler.Proofs.Number.Layout
import BlockCompiler.Proofs.Number.Nearest

/-!
The shortest decimal form of a binary64 number: seventeen digits always suffice, and it is rounded to the
number.
-/

namespace BlockCompiler

/-- A power of ten and a power of two whose exponents stand to each other nearly as their logarithms do. -/
theorem ten_zpow_le {n d : Nat} (positive : n ≠ 0) (above : 2 ^ n ≤ 10 ^ d) (below : 10 ^ d ≤ 2 ^ (n + 1))
    {g l : Int} (near : n * g ≤ d * l) (small : l ≤ 3 * n) : (10 : ℚ) ^ (g - 1) ≤ 2 ^ l := by
  have aboveQ : (2 : ℚ) ^ n ≤ 10 ^ d := by exact_mod_cast above
  have belowQ : (10 : ℚ) ^ d ≤ 2 ^ (n + 1) := by exact_mod_cast below
  have ten : (0 : ℚ) < 10 ^ n := by positivity
  refine (pow_le_pow_iff_left₀ (by positivity) (by positivity) positive).mp ?_
  have raised : ((10 : ℚ) ^ (g - 1)) ^ n ≤ 10 ^ ((d : Int) * l) / 10 ^ n := by
    rw [← zpow_natCast, ← zpow_mul, ← zpow_natCast, ← zpow_sub₀ (by norm_num)]
    exact zpow_le_zpow_right₀ (by norm_num) (by linarith)
  refine raised.trans ?_
  rw [div_le_iff₀ ten, zpow_mul, zpow_natCast, ← zpow_natCast (2 ^ l), ← zpow_mul]
  rcases Int.le_total 0 l with high | low
  · obtain ⟨k, rfl⟩ := Int.eq_ofNat_of_zero_le high
    have few : k ≤ 3 * n := by omega
    rw [zpow_natCast, ← Nat.cast_mul, zpow_natCast]
    calc ((10 : ℚ) ^ d) ^ k ≤ (2 ^ (n + 1)) ^ k := by gcongr
      _ = 2 ^ (k * n) * 2 ^ k := by ring
      _ ≤ 2 ^ (k * n) * 2 ^ (3 * n) := by gcongr; norm_num
      _ = 2 ^ (k * n) * 8 ^ n := by rw [pow_mul 2 3 n]; norm_num
      _ ≤ 2 ^ (k * n) * 10 ^ n := by gcongr; norm_num
  · obtain ⟨k, rfl⟩ := Int.exists_eq_neg_ofNat low
    rw [zpow_neg, zpow_natCast, Int.neg_mul, zpow_neg, ← Nat.cast_mul, zpow_natCast]
    calc (((10 : ℚ) ^ d) ^ k)⁻¹ ≤ ((2 ^ n) ^ k)⁻¹ := by gcongr
      _ = (2 ^ (k * n))⁻¹ * 1 := by rw [mul_one, ← pow_mul, Nat.mul_comm]
      _ ≤ (2 ^ (k * n))⁻¹ * 10 ^ n := by gcongr; exact one_le_pow₀ (by norm_num)

namespace Binary64

section Magnitudes

variable {mantissa : Nat} {exponent : Int}

theorem numerator_div_denominator (mantissa : Nat) (exponent : Int) :
    (numerator mantissa exponent : ℚ) / denominator exponent = mantissa * 2 ^ exponent := by
  rw [numerator, denominator, Nat.cast_mul, mul_div_assoc, two_zpow]

/-- The power of ten that is found for a magnitude is not above it. -/
theorem decimalLead_le (kept : Kept mantissa exponent) (nonzero : mantissa ≠ 0) :
    (10 : ℚ) ^ decimalLead mantissa exponent ≤ mantissa * 2 ^ exponent := by
  unfold decimalLead
  extract_lets guess reaches
  have reached : ∀ k, reaches k → (10 : ℚ) ^ k ≤ mantissa * 2 ^ exponent := by
    intro k found
    have positive : (0 : ℚ) < denominator exponent := twoTo_pos _
    have least : tenTo k.toNat * denominator exponent ≤ numerator mantissa exponent * tenTo (-k).toNat :=
      of_decide_eq_true found
    rw [← numerator_div_denominator, ten_zpow, div_le_div_iff₀ (Nat.cast_pos.mpr (tenTo_pos _)) positive]
    exact_mod_cast least
  split_ifs with next this
  · exact reached _ next
  · exact reached _ this
  · have bits : (2 : ℚ) ^ ((mantissa.log2 : Int) + exponent) ≤ mantissa * 2 ^ exponent := by
      have unit := two_zpow_pos exponent
      have power : (2 : ℚ) ^ (mantissa.log2 : Int) ≤ mantissa := by
        rw [zpow_natCast]
        exact_mod_cast Nat.log2_self_le nonzero
      rw [two_zpow_add]
      gcongr
    have below : guess * 100000 ≤ (mantissa.log2 + exponent) * 30103 := by
      have whole : guess = (mantissa.log2 + exponent) * 30103 / 100000 :=
        Int.fdiv_eq_ediv_of_nonneg _ (by decide)
      rw [whole]
      exact Int.ediv_mul_le _ (by decide)
    have few : mantissa.log2 < 53 := (Nat.log2_lt nonzero).mpr kept.limited
    have := kept.greatest
    refine le_trans (@ten_zpow_le 100000 30103 (by decide) (by decide +kernel) (by decide +kernel) _ _ ?_ ?_)
      bits
    · push_cast
      linarith
    · push_cast
      omega

/-- The places of a decimal grid and the quarters of the unit of a magnitude have a common measure. -/
theorem exists_measure (exponent power : Int) : ∃ measure : ℚ, 0 < measure ∧
    (∀ bound : Nat, ((bound * (twoTo (exponent - 2).toNat * tenTo (-power).toNat) : Nat) : ℚ) =
    bound * 2 ^ exponent * measure) ∧
    ∀ digits : Nat, ((digits * (tenTo power.toNat * twoTo (2 - exponent).toNat) : Nat) : ℚ) =
      4 * (digits * 10 ^ power) * measure := by
  have ten : (0 : ℚ) < tenTo (-power).toNat := Nat.cast_pos.mpr (tenTo_pos _)
  have two := twoTo_pos (2 - exponent).toNat
  have quarters : (2 : ℚ) ^ exponent = 4 * (twoTo (exponent - 2).toNat / twoTo (2 - exponent).toNat) := by
    have same : exponent = 2 + (exponent - 2) := by ring
    rw [same, two_zpow_add, ← same, two_zpow (exponent - 2), neg_sub]
    norm_num
  refine ⟨twoTo (2 - exponent).toNat * tenTo (-power).toNat / 4,
    by positivity, fun bound => ?_, fun digits => ?_⟩
  · rw [quarters]
    push_cast
    field_simp
  · rw [ten_zpow]
    push_cast
    field_simp

/-- A decimal that is found for a magnitude is rounded to it. -/
theorem rounds_of_decimalOfSize? {count digits : Nat} {power : Int}
    (found : decimalOfSize? mantissa exponent count = some (digits, power)) :
    Rounds mantissa exponent (digits * 10 ^ power) := by
  unfold decimalOfSize? at found
  extract_lets place grid scale value low high readsBack below fromBelow fromAbove at found
  obtain ⟨measure, positive, bounds, points⟩ := exists_measure exponent place
  have reads : ∀ point, readsBack (point * grid) → Rounds mantissa exponent (point * 10 ^ place) := by
    intro point reads
    have lowest_eq : (low : ℚ) = lowest mantissa exponent * 2 ^ exponent * measure := by
      rw [← bounds]
      rfl
    have highest_eq : (high : ℚ) = (4 * mantissa + 2) * 2 ^ exponent * measure := by
      rw [show (4 * mantissa + 2 : ℚ) = (4 * mantissa + 2 : Nat) by push_cast; rfl, ← bounds]
    have point_eq : ((point * grid : Nat) : ℚ) = 4 * (point * 10 ^ place) * measure := points point
    have least : low ≤ point * grid →
        lowest mantissa exponent * 2 ^ exponent ≤ 4 * ((point : ℚ) * 10 ^ place) := by
      intro le
      rwa [← Nat.cast_le (α := ℚ), lowest_eq, point_eq, mul_le_mul_iff_left₀ positive] at le
    have most : point * grid ≤ high → 4 * ((point : ℚ) * 10 ^ place) ≤ (4 * mantissa + 2) * 2 ^ exponent := by
      intro le
      rwa [← Nat.cast_le (α := ℚ), highest_eq, point_eq, mul_le_mul_iff_left₀ positive] at le
    have above : low < point * grid →
        lowest mantissa exponent * 2 ^ exponent < 4 * ((point : ℚ) * 10 ^ place) := by
      intro lt
      rwa [← Nat.cast_lt (α := ℚ), lowest_eq, point_eq, mul_lt_mul_iff_left₀ positive] at lt
    have under : point * grid < high →
        4 * ((point : ℚ) * 10 ^ place) < (4 * mantissa + 2) * 2 ^ exponent := by
      intro lt
      rwa [← Nat.cast_lt (α := ℚ), highest_eq, point_eq, mul_lt_mul_iff_left₀ positive] at lt
    simp only [readsBack] at reads
    split_ifs at reads with even
    · simp only [Bool.and_eq_true, decide_eq_true_eq] at reads
      exact ⟨least reads.1, most reads.2, fun odd => absurd odd (by omega)⟩
    · simp only [Bool.and_eq_true, decide_eq_true_eq] at reads
      exact ⟨(above reads.1).le, (under reads.2).le, fun _ => ⟨above reads.1, under reads.2⟩⟩
  have given : ∀ point, readsBack (point * grid) → some (point, place) = some (digits, power) →
      Rounds mantissa exponent (digits * 10 ^ power) := by
    intro point read same
    obtain ⟨isPoint, isPlace⟩ := Prod.mk.inj (Option.some.inj same)
    rw [← isPoint, ← isPlace]
    exact reads point read
  split at found
  · rename_i first second
    split_ifs at found
    · exact given _ first found
    · exact given _ second found
  · exact given _ ‹_› found
  · exact given _ ‹_› found
  · cases found

/-- With seventeen digits, a decimal is found for every magnitude. -/
theorem decimalOfSize?_seventeen (kept : Kept mantissa exponent) (nonzero : mantissa ≠ 0) :
    (decimalOfSize? mantissa exponent 17).isSome := by
  unfold decimalOfSize?
  extract_lets place grid scale value low high readsBack below fromBelow fromAbove
  obtain ⟨measure, positive, bounds, points⟩ := exists_measure exponent place
  have fine : 10 ^ 16 * grid ≤ 4 * mantissa * scale := by
    have spaced : ((1 * grid : Nat) : ℚ) = 4 * ((1 : Nat) * 10 ^ place) * measure := points 1
    have magnitude : ((4 * mantissa * scale : Nat) : ℚ) = (4 * mantissa : Nat) * 2 ^ exponent * measure :=
      bounds _
    have lead : (10 : ℚ) ^ decimalLead mantissa exponent = 10 ^ 16 * 10 ^ place := by
      have parts : decimalLead mantissa exponent = 16 + place := by
        simp only [place]
        push_cast
        ring
      rw [parts, zpow_add₀ (by norm_num)]
      norm_num
    have reached := decimalLead_le kept nonzero
    rw [lead] at reached
    rw [Nat.one_mul] at spaced
    rw [← Nat.cast_le (α := ℚ), magnitude, Nat.cast_mul, spaced]
    push_cast
    nlinarith
  have bottom : low = lowest mantissa exponent * scale := rfl
  have top : high = (4 * mantissa + 2) * scale := rfl
  have middle : value = 4 * mantissa * scale := rfl
  have scale_pos : 0 < scale := Nat.mul_pos (Nat.two_pow_pos _) (tenTo_pos _)
  have grid_pos : 0 < grid := Nat.mul_pos (tenTo_pos _) (Nat.two_pow_pos _)
  have before : below * grid ≤ value := Nat.div_mul_le_self ..
  have behind : value < (below + 1) * grid := by
    rw [Nat.mul_comm]
    exact Nat.lt_mul_div_succ value grid_pos
  clear_value grid scale low high value below
  have within : low ≤ value ∧ value < high := by
    rw [bottom, top, middle]
    exact ⟨Nat.mul_le_mul_right _ (lowest_le ..), Nat.mul_lt_mul_of_pos_right (by omega) scale_pos⟩
  cases first : readsBack (below * grid) with
  | true =>
    cases readsBack ((below + 1) * grid) with
    | true =>
      dsimp only
      split_ifs <;> rfl
    | false => rfl
  | false =>
    cases second : readsBack ((below + 1) * grid) with
    | true => simp
    | false =>
      -- Both neighbours on the grid lie outside, so that they are further apart than the two ends.
      have wide : high ≤ low + grid := by
        simp only [readsBack] at first second
        rw [Nat.add_mul] at second behind
        split_ifs at first second
        all_goals
          simp only [Bool.and_eq_false_iff, decide_eq_false_iff_not] at first second
          omega
      have apart : (4 * mantissa + 2 - lowest mantissa exponent) * 10 ^ 16 ≤ 4 * mantissa := by
        refine Nat.le_of_mul_le_mul_right ?_ scale_pos
        calc (4 * mantissa + 2 - lowest mantissa exponent) * 10 ^ 16 * scale
            = 10 ^ 16 * (high - low) := by rw [top, bottom, ← Nat.sub_mul]; ring
          _ ≤ 10 ^ 16 * grid := Nat.mul_le_mul_left _ (by omega)
          _ ≤ 4 * mantissa * scale := fine
      have limited : mantissa < 2 ^ 53 := kept.limited
      unfold lowest at apart
      split_ifs at apart with least
      · have first : mantissa = 2 ^ 52 := least.1
        omega
      · omega

/-- The shortest decimal of a magnitude is rounded to it. -/
theorem rounds_shortestDecimal (kept : Kept mantissa exponent) (nonzero : mantissa ≠ 0) :
    Rounds mantissa exponent
      ((shortestDecimal mantissa exponent).1 * 10 ^ (shortestDecimal mantissa exponent).2) := by
  unfold shortestDecimal
  cases found : (List.range 17).findSome? fun n => decimalOfSize? mantissa exponent (n + 1) with
  | some decimal =>
    obtain ⟨n, _, isDecimal⟩ := List.exists_of_findSome?_eq_some found
    exact rounds_of_decimalOfSize? isDecimal
  | none =>
    have none := List.findSome?_eq_none_iff.mp found 16 (by simp)
    have some := decimalOfSize?_seventeen kept nonzero
    rw [none] at some
    cases some

end Magnitudes

/-- Zeros behind a decimal do not change it. -/
theorem trimZeros_eq (fuel : Nat) (decimal : Nat × Int) :
    ((trimZeros fuel decimal).1 : ℚ) * 10 ^ (trimZeros fuel decimal).2 = decimal.1 * 10 ^ decimal.2 := by
  induction fuel generalizing decimal with
  | zero => rfl
  | succ fuel ih =>
    obtain ⟨digits, power⟩ := decimal
    unfold trimZeros
    split_ifs with zeros
    · have whole : (digits : ℚ) = (digits / 10 : Nat) * 10 := by
        exact_mod_cast (Nat.div_mul_cancel (Nat.dvd_of_mod_eq_zero zeros.1)).symm
      rw [ih, whole, zpow_add₀ (by norm_num), zpow_one]
      ring
    · rfl

end Binary64

/-- The number that a decimal denotes exactly: a sign, and digits before and behind the point. -/
def decimalWorth (minus : Bool) (whole fraction : List Char) : ℚ :=
  Binary64.signed minus (Nat.ofDigitChars 10 (whole ++ fraction) 0) / 10 ^ fraction.length

namespace Binary64

section Texts

variable {mantissa : Nat} {exponent : Int} {whole fraction : List Char}

/-- A value that is rounded to a magnitude that is not whole has the whole part of the magnitude. -/
theorem Rounds.whole_part {value : ℚ} (rounds : Rounds mantissa exponent value)
    (broken : numerator mantissa exponent % denominator exponent ≠ 0) :
    (numerator mantissa exponent / denominator exponent : Nat) < value ∧
      value < (numerator mantissa exponent / denominator exponent : Nat) + 1 := by
  have positive : 0 < denominator exponent := Nat.two_pow_pos _
  have below : exponent.toNat = 0 := by
    by_contra above
    have unit : denominator exponent = 1 := by
      rw [denominator, show (-exponent).toNat = 0 by omega]
      rfl
    rw [unit, Nat.mod_one] at broken
    exact broken rfl
  have plain : numerator mantissa exponent = mantissa := by
    rw [numerator, below]
    exact Nat.mul_one _
  have unit : (2 : ℚ) ^ exponent = 1 / denominator exponent := by
    rw [two_zpow, below, denominator]
    norm_num [twoTo]
  have positiveQ : (0 : ℚ) < denominator exponent := Nat.cast_pos.mpr positive
  have low : (4 * mantissa - 2 : ℚ) / denominator exponent ≤ 4 * value := by
    refine le_trans ?_ rounds.low
    rw [unit, mul_one_div]
    gcongr
    exact le_lowest mantissa exponent
  have high : 4 * value ≤ (4 * mantissa + 2 : ℚ) / denominator exponent := by
    rw [← mul_one_div, ← unit]
    exact rounds.high
  rw [plain] at broken ⊢
  have split : (denominator exponent : ℚ) * (mantissa / denominator exponent : Nat) +
      (mantissa % denominator exponent : Nat) = mantissa := by
    exact_mod_cast Nat.div_add_mod mantissa (denominator exponent)
  have some : (1 : ℚ) ≤ (mantissa % denominator exponent : Nat) := by exact_mod_cast Nat.pos_of_ne_zero broken
  have less : ((mantissa % denominator exponent : Nat) : ℚ) + 1 ≤ denominator exponent := by
    exact_mod_cast Nat.mod_lt mantissa positive
  rw [div_le_iff₀ positiveQ] at low
  rw [le_div_iff₀ positiveQ] at high
  constructor
  · refine lt_of_mul_lt_mul_right ?_ positiveQ.le
    linarith
  · refine lt_of_mul_lt_mul_right ?_ positiveQ.le
    linarith

/-- A text of digits with a point among them has them only at one place, and no letter. -/
theorem layout_unique {digits : Nat} {power : Int} (wholeDigits : AreDigits whole)
    (fractionDigits : AreDigits fraction) (shape : (layout digits power).toList = whole ++ '.' :: fraction) :
    0 ≤ power + fraction.length ∧
      ofDigits ((whole ++ fraction).map (·.toNat - 48)) = digits * tenTo (power + fraction.length).toNat := by
  have plain : ∀ {text : List Char} {c : Char}, AreDigits text → c.isDigit = false → c ∉ text := by
    intro text c areDigits foreign among
    rw [areDigits.2 c among] at foreign
    cases foreign
  rcases layout_form digits power with ⟨before, behind, shown, areDigits, _, areBehind, meant⟩ | ⟨letter, _⟩
  · have point : ('.' : Char).isDigit = false := by decide
    obtain ⟨rfl, _, rfl⟩ :=
      (List.append_cons_inj_of_notMem (plain areDigits point) (plain areBehind point)).mp
        (shown.symm.trans shape)
    exact meant
  · rw [shape] at letter
    rcases List.mem_append.mp letter with among | later
    · exact absurd among (plain wholeDigits (by decide))
    · rcases List.mem_cons.mp later with same | among
      · cases same
      · exact absurd among (plain fractionDigits (by decide))

/-- The text of a number that is not whole, if it has no exponent: it is read as the number, and denotes
exactly what is rounded to it. -/
theorem text_decimal {negative minus : Bool} (kept : Kept mantissa exponent) (nonzero : mantissa ≠ 0)
    (wholeDigits : AreDigits whole) (fractionDigits : AreDigits fraction)
    (shown : (finite negative mantissa exponent).text =
    signText minus ++ String.ofList (whole ++ '.' :: fraction)) :
    readDecimal (finite negative mantissa exponent).text = .ok (finite negative mantissa exponent) ∧
      minus = negative ∧ Rounds mantissa exponent (decimalWorth false whole fraction) := by
  have rounds := rounds_shortestDecimal kept nonzero
  rw [← trimZeros_eq 17] at rounds
  have laidOut := text_eq negative nonzero exponent
  generalize (trimZeros 17 (shortestDecimal mantissa exponent)).1 = digits at *
  generalize (trimZeros 17 (shortestDecimal mantissa exponent)).2 = power at *
  have form : IsNumeralText (String.ofList (whole ++ '.' :: fraction)).toList :=
    ⟨whole, '.' :: fraction, [], by simp, wholeDigits, .inr ⟨fraction, rfl, fractionDigits⟩, .inl rfl⟩
  obtain ⟨rfl, laid⟩ := signed_inj form (isNumeralText_layout digits power) (shown.symm.trans laidOut)
  obtain ⟨positive, meant⟩ :=
    @layout_unique _ _ digits power wholeDigits fractionDigits (by rw [← laid, String.toList_ofList])
  have worth : (ofDigits ((whole ++ fraction).map (·.toNat - 48)) : ℚ) * 10 ^ (0 - (fraction.length : Int)) =
      digits * 10 ^ power := by
    have whole : (10 : ℚ) ^ power = 10 ^ (power + fraction.length) * 10 ^ (0 - (fraction.length : Int)) := by
      rw [← zpow_add₀ (by norm_num)]
      congr 1
      ring
    have natural : (10 : ℚ) ^ (power + fraction.length) = tenTo (power + fraction.length).toNat := by
      rw [ten_zpow, show (-(power + fraction.length : Int)).toNat = 0 by omega]
      norm_num [tenTo]
    rw [meant, whole, natural]
    push_cast
    ring
  refine ⟨?_, rfl, ?_⟩
  · rw [shown, readDecimal_decimal minus (by simp) wholeDigits fractionDigits,
      ofDecimal_of_rounds kept nonzero (worth ▸ rounds)]
  · have exact_ : decimalWorth false whole fraction = digits * 10 ^ power := by
      rw [← worth, decimalWorth, ofDigits_values, zero_sub, zpow_neg, zpow_natCast]
      rfl
    rwa [exact_]

end Texts

end Binary64

end BlockCompiler
