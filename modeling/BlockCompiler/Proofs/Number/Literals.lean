import BlockCompiler.Json.Basic
import BlockCompiler.Proofs.Number.Digits
import BlockCompiler.Text.Form
import Mathlib.Tactic.Ring

/-!
Literal numbers: reading them back, and the form of those that are written for binary64 numbers.
-/

namespace BlockCompiler

/-- The whole part of the number that a numeral denotes. -/
def wholePart? (numeral : String) : Option Int :=
  if isWholeNumeral numeral then (readWhole numeral).toOption
  else (readDecimal numeral).toOption.bind Binary64.truncate?

theorem tenTo_succ (n : Nat) : tenTo (n + 1) = 10 * tenTo n := (Nat.pow_succ ..).trans (Nat.mul_comm ..)

theorem tenTo_pos (n : Nat) : 0 < tenTo n := Nat.pow_pos (by decide)

theorem tenTo_mono {m n : Nat} (le : m ≤ n) : tenTo m ≤ tenTo n := by
  have positive : 0 < 10 := by decide
  exact Nat.pow_le_pow_right positive le

theorem tenTo_lt {m n : Nat} (lt : m < n) : tenTo m < tenTo n := by
  have positive : 1 < 10 := by decide
  exact Nat.pow_lt_pow_right positive lt

/-- The literals that are numerals without an exponent: whole ones, of fewer digits if that is asked for,
and decimals with at most sixteen digits before their point. -/
inductive PlainNumeral (tight : Prop) : String → Prop where
  | whole (n : Nat) (short : n < tenTo digitLimit) (shorter : tight → n < tenTo (digitLimit - 1)) :
    PlainNumeral tight (toString n)
  | decimal {text : String} (whole fraction : List Char) (shape : text.toList = whole ++ '.' :: fraction)
    (wholeDigits : AreDigits whole) (short : whole.length ≤ 16) (fractionDigits : AreDigits fraction) :
    PlainNumeral tight text

theorem signText_toList (minus : Bool) : (signText minus).toList = if minus then ['-'] else [] := by
  cases minus <;> rfl

theorem AreDigits.head {digits : List Char} (areDigits : AreDigits digits) :
    ∃ c ∈ digits.head?, c.isDigit := by
  cases digits with
  | nil => exact absurd rfl areDigits.1
  | cons c rest => exact ⟨c, rfl, areDigits.2 c (by simp)⟩

theorem AreDigits.last {digits : List Char} (areDigits : AreDigits digits) :
    ∃ c ∈ digits.getLast?, c.isDigit := by
  have last := List.getLast?_eq_some_getLast areDigits.1
  exact ⟨_, last, areDigits.2 _ (List.getLast_mem areDigits.1)⟩

section Signed

variable {minus : Bool} {text : String} {first : Char}

/-- Neither blanks nor signs are at the ends of a literal behind its sign. -/
theorem trimEnds_signed {out : Char → Bool}
    (printed : ∀ c : Char, 33 ≤ c.toNat → c.toNat ≤ 126 → out c = false)
    (headed : first ∈ text.toList.head?) (digit : first.isDigit)
    (last : ∃ c ∈ text.toList.getLast?, c.isDigit) :
    trimEnds out (signText minus ++ text).toList = (signText minus).toList ++ text.toList := by
  have printed_digit : ∀ c : Char, c.isDigit → out c = false := by
    intro c isDigit
    obtain ⟨low, high⟩ := toNat_of_isDigit isDigit
    exact printed c (by omega) (by omega)
  obtain ⟨c, ends, lastDigit⟩ := last
  rw [String.toList_append]
  apply trimEnds_of_ends
  · intro d found
    rw [signText_toList] at found
    cases minus with
    | true =>
      obtain rfl : '-' = d := by simpa using found
      exact printed '-' (by decide) (by decide)
    | false =>
      obtain rfl : first = d := Option.some.inj (headed.symm.trans (by simpa using found))
      exact printed_digit first digit
  · intro d found
    have same : (text.toList.getLast?).or (signText minus).toList.getLast? = some d := by
      rwa [List.getLast?_append] at found
    rw [ends, Option.some_or] at same
    exact Option.some.inj same ▸ printed_digit c lastDigit

theorem takeSign_signed (headed : first ∈ text.toList.head?) (digit : first.isDigit) :
    takeSign ((signText minus).toList ++ text.toList) = (minus, text.toList) := by
  rw [signText_toList]
  cases minus with
  | true => rfl
  | false =>
    cases shape : text.toList with
    | nil => simp [shape] at headed
    | cons c rest =>
      obtain rfl : c = first := by simpa [shape] using headed
      have noMinus : c ≠ '-' := by
        rintro rfl
        exact absurd digit (by decide)
      have noPlus : c ≠ '+' := by
        rintro rfl
        exact absurd digit (by decide)
      show takeSign (c :: rest) = _
      unfold takeSign
      split
      · exact absurd (List.cons.inj ‹_›).1 noMinus
      · exact absurd (List.cons.inj ‹_›).1 noPlus
      · rfl

theorem numeralBody_signed (headed : first ∈ text.toList.head?) (digit : first.isDigit)
    (last : ∃ c ∈ text.toList.getLast?, c.isDigit) : numeralBody (signText minus ++ text) = text.toList := by
  rw [numeralBody, trimEnds_signed (fun c => not_isBlank_of_range) headed digit last, signText_toList]
  cases minus with
  | true => rfl
  | false =>
    cases shape : text.toList with
    | nil => simp [shape] at headed
    | cons c rest =>
      obtain rfl : c = first := by simpa [shape] using headed
      split
      · rename_i same
        cases same
        cases digit
      · rfl

end Signed

theorem isDigits_of_areDigits {digits : List Char} (areDigits : AreDigits digits) : isDigits digits := by
  have all : ∀ c ∈ digits, isDigit c = true := fun c among => isDigit_of_isDigit (areDigits.2 c among)
  simp only [isDigits, Bool.and_eq_true, List.all_eq_true]
  exact ⟨by simpa using areDigits.1, all⟩

/-- A whole literal reads back as its number. -/
theorem readWhole_literal (minus : Bool) {n : Nat} (short : n < tenTo digitLimit) :
    readWhole (signText minus ++ toString n) = .ok (Binary64.signed minus n) := by
  have areDigits := areDigits_toString n
  obtain ⟨first, headed, digit⟩ := areDigits.head
  have taken := takeDigits_digits [] areDigits.2 (by simp)
  have limited : 0 < digitLimit := by decide
  have length := (length_toString_le limited).mpr short
  have filled : ((toString n).toList.map (·.toNat - 48)).isEmpty = false := by simp
  rw [List.append_nil] at taken
  unfold readWhole
  rw [trimEnds_signed (fun c => not_isNumeralBlank_of_range) headed digit areDigits.last,
    takeSign_signed headed digit]
  simp only [taken, filled, ofDigits_toString, List.length_map]
  rw [if_neg (by simp), if_neg (by omega)]
  rfl

/-- Digits are a whole numeral, whatever its sign. -/
theorem isWholeNumeral_digits (minus : Bool) {text : String} (areDigits : AreDigits text.toList) :
    isWholeNumeral (signText minus ++ text) := by
  obtain ⟨first, headed, digit⟩ := areDigits.head
  rw [isWholeNumeral, numeralBody_signed headed digit areDigits.last]
  exact isDigits_of_areDigits areDigits

theorem isWholeNumeral_literal (minus : Bool) (n : Nat) : isWholeNumeral (signText minus ++ toString n) :=
  isWholeNumeral_digits minus (areDigits_toString n)

theorem isNumeral_of_isWholeNumeral {text : String} (whole : isWholeNumeral text) : isNumeral text := by
  unfold isWholeNumeral at whole
  unfold isNumeral
  extract_lets body digits
  have all : ∀ c ∈ body, isDigit c := by
    simp only [isDigits, Bool.and_eq_true, List.all_eq_true] at whole
    exact whole.2
  have same : digits = body := List.takeWhile_eq_self_iff.mpr all
  rw [same, List.drop_length, whole]
  rfl

namespace Binary64

theorem natAbs_signed (negative : Bool) (magnitude : Nat) :
    (signed negative magnitude).natAbs = magnitude := by
  cases negative <;> simp [signed]

/-- A quotient is rounded without regard to its sign. -/
theorem ofQuotient_signed {num den mantissa : Nat} {exponent : Int}
    (finite : ofQuotient false num den = .finite false mantissa exponent) (negative : Bool) :
    ofQuotient negative num den = .finite negative mantissa exponent := by
  obtain ⟨rounded, shape⟩ : ∃ rounded : Nat × Int, ∀ negative, ofQuotient negative num den =
      if 971 < rounded.2 then .infinite negative else .finite negative rounded.1 rounded.2 :=
        ⟨_, fun _ => rfl⟩
  rw [shape] at finite ⊢
  split_ifs at finite ⊢
  cases finite
  rfl

/-- A quotient that is far from the largest binary64 number is finite, and its whole part is no larger by
much. -/
theorem ofQuotient_small {num den : Nat} (positive : num ≠ 0) (small : num < tenTo 16 * den) :
    ∃ mantissa exponent, ofQuotient false num den = .finite false mantissa exponent ∧
      numerator mantissa exponent / denominator exponent < tenTo 17 := by
  have lead : (num.log2 : Int) - den.log2 ≤ 54 := by
    have upper : den < 2 ^ (den.log2 + 1) := Nat.lt_log2_self
    have total : num < 2 ^ (den.log2 + 55) := by
      calc num < tenTo 16 * den := small
        _ ≤ 2 ^ 54 * 2 ^ (den.log2 + 1) := Nat.mul_le_mul (by decide) upper.le
        _ = 2 ^ (den.log2 + 55) := by rw [← Nat.pow_add]; congr 1; omega
    have := (Nat.log2_lt positive).mpr total
    omega
  unfold ofQuotient
  extract_lets first top exponent rounded
  have firstBound : first ≤ 54 := lead
  clear_value first
  have topBound : top ≤ 54 := by
    simp only [top]
    split <;> omega
  have exponentBound : exponent ≤ 2 := by omega
  have roundedBound : rounded ≤ tenTo 16 * twoTo (-exponent).toNat := by
    have quotient : num * twoTo (-exponent).toNat / (den * twoTo exponent.toNat) <
        tenTo 16 * twoTo (-exponent).toNat := by
      have powers : 0 < twoTo (-exponent).toNat ∧ 0 < twoTo exponent.toNat :=
        ⟨Nat.two_pow_pos _, Nat.two_pow_pos _⟩
      apply Nat.div_lt_of_lt_mul
      calc num * twoTo (-exponent).toNat < tenTo 16 * den * twoTo (-exponent).toNat :=
            Nat.mul_lt_mul_of_pos_right small powers.1
        _ = den * 1 * (tenTo 16 * twoTo (-exponent).toNat) := by ring
        _ ≤ den * twoTo exponent.toNat * (tenTo 16 * twoTo (-exponent).toNat) :=
            Nat.mul_le_mul_right _ (Nat.mul_le_mul_left _ powers.2)
    have atMost : ∀ p q, roundHalfEven p q ≤ p / q + 1 := by
      intro p q
      simp only [roundHalfEven]
      split <;> omega
    have := atMost (num * twoTo (-exponent).toNat) (den * twoTo exponent.toNat)
    omega
  by_cases full : rounded = twoTo 53
  · have finite : ¬ 971 < exponent + 1 := by omega
    simp only [if_pos full, if_neg finite]
    refine ⟨_, _, rfl, ?_⟩
    have power : twoTo (exponent + 1).toNat ≤ twoTo 3 := Nat.pow_le_pow_right (by decide) (by omega)
    calc numerator (twoTo 52) (exponent + 1) / denominator (exponent + 1)
        ≤ twoTo 52 * twoTo (exponent + 1).toNat := Nat.div_le_self _ _
      _ ≤ twoTo 52 * twoTo 3 := Nat.mul_le_mul_left _ power
      _ < tenTo 17 := by decide
  · have finite : ¬ 971 < exponent := by omega
    simp only [if_neg full, if_neg finite]
    refine ⟨_, _, rfl, ?_⟩
    have power : twoTo exponent.toNat ≤ twoTo 2 := Nat.pow_le_pow_right (by decide) (by omega)
    have whole : numerator rounded exponent / denominator exponent ≤ tenTo 16 * twoTo 2 := by
      apply Nat.div_le_of_le_mul
      calc rounded * twoTo exponent.toNat ≤ tenTo 16 * twoTo (-exponent).toNat * twoTo 2 :=
            Nat.mul_le_mul roundedBound power
        _ = denominator exponent * (tenTo 16 * twoTo 2) := by rw [denominator]; ring
    exact Nat.lt_of_le_of_lt whole (by decide)

/-- A decimal that is far from the largest binary64 number is finite whatever its sign. -/
theorem ofDecimal_small {digits places : Nat} (small : digits < tenTo 16 * tenTo places) :
    ∃ mantissa exponent,
      (∀ negative, ofDecimal negative digits (0 - places) = .finite negative mantissa exponent) ∧
      numerator mantissa exponent / denominator exponent < tenTo 17 := by
  have zero : numerator 0 (-1074) / denominator (-1074) < tenTo 17 := by
    rw [numerator, Nat.zero_mul, Nat.zero_div]
    decide
  simp only [ofDecimal]
  split_ifs with none large tiny
  · exact ⟨0, -1074, fun _ => rfl, zero⟩
  · omega
  · exact ⟨0, -1074, fun _ => rfl, zero⟩
  · have noPower : (0 - (places : Int)).toNat = 0 := by omega
    have power : (-(0 - (places : Int))).toNat = places := by omega
    rw [noPower, power]
    obtain ⟨mantissa, exponent, finite, bounded⟩ := @ofQuotient_small (digits * tenTo 0) (tenTo places)
      (Nat.mul_ne_zero none (by decide)) (by simpa [tenTo] using small)
    exact ⟨mantissa, exponent, ofQuotient_signed finite, bounded⟩

end Binary64

theorem toLower_of_isDigit {c : Char} (digit : c.isDigit) : c.toLower = c := by
  obtain ⟨_, high⟩ := toNat_of_isDigit digit
  have small : ¬ (c.val ≥ 'A'.val ∧ c.val ≤ 'Z'.val) := by
    rintro ⟨upper, _⟩
    have letter : 65 ≤ c.toNat := UInt32.le_iff_toNat_le.mp upper
    omega
  exact dif_neg small

/-- No word that stands for a number starts with a digit. -/
theorem ne_word_of_digit {body : List Char} {first : Char} (headed : first ∈ body.head?)
    (digit : first.isDigit) {word : String} (foreign : ∀ c ∈ word.toList.head?, c.isDigit = false) :
    String.ofList (body.map Char.toLower) ≠ word := by
  rintro rfl
  rw [String.toList_ofList, List.head?_map, headed] at foreign
  have noDigit := foreign _ rfl
  rw [toLower_of_isDigit digit, digit] at noDigit
  cases noDigit

/-- A decimal literal is read as the number nearest to its digits, of the sign before it. -/
theorem readDecimal_decimal (minus : Bool) {text : String} {whole fraction : List Char}
    (shape : text.toList = whole ++ '.' :: fraction) (wholeDigits : AreDigits whole)
    (fractionDigits : AreDigits fraction) :
    readDecimal (signText minus ++ text) =
      .ok (.ofDecimal minus (ofDigits ((whole ++ fraction).map (·.toNat - 48))) (0 - fraction.length)) := by
  obtain ⟨first, inWhole, digit⟩ := wholeDigits.head
  have headed : first ∈ text.toList.head? := by
    rw [shape, List.head?_append, inWhole, Option.some_or]
    rfl
  have last : ∃ c ∈ text.toList.getLast?, c.isDigit := by
    obtain ⟨c, ends, lastDigit⟩ := fractionDigits.last
    refine ⟨c, ?_, lastDigit⟩
    rw [shape, List.getLast?_append, List.getLast?_cons, ends]
    rfl
  have taken := takeDigits_digits ('.' :: fraction) wholeDigits.2 (by rintro c headed; cases headed; decide)
  have takenFraction := takeDigits_digits [] fractionDigits.2 (by simp)
  rw [List.append_nil] at takenFraction
  have magnitude : readMagnitude? minus text.toList =
      some (.ofDecimal minus (ofDigits ((whole ++ fraction).map (·.toNat - 48))) (0 - fraction.length)) := by
    rw [shape, List.map_append]
    simp only [readMagnitude?, taken, takenFraction, readExponent?, List.length_map]
    simp [wholeDigits.1]
  unfold readDecimal
  rw [trimEnds_signed (fun c => not_isNumeralBlank_of_range) headed digit last, takeSign_signed headed digit]
  simp only [magnitude]
  rw [if_neg, if_neg]
  · exact ne_word_of_digit headed digit (by simp)
  · rintro (same | same)
    · exact ne_word_of_digit headed digit (by simp) same
    · exact ne_word_of_digit headed digit (by simp) same

/-- A decimal literal with few digits before its point reads back as a finite number, of the sign before
it. -/
theorem readDecimal_literal {text : String} {whole fraction : List Char}
    (shape : text.toList = whole ++ '.' :: fraction) (wholeDigits : AreDigits whole)
    (short : whole.length ≤ 16) (fractionDigits : AreDigits fraction) :
    ∃ mantissa exponent,
      (∀ minus, readDecimal (signText minus ++ text) = .ok (.finite minus mantissa exponent)) ∧
      Binary64.numerator mantissa exponent / Binary64.denominator exponent < tenTo 17 := by
  have digits : ofDigits ((whole ++ fraction).map (·.toNat - 48)) < tenTo 16 * tenTo fraction.length := by
    have all : ∀ c ∈ whole ++ fraction, c.isDigit := by
      intro c among
      exact (List.mem_append.mp among).elim (wholeDigits.2 c) (fractionDigits.2 c)
    calc ofDigits ((whole ++ fraction).map (·.toNat - 48)) < tenTo (whole ++ fraction).length :=
      ofDigits_lt all
      _ ≤ tenTo (16 + fraction.length) := Nat.pow_le_pow_right (by decide) (by rw [List.length_append]; omega)
      _ = tenTo 16 * tenTo fraction.length := Nat.pow_add ..
  obtain ⟨mantissa, exponent, finite, small⟩ := Binary64.ofDecimal_small digits
  refine ⟨mantissa, exponent, fun minus => ?_, small⟩
  rw [readDecimal_decimal minus shape wholeDigits fractionDigits, finite minus]

section Decimals

variable {text : String} {whole fraction : List Char}

theorem numeralBody_decimal (minus : Bool) (shape : text.toList = whole ++ '.' :: fraction)
    (wholeDigits : AreDigits whole) (fractionDigits : AreDigits fraction) :
    numeralBody (signText minus ++ text) = whole ++ '.' :: fraction := by
  obtain ⟨first, inWhole, digit⟩ := wholeDigits.head
  obtain ⟨last, ends, lastDigit⟩ := fractionDigits.last
  have headed : first ∈ text.toList.head? := by
    rw [shape, List.head?_append, inWhole, Option.some_or]
    rfl
  have ended : last ∈ text.toList.getLast? := by
    rw [shape, List.getLast?_append, List.getLast?_cons, ends]
    rfl
  rw [numeralBody_signed headed digit ⟨last, ended, lastDigit⟩, shape]

/-- A decimal literal is no whole one, whatever its sign. -/
theorem not_isWholeNumeral_decimal (minus : Bool) (shape : text.toList = whole ++ '.' :: fraction)
    (wholeDigits : AreDigits whole) (fractionDigits : AreDigits fraction) :
    isWholeNumeral (signText minus ++ text) = false := by
  rw [isWholeNumeral, numeralBody_decimal minus shape wholeDigits fractionDigits, isDigits]
  have point : isDigit '.' = false := by decide
  simp [point]

/-- A decimal literal is a numeral, whatever its sign. -/
theorem isNumeral_decimal (minus : Bool) (shape : text.toList = whole ++ '.' :: fraction)
    (wholeDigits : AreDigits whole) (fractionDigits : AreDigits fraction) :
    isNumeral (signText minus ++ text) := by
  have point : isDigit '.' = false := by decide
  have taken : (whole ++ '.' :: fraction).takeWhile isDigit = whole := by
    rw [List.takeWhile_append_of_pos fun c among => isDigit_of_isDigit (wholeDigits.2 c among),
      List.takeWhile_cons_of_neg (by simp [point]), List.append_nil]
  simp only [isNumeral, numeralBody_decimal minus shape wholeDigits fractionDigits, taken, List.drop_left,
    isDigits_of_areDigits wholeDigits, isDigits_of_areDigits fractionDigits, Bool.and_self]

end Decimals

/-- A plain literal has a whole part, with the sign of the literal. -/
theorem PlainNumeral.wholePart? {tight : Prop} {text : String} (plain : PlainNumeral tight text)
    (minus : Bool) :
    ∃ n, wholePart? (signText minus ++ text) = some (Binary64.signed minus n) ∧ n < tenTo digitLimit ∧
      (tight → n < tenTo (digitLimit - 1)) := by
  cases plain with
  | whole n short shorter =>
    refine ⟨n, ?_, short, shorter⟩
    rw [BlockCompiler.wholePart?, if_pos (isWholeNumeral_literal minus n), readWhole_literal minus short]
    rfl
  | decimal whole fraction shape wholeDigits short fractionDigits =>
    obtain ⟨mantissa, exponent, read, small⟩ := readDecimal_literal shape wholeDigits short fractionDigits
    have notWhole := not_isWholeNumeral_decimal minus shape wholeDigits fractionDigits
    have limit : tenTo 17 ≤ tenTo (digitLimit - 1) := tenTo_mono (by decide)
    have limits : tenTo (digitLimit - 1) ≤ tenTo digitLimit := tenTo_mono (Nat.sub_le _ _)
    have bounded := Nat.lt_of_lt_of_le small limit
    refine ⟨Binary64.numerator mantissa exponent / Binary64.denominator exponent, ?_,
      Nat.lt_of_lt_of_le bounded limits,
      fun _ => bounded⟩
    rw [BlockCompiler.wholePart?, if_neg (by simp [notWhole]), read minus]
    rfl

end BlockCompiler
