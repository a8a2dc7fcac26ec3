import BlockCompiler.Proofs.Emission.Forms

/-!
The codes of literal numbers.
-/

namespace BlockCompiler

theorem toString_int (value : Int) : toString value = signText (value < 0) ++ toString value.natAbs := by
  cases value with
  | ofNat n =>
    have unsigned : decide (Int.ofNat n < 0) = false := by simp
    rw [unsigned, signText, if_neg (by simp), String.empty_append]
    rfl
  | negSucc n =>
    have signed : decide (Int.negSucc n < 0) = true := by simp [Int.negSucc_lt_zero]
    rw [signed]
    rfl

theorem literal?_signed (minus : Bool) (text : String) :
    (Expr.signed minus (.numeral text)).literal? = some (minus, text) := by
  cases minus <;> rfl

/-- The order of a literal number. -/
def literalOrder (minus : Bool) : Order := if minus then .unaryPrefix else .atomic

/-- A literal number fits wherever a sign does. -/
theorem literalOrder_fits {order : Order} (loose : order.needsParens .unaryPrefix = false) (minus : Bool) :
    order.needsParens (literalOrder minus) = false := by
  cases minus with
  | true => exact loose
  | false => exact fits_atomic order

section Signed

variable {tight : Prop} {minus : Bool} {text : String}

theorem negated_of_digit (form : IsNumeralText text.toList) : Template.negated text = "-" ++ text := by
  obtain ⟨c, rest, shape, digit⟩ := digit_of_isNumeralText form
  unfold Template.negated
  rw [if_neg]
  rw [shape]
  rintro same
  cases same
  cases digit

theorem Writes.signed (minus : Bool) (form : IsNumeralText text.toList) :
    Writes (signText minus ++ text) (literalOrder minus) (.signed minus (.numeral text)) := by
  cases minus with
  | false => simpa [signText, literalOrder, Expr.signed] using Writes.numeral form
  | true =>
    have negative := (Writes.numeral form).negative (by decide)
    rw [negated_of_digit form] at negative
    exact negative

theorem literally_signed (plain : isNumeral (signText minus ++ text) → PlainNumeral tight text) :
    Literally tight (signText minus ++ text) (.signed minus (.numeral text)) :=
  fun numeral => ⟨minus, text, literal?_signed minus text, rfl, plain numeral⟩

theorem exact_signed (form : IsNumeralText text.toList) :
    Exact (signText minus ++ text) (literalOrder minus) (.signed minus (.numeral text)) := by
  intro other found literal
  obtain ⟨rfl, rfl⟩ := Prod.mk.inj (Option.some.inj ((literal?_signed minus text).symm.trans literal))
  obtain ⟨c, rest, shape, digit⟩ := digit_of_isNumeralText form
  refine ⟨rfl, ?_, c, by simp [shape], digit⟩
  cases minus <;> rfl

end Signed

/-- A code of a literal expression, which may be a numeral. -/
structure IsLiteral (tight : Prop) (code : String) (order : Order) (e : Expr) : Prop where
  writes : Writes code order e
  literally : Literally tight code e
  exact : Exact code order e

theorem writes_int (value : Int) : Writes (toString value) (literalOrder (value < 0)) (.ofInt value) := by
  rw [toString_int]
  exact .signed _ (isNumeralText_toString value.natAbs)

theorem isLiteral_int {tight : Prop} {value : Int} (short : value.natAbs < tenTo digitLimit)
    (shorter : tight → value.natAbs < tenTo (digitLimit - 1)) :
    IsLiteral tight (toString value) (literalOrder (value < 0)) (.ofInt value) := by
  rw [toString_int]
  have form := isNumeralText_toString value.natAbs
  exact ⟨.signed _ form, literally_signed fun _ => .whole _ short shorter, exact_signed form⟩

theorem isLiteral_nat {tight : Prop} {n : Nat} (short : n < tenTo (digitLimit - 1)) :
    IsLiteral tight (toString n) .atomic (.numeral (toString n)) := by
  have limits : tenTo (digitLimit - 1) ≤ tenTo digitLimit := tenTo_mono (Nat.sub_le _ _)
  have form := isNumeralText_toString n
  have exact : Exact (signText false ++ toString n) (literalOrder false)
      (.signed false (.numeral (toString n))) :=
    exact_signed form
  have literally : Literally tight (signText false ++ toString n) (.signed false (.numeral (toString n))) :=
    literally_signed fun _ => .whole n (Nat.lt_of_lt_of_le short limits) fun _ => short
  rw [signText, if_neg (by simp), String.empty_append] at exact literally
  exact ⟨.numeral form, literally, exact⟩

/-- Of the characters of words, only the plain digits are digits. -/
theorem isDigit_of_isIdentifierChar {c : Char} (inName : isIdentifierChar c) (digit : isDigit c) :
    c.isDigit := by
  have low := toNat_of_isIdentifierChar inName
  have high := toNat_le_of_isIdentifierChar inName
  have zeros : ∀ start ∈ digitZeros, start = 48 ∨ 126 < start := by decide
  obtain ⟨value, found⟩ := Option.isSome_iff_exists.mp digit
  obtain ⟨start, first, _⟩ := Option.map_eq_some_iff.mp found
  have within := List.find?_some first
  simp only [Bool.and_eq_true, decide_eq_true_eq] at within
  have plain : c.toNat < 58 := by
    rcases zeros start (List.mem_of_find?_eq_some first) with rfl | far
    · omega
    · omega
  simp only [Char.isDigit, Bool.and_eq_true, decide_eq_true_eq, ge_iff_le, UInt32.le_iff_toNat_le]
  exact ⟨low, Nat.lt_succ_iff.mp plain⟩

theorem isLiteral_word {tight : Prop} {name : String} (isName : IsName name.toList) :
    IsLiteral tight name .atomic (.word name) := by
  refine ⟨.word isName, literally_of_not_isNumeral ?_, exact_of_no_literal rfl⟩
  obtain ⟨filled, all, plain⟩ := isName
  cases shape : name.toList with
  | nil => exact absurd shape filled
  | cons c rest =>
    have first := all c (by simp [shape])
    have noDigit : isDigit c = false := by
      by_contra digit
      have isDigit := isDigit_of_isIdentifierChar first (by simpa using digit)
      rw [plain c (by simp [shape])] at isDigit
      cases isDigit
    refine not_isNumeral_of_head shape ⟨not_isBlank_of_isIdentifierChar first, noDigit, ?_⟩ ?_
    · exact ne_of_isIdentifierChar first (by decide)
    · exact ne_of_isIdentifierChar first (by decide)

namespace Binary64

theorem text_finite {mantissa : Nat} (nonzero : mantissa ≠ 0) (exponent : Int) :
    ∃ digits power, ∀ negative,
    (finite negative mantissa exponent).text = signText negative ++ layout digits power :=
  ⟨_, _, fun negative => text_eq negative nonzero exponent⟩

/-- A number that is not whole is not zero. -/
theorem mantissa_ne_zero {negative : Bool} {mantissa : Nat} {exponent : Int}
    (broken : (finite negative mantissa exponent).isWhole = false) : mantissa ≠ 0 := by
  rintro rfl
  simp [isWhole, numerator] at broken

/-- The order of the literal of a number that is not zero. -/
theorem order_finite (negative : Bool) {mantissa : Nat} (nonzero : mantissa ≠ 0) (exponent : Int) :
    (if (finite negative mantissa exponent).isNonNegative then Order.atomic else .unaryPrefix) =
    literalOrder negative := by
  cases negative <;> simp [isNonNegative, literalOrder, nonzero]

/-- A number that is not whole is shown as a literal. -/
theorem isLiteral_text {tight : Prop} {negative : Bool} {mantissa : Nat} {exponent : Int}
    (broken : (finite negative mantissa exponent).isWhole = false) :
    IsLiteral tight (finite negative mantissa exponent).text
      (if (finite negative mantissa exponent).isNonNegative then .atomic else .unaryPrefix)
      (finite negative mantissa exponent).literal := by
  have nonzero := mantissa_ne_zero broken
  obtain ⟨digits, power, shown⟩ := text_finite nonzero exponent
  have literal : (finite negative mantissa exponent).literal =
      .signed negative (.numeral (layout digits power)) := by
    rw [Binary64.literal, shown, signText, if_neg (by simp), String.empty_append]
  have form := isNumeralText_layout digits power
  rw [order_finite negative nonzero, literal, shown]
  rcases layout_form digits power with ⟨whole, fraction, shape, wholeDigits, short, fractionDigits,
    _⟩ | ⟨letter, _⟩
  · exact ⟨.signed _ form, literally_signed fun _ =>
      .decimal whole fraction shape wholeDigits short fractionDigits,
      exact_signed form⟩
  · refine ⟨.signed _ form, literally_of_not_isNumeral ?_, exact_signed form⟩
    refine (Writes.signed negative form).start.not_isNumeral (c := 'e') ?_ ⟨by decide, by decide, by decide⟩
    obtain ⟨c, rest, shape, digit⟩ := digit_of_isNumeralText form
    have behind : 'e' ∈ rest := by
      rw [shape] at letter
      rcases List.mem_cons.mp letter with rfl | behind
      · cases digit
      · exact behind
    rw [String.toList_append, signText_toList, shape]
    cases negative with
    | true => exact List.mem_cons_of_mem _ behind
    | false => exact behind

end Binary64

end BlockCompiler
