import BlockCompiler.Proofs.Number.Literals

/-!
The form of the texts that binary64 numbers are shown as.
-/

namespace BlockCompiler

theorem isNumeralText_toString (n : Nat) : IsNumeralText (toString n).toList :=
  ⟨(toString n).toList, [], [], by simp, areDigits_toString n, .inl rfl, .inl rfl⟩

theorem digit_of_isNumeralText {text : String} (form : IsNumeralText text.toList) :
    ∃ c rest, text.toList = c :: rest ∧ c.isDigit := by
  obtain ⟨whole, fraction, exponent, shape, wholeDigits, _⟩ := form.parts
  cases split : whole with
  | nil => exact absurd split wholeDigits.1
  | cons c rest =>
    refine ⟨c, rest ++ (fraction ++ exponent), ?_, wholeDigits.2 c (by simp [split])⟩
    rw [shape, split, List.cons_append]

theorem isNumeral_body {text : String} (numeral : isNumeral text) :
    (∃ c ∈ (numeralBody text).head?, isDigit c) ∧ ∀ c ∈ numeralBody text, isDigit c ∨ c = '.' := by
  unfold isNumeral at numeral
  generalize numeralBody text = body at numeral ⊢
  obtain ⟨behind, split⟩ := List.takeWhile_prefix isDigit (l := body)
  have inWhole : ∀ c ∈ body.takeWhile isDigit, isDigit c := fun c among => List.mem_takeWhile_imp among
  simp only [Bool.and_eq_true] at numeral
  generalize body.takeWhile isDigit = whole at numeral split inWhole
  obtain ⟨filled, fraction⟩ := numeral
  subst split
  rw [List.drop_left] at fraction
  constructor
  · cases whole with
    | nil => simp [isDigits] at filled
    | cons c whole => exact ⟨c, rfl, inWhole c (by simp)⟩
  · intro c among
    rcases List.mem_append.mp among with before | later
    · exact .inl (inWhole c before)
    · split at fraction
      · cases later
      · rename_i digits
        rcases List.mem_cons.mp later with rfl | digit
        · exact .inr rfl
        · simp only [isDigits, Bool.and_eq_true, List.all_eq_true] at fraction
          exact .inl (fraction.2 c digit)
      · cases fraction

/-- Behind its first character, a numeral that starts with no blank has only digits, a point and blanks. -/
theorem isNumeral_tail {text : String} (numeral : isNumeral text) {first : Char} {rest : List Char}
    (shape : text.toList = first :: rest) (filled : isBlank first = false) :
    (isDigit first ∨ first = '-') ∧ ∀ c ∈ rest, isBlank c ∨ isDigit c ∨ c = '.' := by
  obtain ⟨⟨head, headed, digit⟩, chars⟩ := isNumeral_body numeral
  have trimmed : trimEnds isBlank text.toList = first :: (rest.reverse.dropWhile isBlank).reverse := by
    rw [shape, trimEnds_cons _ filled]
  have parts : rest = (rest.reverse.dropWhile isBlank).reverse ++
      (rest.reverse.takeWhile isBlank).reverse := by
    rw [← List.reverse_append, List.takeWhile_append_dropWhile, List.reverse_reverse]
  have inBody : ∀ c ∈ (rest.reverse.dropWhile isBlank).reverse, c ∈ numeralBody text := by
    intro c among
    rw [numeralBody, trimmed]
    split
    · rename_i same
      cases same
      exact among
    · exact List.mem_cons_of_mem _ among
  constructor
  · by_cases minus : first = '-'
    · exact .inr minus
    · rw [numeralBody, trimmed] at headed
      split at headed
      · rename_i same
        exact absurd (List.cons.inj same).1 minus
      · exact .inl (Option.some.inj headed ▸ digit)
  · intro c among
    rw [parts] at among
    rcases List.mem_append.mp among with inside | behind
    · exact .inr (chars c (inBody c inside))
    · exact .inl (List.mem_takeWhile_imp (List.mem_reverse.mp behind))

/-- A numeral behind a minus sign is a numeral without a sign. -/
theorem isNumeral_unsigned {text : String} (numeral : isNumeral ("-" ++ text)) {first : Char}
    {rest : List Char} (shape : text.toList = first :: rest) (filled : isBlank first = false) :
    isNumeral text ∧ isDigit first := by
  have body : numeralBody ("-" ++ text) = first :: (rest.reverse.dropWhile isBlank).reverse := by
    have signed : ("-" ++ text).toList = '-' :: first :: rest := by simp [shape]
    have dash : isBlank '-' = false := by decide
    have trimmed := trimEnds_cons (first :: rest) dash
    have inner := trimEnds_cons rest filled
    rw [trimEnds, List.dropWhile_cons, if_neg (by simp [filled])] at inner
    rw [numeralBody, signed, trimmed, inner]
    rfl
  have digit : isDigit first := by
    obtain ⟨⟨head, headed, digit⟩, _⟩ := isNumeral_body numeral
    rw [body] at headed
    exact Option.some.inj headed ▸ digit
  refine ⟨?_, digit⟩
  have same : numeralBody text = numeralBody ("-" ++ text) := by
    rw [body, numeralBody, shape, trimEnds_cons _ filled]
    split
    · rename_i head
      cases head
      exact absurd digit (by decide)
    · rfl
  unfold isNumeral at numeral ⊢
  rwa [same]

/-- Figures with an exponent behind them, and a point behind the first if there are more. -/
theorem isNumeralText_scientific {figures shown : List Char} (areFigures : AreDigits figures)
    (areShown : AreDigits shown) {sign : Char} (signed : sign = '-' ∨ sign = '+') :
    IsNumeralText (figures.take 1 ++
      ((if figures.length = 1 then [] else '.' :: figures.drop 1) ++ 'e' :: sign :: shown)) := by
  have filled := List.length_pos_iff.mpr areFigures.1
  refine ⟨_, _, _, rfl, ⟨?_, ?_⟩, ?_, .inr ⟨sign, shown, rfl, signed, areShown⟩⟩
  · apply List.ne_nil_of_length_pos
    rw [List.length_take]
    omega
  · exact fun c among => areFigures.2 c (List.mem_of_mem_take among)
  · split_ifs with single
    · exact .inl rfl
    · refine .inr ⟨_, rfl, ?_, fun c among => areFigures.2 c (List.mem_of_mem_drop among)⟩
      apply List.ne_nil_of_length_pos
      rw [List.length_drop]
      omega

/-- Zeros before digits do not change what they denote, and zeros behind them are as many powers of ten. -/
theorem ofDigits_zeros (front back : Nat) (n : Nat) {text : List Char}
    (shape : text = List.replicate front '0' ++ ((toString n).toList ++ List.replicate back '0')) :
    ofDigits (text.map (·.toNat - 48)) = n * tenTo back := by
  rw [shape, ofDigits_values, Nat.ofDigitChars_append, Nat.ofDigitChars_append,
    Nat.ofDigitChars_replicate_zero,
    Nat.ofDigitChars_replicate_zero, Nat.mul_zero, ← ofDigits_values, ofDigits_toString, Nat.mul_comm]
  rfl

/-- A literal tells its sign from what follows. -/
theorem signed_inj {minus negative : Bool} {text other : String} (digits : IsNumeralText text.toList)
    (otherDigits : IsNumeralText other.toList) (same : signText minus ++ text = signText negative ++ other) :
    minus = negative ∧ text = other := by
  obtain ⟨c, rest, shape, digit⟩ := digit_of_isNumeralText digits
  obtain ⟨d, others, otherShape, otherDigit⟩ := digit_of_isNumeralText otherDigits
  have lists := congrArg (takeSign ·.toList) same
  simp only [String.toList_append] at lists
  rw [takeSign_signed (show c ∈ text.toList.head? by rw [shape]; rfl) digit,
    takeSign_signed (show d ∈ other.toList.head? by rw [otherShape]; rfl) otherDigit] at lists
  obtain ⟨signs, texts⟩ := Prod.mk.inj lists
  exact ⟨signs, String.toList_injective texts⟩

namespace Binary64

/-- The figures of a number as they are laid out with a point, which all denote the number, or with an
exponent. -/
theorem layout_form (digits : Nat) (power : Int) :
    (∃ whole fraction, (layout digits power).toList = whole ++ '.' :: fraction ∧ AreDigits whole ∧
      whole.length ≤ 16 ∧ AreDigits fraction ∧ 0 ≤ power + fraction.length ∧
      ofDigits ((whole ++ fraction).map (·.toNat - 48)) = digits * tenTo (power + fraction.length).toNat) ∨
    ('e' ∈ (layout digits power).toList ∧ IsNumeralText (layout digits power).toList) := by
  have figures := areDigits_toString digits
  have zeros : ∀ n, ∀ c ∈ List.replicate n '0', c.isDigit := by
    intro n c among
    rw [List.eq_of_mem_replicate among]
    rfl
  unfold layout
  extract_lets figureList point exponent size shown fraction
  have filled : 0 < figureList.length := List.length_pos_iff.mpr figures.1
  have shownDigits : AreDigits shown.toList := by
    have sizeDigits := areDigits_toString exponent.natAbs
    simp only [shown]
    split_ifs with narrow
    · refine ⟨by simp, fun c among => ?_⟩
      rw [String.toList_append] at among
      rcases List.mem_append.mp among with zero | digit
      · rw [List.mem_singleton.mp zero]
        rfl
      · exact sizeDigits.2 c digit
    · exact sizeDigits
  by_cases far : point ≤ -4 ∨ 16 < point
  · right
    obtain ⟨sign, mark, signed⟩ : ∃ sign : Char, (if exponent < 0 then "e-" else "e+").toList = ['e', sign] ∧
        (sign = '-' ∨ sign = '+') := by
      split_ifs with negative
      · exact ⟨'-', rfl, .inl rfl⟩
      · exact ⟨'+', rfl, .inr rfl⟩
    have form := isNumeralText_scientific figures shownDigits signed
    rw [if_pos far]
    simp only [String.toList_append, String.toList_ofList, mark, List.append_assoc, List.cons_append,
      List.nil_append]
    exact ⟨by simp, form⟩
  left
  rw [if_neg far]
  by_cases low : point ≤ 0
  · rw [if_pos low]
    have length : ((List.replicate (-point).toNat '0' ++ figureList).length : Int) = -power := by
      rw [List.length_append, List.length_replicate]
      simp only [point] at low ⊢
      push_cast
      omega
    refine ⟨['0'], List.replicate (-point).toNat '0' ++ figureList,
      by simp, ⟨by simp, by simp⟩, by simp, ⟨?_, ?_⟩, ?_, ?_⟩
    · simp [List.ne_nil_of_length_pos filled]
    · intro c among
      exact (List.mem_append.mp among).elim (zeros _ c) (figures.2 c)
    · omega
    · rw [length, add_neg_cancel]
      exact ofDigits_zeros ((-point).toNat + 1) 0 digits (by simp [List.replicate_succ, figureList])
  rw [if_neg low]
  by_cases whole : figureList.length ≤ point
  · rw [if_pos whole]
    refine ⟨figureList ++ List.replicate (point - figureList.length).toNat '0', ['0'], by simp, ⟨?_, ?_⟩, ?_,
      ⟨by simp, by simp⟩, ?_, ?_⟩
    · simp [List.ne_nil_of_length_pos filled]
    · intro c among
      exact (List.mem_append.mp among).elim (figures.2 c) (zeros _ c)
    · rw [List.length_append, List.length_replicate]
      omega
    · simp only [point] at whole
      simp
      omega
    · have behind : (power + (['0'] : List Char).length).toNat = (point - figureList.length).toNat + 1 := by
        simp only [point] at whole ⊢
        simp
        omega
      rw [behind]
      exact ofDigits_zeros 0 _ digits (by simp [List.replicate_succ', figureList])
  · have length : ((figureList.drop point.toNat).length : Int) = -power := by
      rw [List.length_drop]
      simp only [point] at low whole ⊢
      omega
    rw [if_neg whole]
    refine ⟨figureList.take point.toNat, figureList.drop point.toNat, by simp, ⟨?_, ?_⟩, ?_, ⟨?_, ?_⟩, ?_, ?_⟩
    · apply List.ne_nil_of_length_pos
      rw [List.length_take]
      omega
    · exact fun c among => figures.2 c (List.mem_of_mem_take among)
    · rw [List.length_take]
      omega
    · apply List.ne_nil_of_length_pos
      rw [List.length_drop]
      omega
    · exact fun c among => figures.2 c (List.mem_of_mem_drop among)
    · omega
    · rw [length, add_neg_cancel]
      exact ofDigits_zeros 0 0 digits (by simp [figureList])

theorem isNumeralText_layout (digits : Nat) (power : Int) : IsNumeralText (layout digits power).toList := by
  rcases layout_form digits power with ⟨whole, fraction, shape, wholeDigits, _, fractionDigits, _⟩ | ⟨_, form⟩
  · exact ⟨whole, '.' :: fraction, [],
      by simpa using shape, wholeDigits, .inr ⟨fraction, rfl, fractionDigits⟩, .inl rfl⟩
  · exact form

/-- The text of a number is its shortest decimal, laid out without zeros behind it. -/
theorem text_eq (negative : Bool) {mantissa : Nat} (nonzero : mantissa ≠ 0) (exponent : Int) :
    (finite negative mantissa exponent).text = signText negative ++
      layout (trimZeros 17 (shortestDecimal mantissa exponent)).1
      (trimZeros 17 (shortestDecimal mantissa exponent)).2 := by
  simp only [text, if_neg nonzero]
  rfl

end Binary64

end BlockCompiler
