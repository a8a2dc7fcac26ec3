import BlockCompiler.Proofs.Emission.Elements

/-!
The codes of literal numbers: infinities and numerals in plain digits, whatever spelling a field has. Whole
numbers come out as they went in.
-/

namespace BlockCompiler

/-- The digits of a text: digits of any script, with at most one underscore between any two of them. -/
inductive SpellsDigits : (text : List Char) → (digits : List Nat) → Prop
  | last {c : Char} {d : Nat} (value : digitValue? c = some d) : SpellsDigits [c] [d]
  | next {c : Char} {d : Nat} {text : List Char} {digits : List Nat} (value : digitValue? c = some d)
      (rest : SpellsDigits text digits) : SpellsDigits (c :: text) (d :: digits)
  | spaced {c : Char} {d : Nat} {text : List Char} {digits : List Nat} (value : digitValue? c = some d)
      (rest : SpellsDigits text digits) : SpellsDigits (c :: '_' :: text) (d :: digits)

/-- A text spells a whole number: a sign or none, and then not too many digits, with blanks around. -/
def SpellsWhole (text : List Char) (value : Int) : Prop :=
  ∃ before sign body after digits, text = before ++ ((sign ++ body) ++ after) ∧ (∀ c ∈ before, isBlank c) ∧
    (∀ c ∈ after, isBlank c) ∧
    (sign = [] ∨ sign = ['+'] ∨ sign = ['-']) ∧ SpellsDigits body digits ∧ digits.length ≤ digitLimit ∧
    value = if sign = ['-'] then -(ofDigits digits : Int) else ofDigits digits

namespace Json

/-- A value is a whole number that is not too long, or a text that spells one. -/
def IsWhole (value : Json) (whole : Int) : Prop :=
  match value with
  | .number n => n = .int whole ∧ IsWritable whole
  | .text numeral => SpellsWhole numeral.toList whole
  | _ => False

/-- A value is no number: the one that is not, or a text that is read as that. -/
def IsNan : Json → Prop
  | .number n => n = .float .nan
  | .text numeral => readDecimal numeral = .ok .nan
  | _ => False

/-- A value is a whole number of more digits than may be written. -/
def IsTooLong : Json → Prop
  | .number (.int whole) => ¬ IsWritable whole
  | _ => False

end Json

/-- The codes of numbers: infinities, and plain numerals, perhaps with a minus before them. -/
def IsNumberCode (code : String) : Prop :=
  ∃ minus text, code = signText minus ++ text ∧ (text = "INFINITY" ∨ IsNumeralText text.toList)

/-- The order of a code of a number is told by whether a minus comes first. -/
def signOrder (code : String) : Order := if code.toList.head? = some '-' then .unaryPrefix else .atomic

section Spelling

variable {text body : List Char} {digits : List Nat}

theorem digitValue?_lt {c : Char} {d : Nat} (value : digitValue? c = some d) : d < 10 := by
  obtain ⟨start, found, rfl⟩ := Option.map_eq_some_iff.mp value
  have within := List.find?_some found
  simp only [Bool.and_eq_true, decide_eq_true_eq] at within
  omega

theorem not_underscore_of_digit {c : Char} {d : Nat} (value : digitValue? c = some d) : c ≠ '_' := by
  rintro rfl
  have none : digitValue? '_' = none := by decide
  rw [none] at value
  cases value

/-- The text of some digits starts with one. -/
theorem SpellsDigits.head (spells : SpellsDigits text digits) :
    ∃ c rest d, text = c :: rest ∧ digitValue? c = some d := by
  cases spells with
  | last value => exact ⟨_, _, _, rfl, value⟩
  | next value _ => exact ⟨_, _, _, rfl, value⟩
  | spaced value _ => exact ⟨_, _, _, rfl, value⟩

/-- The readers take all digits of a text of digits. -/
theorem SpellsDigits.taken (spells : SpellsDigits text digits) : takeDigits text = (digits, []) := by
  induction spells with
  | last value =>
    rw [takeDigits.eq_3 _ (not_underscore_of_digit value), value]
  | next value rest ih =>
    obtain ⟨first, later, d, rfl, digit⟩ := rest.head
    have single : ∀ next others, first :: later = '_' :: next :: others → False :=
      fun _ _ same => not_underscore_of_digit digit (List.cons.inj same).1
    rw [takeDigits.eq_5 _ _ (not_underscore_of_digit value) (by simp) single, value, ih]
  | spaced value rest ih =>
    obtain ⟨first, later, d, rfl, digit⟩ := rest.head
    have isDigit : isDigit first := by rw [isDigit, digit]; rfl
    rw [takeDigits.eq_4 _ _ _ (not_underscore_of_digit value), value, ih]
    exact if_pos isDigit

/-- Digits and underscores are no blanks. -/
theorem SpellsDigits.not_isBlank (spells : SpellsDigits text digits) : ∀ c ∈ text, isBlank c = false := by
  have digit : ∀ {c : Char} {d : Nat}, digitValue? c = some d → isBlank c = false := fun value =>
    not_isBlank_of_isDigit (by rw [isDigit, value]; rfl)
  induction spells with
  | last value => exact List.forall_mem_singleton.mpr (digit value)
  | next value _ ih => exact List.forall_mem_cons.mpr ⟨digit value, ih⟩
  | spaced value _ ih =>
    exact List.forall_mem_cons.mpr ⟨digit value, List.forall_mem_cons.mpr ⟨by decide, ih⟩⟩

theorem SpellsDigits.small (spells : SpellsDigits text digits) : ∀ d ∈ digits, d < 10 := by
  induction spells with
  | last value => exact List.forall_mem_singleton.mpr (digitValue?_lt value)
  | next value _ ih => exact List.forall_mem_cons.mpr ⟨digitValue?_lt value, ih⟩
  | spaced value _ ih => exact List.forall_mem_cons.mpr ⟨digitValue?_lt value, ih⟩

theorem ofDigits_append_singleton (digits : List Nat) (d : Nat) :
    ofDigits (digits ++ [d]) = 10 * ofDigits digits + d := by
  rw [ofDigits, List.foldl_append]
  rfl

/-- Few digits make a number that can be written. -/
theorem ofDigits_lt_tenTo (small : ∀ d ∈ digits, d < 10) : ofDigits digits < tenTo digits.length := by
  induction digits using List.reverseRecOn with
  | nil => decide
  | append_singleton digits d ih =>
    obtain ⟨others, last⟩ := List.forall_mem_append.mp small
    have lower := ih others
    have digit := last d (List.mem_singleton_self d)
    rw [ofDigits_append_singleton, List.length_append, List.length_singleton, tenTo_succ]
    omega

/-- A sign is taken from before a digit, if there is one. -/
theorem takeSign_digit {sign : List Char} {first : Char} {d : Nat}
    (signs : sign = [] ∨ sign = ['+'] ∨ sign = ['-']) (digit : digitValue? first = some d)
    (later : List Char) :
    takeSign (sign ++ first :: later) = (decide (sign = ['-']), first :: later) := by
  have minus : first ≠ '-' := by
    rintro rfl
    rw [show digitValue? '-' = none by decide] at digit
    cases digit
  have plus : first ≠ '+' := by
    rintro rfl
    rw [show digitValue? '+' = none by decide] at digit
    cases digit
  rcases signs with rfl | rfl | rfl
  · unfold takeSign
    split
    all_goals simp_all
  · rfl
  · rfl

/-- A text that spells a whole number is read as it, blanks of all kinds around it or not. -/
theorem SpellsWhole.readWhole {numeral : String} {whole : Int} (spells : SpellsWhole numeral.toList whole) :
    readWhole (String.ofList (trimEnds isBlank numeral.toList)) = .ok whole ∧ IsWritable whole := by
  obtain ⟨before, sign, body, after, digits, shape, blankBefore, blankAfter, signs, spells, short, rfl⟩ :=
    spells
  obtain ⟨first, later, d, rfl, digit⟩ := spells.head
  have plainSign : ∀ c ∈ sign, isBlank c = false := by
    rcases signs with rfl | rfl | rfl
    · simp
    · exact List.forall_mem_singleton.mpr (by decide)
    · exact List.forall_mem_singleton.mpr (by decide)
  have plain : ∀ c ∈ sign ++ first :: later, isBlank c = false := forall_append plainSign spells.not_isBlank
  have trimmed : trimEnds isBlank numeral.toList = sign ++ first :: later := by
    rw [shape]
    exact trimEnds_between blankBefore plain blankAfter
  have again : trimEnds isNumeralBlank (sign ++ first :: later) = sign ++ first :: later := by
    have kept : ∀ c ∈ sign ++ first :: later, isNumeralBlank c = false := fun c among => by
      by_contra blank
      have wider := isBlank_of_isNumeralBlank (by simpa using blank)
      rw [plain c among] at wider
      cases wider
    exact trimEnds_of_ends (fun c headed => kept c (List.mem_of_head? headed)) fun c last =>
      kept c (List.mem_of_getLast? last)
  have filled : digits.isEmpty = false := by cases spells <;> rfl
  have value : Binary64.signed (decide (sign = ['-'])) (ofDigits digits) =
      if sign = ['-'] then -(ofDigits digits : Int) else ofDigits digits := by
    by_cases minus : sign = ['-'] <;> simp [Binary64.signed, minus]
  constructor
  · unfold BlockCompiler.readWhole
    rw [trimmed, String.toList_ofList, again, takeSign_digit signs digit]
    simp only [spells.taken, filled]
    rw [if_neg (by simp), if_neg (Nat.not_lt.mpr short), value]
    rfl
  · rw [IsWritable, ← value, Binary64.natAbs_signed]
    exact Nat.lt_of_lt_of_le (ofDigits_lt_tenTo spells.small) (tenTo_mono short)

/-- No digit of any script is a letter of the alphabet, small or large. -/
theorem toLower_of_digit {c : Char} {d : Nat} (value : digitValue? c = some d) : c.toLower = c := by
  have small : ¬ (c.val ≥ 'A'.val ∧ c.val ≤ 'Z'.val) := by
    rintro ⟨low, high⟩
    have first : 65 ≤ c.toNat := UInt32.le_iff_toNat_le.mp low
    have last : c.toNat ≤ 90 := UInt32.le_iff_toNat_le.mp high
    obtain ⟨start, found, _⟩ := Option.map_eq_some_iff.mp value
    have within := List.find?_some found
    simp only [Bool.and_eq_true, decide_eq_true_eq] at within
    have apart : ∀ start ∈ digitZeros, start + 10 ≤ 65 ∨ 90 < start := by decide
    have := apart start (List.mem_of_find?_eq_some found)
    omega
  exact dif_neg small

/-- Digits are taken from a text only if it starts with one, and they are small. -/
theorem takeDigits_head (text : List Char) :
    (takeDigits text).1 = [] ∨ ∃ c rest d, text = c :: rest ∧ digitValue? c = some d := by
  fun_cases takeDigits text
  all_goals first | exact .inl rfl | exact .inr ⟨_, _, _, rfl, ‹_›⟩

theorem takeDigits_small (text : List Char) : ∀ d ∈ (takeDigits text).1, d < 10 := by
  fun_induction takeDigits text
  all_goals simp_all
  all_goals exact digitValue?_lt ‹_›

/-- Digits are read as a number. -/
theorem ofDecimal_ne_nan (negative : Bool) (digits : Nat) (power : Int) :
    Binary64.ofDecimal negative digits power ≠ .nan := by
  have quotient : ∀ num den, Binary64.ofQuotient negative num den ≠ .nan := by
    intro num den
    unfold Binary64.ofQuotient
    extract_lets
    split
    split_ifs <;> simp
  unfold Binary64.ofDecimal
  split_ifs
  · simp
  · simp
  · simp
  · exact quotient _ _

theorem readMagnitude?_ne_nan {negative : Bool} {body : List Char} :
    readMagnitude? negative body ≠ some .nan := by
  unfold readMagnitude?
  intro read
  dsimp only at read
  split_ifs at read
  obtain ⟨power, _, isNan⟩ := Option.map_eq_some_iff.mp read
  exact ofDecimal_ne_nan _ _ _ isNan

/-- What is read as a whole number are digits behind a sign, and not too many. -/
theorem readWhole_parts {text : String} {whole : Int} (read : readWhole text = .ok whole) :
    ∃ negative body digits, takeSign (trimEnds isNumeralBlank text.toList) = (negative, body) ∧
      takeDigits body = (digits, []) ∧
      digits ≠ [] ∧ digits.length ≤ digitLimit ∧ whole = Binary64.signed negative (ofDigits digits) := by
  unfold readWhole at read
  generalize takeSign (trimEnds isNumeralBlank text.toList) = parts at read
  obtain ⟨negative, body⟩ := parts
  refine ⟨negative, body, (takeDigits body).1, rfl, ?_⟩
  dsimp only at read
  generalize takeDigits body = taken at read
  obtain ⟨digits, rest⟩ := taken
  dsimp only at read
  by_cases refused : (digits.isEmpty || rest.head? == some '_') = true
  · rw [if_pos refused] at read
    cases read
  by_cases long : digitLimit < digits.length
  · rw [if_neg refused, if_pos long] at read
    cases read
  by_cases more : rest.isEmpty = true
  · rw [if_neg refused, if_neg long, if_pos more] at read
    obtain rfl := List.isEmpty_iff.mp more
    refine ⟨rfl, ?_, Nat.not_lt.mp long, (Except.ok.inj read).symm⟩
    rintro rfl
    exact refused rfl
  · rw [if_neg refused, if_neg long, if_neg more] at read
    cases read

/-- What is read as a whole number is not too long to be written. -/
theorem isWritable_of_readWhole {text : String} {whole : Int} (read : readWhole text = .ok whole) :
    IsWritable whole := by
  obtain ⟨negative, body, digits, _, taken, _, short, rfl⟩ := readWhole_parts read
  have small := takeDigits_small body
  rw [taken] at small
  rw [IsWritable, Binary64.natAbs_signed]
  exact Nat.lt_of_lt_of_le (ofDigits_lt_tenTo small) (tenTo_mono short)

/-- What is read as a whole number is not the word for what is no number. -/
theorem not_nan_of_readWhole {text : String} {whole : Int} (read : readWhole text = .ok whole) :
    readDecimal text ≠ .ok .nan := by
  obtain ⟨negative, body, digits, signed, taken, filled, _, _⟩ := readWhole_parts read
  have headed := takeDigits_head body
  rw [taken] at headed
  obtain ⟨c, later, d, rfl, value⟩ := headed.resolve_left filled
  have letters : ∀ word : String, digitValue? (word.toList.headD ' ') = none →
      String.ofList ((c :: later).map Char.toLower) ≠ word := by
    rintro _ none rfl
    rw [String.toList_ofList, List.map_cons, List.headD_cons, toLower_of_digit value, value] at none
    cases none
  intro isNan
  unfold readDecimal at isNan
  rw [signed] at isNan
  dsimp only at isNan
  rw [if_neg (not_or.mpr ⟨letters "inf" (by decide), letters "infinity" (by decide)⟩),
    if_neg (letters "nan" (by decide))] at isNan
  cases magnitude : readMagnitude? negative (c :: later) with
  | none => simp [magnitude] at isNan
  | some value =>
    simp only [magnitude, Except.ok.injEq] at isNan
    exact readMagnitude?_ne_nan (isNan ▸ magnitude)

end Spelling

section Codes

variable {value : Json} {n : Number} {k : Int}

theorem numberIn_int (k : Int) : numberIn (.number (.int k)) = .ok (.int k) := by
  unfold numberIn
  split_ifs with void
  · obtain rfl : k = 0 := by simpa [Json.isVoid, Number.isZero] using void
    rfl
  · rfl

/-- What a field holds for a whole number is the number. -/
theorem numberIn_of_isWhole (isWhole : value.IsWhole k) : numberIn value = .ok (.int k) ∧ IsWritable k := by
  cases value with
  | number n =>
    obtain ⟨rfl, writable⟩ := isWhole
    exact ⟨numberIn_int k, writable⟩
  | text numeral =>
    obtain ⟨read, writable⟩ := SpellsWhole.readWhole isWhole
    have filled : ¬ (Json.text numeral).isVoid := by
      intro void
      obtain rfl : numeral = "" := by simpa [Json.isVoid] using void
      rw [show readWhole (String.ofList (trimEnds isBlank "".toList)) =
        .error (.notWhole "") by decide] at read
      cases read
    refine ⟨?_, writable⟩
    rw [numberIn, if_neg filled]
    simp only [numberOf, Json.asText?, Option.getD_some, read]
  | _ => cases isWhole

/-- The whole part of a number can be written, if it has one. -/
def Number.IsWritable (n : Number) : Prop :=
  ∀ whole, n.truncate? = some whole → BlockCompiler.IsWritable whole

theorem isWritable_zero : IsWritable 0 :=
  Nat.lt_of_lt_of_le (show 0 < tenTo 0 by decide) (tenTo_mono (Nat.zero_le _))

/-- The number that is read from a field is no number just where the field says so, and too long only where
the field holds a whole number that is. -/
theorem numberIn_numeric (numeric : value.isNumeric) (proper : value.IsProper) :
    ∃ n, numberIn value = .ok n ∧ (value.IsNan ↔ n = .float .nan) ∧ (value.IsTooLong ↔ ¬ n.IsWritable) := by
  have small : ∀ {m : Nat}, m < tenTo 1027 → m < tenTo digitLimit :=
    fun less => Nat.lt_of_lt_of_le less (tenTo_mono (by decide))
  have zero : (Number.int 0).IsWritable := by
    rintro whole ⟨⟩
    exact isWritable_zero
  cases value with
  | number n =>
    cases n with
    | int k =>
      exact ⟨.int k, numberIn_int k,
        by simp [Json.IsNan], by simp [Json.IsTooLong, Number.IsWritable, Number.truncate?]⟩
    | float x =>
      unfold numberIn
      split_ifs with void
      · refine ⟨.int 0, rfl, ?_, by simpa [Json.IsTooLong] using zero⟩
        have notNan : x ≠ .nan := by
          rintro rfl
          cases void
        simp [Json.IsNan, notNan]
      · refine ⟨.float x, rfl, by simp [Json.IsNan], iff_of_false id (not_not.mpr ?_)⟩
        exact fun whole truncated => small (Binary64.IsBounded.small proper truncated)
  | text numeral =>
    cases read : readDecimal numeral with
    | error error => simp [Json.isNumeric, read, Except.toOption] at numeric
    | ok decimal =>
      have trimmed := readDecimal_trimmed read
      have filled : ¬ (Json.text numeral).isVoid := by
        intro void
        obtain rfl : numeral = "" := by simpa [Json.isVoid] using void
        rw [show readDecimal "" = .error (.notDecimal "") by decide] at read
        cases read
      have isNan : (Json.text numeral).IsNan ↔ decimal = .nan := by simp [Json.IsNan, read]
      rw [numberIn, if_neg filled, isNan]
      cases first : readWhole (String.ofList (trimEnds isBlank numeral.toList)) with
      | ok whole =>
        have notNan := not_nan_of_readWhole first
        rw [trimmed] at notNan
        refine ⟨.int whole, by simp only [numberOf, Json.asText?, Option.getD_some, first], ?_,
          iff_of_false id (not_not.mpr ?_)⟩
        · exact iff_of_false (fun same => notNan (congrArg _ same)) (by simp)
        · rintro _ ⟨⟩
          exact isWritable_of_readWhole first
      | error error =>
        refine ⟨.float decimal, ?_, by simp, iff_of_false id (not_not.mpr ?_)⟩
        · simp only [numberOf, Json.asText?, Option.getD_some, first, trimmed]
          rfl
        · exact fun whole truncated => small (readDecimal_bounded read truncated)
  | _ => cases numeric

/-- What is written of a numeral tells its order. -/
theorem signOrder_signed {minus : Bool} {text : String}
    (form : text = "INFINITY" ∨ IsNumeralText text.toList) :
    signOrder (signText minus ++ text) = literalOrder minus := by
  cases minus with
  | true => simp [signOrder, signText, literalOrder]
  | false =>
    have plain : text.toList.head? ≠ some '-' := by
      rcases form with rfl | form
      · decide
      · obtain ⟨c, rest, shape, digit⟩ := digit_of_isNumeralText form
        rw [shape]
        rintro ⟨⟩
        cases digit
    simp [signOrder, signText, literalOrder, plain]

/-- The code of a whole number that can be written. -/
theorem wholeLiteral_of_writable (writable : IsWritable k) :
    wholeLiteral k = pure (some (.value (toString k) (signOrder (toString k)))) ∧
    IsNumberCode (toString k) := by
  have form := isNumeralText_toString k.natAbs
  have order : (if 0 ≤ k then Order.atomic else .unaryPrefix) = literalOrder (k < 0) := by
    by_cases positive : 0 ≤ k
    · simp [literalOrder, positive, Int.not_lt.mpr positive]
    · simp [literalOrder, positive, Int.not_le.mp positive]
  refine ⟨?_, k < 0, toString k.natAbs, toString_int k, .inr form⟩
  rw [wholeLiteral, writeWhole_of_writable writable, order, toString_int, signOrder_signed (.inr form)]
  rfl

/-- The literal of a number that can be written is its code, with the order that its sign tells. -/
theorem yields_numberLiteral (notNan : n ≠ .float .nan) (writable : n.IsWritable) (s : Pass) :
    ∃ code t, Yields (numberLiteral n) s (some (.value code (signOrder code))) t ∧ IsNumberCode code := by
  have whole : ∀ {k : Int}, IsWritable k → numberLiteral n = wholeLiteral k →
      ∃ code t, Yields (numberLiteral n) s (some (.value code (signOrder code))) t ∧ IsNumberCode code := by
    intro k short same
    obtain ⟨literal, isCode⟩ := wholeLiteral_of_writable short
    exact ⟨_, s, by rw [same, literal]; exact yields_pure.mpr ⟨rfl, rfl⟩, isCode⟩
  cases n with
  | int k => exact whole (writable k rfl) rfl
  | float x =>
    cases x with
    | nan => exact absurd rfl notNan
    | infinite negative =>
      refine ⟨signText negative ++ "INFINITY", s.define "include_cmath" "#include <cmath>", ?_, negative,
        "INFINITY", rfl, .inl rfl⟩
      rw [signOrder_signed (.inl rfl)]
      cases negative <;> exact yields_bind.mpr ⟨⟨⟩, _, yields_modify.mpr rfl, yields_pure.mpr ⟨rfl, rfl⟩⟩
    | finite negative mantissa exponent =>
      cases broken : (Binary64.finite negative mantissa exponent).isWhole with
      | true =>
        refine whole (writable _ rfl) ?_
        simp only [numberLiteral, broken, if_true]
        rfl
      | false =>
        have nonzero := Binary64.mantissa_ne_zero broken
        obtain ⟨digits, power, shown⟩ := Binary64.text_finite nonzero exponent
        have form := Binary64.isNumeralText_layout digits power
        refine ⟨signText negative ++ Binary64.layout digits power, s, ?_, negative, _, rfl, .inr form⟩
        rw [signOrder_signed (.inr form)]
        simp only [numberLiteral, broken, Bool.false_eq_true, if_false, shown,
          Binary64.order_finite negative nonzero]
        exact yields_pure.mpr ⟨rfl, rfl⟩

theorem number_eq {site : Site} (held : site.field "NUM" = value) (read : numberIn value = .ok n) :
    Template.number site = numberLiteral n := by
  show Emission.ofNumeral (numberIn (site.field "NUM")) >>= numberLiteral = _
  rw [held, read]
  rfl

end Codes

/-- Whatever the schema takes for a number is written as one: as an infinity, or as a numeral in plain digits,
perhaps with a minus before it, and the order tells whether there is one. Whole numbers are written exactly,
whatever their spelling. Only what is no number is not written as one, and whole numbers that are too long are
not written at all. -/
theorem Template.number_writes {site : Site} {place : String} {value : Json}
    (accepted : checkFields .number site.head.fields place = .ok ())
    (held : site.head.fields.get? "NUM" = some value) (proper : value.IsProper) (s : Pass) :
    (¬ value.IsNan → ¬ value.IsTooLong → ∃ code t,
      Yields (Template.number site) s (some (.value code (signOrder code))) t ∧ IsNumberCode code) ∧
    (∀ k, value.IsWhole k → Yields (Template.number site) s
    (some (.value (toString k) (signOrder (toString k)))) s) ∧
    (value.IsNan → Yields (Template.number site) s (some (.value "nan" .unaryPrefix)) s) ∧
    (value.IsTooLong → Runs (· = .numeral .tooLongToWrite) (Template.number site) s fun _ _ => False) := by
  have numeric := (checkFields_ok.mp accepted).number value held
  obtain ⟨n, read, isNan, isTooLong⟩ := numberIn_numeric numeric proper
  have field : site.field "NUM" = value := by
    rw [Site.field, BlockContent.field, held, Option.getD_some]
  refine ⟨fun notNan notLong => ?_, fun k isWhole => ?_, fun nan => ?_, fun long => ?_⟩
  · rw [number_eq field read]
    exact yields_numberLiteral (isNan.not.mp notNan) (not_not.mp (isTooLong.not.mp notLong)) s
  · obtain ⟨found, writable⟩ := numberIn_of_isWhole isWhole
    rw [number_eq field found, show numberLiteral (.int k) = wholeLiteral k
      from rfl, (wholeLiteral_of_writable writable).1]
    exact yields_pure.mpr ⟨rfl, rfl⟩
  · rw [number_eq field read, isNan.mp nan]
    exact yields_pure.mpr ⟨rfl, rfl⟩
  · cases value with
    | number n =>
      cases n with
      | int k =>
        rw [number_eq field (numberIn_int k), show numberLiteral (.int k) = wholeLiteral k
          from rfl, wholeLiteral, writeWhole,
          if_pos (Nat.not_lt.mp long)]
        exact runs_throw_bind rfl
      | float x => cases long
    | _ => cases long

/-- Digits of two scripts with an underscore and blanks around them. -/
theorem Template.number_writes_digits :
    let head : BlockHead :=
      { type := "math_number", fields := [("NUM", .text " -1_\u06623\n")], hasOutput := true,
        inline := false }
    let site : Site := ⟨head, [], pure (.statements "")⟩
    checkFields .number site.head.fields "" = .ok () ∧ Json.IsWhole (.text " -1_\u06623\n") (-123) ∧
      Yields (Template.number site) {} (some (.value "-123" .unaryPrefix)) {} := by
  intro head site
  have accepted : checkFields .number site.head.fields "" = .ok () := by rfl
  have spells : SpellsDigits ['1', '_', '\u0662', '3'] [1, 2, 3] :=
    .spaced (by decide) (.next (by decide) (.last (by decide)))
  have isWhole : Json.IsWhole (.text " -1_\u06623\n") (-123) :=
    ⟨[' '], ['-'], _, ['\n'], _, rfl, List.forall_mem_singleton.mpr (by decide),
      List.forall_mem_singleton.mpr (by decide),
      .inr (.inr rfl), spells, by decide, by decide⟩
  have held : site.head.fields.get? "NUM" = some (.text " -1_\u06623\n") := rfl
  obtain ⟨_, whole, _⟩ := Template.number_writes accepted held trivial {}
  exact ⟨accepted, isWhole, whole _ isWhole⟩

/-- The word for what is no number is taken for a number, but it is no code of one, and its order tells of a
minus. -/
theorem Template.number_nan :
    let head : BlockHead :=
      { type := "math_number", fields := [("NUM", .text "nan")], hasOutput := true, inline := false }
    let site : Site := ⟨head, [], pure (.statements "")⟩
    checkFields .number site.head.fields "" = .ok () ∧
      Yields (Template.number site) {} (some (.value "nan" .unaryPrefix)) {} ∧ ¬ IsNumberCode "nan" ∧
        signOrder "nan" = .atomic := by
  intro head site
  have read : numberIn (.text "nan") = .ok (.float .nan) := by decide +kernel
  have held : site.field "NUM" = .text "nan" := rfl
  have code : Template.number site = pure (some (.value "nan" .unaryPrefix)) := number_eq held read
  refine ⟨by rfl, code ▸ yields_pure.mpr ⟨rfl, rfl⟩, ?_, by decide⟩
  rintro ⟨minus, text, same, form⟩
  have shape := congrArg String.toList same
  rw [String.toList_append, signText_toList] at shape
  cases minus with
  | true => cases shape
  | false =>
    rcases form with rfl | form
    · cases shape
    · obtain ⟨c, rest, headed, digit⟩ := digit_of_isNumeralText form
      rw [headed] at shape
      cases shape
      cases digit

end BlockCompiler
