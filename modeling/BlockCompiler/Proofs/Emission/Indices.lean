import BlockCompiler.Proofs.Emission.Operands

/-!
Indices that are moved by a distance and perhaps negated: a numeral is moved at once, anything else in the
code.
-/

namespace BlockCompiler

/-- How far an index is moved: where the program counts from one, one less. -/
def Pass.distance (pass : Pass) (delta : Int) : Int := if pass.oneBased then delta - 1 else delta

/-- The index that stands for an empty socket. -/
def Pass.firstIndex (pass : Pass) : Expr := .numeral (if pass.oneBased then "1" else "0")

/-- The order that an index is asked for, by what is to be done with it. -/
def Order.forIndex (order : Order) (distance : Int) (negate : Bool) : Order :=
  if distance ≠ 0 then .additive else if negate then .unaryPrefix else order

theorem Pass.Grows.distance {s t : Pass} (grows : s.Grows t) (delta : Int) :
    t.distance delta = s.distance delta := by
  rw [Pass.distance, Pass.distance, grows.base]

theorem Pass.Grows.firstIndex {s t : Pass} (grows : s.Grows t) : t.firstIndex = s.firstIndex := by
  rw [Pass.firstIndex, Pass.firstIndex, grows.base]

theorem wholeOf_wholePart {tight : Prop} {numeral : String} {whole : Int} {s : Pass}
    (known : wholePart? numeral = some whole) :
    Emits tight (Site.wholeOf numeral) s fun n t => n = whole ∧ t = s := by
  unfold Site.wholeOf
  unfold wholePart? at known
  split_ifs at known ⊢ with isWhole
  · cases read : readWhole numeral with
    | error error => simp [read, Except.toOption] at known
    | ok n =>
      obtain rfl : n = whole := by simpa [read, Except.toOption] using known
      exact Emission.emits_ofNumeral rfl
  · cases read : readDecimal numeral with
    | error error => simp [read, Except.toOption] at known
    | ok value =>
      have truncated : value.truncate? = some whole := by simpa [read, Except.toOption] using known
      refine (Emission.emits_ofNumeral rfl).bind ?_
      rintro found t _ ⟨rfl, rfl⟩
      exact Emission.emits_ofCount (by simp [Json.toWhole, truncated])

theorem Expr.moved_of_whole {index : Expr} {whole : Int} (known : index.whole? = some whole)
    (distance : Int) :
    index.moved distance = .ofInt (whole + distance) := by
  rw [moved, known]

theorem Expr.moved_of_none {index : Expr} (unknown : index.whole? = none) (distance : Int) :
    index.moved distance = index.adjusted distance := by
  rw [moved, unknown]

theorem whole?_eq {e : Expr} {minus : Bool} {digits : String} (literal : e.literal? = some (minus, digits)) :
    e.whole? = if isNumeral (signText minus ++ digits) then wholePart? (signText minus ++ digits)
    else none := by
  rw [Expr.whole?, literal, Option.bind_some]

section Shifted

variable {code index : String} {order inner : Order} {e : Expr} {distance : Int} {negate : Bool}

/-- A code that binds tighter than a sign starts with no minus. -/
theorem Writes.unsigned (writes : Writes code order e) (tight : order < .unaryPrefix) :
    code.toList.head? ≠ some '-' := by
  obtain ⟨f, level, tokens, spells, written, le, _⟩ := writes.written
  obtain ⟨token, others, rfl, noMinus, _⟩ := written.unsigned (Order.le_below (Nat.lt_of_le_of_lt le tight))
  obtain ⟨first, rest, same, begins⟩ := written.begins
  obtain ⟨rfl, rfl⟩ := List.cons.inj same
  intro headed
  obtain ⟨behind, shape⟩ : ∃ behind, code.toList = '-' :: behind := by
    cases split : code.toList with
    | nil => simp [split] at headed
    | cons c behind => exact ⟨behind, by simpa [split] using headed⟩
  -- What starts with a minus is cut into a minus or a decrement and the rest.
  have read : ∃ mark later, readLexeme? ('-' :: behind) = some (some (.mark mark), later) ∧
      later.length ≤ behind.length ∧
      (mark = .minus ∨ mark = .decrement) := by
    cases behind with
    | nil => exact ⟨.minus, [], rfl, Nat.le_refl _, .inl rfl⟩
    | cons c behind =>
      by_cases twice : c = '-'
      · subst twice
        exact ⟨.decrement, behind, rfl, by simp, .inr rfl⟩
      · exact ⟨.minus, c :: behind, readLexeme?_minus twice behind, Nat.le_refl _, .inl rfl⟩
  obtain ⟨mark, later, found, shorter, which⟩ := read
  have lexed := spells.lex
  rw [shape, lex_of_lexeme found (by simp; omega)] at lexed
  obtain ⟨tokens, _, cut⟩ := Option.map_eq_some_iff.mp lexed
  obtain ⟨rfl, _⟩ := List.cons.inj cut
  rcases which with rfl | rfl
  · exact noMinus rfl
  · cases begins

/-- A code that starts with a minus fits only where a sign fits. -/
theorem Writes.loose_of_minus (writes : Writes code inner e) (fits : order.needsParens inner = false)
    (minus : code.toList.head? = some '-') : order.needsParens .unaryPrefix = false := by
  have sign : Order.unaryPrefix ≤ inner := by
    by_contra tighter
    exact writes.unsigned (Nat.lt_of_not_le tighter) minus
  exact fits_of_le sign fits

/-- A minus right before a code that binds tighter than a sign. -/
theorem Writes.minus (operand : Writes code order e) (tight : order < .unaryPrefix) :
    Writes ("-" ++ code) .unaryPrefix (.negative e) := by
  have signed := operand.negative (Nat.le_of_lt tight)
  rwa [Template.negated, if_neg (operand.unsigned tight)] at signed

/-- An index that is moved in the code. -/
theorem Writes.moved (writes : Writes index inner e) (distance : Int)
    (fits : distance ≠ 0 → Order.additive.needsParens inner = false) :
    Writes (if 0 < distance then index ++ " + " ++ toString distance.natAbs
        else if distance < 0 then index ++ " - " ++ toString distance.natAbs else index)
      (if distance ≠ 0 then .additive else inner) (e.adjusted distance) := by
  have count := Writes.numeral (isNumeralText_toString distance.natAbs)
  unfold Expr.adjusted
  rcases Int.lt_trichotomy distance 0 with low | rfl | high
  · have differs : distance ≠ 0 := by omega
    have notHigh : ¬ 0 < distance := by omega
    simp only [if_neg notHigh, if_pos low, if_pos differs]
    exact Writes.binary .subtract writes (le_of_fits (fits differs)) count (by decide)
  · simpa using writes
  · have differs : distance ≠ 0 := by omega
    simp only [if_pos high, if_pos differs]
    exact Writes.binary .add writes (le_of_fits (fits differs)) count (by decide)

/-- An index that is moved and perhaps negated in the code fits the order that was asked for. -/
theorem writes_shifted (writes : Writes index inner e) (distance : Int) (negate : Bool) (order : Order)
    (fits : (order.forIndex distance negate).needsParens inner = false) :
    ∃ level, Writes (Site.shifted index distance (toString distance.natAbs) negate order) level
      (.signed negate (e.adjusted distance)) ∧
      order.needsParens level = false := by
  have moved := writes.moved distance fun differs => by simpa [Order.forIndex, differs] using fits
  unfold Site.shifted
  extract_lets text turned outer
  change Writes text _ _ at moved
  have wrapped : ∀ {code : String} {level : Order} {f : Expr}, outer = some level → Writes code level f →
      ∃ other, Writes (if outer.any fun level => order ≤ level then parenthesized code else code) other f ∧
        order.needsParens other = false := by
    intro code level f is writes
    rw [is, Option.any_some]
    by_cases tight : order ≤ level
    · rw [if_pos (by simpa using tight)]
      exact ⟨.atomic, writes.parenthesized, fits_atomic order⟩
    · rw [if_neg (by simpa using tight)]
      exact ⟨level, writes, by simp [Order.needsParens, tight]⟩
  cases negate with
  | true =>
    have operand : Writes turned .unaryPrefix (.negative (e.adjusted distance)) := by
      by_cases still : distance = 0
      · have shape : turned = "-" ++ text := by simp [turned, still]
        rw [if_neg (by simpa using still)] at moved
        rw [shape]
        exact moved.minus (lt_of_fits (by simpa [Order.forIndex, still] using fits) rfl)
      · have shape : turned = "-" ++ parenthesized text := by simp [turned, still]
        rw [shape]
        exact moved.parenthesized.minus (by decide)
    exact wrapped (by simp [outer]) operand
  | false =>
    have same : turned = text := rfl
    rw [same]
    by_cases still : distance = 0
    · rw [if_neg (by simpa using still)] at moved
      have none : outer = none := by simp [outer, still]
      rw [none]
      exact ⟨inner, by simpa [Expr.signed] using moved, by simpa [Order.forIndex, still] using fits⟩
    · rw [if_pos still] at moved
      exact wrapped (by simp [outer, still]) moved

end Shifted

/-- The code of an index that is moved by a distance and perhaps negated: a numeral is moved at once, and
anything else in the code. -/
inductive Moves (tight typed : Prop) (distance : Int) (negate : Bool) (order : Order) (e : Expr) :
    String → Prop where
  | atOnce {minus : Bool} {digits : String} {whole : Int} (literal : e.literal? = some (minus, digits))
    (plain : PlainNumeral tight digits) (known : e.whole? = some whole)
    (bare : minus → (order.forIndex distance negate).needsParens .unaryPrefix = false) :
    Moves tight typed distance negate order e
      (toString (if negate then -(whole + distance) else whole + distance))
  | inCode {index : String} {inner : Order} (writes : Writes index inner e)
    (fits : (order.forIndex distance negate).needsParens inner = false)
    (unknown : typed → (order.forIndex distance negate).needsParens .unaryPrefix = false → e.whole? = none) :
    Moves tight typed distance negate order e
      (Site.shifted index distance (toString distance.natAbs) negate order)

section Moved

variable {tight typed numeric : Prop} {site : Site} {operand : Pass → Option Expr} {s : Pass}

/-- The index that a site is to move, from a pass on. -/
def IsIndex (operand : Pass → Option Expr) (e : Expr) (s : Pass) : Prop :=
  ∀ t, s.Grows t → (operand t).getD t.firstIndex = e

/-- An index is the one that is meant, moved and perhaps negated. Where numbers are known to be short, what is
written must be: a numeral that is moved, or the distance. -/
theorem Site.OffersAt.moves {name : String} (offers : site.OffersAt tight typed numeric name operand)
    (asks : numeric)
    (delta : Int) (negate : Bool) (order : Order)
    (folded : tight → ∀ t e whole, s.Grows t → (typed → IsIndex operand e t) → e.whole? = some whole →
      whole.natAbs < tenTo (digitLimit - 1) → IsWritable (whole + s.distance delta))
    (written : tight → ∀ t e, s.Grows t → (typed → IsIndex operand e t) →
      (typed → s.distance delta ≠ 0 → e.whole? = none) → IsWritable (s.distance delta)) :
    Emits tight (site.adjusted name delta negate order) s fun text t =>
      ∃ e, (typed → IsIndex operand e t) ∧ Moves tight typed (s.distance delta) negate order e text := by
  unfold Site.adjusted
  have first : Emits tight (get : Emission Pass) s fun r t => r = s ∧ t = s := emits_get ⟨rfl, rfl⟩
  refine first.bind ?_
  rintro r t _ ⟨rfl, rfl⟩
  extract_lets oneBased distance asked
  change Emits tight _ t fun text u => ∃ e, _ ∧ Moves tight typed distance negate order e text
  refine (offers.number asks (isLiteral_firstIndex oneBased) asked).bind ?_
  rintro text u grows ⟨e, inner, writes, fits, literally, known⟩
  have meant : typed → IsIndex operand e u := by
    intro isTyped v later
    rw [Pass.firstIndex, (grows.trans later).base]
    exact (known isTyped).1 v later
  by_cases numeral : isNumeral text
  · rw [if_pos numeral]
    obtain ⟨minus, digits, literal, rfl, plain⟩ := literally numeral
    obtain ⟨whole, part, _, shorter⟩ := plain.wholePart? minus
    have found : e.whole? = some (Binary64.signed minus whole) := by
      rw [whole?_eq literal, if_pos numeral, part]
    have bare : minus → asked.needsParens .unaryPrefix = false := by
      rintro rfl
      exact writes.loose_of_minus fits (by simp [signText])
    refine (wholeOf_wholePart part).bind ?_
    rintro n v _ ⟨rfl, rfl⟩
    extract_lets moved
    have writable : tight → IsWritable (if negate then -moved else moved) := by
      intro isTight
      have short : IsWritable moved :=
        folded isTight v e _ grows meant found (by simpa [Binary64.natAbs_signed] using shorter isTight)
      cases negate with
      | true => simpa [IsWritable] using short
      | false => exact short
    refine (Emission.emits_writeWhole writable).imp ?_
    rintro text w _ ⟨rfl, _, rfl⟩
    exact ⟨e, meant, .atOnce literal plain found bare⟩
  · rw [if_neg numeral]
    -- A literal whose order fits is shown as it is, so that it would be a numeral if it had a whole part.
    have unknown : typed → asked.needsParens .unaryPrefix = false → e.whole? = none := by
      intro isTyped loose
      cases literal : e.literal? with
      | none => rw [Expr.whole?, literal, Option.bind_none]
      | some found =>
        obtain ⟨minus, digits⟩ := found
        have level : asked.needsParens e.level = false := by
          rw [Expr.literal?_eq_some literal]
          cases minus
          · exact fits_atomic asked
          · exact loose
        obtain ⟨same, _⟩ := (known isTyped).2 minus digits literal level
        rw [whole?_eq literal, ← same, if_neg numeral]
    have writable : tight → IsWritable distance.natAbs := by
      intro isTight
      have short : IsWritable distance := written isTight u e grows meant fun isTyped differs => by
        have additive : asked = .additive := if_pos differs
        exact unknown isTyped (by rw [additive]; decide)
      rw [IsWritable, Int.natAbs_natCast]
      exact short
    refine (Emission.emits_writeWhole writable).bind ?_
    rintro amount v _ ⟨rfl, _, rfl⟩
    exact emits_pure ⟨e, meant, .inCode writes fits unknown⟩

/-- A move by no more than one makes no numeral longer than may be written. -/
theorem Site.OffersAt.moves_near {name : String} (offers : site.OffersAt tight typed numeric name operand)
    (asks : numeric) {delta : Int} (small : 0 ≤ delta ∧ delta ≤ 1) (negate : Bool) (order : Order) :
    Emits tight (site.adjusted name delta negate order) s fun text t =>
      ∃ e, (typed → IsIndex operand e t) ∧ Moves tight typed (s.distance delta) negate order e text := by
  have near : (s.distance delta).natAbs ≤ 1 := by
    unfold Pass.distance
    split_ifs <;> omega
  have limits : tenTo (digitLimit - 1) < tenTo digitLimit := tenTo_lt (by decide)
  have many : 1 < tenTo (digitLimit - 1) :=
    Nat.lt_of_lt_of_le (show 1 < tenTo 1 by decide) (tenTo_mono (by decide))
  refine offers.moves asks delta negate order ?_ ?_
  · intro _ _ _ whole _ _ _ short
    unfold IsWritable
    generalize tenTo digitLimit = limit at limits ⊢
    omega
  · intro _ _ _ _ _ _
    exact Nat.lt_of_le_of_lt near (Nat.lt_trans many limits)

/-- A place in a list is the index that is meant, moved. -/
theorem Site.OffersAt.adjusted {operand : Pass → String → Option Expr}
    (offers : site.OffersAt tight typed numeric "AT" (operand · "AT")) (asks : numeric) {delta : Int}
    (small : 0 ≤ delta ∧ delta ≤ 1) {order : Order} (loose : order.needsParens .unaryPrefix = false) :
    Emits tight (site.adjusted "AT" delta false order) s
      (Fills typed order fun t => BlockHead.indexed t (operand t) delta) := by
  refine (offers.moves_near asks small false order).imp ?_
  rintro text t grows ⟨e, meant, moves⟩
  have indexed : typed → ∀ u, t.Grows u →
      BlockHead.indexed u (operand u) delta = e.moved (s.distance delta) := by
    intro isTyped u later
    rw [← (grows.trans later).distance, ← meant isTyped u later]
    rfl
  cases moves with
  | @atOnce minus digits whole literal plain known _ =>
    refine ⟨_, _, writes_int (whole + s.distance delta), literalOrder_fits loose _, fun isTyped u later => ?_⟩
    exact (indexed isTyped u later).trans (Expr.moved_of_whole known _)
  | @inCode index inner writes fits unknown =>
    obtain ⟨level, shifted, fitsOrder⟩ := writes_shifted writes (s.distance delta) false order fits
    refine ⟨_, level, shifted, fitsOrder, fun isTyped u later => ?_⟩
    refine (indexed isTyped u later).trans (Expr.moved_of_none (unknown isTyped ?_) _)
    by_cases still : s.distance delta = 0
    · simpa [Order.forIndex, still] using loose
    · rw [Order.forIndex, if_pos still]
      decide

end Moved

end BlockCompiler
