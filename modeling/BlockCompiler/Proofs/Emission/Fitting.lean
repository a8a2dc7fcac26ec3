import BlockCompiler.Proofs.Emission.Expressions

/-!
Where the code of a moved index may be put: its root binds as tightly as the order asks for which it was
written, save where a numeral got a sign as it was moved at once, since no parentheses are put around
numerals.
-/

namespace BlockCompiler

/-- A text may stand where an order is asked for: its root binds tightly enough, and where the order is that
of a sign or a tighter one, a minus right before it is read as a sign of it. -/
structure Order.Admits (order : Order) (text : String) : Prop where
  root : ∃ level, rootLevel? text = some level ∧ order.needsParens level = false
  signed : order ≤ .unaryPrefix → ∃ e f, parse text = some e ∧ parse ("-" ++ text) = some f ∧
    f.Alike (.negative e)

section Fits

variable {order level : Order} {text : String} {e : Expr}

/-- Only a root that binds tighter than a sign fits behind one. -/
theorem lt_unaryPrefix_of_fits (fits : order.needsParens level = false) (tight : order ≤ .unaryPrefix) :
    level < .unaryPrefix := by
  rcases Nat.eq_or_lt_of_le tight with same | lt
  · obtain rfl : order = .unaryPrefix := Order.rank_injective same
    exact lt_of_fits fits rfl
  · exact Nat.lt_of_le_of_lt (le_of_fits fits) lt

/-- A code that fits an order may stand where the order is asked for. -/
theorem Writes.admits (writes : Writes text level e) (fits : order.needsParens level = false) :
    order.Admits text := by
  obtain ⟨f, parsed, alike, root, found, tighter⟩ := writes.parses (show Leads "".toList [] from leads_nil)
  rw [String.empty_append] at parsed found
  refine ⟨⟨root, found, fits_of_le tighter fits⟩, fun tight => ?_⟩
  obtain ⟨g, negative, other, _⟩ :=
    (writes.minus (lt_unaryPrefix_of_fits fits tight)).parses (show Leads "".toList [] from leads_nil)
  rw [String.empty_append] at negative
  exact ⟨f, g, parsed, negative, other.trans (.negative alike.symm)⟩

end Fits

/-- A moved index may stand where its order is asked for, or is a numeral with a sign that it got as it was
moved. -/
theorem Moves.admits {tight typed : Prop} {distance : Int} {negate : Bool} {order : Order} {e : Expr}
    {text : String} (moves : Moves tight typed distance negate order e text) :
    order.Admits text ∨ order ≤ .unaryPrefix ∧ (distance ≠ 0 ∨ negate) ∧
      ∃ whole moved : Int, e.whole? = some whole ∧
      moved = (if negate then -(whole + distance) else whole + distance) ∧ moved < 0 ∧
      text = toString moved := by
  cases moves with
  | @atOnce minus digits whole literal plain known bare =>
    generalize shape : (if negate then -(whole + distance) else whole + distance) = moved
    have writes := writes_int moved
    rcases Int.lt_or_le moved 0 with low | high
    · rw [decide_eq_true low, literalOrder, if_pos rfl] at writes
      cases fits : order.needsParens .unaryPrefix with
      | false => exact .inl (writes.admits fits)
      | true =>
        have tight : order ≤ .unaryPrefix := by
          by_contra looser
          simp [Order.needsParens, looser] at fits
        refine .inr ⟨tight, ?_, whole, moved, known, shape.symm, low, rfl⟩
        -- A literal that is not moved has no sign where a sign does not fit.
        by_contra still
        obtain ⟨rfl, rfl⟩ : distance = 0 ∧ negate = false := by simpa using still
        have unsigned : minus = false := by
          by_contra signed
          have loose := bare (by simpa using signed)
          simp [Order.forIndex, fits] at loose
        obtain ⟨n, part, _⟩ := plain.wholePart? minus
        have part' := (whole?_eq literal).symm.trans known
        split_ifs at part'
        obtain rfl : Binary64.signed minus n = whole := Option.some.inj (part.symm.trans part')
        rw [unsigned, Binary64.signed, if_neg (by simp), if_neg (by simp)] at shape
        omega
    · rw [decide_eq_false (Int.not_lt.mpr high), literalOrder, if_neg (by simp)] at writes
      exact .inl (writes.admits (fits_atomic order))
  | @inCode index inner writes fits _ =>
    obtain ⟨level, shifted, loose⟩ := writes_shifted writes distance negate order fits
    exact .inl (shifted.admits loose)

/-- The code of an index may stand where the order is asked for that it was written for, whatever stands in
the socket and however it is moved, save that no parentheses are put around a numeral that gets a sign as it
is moved at once: that one binds too loosely for the order of a sign and all tighter ones. Only a number that
is too long to be written leaves an index without code. -/
theorem Emitter.adjusted_fits {emitter : Emitter} (templates : emitter.templates = knownTemplates)
    {known : Bool} (strict : emitter.strict → known) {tight : Prop} {head : BlockHead}
    {rows : Rows BlockHead RowHead} {next : Stack BlockHead RowHead} {site : Site}
    (here : emitter.site? (.block head rows next) = some site) {name : String}
    (operand : (rows.at name).IsOperand) (ready : (rows.at name).Ready known tight) {before : Pass}
    (sound : before.Sound) (delta : Int) (negate : Bool) (order : Order)
    (short : tight → (before.distance delta).natAbs < tenTo (digitLimit - 1)) :
    Runs (fun error => ¬ tight ∧ error = .numeral .tooLongToWrite)
      (site.adjusted name delta negate order) before
      fun text after => order.Admits text ∨
        order ≤ .unaryPrefix ∧ (before.distance delta ≠ 0 ∨ negate) ∧ ∃ whole moved : Int,
          ((rows.at name).Meets numberCheck →
            ((rows.operand? after name).getD after.firstIndex).whole? = some whole) ∧
          moved = (if negate then -(whole + before.distance delta) else whole + before.distance delta) ∧
          moved < 0 ∧ text = toString moved := by
  obtain rfl : (⟨head, emitter.sockets rows, emitter.emit next⟩ : Site) = site := Option.some.inj here
  have offers : Site.OffersAt tight ((rows.at name).Meets numberCheck) True
      ⟨head, emitter.sockets rows, emitter.emit next⟩
      name (rows.operand? · name) :=
    (offersAt_operand (emits_operands templates strict rows name ready operand)).mono Stack.Meets.loosen
      fun meets _ => meets
  -- A whole part and a distance that are both short are short together.
  have limits : tenTo digitLimit = 10 * tenTo (digitLimit - 1) := tenTo_succ (digitLimit - 1)
  have emits := offers.moves trivial delta negate order
    (fun isTight _ _ whole _ _ _ shorter => by
      have near := short isTight
      unfold IsWritable
      generalize tenTo (digitLimit - 1) = limit at *
      omega)
    (fun isTight _ _ _ _ _ => Nat.lt_of_lt_of_le (short isTight) (tenTo_mono (Nat.sub_le ..)))
  refine (emits sound).imp ?_
  rintro text after ⟨_, grows, e, meant, moves⟩
  refine moves.admits.imp_right ?_
  rintro ⟨tighter, changed, whole, moved, found, shape, low, written⟩
  refine ⟨tighter, changed, whole, moved, fun meets => ?_, shape, low, written⟩
  rw [meant meets after .refl]
  exact found

/-- A negative literal whose sign is turned: both signs and the index itself stand in parentheses. -/
theorem Emitter.adjusted_fits_literal :
    let number : BlockHead :=
      { type := "math_number", fields := [("NUM", .number (.int (-2)))], hasOutput := true, inline := true }
    let rows : Rows BlockHead RowHead := .cons ⟨.value, "AT"⟩ (.block number .nil .empty) .nil
    let emitter : Emitter := {}
    let ws : Workspace := {}
    ∃ site, emitter.site? (.block { type := "lists_getIndex", hasOutput := true, inline := false } rows
      .empty) = some site ∧
      Runs (fun error => ¬ True ∧ error = .numeral .tooLongToWrite) (site.adjusted "AT" 0 true .unaryPrefix)
        (emitter.start ws)
        fun text _ => Order.unaryPrefix.Admits text := by
  intro number rows emitter ws
  have kindOf : BlockKind.ofName? "math_number" = some .number := by decide
  have short : ∀ n, numberIn (number.field "NUM") = .ok n → n.Short := by
    intro n found whole same
    cases found
    cases same
    exact Nat.lt_of_lt_of_le (show 2 < tenTo 1 by decide) (tenTo_mono (by decide))
  have valid : number.Valid True .number := ⟨⟨"", rfl⟩, ⟨"", rfl⟩, by decide, fun _ => short⟩
  have meets : (rows.at "AT").Meets numberCheck := ⟨by rfl, fun _ _ => trivial⟩
  have runs := @Emitter.adjusted_fits emitter rfl true (fun _ => rfl) True
    { type := "lists_getIndex", hasOutput := true, inline := false } rows .empty _ rfl "AT"
      ⟨by rfl, by rfl, rfl⟩
    ⟨⟨valid, rfl⟩, trivial⟩ _ (emitter.sound_start ws) 0 true .unaryPrefix fun _ =>
      Nat.lt_of_lt_of_le (show 0 < tenTo 0 by decide) (tenTo_mono (Nat.zero_le _))
  refine ⟨_, rfl, runs.imp ?_⟩
  rintro text after (fits | ⟨_, _, whole, moved, known, shape, low, _⟩)
  · exact fits
  · have index : some (-2) = some whole := known meets
    obtain rfl : -2 = whole := Option.some.inj index
    have still : (emitter.start ws).distance 0 = 0 := rfl
    rw [if_pos rfl, still] at shape
    omega

/-- A literal whose sign is turned as it is moved at once stands without parentheses: behind a minus it makes
a decrement. -/
theorem Emitter.adjusted_decrement :
    let number : BlockHead :=
      { type := "math_number", fields := [("NUM", .number (.int 3))], hasOutput := true, inline := true }
    let place : BlockHead := { type := "lists_getIndex", hasOutput := true, inline := false }
    let rows : Rows BlockHead RowHead := .cons ⟨.value, "AT"⟩ (.block number .nil .empty) .nil
    let emitter : Emitter := {}
    let ws : Workspace := {}
    ∃ site after, emitter.site? (.block place rows .empty) = some site ∧
      Yields (site.adjusted "AT" 0 true .unaryPrefix) (emitter.start ws) "-3" after ∧
      rootLevel? "-3" = some .unaryPrefix ∧ Order.unaryPrefix.needsParens .unaryPrefix ∧
        parse ("-" ++ "-3") = none := by
  intro number place rows emitter ws
  obtain ⟨after, yields⟩ := exists_yields_of_toOption
    (x := Site.adjusted ⟨place, emitter.sockets rows, emitter.emit .empty⟩ "AT" 0 true .unaryPrefix)
      (s := emitter.start ws)
    (a := "-3") (by decide +kernel)
  exact ⟨_, after, rfl, yields,
    by decide +kernel, by decide, Option.isNone_iff_eq_none.mp (by decide +kernel)⟩

end BlockCompiler
