import BlockCompiler.Proofs.Emission.Expressions
import Mathlib.Algebra.Order.Field.Rat
import Mathlib.Tactic.NormNum

/-!
What moved indices are worth: wherever numerals, signs, sums and differences are read as in arithmetic, the
code of an index that is moved by a distance is worth the index and the distance together.
-/

namespace BlockCompiler

section Literals

namespace Expr

/-- The literal in the place of an operand that may be missing. -/
theorem literal?_getD {operand other : Option Expr} (same : operand.map literal? = other.map literal?)
    (default : Expr) :
    (operand.getD default).literal? = (other.getD default).literal? := by
  cases operand with
  | none =>
    cases other with
    | none => rfl
    | some f => cases same
  | some e =>
    cases other with
    | none => cases same
    | some f => exact Option.some.inj same

/-- A sum of two expressions or more is no literal. -/
theorem literal?_sum_of_two (e f : Expr) (rest : List Expr) : (sum (e :: f :: rest)).literal? = none := by
  rw [sum, List.foldl_cons]
  induction rest generalizing e f with
  | nil => rfl
  | cons g rest ih => exact ih (.binary .add e f) g

theorem literal?_sum {es fs : List Expr} (same : es.map literal? = fs.map literal?) :
    (sum es).literal? = (sum fs).literal? := by
  match es, fs with
  | [], [] => rfl
  | [], _ :: _ => cases same
  | _ :: _, [] => cases same
  | [e], [f] => exact (List.cons.inj same).1
  | [_], _ :: _ :: _ => cases (List.cons.inj same).2
  | _ :: _ :: _, [_] => cases (List.cons.inj same).2
  | _ :: _ :: _, _ :: _ :: _ => rw [literal?_sum_of_two, literal?_sum_of_two]

end Expr

/-- Which literal a block stands for is the same under all names. -/
theorem BlockHead.literal?_tree (head : BlockHead) (kind : BlockKind) (s t : Pass)
    {operand other : String → Option Expr}
    (same : ∀ name, (operand name).map Expr.literal? = (other name).map Expr.literal?) :
    (head.tree s operand kind).literal? = (head.tree t other kind).literal? := by
  cases kind with
  | arithmetic =>
    simp only [tree]
    split_ifs <;> rfl
  | single =>
    simp only [tree]
    split_ifs
    · simp only [Expr.literal?, Expr.literal?_getD (same "NUM")]
    · rfl
  | operation =>
    have none : ∀ operand : String →
        Option Expr, (logical operand (.ofField (head.field "OP"))).literal? = none := by
      intro operand
      unfold logical
      split <;> rfl
    simp only [tree, none]
  | join =>
    simp only [tree, items]
    cases itemCount head.mutation with
    | error error => rfl
    | ok count =>
      refine Expr.literal?_sum ?_
      simp only [familyOf, List.map_map]
      exact List.map_congr_left fun i _ => Expr.literal?_getD (same _) _
  | getIndex =>
    have none : ∀ (pass : Pass) (operand : String → Option Expr),
        (element pass operand head).literal? = none := by
      intro pass operand
      unfold element
      extract_lets
      split <;> rfl
    simp only [tree, none]
  | _ => rfl

mutual

/-- Which literal a tree stands for is the same under all names. -/
theorem Stack.literal?_tree? (stack : Stack BlockHead RowHead) (s t : Pass) :
    (stack.tree? s).map Expr.literal? = (stack.tree? t).map Expr.literal? := by
  match stack with
  | .empty => rw [Stack.tree?, Stack.tree?]
  | .block head rows next =>
    rw [Stack.tree?, Stack.tree?]
    split_ifs
    · rfl
    · cases BlockKind.ofName? head.type with
      | none => rfl
      | some kind =>
        exact congrArg some (head.literal?_tree kind s t fun name => rows.literal?_operand? s t name)

theorem Rows.literal?_operand? (rows : Rows BlockHead RowHead) (s t : Pass) (name : String) :
    (rows.operand? s name).map Expr.literal? = (rows.operand? t name).map Expr.literal? := by
  match rows, name with
  | .nil, _ => rw [Rows.operand?, Rows.operand?]
  | .cons row plugged rest, name =>
    rw [Rows.operand?, Rows.operand?]
    split_ifs
    · exact plugged.literal?_tree? s t
    · exact rest.literal?_operand? s t name

end

end Literals

/-- The index that a block with some rows is to move. -/
def Rows.index (rows : Rows BlockHead RowHead) (pass : Pass) : Expr :=
  (rows.operand? pass "AT").getD pass.firstIndex

/-- Whether an index has a whole part that is moved at once does not depend on names. -/
theorem Rows.whole?_index (rows : Rows BlockHead RowHead) {s t : Pass} (grows : s.Grows t) :
    (rows.index t).whole? = (rows.index s).whole? := by
  unfold Rows.index
  rw [grows.firstIndex, Expr.whole?, Expr.whole?, Expr.literal?_getD (rows.literal?_operand? t s "AT")]

/-- An index can be moved by a distance if what is written then is short enough: the moved literal, or the
distance. -/
def Expr.CanMove (index : Expr) (distance : Int) : Prop :=
  IsWritable (index.whole?.elim distance (· + distance))

/-- A reading of expressions as numbers, where they are numbers: numerals, signs, sums and differences are
read as in arithmetic. All else is left open, save that it does not matter how conjunctions and disjunctions
are associated. -/
structure IsReading (value : Expr → Option ℚ) : Prop where
  whole (n : Nat) : value (.numeral (toString n)) = some (n : ℚ)
  decimal {text : String} {number : Binary64} {above : Int} {below : Nat}
    (broken : isWholeNumeral text = false)
    (reads : readDecimal text = .ok number)
      (quotient : (Number.float number).quotient? = some (above, below)) :
    value (.numeral text) = some (above / below : ℚ)
  negative {e : Expr} {x : ℚ} (worth : value e = some x) : value (.negative e) = some (-x)
  sum {e f : Expr} {x y : ℚ} (worth : value e = some x) (other : value f = some y) :
    value (.binary .add e f) = some (x + y)
  difference {e f : Expr} {x y : ℚ} (worth : value e = some x) (other : value f = some y) :
    value (.binary .subtract e f) = some (x - y)
  alike {e f : Expr} (alike : e.Alike f) : value e = value f

/-- The number that a numeral denotes. -/
def numeralWorth? (text : String) : Option ℚ :=
  if isWholeNumeral text then some (ofDigits (text.toList.map (·.toNat - 48)) : ℚ)
  else (readDecimal text).toOption.bind fun number =>
    (Number.float number).quotient?.map fun (above, below) => (above / below : ℚ)

/-- The number that arithmetic gives, where words have numbers. -/
def Expr.worth? (known : String → Option ℚ) : Expr → Option ℚ
  | .numeral text => numeralWorth? text
  | .word name => known name
  | .negative e => (e.worth? known).map fun x => -x
  | .binary .add e f => (e.worth? known).bind fun x => (f.worth? known).map fun y => x + y
  | .binary .subtract e f => (e.worth? known).bind fun x => (f.worth? known).map fun y => x - y
  | .binary .multiply e f => (e.worth? known).bind fun x => (f.worth? known).map fun y => x * y
  | _ => none

/-- Arithmetic is a reading. -/
theorem isReading_worth? (known : String → Option ℚ) : IsReading (Expr.worth? known) where
  whole n := by
    have isWhole := isWholeNumeral_literal false n
    rw [signText, if_neg (by simp), String.empty_append] at isWhole
    rw [Expr.worth?, numeralWorth?, if_pos isWhole, ofDigits_toString]
  decimal broken reads quotient := by
    rw [Expr.worth?, numeralWorth?, if_neg (by simp [broken]), reads]
    simp [Except.toOption, quotient]
  negative worth := by rw [Expr.worth?, worth, Option.map_some]
  sum worth other := by rw [Expr.worth?, worth, other, Option.bind_some, Option.map_some]
  difference worth other := by rw [Expr.worth?, worth, other, Option.bind_some, Option.map_some]
  alike alike := by
    induction alike with
    | symm _ same => exact same.symm
    | trans _ _ first second => exact first.trans second
    | @associate op logical _ _ _ => rcases logical with rfl | rfl <;> rfl
    | negative _ same => rw [Expr.worth?, Expr.worth?, same]
    | binary op _ _ same other => cases op <;> simp only [Expr.worth?, same, other]
    | _ => rfl

theorem cast_signed (minus : Bool) (n : Nat) :
    (Binary64.signed minus n : ℚ) = if minus then -(n : ℚ) else n := by
  cases minus <;> simp [Binary64.signed]

/-- A quotient that is whole is the quotient without a rest. -/
theorem natCast_div_of_quotient {above below : Nat} {v : Int} (positive : 0 < below)
    (whole : (above / below : ℚ) = v) :
    ((above / below : Nat) : Int) = v := by
  have nonzero : (below : ℚ) ≠ 0 := Nat.cast_ne_zero.mpr positive.ne'
  have product : (above : Int) = v * below := by exact_mod_cast (div_eq_iff nonzero).mp whole
  rw [Int.natCast_ediv, product, Int.mul_ediv_cancel v (by omega)]

namespace IsReading

variable {value : Expr → Option ℚ} {e : Expr} {x : ℚ}

theorem signed (reading : IsReading value) (minus : Bool) (worth : value e = some x) :
    value (.signed minus e) = some (if minus then -x else x) := by
  cases minus with
  | true => exact reading.negative worth
  | false => exact worth

theorem int (reading : IsReading value) (n : Int) : value (.ofInt n) = some (n : ℚ) := by
  rw [Expr.ofInt, reading.signed _ (reading.whole n.natAbs)]
  rcases Int.lt_or_le n 0 with low | high
  · simp [low, Nat.cast_natAbs, abs_of_neg low]
  · simp [Int.not_lt.mpr high, Nat.cast_natAbs, abs_of_nonneg high]

theorem firstIndex (reading : IsReading value) (pass : Pass) :
    value pass.firstIndex = some (if pass.oneBased then 1 else 0) := by
  unfold Pass.firstIndex
  cases pass.oneBased with
  | true =>
    have one := reading.whole 1
    rw [Nat.cast_one] at one
    exact one
  | false =>
    have zero := reading.whole 0
    rw [Nat.cast_zero] at zero
    exact zero

theorem adjusted (reading : IsReading value) (distance : Int) (worth : value e = some x) :
    value (e.adjusted distance) = some (x + distance) := by
  have amount := reading.whole distance.natAbs
  unfold Expr.adjusted
  rcases Int.lt_trichotomy distance 0 with low | rfl | high
  · rw [if_neg (by omega), if_pos low, reading.difference worth amount, Nat.cast_natAbs, abs_of_neg low,
      Int.cast_neg, sub_neg_eq_add]
  · simpa using worth
  · rw [if_pos high, reading.sum worth amount, Nat.cast_natAbs, abs_of_pos high]

/-- A literal that has a whole part, and is worth a whole number, is worth its whole part. -/
theorem whole?_eq {tight : Prop} {minus : Bool} {digits : String} {whole v : Int}
    (reading : IsReading value) (literal : e.literal? = some (minus, digits))
    (plain : PlainNumeral tight digits) (known : e.whole? = some whole) (worth : value e = some (v : ℚ)) :
    whole = v := by
  have part : wholePart? (signText minus ++ digits) = some whole := by
    rw [BlockCompiler.whole?_eq literal] at known
    split_ifs at known
    exact known
  have shape : e = .signed minus (.numeral digits) := Expr.literal?_eq_some literal
  rw [shape] at worth
  cases plain with
  | whole n short _ =>
    rw [wholePart?, if_pos (isWholeNumeral_literal minus n), readWhole_literal minus short] at part
    obtain rfl : Binary64.signed minus n = whole := Option.some.inj part
    have same := Option.some.inj ((reading.signed minus (reading.whole n)).symm.trans worth)
    exact Int.cast_injective ((cast_signed minus n).trans same)
  | decimal before behind split wholeDigits short fractionDigits =>
    obtain ⟨mantissa, exponent, read, _⟩ := readDecimal_literal split wholeDigits short fractionDigits
    have broken : ∀ minus, isWholeNumeral (signText minus ++ digits) = false := fun minus =>
      not_isWholeNumeral_decimal minus split wholeDigits fractionDigits
    rw [wholePart?, if_neg (by simp [broken minus]), read minus] at part
    obtain rfl :
        Binary64.signed minus (Binary64.numerator mantissa exponent / Binary64.denominator exponent) =
        whole :=
      Option.some.inj part
    have positive : 0 < Binary64.denominator exponent := Nat.two_pow_pos _
    have quotient := reading.decimal (broken false) (read false) rfl
    rw [signText, if_neg (by simp), String.empty_append] at quotient
    have same := Option.some.inj ((reading.signed minus quotient).symm.trans worth)
    cases minus with
    | true =>
      have turned : (Binary64.numerator mantissa exponent / Binary64.denominator exponent : ℚ) =
          (-v : Int) := by
        rw [Int.cast_neg]
        exact neg_eq_iff_eq_neg.mp same
      rw [Binary64.signed, if_pos rfl, natCast_div_of_quotient positive turned, neg_neg]
    | false => exact natCast_div_of_quotient positive same

end IsReading

/-- The code of a moved index is written for an expression that is worth the index and the distance together,
or the negative of that. It fits wherever a sign does. -/
theorem Moves.written {tight typed : Prop} {distance : Int} {negate : Bool} {order : Order} {e : Expr}
    {text : String} (moves : Moves tight typed distance negate order e text) :
    ∃ level f, Writes text level f ∧
      (order.needsParens .unaryPrefix = false → order.needsParens level = false) ∧
      ∀ value, IsReading value → ∀ v : Int, value e = some (v : ℚ) →
        value f = some ((if negate then -(v + distance) else v + distance : Int) : ℚ) := by
  cases moves with
  | @atOnce minus digits whole literal plain known _ =>
    refine ⟨_, _, writes_int _, fun loose => literalOrder_fits loose _, fun value reading v worth => ?_⟩
    obtain rfl : whole = v := reading.whole?_eq literal plain known worth
    exact reading.int _
  | @inCode index inner writes fits _ =>
    obtain ⟨level, shifted, loose⟩ := writes_shifted writes distance negate order fits
    refine ⟨level, _, shifted, fun _ => loose, fun value reading v worth => ?_⟩
    rw [reading.signed negate (reading.adjusted distance worth)]
    cases negate with
    | true => simp
    | false => simp

/-- A code is read as an expression that is worth what it was written for. -/
theorem Writes.exists_worth {code : String} {level : Order} {e : Expr} (writes : Writes code level e) :
    ∃ f, parse code = some f ∧ ∀ value, IsReading value → value f = value e := by
  obtain ⟨f, parsed, alike, _⟩ := writes.parses (show Leads "".toList [] from leads_nil)
  exact ⟨f, by simpa using parsed, fun value reading => reading.alike alike⟩

/-- The code of a moved index is worth the index and the distance together, or the negative of that. -/
theorem Moves.worth {tight typed : Prop} {distance : Int} {negate : Bool} {order : Order} {e : Expr}
    {text : String} (moves : Moves tight typed distance negate order e text) :
    ∃ f, parse text = some f ∧ ∀ value, IsReading value → ∀ v : Int, value e = some (v : ℚ) →
      value f = some ((if negate then -(v + distance) else v + distance : Int) : ℚ) := by
  obtain ⟨_, _, writes, _, worth⟩ := moves.written
  obtain ⟨f, parsed, same⟩ := writes.exists_worth
  exact ⟨f, parsed, fun value reading v known => (same value reading).trans (worth value reading v known)⟩

/-- The code of an index is read as the index that is meant, moved by a distance, with its sign turned if that
is asked for, whatever order it is given for. Where a program counts from one, the distance is one less. Only
a number that is too long to be written leaves an index without code, and none is where numbers are known to
be short. -/
theorem Emitter.adjusted_worth {emitter : Emitter} (templates : emitter.templates = knownTemplates)
    {tight : Prop} {head : BlockHead} {rows : Rows BlockHead RowHead} {next : Stack BlockHead RowHead}
    {site : Site} (here : emitter.site? (.block head rows next) = some site)
    (operand : (rows.at "AT").IsOperand) (ready : (rows.at "AT").Ready true tight)
    (meets : (rows.at "AT").Meets numberCheck) {before : Pass} (sound : before.Sound) (delta : Int)
    (negate : Bool) (order : Order) (short : tight → (rows.index before).CanMove (before.distance delta)) :
    Runs (fun error => ¬ tight ∧ error = .numeral .tooLongToWrite)
      (site.adjusted "AT" delta negate order) before
      fun text after => ∃ e, parse text = some e ∧ ∀ value, IsReading value →
        (rows.at "AT" = .empty → value (rows.index after) = some (if before.oneBased then 1 else 0)) ∧
        ∀ v : Int, value (rows.index after) = some (v : ℚ) →
          value e =
          some ((if negate then -(v + before.distance delta) else v + before.distance delta : Int) : ℚ) := by
  obtain rfl : (⟨head, emitter.sockets rows, emitter.emit next⟩ : Site) = site := Option.some.inj here
  have strict : emitter.strict → true = true := fun _ => rfl
  have offers : Site.OffersAt tight ((rows.at "AT").Meets none) ((rows.at "AT").Meets numberCheck)
      ⟨head, emitter.sockets rows, emitter.emit next⟩ "AT" (rows.operand? · "AT") :=
    offersAt_operand (emits_operands templates strict rows "AT" ready operand)
  have index : ∀ {e t}, ((rows.at "AT").Meets none → IsIndex (rows.operand? · "AT") e t) → rows.index t = e :=
    fun meant => meant meets.loosen _ .refl
  have emits := offers.moves meets delta negate order
    (fun isTight t e whole grows meant known _ => by
      have movable := short isTight
      rwa [Expr.CanMove, ← rows.whole?_index grows, index meant, known] at movable)
    (fun isTight t e grows meant unknown => by
      have movable := short isTight
      rw [Expr.CanMove, ← rows.whole?_index grows, index meant] at movable
      by_cases still : before.distance delta = 0
      · rw [still]
        exact Nat.lt_of_lt_of_le (show 0 < tenTo 0 by decide) (tenTo_mono (Nat.zero_le _))
      · rwa [unknown meets.loosen still] at movable)
  refine (emits sound).imp ?_
  rintro text after ⟨_, grows, e, meant, moves⟩
  obtain ⟨f, parsed, worth⟩ := moves.worth
  refine ⟨f, parsed, fun value reading => ⟨fun empty => ?_, fun v known => ?_⟩⟩
  · have default : rows.index after = before.firstIndex := by
      rw [Rows.index, Rows.operand?_eq, empty, Stack.tree?, Option.getD_none, grows.firstIndex]
    rw [default, reading.firstIndex]
  · exact worth value reading v (index meant ▸ known)

/-- A difference that is moved by two, as the program counts from one, with its sign turned. -/
theorem Emitter.adjusted_worth_difference :
    let vacant : Rows BlockHead RowHead := .cons ⟨.value, "A"⟩ .empty (.cons ⟨.value, "B"⟩ .empty .nil)
    let difference : BlockHead :=
      { type := "math_arithmetic", fields := [("OP", .text "MINUS")], hasOutput := true, inline := true }
    let rows : Rows BlockHead RowHead :=
      .cons ⟨.value, "VALUE"⟩ .empty (.cons ⟨.value, "AT"⟩ (.block difference vacant .empty) .nil)
    let emitter : Emitter := {}
    let ws : Workspace := { oneBased := true }
    ∃ site, emitter.site? (.block { type := "lists_getIndex", hasOutput := true, inline := false } rows
      .empty) = some site ∧
      Runs (fun error => ¬ True ∧ error = .numeral .tooLongToWrite) (site.adjusted "AT" 3 true .none)
        (emitter.start ws)
        fun text _ => ∃ e, parse text = some e ∧ e.worth? (fun _ => none) = some (-2) := by
  intro vacant difference rows emitter ws
  have number : numberIn (difference.field "NUM") = .ok (.int 0) := rfl
  have valid : difference.Valid True .arithmetic := by
    refine ⟨⟨"", rfl⟩, ⟨"", rfl⟩, by decide, fun _ n found whole same => ?_⟩
    rw [number] at found
    cases found
    cases same
    exact Nat.lt_of_lt_of_le (show 0 < tenTo 0 by decide) (tenTo_mono (Nat.zero_le _))
  have readyVacant : vacant.Ready true True (BlockKind.rows .arithmetic []) :=
    ⟨_, _, rfl, rfl, fun _ => trivial, trivial, _, _, rfl, rfl, fun _ => trivial, trivial, rfl⟩
  have meets : (rows.at "AT").Meets numberCheck := by
    refine ⟨by rfl, fun kind known => ?_⟩
    cases (show BlockKind.ofName? "math_arithmetic" = some .arithmetic by decide).symm.trans known
    exact ⟨fun _ _ => trivial, fun _ _ => trivial, trivial⟩
  have short : (rows.index (emitter.start ws)).CanMove 2 :=
    Nat.lt_of_lt_of_le (show 2 < tenTo 1 by decide) (tenTo_mono (by decide))
  have runs :=
    @Emitter.adjusted_worth emitter rfl True { type := "lists_getIndex", hasOutput := true, inline := false }
      rows .empty _ rfl ⟨by rfl, by rfl, rfl⟩ ⟨⟨valid, readyVacant⟩, trivial⟩ meets
        _ (emitter.sound_start ws) 3 true .none
      fun _ => short
  refine ⟨_, rfl, runs.imp ?_⟩
  rintro text after ⟨e, parsed, each⟩
  have arithmetic := isReading_worth? fun _ => none
  have index : (rows.index after).worth? (fun _ => none) = some ((0 : Int) : ℚ) := by
    have nothing := arithmetic.difference (arithmetic.whole 0) (arithmetic.whole 0)
    rw [sub_self] at nothing
    exact nothing
  refine ⟨e, parsed, ((each _ arithmetic).2 0 index).trans ?_⟩
  show some ((-(0 + 2) : Int) : ℚ) = some (-2)
  norm_num

end BlockCompiler
