import BlockCompiler.Emission.Emitter
import BlockCompiler.Proofs.Emission.Indices
import BlockCompiler.Proofs.Number.Numeric

/-!
The templates of values: each gives the code of the expression that its block stands for.
-/

namespace BlockCompiler

/-- What a template gives is the code of an expression. -/
def Conveys (tight typed numeric : Prop) (meant : Pass → Expr) (output : Option Output) (s : Pass) : Prop :=
  ∃ code order, output = some (.value code order) ∧
    Means tight typed numeric (fun t => some (meant t)) code order s

theorem conveys {tight typed numeric : Prop} {meant : Pass → Expr} {s : Pass} {code : String}
    {order : Order} {e : Expr} (writes : Writes code order e) (foreign : isNumeral code = false)
    (noLiteral : e.literal? = none) (same : typed → ∀ t, s.Grows t → meant t = e) :
    Conveys tight typed numeric meant (some (.value code order)) s :=
  ⟨code, order, rfl, e, writes, literally_of_not_isNumeral foreign,
    fun isTyped t later => congrArg some (same isTyped t later),
    fun _ _ => exact_of_no_literal noLiteral⟩

theorem Conveys.mono {tight typed numeric other : Prop} {meant : Pass → Expr} {output : Option Output}
    {s : Pass} (gives : Conveys tight typed numeric meant output s) (weaker : other → numeric) :
    Conveys tight typed other meant output s := by
  obtain ⟨code, order, shape, e, writes, literally, same, exact⟩ := gives
  exact ⟨code, order, shape, e, writes, literally, same,
    fun isTyped isOther => exact isTyped (weaker isOther)⟩

theorem IsLiteral.conveys {tight typed numeric : Prop} {meant : Pass → Expr} {s : Pass} {code : String}
    {order : Order} {e : Expr} (literal : IsLiteral tight code order e)
    (same : typed → ∀ t, s.Grows t → meant t = e) :
    Conveys tight typed numeric meant (some (.value code order)) s :=
  ⟨code, order, rfl, e, literal.writes, literal.literally,
    fun isTyped t later => congrArg some (same isTyped t later),
    fun _ _ => literal.exact⟩

section Values

variable {tight typed : Prop} {site : Site} {kind : BlockKind} {operand : Pass → String → Option Expr}
  {s : Pass}

/-- The texts in the rows of a family are those of its operands. -/
theorem emits_values {stem : String} (offers : ∀ i : Nat, ∃ numeric : Prop,
      site.OffersAt tight typed numeric (stem ++ toString i) (operand · (stem ++ toString i)))
      {default : String} {d : Expr}
    (literal : IsLiteral tight default .atomic d) (count : Nat) (order : Order) :
    Emits tight (site.values stem count order default) s fun texts t =>
      ∃ es, List.Forall₂ (fun text e => ∃ inner, Writes text inner e ∧ order.needsParens inner = false ∧
          Literally tight text e) texts es ∧
        texts.length = count ∧ (typed → ∀ u, t.Grows u → familyOf (operand u) stem count d = es) := by
  have each : ∀ (i : Nat) s, Emits tight (site.value (stem ++ toString i) order default) s
      (FillsPlainly tight typed order fun t => (operand t (stem ++ toString i)).getD d) := by
    intro i s
    obtain ⟨_, offersThere⟩ := offers i
    exact offersThere.fillsPlainly literal order
  refine (emits_mapM (List.range count) (fun i _ s => each i s) fun i text s t grows fills =>
    fills.later grows).imp ?_
  clear each
  intro texts t _ each
  have length := each.length_eq
  rw [List.length_range] at length
  unfold familyOf
  generalize List.range count = rows at each
  suffices row :
        ∃ es, List.Forall₂ (fun text e => ∃ inner, Writes text inner e ∧ order.needsParens inner = false ∧
        Literally tight text e) texts es ∧
      (typed → ∀ u, t.Grows u → (rows.map fun i => (operand u (stem ++ toString i)).getD d) = es) by
    obtain ⟨es, written, meant⟩ := row
    exact ⟨es, written, length.symm, meant⟩
  clear length
  induction each with
  | nil => exact ⟨[], .nil, fun _ _ _ => rfl⟩
  | cons first _ ih =>
    obtain ⟨e, inner, written, fits, literally, meant⟩ := first
    obtain ⟨es, others, meantOthers⟩ := ih
    refine ⟨e :: es, .cons ⟨inner, written, fits, literally⟩ others, fun isTyped u later => ?_⟩
    exact congrArg₂ List.cons (meant isTyped u later) (meantOthers isTyped u later)

theorem emits_wholeLiteral {value : Int} (short : tight → value.natAbs < tenTo (digitLimit - 1)) :
    Emits tight (wholeLiteral value) s fun output _ =>
      ∃ code order, output = some (.value code order) ∧ IsLiteral tight code order (.ofInt value) := by
  have writable : tight → IsWritable value :=
    fun isTight => Nat.lt_trans (short isTight) (tenTo_lt (by decide))
  unfold wholeLiteral
  refine (Emission.emits_writeWhole writable).bind ?_
  rintro text t _ ⟨rfl, written, rfl⟩
  refine emits_pure ⟨_, _, rfl, ?_⟩
  have order : (if 0 ≤ value then Order.atomic else .unaryPrefix) = literalOrder (value < 0) := by
    by_cases positive : 0 ≤ value
    · simp [literalOrder, positive, Int.not_lt.mpr positive]
    · simp [literalOrder, positive, Int.not_le.mp positive]
  rw [order]
  exact isLiteral_int written short

/-- The literal of a number. -/
theorem emits_numberLiteral {n : Number} (short : tight → n.Short) :
    Emits tight (numberLiteral n) s fun output _ =>
      ∃ code order, output = some (.value code order) ∧ IsLiteral tight code order n.literal := by
  cases n with
  | int value => exact emits_wholeLiteral fun isTight => short isTight value rfl
  | float value =>
    cases value with
    | nan =>
      have isName : IsName "nan".toList := by decide
      have word : IsLiteral tight "nan" .atomic (.word "nan") := isLiteral_word isName
      exact emits_pure ⟨_, _, rfl, word.writes.loosen (by decide), word.literally, exact_of_no_literal rfl⟩
    | infinite negative =>
      have isName : IsName "INFINITY".toList := by decide
      have word : IsLiteral tight "INFINITY" .atomic (.word "INFINITY") := isLiteral_word isName
      refine Emission.emits_includeHeader.bind fun _ t _ _ => ?_
      cases negative with
      | false => exact emits_pure ⟨_, _, rfl, word⟩
      | true =>
        have negative := word.writes.negative (by decide)
        have foreign : isNumeral "-INFINITY" = false :=
          negative.start.not_isNumeral (c := 'I') (by decide) ⟨by decide, by decide, by decide⟩
        exact emits_pure ⟨_, _, rfl, negative, literally_of_not_isNumeral foreign, exact_of_no_literal rfl⟩
    | finite negative mantissa exponent =>
      cases broken : (Binary64.finite negative mantissa exponent).isWhole with
      | true =>
        obtain ⟨whole, truncated⟩ :
          ∃ whole, (Binary64.finite negative mantissa exponent).truncate? = some whole :=
          ⟨_, rfl⟩
        have code : numberLiteral (.float (.finite negative mantissa exponent)) = wholeLiteral whole := by
          simp only [numberLiteral, broken, if_true, truncated]
        have literal : (Number.float (.finite negative mantissa exponent)).literal = .ofInt whole := by
          simp only [Number.literal, broken, if_true, truncated]
        rw [code, literal]
        exact emits_wholeLiteral fun isTight => short isTight whole truncated
      | false =>
        have literal : (Number.float (.finite negative mantissa exponent)).literal =
            (Binary64.finite negative mantissa exponent).literal := by
          simp [Number.literal, broken]
        simp only [numberLiteral, broken, literal]
        exact emits_pure ⟨_, _, rfl, Binary64.isLiteral_text broken⟩

theorem BlockHead.Valid.number {head : BlockHead} (valid : head.Valid tight .number) :
    ∃ n, numberIn (head.field "NUM") = .ok n := by
  unfold numberIn
  split_ifs
  · exact ⟨_, rfl⟩
  · exact numberOf_isNumeric (valid.passes.number _ (valid.present (by decide)))

theorem emits_number (valid : site.head.Valid tight .number) {numeric : Prop} :
    Emits tight (Template.number site) s
      (Conveys tight typed numeric fun t => site.head.tree t (operand t) .number) := by
  obtain ⟨n, found⟩ := valid.number
  refine (Emission.emits_ofNumeral found).bind ?_
  rintro _ t _ ⟨rfl, rfl⟩
  refine (emits_numberLiteral fun isTight => valid.short isTight _ found).imp ?_
  rintro output t _ ⟨code, order, rfl, literal⟩
  refine literal.conveys fun _ u _ => ?_
  simp [BlockHead.tree, found, Except.toOption]

/-- Two operands with an operator between them that does not chain. -/
theorem conveys_binary {numeric : Prop} {meant left right : Pass → Expr} {a b : String} {op : BinaryOp}
    {t u : Pass} (first : Fills typed op.level left a t) (grows : t.Grows u)
    (second : Fills typed op.level right b u) (unchained : op.level.chains = false)
    (same : ∀ v, meant v = .binary op (left v) (right v)) :
    Conveys tight typed numeric meant (some (.value (a ++ spaced op.sign ++ b) op.level)) u := by
  obtain ⟨e, inner, writes, fits, known⟩ := first.later grows
  obtain ⟨f, other, writesOther, fitsOther, knownOther⟩ := second
  obtain ⟨c, among, foreign⟩ := op.foreign_sign
  refine conveys (.binary op writes (le_of_fits fits) writesOther (lt_of_fits fitsOther unchained)) ?_ rfl ?_
  · rw [String.append_assoc]
    refine writes.start.not_isNumeral_append (c := c) ?_ foreign
    rw [String.toList_append]
    exact List.mem_append_left _ among
  · intro isTyped v later
    rw [same, known isTyped v later, knownOther isTyped v later]

/-- A call of a function that has a name. -/
theorem conveys_call {numeric : Prop} {meant : Pass → Expr} {name : String} {codes : List String}
    {es : List Expr} {t : Pass} (isName : IsName name.toList) (all : Writes.All codes es)
    (same : typed → ∀ u, t.Grows u → meant u = .call (.word name) es) :
    Conveys tight typed numeric meant
      (some (.value (name ++ ("(" ++ joinTexts ", " codes ++ ")")) .unaryPostfix)) t := by
  refine conveys (.call isName all) ?_ rfl same
  refine (starts_word isName).not_isNumeral_append (c := '(') ?_ ⟨by decide, by decide, by decide⟩
  simp

/-- A call with one argument. -/
theorem conveys_application {numeric : Prop} {meant argument : Pass → Expr} {name a : String} {t : Pass}
    (isName : IsName name.toList) (first : Fills typed .none argument a t)
    (same : typed → ∀ u, t.Grows u → meant u = .call (.word name) [argument u]) :
    Conveys tight typed numeric meant (some (.value (name ++ "(" ++ a ++ ")") .unaryPostfix)) t := by
  obtain ⟨e, inner, writes, _, known⟩ := first
  have arguments : Writes.All [a] [e] := .cons ⟨inner, writes⟩ .nil
  have call : Conveys tight typed numeric meant
      (some (.value (name ++ ("(" ++ joinTexts ", " [a] ++ ")")) .unaryPostfix)) t :=
    conveys_call isName arguments fun isTyped u later => by rw [same isTyped u later, known isTyped u later]
  simpa [joinTexts, String.append_assoc] using call

/-- A call with two arguments. -/
theorem conveys_pair {numeric : Prop} {meant left right : Pass → Expr} {name a b : String} {t u : Pass}
    (isName : IsName name.toList) (first : Fills typed .none left a t) (grows : t.Grows u)
    (second : Fills typed .none right b u)
    (same : typed → ∀ v, u.Grows v → meant v = .call (.word name) [left v, right v]) :
    Conveys tight typed numeric meant
    (some (.value (name ++ "(" ++ a ++ ", " ++ b ++ ")") .unaryPostfix)) u := by
  obtain ⟨e, inner, writes, _, known⟩ := first.later grows
  obtain ⟨f, other, writesOther, _, knownOther⟩ := second
  have arguments : Writes.All [a, b] [e, f] := .cons ⟨inner, writes⟩ (.cons ⟨other, writesOther⟩ .nil)
  have call : Conveys tight typed numeric meant
      (some (.value (name ++ ("(" ++ joinTexts ", " [a, b] ++ ")")) .unaryPostfix)) u :=
    conveys_call isName arguments fun isTyped v later => by
      rw [same isTyped v later, known isTyped v later, knownOther isTyped v later]
  simpa [joinTexts, String.intercalate_cons_cons, String.append_assoc] using call

theorem emits_arithmetic {numeric : Prop} (valid : site.head.Valid tight .arithmetic)
    (offers : site.Offers tight typed .arithmetic operand) :
    Emits tight (Template.arithmetic site) s
      (Conveys tight typed numeric fun t => site.head.tree t (operand t) .arithmetic) := by
  obtain ⟨word, among, field⟩ := valid.choice rfl
  have found : site.field "OP" = .text word := field
  unfold Template.arithmetic
  rw [found]
  by_cases power : word = "POWER"
  · subst power
    rw [if_pos (by rfl)]
    refine Emission.emits_includeHeader.bind fun _ _ _ _ => ?_
    refine (offers.fills isLiteral_zero "A" .none).bind fun a t _ first => ?_
    refine (offers.fills isLiteral_zero "B" .none).bind fun b u grows second => ?_
    have isName : IsName "pow".toList := by decide
    have code : s!"pow({a}, {b})" = "pow" ++ "(" ++ a ++ ", " ++ b ++ ")" :=
      congrArg (· ++ a ++ ", " ++ b ++ ")") (show "pow(" = "pow" ++ "(" from rfl)
    rw [code]
    refine emits_pure (conveys_pair isName first grows second fun _ v _ => ?_)
    simp only [BlockHead.tree, field]
    rw [if_pos (by rfl)]
  · have operator : word ∈ ["ADD", "MINUS", "MULTIPLY", "DIVIDE"] := by simpa [power] using among
    have operators : ∀ word ∈ ["ADD", "MINUS", "MULTIPLY", "DIVIDE"],
        List.lookup word Template.arithmeticOperators =
        some (spaced (BinaryOp.ofField (.text word)).sign, (BinaryOp.ofField (.text word)).level) ∧
          (BinaryOp.ofField (.text word)).level.chains = false := by decide
    obtain ⟨lookup, unchained⟩ := operators word operator
    rw [if_neg (by simpa [Json.isText] using power)]
    refine (Emission.emits_choose lookup).bind ?_
    rintro _ t _ ⟨rfl, rfl⟩
    refine (offers.fills isLiteral_zero "A" _).bind fun a t _ first => ?_
    refine (offers.fills isLiteral_zero "B" _).bind fun b u grows second => ?_
    refine emits_pure (conveys_binary first grows second unchained fun v => ?_)
    simp only [BlockHead.tree, field]
    rw [if_neg (by simpa [Json.isText] using power)]

/-- A minus before an operand gives a literal just if it stands before one that has none yet. -/
theorem conveys_negative {numeric : Prop} {meant : Pass → Expr} {text : String} {e : Expr}
    {inner : Order} {t : Pass}
    (writes : Writes text inner e) (fits : Order.unaryPrefix.needsParens inner = false)
    (literally : Literally tight text e)
    (known : typed → (∀ u, t.Grows u → meant u = e) ∧
      ∀ minus digits, e.literal? = some (minus, digits) → Order.unaryPrefix.needsParens e.level = false →
        text = signText minus ++ digits ∧ ∃ c ∈ digits.toList.head?, c.isDigit) :
    Conveys tight typed numeric (fun u => .negative (meant u))
      (some (.value (Template.negated text) .unaryPrefix)) t := by
  refine ⟨_, _, rfl, .negative e, writes.negative (le_of_fits fits), ?_, ?_, ?_⟩
  · intro numeral
    obtain ⟨c, rest, shape, filled, _⟩ := writes.start
    unfold Template.negated at numeral ⊢
    split_ifs at numeral ⊢ with doubled
    · have apart : Starts ("- " ++ text) := ⟨'-', ' ' :: text.toList, by simp, by decide, by decide⟩
      obtain rfl : c = '-' := by simpa [shape] using doubled
      rw [apart.not_isNumeral (c := '-') (by simp [shape]) ⟨by decide, by decide, by decide⟩] at numeral
      cases numeral
    · obtain ⟨unsigned, digit⟩ := isNumeral_unsigned numeral shape filled
      obtain ⟨minus, digits, literal, same, plain⟩ := literally unsigned
      have positive : minus = false := by
        by_contra negative
        rw [Bool.not_eq_false] at negative
        subst negative
        have headed := congrArg (fun text : String => text.toList.head?) same
        simp [signText, shape] at headed
        exact doubled (by simp [shape, headed])
      subst positive
      refine ⟨true, digits, by simp [Expr.literal?, literal], ?_, plain⟩
      rw [same]
      simp [signText]
  · intro isTyped u later
    exact congrArg (fun e => some (Expr.negative e)) ((known isTyped).1 u later)
  · intro isTyped _ minus digits literal
    have inside : minus = true ∧ e = .numeral digits := by
      have shape := Expr.literal?_eq_some literal
      cases minus with
      | false => simp at shape
      | true => exact ⟨rfl, by simpa using shape⟩
    obtain ⟨rfl, rfl⟩ := inside
    obtain ⟨same, c, headed, digit⟩ := (known isTyped).2 false digits rfl (fits_atomic _)
    have plain : text = digits := by simpa [signText] using same
    subst plain
    refine ⟨?_, rfl, c, headed, digit⟩
    unfold Template.negated
    rw [if_neg]
    · simp [signText]
    · intro minus
      rw [Option.mem_def.mp headed] at minus
      cases minus
      cases digit

theorem emits_single {numeric : Prop} (valid : site.head.Valid tight .single)
    (offers : site.Offers tight typed .single operand) :
    Emits tight (Template.single site) s
      (Conveys tight typed numeric fun t => site.head.tree t (operand t) .single) := by
  obtain ⟨word, among, field⟩ := valid.choice rfl
  have found : site.field "OP" = .text word := field
  unfold Template.single
  rw [found]
  by_cases negative : word = "NEG"
  · subst negative
    rw [if_pos (by rfl)]
    have asks : BlockKind.AsksNumber .single "NUM" := List.mem_singleton.mpr rfl
    refine ((offers "NUM").number asks isLiteral_zero .unaryPrefix).bind ?_
    rintro text t _ ⟨e, inner, writes, fits, literally, known⟩
    have tree : (fun t => site.head.tree t (operand t) .single) =
        fun t => .negative ((operand t "NUM").getD (.numeral "0")) := by
      funext t
      simp only [BlockHead.tree, field]
      rw [if_pos (by rfl)]
    rw [tree]
    exact emits_pure (conveys_negative writes fits literally known)
  · rw [if_neg (by simpa [Json.isText] using negative)]
    obtain ⟨function, lookup, isName⟩ :
        ∃ function, List.lookup word Template.singleFunctions = some function ∧ IsName function.toList := by
      simp only [List.mem_cons, negative, false_or, List.not_mem_nil, or_false] at among
      rcases among with rfl | rfl | rfl | rfl | rfl <;> exact ⟨_, rfl, by decide⟩
    refine Emission.emits_includeHeader.bind fun _ _ _ _ => ?_
    refine (offers.fills isLiteral_zero "NUM" .none).bind fun text t _ first => ?_
    refine (Emission.emits_choose lookup).bind ?_
    rintro _ u grows ⟨rfl, rfl⟩
    refine emits_pure (conveys_application isName first fun _ v _ => ?_)
    simp only [BlockHead.tree, field]
    rw [if_neg (by simpa [Json.isText] using negative)]
    simp only [Json.word, Json.asText?, Option.getD_some, lookup]
    rfl

theorem emits_randomInt {numeric : Prop} (offers : site.Offers tight typed .randomInt operand) :
    Emits tight (Template.randomInt site) s
      (Conveys tight typed numeric fun t => site.head.tree t (operand t) .randomInt) := by
  unfold Template.randomInt
  refine Emission.emits_includeHeader.bind fun _ _ _ _ => ?_
  refine (offers.fills isLiteral_zero "FROM" .none).bind fun low t _ first => ?_
  refine (offers.fills isLiteral_zero "TO" .none).bind fun high u grows second => ?_
  refine (Emission.emits_provideFunction Template.randomIntSource).bind ?_
  rintro name v later ⟨isName, helper⟩
  refine emits_pure (conveys_pair isName first (grows.trans later) (second.later later) fun _ w last => ?_)
  simp only [BlockHead.tree, last.helper name helper, Option.getD_some]
  rfl

theorem emits_boolean {numeric : Prop} :
    Emits tight (Template.boolean site) s
      (Conveys tight typed numeric fun t => site.head.tree t (operand t) .boolean) := by
  unfold Template.boolean
  refine emits_pure ?_
  have isName : IsName (if (site.field "BOOL").isText "TRUE" then "true" else "false").toList := by
    split_ifs <;> decide
  exact (isLiteral_word isName).conveys fun _ t _ => rfl

theorem emits_compare {numeric : Prop} (valid : site.head.Valid tight .compare)
    (offers : site.Offers tight typed .compare operand) :
    Emits tight (Template.compare site) s
      (Conveys tight typed numeric fun t => site.head.tree t (operand t) .compare) := by
  obtain ⟨word, among, field⟩ := valid.choice rfl
  have found : site.field "OP" = .text word := field
  have operators : ∀ word ∈ ["EQ", "NEQ", "LT", "LTE", "GT", "GTE"],
      List.lookup word Template.comparisonOperators = some (BinaryOp.ofField (.text word)).sign ∧
        (if Json.isText (.text word) "EQ" || Json.isText (.text word) "NEQ" then Order.equality
          else .relational) =
          (BinaryOp.ofField (.text word)).level ∧
        (BinaryOp.ofField (.text word)).level.chains = false := by decide
  obtain ⟨lookup, order, unchained⟩ := operators word among
  unfold Template.compare
  rw [found]
  extract_lets field' asked
  have level : asked = (BinaryOp.ofField (.text word)).level := order
  rw [level]
  refine (offers.fills isLiteral_zero "A" _).bind fun a t _ first => ?_
  refine (offers.fills isLiteral_zero "B" _).bind fun b u grows second => ?_
  refine (Emission.emits_choose lookup).bind ?_
  rintro _ v later ⟨rfl, rfl⟩
  have code : s!"{a} {(BinaryOp.ofField (.text word)).sign} {b}" =
      a ++ spaced (BinaryOp.ofField (.text word)).sign ++ b := by
    show a ++ " " ++ (BinaryOp.ofField (.text word)).sign ++ " " ++ b = _
    simp [spaced, String.append_assoc]
  rw [code]
  refine emits_pure (conveys_binary first grows second unchained fun w => ?_)
  simp only [BlockHead.tree, field]

theorem emits_negate {numeric : Prop} (offers : site.Offers tight typed .negate operand) :
    Emits tight (Template.negate site) s
      (Conveys tight typed numeric fun t => site.head.tree t (operand t) .negate) := by
  have isName : IsName "true".toList := by decide
  unfold Template.negate
  refine (offers.fills (isLiteral_word isName) "BOOL" .unaryPrefix).bind ?_
  rintro text t _ ⟨e, inner, writes, fits, known⟩
  refine emits_pure (conveys (writes.negation (le_of_fits fits)) ?_ rfl fun isTyped u later => ?_)
  · have headed : ("!" ++ text).toList = '!' :: text.toList := by simp
    exact not_isNumeral_of_head headed ⟨by decide, by decide, by decide⟩ (by decide)
  · exact congrArg Expr.negation (known isTyped u later)

theorem emits_ternary {numeric : Prop} (offers : site.Offers tight typed .ternary operand) :
    Emits tight (Template.ternary site) s
      (Conveys tight typed numeric fun t => site.head.tree t (operand t) .ternary) := by
  have isName : IsName "false".toList := by decide
  unfold Template.ternary
  refine (offers.fills (isLiteral_word isName) "IF" .conditional).bind fun condition t _ first => ?_
  refine (offers.fills isLiteral_zero "THEN" .conditional).bind fun yes u grows second => ?_
  refine (offers.fills isLiteral_zero "ELSE" .conditional).bind fun no v later third => ?_
  obtain ⟨e, inner, writes, fits, known⟩ := first.later (grows.trans later)
  obtain ⟨f, other, writesYes, _, knownYes⟩ := second.later later
  obtain ⟨g, last, writesNo, fitsNo, knownNo⟩ := third
  have code : s!"{condition} ? {yes} : {no}" = condition ++ spaced "?" ++ (yes ++ spaced ":" ++ no) := by
    show condition ++ " ? " ++ yes ++ " : " ++ no = _
    simp [spaced, String.append_assoc]
  rw [code]
  have whole := writes.conditional (lt_of_fits fits rfl) writesYes writesNo (le_of_fits fitsNo)
  refine emits_pure (conveys whole ?_ rfl fun isTyped w grows => ?_)
  · rw [String.append_assoc]
    exact writes.start.not_isNumeral_append (c := '?') (by simp [spaced]) ⟨by decide, by decide, by decide⟩
  · simp only [BlockHead.tree]
    rw [← known isTyped w grows, ← knownYes isTyped w grows, ← knownNo isTyped w grows]

theorem emits_text (valid : site.head.Valid tight .text) {numeric : Prop} :
    Emits tight (Template.text site) s
      (Conveys tight typed numeric fun t => site.head.tree t (operand t) .text) := by
  obtain ⟨text, field⟩ := valid.text_text (by decide)
  have shown : (if (site.field "TEXT").isVoid then Json.text "" else site.field "TEXT") = .text text := by
    have found : site.field "TEXT" = .text text := field
    rw [found]
    split_ifs with empty
    · have none : text = "" := by simpa [Json.isVoid] using empty
      rw [none]
    · rfl
  unfold Template.text
  extract_lets raw
  rw [shown]
  refine Emission.emits_textOf.bind ?_
  rintro text t _ ⟨rfl, rfl⟩
  refine emits_pure ((isLiteral_quoted text).conveys fun _ u _ => ?_)
  simp only [BlockHead.tree, field, Json.word, Json.asText?, Option.getD_some]

theorem emits_readVariable (valid : site.head.Valid tight .readVariable) {numeric : Prop} :
    Emits tight (Template.readVariable site) s
      (Conveys tight typed numeric fun t => site.head.tree t (operand t) .readVariable) := by
  obtain ⟨name, field⟩ := valid.variable_text (by decide)
  have found : site.field "VAR" = .text name := field
  unfold Template.readVariable Site.getVariable
  rw [found]
  have named : Emits tight (Emission.textOf (.text name) >>= (Emission.getName · .variable)) s fun text t =>
      IsName text.toList ∧ t.names.assigned.get? (nameKey name .variable) = some text := by
    refine Emission.emits_textOf.bind ?_
    rintro name t _ ⟨rfl, rfl⟩
    exact Emission.emits_getName name .variable
  refine named.bind ?_
  · rintro text t _ ⟨isName, assigned⟩
    refine emits_pure ((isLiteral_word isName).conveys fun _ u later => ?_)
    simp only [BlockHead.tree, field, Json.word, Json.asText?, Option.getD_some, Pass.variable,
      later.names _ _ assigned]

theorem emits_createList (valid : site.head.Valid tight .createList) {numeric : Prop}
    (offers : site.Offers tight typed .createList operand) :
    Emits tight (Template.createList site) s
      (Conveys tight typed numeric fun t => site.head.tree t (operand t) .createList) := by
  obtain ⟨count, counted⟩ := valid.items
  unfold Template.createList
  refine (Emission.emits_ofCount counted).bind ?_
  rintro _ t _ ⟨rfl, rfl⟩
  refine (emits_values (fun _ => ⟨_, offers _⟩) isLiteral_zero _ .none).bind ?_
  rintro texts u _ ⟨es, each, _, known⟩
  have all : Writes.All texts es := each.imp fun text e ⟨inner, writes, _⟩ => ⟨inner, writes⟩
  refine emits_pure ((isLiteral_list all).conveys fun isTyped v later => ?_)
  simp only [BlockHead.tree, BlockHead.items, counted]
  rw [← known isTyped v later]

/-- Sums are numerals only where there is but one operand. -/
theorem literally_sum {texts : List String} {es : List Expr} (filled : texts ≠ [])
    (each : List.Forall₂ (fun text e => ∃ inner, Writes text inner e ∧
      Order.additive.needsParens inner = false ∧
      Literally tight text e) texts es) : Literally tight (joinTexts " + " texts) (.sum es) := by
  cases each with
  | nil => exact absurd rfl filled
  | cons first others =>
    obtain ⟨inner, writes, _, literally⟩ := first
    cases others with
    | nil => simpa [joinTexts, Expr.sum] using literally
    | cons second others =>
      apply literally_of_not_isNumeral
      rw [joinTexts, String.intercalate_cons_cons, String.append_assoc]
      exact writes.start.not_isNumeral_append (c := '+') (by simp) ⟨by decide, by decide, by decide⟩

theorem emits_join (valid : site.head.Valid tight .join) (offers : site.Offers tight typed .join operand) :
    Emits tight (Template.join site) s
      (Conveys tight typed False fun t => site.head.tree t (operand t) .join) := by
  obtain ⟨count, counted⟩ := valid.items
  unfold Template.join
  refine (Emission.emits_ofCount counted).bind ?_
  rintro _ t _ ⟨rfl, rfl⟩
  by_cases empty : (count : Int) = 0
  · rw [if_pos empty]
    have code : "\x27\x27" = literal "" := rfl
    rw [code]
    refine emits_pure ((isLiteral_quoted "").conveys fun _ u _ => ?_)
    simp only [BlockHead.tree, BlockHead.items, counted, empty]
    rfl
  · rw [if_neg empty]
    refine (emits_values (fun _ => ⟨_, offers _⟩) (isLiteral_quoted "") _ .additive).bind ?_
    rintro texts u _ ⟨es, each, length, known⟩
    have filled : texts ≠ [] := by
      rintro rfl
      rw [List.length_nil] at length
      omega
    have sum :=
      Writes.sum filled (each.imp fun text e ⟨inner, writes, fits, _⟩ => ⟨inner, writes, lt_of_fits fits rfl⟩)
    refine emits_pure ⟨_, _, rfl, _, sum, literally_sum filled each, fun isTyped v later => ?_,
      fun _ none => none.elim⟩
    simp only [BlockHead.tree, BlockHead.items, counted]
    rw [← known isTyped v later]

theorem FillsMaybe.identity {order : Order} {choice : Pass → Option Expr} {text identity : String}
    (fills : FillsMaybe typed order choice text s) (isName : IsName identity.toList) :
    Fills typed order (fun t => (choice t).getD (.word identity))
    (if text = "" then identity else text) s := by
  rcases fills with ⟨rfl, vacant⟩ | ⟨filled, e, inner, writes, fits, same⟩
  · refine ⟨.word identity, .atomic, .word isName, fits_atomic order, fun _ t _ => ?_⟩
    simp only [vacant t, Option.getD_none]
  · rw [if_neg filled]
    refine ⟨e, inner, writes, fits, fun isTyped t later => ?_⟩
    simp only [same isTyped t later, Option.getD_some]

/-- Two operands of a logical operator, where either may be missing. -/
theorem conveys_logical {numeric : Prop} {op : BinaryOp} (logical : op.IsLogical) {a b : String}
    (first : FillsMaybe typed op.level (operand · "A") a s)
    (second : FillsMaybe typed op.level (operand · "B") b s) :
    Conveys tight typed numeric (fun t => BlockHead.logical (operand t) op)
      (some (.value (Template.joined a b op.sign (if op = .and then "true" else "false")) op.level)) s := by
  have noName : ∀ code other : String, Starts code → isNumeral (code ++ spaced op.sign ++ other) = false := by
    intro code other start
    obtain ⟨c, among, foreign⟩ := op.foreign_sign
    rw [String.append_assoc]
    refine start.not_isNumeral_append (c := c) ?_ foreign
    rw [String.toList_append]
    exact List.mem_append_left _ among
  by_cases missing : a = "" ∧ b = ""
  · obtain ⟨rfl, rfl⟩ := missing
    have isName : IsName "false".toList := by decide
    have word := Writes.word isName
    have code : Template.joined "" "" op.sign (if op = .and then "true" else "false") =
        "false" ++ spaced op.sign ++ "false" := by
      rw [Template.joined, if_pos ⟨rfl, rfl⟩]
      rcases logical with rfl | rfl <;> rfl
    rw [code]
    refine conveys (.logical logical word ?_ word ?_) (noName _ _ word.start) rfl fun _ t _ => ?_
    · rcases logical with rfl | rfl <;> decide
    · rcases logical with rfl | rfl <;> decide
    · rcases first with ⟨_, noFirst⟩ | ⟨filled, _⟩
      · rcases second with ⟨_, noSecond⟩ | ⟨filled, _⟩
        · simp only [BlockHead.logical, noFirst t, noSecond t]
        · exact absurd rfl filled
      · exact absurd rfl filled
  · have isName : IsName (if op = .and then "true" else "false").toList := by
      split_ifs <;> decide
    obtain ⟨e, inner, writes, fits, known⟩ := first.identity isName
    obtain ⟨f, other, writesOther, fitsOther, knownOther⟩ := second.identity isName
    have code : Template.joined a b op.sign (if op = .and then "true" else "false") =
        (if a = "" then (if op = .and then "true" else "false") else a) ++ spaced op.sign ++
          (if b = "" then (if op = .and then "true" else "false") else b) := by
      rw [Template.joined, if_neg missing]
      simp only [spaced, ← String.append_assoc]
      rfl
    rw [code]
    refine conveys (.logical logical writes (le_of_fits fits) writesOther (le_of_fits fitsOther))
      (noName _ _ writes.start) rfl fun isTyped t later => ?_
    have some : operand t "A" ≠ none ∨ operand t "B" ≠ none := by
      rcases first with ⟨empty, _⟩ | ⟨_, g, _, _, _, same⟩
      · rcases second with ⟨emptyToo, _⟩ | ⟨_, g, _, _, _, same⟩
        · exact absurd ⟨empty, emptyToo⟩ missing
        · exact .inr fun none => by
            have given : operand t "B" = some g := same isTyped t later
            rw [none] at given
            cases given
      · exact .inl fun none => by
          have given : operand t "A" = some g := same isTyped t later
          rw [none] at given
          cases given
    rw [← known isTyped t later, ← knownOther isTyped t later]
    unfold BlockHead.logical
    split
    · rename_i noFirst noSecond
      exact absurd some (by simp [noFirst, noSecond])
    · rfl

theorem emits_operation {numeric : Prop} (valid : site.head.Valid tight .operation)
    (offers : site.Offers tight typed .operation operand) :
    Emits tight (Template.operation site) s
      (Conveys tight typed numeric fun t => site.head.tree t (operand t) .operation) := by
  obtain ⟨word, among, field⟩ := valid.choice rfl
  have found : site.field "OP" = .text word := field
  obtain ⟨op, logical, shape⟩ : ∃ op : BinaryOp, op.IsLogical ∧ BinaryOp.ofField (.text word) = op ∧
      (if Json.isText (.text word) "AND" then Order.logicalAnd else .logicalOr) = op.level ∧
      ∀ a b, (if Json.isText (.text word) "AND" then Template.joined a b "&&" "true"
        else Template.joined a b "||" "false") =
        Template.joined a b op.sign (if op = .and then "true" else "false") := by
    simp only [List.mem_cons, List.not_mem_nil, or_false] at among
    rcases among with rfl | rfl
    · exact ⟨.and, .inl rfl, by decide, rfl, fun _ _ => rfl⟩
    · exact ⟨.or, .inr rfl, by decide, rfl, fun _ _ => rfl⟩
  obtain ⟨ofField, order, code⟩ := shape
  unfold Template.operation
  rw [found]
  extract_lets conjunction asked
  have level : asked = op.level := order
  rw [level]
  refine (offers.fillsMaybe "A" _).bind fun a t _ first => ?_
  refine (offers.fillsMaybe "B" _).bind fun b u grows second => ?_
  simp only [conjunction, code]
  have tree : (fun t => site.head.tree t (operand t) .operation) = fun t =>
      BlockHead.logical (operand t) op := by
    funext t
    simp only [BlockHead.tree, field, ofField]
  rw [tree]
  exact emits_pure (conveys_logical logical (first.later grows) second)

/-- What is asked of a list. -/
theorem conveys_access {numeric : Prop} {meant list : Pass → Expr} {items : String} (accessor : Accessor)
    (fills : Fills typed .unaryPostfix list items s) (same : ∀ t, meant t = .access (list t) accessor) :
    Conveys tight typed numeric meant
    (some (.value (items ++ ("." ++ accessor.name ++ "()")) .unaryPostfix)) s := by
  obtain ⟨e, inner, writes, fits, known⟩ := fills
  refine conveys (writes.access accessor (le_of_fits fits)) ?_ rfl fun isTyped t later => ?_
  · exact writes.start.not_isNumeral_append (c := '(') (by simp) ⟨by decide, by decide, by decide⟩
  · rw [same, known isTyped t later]

/-- An element of a list by its place. -/
theorem conveys_index {numeric : Prop} {meant list place : Pass → Expr} {items index : String} {order : Order}
    (fills : Fills typed .unaryPostfix list items s) (fillsPlace : Fills typed order place index s)
    (same : ∀ t, meant t = .index (list t) (place t)) :
    Conveys tight typed numeric meant (some (.value (items ++ ("[" ++ index ++ "]")) .unaryPostfix)) s := by
  obtain ⟨e, inner, writes, fits, known⟩ := fills
  obtain ⟨f, other, writesPlace, _, knownPlace⟩ := fillsPlace
  refine conveys (writes.index (le_of_fits fits) writesPlace) ?_ rfl fun isTyped t later => ?_
  · exact writes.start.not_isNumeral_append (c := '[') (by simp) ⟨by decide, by decide, by decide⟩
  · rw [same, known isTyped t later, knownPlace isTyped t later]

/-- A place that is counted from the end of a list. -/
theorem fills_fromEnd {list place : Pass → Expr} {items index : String}
    (fills : Fills typed .unaryPostfix list items s) (fillsPlace : Fills typed .additive place index s) :
    Fills typed .none (fun t => .binary .subtract (.access (list t) .size) (place t))
      (items ++ ("." ++ Accessor.size.name ++ "()") ++ spaced "-" ++ index) s := by
  obtain ⟨e, inner, writes, fits, known⟩ := fills
  obtain ⟨f, other, writesPlace, fitsPlace, knownPlace⟩ := fillsPlace
  have size := writes.access .size (le_of_fits fits)
  have difference := Writes.binary .subtract size (by decide) writesPlace (lt_of_fits fitsPlace rfl)
  refine ⟨_, _, difference, by decide, fun isTyped t later => ?_⟩
  simp only [known isTyped t later, knownPlace isTyped t later]

theorem emits_getIndex {numeric : Prop} (valid : site.head.Valid tight .getIndex)
    (offers : site.Offers tight typed .getIndex operand) :
    Emits tight (Template.getIndex site) s
      (Conveys tight typed numeric fun t => site.head.tree t (operand t) .getIndex) := by
  obtain ⟨word, among, field⟩ := valid.choice rfl
  have found : site.field "WHERE" = .text word := field
  have shown : (site.head.field "WHERE").word = word := by rw [field]; rfl
  have asks : BlockKind.AsksNumber .getIndex "AT" := List.mem_cons_of_mem _ (List.mem_singleton.mpr rfl)
  have nothing : IsLiteral tight "\x7b\x7d" .atomic (.list []) := isLiteral_list .nil
  unfold Template.getIndex
  rw [found]
  extract_lets place
  refine (offers.fills nothing "VALUE" .unaryPostfix).bind fun items t _ fills => ?_
  simp only [List.mem_cons, List.not_mem_nil, or_false] at among
  rcases among with rfl | rfl | rfl | rfl
  · rw [if_pos (by rfl)]
    refine emits_pure (conveys_access .front fills fun u => ?_)
    simp only [BlockHead.tree, BlockHead.element, shown]
  · rw [if_neg (by simp [place, Json.isText]), if_pos (by rfl)]
    refine emits_pure (conveys_access .back fills fun u => ?_)
    simp only [BlockHead.tree, BlockHead.element, shown]
  · rw [if_neg (by simp [place, Json.isText]), if_neg (by simp [place, Json.isText]),
      if_neg (by simp [place, Json.isText])]
    refine ((offers "AT").adjusted asks ⟨by decide, by decide⟩ (by decide)).bind
      fun index u grows fillsPlace => ?_
    have code : s!"{items}[{index}]" = items ++ ("[" ++ index ++ "]") := by
      show items ++ "[" ++ index ++ "]" = _
      simp only [String.append_assoc]
    rw [code]
    refine emits_pure (conveys_index (fills.later grows) fillsPlace fun v => ?_)
    simp only [BlockHead.tree, BlockHead.element, shown]
    rfl
  · rw [if_neg (by simp [place, Json.isText]), if_neg (by simp [place, Json.isText]), if_pos (by rfl)]
    refine ((offers "AT").adjusted asks ⟨by decide, by decide⟩ (by decide)).bind
      fun index u grows fillsPlace => ?_
    have code : s!"{items}[{items}.size() - {index}]" =
        items ++ ("[" ++ (items ++ ("." ++ Accessor.size.name ++ "()") ++ spaced "-" ++ index) ++ "]") := by
      show items ++ "[" ++ items ++ ".size() - " ++ index ++ "]" = _
      have size : ".size() - " = "." ++ Accessor.size.name ++ "()" ++ spaced "-" := rfl
      simp only [size, String.append_assoc]
    rw [code]
    refine emits_pure
      (conveys_index (fills.later grows) (fills_fromEnd (fills.later grows) fillsPlace) fun v => ?_)
    simp only [BlockHead.tree, BlockHead.element, shown]

/-- The template of a kind of values gives the code of the expression that its block stands for. All but those
of joined texts show literals as they are. -/
theorem emits_template (isValue : kind.shape.isValue) (valid : site.head.Valid tight kind)
    (offers : site.Offers tight typed kind operand) :
    Emits tight (kind.template site) s
      (Conveys tight typed (kind ≠ .join) fun t => site.head.tree t (operand t) kind) := by
  cases kind with
  | number => exact emits_number valid
  | arithmetic => exact emits_arithmetic valid offers
  | single => exact emits_single valid offers
  | randomInt => exact emits_randomInt offers
  | boolean => exact emits_boolean
  | compare => exact emits_compare valid offers
  | operation => exact emits_operation valid offers
  | negate => exact emits_negate offers
  | ternary => exact emits_ternary offers
  | text => exact emits_text valid
  | join => exact (emits_join valid offers).imp fun _ _ _ gives => gives.mono fun differs => differs rfl
  | readVariable => exact emits_readVariable valid
  | createList => exact emits_createList valid offers
  | getIndex => exact emits_getIndex valid offers
  | _ => cases isValue

end Values

end BlockCompiler
