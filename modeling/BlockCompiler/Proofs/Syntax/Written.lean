import BlockCompiler.Proofs.Syntax.Parser

/-!
How expressions are written, and that the parser reads them back.
-/

namespace BlockCompiler

/-- An expression in a row, with the order and the tokens in which it is written. -/
structure Piece where
  expr : Expr
  level : Order
  tokens : List Token

/-- Rows of tokens with commas between them. -/
def commas : List (List Token) → List Token
  | [] => []
  | [tokens] => tokens
  | tokens :: rest => tokens ++ .mark .comma :: commas rest

/-- An expression is written in some tokens, which are an expression of a level: parentheses make an atom
of any expression, and without them the operands of an operator bind as its grammar asks. -/
inductive Written : Expr → Order → List Token → Prop where
  | numeral (text : String) : Written (.numeral text) .atomic [.numeral text]
  | word (name : String) : Written (.word name) .atomic [.word name]
  | quoted (text : String) : Written (.quoted text) .atomic [.quoted text]
  | parenthesized {e : Expr} {level : Order} {tokens : List Token} (inner : Written e level tokens) :
    Written e .atomic (.mark .opening :: (tokens ++ [.mark .closing]))
  | list (items : List Piece) (each : ∀ item ∈ items, Written item.expr item.level item.tokens) :
    Written (.list (items.map (·.expr))) .atomic
      (.mark .openBrace :: (commas (items.map (·.tokens)) ++ [.mark .closeBrace]))
  | call {f : Expr} {level : Order} {tokens : List Token} (items : List Piece)
    (function : Written f level tokens) (tight : level ≤ .unaryPostfix)
    (each : ∀ item ∈ items, Written item.expr item.level item.tokens) :
    Written (.call f (items.map (·.expr))) .unaryPostfix
      (tokens ++ .mark .opening :: (commas (items.map (·.tokens)) ++ [.mark .closing]))
  | index {e f : Expr} {level other : Order} {tokens others : List Token}
    (items : Written e level tokens) (tight : level ≤ .unaryPostfix) (place : Written f other others) :
    Written (.index e f) .unaryPostfix (tokens ++ .mark .openSquare :: (others ++ [.mark .closeSquare]))
  | access {e : Expr} {level : Order} {tokens : List Token} (accessor : Accessor)
    (items : Written e level tokens) (tight : level ≤ .unaryPostfix) :
    Written (.access e accessor) .unaryPostfix
      (tokens ++ [.mark .dot, .word accessor.name, .mark .opening, .mark .closing])
  | negative {e : Expr} {level : Order} {tokens : List Token} (operand : Written e level tokens)
    (tight : level ≤ .unaryPrefix) : Written (.negative e) .unaryPrefix (.mark .minus :: tokens)
  | negation {e : Expr} {level : Order} {tokens : List Token} (operand : Written e level tokens)
    (tight : level ≤ .unaryPrefix) : Written (.negation e) .unaryPrefix (.mark .not :: tokens)
  | binary {e f : Expr} {level other : Order} {tokens others : List Token} (op : BinaryOp)
    (left : Written e level tokens) (tight : level ≤ op.level) (right : Written f other others)
    (tighter : other < op.level) : Written (.binary op e f) op.level (tokens ++ .mark op.mark :: others)
  | conditional {e f g : Expr} {level other third : Order} {tokens others thirds : List Token}
    (condition : Written e level tokens) (tighter : level < .conditional) (yes : Written f other others)
    (no : Written g third thirds) (tight : third ≤ .conditional) :
    Written (.conditional e f g) .conditional
      (tokens ++ .mark .question :: (others ++ .mark .colon :: thirds))

/-- What follows goes on with no expression of an order or a tighter one. -/
def Stops (order : Order) (rest : List Token) : Prop :=
  ∀ token ∈ rest.head?, ∀ level, token.joins? = some level → order < level

theorem stops_nil (order : Order) : Stops order [] := by
  intro token headed
  simp at headed

theorem stops_of_closed {order : Order} {token : Token} (rest : List Token) (closed : token.joins? = none) :
    Stops order (token :: rest) := by
  intro other headed level joins
  simp only [List.head?_cons, Option.mem_some_iff] at headed
  subst headed
  rw [closed] at joins
  cases joins

theorem stops_of_lt {order level : Order} {token : Token} (rest : List Token)
    (joins : token.joins? = some level) (looser : order < level) : Stops order (token :: rest) := by
  intro other headed found same
  simp only [List.head?_cons, Option.mem_some_iff] at headed
  subst headed
  rw [joins] at same
  exact Option.some.inj same ▸ looser

theorem Stops.mono {order tighter : Order} {rest : List Token} (stops : Stops order rest)
    (below : tighter ≤ order) : Stops tighter rest := by
  intro token headed level joins
  exact Nat.lt_of_le_of_lt below (stops token headed level joins)

theorem BinaryOp.joins?_mark (op : BinaryOp) : (Token.mark op.mark).joins? = some op.level := by
  cases op <;> rfl

theorem BinaryOp.level_ne (op : BinaryOp) :
    op.level ≠ .atomic ∧ op.level ≠ .unaryPostfix ∧ op.level ≠ .unaryPrefix ∧ op.level ≠ .conditional := by
  cases op <;> decide

section Steps

variable {fuel : Nat} {order : Order} {e f : Expr} {tokens rest : List Token}

theorem parseAt_descend (loose : order ≠ .atomic) (infixed : order ≠ .unaryPrefix) :
    parseAt (fuel + 1) order tokens =
      match parseAt fuel order.below tokens with
      | some (e, rest) => parseMore fuel order e rest
      | none => none := by
  cases order <;> first | rfl | contradiction

theorem parseMore_of_apart (apart : rest.head?.bind Token.joins? ≠ some order) :
    parseMore (fuel + 1) order e rest = some (e, rest) := by
  unfold parseMore
  rw [if_neg apart]

/-- Nothing is added to an expression where what follows does not go on with it. -/
theorem parseMore_of_stops (stops : Stops order rest) :
    parseMore (fuel + 1) order e rest = some (e, rest) := by
  apply parseMore_of_apart
  intro joins
  obtain ⟨token, headed, found⟩ := Option.bind_eq_some_iff.mp joins
  exact Nat.lt_irrefl _ (stops token headed order found)

theorem parseMore_unaryPrefix : parseMore (fuel + 1) .unaryPrefix e rest = some (e, rest) := by
  apply parseMore_of_apart
  intro joins
  obtain ⟨token, _, found⟩ := Option.bind_eq_some_iff.mp joins
  cases token with
  | mark mark => cases mark <;> simp [Token.joins?, BinaryOp.ofMark?, BinaryOp.level] at found
  | _ => simp [Token.joins?] at found

theorem parseMore_call :
    parseMore (fuel + 1) .unaryPostfix e (.mark .opening :: rest) =
      match parseItems fuel .closing rest with
      | some (arguments, rest) => parseMore fuel .unaryPostfix (.call e arguments) rest
      | none => none := by
  conv_lhs => unfold parseMore
  exact if_pos (by rfl)

theorem parseMore_index :
    parseMore (fuel + 1) .unaryPostfix e (.mark .openSquare :: rest) =
      match parseAt fuel .none rest with
      | some (place, .mark .closeSquare :: rest) => parseMore fuel .unaryPostfix (.index e place) rest
      | _ => none := by
  conv_lhs => unfold parseMore
  exact if_pos (by rfl)

theorem parseMore_access (accessor : Accessor) :
    parseMore (fuel + 1) .unaryPostfix e
        (.mark .dot :: .word accessor.name :: .mark .opening :: .mark .closing :: rest) =
      parseMore fuel .unaryPostfix (.access e accessor) rest := by
  conv_lhs => unfold parseMore
  rw [if_pos (by rfl)]
  simp only [Accessor.ofName?_name]

theorem parseMore_choice :
    parseMore (fuel + 1) .conditional e (.mark .question :: rest) =
      match parseAt fuel .none rest with
      | some (yes, .mark .colon :: rest) =>
        (parseAt fuel .conditional rest).map fun (no, rest) => (.conditional e yes no, rest)
      | _ => none := by
  conv_lhs => unfold parseMore
  exact if_pos (by rfl)

theorem parseMore_operator (op : BinaryOp) :
    parseMore (fuel + 1) op.level e (.mark op.mark :: rest) =
      match parseAt fuel op.level.below rest with
      | some (operand, rest) => parseMore fuel op.level (.binary op e operand) rest
      | none => none := by
  conv_lhs => unfold parseMore
  rw [if_pos (by simp [op.joins?_mark])]
  cases op <;> rfl

end Steps

/-- The loosest order with which no expression of an order goes on. Chains of operators go on with their
own order, but a choice takes all that follows it into its last part. -/
def Order.firm (order : Order) : Order := if order = .conditional then .conditional else order.below

theorem Order.firm_le (order : Order) : order.firm ≤ order := by cases order <;> decide

theorem Order.below_le_firm (order : Order) : order.below ≤ order.firm := by cases order <;> decide

/-- An expression is read back from its tokens at an order: what the parser makes of them and of what
follows is what it makes of the expression and of what follows, with most of its fuel left. -/
def ReadsAt (order : Order) (e : Expr) (tokens : List Token) : Prop :=
  ∀ rest, Stops order.firm rest → ∀ fuel, 20 * tokens.length + order.depth + 2 ≤ fuel →
    ∃ left, fuel ≤ left + 20 * tokens.length + order.depth + 1 ∧
      parseAt fuel order (tokens ++ rest) = parseMore left order e rest

theorem ReadsAt.whole {order : Order} {e : Expr} {tokens rest : List Token}
    (reads : ReadsAt order e tokens) (stops : Stops order rest) (fuel : Nat)
    (enough : 20 * tokens.length + order.depth + 2 ≤ fuel) :
    parseAt fuel order (tokens ++ rest) = some (e, rest) := by
  obtain ⟨left, bound, same⟩ := reads rest (stops.mono order.firm_le) fuel enough
  obtain ⟨spare, rfl⟩ : ∃ spare, left = spare + 1 := ⟨left - 1, by omega⟩
  rw [same, parseMore_of_stops stops]

/-- Tokens that are no sign. -/
def Unsigned (tokens : List Token) : Prop :=
  ∃ token rest, tokens = token :: rest ∧ token ≠ .mark .minus ∧ token ≠ .mark .not

theorem Unsigned.append {tokens : List Token} (plain : Unsigned tokens) (others : List Token) :
    Unsigned (tokens ++ others) := by
  obtain ⟨token, rest, rfl, minus, not⟩ := plain
  exact ⟨token, rest ++ others, rfl, minus, not⟩

theorem Written.unsigned {e : Expr} {level : Order} {tokens : List Token} (written : Written e level tokens)
    (tight : level ≤ .unaryPostfix) : Unsigned tokens := by
  induction written with
  | numeral text => exact ⟨_, _, rfl, by simp, by simp⟩
  | word name => exact ⟨_, _, rfl, by simp, by simp⟩
  | quoted text => exact ⟨_, _, rfl, by simp, by simp⟩
  | parenthesized inner ih => exact ⟨_, _, rfl, by simp, by simp⟩
  | list items each ih => exact ⟨_, _, rfl, by simp, by simp⟩
  | call items function below each ih _ => exact (ih below).append _
  | index items below place ih _ => exact (ih below).append _
  | access accessor items below ih => exact (ih below).append _
  | negative operand below ih => exact absurd tight (by decide)
  | negation operand below ih => exact absurd tight (by decide)
  | binary op left below right tighter =>
    revert tight
    cases op <;> exact fun tight => absurd tight (by decide)
  | conditional condition tighter yes no below => exact absurd tight (by decide)

/-- An expression that is read back at one order is read back at the next looser one. -/
theorem ReadsAt.ascend {order : Order} {e : Expr} {tokens : List Token}
    (reads : ReadsAt order.below e tokens) (loose : order ≠ .atomic)
    (plain : order = .unaryPrefix → Unsigned tokens) : ReadsAt order e tokens := by
  intro rest stops fuel enough
  have depth := Order.depth_below loose
  obtain ⟨spare, rfl⟩ : ∃ spare, fuel = spare + 1 := ⟨fuel - 1, by omega⟩
  have inner := reads.whole (stops.mono order.below_le_firm) spare (by omega)
  by_cases sign : order = .unaryPrefix
  · obtain ⟨token, later, rfl, minus, not⟩ := plain sign
    subst sign
    refine ⟨spare, by omega, ?_⟩
    obtain ⟨left, rfl⟩ : ∃ left, spare = left + 1 := ⟨spare - 1, by omega⟩
    rw [parseMore_unaryPrefix, ← inner]
    show parseAt (left + 1 + 1) .unaryPrefix (token :: (later ++ rest)) = _
    unfold parseAt
    split
    · rename_i head; cases head; exact absurd rfl minus
    · rename_i head; cases head; exact absurd rfl not
    · rfl
  · refine ⟨spare, by omega, ?_⟩
    rw [parseAt_descend loose sign, inner]

theorem ReadsAt.loosen {order looser : Order} {e : Expr} {tokens : List Token}
    (reads : ReadsAt order e tokens) (plain : order ≤ .unaryPostfix → Unsigned tokens) (le : order ≤ looser) :
    ReadsAt looser e tokens := by
  induction depth : looser.depth generalizing looser with
  | zero =>
    have tight : looser = .atomic := by
      revert depth
      cases looser <;> decide
    have same : order = .atomic := by
      subst tight
      exact Order.rank_injective (Nat.le_zero.mp le)
    exact tight ▸ same ▸ reads
  | succ n ih =>
    by_cases same : order = looser
    · exact same ▸ reads
    have tighter : order < looser := Nat.lt_of_le_of_ne le fun rank => same (Order.rank_injective rank)
    have loose : looser ≠ .atomic := by
      rintro rfl
      simp [Order.depth, Order.rank] at depth
    have below := Order.le_below tighter
    have shallower := Order.depth_below loose
    refine (ih below (by omega)).ascend loose fun isPrefix => plain ?_
    subst isPrefix
    exact below

/-- Where an expression is wanted, what is written of it is read back as a whole. -/
theorem Written.parse {e : Expr} {level order : Order} {tokens rest : List Token}
    (written : Written e level tokens) (reads : ReadsAt level e tokens) (le : level ≤ order)
    (stops : Stops order rest) (fuel : Nat) (enough : 20 * tokens.length + order.depth + 2 ≤ fuel) :
    parseAt fuel order (tokens ++ rest) = some (e, rest) :=
  (reads.loosen written.unsigned le).whole stops fuel enough

theorem le_none (order : Order) : order ≤ .none := by cases order <;> decide

/-- Tokens with which an expression begins. -/
def Token.begins : Token → Bool
  | .numeral _ | .word _ | .quoted _ => true
  | .mark sign => sign = .opening ∨ sign = .openBrace ∨ sign = .minus ∨ sign = .not

theorem Written.begins {e : Expr} {level : Order} {tokens : List Token} (written : Written e level tokens) :
    ∃ token rest, tokens = token :: rest ∧ token.begins := by
  have longer : ∀ {tokens : List Token} others, (∃ token rest, tokens = token :: rest ∧ token.begins) →
      ∃ token rest, tokens ++ others = token :: rest ∧ token.begins := by
    rintro _ others ⟨token, rest, rfl, begins⟩
    exact ⟨token, rest ++ others, rfl, begins⟩
  induction written with
  | call items function tight each ih _ => exact longer _ ih
  | index items tight place ih _ => exact longer _ ih
  | access accessor items tight ih => exact longer _ ih
  | binary op left tight right tighter ih _ => exact longer _ ih
  | conditional condition tighter yes no tight ih _ _ => exact longer _ ih
  | _ => exact ⟨_, _, rfl, rfl⟩

section Rows

variable (closer : Mark) (rest : List Token)

/-- Items that are read back one by one are read back as a row. -/
theorem parseRow_commas (ends : (Token.mark closer).joins? = none) (other : closer ≠ .comma) (first : Piece)
    (items : List Piece) (each : ∀ item ∈ first :: items, Written item.expr item.level item.tokens)
    (reads : ∀ item ∈ first :: items, ReadsAt item.level item.expr item.tokens) (fuel : Nat)
    (enough : 20 * (commas ((first :: items).map (·.tokens))).length + 21 ≤ fuel) :
    parseRow fuel closer (commas ((first :: items).map (·.tokens)) ++ .mark closer :: rest) =
      some ((first :: items).map (·.expr), rest) := by
  induction items generalizing first fuel with
  | nil =>
    obtain ⟨spare, rfl⟩ : ∃ spare, fuel = spare + 1 := ⟨fuel - 1, by omega⟩
    simp only [List.map_cons, List.map_nil, commas] at enough ⊢
    have read := (each first (by simp)).parse (reads first (by simp)) (le_none _)
      (stops_of_closed rest ends) spare (by simp only [Order.depth]; omega)
    simp only [parseRow, read, if_true]
  | cons second items ih =>
    obtain ⟨spare, rfl⟩ : ∃ spare, fuel = spare + 1 := ⟨fuel - 1, by omega⟩
    have later := ih second (fun item among => each item (by simp_all))
      (fun item among => reads item (by simp_all))
      spare
    have commaStops : ∀ rest, Stops .none (.mark .comma :: rest) := fun rest => stops_of_closed rest rfl
    simp only [List.map_cons, commas, List.length_append, List.length_cons] at enough later ⊢
    have read := (each first (by simp)).parse (reads first (by simp)) (le_none _)
      (commaStops (commas (second.tokens :: items.map (·.tokens)) ++ .mark closer :: rest)) spare
      (by simp only [Order.depth]; omega)
    rw [List.append_assoc, List.cons_append]
    simp only [parseRow, read, if_neg other.symm, if_true, later (by omega), Option.map_some]

theorem parseItems_commas (ends : (Token.mark closer).joins? = none) (other : closer ≠ .comma)
    (foreign : (Token.mark closer).begins = false) (items : List Piece)
    (each : ∀ item ∈ items, Written item.expr item.level item.tokens)
    (reads : ∀ item ∈ items, ReadsAt item.level item.expr item.tokens) (fuel : Nat)
    (enough : 20 * (commas (items.map (·.tokens))).length + 22 ≤ fuel) :
    parseItems fuel closer (commas (items.map (·.tokens)) ++ .mark closer :: rest) =
      some (items.map (·.expr), rest) := by
  obtain ⟨spare, rfl⟩ : ∃ spare, fuel = spare + 1 := ⟨fuel - 1, by omega⟩
  cases items with
  | nil => simp [parseItems, commas]
  | cons first items =>
    have row := parseRow_commas closer rest ends other first items each reads spare (by omega)
    obtain ⟨token, later, shape, begins⟩ := (each first (by simp)).begins
    have differs : token ≠ .mark closer := by
      rintro rfl
      rw [foreign] at begins
      cases begins
    have headed : (commas ((first :: items).map (·.tokens)) ++ .mark closer :: rest).head? ≠
        some (.mark closer) := by
      cases items <;> simp [commas, shape, differs]
    rw [parseItems, if_neg headed, row]

end Rows

/-- An atom is read back. -/
theorem ReadsAt.atom {e : Expr} {tokens : List Token}
    (read : ∀ rest fuel, 20 * tokens.length ≤ fuel + 1 →
    parseAtom (fuel + 1) (tokens ++ rest) = some (e, rest)) :
    ReadsAt .atomic e tokens := by
  intro rest stops fuel enough
  obtain ⟨spare, rfl⟩ : ∃ spare, fuel = spare + 2 := ⟨fuel - 2, by omega⟩
  refine ⟨spare + 1, by omega, ?_⟩
  rw [parseMore_of_stops (stops.mono (by decide)), parseAt, read rest spare (by omega)]

/-- What makes a longer expression of one that is read back is read back with it. -/
theorem ReadsAt.extend {order : Order} {e f : Expr} {tokens : List Token} {token : Token} {more : List Token}
    (reads : ReadsAt order e tokens) (joins : token.joins? = some order) (firm : order.firm < order)
    (step : ∀ rest, Stops order.firm rest → ∀ fuel, 20 * (more.length + 1) ≤ fuel →
      parseMore (fuel + 1) order e (token :: (more ++ rest)) = parseMore fuel order f rest) :
    ReadsAt order f (tokens ++ token :: more) := by
  intro rest stops fuel enough
  simp only [List.length_append, List.length_cons] at enough ⊢
  obtain ⟨left, bound, same⟩ := reads (token :: (more ++ rest)) (stops_of_lt _ joins firm) fuel (by omega)
  obtain ⟨spare, rfl⟩ : ∃ spare, left = spare + 1 := ⟨left - 1, by omega⟩
  refine ⟨spare, by omega, ?_⟩
  rw [List.append_assoc, List.cons_append, same, step rest stops spare (by omega)]

/-- A sign before an expression that is read back is read back with it. -/
theorem ReadsAt.sign {e : Expr} {token : Token} {tokens : List Token} {signed : Expr → Expr}
    (reads : ReadsAt .unaryPrefix e tokens)
    (step : ∀ rest fuel, parseAt (fuel + 1) .unaryPrefix (token :: (tokens ++ rest)) =
      (parseAt fuel .unaryPrefix (tokens ++ rest)).map fun (e, rest) => (signed e, rest)) :
    ReadsAt .unaryPrefix (signed e) (token :: tokens) := by
  intro rest stops fuel enough
  simp only [List.length_cons] at enough ⊢
  obtain ⟨spare, rfl⟩ : ∃ spare, fuel = spare + 1 := ⟨fuel - 1, by omega⟩
  obtain ⟨left, bound, same⟩ := reads rest stops spare (by omega)
  obtain ⟨less, rfl⟩ : ∃ less, left = less + 1 := ⟨left - 1, by omega⟩
  refine ⟨spare, by omega, ?_⟩
  obtain ⟨fewer, rfl⟩ : ∃ fewer, spare = fewer + 1 := ⟨spare - 1, by omega⟩
  rw [List.cons_append, step, same, parseMore_unaryPrefix, parseMore_unaryPrefix, Option.map_some]

/-- What is written of an expression is read back. -/
theorem Written.readsAt {e : Expr} {level : Order} {tokens : List Token} (written : Written e level tokens) :
    ReadsAt level e tokens := by
  induction written with
  | numeral text => exact .atom fun rest fuel enough => rfl
  | word name => exact .atom fun rest fuel enough => rfl
  | quoted text => exact .atom fun rest fuel enough => rfl
  | @parenthesized e level tokens inner ih =>
    refine .atom fun rest fuel enough => ?_
    simp only [List.length_append, List.length_cons, List.length_nil] at enough
    have depth := Order.depth_le .none
    have stop : Stops .none (.mark .closing :: rest) := stops_of_closed rest rfl
    have read := inner.parse ih (le_none _) stop fuel (by omega)
    rw [List.cons_append, List.append_assoc, List.singleton_append]
    simp only [parseAtom, read]
  | list items each ih =>
    refine .atom fun rest fuel enough => ?_
    simp only [List.length_append, List.length_cons, List.length_nil] at enough
    have read := parseItems_commas .closeBrace rest rfl (by decide) (by decide) items each ih fuel (by omega)
    rw [List.cons_append, List.append_assoc, List.singleton_append]
    simp only [parseAtom, read, Option.map_some]
  | call items function tight each ih items_ih =>
    refine (ih.loosen function.unsigned tight).extend rfl (by decide) fun rest stops fuel enough => ?_
    simp only [List.length_append, List.length_cons, List.length_nil] at enough
    have read :=
      parseItems_commas .closing rest rfl (by decide) (by decide) items each items_ih fuel (by omega)
    rw [List.append_assoc, List.singleton_append, parseMore_call, read]
  | index items tight place ih place_ih =>
    refine (ih.loosen items.unsigned tight).extend rfl (by decide) fun rest stops fuel enough => ?_
    simp only [List.length_append, List.length_cons, List.length_nil] at enough
    have depth := Order.depth_le .none
    have stop : Stops .none (.mark .closeSquare :: rest) := stops_of_closed rest rfl
    have read := place.parse place_ih (le_none _) stop fuel (by omega)
    rw [List.append_assoc, List.singleton_append, parseMore_index, read]
  | access accessor items tight ih =>
    refine (ih.loosen items.unsigned tight).extend rfl (by decide) fun rest stops fuel enough => ?_
    exact parseMore_access accessor
  | negative operand tight ih =>
    exact (ih.loosen operand.unsigned tight).sign fun rest fuel => rfl
  | negation operand tight ih =>
    exact (ih.loosen operand.unsigned tight).sign fun rest fuel => rfl
  | @binary e f level other tokens others op left tight right tighter ih right_ih =>
    have firm : op.level.firm = op.level.below := if_neg op.level_ne.2.2.2
    have lt := Order.below_lt op.level_ne.1
    refine (ih.loosen left.unsigned tight).extend op.joins?_mark (firm ▸ lt) fun rest stops fuel enough => ?_
    have depth := op.level.below.depth_le
    have read := right.parse right_ih (Order.le_below tighter) (firm ▸ stops) fuel (by omega)
    rw [parseMore_operator, read]
  | @conditional e f g level other third tokens others thirds condition tighter yes no tight ih
      yes_ih no_ih =>
    intro rest stops fuel enough
    simp only [List.length_append, List.length_cons] at enough ⊢
    have depth : Order.none.depth = 17 ∧ Order.conditional.depth = 14 ∧ Order.ifNull.depth = 13 := by decide
    obtain ⟨spare, rfl⟩ : ∃ spare, fuel = spare + 2 := ⟨fuel - 2, by omega⟩
    have question : Stops .ifNull (.mark .question :: (others ++ .mark .colon :: (thirds ++ rest))) :=
      stops_of_lt _ rfl (by decide)
    have colon : Stops .none (.mark .colon :: (thirds ++ rest)) := stops_of_closed _ rfl
    have le : level ≤ .ifNull := Order.le_below tighter
    have first := condition.parse ih le question (spare + 1) (by omega)
    have second := yes.parse yes_ih (le_none _) colon spare (by omega)
    have third := no.parse no_ih tight stops spare (by omega)
    refine ⟨spare + 1, by omega, ?_⟩
    have ended : ∀ g, parseMore (spare + 1) .conditional g rest = some (g, rest) :=
      fun _ => parseMore_of_stops stops
    rw [ended, parseAt_descend (by decide) (by decide)]
    simp only [List.append_assoc, List.cons_append, Order.below, first, parseMore_choice, second, third,
      Option.map_some]

/-- Tokens in which an expression of a level is written are that expression at every order from there on. -/
theorem Written.parseTokens {e : Expr} {level order : Order} {tokens : List Token}
    (written : Written e level tokens) (le : level ≤ order) : parseTokens order tokens = some e := by
  have depth := order.depth_le
  have read := written.parse written.readsAt le (stops_nil order) (20 * tokens.length + 40) (by omega)
  rw [List.append_nil] at read
  simp only [BlockCompiler.parseTokens, read]

/-- Two expressions with the same logical operator between them are written without parentheses, though
the right one may have that operator at its root: then they are read as a chain. -/
theorem Written.logical {op : BinaryOp} (logical : op.IsLogical) {e f : Expr} {bound level : Order}
    {leading tokens : List Token} (left : Written e bound leading) (tight : bound ≤ op.level)
    (right : Written f level tokens) (le : level ≤ op.level) :
    ∃ g, Written g op.level (leading ++ .mark op.mark :: tokens) ∧ Expr.Alike g (.binary op e f) := by
  by_cases tighter : level < op.level
  · exact ⟨_, .binary op left tight right tighter, .refl _⟩
  have same : level = op.level := Order.rank_injective (Nat.le_antisymm le (Nat.le_of_not_lt tighter))
  clear le tighter
  induction right with
  | @binary f g level _ tokens _ inner first below second tighter ih _ =>
    have single : inner = op := by
      revert same
      rcases logical with rfl | rfl <;> cases inner <;> decide
    subst single
    have chain : ∃ h, Written h inner.level (leading ++ .mark inner.mark :: tokens) ∧
        Expr.Alike h (.binary inner e f) := by
      by_cases lower : level < inner.level
      · exact ⟨_, .binary inner left tight first lower, .refl _⟩
      · exact ih (Order.rank_injective (Nat.le_antisymm below (Nat.le_of_not_lt lower)))
    obtain ⟨h, written, alike⟩ := chain
    refine ⟨.binary inner h g, ?_, ?_⟩
    · have whole := Written.binary inner written (Nat.le_refl _) second tighter
      rwa [List.append_assoc, List.cons_append] at whole
    · exact (Expr.Alike.binary inner alike (.refl g)).trans (.associate logical e f g)
  | _ => rcases logical with rfl | rfl <;> cases same

theorem Order.all_sorted : Order.all.Pairwise (· ≤ ·) := by decide

/-- The root of a text that is an expression of an order binds no looser than the order. -/
theorem rootLevel?_le {text : String} {order : Order} {e : Expr} (parsed : parseOf order text = some e) :
    ∃ level, rootLevel? text = some level ∧ level ≤ order := by
  have found : (rootLevel? text).isSome := by
    rw [rootLevel?, List.find?_isSome]
    exact ⟨order, order.mem_all, by simp [parsed]⟩
  obtain ⟨level, first⟩ := Option.isSome_iff_exists.mp found
  refine ⟨level, first, ?_⟩
  obtain ⟨_, before, after, shape, none⟩ := List.find?_eq_some_iff_append.mp first
  have sorted := Order.all_sorted
  rw [shape, List.pairwise_append, List.pairwise_cons] at sorted
  have among : order ∈ before ++ level :: after := shape ▸ order.mem_all
  rcases List.mem_append.mp among with earlier | later
  · have fails := none order earlier
    simp [parsed] at fails
  · rcases List.mem_cons.mp later with rfl | behind
    · exact Nat.le_refl _
    · exact sorted.2.1.1 order behind

end BlockCompiler
