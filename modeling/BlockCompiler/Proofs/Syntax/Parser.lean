import BlockCompiler.Proofs.Syntax.Expr

/-!
The grammar of expressions, in strata: one for each order, where an expression of an order is made of
expressions of the order below it. A parser by recursive descent reads them.
-/

namespace BlockCompiler

namespace Order

/-- The next tighter order. -/
def below : Order → Order
  | .atomic => .atomic
  | .unaryPostfix => .atomic
  | .unaryPrefix => .unaryPostfix
  | .multiplicative => .unaryPrefix
  | .additive => .multiplicative
  | .shift => .additive
  | .bitwiseAnd => .shift
  | .bitwiseXor => .bitwiseAnd
  | .bitwiseOr => .bitwiseXor
  | .relational => .bitwiseOr
  | .equality => .relational
  | .logicalAnd => .equality
  | .logicalOr => .logicalAnd
  | .ifNull => .logicalOr
  | .conditional => .ifNull
  | .cascade => .conditional
  | .assignment => .cascade
  | .none => .assignment

/-- How many orders are tighter. -/
def depth (order : Order) : Nat := min order.rank 17

theorem depth_below {order : Order} (loose : order ≠ .atomic) : order.below.depth + 1 = order.depth := by
  cases order <;> first | rfl | exact absurd rfl loose

theorem depth_le (order : Order) : order.depth ≤ 17 := Nat.min_le_right _ _

theorem le_below {a b : Order} (tighter : a < b) : a ≤ b.below := by
  revert tighter
  cases a <;> cases b <;> decide

theorem below_lt {order : Order} (loose : order ≠ .atomic) : order.below < order := by
  cases order <;> first | decide | exact absurd rfl loose

end Order

/-- The order at which a token goes on with an expression before it. -/
def Token.joins? : Token → Option Order
  | .mark .opening | .mark .openSquare | .mark .dot => some .unaryPostfix
  | .mark .question => some .conditional
  | .mark sign => (BinaryOp.ofMark? sign).map (·.level)
  | _ => none

mutual

/-- Read an expression of an order. Fuel counts the calls that are nested in each other. -/
def parseAt : (fuel : Nat) → Order → List Token → Option (Expr × List Token)
  | 0, _, _ => none
  | fuel + 1, .atomic, tokens => parseAtom fuel tokens
  | fuel + 1, .unaryPrefix, tokens =>
    match tokens with
    | .mark .minus :: rest => (parseAt fuel .unaryPrefix rest).map fun (e, rest) => (.negative e, rest)
    | .mark .not :: rest => (parseAt fuel .unaryPrefix rest).map fun (e, rest) => (.negation e, rest)
    | tokens => parseAt fuel .unaryPostfix tokens
  | fuel + 1, order, tokens =>
    match parseAt fuel order.below tokens with
    | some (e, rest) => parseMore fuel order e rest
    | none => none

/-- Read an atom: a literal, a word, a list in braces, or any expression in parentheses. -/
def parseAtom : (fuel : Nat) → List Token → Option (Expr × List Token)
  | 0, _ => none
  | _ + 1, .numeral text :: rest => some (.numeral text, rest)
  | _ + 1, .word name :: rest => some (.word name, rest)
  | _ + 1, .quoted text :: rest => some (.quoted text, rest)
  | fuel + 1, .mark .openBrace :: rest =>
    (parseItems fuel .closeBrace rest).map fun (items, rest) => (.list items, rest)
  | fuel + 1, .mark .opening :: rest =>
    match parseAt fuel .none rest with
    | some (e, .mark .closing :: rest) => some (e, rest)
    | _ => none
  | _ + 1, _ => none

/-- Read items with commas between them, perhaps none, up to the mark that closes them. -/
def parseItems : (fuel : Nat) → Mark → List Token → Option (List Expr × List Token)
  | 0, _, _ => none
  | fuel + 1, closer, tokens =>
    if tokens.head? = some (.mark closer) then some ([], tokens.tail) else parseRow fuel closer tokens

/-- Read one item or more with commas between them, up to the mark that closes them. -/
def parseRow : (fuel : Nat) → Mark → List Token → Option (List Expr × List Token)
  | 0, _, _ => none
  | fuel + 1, closer, tokens =>
    match parseAt fuel .none tokens with
    | some (e, .mark mark :: rest) =>
      if mark = closer then some ([e], rest)
      else if mark = .comma then (parseRow fuel closer rest).map fun (items, rest) => (e :: items, rest)
      else none
    | _ => none

/-- Go on with an expression of an order as far as what follows belongs to it: calls, subscripts and
accessors behind a postfix expression, the parts of a choice behind its condition, and further operands
behind operators, which associate to the left. -/
def parseMore : (fuel : Nat) → Order → Expr → List Token → Option (Expr × List Token)
  | 0, _, _, _ => none
  | fuel + 1, order, e, tokens =>
    if tokens.head?.bind Token.joins? = some order then
      match tokens with
      | .mark .opening :: rest =>
        match parseItems fuel .closing rest with
        | some (arguments, rest) => parseMore fuel order (.call e arguments) rest
        | none => none
      | .mark .openSquare :: rest =>
        match parseAt fuel .none rest with
        | some (place, .mark .closeSquare :: rest) => parseMore fuel order (.index e place) rest
        | _ => none
      | .mark .dot :: .word name :: .mark .opening :: .mark .closing :: rest =>
        match Accessor.ofName? name with
        | some accessor => parseMore fuel order (.access e accessor) rest
        | none => none
      | .mark .question :: rest =>
        match parseAt fuel .none rest with
        | some (yes, .mark .colon :: rest) =>
          (parseAt fuel order rest).map fun (no, rest) => (.conditional e yes no, rest)
        | _ => none
      | .mark mark :: rest =>
        match parseAt fuel order.below rest with
        | some (operand, rest) =>
          match BinaryOp.ofMark? mark with
          | some op => parseMore fuel order (.binary op e operand) rest
          | none => none
        | none => none
      | _ => none
    else some (e, tokens)

end

/-- The expression of an order that some tokens are. Twenty calls for each token are nested at most. -/
def parseTokens (order : Order) (tokens : List Token) : Option Expr :=
  match parseAt (20 * tokens.length + 40) order tokens with
  | some (e, []) => some e
  | _ => none

/-- The expression of an order that a text is. -/
def parseOf (order : Order) (text : String) : Option Expr := (lex text.toList).bind (parseTokens order)

/-- The expression that a text is. -/
def parse (text : String) : Option Expr := parseOf .none text

/-- The level of the root of a text: the tightest order of which the text is an expression. Parentheses
around the whole text make it an atom. -/
def rootLevel? (text : String) : Option Order := Order.all.find? fun order => (parseOf order text).isSome

end BlockCompiler
