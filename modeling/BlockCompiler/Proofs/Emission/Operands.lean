import BlockCompiler.Proofs.Emission.Numerals

/-!
The codes of operands: what a site gives for a socket, in parentheses where the order asks for them.
-/

namespace BlockCompiler

/-- A code where an order is asked for, in parentheses if it binds no tighter. -/
def placed (order inner : Order) (code : String) : String :=
  if order.needsParens inner then parenthesized code else code

/-- A code of an order is what an expression is written as. In a stack whose plugs meet their sockets it is
the expression that is meant, under the names of the pass and of all that follow; a code for a number shows
literals as they are. -/
def Means (tight typed numeric : Prop) (meant : Pass → Option Expr) (code : String) (order : Order)
    (s : Pass) :
    Prop :=
  ∃ e, Writes code order e ∧ Literally tight code e ∧ (typed → ∀ t, s.Grows t → meant t = some e) ∧
    (typed → numeric → Exact code order e)

/-- Whether a kind asks for a number in the row of a name. -/
def BlockKind.AsksNumber (kind : BlockKind) (name : String) : Prop :=
  (name, RowKind.value, numberCheck) ∈ kind.shape.rows

/-- A site gives the default for the row of a name if that has no operand, and else the code of the
operand. -/
def Site.OffersAt (tight typed numeric : Prop) (site : Site) (name : String)
    (operand : Pass → Option Expr) : Prop :=
  ∀ order default s, Emits tight (site.value name order default) s fun text t =>
    (text = default ∧ ∀ u, operand u = none) ∨
    ∃ code inner, text = placed order inner code ∧ Means tight typed numeric operand code inner t

/-- A site gives the default for a row without an operand, and else the code of the operand. -/
def Site.Offers (tight typed : Prop) (site : Site) (kind : BlockKind)
    (operand : Pass → String → Option Expr) : Prop :=
  ∀ name, site.OffersAt tight typed (kind.AsksNumber name) name (operand · name)

/-- A text is the code of what is meant, where an order is asked for. -/
def Fills (typed : Prop) (order : Order) (meant : Pass → Expr) (text : String) (s : Pass) : Prop :=
  ∃ e inner, Writes text inner e ∧ order.needsParens inner = false ∧ (typed → ∀ t, s.Grows t → meant t = e)

theorem Fills.later {typed : Prop} {order : Order} {meant : Pass → Expr} {text : String} {s t : Pass}
    (fills : Fills typed order meant text s) (grows : s.Grows t) : Fills typed order meant text t := by
  obtain ⟨e, inner, writes, fits, same⟩ := fills
  exact ⟨e, inner, writes, fits, fun isTyped u later => same isTyped u (grows.trans later)⟩

/-- A text is the code of what is meant, where an order is asked for, and a literal of it if it is a
numeral. -/
def FillsPlainly (tight typed : Prop) (order : Order) (meant : Pass → Expr) (text : String)
    (s : Pass) : Prop :=
  ∃ e inner, Writes text inner e ∧ order.needsParens inner = false ∧ Literally tight text e ∧
    (typed → ∀ t, s.Grows t → meant t = e)

theorem FillsPlainly.later {tight typed : Prop} {order : Order} {meant : Pass → Expr} {text : String}
    {s t : Pass} (fills : FillsPlainly tight typed order meant text s) (grows : s.Grows t) :
    FillsPlainly tight typed order meant text t := by
  obtain ⟨e, inner, writes, fits, literally, same⟩ := fills
  exact ⟨e, inner, writes, fits, literally, fun isTyped u later => same isTyped u (grows.trans later)⟩

theorem Writes.placed {code : String} {inner : Order} {e : Expr} (writes : Writes code inner e)
    (order : Order) :
    ∃ level, Writes (placed order inner code) level e ∧ order.needsParens level = false := by
  unfold BlockCompiler.placed
  split_ifs with needs
  · exact ⟨.atomic, writes.parenthesized, fits_atomic order⟩
  · exact ⟨inner, writes, by simpa using needs⟩

theorem Literally.placed {tight : Prop} {code : String} {e : Expr} (literally : Literally tight code e)
    (order inner : Order) : Literally tight (placed order inner code) e := by
  unfold BlockCompiler.placed
  split_ifs
  · apply literally_of_not_isNumeral
    have headed : (parenthesized code).toList = '(' :: (code.toList ++ [')']) := by simp [parenthesized]
    exact not_isNumeral_of_head headed ⟨by decide, by decide, by decide⟩ (by decide)
  · exact literally

section Offers

variable {tight typed : Prop} {site : Site} {kind : BlockKind} {operand : Pass → String → Option Expr}
  {s : Pass}

/-- A text that stands where an order is asked for, with a default where there is no operand. -/
theorem Site.OffersAt.fillsPlainly {numeric : Prop} {name : String} {meant : Pass → Option Expr}
    (offers : site.OffersAt tight typed numeric name meant) {default : String} {d : Expr}
    (literal : IsLiteral tight default .atomic d) (order : Order) :
    Emits tight (site.value name order default) s
    (FillsPlainly tight typed order fun t => (meant t).getD d) := by
  refine (offers order default s).imp ?_
  rintro text t _ (⟨rfl, vacant⟩ | ⟨code, inner, rfl, e, written, literally, known, _⟩)
  · exact ⟨d, .atomic, literal.writes, fits_atomic order, literal.literally, fun _ u _ => by
      simp only [vacant u, Option.getD_none]⟩
  · obtain ⟨level, writes, fits⟩ := written.placed order
    refine ⟨e, level, writes, fits, literally.placed order inner, fun isTyped u later => ?_⟩
    simp only [known isTyped u later, Option.getD_some]

theorem Site.OffersAt.fills {numeric : Prop} {name : String} {meant : Pass → Option Expr}
    (offers : site.OffersAt tight typed numeric name meant) {default : String} {d : Expr}
    (literal : IsLiteral tight default .atomic d) (order : Order) :
    Emits tight (site.value name order default) s (Fills typed order fun t => (meant t).getD d) := by
  refine (offers.fillsPlainly literal order).imp ?_
  rintro text t _ ⟨e, inner, writes, fits, _, known⟩
  exact ⟨e, inner, writes, fits, known⟩

/-- A text that is empty where there is no operand. -/
def FillsMaybe (typed : Prop) (order : Order) (operand : Pass → Option Expr) (text : String)
    (s : Pass) : Prop :=
  (text = "" ∧ ∀ t, operand t = none) ∨
  text ≠ "" ∧ ∃ e inner, Writes text inner e ∧ order.needsParens inner = false ∧
    (typed → ∀ t, s.Grows t → operand t = some e)

theorem FillsMaybe.later {typed : Prop} {order : Order} {operand : Pass → Option Expr} {text : String}
    {s t : Pass} (fills : FillsMaybe typed order operand text s) (grows : s.Grows t) :
    FillsMaybe typed order operand text t := by
  rcases fills with vacant | ⟨filled, e, inner, writes, fits, same⟩
  · exact .inl vacant
  · exact .inr ⟨filled, e, inner, writes, fits, fun isTyped u later => same isTyped u (grows.trans later)⟩

theorem Site.Offers.fillsMaybe (offers : site.Offers tight typed kind operand) (name : String)
    (order : Order) :
    Emits tight (site.value name order "") s (FillsMaybe typed order (operand · name)) := by
  refine (offers name order "" s).imp ?_
  rintro text t _ (⟨rfl, vacant⟩ | ⟨code, inner, rfl, e, written, _, meant, _⟩)
  · exact .inl ⟨rfl, vacant⟩
  · obtain ⟨level, writes, fits⟩ := written.placed order
    refine .inr ⟨?_, e, level, writes, fits, meant⟩
    obtain ⟨c, rest, shape, _⟩ := writes.start
    intro empty
    rw [empty] at shape
    cases shape

theorem Site.Offers.fills (offers : site.Offers tight typed kind operand) {default : String} {d : Expr}
    (literal : IsLiteral tight default .atomic d) (name : String) (order : Order) :
    Emits tight (site.value name order default) s (Fills typed order fun t => (operand t name).getD d) :=
  (offers name).fills literal order

/-- What is asked of the operand may be asked for less often. -/
theorem Site.OffersAt.mono {numeric typed' numeric' : Prop} {name : String} {meant : Pass → Option Expr}
    (offers : site.OffersAt tight typed numeric name meant) (weaker : typed' → typed)
    (weakerNumber : typed' → numeric' → numeric) : site.OffersAt tight typed' numeric' name meant := by
  intro order default s
  refine (offers order default s).imp ?_
  rintro text t _ (vacant | ⟨code, inner, same, e, writes, literally, known, exact⟩)
  · exact .inl vacant
  · exact .inr ⟨code, inner, same, e, writes, literally, fun isTyped => known (weaker isTyped),
      fun isTyped isNumber => exact (weaker isTyped) (weakerNumber isTyped isNumber)⟩

/-- The text of a number shows literals as they are where their order fits. -/
theorem Site.OffersAt.number {numeric : Prop} {name : String} {meant : Pass → Option Expr}
    (offers : site.OffersAt tight typed numeric name meant) (asks : numeric) {default : String} {d : Expr}
    (literal : IsLiteral tight default .atomic d) (order : Order) :
    Emits tight (site.value name order default) s fun text t =>
      ∃ e inner, Writes text inner e ∧ order.needsParens inner = false ∧ Literally tight text e ∧
        (typed → (∀ u, t.Grows u → (meant u).getD d = e) ∧
          ∀ minus digits, e.literal? = some (minus, digits) → order.needsParens e.level = false →
            text = signText minus ++ digits ∧ ∃ c ∈ digits.toList.head?, c.isDigit) := by
  refine (offers order default s).imp ?_
  rintro text t _ (⟨rfl, vacant⟩ | ⟨code, inner, rfl, e, written, literally, known, exact⟩)
  · refine ⟨d, .atomic, literal.writes, fits_atomic order, literal.literally,
      fun isTyped => ⟨fun u _ => ?_, ?_⟩⟩
    · rw [vacant u, Option.getD_none]
    · intro minus digits found _
      obtain ⟨same, _, digit⟩ := literal.exact minus digits found
      exact ⟨same, digit⟩
  · obtain ⟨level, writes, fits⟩ := written.placed order
    refine ⟨e, level, writes, fits, literally.placed order inner, fun isTyped => ⟨fun u later => ?_, ?_⟩⟩
    · rw [known isTyped u later, Option.getD_some]
    · intro minus digits found apart
      obtain ⟨same, level, digit⟩ := exact isTyped asks minus digits found
      refine ⟨?_, digit⟩
      rw [placed, level, if_neg (by simp [apart]), same]

end Offers

/-- The index that stands for an empty socket. -/
theorem isLiteral_firstIndex {tight : Prop} (oneBased : Bool) :
    IsLiteral tight (if oneBased then "1" else "0") .atomic (.numeral (if oneBased then "1" else "0")) := by
  have few : ∀ n, n < 10 → n < tenTo (digitLimit - 1) := by
    intro n small
    exact Nat.lt_of_lt_of_le (show n < tenTo 1 from small) (tenTo_mono (by decide))
  cases oneBased with
  | true => exact isLiteral_nat (few 1 (by decide))
  | false => exact isLiteral_nat (few 0 (by decide))

theorem isLiteral_zero {tight : Prop} : IsLiteral tight "0" .atomic (.numeral "0") :=
  isLiteral_firstIndex false

theorem isLiteral_quoted {tight : Prop} (text : String) :
    IsLiteral tight (literal text) .atomic (.quoted text) := by
  refine ⟨.quoted text, literally_of_not_isNumeral ?_, exact_of_no_literal rfl⟩
  have headed : (literal text).toList = '\x27' :: (text.toList.flatMap literalChar ++ ['\x27']) := by
    simp [literal]
  exact not_isNumeral_of_head headed ⟨by decide, by decide, by decide⟩ (by decide)

theorem isLiteral_list {tight : Prop} {codes : List String} {es : List Expr} (all : Writes.All codes es) :
    IsLiteral tight ("\x7b" ++ joinTexts ", " codes ++ "\x7d") .atomic (.list es) := by
  refine ⟨.list all, literally_of_not_isNumeral ?_, exact_of_no_literal rfl⟩
  have headed : ("\x7b" ++ joinTexts ", " codes ++ "\x7d").toList =
      '\x7b' :: (joinTexts ", " codes ++ "\x7d").toList := by
    simp
  exact not_isNumeral_of_head headed ⟨by decide, by decide, by decide⟩ (by decide)

end BlockCompiler
