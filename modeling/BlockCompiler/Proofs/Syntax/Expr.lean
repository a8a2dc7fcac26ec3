import BlockCompiler.Order
import BlockCompiler.Proofs.Syntax.Token
import Mathlib.Data.List.Forall2

/-!
Expressions of the generated code, as trees.
-/

namespace BlockCompiler

/-- The operators between two operands. -/
inductive BinaryOp where
  | add
  | subtract
  | multiply
  | divide
  | less
  | atMost
  | greater
  | atLeast
  | equal
  | unequal
  | and
  | or
  deriving DecidableEq, Repr

namespace BinaryOp

/-- The order of an operator. -/
def level : BinaryOp → Order
  | .add | .subtract => .additive
  | .multiply | .divide => .multiplicative
  | .less | .atMost | .greater | .atLeast => .relational
  | .equal | .unequal => .equality
  | .and => .logicalAnd
  | .or => .logicalOr

/-- The mark of an operator. -/
def mark : BinaryOp → Mark
  | .add => .plus
  | .subtract => .minus
  | .multiply => .times
  | .divide => .over
  | .less => .less
  | .atMost => .atMost
  | .greater => .greater
  | .atLeast => .atLeast
  | .equal => .equal
  | .unequal => .unequal
  | .and => .and
  | .or => .or

/-- The operator that a mark between two operands stands for. -/
def ofMark? : Mark → Option BinaryOp
  | .plus => some .add
  | .minus => some .subtract
  | .times => some .multiply
  | .over => some .divide
  | .less => some .less
  | .atMost => some .atMost
  | .greater => some .greater
  | .atLeast => some .atLeast
  | .equal => some .equal
  | .unequal => some .unequal
  | .and => some .and
  | .or => some .or
  | _ => none

/-- Whether an operator is one of the two that may be associated either way. -/
def IsLogical (op : BinaryOp) : Prop := op = .and ∨ op = .or

@[simp] theorem ofMark?_mark (op : BinaryOp) : ofMark? op.mark = some op := by cases op <;> rfl

end BinaryOp

/-- What may be asked of a list. -/
inductive Accessor where
  | front
  | back
  | size
  deriving DecidableEq, Repr

/-- The name of an accessor. -/
def Accessor.name : Accessor → String
  | .front => "front"
  | .back => "back"
  | .size => "size"

/-- The accessor with a name. -/
def Accessor.ofName? (name : String) : Option Accessor :=
  [Accessor.front, .back, .size].find? (·.name = name)

@[simp] theorem Accessor.ofName?_name (accessor : Accessor) : ofName? accessor.name = some accessor := by
  cases accessor <;> decide

/-- An expression. Numerals have no sign: a negative literal is a minus before a numeral. -/
inductive Expr where
  | numeral (text : String)
  | word (name : String)
  | quoted (text : String)
  | list (items : List Expr)
  | call (function : Expr) (arguments : List Expr)
  | index (items place : Expr)
  | access (items : Expr) (accessor : Accessor)
  | negative (operand : Expr)
  | negation (operand : Expr)
  | binary (op : BinaryOp) (left right : Expr)
  | conditional (condition yes no : Expr)

namespace Expr

/-- The order of the outermost operator of an expression. -/
def level : Expr → Order
  | .numeral _ | .word _ | .quoted _ | .list _ => .atomic
  | .call _ _ | .index _ _ | .access _ _ => .unaryPostfix
  | .negative _ | .negation _ => .unaryPrefix
  | .binary op _ _ => op.level
  | .conditional _ _ _ => .conditional

/-- The text of a literal number, and whether a minus stands before it. -/
def literal? : Expr → Option (Bool × String)
  | .numeral text => some (false, text)
  | .negative operand =>
    match operand.literal? with
    | some (false, text) => some (true, text)
    | _ => none
  | _ => none

/-- Two expressions are alike when they differ only in how conjunctions of conjunctions and disjunctions
of disjunctions are associated. -/
inductive Alike : Expr → Expr → Prop where
  | refl (e : Expr) : Alike e e
  | symm {e f : Expr} : Alike e f → Alike f e
  | trans {e f g : Expr} : Alike e f → Alike f g → Alike e g
  | associate {op : BinaryOp} (logical : op.IsLogical) (e f g : Expr) :
    Alike (.binary op (.binary op e f) g) (.binary op e (.binary op f g))
  | item {e f : Expr} (before after : List Expr) :
    Alike e f → Alike (.list (before ++ e :: after)) (.list (before ++ f :: after))
  | function {e f : Expr} (arguments : List Expr) : Alike e f → Alike (.call e arguments) (.call f arguments)
  | argument {e f : Expr} (function : Expr) (before after : List Expr) :
    Alike e f → Alike (.call function (before ++ e :: after)) (.call function (before ++ f :: after))
  | index {e f g h : Expr} : Alike e f → Alike g h → Alike (.index e g) (.index f h)
  | access {e f : Expr} (accessor : Accessor) : Alike e f → Alike (.access e accessor) (.access f accessor)
  | negative {e f : Expr} : Alike e f → Alike (.negative e) (.negative f)
  | negation {e f : Expr} : Alike e f → Alike (.negation e) (.negation f)
  | binary {e f g h : Expr} (op : BinaryOp) : Alike e f → Alike g h → Alike (.binary op e g) (.binary op f h)
  | conditional {a b c d e f : Expr} :
    Alike a b → Alike c d → Alike e f → Alike (.conditional a c e) (.conditional b d f)

theorem Alike.level {e f : Expr} (alike : Alike e f) : e.level = f.level := by
  induction alike with
  | symm _ same => exact same.symm
  | trans _ _ first second => exact first.trans second
  | _ => rfl

theorem Alike.literal? {e f : Expr} (alike : Alike e f) : e.literal? = f.literal? := by
  induction alike with
  | symm _ same => exact same.symm
  | trans _ _ first second => exact first.trans second
  | negative _ same => simp only [Expr.literal?, same]
  | _ => rfl

/-- Expressions in a row are alike one by one. -/
theorem Alike.row {es fs : List Expr} (alike : List.Forall₂ Alike es fs) {whole : List Expr → Expr}
    (one : ∀ {e f} before after, Alike e f →
    Alike (whole (before ++ e :: after)) (whole (before ++ f :: after))) :
    Alike (whole es) (whole fs) := by
  have shifted : ∀ before, Alike (whole (before ++ es)) (whole (before ++ fs)) := by
    induction alike with
    | nil => intro before; exact .refl _
    | @cons e f es fs head _ ih =>
      intro before
      have first := one before es head
      have others := ih (before ++ [f])
      rw [List.append_assoc, List.append_assoc, List.singleton_append, List.singleton_append] at others
      exact first.trans others
  exact shifted []

theorem literal?_eq_some {e : Expr} {text : String} {minus : Bool}
    (literal : e.literal? = some (minus, text)) :
    e = if minus then .negative (.numeral text) else .numeral text := by
  cases e with
  | numeral other =>
    simp only [literal?, Option.some.injEq, Prod.mk.injEq] at literal
    obtain ⟨rfl, rfl⟩ := literal
    rfl
  | negative operand =>
    cases operand with
    | numeral other =>
      simp only [literal?, Option.some.injEq, Prod.mk.injEq] at literal
      obtain ⟨rfl, rfl⟩ := literal
      rfl
    | negative inner =>
      exfalso
      revert literal
      simp only [literal?]
      cases inner.literal? with
      | none => simp
      | some found => rcases found with ⟨_ | _, _⟩ <;> simp
    | _ => simp [literal?] at literal
  | _ => simp [literal?] at literal

end Expr

end BlockCompiler
