import BindingToggle.Expression.Operator

/-!
# Expression trees

The shape of an expression, with the span of every node. Arrow functions keep only the spans of
their parameters and body. A program is a list of statements, each an expression or a lone
semicolon.

Models `Expr`, `Statement` and `ExpressionStatement`, with `span` and `is_string_literal_like`.
-/

namespace BindingToggle

/-- A name and where it stands. -/
structure Name where
  text : Text
  span : Span
  deriving DecidableEq, Repr, Inhabited

/-- On which side of its operand a stepping operator stands. -/
inductive Side where
  | before | after
  deriving DecidableEq, Repr, Inhabited

/-- An expression. -/
inductive Expr where
  | string (raw : Text) (quote : Char) (hasEscape : Bool) (span : Span)
  | number (raw : Text) (span : Span)
  | template (raw : Text) (hasSubstitutions : Bool) (span : Span)
  | identifier (name : Name)
  /-- One of the words that are values: `true`, `false`, `null`, `this`, `super`. -/
  | keyword (name : Name)
  | member (object : Expr) (property : Name) (isOptional : Bool) (span : Span)
  | index (object subscript : Expr) (isOptional : Bool) (span : Span)
  | call (callee : Expr) (arguments : List Expr) (isOptional : Bool) (span : Span)
  | taggedTemplate (tag : Expr) (span : Span)
  | new (callee : Expr) (arguments : List Expr) (span : Span)
  | unary (op : UnaryOp) (operand : Expr) (span : Span)
  | update (op : UpdateOp) (side : Side) (operand : Expr) (span : Span)
  | binary (op : BinaryOp) (left right : Expr) (span : Span)
  | assign (op : AssignOp) (target value : Expr) (span : Span)
  | conditional (test consequent alternate : Expr) (span : Span)
  | sequence (exprs : List Expr) (span : Span)
  | array (elements : List Expr) (span : Span)
  | object (values : List Expr) (span : Span)
  | spread (argument : Expr) (span : Span)
  | arrow (params body span : Span)
  | paren (inner : Expr) (span : Span)
  deriving Repr, Inhabited

namespace Expr

/-- Where an expression stands. -/
def span : Expr → Span
  | string _ _ _ s | number _ s | template _ _ s | member _ _ _ s | index _ _ _ s
  | call _ _ _ s | taggedTemplate _ s | new _ _ s | unary _ _ s | update _ _ _ s
  | binary _ _ _ s | assign _ _ _ s | conditional _ _ _ s | sequence _ s | array _ s
  | object _ s | spread _ s | arrow _ _ s | paren _ s => s
  | identifier n | keyword n => n.span

/-- Whether an expression is a string written out: a quoted string, or a template literal without
substitutions. -/
def isStringLiteral : Expr → Bool
  | string .. => true
  | template _ hasSubstitutions _ => !hasSubstitutions
  | _ => false

end Expr

/-- An expression that stands as a statement. Its place begins at `pos`, in front of the gap of
width `gapWidth`, and ends at `stop`, behind its semicolon if it has one. -/
structure ExpressionStatement where
  expr : Expr
  pos : Nat
  gapWidth : Nat
  stop : Nat
  deriving Repr, Inhabited

/-- A statement. -/
inductive Statement where
  | expression (s : ExpressionStatement)
  /-- A lone semicolon, with the place at which the gap in front of it begins. -/
  | empty (pos : Nat) (span : Span)
  deriving Repr, Inhabited

end BindingToggle
