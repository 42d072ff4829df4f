import BindingToggle.Expression.Program
import BindingToggle.Template.Element

/-!
# Which way an attribute can be toggled

A static attribute can be bound. A binding can be made static when its value is a single string
written out: then the string can stand as the value itself. `classify` decides this for one
attribute and, for a binding that can be made static, says where its parts are.

A binding qualifies when it is written with `:` or `v-bind:`, has a fixed argument and no modifiers,
and its expression is one statement that is a string literal without a backslash. Everything else
is ineligible, for the first reason in the order of `Ineligibility`.

Models the function of the same name; `literalBinding` is its `classify_directive`.
-/

namespace BindingToggle

/-- Why an attribute cannot be toggled. -/
inductive Ineligibility where
  /-- A directive that is no binding. -/
  | notABinding (rawName : Text)
  /-- A binding with modifiers, or without a fixed argument. -/
  | unsupportedForm (rawName : Text)
  | missingExpression
  | unparsable (e : ParseError)
  /-- None or several statements. -/
  | statementCount (count : Nat)
  /-- A lone semicolon. -/
  | notAnExpression
  | notAString
  | escapedString
  deriving DecidableEq, Repr, Inhabited

/-- The wording of a reason. -/
def Ineligibility.message : Ineligibility → String
  | notABinding rawName => "`" ++ String.ofList rawName ++ "` is not a v-bind directive"
  | unsupportedForm rawName =>
    "binding `" ++ String.ofList rawName ++
      "` has a dynamic argument, modifiers or no argument"
  | missingExpression => "binding has no expression"
  | unparsable e => "expression does not parse: " ++ e.message
  | statementCount count => "expected exactly one statement, found " ++ toString count
  | notAnExpression => "statement is not an expression"
  | notAString => "expression is not a plain string literal"
  | escapedString => "string literal contains escape sequences"

/-- A binding to a string literal. The spans of the marker and the expression are those of the
template; the place of the literal is relative to the expression. -/
structure LiteralBinding where
  marker : Span
  expression : Span
  /-- Where the statement begins, with the gap in front of it. -/
  statementPos : Nat
  /-- The width of the gap in front of the literal. -/
  gapWidth : Nat
  /-- The literal with its quotes. -/
  literal : Span
  deriving DecidableEq, Repr, Inhabited

/-- How an attribute can be toggled. -/
inductive Classification where
  | ineligible (reason : Ineligibility)
  | removable (binding : LiteralBinding)
  | addable (hasValue : Bool)
  deriving DecidableEq, Repr, Inhabited

namespace Classification

/-- Whether a string literal holds a backslash. -/
def isEscaped : Expr → Bool
  | .string _ _ hasEscape _ => hasEscape
  | .template raw _ _ => raw.contains '\\'
  | _ => false

/-- The only statement of a source, if it is a plain string literal. -/
def soleLiteral (source : Text) : Except Ineligibility ExpressionStatement :=
  match parseProgram source with
  | .error e => .error (.unparsable e)
  | .ok [.expression s] =>
    if !s.expr.isStringLiteral then .error .notAString
    else if isEscaped s.expr then .error .escapedString
    else .ok s
  | .ok [.empty _ _] => .error .notAnExpression
  | .ok ss => .error (.statementCount ss.length)

/-- Whether a binding is written in a form that can be made static. -/
def isPlain (d : Directive) : Bool :=
  (match d.argument with | some a => a.isStatic | none => false) &&
    (d.marker == .colon || d.marker == .long) && d.modifiers.isEmpty

/-- The parts of a binding to a string literal. -/
def literalBinding (d : Directive) : Except Ineligibility LiteralBinding :=
  if !d.isBinding then .error (.notABinding d.rawName)
  else if !isPlain d then .error (.unsupportedForm d.rawName)
  else
    match d.expression with
    | none => .error .missingExpression
    | some e =>
      match soleLiteral e.source with
      | .error reason => .error reason
      | .ok s => .ok ⟨d.markerSpan, e.span, s.pos, s.gapWidth, s.expr.span⟩

end Classification

/-- How an attribute can be toggled. -/
def classify : Attribute → Classification
  | .static a => .addable a.value.isSome
  | .directive d =>
    match Classification.literalBinding d with
    | .ok binding => .removable binding
    | .error reason => .ineligible reason

end BindingToggle
