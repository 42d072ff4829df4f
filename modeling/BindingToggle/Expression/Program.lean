import BindingToggle.Expression.Grammar.Assignment
import BindingToggle.Expression.Lexer

/-!
# Programs

A program is a sequence of expression statements. A statement ends at a semicolon, at the end of
the source, or where the next token begins on a new line. `parseProgram` reads a source:
`statements` splits its tokens, and every token belongs to exactly one statement.

Models `parse_program`; `statements` is `parse_statements`.
-/

namespace BindingToggle

/-- The whole grammar, with the full depth to nest in. -/
def grammar : Inner := Inner.ofDepth maxDepth

/-- The statement of an expression that begins with the token `first` and ends at `stop`. -/
def ExpressionStatement.of (first : Token) (expr : Expr) (stop : Nat) : ExpressionStatement :=
  ⟨expr, first.fullStart, first.gapWidth, stop⟩

/-- The statements of a list of tokens. -/
def statements (ts : List Token) : Except ParseError (List Statement) :=
  match ts with
  | [] => .ok []
  | first :: others =>
    if first.isPunct .semicolon then
      (statements others).map (.empty first.fullStart first.span :: ·)
    else
      match _he : grammar.expression (first :: others) with
      | .error e => .error e
      | .ok (expr, []) => .ok [.expression (.of first expr expr.span.stop)]
      | .ok (expr, t :: rest) =>
        if t.isPunct .semicolon then
          (statements rest).map (.expression (.of first expr t.span.stop) :: ·)
        else if t.newlineBefore then
          (statements (t :: rest)).map (.expression (.of first expr expr.span.stop) :: ·)
        else .error (Parse.unexpected (t :: rest))
termination_by ts.length
decreasing_by
  · simp
  · have := grammar.expression_consumes _ _ _ _he
    simp only [List.length_cons] at this ⊢
    omega
  · have := grammar.expression_consumes _ _ _ _he
    simpa using this

/-- The statements of a source. -/
def parseProgram (source : Text) : Except ParseError (List Statement) :=
  match lex source with
  | .error e => .error e
  | .ok stream => statements stream.tokens

end BindingToggle
