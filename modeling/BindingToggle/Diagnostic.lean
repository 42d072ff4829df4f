import BindingToggle.Span

/-!
# Diagnostics

A `Problem` is a defect that a component's template can have; `code` and `message` give its stable
code and its wording. An `Issue` is a problem with the span that shows it, and a `Diagnostic` is
what is reported: code, message and span. `render` lists diagnostics for a terminal, one on a
line.

Models `Diagnostic` and `render_diagnostics`. A `Problem` stands for the code and the message that
`emit_diag` is called with.
-/

namespace BindingToggle

/-- What can be wrong with a component's template. -/
inductive Problem where
  /-- A quoted attribute value without its closing quote. -/
  | unterminatedValue
  /-- An element that ends without its closing tag. -/
  | unclosedElement (tag : Text)
  /-- A start tag that the template ends in the middle of. -/
  | unterminatedStartTag (tag : Text)
  /-- A closing tag that closes no open element. -/
  | unexpectedClosingTag (tag : Text)
  | unterminatedComment
  /-- A template block that the document ends in the middle of. -/
  | missingTemplateEnd
  | unterminatedInterpolation
  deriving DecidableEq, Repr, Inhabited

namespace Problem

/-- The stable code of a problem. -/
def code : Problem → String
  | unterminatedValue => "T1001"
  | unclosedElement _ => "T1002"
  | unterminatedStartTag _ => "T1002"
  | unexpectedClosingTag _ => "T1003"
  | unterminatedComment => "T1004"
  | missingTemplateEnd => "T1005"
  | unterminatedInterpolation => "T1006"

/-- The wording of a problem. -/
def message : Problem → String
  | unterminatedValue => "unterminated attribute value"
  | unclosedElement tag => "unclosed element `" ++ String.ofList tag ++ "`"
  | unterminatedStartTag tag => "unterminated start tag `" ++ String.ofList tag ++ "`"
  | unexpectedClosingTag tag => "unexpected closing tag `" ++ String.ofList tag ++ "`"
  | unterminatedComment => "unterminated comment"
  | missingTemplateEnd => "missing `</template>`"
  | unterminatedInterpolation => "unterminated interpolation"

end Problem

/-- A problem and the span that shows it. -/
structure Issue where
  problem : Problem
  span : Span
  deriving DecidableEq, Repr, Inhabited

/-- What is reported about a document. -/
structure Diagnostic where
  code : String
  message : String
  span : Span
  deriving DecidableEq, Repr, Inhabited

namespace Issue

/-- The issue with its span moved to the right. -/
def shift (delta : Nat) (i : Issue) : Issue := ⟨i.problem, i.span.shift delta⟩

/-- The report of an issue. -/
def toDiagnostic (i : Issue) : Diagnostic := ⟨i.problem.code, i.problem.message, i.span⟩

end Issue

namespace Diagnostic

/-- One diagnostic of the file at `path`, as a line of terminal output. -/
def renderLine (path : String) (d : Diagnostic) : String :=
  "error[" ++ d.code ++ "] " ++ path ++ ":" ++ toString d.span.start ++ ".." ++
    toString d.span.stop ++ " " ++ d.message

/-- The diagnostics of the file at `path`, a line each. -/
def render (path : String) (ds : List Diagnostic) : String :=
  "\n".intercalate (ds.map (renderLine path))

end Diagnostic

end BindingToggle
