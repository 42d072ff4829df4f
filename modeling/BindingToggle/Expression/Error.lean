import BindingToggle.Text.Basic

/-!
# Parse errors

Why a source is not a program of the expression language. Offsets are those of the construct that
is at fault: the opening quote of an unterminated literal, the first character of an unexpected
token.

Models `ParseError` with its messages.
-/

namespace BindingToggle

/-- Why a source is not a program. -/
inductive ParseError where
  | unterminatedString (offset : Nat)
  | unterminatedTemplate (offset : Nat)
  | unterminatedComment (offset : Nat)
  /-- A character that begins no token. -/
  | unexpectedChar (c : Char) (offset : Nat)
  /-- A token where no expression can go on with it. -/
  | unexpectedToken (text : Text) (offset : Nat)
  | unexpectedEnd
  /-- Expressions nested deeper than the limit. -/
  | tooDeep (limit : Nat)
  deriving DecidableEq, Repr, Inhabited

/-- The wording of a parse error. -/
def ParseError.message : ParseError → String
  | unterminatedString offset => "unterminated string literal at " ++ toString offset
  | unterminatedTemplate offset => "unterminated template literal at " ++ toString offset
  | unterminatedComment offset => "unterminated comment at " ++ toString offset
  | unexpectedChar c offset =>
    "unexpected character `" ++ String.singleton c ++ "` at " ++ toString offset
  | unexpectedToken text offset =>
    "unexpected token `" ++ String.ofList text ++ "` at " ++ toString offset
  | unexpectedEnd => "unexpected end of input"
  | tooDeep limit => "expression nested deeper than " ++ toString limit ++ " levels"

end BindingToggle
