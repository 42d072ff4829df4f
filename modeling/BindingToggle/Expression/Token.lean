import BindingToggle.Expression.Punct
import BindingToggle.Span

/-!
# Tokens

A token carries its text, its place, and the layout in front of it: the gap between the end of the
previous token and its own first character, which holds nothing but trivia, and whether a line ends
inside that gap.

Models `Token`; `isPunct` and `isWord` are `is_punct` and `is_ident`, and `gapWidth` is
`leading_trivia_width`.
-/

namespace BindingToggle

/-- What kind of word a token is. -/
inductive TokenKind where
  | ident
  | number
  /-- A quoted string, with the quote it is written in and whether it holds a backslash. -/
  | string (quote : Char) (hasEscape : Bool)
  /-- A template literal, and whether it holds a substitution. -/
  | template (hasSubstitutions : Bool)
  | punct (p : Punct)
  deriving DecidableEq, Repr, Inhabited

/-- A word of the expression language. -/
structure Token where
  kind : TokenKind
  text : Text
  /-- Where the gap in front of the token begins. -/
  fullStart : Nat
  span : Span
  /-- Whether the gap in front of the token holds a line terminator. -/
  newlineBefore : Bool
  deriving DecidableEq, Repr, Inhabited

namespace Token

/-- Whether the token is the punctuator `p`. -/
def isPunct (p : Punct) (t : Token) : Bool := t.kind == .punct p

/-- Whether the token is the word `word`. -/
def isWord (word : String) (t : Token) : Bool := t.kind == .ident && t.text == word.toList

/-- The width of the gap in front of the token. -/
def gapWidth (t : Token) : Nat := t.span.start - t.fullStart

end Token

/-- The tokens of a source, and the gap between the last one and the end. -/
structure TokenStream where
  tokens : List Token
  /-- Where the gap behind the last token begins. -/
  endGap : Nat
  /-- The end of the source. -/
  stop : Nat
  /-- Whether the gap behind the last token holds a line terminator. -/
  newlineBeforeEnd : Bool
  deriving DecidableEq, Repr, Inhabited

end BindingToggle
