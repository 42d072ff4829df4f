import BindingToggle.Text.Basic

/-!
# Punctuators

The marks of the expression language, each with its spelling. `Punct.all` lists every mark in front
of those that it begins with, so the first mark of the list that a text begins with is the longest
one there; `Punct.ofText?` finds it.

Models the table of punctuators, and `match_punct`, which is `Punct.ofText?`.
-/

namespace BindingToggle

/-- A punctuator of the expression language. -/
inductive Punct where
  | ushrAssign | ellipsis | strictEq | strictNe | powAssign | shlAssign | shrAssign | ushr
  | andAssign | orAssign | nullishAssign | arrow | eq | ne | le | ge | and | or | nullish
  | optionalDot | increment | decrement | addAssign | subAssign | mulAssign | divAssign
  | remAssign | bitAndAssign | bitOrAssign | bitXorAssign | pow | shl | shr | openBrace
  | closeBrace | openParen | closeParen | openBracket | closeBracket | semicolon | comma | lt
  | gt | plus | minus | star | slash | percent | bitAnd | bitOr | bitXor | not | complement
  | question | colon | assign | dot | atSign | hash
  deriving DecidableEq, Repr, Inhabited

namespace Punct

/-- The spelling of a punctuator. -/
def symbol : Punct → String
  | ushrAssign => ">>>="
  | ellipsis => "..."
  | strictEq => "==="
  | strictNe => "!=="
  | powAssign => "**="
  | shlAssign => "<<="
  | shrAssign => ">>="
  | ushr => ">>>"
  | andAssign => "&&="
  | orAssign => "||="
  | nullishAssign => "??="
  | arrow => "=>"
  | eq => "=="
  | ne => "!="
  | le => "<="
  | ge => ">="
  | and => "&&"
  | or => "||"
  | nullish => "??"
  | optionalDot => "?."
  | increment => "++"
  | decrement => "--"
  | addAssign => "+="
  | subAssign => "-="
  | mulAssign => "*="
  | divAssign => "/="
  | remAssign => "%="
  | bitAndAssign => "&="
  | bitOrAssign => "|="
  | bitXorAssign => "^="
  | pow => "**"
  | shl => "<<"
  | shr => ">>"
  | openBrace => "\x7b"
  | closeBrace => "\x7d"
  | openParen => "("
  | closeParen => ")"
  | openBracket => "["
  | closeBracket => "]"
  | semicolon => ";"
  | comma => ","
  | lt => "<"
  | gt => ">"
  | plus => "+"
  | minus => "-"
  | star => "*"
  | slash => "/"
  | percent => "%"
  | bitAnd => "&"
  | bitOr => "|"
  | bitXor => "^"
  | not => "!"
  | complement => "~"
  | question => "?"
  | colon => ":"
  | assign => "="
  | dot => "."
  | atSign => "@"
  | hash => "#"

/-- Every punctuator, a longer one before those that it begins with. -/
def all : List Punct :=
  [ushrAssign, ellipsis, strictEq, strictNe, powAssign, shlAssign, shrAssign, ushr, andAssign,
  orAssign, nullishAssign, arrow, eq, ne, le, ge, and, or, nullish, optionalDot, increment,
  decrement, addAssign, subAssign, mulAssign, divAssign, remAssign, bitAndAssign, bitOrAssign,
  bitXorAssign, pow, shl, shr, openBrace, closeBrace, openParen, closeParen, openBracket,
  closeBracket, semicolon, comma, lt, gt, plus, minus, star, slash, percent, bitAnd, bitOr,
  bitXor, not, complement, question, colon, assign, dot, atSign, hash]

/-- Whether `t` begins with the punctuator. A question mark and a point in front of a digit are no
mark of their own: they belong to a conditional and a number. -/
def begins (p : Punct) (t : Text) : Bool :=
  p.symbol.toList.isPrefixOf t &&
    !(p == optionalDot && (match t[2]? with | some c => c.isDigit | none => false))

/-- The punctuator that a text begins with. -/
def ofText? (t : Text) : Option Punct := all.find? (·.begins t)

theorem symbol_ne_nil (p : Punct) : p.symbol.toList ≠ [] := by
  cases p <;> decide

/-- The punctuator found stands at the beginning of the text. -/
theorem isPrefixOf_of_ofText? {t : Text} {p : Punct} (h : ofText? t = some p) :
    p.symbol.toList.isPrefixOf t = true := by
  have := List.find?_some h
  simp only [begins, Bool.and_eq_true] at this
  exact this.1

/-- Whether a punctuator opens a bracket. -/
def isOpening : Punct → Bool
  | openParen | openBracket | openBrace => true
  | _ => false

/-- Whether a punctuator closes a bracket. -/
def isClosing : Punct → Bool
  | closeParen | closeBracket | closeBrace => true
  | _ => false

end Punct

end BindingToggle
