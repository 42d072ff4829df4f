import BindingToggle.Expression.Error
import BindingToggle.Expression.Tree

/-!
# Productions

Each production of the grammar takes the tokens that it stands in front of, and gives back what it
reads and the tokens behind it. The end of the list is the end of the source.

An expression nests when it stands inside another one, or behind an operator. `Inner` holds the
parsers for expressions one level further in, and the productions are parametrised by it, so that
a bound on the depth is the recursion on which the whole grammar is built.

A `Production` consumes at least one token when it succeeds. This is why the loops over operators,
suffixes and lists end; `items` is the loop over the items of a list in brackets.

Models the parser's `consume`, `expect` and `unexpected`. `enter` and `leave`, which count the
depth, are the step from a parser to the one that `Inner` holds.
-/

namespace BindingToggle

/-- How deep expressions may nest. -/
def maxDepth : Nat := 128

/-- The outcome of reading something in front of a list of tokens. -/
abbrev Parse (α : Type) := Except ParseError (α × List Token)

namespace Parse

/-- When the parser succeeds, fewer tokens are left than there were. -/
def Consumes {α : Type} (ts : List Token) (p : Parse α) : Prop :=
  ∀ a rest, p = .ok (a, rest) → rest.length < ts.length

/-- The error of a token that does not fit. -/
def unexpected : List Token → ParseError
  | [] => .unexpectedEnd
  | t :: _ => .unexpectedToken t.text t.span.start

/-- Reads the punctuator `p` if it comes next. -/
def consume? (p : Punct) : List Token → Option (Token × List Token)
  | [] => none
  | t :: ts => if t.isPunct p then some (t, ts) else none

/-- Reads the punctuator `p`, which has to come next. -/
def expect (p : Punct) (ts : List Token) : Parse Token :=
  match consume? p ts with
  | some r => .ok r
  | none => .error (unexpected ts)

theorem eq_cons_of_consume? {p : Punct} {ts rest : List Token} {t : Token}
    (h : consume? p ts = some (t, rest)) : ts = t :: rest := by
  cases ts with
  | nil => cases h
  | cons u us => grind [consume?]

theorem length_of_consume? {p : Punct} {ts rest : List Token} {t : Token}
    (h : consume? p ts = some (t, rest)) : ts.length = rest.length + 1 := by
  rw [eq_cons_of_consume? h]; rfl

theorem expect_consumes (p : Punct) (ts : List Token) : Consumes ts (expect p ts) := by
  intro t rest h
  unfold expect at h
  split at h
  · next hc => cases h; have := length_of_consume? hc; omega
  · cases h

end Parse

/-- A parser that consumes at least one token when it succeeds. -/
structure Production where
  run : List Token → Parse Expr
  consumes : ∀ ts, Parse.Consumes ts (run ts)

namespace Production

open Parse

/-- The items up to the closing punctuator, with commas between them and perhaps one behind the
last, and the token that closes the list. Where `holes` are allowed, an item may be missing. -/
def items (item : Production) (close : Punct) (holes : Bool) (ts : List Token) :
    Parse (List Expr × Token) :=
  match consume? close ts with
  | some (last, rest) => .ok (([], last), rest)
  | none =>
    match _hh : if holes then consume? .comma ts else none with
    | some (_, afterHole) => items item close holes afterHole
    | none =>
      match _hi : item.run ts with
      | .error e => .error e
      | .ok (expr, afterItem) =>
        match _hc : consume? .comma afterItem with
        | none =>
          match expect close afterItem with
          | .error e => .error e
          | .ok (last, rest) => .ok (([expr], last), rest)
        | some (_, afterComma) =>
          match items item close holes afterComma with
          | .error e => .error e
          | .ok ((exprs, last), rest) => .ok ((expr :: exprs, last), rest)
termination_by ts.length
decreasing_by
  · cases holes with
    | false => cases _hh
    | true => have := length_of_consume? _hh; omega
  · have h1 := item.consumes _ _ _ _hi
    have h2 := length_of_consume? _hc
    omega

theorem items_consumes (item : Production) (close : Punct) (holes : Bool) (ts : List Token) :
    Consumes ts (item.items close holes ts) := by
  intro a rest h
  fun_induction item.items close holes ts generalizing a rest with
  | case1 ts last rest' hc => cases h; have := length_of_consume? hc; omega
  | case2 ts hc hole after hh ih =>
    have h1 := ih _ _ h
    cases holes with
    | false => cases hh
    | true => have := length_of_consume? hh; omega
  | case3 => cases h
  | case4 => cases h
  | case5 ts hc hh expr after hi hcomma last rest' he =>
    cases h
    have h1 := item.consumes _ _ _ hi
    have h2 := expect_consumes _ _ _ _ he
    omega
  | case6 => cases h
  | case7 ts hc hh expr after hi comma afterComma hcomma exprs last rest' hr ih =>
    cases h
    have h1 := item.consumes _ _ _ hi
    have h2 := length_of_consume? hcomma
    have h3 := ih _ _ hr
    omega

end Production

/-- The parsers for expressions one level further in. -/
structure Inner where
  assignment : Production
  /-- An operand and the operators behind it that bind tighter than the given precedence. -/
  binary : Nat → Production
  unary : Production
  /-- What `new` is applied to. -/
  callee : Production

end BindingToggle
