import BindingToggle.Expression.Grammar.Basic

/-!
# Primary expressions

Literals, names, and expressions in brackets: `Inner.primary` reads one, without the operators and
suffixes around it. `Inner.expression` reads a whole expression one level further in, and
`Inner.element` and `Inner.entry` the items of arrays, argument lists and objects.

Models `parse_primary`, `parse_identifier_like`, `parse_array`, `parse_object`, `parse_arguments`,
`parse_element` and `parse_property_name`. `Inner.expression` is `parse_expression`.
-/

namespace BindingToggle

namespace Inner

open Parse

/-! ## Words -/

/-- Words that are values. -/
def valueWords : List Text := ["true", "false", "null", "this", "super"].map String.toList

/-- Words that begin no expression. -/
def reservedWords : List Text :=
  ["break", "case", "catch", "class", "const", "continue", "debugger", "default", "do", "else",
    "export", "extends", "finally", "for", "function", "if", "import", "let", "return", "switch",
    "throw", "try", "var", "while", "with", "yield"].map String.toList

/-- A property name behind a point: a word, or `#` and a word. -/
def propertyName : List Token → Parse Name
  | [] => .error .unexpectedEnd
  | [t] =>
    if t.kind = .ident then .ok (⟨t.text, t.span⟩, []) else .error (unexpected [t])
  | t :: u :: ts =>
    if t.isPunct .hash && u.kind == .ident then
      .ok (⟨'#' :: u.text, ⟨t.span.start, u.span.stop⟩⟩, ts)
    else if t.kind = .ident then .ok (⟨t.text, t.span⟩, u :: ts)
    else .error (unexpected (t :: u :: ts))

theorem propertyName_consumes (ts : List Token) : Consumes ts (propertyName ts) := by
  intro n rest h
  unfold propertyName at h
  grind

variable (inner : Inner)

/-! ## Lists of expressions -/

/-- The end of the last of a list of expressions. -/
def lastStop (e : Expr) : List Expr → Nat
  | [] => e.span.stop
  | f :: fs => lastStop f fs

/-- The expressions behind further commas. -/
def sequenceRest (ts : List Token) : Parse (List Expr) :=
  match _hc : consume? .comma ts with
  | none => .ok ([], ts)
  | some (_, afterComma) =>
    match _he : inner.assignment.run afterComma with
    | .error e => .error e
    | .ok (expr, rest) =>
      match sequenceRest rest with
      | .error e => .error e
      | .ok (exprs, rest) => .ok (expr :: exprs, rest)
termination_by ts.length
decreasing_by
  have h1 := length_of_consume? _hc
  have h2 := inner.assignment.consumes _ _ _ _he
  omega

/-- One expression, or several with commas between them. -/
def expression (ts : List Token) : Parse Expr :=
  match inner.assignment.run ts with
  | .error e => .error e
  | .ok (first, rest) =>
    match inner.sequenceRest rest with
    | .error e => .error e
    | .ok ([], rest) => .ok (first, rest)
    | .ok (second :: more, rest) =>
      .ok (.sequence (first :: second :: more) ⟨first.span.start, lastStop second more⟩, rest)

/-- An element of a list: an expression, or `...` and an expression. -/
def element (ts : List Token) : Parse Expr :=
  match consume? .ellipsis ts with
  | none => inner.assignment.run ts
  | some (dots, afterDots) =>
    match inner.assignment.run afterDots with
    | .error e => .error e
    | .ok (argument, rest) =>
      .ok (.spread argument ⟨dots.span.start, argument.span.stop⟩, rest)

theorem length_of_sequenceRest {ts rest : List Token} {exprs : List Expr}
    (h : inner.sequenceRest ts = .ok (exprs, rest)) : rest.length ≤ ts.length := by
  fun_induction inner.sequenceRest ts generalizing exprs rest with
  | case1 ts hc => cases h; exact Nat.le_refl _
  | case2 => cases h
  | case3 => cases h
  | case4 ts _ after hc expr rest' he exprs' rest'' hr ih =>
    cases h
    have h1 := length_of_consume? hc
    have h2 := inner.assignment.consumes _ _ _ he
    have h3 := ih hr
    omega

theorem expression_consumes (ts : List Token) : Consumes ts (inner.expression ts) := by
  intro a rest h
  unfold expression at h
  split at h
  · cases h
  · next first mid hf =>
    have h1 := inner.assignment.consumes _ _ _ hf
    split at h
    · cases h
    · next hs => cases h; have := inner.length_of_sequenceRest hs; omega
    · next hs => cases h; have := inner.length_of_sequenceRest hs; omega

theorem element_consumes (ts : List Token) : Consumes ts (inner.element ts) := by
  intro a rest h
  unfold element at h
  split at h
  · exact inner.assignment.consumes _ _ _ h
  · next hc =>
    have h1 := length_of_consume? hc
    split at h
    · cases h
    · next he => cases h; have := inner.assignment.consumes _ _ _ he; omega

/-- `element` as a production. -/
def elements : Production := ⟨inner.element, inner.element_consumes⟩

/-! ## Objects -/

/-- The value behind the key `key` of an object: what follows a colon, or the key itself when it is
a plain word. -/
def propertyValue (key : Token) (ts : List Token) : Parse Expr :=
  match consume? .colon ts with
  | some (_, afterColon) => inner.assignment.run afterColon
  | none =>
    if key.kind = .ident then .ok (.identifier ⟨key.text, key.span⟩, ts)
    else .error (unexpected ts)

/-- Whether a token can be the key of an object's entry as it stands. -/
def isKey (t : Token) : Bool :=
  match t.kind with
  | .ident | .string .. | .number => true
  | _ => false

/-- An entry of an object. Of its key only a computed one is an expression, and it is not kept. -/
def entry (ts : List Token) : Parse Expr :=
  match ts with
  | [] => .error .unexpectedEnd
  | key :: afterKey =>
    if key.isPunct .ellipsis then inner.element ts
    else if isKey key then inner.propertyValue key afterKey
    else if key.isPunct .openBracket then
      match inner.assignment.run afterKey with
      | .error e => .error e
      | .ok (_, afterName) =>
        match expect .closeBracket afterName with
        | .error e => .error e
        | .ok (_, rest) => inner.propertyValue key rest
    else .error (unexpected ts)

theorem length_of_propertyValue {key : Token} {ts rest : List Token} {e : Expr}
    (h : inner.propertyValue key ts = .ok (e, rest)) : rest.length ≤ ts.length := by
  unfold propertyValue at h
  split at h
  · next hc =>
    have h1 := length_of_consume? hc
    have h2 := inner.assignment.consumes _ _ _ h
    omega
  · split at h <;> cases h
    exact Nat.le_refl _

theorem entry_consumes (ts : List Token) : Consumes ts (inner.entry ts) := by
  intro a rest h
  unfold entry at h
  split at h
  · cases h
  · next key afterKey =>
    split at h
    · exact inner.element_consumes _ _ _ h
    · split at h
      · exact Nat.lt_succ_of_le (inner.length_of_propertyValue h)
      · split at h
        · split at h
          · cases h
          · next hn =>
            split at h
            · cases h
            · next hb =>
              have h1 := inner.assignment.consumes _ _ _ hn
              have h2 := expect_consumes _ _ _ _ hb
              have h3 := inner.length_of_propertyValue h
              rw [List.length_cons]
              omega
        · cases h

/-- `entry` as a production. -/
def entries : Production := ⟨inner.entry, inner.entry_consumes⟩

/-! ## Primary expressions -/

/-- `new` at `start`, in front of what it is applied to. -/
def construction (start : Nat) (ts : List Token) : Parse Expr :=
  match inner.callee.run ts with
  | .error e => .error e
  | .ok (callee, rest) =>
    match consume? .openParen rest with
    | none => .ok (.new callee [] ⟨start, callee.span.stop⟩, rest)
    | some (_, afterOpen) =>
      match inner.elements.items .closeParen false afterOpen with
      | .error e => .error e
      | .ok ((arguments, close), rest) =>
        .ok (.new callee arguments ⟨start, close.span.stop⟩, rest)

/-- An expression that is a word. -/
def wordExpr (t : Token) : Expr :=
  if valueWords.contains t.text then .keyword ⟨t.text, t.span⟩ else .identifier ⟨t.text, t.span⟩

/-- An expression without operators and suffixes. -/
def primary (ts : List Token) : Parse Expr :=
  match ts with
  | [] => .error .unexpectedEnd
  | t :: afterFirst =>
    match t.kind with
    | .string quote hasEscape => .ok (.string t.text quote hasEscape t.span, afterFirst)
    | .number => .ok (.number t.text t.span, afterFirst)
    | .template hasSubstitutions => .ok (.template t.text hasSubstitutions t.span, afterFirst)
    | .ident =>
      if reservedWords.contains t.text then .error (unexpected ts)
      else if t.text = "new".toList then inner.construction t.span.start afterFirst
      else .ok (wordExpr t, afterFirst)
    | .punct .openParen =>
      match inner.expression afterFirst with
      | .error e => .error e
      | .ok (e, rest) =>
        match expect .closeParen rest with
        | .error e => .error e
        | .ok (close, rest) => .ok (.paren e ⟨t.span.start, close.span.stop⟩, rest)
    | .punct .openBracket =>
      match inner.elements.items .closeBracket true afterFirst with
      | .error e => .error e
      | .ok ((exprs, close), rest) => .ok (.array exprs ⟨t.span.start, close.span.stop⟩, rest)
    | .punct .openBrace =>
      match inner.entries.items .closeBrace false afterFirst with
      | .error e => .error e
      | .ok ((exprs, close), rest) => .ok (.object exprs ⟨t.span.start, close.span.stop⟩, rest)
    | .punct _ => .error (unexpected ts)

theorem construction_consumes (start : Nat) (ts : List Token) :
    Consumes ts (inner.construction start ts) := by
  intro a rest h
  unfold construction at h
  split at h
  · cases h
  · next hc =>
    have h1 := inner.callee.consumes _ _ _ hc
    split at h
    · cases h; exact h1
    · next ho =>
      have h2 := length_of_consume? ho
      split at h
      · cases h
      · next hi => cases h; have := Production.items_consumes _ _ _ _ _ _ hi; omega

theorem primary_consumes (ts : List Token) : Consumes ts (inner.primary ts) := by
  intro a rest h
  unfold primary at h
  split at h
  · cases h
  · next t afterFirst =>
    simp only [List.length_cons]
    split at h
    · cases h; omega
    · cases h; omega
    · cases h; omega
    · split at h
      · cases h
      · split at h
        · have := inner.construction_consumes _ _ _ _ h; omega
        · cases h; omega
    · split at h
      · cases h
      · next he =>
        have h1 := inner.expression_consumes _ _ _ he
        split at h
        · cases h
        · next hp => cases h; have := expect_consumes _ _ _ _ hp; omega
    · split at h
      · cases h
      · next hi => cases h; have := Production.items_consumes _ _ _ _ _ _ hi; omega
    · split at h
      · cases h
      · next hi => cases h; have := Production.items_consumes _ _ _ _ _ _ hi; omega
    · cases h

end Inner

end BindingToggle
