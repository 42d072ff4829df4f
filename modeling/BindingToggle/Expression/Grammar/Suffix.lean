import BindingToggle.Expression.Grammar.Primary

/-!
# Suffixes

Properties, indices, calls and tagged templates. They follow an expression and bind tighter than
every operator: `Inner.postfixed` reads a primary expression with all its suffixes, and
`Inner.calleeBody` what `new` is applied to, which takes properties only.

Models `parse_postfix`, and `parse_new_callee`, which is `Inner.calleeBody`.
-/

namespace BindingToggle

namespace Inner

open Parse

variable (inner : Inner)

/-- An index in brackets, the opening one read. -/
def subscript (object : Expr) (isOptional : Bool) (ts : List Token) : Parse Expr :=
  match inner.expression ts with
  | .error e => .error e
  | .ok (index, rest) =>
    match expect .closeBracket rest with
    | .error e => .error e
    | .ok (close, rest) =>
      .ok (.index object index isOptional ⟨object.span.start, close.span.stop⟩, rest)

/-- The arguments of a call, the opening parenthesis read. -/
def application (callee : Expr) (isOptional : Bool) (ts : List Token) : Parse Expr :=
  match inner.elements.items .closeParen false ts with
  | .error e => .error e
  | .ok ((arguments, close), rest) =>
    .ok (.call callee arguments isOptional ⟨callee.span.start, close.span.stop⟩, rest)

/-- A property, the point read. -/
def property (object : Expr) (isOptional : Bool) (ts : List Token) : Parse Expr :=
  match propertyName ts with
  | .error e => .error e
  | .ok (name, rest) =>
    .ok (.member object name isOptional ⟨object.span.start, name.span.stop⟩, rest)

/-- What follows the mark of an optional chain. -/
def optionalSuffix (e : Expr) (ts : List Token) : Parse Expr :=
  match consume? .openParen ts with
  | some (_, rest) => inner.application e true rest
  | none =>
    match consume? .openBracket ts with
    | some (_, rest) => inner.subscript e true rest
    | none => property e true ts

/-- The expression `e` with the suffix that begins at the token `t`, if one does. -/
def suffix? (e : Expr) (t : Token) (ts : List Token) : Option (Parse Expr) :=
  match t.kind with
  | .punct .dot => some (property e false ts)
  | .punct .optionalDot => some (inner.optionalSuffix e ts)
  | .punct .openBracket => some (inner.subscript e false ts)
  | .punct .openParen => some (inner.application e false ts)
  | .template _ => some (.ok (.taggedTemplate e ⟨e.span.start, t.span.stop⟩, ts))
  | _ => none

theorem subscript_consumes (e : Expr) (b : Bool) (ts : List Token) :
    Consumes ts (inner.subscript e b ts) := by
  intro a rest h
  unfold subscript at h
  split at h
  · cases h
  · next he =>
    have h1 := inner.expression_consumes _ _ _ he
    split at h
    · cases h
    · next hp => cases h; have := expect_consumes _ _ _ _ hp; omega

theorem application_consumes (e : Expr) (b : Bool) (ts : List Token) :
    Consumes ts (inner.application e b ts) := by
  intro a rest h
  unfold application at h
  split at h
  · cases h
  · next hi => cases h; exact Production.items_consumes _ _ _ _ _ _ hi

theorem property_consumes (e : Expr) (b : Bool) (ts : List Token) :
    Consumes ts (property e b ts) := by
  intro a rest h
  unfold property at h
  split at h
  · cases h
  · next hn => cases h; exact propertyName_consumes _ _ _ hn

theorem optionalSuffix_consumes (e : Expr) (ts : List Token) :
    Consumes ts (inner.optionalSuffix e ts) := by
  intro a rest h
  unfold optionalSuffix at h
  split at h
  · next hc =>
    have h1 := length_of_consume? hc
    have h2 := inner.application_consumes _ _ _ _ _ h
    omega
  · split at h
    · next hc =>
      have h1 := length_of_consume? hc
      have h2 := inner.subscript_consumes _ _ _ _ _ h
      omega
    · exact property_consumes _ _ _ _ _ h

theorem length_of_suffix? {e f : Expr} {t : Token} {ts rest : List Token}
    (h : inner.suffix? e t ts = some (.ok (f, rest))) : rest.length ≤ ts.length := by
  unfold suffix? at h
  split at h
  · exact Nat.le_of_lt (property_consumes _ _ _ _ _ (Option.some.inj h))
  · exact Nat.le_of_lt (inner.optionalSuffix_consumes _ _ _ _ (Option.some.inj h))
  · exact Nat.le_of_lt (inner.subscript_consumes _ _ _ _ _ (Option.some.inj h))
  · exact Nat.le_of_lt (inner.application_consumes _ _ _ _ _ (Option.some.inj h))
  · cases h; exact Nat.le_refl _
  · cases h

/-- The expression `e` with all the suffixes that follow it. -/
def suffixes (e : Expr) (ts : List Token) : Parse Expr :=
  match ts with
  | [] => .ok (e, [])
  | t :: afterMark =>
    match _hs : inner.suffix? e t afterMark with
    | none => .ok (e, t :: afterMark)
    | some (.error err) => .error err
    | some (.ok (f, rest)) => suffixes f rest
termination_by ts.length
decreasing_by
  have := inner.length_of_suffix? _hs
  simp only [List.length_cons]
  omega

/-- An expression without operators. -/
def postfixed (ts : List Token) : Parse Expr :=
  match inner.primary ts with
  | .error e => .error e
  | .ok (e, rest) => inner.suffixes e rest

/-- The expression `e` with the properties that follow it. -/
def properties (e : Expr) (ts : List Token) : Parse Expr :=
  match _hc : consume? .dot ts with
  | none => .ok (e, ts)
  | some (_, afterDot) =>
    match _hp : property e false afterDot with
    | .error err => .error err
    | .ok (f, rest) => properties f rest
termination_by ts.length
decreasing_by
  have h1 := length_of_consume? _hc
  have h2 := property_consumes _ _ _ _ _ _hp
  omega

/-- What `new` is applied to: an expression with properties, but without calls. -/
def calleeBody (ts : List Token) : Parse Expr :=
  match inner.primary ts with
  | .error e => .error e
  | .ok (e, rest) => properties e rest

theorem length_of_suffixes {e f : Expr} {ts rest : List Token}
    (h : inner.suffixes e ts = .ok (f, rest)) : rest.length ≤ ts.length := by
  fun_induction inner.suffixes e ts with
  | case1 => cases h; exact Nat.le_refl _
  | case2 => cases h; exact Nat.le_refl _
  | case3 => cases h
  | case4 e t after g rest' hs ih =>
    have h1 := inner.length_of_suffix? hs
    have h2 := ih h
    simp only [List.length_cons]
    omega

theorem length_of_properties {e f : Expr} {ts rest : List Token}
    (h : properties e ts = .ok (f, rest)) : rest.length ≤ ts.length := by
  fun_induction properties e ts with
  | case1 => cases h; exact Nat.le_refl _
  | case2 => cases h
  | case3 e ts dot after hc g rest' hp ih =>
    have h1 := length_of_consume? hc
    have h2 := property_consumes _ _ _ _ _ hp
    have h3 := ih h
    omega

theorem postfixed_consumes (ts : List Token) : Consumes ts (inner.postfixed ts) := by
  intro a rest h
  unfold postfixed at h
  split at h
  · cases h
  · next hp =>
    have h1 := inner.primary_consumes _ _ _ hp
    have h2 := inner.length_of_suffixes h
    omega

theorem calleeBody_consumes (ts : List Token) : Consumes ts (inner.calleeBody ts) := by
  intro a rest h
  unfold calleeBody at h
  split at h
  · cases h
  · next hp =>
    have h1 := inner.primary_consumes _ _ _ hp
    have h2 := length_of_properties h
    omega

end Inner

end BindingToggle
