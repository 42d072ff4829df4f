import BindingToggle.Expression.Grammar.Suffix

/-!
# Operators

`Inner.unaryBody` reads an operand with the operators in front of it, `Inner.binaryBody` goes on
with the operators behind it that bind tighter than a floor, and `Inner.conditional` with the two
branches of a test. An operand that is read with the floor of its operator takes in exactly the
operators that belong to it, so trees come out grouped by precedence.

Models `parse_unary`, `parse_binary` and `parse_conditional`.
-/

namespace BindingToggle

namespace Inner

open Parse

variable (inner : Inner)

/-- An operand, stepped by an operator behind it if one stands on the same line. -/
def stepped (ts : List Token) : Parse Expr :=
  match inner.postfixed ts with
  | .error e => .error e
  | .ok (e, []) => .ok (e, [])
  | .ok (e, t :: rest) =>
    match UpdateOp.ofToken? t with
    | none => .ok (e, t :: rest)
    | some op =>
      if t.newlineBefore then .ok (e, t :: rest)
      else .ok (.update op .after e ⟨e.span.start, t.span.stop⟩, rest)

/-- An operand with the operators in front of it. -/
def unaryBody (ts : List Token) : Parse Expr :=
  match ts with
  | [] => .error .unexpectedEnd
  | t :: afterFirst =>
    match UnaryOp.ofToken? t with
    | some op =>
      match inner.unary.run afterFirst with
      | .error e => .error e
      | .ok (e, rest) => .ok (.unary op e ⟨t.span.start, e.span.stop⟩, rest)
    | none =>
      match UpdateOp.ofToken? t with
      | some op =>
        match inner.unary.run afterFirst with
        | .error e => .error e
        | .ok (e, rest) => .ok (.update op .before e ⟨t.span.start, e.span.stop⟩, rest)
      | none => inner.stepped ts

/-- The operand `left` with the operators behind it that bind tighter than `floor`. -/
def operators (floor : Nat) (left : Expr) (ts : List Token) : Parse Expr :=
  match ts with
  | [] => .ok (left, [])
  | t :: afterOp =>
    match BinaryOp.ofToken? t with
    | none => .ok (left, t :: afterOp)
    | some op =>
      if op.precedence ≤ floor then .ok (left, t :: afterOp)
      else
        match _hr : (inner.binary op.rightFloor).run afterOp with
        | .error e => .error e
        | .ok (right, rest) =>
          operators floor (.binary op left right ⟨left.span.start, right.span.stop⟩) rest
termination_by ts.length
decreasing_by
  have := (inner.binary op.rightFloor).consumes _ _ _ _hr
  simp only [List.length_cons]
  omega

/-- An operand and the operators behind it that bind tighter than `floor`. -/
def binaryBody (floor : Nat) (ts : List Token) : Parse Expr :=
  match inner.unaryBody ts with
  | .error e => .error e
  | .ok (e, rest) => inner.operators floor e rest

/-- An expression with its operators, and the two branches behind it if it is a test. -/
def conditional (ts : List Token) : Parse Expr :=
  match (inner.binary 0).run ts with
  | .error e => .error e
  | .ok (test, rest) =>
    match consume? .question rest with
    | none => .ok (test, rest)
    | some (_, afterMark) =>
      match inner.assignment.run afterMark with
      | .error e => .error e
      | .ok (consequent, rest) =>
        match expect .colon rest with
        | .error e => .error e
        | .ok (_, rest) =>
          match inner.assignment.run rest with
          | .error e => .error e
          | .ok (alternate, rest) =>
            .ok (.conditional test consequent alternate
              ⟨test.span.start, alternate.span.stop⟩, rest)

theorem stepped_consumes (ts : List Token) : Consumes ts (inner.stepped ts) := by
  intro a rest h
  unfold stepped at h
  split at h
  · cases h
  · next hp => cases h; exact inner.postfixed_consumes _ _ _ hp
  · next hp =>
    have h1 := inner.postfixed_consumes _ _ _ hp
    simp only [List.length_cons] at h1
    split at h
    · cases h; simpa using h1
    · split at h <;> cases h
      · simpa using h1
      · omega

theorem unaryBody_consumes (ts : List Token) : Consumes ts (inner.unaryBody ts) := by
  intro a rest h
  unfold unaryBody at h
  split at h
  · cases h
  · split at h
    · split at h
      · cases h
      · next hu =>
        cases h
        have := inner.unary.consumes _ _ _ hu
        simp only [List.length_cons]
        omega
    · split at h
      · split at h
        · cases h
        · next hu =>
          cases h
          have := inner.unary.consumes _ _ _ hu
          simp only [List.length_cons]
          omega
      · exact inner.stepped_consumes _ _ _ h

theorem length_of_operators {floor : Nat} {left e : Expr} {ts rest : List Token}
    (h : inner.operators floor left ts = .ok (e, rest)) : rest.length ≤ ts.length := by
  fun_induction inner.operators floor left ts with
  | case1 => cases h; exact Nat.le_refl _
  | case2 => cases h; exact Nat.le_refl _
  | case3 => cases h; exact Nat.le_refl _
  | case4 => cases h
  | case5 left t after op hop hf right rest' hr ih =>
    have h1 := (inner.binary op.rightFloor).consumes _ _ _ hr
    have h2 := ih h
    simp only [List.length_cons]
    omega

theorem binaryBody_consumes (floor : Nat) (ts : List Token) :
    Consumes ts (inner.binaryBody floor ts) := by
  intro a rest h
  unfold binaryBody at h
  split at h
  · cases h
  · next hu =>
    have h1 := inner.unaryBody_consumes _ _ _ hu
    have h2 := inner.length_of_operators h
    omega

theorem conditional_consumes (ts : List Token) : Consumes ts (inner.conditional ts) := by
  intro a rest h
  unfold conditional at h
  split at h
  · cases h
  · next ht =>
    have h1 := (inner.binary 0).consumes _ _ _ ht
    split at h
    · cases h; exact h1
    · next hq =>
      have h2 := length_of_consume? hq
      split at h
      · cases h
      · next hc =>
        have h3 := inner.assignment.consumes _ _ _ hc
        split at h
        · cases h
        · next hp =>
          have h4 := expect_consumes _ _ _ _ hp
          split at h
          · cases h
          · next ha =>
            cases h
            have h5 := inner.assignment.consumes _ _ _ ha
            omega

end Inner

end BindingToggle
