import BindingToggle.Expression.Grammar.Operand

/-!
# Arrow functions, assignments and levels

`Inner.assignmentBody` reads an arrow function or an assignment, the widest expression without a
comma. `Inner.ofDepth d` is the whole grammar for expressions that may nest `d` levels further; at
depth zero every parser fails with `ParseError.tooDeep`.

Models `parse_assignment` and `try_parse_arrow`; `Inner.closing` is `matching_close`.
-/

namespace BindingToggle

namespace Inner

open Parse

variable (inner : Inner)

/-- The bracket that closes the innermost of `depth + 1` open brackets, whatever its kind, and the
tokens behind it. -/
def closing (depth : Nat) : List Token → Option (Token × List Token)
  | [] => none
  | t :: ts =>
    match t.kind with
    | .punct p =>
      if p.isOpening then closing (depth + 1) ts
      else if p.isClosing then
        match depth with
        | 0 => some (t, ts)
        | d + 1 => closing d ts
      else closing depth ts
    | _ => closing depth ts

/-- The parameters of an arrow function, and the tokens behind its arrow. -/
def parameters? : List Token → Option (Span × List Token)
  | [] => none
  | t :: ts =>
    if t.kind = .ident then (consume? .arrow ts).map fun r => (t.span, r.2)
    else if t.isPunct .openParen then
      match closing 0 ts with
      | none => none
      | some (close, rest) =>
        (consume? .arrow rest).map fun r => (⟨t.span.start, close.span.stop⟩, r.2)
    else none

/-- The tokens without the word `async`, where it can begin an arrow function. -/
def skipAsync : List Token → List Token
  | t :: u :: ts =>
    if t.isWord "async" && !u.newlineBefore && (u.kind == .ident || u.isPunct .openParen) then
      u :: ts
    else t :: u :: ts
  | ts => ts

/-- The body of an arrow function: a block, of which only the brackets are looked at, or an
expression. -/
def arrowBody (ts : List Token) : Parse Span :=
  match consume? .openBrace ts with
  | some (brace, afterBrace) =>
    match closing 0 afterBrace with
    | none => .error .unexpectedEnd
    | some (close, rest) => .ok (⟨brace.span.start, close.span.stop⟩, rest)
  | none =>
    match inner.assignment.run ts with
    | .error e => .error e
    | .ok (e, rest) => .ok (e.span, rest)

/-- An expression, assigned to if an assignment operator follows. -/
def assigned (ts : List Token) : Parse Expr :=
  match inner.conditional ts with
  | .error e => .error e
  | .ok (target, []) => .ok (target, [])
  | .ok (target, t :: rest) =>
    match AssignOp.ofToken? t with
    | none => .ok (target, t :: rest)
    | some op =>
      match inner.assignment.run rest with
      | .error e => .error e
      | .ok (value, rest) =>
        .ok (.assign op target value ⟨target.span.start, value.span.stop⟩, rest)

/-- An arrow function or an assignment. -/
def assignmentBody (ts : List Token) : Parse Expr :=
  match ts with
  | [] => inner.assigned []
  | t :: _ =>
    match parameters? (skipAsync ts) with
    | none => inner.assigned ts
    | some (params, afterArrow) =>
      match inner.arrowBody afterArrow with
      | .error e => .error e
      | .ok (body, rest) => .ok (.arrow params body ⟨t.span.start, body.stop⟩, rest)

theorem length_of_closing {depth : Nat} {ts rest : List Token} {t : Token}
    (h : closing depth ts = some (t, rest)) : rest.length < ts.length := by
  induction ts generalizing depth with
  | nil => cases h
  | cons u us ih =>
    simp only [List.length_cons]
    simp only [closing] at h
    split at h
    · split at h
      · have := ih h; omega
      · split at h
        · split at h
          · cases h; omega
          · have := ih h; omega
        · have := ih h; omega
    · have := ih h; omega

theorem length_of_parameters? {ts rest : List Token} {s : Span}
    (h : parameters? ts = some (s, rest)) : rest.length < ts.length := by
  cases ts with
  | nil => cases h
  | cons t ts =>
    simp only [List.length_cons]
    simp only [parameters?] at h
    split at h
    · obtain ⟨⟨u, r⟩, hc, he⟩ := Option.map_eq_some_iff.1 h
      cases he
      have h1 : ts.length = r.length + 1 := length_of_consume? hc
      show r.length < ts.length + 1
      omega
    · split at h
      · split at h
        · cases h
        · next hcl =>
          obtain ⟨⟨u, r⟩, hc, he⟩ := Option.map_eq_some_iff.1 h
          cases he
          have h1 := length_of_consume? hc
          have h2 := length_of_closing hcl
          show r.length < ts.length + 1
          omega
      · cases h

theorem length_skipAsync_le (ts : List Token) : (skipAsync ts).length ≤ ts.length := by
  unfold skipAsync
  split
  · split <;> simp
  · exact Nat.le_refl _

theorem arrowBody_consumes (ts : List Token) : Consumes ts (inner.arrowBody ts) := by
  intro a rest h
  unfold arrowBody at h
  split at h
  · next hb =>
    have h1 := length_of_consume? hb
    split at h
    · cases h
    · next hc => cases h; have := length_of_closing hc; omega
  · split at h
    · cases h
    · next ha => cases h; exact inner.assignment.consumes _ _ _ ha

theorem assigned_consumes (ts : List Token) : Consumes ts (inner.assigned ts) := by
  intro a rest h
  unfold assigned at h
  split at h
  · cases h
  · next hc => cases h; exact inner.conditional_consumes _ _ _ hc
  · next hc =>
    have h1 := inner.conditional_consumes _ _ _ hc
    simp only [List.length_cons] at h1
    split at h
    · cases h; simpa using h1
    · split at h
      · cases h
      · next hv => cases h; have := inner.assignment.consumes _ _ _ hv; omega

theorem assignmentBody_consumes (ts : List Token) : Consumes ts (inner.assignmentBody ts) := by
  intro a rest h
  unfold assignmentBody at h
  split at h
  · exact inner.assigned_consumes _ _ _ h
  · next t us =>
    split at h
    · exact inner.assigned_consumes _ _ _ h
    · next hp =>
      have h1 := length_of_parameters? hp
      have h2 := length_skipAsync_le (t :: us)
      split at h
      · cases h
      · next hb => cases h; have := inner.arrowBody_consumes _ _ _ hb; omega

/-! ## Levels -/

/-- The parser that fails because expressions nest too deep. -/
def refused : Production := ⟨fun _ => .error (.tooDeep maxDepth), fun _ _ _ h => nomatch h⟩

/-- The parsers for expressions that may nest `depth` levels further. -/
def ofDepth : Nat → Inner
  | 0 => ⟨refused, fun _ => refused, refused, refused⟩
  | depth + 1 =>
    let inner := ofDepth depth
    { assignment := ⟨inner.assignmentBody, inner.assignmentBody_consumes⟩
      binary := fun floor => ⟨inner.binaryBody floor, inner.binaryBody_consumes floor⟩
      unary := ⟨inner.unaryBody, inner.unaryBody_consumes⟩
      callee := ⟨inner.calleeBody, inner.calleeBody_consumes⟩ }

end Inner

end BindingToggle
