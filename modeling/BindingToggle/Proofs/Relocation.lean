import BindingToggle.Expression.Program

/-!
# Moving the places of tokens

The grammar looks at the kind, the text and the line of a token, and never at its place: every
offset in a tree or in an error is one of the offsets of the tokens, handed on as it is. So a change
`g` of all offsets, whatever it is, can be made before reading or after it.

* `relocate g` — a token, an expression, an error or the outcome of a parser with `g` applied to
  every offset.
* `items_eq`, `sequenceRest_eq`, `suffixes_eq`, `properties_eq`, `operators_eq` — one round of each
  loop of the grammar.
* `Inner.Relocates` — the parsers one level further in can be exchanged with a relocation; one lemma
  per production says so of the production, and `relocates_ofDepth` of the whole grammar.
-/

namespace BindingToggle

/-! ## Definitions -/

/-- The span with both ends moved by `g`. -/
def Span.relocate (g : Nat → Nat) (s : Span) : Span := ⟨g s.start, g s.stop⟩

/-- The name at another place. -/
def Name.relocate (g : Nat → Nat) (n : Name) : Name := ⟨n.text, n.span.relocate g⟩

/-- The token at another place. -/
def Token.relocate (g : Nat → Nat) (t : Token) : Token :=
  { t with fullStart := g t.fullStart, span := t.span.relocate g }

/-- The error at another place. -/
def ParseError.relocate (g : Nat → Nat) : ParseError → ParseError
  | unterminatedString offset => unterminatedString (g offset)
  | unterminatedTemplate offset => unterminatedTemplate (g offset)
  | unterminatedComment offset => unterminatedComment (g offset)
  | unexpectedChar c offset => unexpectedChar c (g offset)
  | unexpectedToken text offset => unexpectedToken text (g offset)
  | unexpectedEnd => unexpectedEnd
  | tooDeep limit => tooDeep limit

mutual

/-- The expression with all its nodes at other places. -/
def Expr.relocate (g : Nat → Nat) : Expr → Expr
  | .string raw quote hasEscape s => .string raw quote hasEscape (s.relocate g)
  | .number raw s => .number raw (s.relocate g)
  | .template raw hasSubstitutions s => .template raw hasSubstitutions (s.relocate g)
  | .identifier name => .identifier (name.relocate g)
  | .keyword name => .keyword (name.relocate g)
  | .member e property isOptional s =>
    .member (e.relocate g) (property.relocate g) isOptional (s.relocate g)
  | .index e subscript isOptional s =>
    .index (e.relocate g) (subscript.relocate g) isOptional (s.relocate g)
  | .call callee arguments isOptional s =>
    .call (callee.relocate g) (Expr.relocateAll g arguments) isOptional (s.relocate g)
  | .taggedTemplate tag s => .taggedTemplate (tag.relocate g) (s.relocate g)
  | .new callee arguments s =>
    .new (callee.relocate g) (Expr.relocateAll g arguments) (s.relocate g)
  | .unary op operand s => .unary op (operand.relocate g) (s.relocate g)
  | .update op side operand s => .update op side (operand.relocate g) (s.relocate g)
  | .binary op left right s => .binary op (left.relocate g) (right.relocate g) (s.relocate g)
  | .assign op target value s => .assign op (target.relocate g) (value.relocate g) (s.relocate g)
  | .conditional test consequent alternate s =>
    .conditional (test.relocate g) (consequent.relocate g) (alternate.relocate g) (s.relocate g)
  | .sequence exprs s => .sequence (Expr.relocateAll g exprs) (s.relocate g)
  | .array elements s => .array (Expr.relocateAll g elements) (s.relocate g)
  | .object values s => .object (Expr.relocateAll g values) (s.relocate g)
  | .spread argument s => .spread (argument.relocate g) (s.relocate g)
  | .arrow params body s => .arrow (params.relocate g) (body.relocate g) (s.relocate g)
  | .paren inner s => .paren (inner.relocate g) (s.relocate g)

/-- The expressions with all their nodes at other places. -/
def Expr.relocateAll (g : Nat → Nat) : List Expr → List Expr
  | [] => []
  | e :: es => e.relocate g :: Expr.relocateAll g es

end

@[simp] theorem Expr.relocateAll_cons (g : Nat → Nat) (e : Expr) (es : List Expr) :
    relocateAll g (e :: es) = e.relocate g :: relocateAll g es := rfl

@[simp] theorem Expr.span_relocate (g : Nat → Nat) (e : Expr) :
    (e.relocate g).span = e.span.relocate g := by
  cases e <;> rfl

/-- The outcome of a parser with the tokens left over at other places, and what was read changed by
`move`. -/
def Parse.relocate {α : Type} (g : Nat → Nat) (move : α → α) : Parse α → Parse α
  | .error e => .error (e.relocate g)
  | .ok (a, rest) => .ok (move a, rest.map (Token.relocate g))

@[simp] theorem Parse.relocate_error {α : Type} (g : Nat → Nat) (move : α → α) (e : ParseError) :
    relocate g move (.error e) = .error (e.relocate g) := rfl

@[simp] theorem Parse.relocate_ok {α : Type} (g : Nat → Nat) (move : α → α) (a : α)
    (rest : List Token) :
    relocate g move (.ok (a, rest)) = .ok (move a, rest.map (Token.relocate g)) := rfl

/-! ## Tokens -/

variable {g : Nat → Nat}

namespace Token

@[simp] theorem kind_relocate (t : Token) : (t.relocate g).kind = t.kind := rfl

@[simp] theorem text_relocate (t : Token) : (t.relocate g).text = t.text := rfl

@[simp] theorem newlineBefore_relocate (t : Token) :
    (t.relocate g).newlineBefore = t.newlineBefore := rfl

@[simp] theorem span_relocate (t : Token) : (t.relocate g).span = t.span.relocate g := rfl

@[simp] theorem isPunct_relocate (p : Punct) (t : Token) :
    (t.relocate g).isPunct p = t.isPunct p := rfl

end Token

@[simp] theorem BinaryOp.ofToken?_relocate (t : Token) :
    ofToken? (t.relocate g) = ofToken? t := rfl

@[simp] theorem AssignOp.ofToken?_relocate (t : Token) :
    ofToken? (t.relocate g) = ofToken? t := rfl

@[simp] theorem UnaryOp.ofToken?_relocate (t : Token) :
    ofToken? (t.relocate g) = ofToken? t := rfl

@[simp] theorem UpdateOp.ofToken?_relocate (t : Token) :
    ofToken? (t.relocate g) = ofToken? t := rfl

namespace Parse

theorem unexpected_relocate (ts : List Token) :
    unexpected (ts.map (Token.relocate g)) = (unexpected ts).relocate g := by
  cases ts <;> rfl

theorem consume?_relocate (p : Punct) (ts : List Token) :
    consume? p (ts.map (Token.relocate g)) =
      (consume? p ts).map (Prod.map (Token.relocate g) (List.map (Token.relocate g))) := by
  cases ts with
  | nil => rfl
  | cons t ts =>
    by_cases hp : t.isPunct p = true
    · simp [consume?, hp]
    · simp [consume?, hp]

theorem expect_relocate (p : Punct) (ts : List Token) :
    expect p (ts.map (Token.relocate g)) = (expect p ts).relocate g (Token.relocate g) := by
  unfold expect
  rw [consume?_relocate]
  cases consume? p ts with
  | none => exact congrArg Except.error (unexpected_relocate ts)
  | some r => rfl

end Parse

/-! ## Lists of items -/

namespace Production

open Parse

/-- The parser can be exchanged with a relocation. -/
def Relocates (g : Nat → Nat) (p : Production) : Prop :=
  ∀ ts, p.run (ts.map (Token.relocate g)) = (p.run ts).relocate g (Expr.relocate g)

/-- One round of the loop over items. -/
theorem items_eq (item : Production) (close : Punct) (holes : Bool) (ts : List Token) :
    item.items close holes ts =
      match consume? close ts with
      | some (last, rest) => .ok (([], last), rest)
      | none =>
        match if holes then consume? .comma ts else none with
        | some (_, afterHole) => item.items close holes afterHole
        | none =>
          match item.run ts with
          | .error e => .error e
          | .ok (expr, afterItem) =>
            match consume? .comma afterItem with
            | none =>
              match expect close afterItem with
              | .error e => .error e
              | .ok (last, rest) => .ok (([expr], last), rest)
            | some (_, afterComma) =>
              match item.items close holes afterComma with
              | .error e => .error e
              | .ok ((exprs, last), rest) => .ok ((expr :: exprs, last), rest) := by
  fun_cases items item close holes ts with
  | case1 last rest hc => rw [hc]
  | case2 hc hole after hh => rw [hc, hh]
  | case3 hc hh e hi => rw [hc, hh, hi]
  | case4 hc hh expr after hi hcomma e he => simp only [hc, hh, hi, hcomma, he]
  | case5 hc hh expr after hi hcomma last rest he => simp only [hc, hh, hi, hcomma, he]
  | case6 hc hh expr after hi comma afterComma hcomma e hr => simp only [hc, hh, hi, hcomma, hr]
  | case7 hc hh expr after hi comma afterComma hcomma exprs last rest hr =>
    simp only [hc, hh, hi, hcomma, hr]

theorem items_relocate {item : Production} (h : item.Relocates g) (close : Punct) (holes : Bool)
    (ts : List Token) :
    item.items close holes (ts.map (Token.relocate g)) =
      (item.items close holes ts).relocate g
        (Prod.map (Expr.relocateAll g) (Token.relocate g)) := by
  have hhole : ∀ {ts r}, (if holes then consume? .comma ts else none) = r →
      (if holes then consume? .comma (ts.map (Token.relocate g)) else none) =
        r.map (Prod.map (Token.relocate g) (List.map (Token.relocate g))) := by
    rintro ts _ rfl
    cases holes with
    | false => rfl
    | true => exact consume?_relocate _ ts
  fun_induction item.items close holes ts with
  | case1 ts last rest hc =>
    rw [items_eq, consume?_relocate, hc]
    rfl
  | case2 ts hc hole after hh ih =>
    rw [items_eq, consume?_relocate, hc, hhole hh]
    exact ih
  | case3 ts hc hh e hi =>
    rw [items_eq, consume?_relocate, hc, hhole hh, h, hi]
    rfl
  | case4 ts hc hh expr after hi hcomma e he =>
    rw [items_eq, consume?_relocate, hc, hhole hh, h, hi]
    simp only [relocate_ok, Option.map_none, consume?_relocate, hcomma, expect_relocate, he,
      relocate_error]
  | case5 ts hc hh expr after hi hcomma last rest he =>
    rw [items_eq, consume?_relocate, hc, hhole hh, h, hi]
    simp only [relocate_ok, Option.map_none, consume?_relocate, hcomma, expect_relocate, he]
    rfl
  | case6 ts hc hh expr after hi comma afterComma hcomma e hr ih =>
    rw [items_eq, consume?_relocate, hc, hhole hh, h, hi]
    simp only [relocate_ok, Option.map_none, Option.map_some, consume?_relocate, hcomma, Prod.map,
      ih, hr, relocate_error]
  | case7 ts hc hh expr after hi comma afterComma hcomma exprs last rest hr ih =>
    rw [items_eq, consume?_relocate, hc, hhole hh, h, hi]
    simp only [relocate_ok, Option.map_none, Option.map_some, consume?_relocate, hcomma, Prod.map,
      ih, hr]
    rfl

end Production

namespace Inner

open Parse

/-- The parsers one level further in can be exchanged with a relocation. -/
structure Relocates (g : Nat → Nat) (inner : Inner) : Prop where
  assignment : inner.assignment.Relocates g
  binary : ∀ floor, (inner.binary floor).Relocates g
  unary : inner.unary.Relocates g
  callee : inner.callee.Relocates g

variable {inner : Inner}

/-! ## Primary expressions -/

theorem propertyName_relocate (ts : List Token) :
    propertyName (ts.map (Token.relocate g)) = (propertyName ts).relocate g (Name.relocate g) := by
  match ts with
  | [] => rfl
  | [t] =>
    by_cases ht : t.kind = .ident
    · simp [propertyName, ht, Name.relocate]
    · simp [propertyName, ht, unexpected, ParseError.relocate, Span.relocate]
  | t :: u :: ts =>
    by_cases hh : (t.isPunct .hash && u.kind == .ident) = true
    · simp [propertyName, hh, Name.relocate, Span.relocate]
    · by_cases ht : t.kind = .ident
      · simp [propertyName, hh, ht, Name.relocate]
      · simp [propertyName, hh, ht, unexpected, ParseError.relocate, Span.relocate]

theorem lastStop_relocate (e : Expr) (es : List Expr) :
    lastStop (e.relocate g) (Expr.relocateAll g es) = g (lastStop e es) := by
  induction es generalizing e with
  | nil => exact congrArg Span.stop (e.span_relocate g)
  | cons f fs ih => exact ih f

/-- One round of the loop over commas. -/
theorem sequenceRest_eq (inner : Inner) (ts : List Token) :
    inner.sequenceRest ts =
      match consume? .comma ts with
      | none => .ok ([], ts)
      | some (_, afterComma) =>
        match inner.assignment.run afterComma with
        | .error e => .error e
        | .ok (expr, rest) =>
          match inner.sequenceRest rest with
          | .error e => .error e
          | .ok (exprs, rest) => .ok (expr :: exprs, rest) := by
  fun_cases sequenceRest inner ts with
  | case1 hc => rw [hc]
  | case2 comma after hc e he => simp only [hc, he]
  | case3 comma after hc expr rest he e hr => simp only [hc, he, hr]
  | case4 comma after hc expr rest he exprs rest' hr => simp only [hc, he, hr]

theorem sequenceRest_relocate (h : inner.Relocates g) (ts : List Token) :
    inner.sequenceRest (ts.map (Token.relocate g)) =
      (inner.sequenceRest ts).relocate g (Expr.relocateAll g) := by
  fun_induction inner.sequenceRest ts with
  | case1 ts hc =>
    rw [sequenceRest_eq, consume?_relocate, hc]
    rfl
  | case2 ts comma after hc e he =>
    rw [sequenceRest_eq, consume?_relocate, hc]
    simp only [Option.map_some, Prod.map, h.assignment after, he, relocate_error]
  | case3 ts comma after hc expr rest he e hr ih =>
    rw [sequenceRest_eq, consume?_relocate, hc]
    simp only [Option.map_some, Prod.map, h.assignment after, he, relocate_ok, ih, hr,
      relocate_error]
  | case4 ts comma after hc expr rest he exprs rest' hr ih =>
    rw [sequenceRest_eq, consume?_relocate, hc]
    simp only [Option.map_some, Prod.map, h.assignment after, he, relocate_ok, ih, hr]
    rfl

theorem expression_relocate (h : inner.Relocates g) (ts : List Token) :
    inner.expression (ts.map (Token.relocate g)) =
      (inner.expression ts).relocate g (Expr.relocate g) := by
  unfold expression
  rw [h.assignment ts]
  rcases inner.assignment.run ts with e | ⟨first, rest⟩
  · rfl
  · simp only [relocate_ok, sequenceRest_relocate h rest]
    rcases inner.sequenceRest rest with e | ⟨_ | ⟨second, more⟩, rest⟩
    · rfl
    · rfl
    · simp only [relocate_ok, Expr.relocateAll_cons, lastStop_relocate, Expr.span_relocate]
      rfl

theorem element_relocate (h : inner.Relocates g) (ts : List Token) :
    inner.element (ts.map (Token.relocate g)) =
      (inner.element ts).relocate g (Expr.relocate g) := by
  unfold element
  rw [consume?_relocate]
  rcases consume? .ellipsis ts with _ | ⟨dots, after⟩
  · exact h.assignment ts
  · simp only [Option.map_some, Prod.map, h.assignment after]
    rcases inner.assignment.run after with e | ⟨argument, rest⟩
    · rfl
    · simp only [relocate_ok, Expr.span_relocate]
      rfl

theorem propertyValue_relocate (h : inner.Relocates g) (key : Token) (ts : List Token) :
    inner.propertyValue (key.relocate g) (ts.map (Token.relocate g)) =
      (inner.propertyValue key ts).relocate g (Expr.relocate g) := by
  unfold propertyValue
  rw [consume?_relocate]
  rcases consume? .colon ts with _ | ⟨colon, after⟩
  · by_cases hk : key.kind = .ident
    · simp only [Option.map_none, Token.kind_relocate, hk, if_true]
      rfl
    · simp [hk, unexpected_relocate]
  · exact h.assignment after

theorem entry_relocate (h : inner.Relocates g) (ts : List Token) :
    inner.entry (ts.map (Token.relocate g)) = (inner.entry ts).relocate g (Expr.relocate g) := by
  cases ts with
  | nil => rfl
  | cons key after =>
    have helement := element_relocate h (key :: after)
    have hkey : isKey (key.relocate g) = isKey key := rfl
    have herror := unexpected_relocate (g := g) (key :: after)
    simp only [List.map_cons] at helement herror
    simp only [entry, List.map_cons, Token.isPunct_relocate, hkey, helement, herror,
      propertyValue_relocate h, h.assignment after]
    split
    · rfl
    split
    · rfl
    split
    · rcases inner.assignment.run after with e | ⟨name, rest⟩
      · rfl
      · simp only [relocate_ok, expect_relocate]
        rcases expect .closeBracket rest with e | ⟨bracket, rest⟩
        · rfl
        · exact propertyValue_relocate h key rest
    · rfl

theorem construction_relocate (h : inner.Relocates g) (start : Nat) (ts : List Token) :
    inner.construction (g start) (ts.map (Token.relocate g)) =
      (inner.construction start ts).relocate g (Expr.relocate g) := by
  unfold construction
  rw [h.callee ts]
  rcases inner.callee.run ts with e | ⟨callee, rest⟩
  · rfl
  · simp only [relocate_ok, consume?_relocate]
    rcases consume? .openParen rest with _ | ⟨bracket, after⟩
    · simp only [Option.map_none, Expr.span_relocate]
      rfl
    · have helements : inner.elements.Relocates g := element_relocate h
      simp only [Option.map_some, Prod.map, Production.items_relocate helements]
      rcases inner.elements.items .closeParen false after with e | ⟨⟨arguments, close⟩, rest⟩
      · rfl
      · rfl

theorem wordExpr_relocate (t : Token) : wordExpr (t.relocate g) = (wordExpr t).relocate g := by
  rw [wordExpr, wordExpr, apply_ite (Expr.relocate g)]
  rfl

theorem primary_relocate (h : inner.Relocates g) (ts : List Token) :
    inner.primary (ts.map (Token.relocate g)) =
      (inner.primary ts).relocate g (Expr.relocate g) := by
  have helements : inner.elements.Relocates g := element_relocate h
  have hentries : inner.entries.Relocates g := entry_relocate h
  cases ts with
  | nil => rfl
  | cons t after =>
    have herror := unexpected_relocate (g := g) (t :: after)
    simp only [List.map_cons] at herror
    simp only [primary, List.map_cons, Token.kind_relocate, Token.text_relocate,
      Token.span_relocate, herror]
    split
    · rfl
    · rfl
    · rfl
    · split
      · rfl
      by_cases hnew : t.text = "new".toList
      · rw [if_pos hnew]
        exact (if_pos hnew).trans (construction_relocate h t.span.start after)
      · rw [if_neg hnew, wordExpr_relocate]
        exact if_neg hnew
    · rw [expression_relocate h]
      rcases inner.expression after with e | ⟨e, rest⟩
      · rfl
      · simp only [relocate_ok, expect_relocate]
        rcases expect .closeParen rest with e | ⟨close, rest⟩
        · rfl
        · rfl
    · rw [Production.items_relocate helements]
      rcases inner.elements.items .closeBracket true after with e | ⟨⟨exprs, close⟩, rest⟩
      · rfl
      · rfl
    · rw [Production.items_relocate hentries]
      rcases inner.entries.items .closeBrace false after with e | ⟨⟨exprs, close⟩, rest⟩
      · rfl
      · rfl
    · rfl

/-! ## Suffixes -/

theorem subscript_relocate (h : inner.Relocates g) (object : Expr) (isOptional : Bool)
    (ts : List Token) :
    inner.subscript (object.relocate g) isOptional (ts.map (Token.relocate g)) =
      (inner.subscript object isOptional ts).relocate g (Expr.relocate g) := by
  unfold subscript
  rw [expression_relocate h]
  rcases inner.expression ts with e | ⟨index, rest⟩
  · rfl
  · simp only [relocate_ok, expect_relocate]
    rcases expect .closeBracket rest with e | ⟨close, rest⟩
    · rfl
    · simp only [relocate_ok, Expr.span_relocate]
      rfl

theorem application_relocate (h : inner.Relocates g) (callee : Expr) (isOptional : Bool)
    (ts : List Token) :
    inner.application (callee.relocate g) isOptional (ts.map (Token.relocate g)) =
      (inner.application callee isOptional ts).relocate g (Expr.relocate g) := by
  have helements : inner.elements.Relocates g := element_relocate h
  unfold application
  rw [Production.items_relocate helements]
  rcases inner.elements.items .closeParen false ts with e | ⟨⟨arguments, close⟩, rest⟩
  · rfl
  · simp only [relocate_ok, Expr.span_relocate]
    rfl

theorem property_relocate (object : Expr) (isOptional : Bool) (ts : List Token) :
    property (object.relocate g) isOptional (ts.map (Token.relocate g)) =
      (property object isOptional ts).relocate g (Expr.relocate g) := by
  unfold property
  rw [propertyName_relocate]
  rcases propertyName ts with e | ⟨name, rest⟩
  · rfl
  · simp only [relocate_ok, Expr.span_relocate]
    rfl

theorem optionalSuffix_relocate (h : inner.Relocates g) (e : Expr) (ts : List Token) :
    inner.optionalSuffix (e.relocate g) (ts.map (Token.relocate g)) =
      (inner.optionalSuffix e ts).relocate g (Expr.relocate g) := by
  unfold optionalSuffix
  rw [consume?_relocate]
  rcases consume? .openParen ts with _ | ⟨bracket, rest⟩
  · simp only [Option.map_none, consume?_relocate]
    rcases consume? .openBracket ts with _ | ⟨bracket, rest⟩
    · exact property_relocate e true ts
    · exact subscript_relocate h e true rest
  · exact application_relocate h e true rest

theorem suffix?_relocate (h : inner.Relocates g) (e : Expr) (t : Token) (ts : List Token) :
    inner.suffix? (e.relocate g) (t.relocate g) (ts.map (Token.relocate g)) =
      (inner.suffix? e t ts).map (Parse.relocate g (Expr.relocate g)) := by
  simp only [suffix?, Token.kind_relocate, property_relocate, optionalSuffix_relocate h,
    subscript_relocate h, application_relocate h]
  split
  · rfl
  · rfl
  · rfl
  · rfl
  · rw [Expr.span_relocate]
    rfl
  · rfl

/-- One round of the loop over suffixes. -/
theorem suffixes_eq (inner : Inner) (e : Expr) (t : Token) (ts : List Token) :
    inner.suffixes e (t :: ts) =
      match inner.suffix? e t ts with
      | none => .ok (e, t :: ts)
      | some (.error err) => .error err
      | some (.ok (f, rest)) => inner.suffixes f rest := by
  rw [suffixes]
  split <;> rename_i hs <;> rw [hs]

theorem suffixes_relocate (h : inner.Relocates g) (e : Expr) (ts : List Token) :
    inner.suffixes (e.relocate g) (ts.map (Token.relocate g)) =
      (inner.suffixes e ts).relocate g (Expr.relocate g) := by
  fun_induction inner.suffixes e ts with
  | case1 e =>
    rw [List.map_nil, suffixes]
    rfl
  | case2 e t after hs =>
    rw [List.map_cons, suffixes_eq, suffix?_relocate h, hs]
    rfl
  | case3 e t after err hs =>
    rw [List.map_cons, suffixes_eq, suffix?_relocate h, hs]
    rfl
  | case4 e t after f rest hs ih =>
    rw [List.map_cons, suffixes_eq, suffix?_relocate h, hs]
    exact ih

theorem postfixed_relocate (h : inner.Relocates g) (ts : List Token) :
    inner.postfixed (ts.map (Token.relocate g)) =
      (inner.postfixed ts).relocate g (Expr.relocate g) := by
  unfold postfixed
  rw [primary_relocate h]
  rcases inner.primary ts with e | ⟨e, rest⟩
  · rfl
  · exact suffixes_relocate h e rest

/-- One round of the loop over properties. -/
theorem properties_eq (e : Expr) (ts : List Token) :
    properties e ts =
      match consume? .dot ts with
      | none => .ok (e, ts)
      | some (_, afterDot) =>
        match property e false afterDot with
        | .error err => .error err
        | .ok (f, rest) => properties f rest := by
  fun_cases properties e ts with
  | case1 hc => rw [hc]
  | case2 dot after hc err hp => simp only [hc, hp]
  | case3 dot after hc f rest hp => simp only [hc, hp]

theorem properties_relocate (e : Expr) (ts : List Token) :
    properties (e.relocate g) (ts.map (Token.relocate g)) =
      (properties e ts).relocate g (Expr.relocate g) := by
  fun_induction properties e ts with
  | case1 e ts hc =>
    rw [properties_eq, consume?_relocate, hc]
    rfl
  | case2 e ts dot after hc err hp =>
    rw [properties_eq, consume?_relocate, hc]
    simp only [Option.map_some, Prod.map, property_relocate, hp, relocate_error]
  | case3 e ts dot after hc f rest hp ih =>
    rw [properties_eq, consume?_relocate, hc]
    simp only [Option.map_some, Prod.map, property_relocate, hp]
    exact ih

theorem calleeBody_relocate (h : inner.Relocates g) (ts : List Token) :
    inner.calleeBody (ts.map (Token.relocate g)) =
      (inner.calleeBody ts).relocate g (Expr.relocate g) := by
  unfold calleeBody
  rw [primary_relocate h]
  rcases inner.primary ts with e | ⟨e, rest⟩
  · rfl
  · exact properties_relocate e rest

/-! ## Operators -/

theorem stepped_relocate (h : inner.Relocates g) (ts : List Token) :
    inner.stepped (ts.map (Token.relocate g)) =
      (inner.stepped ts).relocate g (Expr.relocate g) := by
  unfold stepped
  rw [postfixed_relocate h]
  rcases inner.postfixed ts with e | ⟨e, _ | ⟨t, rest⟩⟩
  · rfl
  · rfl
  · simp only [relocate_ok, List.map_cons, UpdateOp.ofToken?_relocate, Token.newlineBefore_relocate]
    cases UpdateOp.ofToken? t with
    | none => rfl
    | some op =>
      by_cases hn : t.newlineBefore = true
      · simp [hn]
      · simp only [hn, Expr.span_relocate]
        rfl

theorem unaryBody_relocate (h : inner.Relocates g) (ts : List Token) :
    inner.unaryBody (ts.map (Token.relocate g)) =
      (inner.unaryBody ts).relocate g (Expr.relocate g) := by
  cases ts with
  | nil => rfl
  | cons t after =>
    simp only [unaryBody, List.map_cons, UnaryOp.ofToken?_relocate, UpdateOp.ofToken?_relocate,
      h.unary after]
    cases UnaryOp.ofToken? t with
    | some op =>
      rcases inner.unary.run after with e | ⟨e, rest⟩
      · rfl
      · simp only [relocate_ok, Expr.span_relocate]
        rfl
    | none =>
      cases UpdateOp.ofToken? t with
      | some op =>
        rcases inner.unary.run after with e | ⟨e, rest⟩
        · rfl
        · simp only [relocate_ok, Expr.span_relocate]
          rfl
      | none => exact stepped_relocate h (t :: after)

/-- One round of the loop over operators. -/
theorem operators_eq (inner : Inner) (floor : Nat) (left : Expr) (t : Token) (ts : List Token) :
    inner.operators floor left (t :: ts) =
      match BinaryOp.ofToken? t with
      | none => .ok (left, t :: ts)
      | some op =>
        if op.precedence ≤ floor then .ok (left, t :: ts)
        else
          match (inner.binary op.rightFloor).run ts with
          | .error e => .error e
          | .ok (right, rest) =>
            inner.operators floor (.binary op left right ⟨left.span.start, right.span.stop⟩)
              rest := by
  rw [operators.eq_def]
  dsimp only
  cases BinaryOp.ofToken? t with
  | none => rfl
  | some op =>
    by_cases hfloor : op.precedence ≤ floor
    · simp only [hfloor, if_true]
    · simp only [hfloor, if_false]
      split <;> rename_i hr <;> simp only [hr]

theorem operators_relocate (h : inner.Relocates g) (floor : Nat) (left : Expr) (ts : List Token) :
    inner.operators floor (left.relocate g) (ts.map (Token.relocate g)) =
      (inner.operators floor left ts).relocate g (Expr.relocate g) := by
  fun_induction inner.operators floor left ts with
  | case1 left =>
    rw [List.map_nil, operators]
    rfl
  | case2 left t after hop =>
    rw [List.map_cons, operators_eq, BinaryOp.ofToken?_relocate, hop]
    rfl
  | case3 left t after op hop hfloor =>
    rw [List.map_cons, operators_eq, BinaryOp.ofToken?_relocate, hop]
    simp only [hfloor, if_true, relocate_ok, List.map_cons]
  | case4 left t after op hop hfloor e hr =>
    rw [List.map_cons, operators_eq, BinaryOp.ofToken?_relocate, hop]
    simp only [hfloor, if_false, h.binary _ after, hr, relocate_error]
  | case5 left t after op hop hfloor right rest hr ih =>
    rw [List.map_cons, operators_eq, BinaryOp.ofToken?_relocate, hop]
    simp only [hfloor, if_false, h.binary _ after, hr, relocate_ok, Expr.span_relocate]
    exact ih

theorem binaryBody_relocate (h : inner.Relocates g) (floor : Nat) (ts : List Token) :
    inner.binaryBody floor (ts.map (Token.relocate g)) =
      (inner.binaryBody floor ts).relocate g (Expr.relocate g) := by
  unfold binaryBody
  rw [unaryBody_relocate h]
  rcases inner.unaryBody ts with e | ⟨e, rest⟩
  · rfl
  · exact operators_relocate h floor e rest

theorem conditional_relocate (h : inner.Relocates g) (ts : List Token) :
    inner.conditional (ts.map (Token.relocate g)) =
      (inner.conditional ts).relocate g (Expr.relocate g) := by
  unfold conditional
  rw [h.binary 0 ts]
  rcases (inner.binary 0).run ts with e | ⟨test, rest⟩
  · rfl
  simp only [relocate_ok, consume?_relocate]
  rcases consume? .question rest with _ | ⟨mark, afterMark⟩
  · rfl
  simp only [Option.map_some, Prod.map, h.assignment afterMark]
  rcases inner.assignment.run afterMark with e | ⟨consequent, rest⟩
  · rfl
  simp only [relocate_ok, expect_relocate]
  rcases expect .colon rest with e | ⟨colon, rest⟩
  · rfl
  simp only [relocate_ok, h.assignment rest]
  rcases inner.assignment.run rest with e | ⟨alternate, rest⟩
  · rfl
  · simp only [relocate_ok, Expr.span_relocate]
    rfl

/-! ## Arrow functions and assignments -/

theorem closing_relocate (depth : Nat) (ts : List Token) :
    closing depth (ts.map (Token.relocate g)) =
      (closing depth ts).map (Prod.map (Token.relocate g) (List.map (Token.relocate g))) := by
  fun_induction closing depth ts with
  | case1 => rfl
  | case2 depth t ts p hk ho ih => simp [closing, hk, ho, ih]
  | case3 t ts p hk ho hc => simp [closing, hk, ho, hc]
  | case4 t ts p hk ho hc d ih => simp [closing, hk, ho, hc, ih]
  | case5 depth t ts p hk ho hc ih => simp [closing, hk, ho, hc, ih]
  | case6 depth t ts hk ih =>
    cases hkind : t.kind with
    | punct p => exact absurd hkind (hk p)
    | _ => simp [closing, hkind, ih]

theorem parameters?_relocate (ts : List Token) :
    parameters? (ts.map (Token.relocate g)) =
      (parameters? ts).map (Prod.map (Span.relocate g) (List.map (Token.relocate g))) := by
  cases ts with
  | nil => rfl
  | cons t ts =>
    simp only [parameters?, List.map_cons, Token.kind_relocate, Token.isPunct_relocate,
      consume?_relocate, closing_relocate]
    split
    · cases consume? .arrow ts <;> rfl
    split
    · rcases closing 0 ts with _ | ⟨close, rest⟩
      · rfl
      · simp only [Option.map_some, Prod.map, consume?_relocate]
        cases consume? .arrow rest <;> rfl
    · rfl

theorem skipAsync_relocate (ts : List Token) :
    skipAsync (ts.map (Token.relocate g)) = (skipAsync ts).map (Token.relocate g) := by
  match ts with
  | [] => rfl
  | [t] => rfl
  | t :: u :: ts =>
    rw [skipAsync, apply_ite (List.map (Token.relocate g))]
    rfl

theorem arrowBody_relocate (h : inner.Relocates g) (ts : List Token) :
    inner.arrowBody (ts.map (Token.relocate g)) =
      (inner.arrowBody ts).relocate g (Span.relocate g) := by
  unfold arrowBody
  rw [consume?_relocate]
  rcases consume? .openBrace ts with _ | ⟨brace, after⟩
  · simp only [Option.map_none, h.assignment ts]
    rcases inner.assignment.run ts with e | ⟨e, rest⟩
    · rfl
    · simp
  · simp only [Option.map_some, Prod.map, closing_relocate]
    cases closing 0 after <;> rfl

theorem assigned_relocate (h : inner.Relocates g) (ts : List Token) :
    inner.assigned (ts.map (Token.relocate g)) =
      (inner.assigned ts).relocate g (Expr.relocate g) := by
  unfold assigned
  rw [conditional_relocate h]
  rcases inner.conditional ts with e | ⟨target, _ | ⟨t, rest⟩⟩
  · rfl
  · rfl
  · simp only [relocate_ok, List.map_cons, AssignOp.ofToken?_relocate]
    cases AssignOp.ofToken? t with
    | none => rfl
    | some op =>
      simp only [h.assignment rest]
      rcases inner.assignment.run rest with e | ⟨value, rest⟩
      · rfl
      · simp only [relocate_ok, Expr.span_relocate]
        rfl

theorem assignmentBody_relocate (h : inner.Relocates g) (ts : List Token) :
    inner.assignmentBody (ts.map (Token.relocate g)) =
      (inner.assignmentBody ts).relocate g (Expr.relocate g) := by
  cases ts with
  | nil => exact assigned_relocate h []
  | cons t after =>
    have hparameters := skipAsync_relocate (g := g) (t :: after)
    have hassigned := assigned_relocate h (t :: after)
    simp only [List.map_cons] at hparameters hassigned
    simp only [assignmentBody, List.map_cons, hparameters, parameters?_relocate, hassigned]
    rcases parameters? (skipAsync (t :: after)) with _ | ⟨params, afterArrow⟩
    · rfl
    · simp only [Option.map_some, Prod.map, arrowBody_relocate h]
      rcases inner.arrowBody afterArrow with e | ⟨body, rest⟩
      · rfl
      · rfl

/-! ## The grammar -/

/-- However deep expressions may nest, the grammar can be exchanged with a relocation. -/
theorem relocates_ofDepth (g : Nat → Nat) (depth : Nat) : (ofDepth depth).Relocates g := by
  induction depth with
  | zero => exact ⟨fun _ => rfl, fun _ _ => rfl, fun _ => rfl, fun _ => rfl⟩
  | succ depth ih =>
    exact ⟨assignmentBody_relocate ih, binaryBody_relocate ih, unaryBody_relocate ih,
      calleeBody_relocate ih⟩

end Inner

end BindingToggle
