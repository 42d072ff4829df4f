import BindingToggle.Proofs.Spelling

/-!
# The grammar of expressions

The parsers read an expression from its first token to its last. `Derives` says what they may come
up with, without any tokens: which expression may stand at which level of the grammar, and how deep
expressions nest there. Levels and depth are those of the parsers, so whatever holds of the trees of
a program can be shown by induction on the grammar.

* `Derives depth level e` — the expression may stand at the level, with `depth` levels to nest in.
* `Inner.Derived` — the parsers one level further in stick to the grammar. It is handed on by every
  production (`primary_derived` to `assignmentBody_derived`), so it holds at every depth
  (`derived_ofDepth`).
* `statements_derived` — the expressions of a program stick to it, with all the depth there is.

The loop over operators needs more than its own floor. It has to know that a right operand which it
has read goes on as far as it can, so that the next operator takes the whole of it to its left:
`NextOperator` says of the tokens that are left which operator may come first.
-/

namespace BindingToggle

/-! ## Levels and rules -/

/-- The places in which the grammar allows different expressions, from the widest to the
narrowest. -/
inductive Level where
  /-- Expressions with commas between them. -/
  | sequence
  /-- An element of a list, which may be spread. -/
  | element
  | assignment
  | conditional
  /-- Operands with operators that bind tighter than a floor. -/
  | operators (floor : Nat)
  | operand

/-- The operator can only stand behind the whole of an expression: it binds no tighter than the
floor with which the right operand was read, if there is one. -/
def BinaryOp.Ends (op : BinaryOp) (left : Expr) : Prop :=
  ∀ op' l r s, left = .binary op' l r s → op.precedence ≤ op'.rightFloor

/-- The expression may stand at a level of the grammar, with `depth` levels to nest in. -/
inductive Derives : Nat → Level → Expr → Prop
  | string {depth : Nat} {raw : Text} {quote : Char} {hasEscape : Bool} {span : Span} :
      Derives depth .operand (.string raw quote hasEscape span)
  | number {depth : Nat} {raw : Text} {span : Span} : Derives depth .operand (.number raw span)
  | template {depth : Nat} {raw : Text} {hasSubstitutions : Bool} {span : Span} :
      Derives depth .operand (.template raw hasSubstitutions span)
  | identifier {depth : Nat} {name : Name} : Derives depth .operand (.identifier name)
  | keyword {depth : Nat} {name : Name} : Derives depth .operand (.keyword name)
  | paren {depth : Nat} {e : Expr} {span : Span} (he : Derives depth .sequence e) :
      Derives depth .operand (.paren e span)
  | array {depth : Nat} {es : List Expr} {span : Span}
      (hes : ∀ e ∈ es, Derives depth .element e) : Derives depth .operand (.array es span)
  | object {depth : Nat} {es : List Expr} {span : Span}
      (hes : ∀ e ∈ es, Derives depth .element e) : Derives depth .operand (.object es span)
  | new {depth : Nat} {e : Expr} {es : List Expr} {span : Span} (he : Derives depth .operand e)
      (hes : ∀ f ∈ es, Derives (depth + 1) .element f) :
      Derives (depth + 1) .operand (.new e es span)
  | member {depth : Nat} {e : Expr} {name : Name} {isOptional : Bool} {span : Span}
      (he : Derives depth .operand e) : Derives depth .operand (.member e name isOptional span)
  | index {depth : Nat} {e i : Expr} {isOptional : Bool} {span : Span}
      (he : Derives depth .operand e) (hi : Derives depth .sequence i) :
      Derives depth .operand (.index e i isOptional span)
  | call {depth : Nat} {e : Expr} {es : List Expr} {isOptional : Bool} {span : Span}
      (he : Derives depth .operand e) (hes : ∀ f ∈ es, Derives depth .element f) :
      Derives depth .operand (.call e es isOptional span)
  | taggedTemplate {depth : Nat} {e : Expr} {span : Span} (he : Derives depth .operand e) :
      Derives depth .operand (.taggedTemplate e span)
  | stepAfter {depth : Nat} {op : UpdateOp} {e : Expr} {span : Span}
      (he : Derives depth .operand e) : Derives depth .operand (.update op .after e span)
  | stepBefore {depth : Nat} {op : UpdateOp} {e : Expr} {span : Span}
      (he : Derives depth .operand e) : Derives (depth + 1) .operand (.update op .before e span)
  | unary {depth : Nat} {op : UnaryOp} {e : Expr} {span : Span} (he : Derives depth .operand e) :
      Derives (depth + 1) .operand (.unary op e span)
  | operand {depth floor : Nat} {e : Expr} (he : Derives depth .operand e) :
      Derives depth (.operators floor) e
  | binary {depth floor : Nat} {op : BinaryOp} {e f : Expr} {span : Span}
      (he : Derives (depth + 1) (.operators floor) e) (hfloor : floor < op.precedence)
      (hends : op.Ends e) (hf : Derives depth (.operators op.rightFloor) f) :
      Derives (depth + 1) (.operators floor) (.binary op e f span)
  | operators {depth : Nat} {e : Expr} (he : Derives depth (.operators 0) e) :
      Derives (depth + 1) .conditional e
  | conditional {depth : Nat} {e f g : Expr} {span : Span} (he : Derives depth (.operators 0) e)
      (hf : Derives depth .assignment f) (hg : Derives depth .assignment g) :
      Derives (depth + 1) .conditional (.conditional e f g span)
  | unassigned {depth : Nat} {e : Expr} (he : Derives depth .conditional e) :
      Derives depth .assignment e
  | assign {depth : Nat} {op : AssignOp} {e f : Expr} {span : Span}
      (he : Derives (depth + 1) .conditional e) (hf : Derives depth .assignment f) :
      Derives (depth + 1) .assignment (.assign op e f span)
  | arrow {depth : Nat} {params body span : Span} :
      Derives depth .assignment (.arrow params body span)
  | single {depth : Nat} {e : Expr} (he : Derives depth .assignment e) :
      Derives (depth + 1) .sequence e
  | sequence {depth : Nat} {es : List Expr} {span : Span}
      (hes : ∀ e ∈ es, Derives depth .assignment e) :
      Derives (depth + 1) .sequence (.sequence es span)
  | element {depth : Nat} {e : Expr} (he : Derives depth .assignment e) :
      Derives (depth + 1) .element e
  | spread {depth : Nat} {e : Expr} {span : Span} (he : Derives depth .assignment e) :
      Derives (depth + 1) .element (.spread e span)
  | shorthand {depth : Nat} {name : Name} : Derives depth .element (.identifier name)

/-- The expression was read one level further in than `depth`. -/
def Entered (depth : Nat) (level : Level) (e : Expr) : Prop :=
  ∃ d, depth = d + 1 ∧ Derives d level e

theorem Entered.derives {depth : Nat} {level : Level} {e : Expr}
    (h : Entered (depth + 1) level e) : Derives depth level e := by
  obtain ⟨d, hd, he⟩ := h
  cases hd
  exact he

/-- An operator that comes next is one of the given ones. -/
def NextOperator (allowed : BinaryOp → Prop) (ts : List Token) : Prop :=
  ∀ t ∈ ts.head?, ∀ op, BinaryOp.ofToken? t = some op → allowed op

/-! ## What a parser gives back -/

namespace Parse

/-- When the parser succeeds, what it gives back has the property. -/
def Gives {α : Type} (holds : α → Prop) (p : Parse α) : Prop :=
  ∀ a rest, p = .ok (a, rest) → holds a

end Parse

/-- The items of a list are what its items are. -/
theorem Production.items_gives {item : Production} {holds : Expr → Prop}
    (hitem : ∀ ts, Parse.Gives holds (item.run ts)) (close : Punct) (holes : Bool)
    (ts : List Token) :
    Parse.Gives (fun r => ∀ e ∈ r.1, holds e) (item.items close holes ts) := by
  intro r rest h
  fun_induction item.items close holes ts generalizing r rest with
  | case1 =>
    cases h
    exact List.forall_mem_nil _
  | case2 ts hc hole after hh ih => exact ih _ _ h
  | case3 => cases h
  | case4 => cases h
  | case5 ts hc hh e after hi hcomma last rest' hlast =>
    cases h
    exact List.forall_mem_singleton.2 (hitem _ _ _ hi)
  | case6 => cases h
  | case7 ts hc hh e after hi comma afterComma hcomma es last rest' hr ih =>
    cases h
    exact List.forall_mem_cons.2 ⟨hitem _ _ _ hi, ih _ _ hr⟩

namespace Inner

open Parse

/-- The parsers one level further in stick to the grammar, and operands are read up to an operator
that binds no tighter than their floor. -/
structure Derived (depth : Nat) (inner : Inner) : Prop where
  assignment : ∀ ts, Gives (Entered depth .assignment) (inner.assignment.run ts)
  binary : ∀ floor ts, Gives (Entered depth (.operators floor)) ((inner.binary floor).run ts)
  binary_next : ∀ {floor ts e rest}, (inner.binary floor).run ts = .ok (e, rest) →
    NextOperator (·.precedence ≤ floor) rest
  unary : ∀ ts, Gives (Entered depth .operand) (inner.unary.run ts)
  callee : ∀ ts, Gives (Entered depth .operand) (inner.callee.run ts)

variable {inner : Inner} {depth : Nat}

/-! ## Primary expressions -/

theorem sequenceRest_derived (h : inner.Derived depth) (ts : List Token) :
    Gives (fun es => ∀ e ∈ es, Entered depth .assignment e) (inner.sequenceRest ts) := by
  intro es rest hp
  fun_induction inner.sequenceRest ts generalizing es rest with
  | case1 =>
    cases hp
    exact List.forall_mem_nil _
  | case2 => cases hp
  | case3 => cases hp
  | case4 ts comma after hc e rest' ha es' rest'' hr ih =>
    cases hp
    exact List.forall_mem_cons.2 ⟨h.assignment _ _ _ ha, ih _ _ hr⟩

theorem expression_derived (h : inner.Derived depth) (ts : List Token) :
    Gives (Derives depth .sequence) (inner.expression ts) := by
  intro e rest hp
  unfold expression at hp
  split at hp
  · cases hp
  · rename_i first mid hf
    obtain ⟨depth, rfl, hfirst⟩ := h.assignment _ _ _ hf
    split at hp
    · cases hp
    · cases hp
      exact .single hfirst
    · rename_i hs
      cases hp
      have hmore := sequenceRest_derived h _ _ _ hs
      exact .sequence (List.forall_mem_cons.2 ⟨hfirst, fun e he => (hmore e he).derives⟩)

theorem element_derived (h : inner.Derived depth) (ts : List Token) :
    Gives (Derives depth .element) (inner.element ts) := by
  intro e rest hp
  unfold element at hp
  split at hp
  · obtain ⟨depth, rfl, he⟩ := h.assignment _ _ _ hp
    exact .element he
  · split at hp
    · cases hp
    · rename_i ha
      cases hp
      obtain ⟨depth, rfl, he⟩ := h.assignment _ _ _ ha
      exact .spread he

theorem propertyValue_derived (h : inner.Derived depth) (key : Token) (ts : List Token) :
    Gives (Derives depth .element) (inner.propertyValue key ts) := by
  intro e rest hp
  unfold propertyValue at hp
  split at hp
  · obtain ⟨depth, rfl, he⟩ := h.assignment _ _ _ hp
    exact .element he
  · split at hp
    · cases hp
      exact .shorthand
    · cases hp

theorem entry_derived (h : inner.Derived depth) (ts : List Token) :
    Gives (Derives depth .element) (inner.entry ts) := by
  intro e rest hp
  unfold entry at hp
  split at hp
  · cases hp
  · split at hp
    · exact element_derived h _ _ _ hp
    · split at hp
      · exact propertyValue_derived h _ _ _ _ hp
      · split at hp
        · split at hp
          · cases hp
          · split at hp
            · cases hp
            · exact propertyValue_derived h _ _ _ _ hp
        · cases hp

theorem elements_derived (h : inner.Derived depth) (close : Punct) (holes : Bool)
    (ts : List Token) :
    Gives (fun r => ∀ e ∈ r.1, Derives depth .element e) (inner.elements.items close holes ts) :=
  Production.items_gives (element_derived h) close holes ts

theorem entries_derived (h : inner.Derived depth) (close : Punct) (holes : Bool)
    (ts : List Token) :
    Gives (fun r => ∀ e ∈ r.1, Derives depth .element e) (inner.entries.items close holes ts) :=
  Production.items_gives (entry_derived h) close holes ts

theorem construction_derived (h : inner.Derived depth) (start : Nat) (ts : List Token) :
    Gives (Derives depth .operand) (inner.construction start ts) := by
  intro e rest hp
  unfold construction at hp
  split at hp
  · cases hp
  · rename_i hcallee
    obtain ⟨depth, rfl, he⟩ := h.callee _ _ _ hcallee
    split at hp
    · cases hp
      exact .new he (List.forall_mem_nil _)
    · split at hp
      · cases hp
      · rename_i hi
        cases hp
        exact .new he (elements_derived h _ _ _ _ _ hi)

theorem wordExpr_derived (t : Token) : Derives depth .operand (wordExpr t) := by
  unfold wordExpr
  split
  · exact .keyword
  · exact .identifier

theorem primary_derived (h : inner.Derived depth) (ts : List Token) :
    Gives (Derives depth .operand) (inner.primary ts) := by
  intro e rest hp
  unfold primary at hp
  split at hp
  · cases hp
  · rename_i t after
    split at hp
    · cases hp
      exact .string
    · cases hp
      exact .number
    · cases hp
      exact .template
    · split at hp
      · cases hp
      · split at hp
        · exact construction_derived h _ _ _ _ hp
        · cases hp
          exact wordExpr_derived t
    · split at hp
      · cases hp
      · rename_i hi
        split at hp
        · cases hp
        · cases hp
          exact .paren (expression_derived h _ _ _ hi)
    · split at hp
      · cases hp
      · rename_i hi
        cases hp
        exact .array (elements_derived h _ _ _ _ _ hi)
    · split at hp
      · cases hp
      · rename_i hi
        cases hp
        exact .object (entries_derived h _ _ _ _ _ hi)
    · cases hp

/-! ## Suffixes -/

section Suffixes

variable {e : Expr} (he : Derives depth .operand e)

include he

theorem property_derived (isOptional : Bool) (ts : List Token) :
    Gives (Derives depth .operand) (property e isOptional ts) := by
  intro f rest hp
  unfold property at hp
  split at hp
  · cases hp
  · cases hp
    exact .member he

theorem subscript_derived (h : inner.Derived depth) (isOptional : Bool) (ts : List Token) :
    Gives (Derives depth .operand) (inner.subscript e isOptional ts) := by
  intro f rest hp
  unfold subscript at hp
  split at hp
  · cases hp
  · rename_i hi
    split at hp
    · cases hp
    · cases hp
      exact .index he (expression_derived h _ _ _ hi)

theorem application_derived (h : inner.Derived depth) (isOptional : Bool) (ts : List Token) :
    Gives (Derives depth .operand) (inner.application e isOptional ts) := by
  intro f rest hp
  unfold application at hp
  split at hp
  · cases hp
  · rename_i hi
    cases hp
    exact .call he (elements_derived h _ _ _ _ _ hi)

theorem optionalSuffix_derived (h : inner.Derived depth) (ts : List Token) :
    Gives (Derives depth .operand) (inner.optionalSuffix e ts) := by
  intro f rest hp
  unfold optionalSuffix at hp
  split at hp
  · exact application_derived he h _ _ _ _ hp
  · split at hp
    · exact subscript_derived he h _ _ _ _ hp
    · exact property_derived he _ _ _ _ hp

theorem suffix?_derived (h : inner.Derived depth) {f : Expr} {t : Token} {ts rest : List Token}
    (hp : inner.suffix? e t ts = some (.ok (f, rest))) : Derives depth .operand f := by
  unfold suffix? at hp
  split at hp
  · exact property_derived he _ _ _ _ (Option.some.inj hp)
  · exact optionalSuffix_derived he h _ _ _ (Option.some.inj hp)
  · exact subscript_derived he h _ _ _ _ (Option.some.inj hp)
  · exact application_derived he h _ _ _ _ (Option.some.inj hp)
  · cases hp
    exact .taggedTemplate he
  · cases hp

theorem suffixes_derived (h : inner.Derived depth) (ts : List Token) :
    Gives (Derives depth .operand) (inner.suffixes e ts) := by
  intro f rest hp
  fun_induction inner.suffixes e ts with
  | case1 =>
    cases hp
    exact he
  | case2 =>
    cases hp
    exact he
  | case3 => cases hp
  | case4 e t after g rest' hs ih => exact ih (suffix?_derived he h hs) hp

theorem properties_derived (ts : List Token) :
    Gives (Derives depth .operand) (properties e ts) := by
  intro f rest hp
  fun_induction properties e ts with
  | case1 =>
    cases hp
    exact he
  | case2 => cases hp
  | case3 e ts dot after hc g rest' hproperty ih =>
    exact ih (property_derived he _ _ _ _ hproperty) hp

end Suffixes

theorem postfixed_derived (h : inner.Derived depth) (ts : List Token) :
    Gives (Derives depth .operand) (inner.postfixed ts) := by
  intro e rest hp
  unfold postfixed at hp
  split at hp
  · cases hp
  · rename_i hprimary
    exact suffixes_derived (primary_derived h _ _ _ hprimary) h _ _ _ hp

theorem calleeBody_derived (h : inner.Derived depth) (ts : List Token) :
    Gives (Derives depth .operand) (inner.calleeBody ts) := by
  intro e rest hp
  unfold calleeBody at hp
  split at hp
  · cases hp
  · rename_i hprimary
    exact properties_derived (primary_derived h _ _ _ hprimary) _ _ _ hp

/-! ## Operators -/

theorem stepped_derived (h : inner.Derived depth) (ts : List Token) :
    Gives (Derives depth .operand) (inner.stepped ts) := by
  intro e rest hp
  unfold stepped at hp
  split at hp
  · cases hp
  · rename_i hpost
    cases hp
    exact postfixed_derived h _ _ _ hpost
  · rename_i hpost
    have he := postfixed_derived h _ _ _ hpost
    split at hp
    · cases hp
      exact he
    · split at hp
      · cases hp
        exact he
      · cases hp
        exact .stepAfter he

theorem unaryBody_derived (h : inner.Derived depth) (ts : List Token) :
    Gives (Derives depth .operand) (inner.unaryBody ts) := by
  intro e rest hp
  unfold unaryBody at hp
  split at hp
  · cases hp
  · split at hp
    · split at hp
      · cases hp
      · rename_i hu
        cases hp
        obtain ⟨depth, rfl, he⟩ := h.unary _ _ _ hu
        exact .unary he
    · split at hp
      · split at hp
        · cases hp
        · rename_i hu
          cases hp
          obtain ⟨depth, rfl, he⟩ := h.unary _ _ _ hu
          exact .stepBefore he
      · exact stepped_derived h _ _ _ hp

/-- **The loop over operators.** The operand that it starts from ends where the loop begins, and so
does every operand that it builds. -/
theorem operators_derived (h : inner.Derived depth) {floor : Nat} {left e : Expr}
    {ts rest : List Token} (hleft : Derives depth (.operators floor) left)
    (hnext : NextOperator (·.Ends left) ts) (hp : inner.operators floor left ts = .ok (e, rest)) :
    Derives depth (.operators floor) e ∧ NextOperator (·.precedence ≤ floor) rest := by
  fun_induction inner.operators floor left ts with
  | case1 left =>
    cases hp
    refine ⟨hleft, fun t ht => ?_⟩
    cases ht
  | case2 left t after hnone =>
    cases hp
    refine ⟨hleft, fun u hu op hop => ?_⟩
    cases hu
    rw [hnone] at hop
    cases hop
  | case3 left t after op hop hle =>
    cases hp
    refine ⟨hleft, fun u hu op' hop' => ?_⟩
    cases hu
    rw [hop] at hop'
    cases hop'
    exact hle
  | case4 => cases hp
  | case5 left t after op hop hfloor right rest' hr ih =>
    obtain ⟨depth, rfl, hright⟩ := h.binary _ _ _ _ hr
    have hends : op.Ends left := hnext t rfl op hop
    refine ih (.binary hleft (Nat.lt_of_not_le hfloor) hends hright) ?_ hp
    -- what comes next binds no tighter than the floor of the right operand
    intro u hu op' hop' op'' l r s heq
    cases heq
    exact h.binary_next hr u hu op' hop'

/-- An operand by itself has no right operand that could go on. -/
theorem ends_of_operand {e : Expr} (h : Derives depth .operand e) (op : BinaryOp) : op.Ends e := by
  rintro op' l r s rfl
  cases h

theorem binaryBody_derived (h : inner.Derived depth) {floor : Nat} {ts rest : List Token} {e : Expr}
    (hp : inner.binaryBody floor ts = .ok (e, rest)) :
    Derives depth (.operators floor) e ∧ NextOperator (·.precedence ≤ floor) rest := by
  unfold binaryBody at hp
  split at hp
  · cases hp
  · rename_i hu
    have he := unaryBody_derived h _ _ _ hu
    exact operators_derived h (.operand he) (fun _ _ op _ => ends_of_operand he op) hp

theorem conditional_derived (h : inner.Derived depth) (ts : List Token) :
    Gives (Derives depth .conditional) (inner.conditional ts) := by
  intro e rest hp
  unfold conditional at hp
  split at hp
  · cases hp
  · rename_i ht
    obtain ⟨depth, rfl, htest⟩ := h.binary _ _ _ _ ht
    split at hp
    · cases hp
      exact .operators htest
    · split at hp
      · cases hp
      · rename_i hy
        split at hp
        · cases hp
        · split at hp
          · cases hp
          · rename_i hn
            cases hp
            exact .conditional htest (h.assignment _ _ _ hy).derives
              (h.assignment _ _ _ hn).derives

theorem assigned_derived (h : inner.Derived depth) (ts : List Token) :
    Gives (Derives depth .assignment) (inner.assigned ts) := by
  intro e rest hp
  unfold assigned at hp
  split at hp
  · cases hp
  · rename_i hc
    cases hp
    exact .unassigned (conditional_derived h _ _ _ hc)
  · rename_i hc
    have htarget := conditional_derived h _ _ _ hc
    split at hp
    · cases hp
      exact .unassigned htarget
    · split at hp
      · cases hp
      · rename_i hv
        cases hp
        obtain ⟨depth, rfl, hvalue⟩ := h.assignment _ _ _ hv
        exact .assign htarget hvalue

theorem assignmentBody_derived (h : inner.Derived depth) (ts : List Token) :
    Gives (Derives depth .assignment) (inner.assignmentBody ts) := by
  intro e rest hp
  unfold assignmentBody at hp
  split at hp
  · exact assigned_derived h _ _ _ hp
  · split at hp
    · exact assigned_derived h _ _ _ hp
    · split at hp
      · cases hp
      · cases hp
        exact .arrow

/-! ## Depth -/

theorem derived_ofDepth (depth : Nat) : (ofDepth depth).Derived depth := by
  induction depth with
  | zero =>
    -- every parser fails here
    exact
      { assignment := fun _ _ _ hp => nomatch hp
        binary := fun _ _ _ _ hp => nomatch hp
        binary_next := fun hp => nomatch hp
        unary := fun _ _ _ hp => nomatch hp
        callee := fun _ _ _ hp => nomatch hp }
  | succ depth ih =>
    exact
      { assignment := fun ts e rest hp => ⟨depth, rfl, assignmentBody_derived ih ts e rest hp⟩
        binary := fun floor ts e rest hp => ⟨depth, rfl, (binaryBody_derived ih hp).1⟩
        binary_next := fun hp => (binaryBody_derived ih hp).2
        unary := fun ts e rest hp => ⟨depth, rfl, unaryBody_derived ih ts e rest hp⟩
        callee := fun ts e rest hp => ⟨depth, rfl, calleeBody_derived ih ts e rest hp⟩ }

end Inner

/-! ## Programs -/

/-- **The expressions of a program** are derived by the grammar, with all the depth there is. -/
theorem statements_derived {ts : List Token} {ss : List Statement} (h : statements ts = .ok ss)
    {s : ExpressionStatement} (hs : .expression s ∈ ss) : Derives maxDepth .sequence s.expr := by
  have hexpr : ∀ ts, Parse.Gives (Derives maxDepth .sequence) (grammar.expression ts) :=
    Inner.expression_derived (Inner.derived_ofDepth maxDepth)
  fun_induction statements ts generalizing ss with
  | case1 =>
    cases h
    cases hs
  | case2 first others hk ih =>
    obtain ⟨ss', hss, rfl⟩ := exists_of_map_cons h
    exact ih hss (by simpa using hs)
  | case3 => cases h
  | case4 first others _ e he =>
    cases h
    obtain rfl : s = .of first e e.span.stop := by simpa using hs
    exact hexpr _ _ _ he
  | case5 first others _ e t rest he hk ih =>
    obtain ⟨ss', hss, rfl⟩ := exists_of_map_cons h
    rcases List.mem_cons.1 hs with hs | hs
    · cases hs
      exact hexpr _ _ _ he
    · exact ih hss hs
  | case6 first others _ e t rest he _ hnewline ih =>
    obtain ⟨ss', hss, rfl⟩ := exists_of_map_cons h
    rcases List.mem_cons.1 hs with hs | hs
    · cases hs
      exact hexpr _ _ _ he
    · exact ih hss hs
  | case7 => cases h

end BindingToggle
