import BindingToggle.Proofs.LiteralStatement

/-!
# The tokens of an expression

A parser gives back an expression and the tokens behind it. `Spells` says of the tokens in front of
those how they make up the expression: which of them are those of its parts, and which stand between
the parts. It follows the tree and not the grammar, so it says nothing of precedence or depth, and
whatever holds of the tokens of a tree can be shown by induction on it.

* `Spells used phrase` — the tokens `used` are those of an expression, or of a part of a list.
* `Parse.Reads` — a parser takes the tokens of what it gives back from the front of the list, and
  leaves the others.
* `Inner.Spelled` — this holds of the parsers one level further in. It is handed on by every
  production (`primary_spells` to `assignmentBody_spells`), so it holds at every depth
  (`spelled_ofDepth`).
* `expression_spells` — the statement for whole expressions.
* `SpellsProgram`, `statements_spells` — how tokens make up the statements of a program.
-/

namespace BindingToggle

/-! ## How tokens make up a phrase -/

/-- The tokens of a property name. -/
inductive SpellsName : List Token → Name → Prop
  | word {t : Token} (ht : t.kind = .ident) : SpellsName [t] ⟨t.text, t.span⟩
  | hash {h t : Token} (hh : h.kind = .punct .hash) (ht : t.kind = .ident) :
      SpellsName [h, t] ⟨'#' :: t.text, ⟨h.span.start, t.span.stop⟩⟩

/-- Tokens from a bracket to the one that closes it, whatever stands between them. -/
inductive Enclosed (p : Punct) : List Token → Span → Prop
  | intro {first last : Token} {inner : List Token} (hf : first.kind = .punct p)
      (hl : Inner.closing 0 (inner ++ [last]) = some (last, [])) :
      Enclosed p (first :: (inner ++ [last])) ⟨first.span.start, last.span.stop⟩

/-- The tokens of the parameters of an arrow function. -/
inductive SpellsParams : List Token → Span → Prop
  | word {t : Token} (ht : t.kind = .ident) : SpellsParams [t] t.span
  | list {used : List Token} {s : Span} (h : Enclosed .openParen used s) : SpellsParams used s

/-- The tokens in front of an arrow: the parameters, perhaps behind the word `async`. The number is
where they begin. -/
inductive SpellsHead : List Token → Nat → Span → Prop
  | plain {used : List Token} {s : Span} (h : SpellsParams used s) : SpellsHead used s.start s
  | async {t : Token} {used : List Token} {s : Span} (ht : t.isWord "async" = true)
      (h : SpellsParams used s) : SpellsHead (t :: used) t.span.start s

/-- The mark in front of the bracket of an index or a call, which is there if it is optional. -/
inductive SpellsMark : Bool → List Token → Prop
  | none : SpellsMark false []
  | some {t : Token} (ht : t.kind = .punct .optionalDot) : SpellsMark true [t]

/-- The mark between an object and its property. -/
def propertyMark (isOptional : Bool) : Punct := if isOptional then .optionalDot else .dot

/-- What tokens can stand for. -/
inductive Phrase where
  | expr (e : Expr)
  /-- Expressions with a comma in front of each. -/
  | more (es : List Expr)
  /-- An item of a list, with its key if it has one. -/
  | item (e : Expr)
  /-- The items of a list, with commas between them. -/
  | items (es : List Expr)

/-- The tokens `used` stand for a phrase. -/
inductive Spells : List Token → Phrase → Prop
  | string {t : Token} {quote : Char} {hasEscape : Bool} (ht : t.kind = .string quote hasEscape) :
      Spells [t] (.expr (.string t.text quote hasEscape t.span))
  | number {t : Token} (ht : t.kind = .number) : Spells [t] (.expr (.number t.text t.span))
  | template {t : Token} {hasSubstitutions : Bool} (ht : t.kind = .template hasSubstitutions) :
      Spells [t] (.expr (.template t.text hasSubstitutions t.span))
  | identifier {t : Token} (ht : t.kind = .ident) :
      Spells [t] (.expr (.identifier ⟨t.text, t.span⟩))
  | keyword {t : Token} (ht : t.kind = .ident) : Spells [t] (.expr (.keyword ⟨t.text, t.span⟩))
  | paren {first last : Token} {used : List Token} {e : Expr}
      (hf : first.kind = .punct .openParen) (he : Spells used (.expr e))
      (hl : last.kind = .punct .closeParen) :
      Spells (first :: (used ++ [last])) (.expr (.paren e ⟨first.span.start, last.span.stop⟩))
  | array {first last : Token} {used : List Token} {es : List Expr}
      (hf : first.kind = .punct .openBracket) (hes : Spells used (.items es))
      (hl : last.kind = .punct .closeBracket) :
      Spells (first :: (used ++ [last])) (.expr (.array es ⟨first.span.start, last.span.stop⟩))
  | object {first last : Token} {used : List Token} {es : List Expr}
      (hf : first.kind = .punct .openBrace) (hes : Spells used (.items es))
      (hl : last.kind = .punct .closeBrace) :
      Spells (first :: (used ++ [last])) (.expr (.object es ⟨first.span.start, last.span.stop⟩))
  | new {t : Token} {used : List Token} {e : Expr} (ht : t.isWord "new" = true)
      (he : Spells used (.expr e)) :
      Spells (t :: used) (.expr (.new e [] ⟨t.span.start, e.span.stop⟩))
  | newWith {t first last : Token} {used arguments : List Token} {e : Expr} {es : List Expr}
      (ht : t.isWord "new" = true) (he : Spells used (.expr e))
      (hf : first.kind = .punct .openParen) (hes : Spells arguments (.items es))
      (hl : last.kind = .punct .closeParen) :
      Spells (t :: (used ++ first :: (arguments ++ [last])))
        (.expr (.new e es ⟨t.span.start, last.span.stop⟩))
  | member {mark : Token} {used name : List Token} {e : Expr} {n : Name} {isOptional : Bool}
      (he : Spells used (.expr e)) (hm : mark.kind = .punct (propertyMark isOptional))
      (hn : SpellsName name n) :
      Spells (used ++ mark :: name)
        (.expr (.member e n isOptional ⟨e.span.start, n.span.stop⟩))
  | index {first last : Token} {used mark inner : List Token} {e i : Expr} {isOptional : Bool}
      (he : Spells used (.expr e)) (hm : SpellsMark isOptional mark)
      (hf : first.kind = .punct .openBracket) (hi : Spells inner (.expr i))
      (hl : last.kind = .punct .closeBracket) :
      Spells (used ++ (mark ++ first :: (inner ++ [last])))
        (.expr (.index e i isOptional ⟨e.span.start, last.span.stop⟩))
  | call {first last : Token} {used mark arguments : List Token} {e : Expr} {es : List Expr}
      {isOptional : Bool} (he : Spells used (.expr e)) (hm : SpellsMark isOptional mark)
      (hf : first.kind = .punct .openParen) (hes : Spells arguments (.items es))
      (hl : last.kind = .punct .closeParen) :
      Spells (used ++ (mark ++ first :: (arguments ++ [last])))
        (.expr (.call e es isOptional ⟨e.span.start, last.span.stop⟩))
  | taggedTemplate {t : Token} {used : List Token} {e : Expr} {hasSubstitutions : Bool}
      (he : Spells used (.expr e)) (ht : t.kind = .template hasSubstitutions) :
      Spells (used ++ [t]) (.expr (.taggedTemplate e ⟨e.span.start, t.span.stop⟩))
  | unary {t : Token} {used : List Token} {e : Expr} {op : UnaryOp}
      (ht : UnaryOp.ofToken? t = some op) (he : Spells used (.expr e)) :
      Spells (t :: used) (.expr (.unary op e ⟨t.span.start, e.span.stop⟩))
  | stepBefore {t : Token} {used : List Token} {e : Expr} {op : UpdateOp}
      (ht : UpdateOp.ofToken? t = some op) (he : Spells used (.expr e)) :
      Spells (t :: used) (.expr (.update op .before e ⟨t.span.start, e.span.stop⟩))
  | stepAfter {t : Token} {used : List Token} {e : Expr} {op : UpdateOp}
      (he : Spells used (.expr e)) (ht : UpdateOp.ofToken? t = some op) :
      Spells (used ++ [t]) (.expr (.update op .after e ⟨e.span.start, t.span.stop⟩))
  | binary {t : Token} {left right : List Token} {e f : Expr} {op : BinaryOp}
      (he : Spells left (.expr e)) (ht : BinaryOp.ofToken? t = some op)
      (hf : Spells right (.expr f)) :
      Spells (left ++ t :: right) (.expr (.binary op e f ⟨e.span.start, f.span.stop⟩))
  | assign {t : Token} {left right : List Token} {e f : Expr} {op : AssignOp}
      (he : Spells left (.expr e)) (ht : AssignOp.ofToken? t = some op)
      (hf : Spells right (.expr f)) :
      Spells (left ++ t :: right) (.expr (.assign op e f ⟨e.span.start, f.span.stop⟩))
  | conditional {question colon : Token} {test yes no : List Token} {e f g : Expr}
      (he : Spells test (.expr e)) (hq : question.kind = .punct .question)
      (hf : Spells yes (.expr f)) (hc : colon.kind = .punct .colon) (hg : Spells no (.expr g)) :
      Spells (test ++ question :: (yes ++ colon :: no))
        (.expr (.conditional e f g ⟨e.span.start, g.span.stop⟩))
  | sequence {used rest : List Token} {e f : Expr} {fs : List Expr}
      (he : Spells used (.expr e)) (hfs : Spells rest (.more (f :: fs))) :
      Spells (used ++ rest)
        (.expr (.sequence (e :: f :: fs) ⟨e.span.start, Inner.lastStop f fs⟩))
  | spread {dots : Token} {used : List Token} {e : Expr} (hd : dots.kind = .punct .ellipsis)
      (he : Spells used (.expr e)) :
      Spells (dots :: used) (.expr (.spread e ⟨dots.span.start, e.span.stop⟩))
  | arrow {mark : Token} {head used : List Token} {start : Nat} {params : Span} {e : Expr}
      (hh : SpellsHead head start params) (hm : mark.kind = .punct .arrow)
      (he : Spells used (.expr e)) :
      Spells (head ++ mark :: used) (.expr (.arrow params e.span ⟨start, e.span.stop⟩))
  | arrowBlock {mark : Token} {head used : List Token} {start : Nat} {params body : Span}
      (hh : SpellsHead head start params) (hm : mark.kind = .punct .arrow)
      (hb : Enclosed .openBrace used body) :
      Spells (head ++ mark :: used) (.expr (.arrow params body ⟨start, body.stop⟩))
  | moreNil : Spells [] (.more [])
  | moreCons {comma : Token} {used rest : List Token} {e : Expr} {es : List Expr}
      (hc : comma.kind = .punct .comma) (he : Spells used (.expr e))
      (hes : Spells rest (.more es)) : Spells (comma :: (used ++ rest)) (.more (e :: es))
  | item {used : List Token} {e : Expr} (he : Spells used (.expr e)) : Spells used (.item e)
  | keyed {key colon : Token} {used : List Token} {e : Expr} (hk : Inner.isKey key = true)
      (hc : colon.kind = .punct .colon) (he : Spells used (.expr e)) :
      Spells (key :: colon :: used) (.item e)
  | computed {first last colon : Token} {key used : List Token} {k e : Expr}
      (hf : first.kind = .punct .openBracket) (hk : Spells key (.expr k))
      (hl : last.kind = .punct .closeBracket) (hc : colon.kind = .punct .colon)
      (he : Spells used (.expr e)) :
      Spells (first :: (key ++ last :: colon :: used)) (.item e)
  | itemsNil : Spells [] (.items [])
  | hole {comma : Token} {rest : List Token} {es : List Expr} (hc : comma.kind = .punct .comma)
      (hes : Spells rest (.items es)) : Spells (comma :: rest) (.items es)
  | itemsLast {used : List Token} {e : Expr} (he : Spells used (.item e)) :
      Spells used (.items [e])
  | itemsCons {comma : Token} {used rest : List Token} {e : Expr} {es : List Expr}
      (he : Spells used (.item e)) (hc : comma.kind = .punct .comma)
      (hes : Spells rest (.items es)) : Spells (used ++ comma :: rest) (.items (e :: es))

theorem SpellsParams.start_eq {used : List Token} {s : Span} (h : SpellsParams used s) :
    used.head?.map (·.span.start) = some s.start := by
  cases h with
  | word => rfl
  | list h =>
    cases h
    rfl

/-- Tokens behind an expression `e` that make it the expression `f`. -/
def Continues (e : Expr) (more : List Token) (f : Expr) : Prop :=
  ∀ used, Spells used (.expr e) → Spells (used ++ more) (.expr f)

theorem continues_nil (e : Expr) : Continues e [] e := by
  intro used he
  simpa using he

theorem Continues.trans {e f g : Expr} {more rest : List Token} (hf : Continues e more f)
    (hg : Continues f rest g) : Continues e (more ++ rest) g := by
  intro used he
  rw [← List.append_assoc]
  exact hg _ (hf used he)

/-! ## What a parser reads -/

namespace Parse

/-- When the parser succeeds, the tokens of what it gives back stand in front of those that it
leaves. -/
def Reads {α : Type} (spells : List Token → α → Prop) (ts : List Token) (p : Parse α) : Prop :=
  ∀ a rest, p = .ok (a, rest) → ∃ used, ts = used ++ rest ∧ spells used a

/-- The parser reads an expression. -/
abbrev ReadsExpr (ts : List Token) (p : Parse Expr) : Prop :=
  Reads (fun used e => Spells used (.expr e)) ts p

/-- The parser reads an item of a list. -/
abbrev ReadsItem (ts : List Token) (p : Parse Expr) : Prop :=
  Reads (fun used e => Spells used (.item e)) ts p

theorem ReadsExpr.item {ts : List Token} {p : Parse Expr} (h : ReadsExpr ts p) :
    ReadsItem ts p := by
  intro e rest hp
  obtain ⟨used, hts, he⟩ := h e rest hp
  exact ⟨used, hts, .item he⟩

theorem cons_of_consume? {p : Punct} {ts rest : List Token} {t : Token}
    (h : consume? p ts = some (t, rest)) : ts = t :: rest ∧ t.kind = .punct p := by
  refine ⟨eq_cons_of_consume? h, ?_⟩
  cases ts with
  | nil => cases h
  | cons u us =>
    simp only [consume?] at h
    split at h
    · rename_i hu
      cases h
      exact isPunct_iff.1 hu
    · cases h

theorem cons_of_expect {p : Punct} {ts rest : List Token} {t : Token}
    (h : expect p ts = .ok (t, rest)) : ts = t :: rest ∧ t.kind = .punct p := by
  unfold expect at h
  split at h
  · rename_i hc
    cases h
    exact cons_of_consume? hc
  · cases h

end Parse

/-- The tokens of the items of a list, and the one that closes it. -/
def SpellsList (close : Punct) (used : List Token) (r : List Expr × Token) : Prop :=
  ∃ inner, used = inner ++ [r.2] ∧ r.2.kind = .punct close ∧ Spells inner (.items r.1)

/-- The items of a list are read up to the token that closes it. -/
theorem Production.items_spells {item : Production} (hitem : ∀ ts, Parse.ReadsItem ts (item.run ts))
    (close : Punct) (holes : Bool) (ts : List Token) :
    Parse.Reads (SpellsList close) ts (item.items close holes ts) := by
  intro r rest h
  fun_induction item.items close holes ts generalizing r rest with
  | case1 ts last rest' hc =>
    cases h
    obtain ⟨rfl, hk⟩ := Parse.cons_of_consume? hc
    exact ⟨[last], rfl, [], rfl, hk, .itemsNil⟩
  | case2 ts hc hole after hh ih =>
    cases holes with
    | false => cases hh
    | true =>
      obtain ⟨rfl, hk⟩ := Parse.cons_of_consume? hh
      obtain ⟨used, rfl, inner, rfl, hlast, hes⟩ := ih _ _ h
      exact ⟨hole :: (inner ++ [r.2]), rfl, hole :: inner, rfl, hlast, .hole hk hes⟩
  | case3 => cases h
  | case4 => cases h
  | case5 ts hc hh e after hi hcomma last rest' hlast =>
    cases h
    obtain ⟨used, rfl, he⟩ := hitem _ _ _ hi
    obtain ⟨rfl, hk⟩ := Parse.cons_of_expect hlast
    exact ⟨used ++ [last], by simp, used, rfl, hk, .itemsLast he⟩
  | case6 => cases h
  | case7 ts hc hh e after hi comma afterComma hcomma es last rest' hr ih =>
    cases h
    obtain ⟨used, rfl, he⟩ := hitem _ _ _ hi
    obtain ⟨rfl, hk⟩ := Parse.cons_of_consume? hcomma
    obtain ⟨_, rfl, inner, rfl, hlast, hes⟩ := ih _ _ hr
    exact ⟨used ++ comma :: (inner ++ [last]), by simp, used ++ comma :: inner, by simp, hlast,
      .itemsCons he hk hes⟩

namespace Inner

open Parse

theorem propertyName_spells (ts : List Token) : Reads SpellsName ts (propertyName ts) := by
  intro n rest h
  unfold propertyName at h
  split at h
  · cases h
  · rename_i t
    split at h
    · rename_i ht
      cases h
      exact ⟨[t], rfl, .word ht⟩
    · cases h
  · rename_i t u ts
    split at h
    · rename_i hh
      cases h
      simp only [Bool.and_eq_true, beq_iff_eq] at hh
      exact ⟨[t, u], rfl, .hash (isPunct_iff.1 hh.1) hh.2⟩
    · split at h
      · rename_i ht
        cases h
        exact ⟨[t], rfl, .word ht⟩
      · cases h

/-! ## Primary expressions -/

/-- The parsers one level further in read what they give back. -/
structure Spelled (inner : Inner) : Prop where
  assignment : ∀ ts, ReadsExpr ts (inner.assignment.run ts)
  binary : ∀ floor ts, ReadsExpr ts ((inner.binary floor).run ts)
  unary : ∀ ts, ReadsExpr ts (inner.unary.run ts)
  callee : ∀ ts, ReadsExpr ts (inner.callee.run ts)

variable {inner : Inner}

theorem sequenceRest_spells (h : inner.Spelled) (ts : List Token) :
    Reads (fun used es => Spells used (.more es)) ts (inner.sequenceRest ts) := by
  intro es rest hp
  fun_induction inner.sequenceRest ts generalizing es rest with
  | case1 ts hc =>
    cases hp
    exact ⟨[], rfl, .moreNil⟩
  | case2 => cases hp
  | case3 => cases hp
  | case4 ts comma after hc e rest' ha es' rest'' hr ih =>
    cases hp
    obtain ⟨rfl, hk⟩ := cons_of_consume? hc
    obtain ⟨used, rfl, he⟩ := h.assignment _ _ _ ha
    obtain ⟨more, rfl, hes⟩ := ih _ _ hr
    exact ⟨comma :: (used ++ more), by simp, .moreCons hk he hes⟩

theorem expression_spells_of (h : inner.Spelled) (ts : List Token) :
    ReadsExpr ts (inner.expression ts) := by
  intro e rest hp
  unfold expression at hp
  split at hp
  · cases hp
  · rename_i first mid hf
    obtain ⟨used, rfl, he⟩ := h.assignment _ _ _ hf
    split at hp
    · cases hp
    · rename_i hs
      cases hp
      obtain ⟨more, rfl, hmore⟩ := sequenceRest_spells h _ _ _ hs
      cases hmore
      exact ⟨used, rfl, he⟩
    · rename_i hs
      cases hp
      obtain ⟨more, rfl, hmore⟩ := sequenceRest_spells h _ _ _ hs
      exact ⟨used ++ more, by simp, .sequence he hmore⟩

theorem element_spells (h : inner.Spelled) (ts : List Token) : ReadsExpr ts (inner.element ts) := by
  intro e rest hp
  unfold element at hp
  split at hp
  · exact h.assignment _ _ _ hp
  · rename_i dots after hc
    obtain ⟨rfl, hk⟩ := cons_of_consume? hc
    split at hp
    · cases hp
    · rename_i ha
      cases hp
      obtain ⟨used, rfl, he⟩ := h.assignment _ _ _ ha
      exact ⟨dots :: used, rfl, .spread hk he⟩

/-- A value behind a colon, or the key that stands for it. -/
theorem propertyValue_spells (h : inner.Spelled) (key : Token) (ts : List Token) :
    Reads (fun used e => (key.kind = .ident ∧ used = [] ∧ e = .identifier ⟨key.text, key.span⟩) ∨
      ∃ colon value, colon.kind = .punct .colon ∧ used = colon :: value ∧
        Spells value (.expr e)) ts (inner.propertyValue key ts) := by
  intro e rest hp
  unfold propertyValue at hp
  split at hp
  · rename_i colon after hc
    obtain ⟨rfl, hk⟩ := cons_of_consume? hc
    obtain ⟨used, rfl, he⟩ := h.assignment _ _ _ hp
    exact ⟨colon :: used, rfl, .inr ⟨colon, used, hk, rfl, he⟩⟩
  · split at hp
    · rename_i hkey
      cases hp
      exact ⟨[], rfl, .inl ⟨hkey, rfl, rfl⟩⟩
    · cases hp

theorem entry_spells (h : inner.Spelled) (ts : List Token) : ReadsItem ts (inner.entry ts) := by
  intro e rest hp
  unfold entry at hp
  split at hp
  · cases hp
  · rename_i key after
    split at hp
    · exact ReadsExpr.item (element_spells h _) _ _ hp
    · split at hp
      · rename_i hkey
        obtain ⟨used, rfl, ⟨hk, rfl, rfl⟩ | ⟨colon, value, hc, rfl, he⟩⟩ :=
          propertyValue_spells h key after _ _ hp
        · exact ⟨[key], rfl, .item (.identifier hk)⟩
        · exact ⟨key :: colon :: value, rfl, .keyed hkey hc he⟩
      · split at hp
        · rename_i hopen
          split at hp
          · cases hp
          · rename_i hn
            split at hp
            · cases hp
            · rename_i last rest' hb
              obtain ⟨name, rfl, hname⟩ := h.assignment _ _ _ hn
              obtain ⟨rfl, hlast⟩ := cons_of_expect hb
              have hk := isPunct_iff.1 hopen
              obtain ⟨used, rfl, ⟨hident, -, -⟩ | ⟨colon, value, hc, rfl, he⟩⟩ :=
                propertyValue_spells h key rest' _ _ hp
              · rw [hk] at hident
                cases hident
              · exact ⟨key :: (name ++ last :: colon :: value), by simp,
                  .computed hk hname hlast hc he⟩
        · cases hp

theorem elements_spells (h : inner.Spelled) (close : Punct) (holes : Bool) (ts : List Token) :
    Reads (SpellsList close) ts (inner.elements.items close holes ts) :=
  Production.items_spells (fun ts => ReadsExpr.item (element_spells h ts)) close holes ts

theorem entries_spells (h : inner.Spelled) (close : Punct) (holes : Bool) (ts : List Token) :
    Reads (SpellsList close) ts (inner.entries.items close holes ts) :=
  Production.items_spells (entry_spells h) close holes ts

theorem construction_spells (h : inner.Spelled) {t : Token} (ht : t.isWord "new" = true)
    (ts : List Token) : ReadsExpr (t :: ts) (inner.construction t.span.start ts) := by
  intro e rest hp
  unfold construction at hp
  split at hp
  · cases hp
  · rename_i hcallee
    obtain ⟨used, rfl, hf⟩ := h.callee _ _ _ hcallee
    split at hp
    · cases hp
      exact ⟨t :: used, rfl, .new ht hf⟩
    · rename_i first after hopen
      obtain ⟨rfl, hfirst⟩ := cons_of_consume? hopen
      split at hp
      · cases hp
      · rename_i hi
        cases hp
        obtain ⟨_, rfl, arguments, rfl, hlast, hes⟩ := elements_spells h _ _ _ _ _ hi
        exact ⟨t :: (used ++ first :: (arguments ++ [_])), by simp,
          .newWith ht hf hfirst hes hlast⟩

theorem wordExpr_spells {t : Token} (ht : t.kind = .ident) : Spells [t] (.expr (wordExpr t)) := by
  unfold wordExpr
  split
  · exact .keyword ht
  · exact .identifier ht

theorem primary_spells (h : inner.Spelled) (ts : List Token) : ReadsExpr ts (inner.primary ts) := by
  intro e rest hp
  unfold primary at hp
  split at hp
  · cases hp
  · rename_i t after
    split at hp
    · rename_i hk
      cases hp
      exact ⟨[t], rfl, .string hk⟩
    · rename_i hk
      cases hp
      exact ⟨[t], rfl, .number hk⟩
    · rename_i hk
      cases hp
      exact ⟨[t], rfl, .template hk⟩
    · rename_i hk
      split at hp
      · cases hp
      · split at hp
        · rename_i hnew
          have hword : t.isWord "new" = true := by simp [Token.isWord, hk, hnew]
          exact construction_spells h hword after _ _ hp
        · cases hp
          exact ⟨[t], rfl, wordExpr_spells hk⟩
    · rename_i hk
      split at hp
      · cases hp
      · rename_i hi
        obtain ⟨used, rfl, he⟩ := expression_spells_of h _ _ _ hi
        split at hp
        · cases hp
        · rename_i last rest' hl
          cases hp
          obtain ⟨rfl, hlast⟩ := cons_of_expect hl
          exact ⟨t :: (used ++ [last]), by simp, .paren hk he hlast⟩
    · rename_i hk
      split at hp
      · cases hp
      · rename_i hi
        cases hp
        obtain ⟨_, rfl, used, rfl, hlast, hes⟩ := elements_spells h _ _ _ _ _ hi
        exact ⟨t :: (used ++ [_]), by simp, .array hk hes hlast⟩
    · rename_i hk
      split at hp
      · cases hp
      · rename_i hi
        cases hp
        obtain ⟨_, rfl, used, rfl, hlast, hes⟩ := entries_spells h _ _ _ _ _ hi
        exact ⟨t :: (used ++ [_]), by simp, .object hk hes hlast⟩
    · cases hp

/-! ## Suffixes -/

theorem property_spells (e : Expr) (isOptional : Bool) (ts : List Token) :
    Reads (fun used f => ∀ mark : Token, mark.kind = .punct (propertyMark isOptional) →
      Continues e (mark :: used) f) ts (property e isOptional ts) := by
  intro f rest hp
  unfold property at hp
  split at hp
  · cases hp
  · rename_i hn
    cases hp
    obtain ⟨name, rfl, hname⟩ := propertyName_spells _ _ _ hn
    exact ⟨name, rfl, fun mark hm used he => .member he hm hname⟩

theorem subscript_spells (h : inner.Spelled) (e : Expr) (isOptional : Bool) (ts : List Token) :
    Reads (fun used f => ∀ mark (first : Token), SpellsMark isOptional mark →
      first.kind = .punct .openBracket → Continues e (mark ++ first :: used) f) ts
      (inner.subscript e isOptional ts) := by
  intro f rest hp
  unfold subscript at hp
  split at hp
  · cases hp
  · rename_i hi
    obtain ⟨used, rfl, hindex⟩ := expression_spells_of h _ _ _ hi
    split at hp
    · cases hp
    · rename_i last rest' hl
      cases hp
      obtain ⟨rfl, hlast⟩ := cons_of_expect hl
      exact ⟨used ++ [last], by simp, fun mark first hm hf _ he => .index he hm hf hindex hlast⟩

theorem application_spells (h : inner.Spelled) (e : Expr) (isOptional : Bool) (ts : List Token) :
    Reads (fun used f => ∀ mark (first : Token), SpellsMark isOptional mark →
      first.kind = .punct .openParen → Continues e (mark ++ first :: used) f) ts
      (inner.application e isOptional ts) := by
  intro f rest hp
  unfold application at hp
  split at hp
  · cases hp
  · rename_i hi
    cases hp
    obtain ⟨_, rfl, arguments, rfl, hlast, hes⟩ := elements_spells h _ _ _ _ _ hi
    exact ⟨arguments ++ [_], rfl, fun mark first hm hf _ he => .call he hm hf hes hlast⟩

theorem optionalSuffix_spells (h : inner.Spelled) {t : Token} (ht : t.kind = .punct .optionalDot)
    (e : Expr) (ts : List Token) :
    Reads (Continues e) (t :: ts) (inner.optionalSuffix e ts) := by
  intro f rest hp
  unfold optionalSuffix at hp
  split at hp
  · rename_i first after hc
    obtain ⟨rfl, hfirst⟩ := cons_of_consume? hc
    obtain ⟨used, rfl, hf⟩ := application_spells h _ _ _ _ _ hp
    exact ⟨t :: first :: used, rfl, hf [t] first (.some ht) hfirst⟩
  · split at hp
    · rename_i first after hc
      obtain ⟨rfl, hfirst⟩ := cons_of_consume? hc
      obtain ⟨used, rfl, hf⟩ := subscript_spells h _ _ _ _ _ hp
      exact ⟨t :: first :: used, rfl, hf [t] first (.some ht) hfirst⟩
    · obtain ⟨used, rfl, hf⟩ := property_spells _ _ _ _ _ hp
      exact ⟨t :: used, rfl, hf t ht⟩

theorem suffix?_spells (h : inner.Spelled) {e f : Expr} {t : Token} {ts rest : List Token}
    (hp : inner.suffix? e t ts = some (.ok (f, rest))) :
    ∃ used, t :: ts = used ++ rest ∧ Continues e used f := by
  unfold suffix? at hp
  split at hp
  · rename_i hk
    obtain ⟨used, rfl, hf⟩ := property_spells _ _ _ _ _ (Option.some.inj hp)
    exact ⟨t :: used, rfl, hf t hk⟩
  · rename_i hk
    exact optionalSuffix_spells h hk _ _ _ _ (Option.some.inj hp)
  · rename_i hk
    obtain ⟨used, rfl, hf⟩ := subscript_spells h _ _ _ _ _ (Option.some.inj hp)
    exact ⟨t :: used, rfl, hf [] t .none hk⟩
  · rename_i hk
    obtain ⟨used, rfl, hf⟩ := application_spells h _ _ _ _ _ (Option.some.inj hp)
    exact ⟨t :: used, rfl, hf [] t .none hk⟩
  · rename_i hk
    cases hp
    exact ⟨[t], rfl, fun used he => .taggedTemplate he hk⟩
  · cases hp

theorem suffixes_spells (h : inner.Spelled) (e : Expr) (ts : List Token) :
    Reads (Continues e) ts (inner.suffixes e ts) := by
  intro f rest hp
  fun_induction inner.suffixes e ts with
  | case1 e =>
    cases hp
    exact ⟨[], rfl, continues_nil _⟩
  | case2 e =>
    cases hp
    exact ⟨[], rfl, continues_nil _⟩
  | case3 => cases hp
  | case4 e t after g rest' hs ih =>
    obtain ⟨used, hused, hg⟩ := suffix?_spells h hs
    obtain ⟨more, rfl, hf⟩ := ih hp
    exact ⟨used ++ more, by rw [hused, List.append_assoc], hg.trans hf⟩

theorem properties_spells (e : Expr) (ts : List Token) :
    Reads (Continues e) ts (properties e ts) := by
  intro f rest hp
  fun_induction properties e ts with
  | case1 =>
    cases hp
    exact ⟨[], rfl, continues_nil _⟩
  | case2 => cases hp
  | case3 e ts dot after hc g rest' hproperty ih =>
    obtain ⟨rfl, hk⟩ := cons_of_consume? hc
    obtain ⟨used, rfl, hg⟩ := property_spells _ _ _ _ _ hproperty
    obtain ⟨more, rfl, hf⟩ := ih hp
    exact ⟨dot :: used ++ more, by simp, (hg dot hk).trans hf⟩

/-- An expression and what goes on behind it. -/
theorem reads_continued {ts mid rest : List Token} {e f : Expr} {p q : Parse Expr}
    (hp : ReadsExpr ts p) (hq : Reads (Continues e) mid q) (he : p = .ok (e, mid))
    (hf : q = .ok (f, rest)) : ∃ used, ts = used ++ rest ∧ Spells used (.expr f) := by
  obtain ⟨used, rfl, hspells⟩ := hp _ _ he
  obtain ⟨more, rfl, hmore⟩ := hq _ _ hf
  exact ⟨used ++ more, by simp, hmore used hspells⟩

theorem postfixed_spells (h : inner.Spelled) (ts : List Token) :
    ReadsExpr ts (inner.postfixed ts) := by
  intro e rest hp
  unfold postfixed at hp
  split at hp
  · cases hp
  · rename_i f mid hprimary
    exact reads_continued (primary_spells h ts) (suffixes_spells h f mid) hprimary hp

theorem calleeBody_spells (h : inner.Spelled) (ts : List Token) :
    ReadsExpr ts (inner.calleeBody ts) := by
  intro e rest hp
  unfold calleeBody at hp
  split at hp
  · cases hp
  · rename_i f mid hprimary
    exact reads_continued (primary_spells h ts) (properties_spells f mid) hprimary hp

/-! ## Operators -/

theorem stepped_spells (h : inner.Spelled) (ts : List Token) : ReadsExpr ts (inner.stepped ts) := by
  intro e rest hp
  unfold stepped at hp
  split at hp
  · cases hp
  · rename_i hpost
    cases hp
    exact postfixed_spells h _ _ _ hpost
  · rename_i t after hpost
    split at hp
    · cases hp
      exact postfixed_spells h _ _ _ hpost
    · rename_i op hop
      split at hp
      · cases hp
        exact postfixed_spells h _ _ _ hpost
      · cases hp
        obtain ⟨used, rfl, he⟩ := postfixed_spells h _ _ _ hpost
        exact ⟨used ++ [t], by simp, .stepAfter he hop⟩

theorem unaryBody_spells (h : inner.Spelled) (ts : List Token) :
    ReadsExpr ts (inner.unaryBody ts) := by
  intro e rest hp
  unfold unaryBody at hp
  split at hp
  · cases hp
  · rename_i t after
    split at hp
    · rename_i op hop
      split at hp
      · cases hp
      · rename_i hu
        cases hp
        obtain ⟨used, rfl, he⟩ := h.unary _ _ _ hu
        exact ⟨t :: used, rfl, .unary hop he⟩
    · split at hp
      · rename_i op hop
        split at hp
        · cases hp
        · rename_i hu
          cases hp
          obtain ⟨used, rfl, he⟩ := h.unary _ _ _ hu
          exact ⟨t :: used, rfl, .stepBefore hop he⟩
      · exact stepped_spells h _ _ _ hp

theorem operators_spells (h : inner.Spelled) (floor : Nat) (left : Expr) (ts : List Token) :
    Reads (Continues left) ts (inner.operators floor left ts) := by
  intro e rest hp
  fun_induction inner.operators floor left ts with
  | case1 =>
    cases hp
    exact ⟨[], rfl, continues_nil _⟩
  | case2 =>
    cases hp
    exact ⟨[], rfl, continues_nil _⟩
  | case3 =>
    cases hp
    exact ⟨[], rfl, continues_nil _⟩
  | case4 => cases hp
  | case5 left t after op hop hf right rest' hr ih =>
    obtain ⟨used, rfl, hright⟩ := h.binary _ _ _ _ hr
    obtain ⟨more, rfl, hmore⟩ := ih hp
    have hbinary : Continues left (t :: used)
        (.binary op left right ⟨left.span.start, right.span.stop⟩) :=
      fun _ hleft => .binary hleft hop hright
    exact ⟨t :: used ++ more, by simp, hbinary.trans hmore⟩

theorem binaryBody_spells (h : inner.Spelled) (floor : Nat) (ts : List Token) :
    ReadsExpr ts (inner.binaryBody floor ts) := by
  intro e rest hp
  unfold binaryBody at hp
  split at hp
  · cases hp
  · rename_i f mid hu
    exact reads_continued (unaryBody_spells h ts) (operators_spells h floor f mid) hu hp

theorem conditional_spells (h : inner.Spelled) (ts : List Token) :
    ReadsExpr ts (inner.conditional ts) := by
  intro e rest hp
  unfold conditional at hp
  split at hp
  · cases hp
  · rename_i ht
    obtain ⟨test, rfl, htest⟩ := h.binary _ _ _ _ ht
    split at hp
    · cases hp
      exact ⟨test, rfl, htest⟩
    · rename_i question after hq
      obtain ⟨rfl, hquestion⟩ := cons_of_consume? hq
      split at hp
      · cases hp
      · rename_i hy
        obtain ⟨yes, rfl, hyes⟩ := h.assignment _ _ _ hy
        split at hp
        · cases hp
        · rename_i colon after' hc
          obtain ⟨rfl, hcolon⟩ := cons_of_expect hc
          split at hp
          · cases hp
          · rename_i hn
            cases hp
            obtain ⟨no, rfl, hno⟩ := h.assignment _ _ _ hn
            exact ⟨test ++ question :: (yes ++ colon :: no), by simp,
              .conditional htest hquestion hyes hcolon hno⟩

theorem assigned_spells (h : inner.Spelled) (ts : List Token) :
    ReadsExpr ts (inner.assigned ts) := by
  intro e rest hp
  unfold assigned at hp
  split at hp
  · cases hp
  · rename_i hc
    cases hp
    exact conditional_spells h _ _ _ hc
  · rename_i t after hc
    split at hp
    · cases hp
      exact conditional_spells h _ _ _ hc
    · rename_i op hop
      split at hp
      · cases hp
      · rename_i hv
        cases hp
        obtain ⟨target, rfl, htarget⟩ := conditional_spells h _ _ _ hc
        obtain ⟨value, rfl, hvalue⟩ := h.assignment _ _ _ hv
        exact ⟨target ++ t :: value, by simp, .assign htarget hop hvalue⟩

/-! ## Arrow functions -/

/-- The bracket that closes is found whatever stands behind it. -/
theorem closing_append {depth : Nat} {ts rest : List Token} {close : Token}
    (h : closing depth ts = some (close, rest)) :
    ∃ inner, ts = inner ++ close :: rest ∧
      ∀ rest', closing depth (inner ++ close :: rest') = some (close, rest') := by
  induction ts generalizing depth with
  | nil => cases h
  | cons t ts ih =>
    -- in all cases but the last, the token belongs to what is enclosed
    have hgo : ∀ {d}, closing d ts = some (close, rest) →
        (∀ us, closing depth (t :: us) = closing d us) →
        ∃ inner, t :: ts = inner ++ close :: rest ∧
          ∀ rest', closing depth (inner ++ close :: rest') = some (close, rest') := by
      intro d hd hstep
      obtain ⟨inner, rfl, hinner⟩ := ih hd
      exact ⟨t :: inner, rfl, fun rest' => (hstep _).trans (hinner rest')⟩
    simp only [closing] at h
    split at h
    · rename_i p hk
      split at h
      · rename_i hopening
        exact hgo h fun us => by simp [closing, hk, hopening]
      · rename_i hopening
        split at h
        · rename_i hclosing
          split at h
          · cases h
            exact ⟨[], rfl, fun rest' => by simp [closing, hk, hopening, hclosing]⟩
          · exact hgo h fun us => by simp [closing, hk, hopening, hclosing]
        · rename_i hclosing
          exact hgo h fun us => by simp [closing, hk, hopening, hclosing]
    · rename_i hk
      refine hgo h fun us => ?_
      rw [closing.eq_def]
      dsimp only
      split
      · rename_i p hp
        exact absurd hp (hk p)
      · rfl

/-- Tokens up to the bracket that closes the first one. -/
theorem enclosed_of_closing {p : Punct} {first close : Token} {ts rest : List Token}
    (hf : first.kind = .punct p) (h : closing 0 ts = some (close, rest)) :
    ∃ used, first :: ts = used ++ rest ∧
      Enclosed p used ⟨first.span.start, close.span.stop⟩ := by
  obtain ⟨inner, rfl, hinner⟩ := closing_append h
  exact ⟨first :: (inner ++ [close]), by simp, .intro hf (hinner [])⟩

theorem parameters?_spells {ts rest : List Token} {s : Span}
    (h : parameters? ts = some (s, rest)) :
    ∃ (used : List Token) (mark : Token), ts = used ++ mark :: rest ∧ mark.kind = .punct .arrow ∧
      SpellsParams used s := by
  cases ts with
  | nil => cases h
  | cons t ts =>
    simp only [parameters?] at h
    split at h
    · rename_i hk
      obtain ⟨⟨mark, after⟩, hc, he⟩ := Option.map_eq_some_iff.1 h
      cases he
      obtain ⟨rfl, hmark⟩ := cons_of_consume? hc
      exact ⟨[t], mark, rfl, hmark, .word hk⟩
    · split at h
      · rename_i hopen
        split at h
        · cases h
        · rename_i close after hclose
          obtain ⟨⟨mark, after⟩, hc, he⟩ := Option.map_eq_some_iff.1 h
          cases he
          obtain ⟨rfl, hmark⟩ := cons_of_consume? hc
          obtain ⟨used, hused, henclosed⟩ := enclosed_of_closing (isPunct_iff.1 hopen) hclose
          exact ⟨used, mark, hused, hmark, .list henclosed⟩
      · cases h

/-- What stands in front of an arrow, told by the first of its tokens. -/
theorem head_spells {t : Token} {ts rest : List Token} {s : Span}
    (h : parameters? (skipAsync (t :: ts)) = some (s, rest)) :
    ∃ (head : List Token) (mark : Token), t :: ts = head ++ mark :: rest ∧
      mark.kind = .punct .arrow ∧ SpellsHead head t.span.start s := by
  obtain ⟨used, mark, hused, hmark, hparams⟩ := parameters?_spells h
  have hstart := hparams.start_eq
  -- without the word the parameters come first
  have hplain : t :: ts = used ++ mark :: rest → SpellsHead used t.span.start s := by
    intro heq
    cases used with
    | nil => cases hstart
    | cons u us =>
      obtain rfl : t = u := (List.cons.inj heq).1
      rw [show t.span.start = s.start from Option.some.inj hstart]
      exact .plain hparams
  cases ts with
  | nil => exact ⟨used, mark, hused, hmark, hplain hused⟩
  | cons u us =>
    rw [skipAsync] at hused
    split at hused
    · rename_i hasync
      simp only [Bool.and_eq_true] at hasync
      exact ⟨t :: used, mark, by rw [hused]; rfl, hmark, .async hasync.1.1 hparams⟩
    · exact ⟨used, mark, hused, hmark, hplain hused⟩

theorem assignmentBody_spells (h : inner.Spelled) (ts : List Token) :
    ReadsExpr ts (inner.assignmentBody ts) := by
  intro e rest hp
  unfold assignmentBody at hp
  split at hp
  · exact assigned_spells h _ _ _ hp
  · rename_i t us
    split at hp
    · exact assigned_spells h _ _ _ hp
    · rename_i params after hparams
      obtain ⟨head, mark, hhead, hmark, hspells⟩ := head_spells hparams
      rw [hhead]
      split at hp
      · cases hp
      · rename_i body rest' hb
        cases hp
        unfold arrowBody at hb
        split at hb
        · rename_i brace afterBrace hbrace
          obtain ⟨rfl, hk⟩ := cons_of_consume? hbrace
          split at hb
          · cases hb
          · rename_i close after' hclose
            cases hb
            obtain ⟨used, hused, hbody⟩ := enclosed_of_closing hk hclose
            exact ⟨head ++ mark :: used, by rw [hused]; simp, .arrowBlock hspells hmark hbody⟩
        · split at hb
          · cases hb
          · rename_i ha
            cases hb
            obtain ⟨used, rfl, he⟩ := h.assignment _ _ _ ha
            exact ⟨head ++ mark :: used, by simp, .arrow hspells hmark he⟩

/-! ## Levels -/

theorem spelled_ofDepth (depth : Nat) : (ofDepth depth).Spelled := by
  induction depth with
  | zero => constructor <;> intros <;> intro _ _ hp <;> cases hp
  | succ depth ih =>
    exact ⟨assignmentBody_spells ih, binaryBody_spells ih, unaryBody_spells ih,
      calleeBody_spells ih⟩

/-- **The tokens of an expression** stand in front of those that are left. -/
theorem expression_spells (ts : List Token) : ReadsExpr ts (grammar.expression ts) :=
  expression_spells_of (spelled_ofDepth maxDepth) ts

end Inner

/-! ## Programs -/

/-- The tokens of a program: those of each statement, with the semicolon that ends it or, where there
is none, a line end in front of the next one. -/
inductive SpellsProgram : List Token → List Statement → Prop
  | nil : SpellsProgram [] []
  | empty {t : Token} {ts : List Token} {ss : List Statement} (ht : t.kind = .punct .semicolon)
      (hss : SpellsProgram ts ss) : SpellsProgram (t :: ts) (.empty t.fullStart t.span :: ss)
  | last {first : Token} {used : List Token} {e : Expr} (he : Spells (first :: used) (.expr e)) :
      SpellsProgram (first :: used) [.expression (.of first e e.span.stop)]
  | ended {first t : Token} {used ts : List Token} {e : Expr} {ss : List Statement}
      (he : Spells (first :: used) (.expr e)) (ht : t.kind = .punct .semicolon)
      (hss : SpellsProgram ts ss) :
      SpellsProgram (first :: (used ++ t :: ts)) (.expression (.of first e t.span.stop) :: ss)
  | broken {first t : Token} {used ts : List Token} {e : Expr} {ss : List Statement}
      (he : Spells (first :: used) (.expr e)) (ht : t.newlineBefore = true)
      (hss : SpellsProgram (t :: ts) ss) :
      SpellsProgram (first :: (used ++ t :: ts)) (.expression (.of first e e.span.stop) :: ss)

theorem exists_of_map_cons {r : Except ParseError (List Statement)} {s : Statement}
    {ss : List Statement} (h : r.map (s :: ·) = .ok ss) : ∃ ss', r = .ok ss' ∧ ss = s :: ss' := by
  cases r with
  | error e => cases h
  | ok ss' =>
    cases h
    exact ⟨ss', rfl, rfl⟩

/-- The tokens of an expression begin with the first token that there is. -/
theorem cons_of_expression {first : Token} {others rest : List Token} {e : Expr}
    (h : grammar.expression (first :: others) = .ok (e, rest)) :
    ∃ used, others = used ++ rest ∧ Spells (first :: used) (.expr e) := by
  obtain ⟨used, hused, he⟩ := Inner.expression_spells _ _ _ h
  have hconsumes := grammar.expression_consumes _ _ _ h
  cases used with
  | nil =>
    rw [hused, List.nil_append] at hconsumes
    exact absurd hconsumes (Nat.lt_irrefl _)
  | cons u used =>
    obtain ⟨rfl, rfl⟩ := List.cons.inj hused
    exact ⟨used, rfl, he⟩

/-- **The tokens of a program** are those of its statements. -/
theorem statements_spells {ts : List Token} {ss : List Statement} (h : statements ts = .ok ss) :
    SpellsProgram ts ss := by
  fun_induction statements ts generalizing ss with
  | case1 =>
    cases h
    exact .nil
  | case2 first others hk ih =>
    obtain ⟨ss', hss, rfl⟩ := exists_of_map_cons h
    exact .empty (isPunct_iff.1 hk) (ih hss)
  | case3 => cases h
  | case4 first others _ e he =>
    cases h
    obtain ⟨used, rfl, hspells⟩ := cons_of_expression he
    rw [List.append_nil]
    exact .last hspells
  | case5 first others _ e t rest he hk ih =>
    obtain ⟨ss', hss, rfl⟩ := exists_of_map_cons h
    obtain ⟨used, rfl, hspells⟩ := cons_of_expression he
    exact .ended hspells (isPunct_iff.1 hk) (ih hss)
  | case6 first others _ e t rest he _ hnewline ih =>
    obtain ⟨ss', hss, rfl⟩ := exists_of_map_cons h
    obtain ⟨used, rfl, hspells⟩ := cons_of_expression he
    exact .broken hspells hnewline (ih hss)
  | case7 => cases h

end BindingToggle
