import BindingToggle.Proofs.StatementTiling

/-!
# The expressions inside an expression

A tree is taken apart from the outside: `Expr.parts` are the expressions that stand directly in an
expression, and `OccursIn` goes on to all of its nodes. The tokens are taken apart along with it.

* `InOrder` — tokens that hold those of several things, one behind the other, with other tokens
  between them.
* `Spells.inOrder` — the tokens of an expression hold those of its parts, in the order of the parts.
* `Spells.of_occursIn` — so every node has tokens of its own, which stand together among those of
  the whole, and `SpellsProgram.of_occursIn` says so of the nodes of a program.
-/

namespace BindingToggle

/-! ## Parts and nodes -/

namespace Expr

/-- The expressions that stand directly in an expression, in the order of the source. -/
def parts : Expr → List Expr
  | string .. | number .. | template .. | identifier _ | keyword _ | arrow .. => []
  | member e .. | taggedTemplate e _ | unary _ e _ | update _ _ e _ | spread e _ | paren e _ => [e]
  | index e i .. => [e, i]
  | call e es .. | new e es _ => e :: es
  | binary _ e f _ | assign _ e f _ => [e, f]
  | conditional e f g _ => [e, f, g]
  | sequence es _ | array es _ | object es _ => es

/-- The expression is a node of another one: the whole of it, or a node of one of its parts. -/
inductive OccursIn (node : Expr) : Expr → Prop
  | whole : OccursIn node node
  | inside {e part : Expr} (hp : part ∈ e.parts) (h : OccursIn node part) : OccursIn node e

/-- All nodes of the expression have a property. -/
def Everywhere (holds : Expr → Prop) (e : Expr) : Prop :=
  ∀ node : Expr, node.OccursIn e → holds node

theorem everywhere_of_parts {holds : Expr → Prop} {e : Expr} (he : holds e)
    (hparts : ∀ part ∈ e.parts, part.Everywhere holds) : e.Everywhere holds := by
  intro node hnode
  cases hnode with
  | whole => exact he
  | inside hp h => exact hparts _ hp node h

end Expr

/-- The expressions of a phrase: the parts of an expression, or the members of a list. -/
def Phrase.parts : Phrase → List Expr
  | expr e => e.parts
  | item e => [e]
  | more es | items es => es

/-! ## Things that tokens hold one behind the other -/

/-- Among the tokens stand those of the given things, one behind the other. `reads` says which
tokens those of a thing are. -/
inductive InOrder {α : Type} (reads : List Token → α → Prop) : List Token → List α → Prop
  | nil (ts : List Token) : InOrder reads ts []
  | skip {ts : List Token} {as : List α} (t : Token) (h : InOrder reads ts as) :
      InOrder reads (t :: ts) as
  | next {used ts : List Token} {a : α} {as : List α} (ha : reads used a)
      (h : InOrder reads ts as) : InOrder reads (used ++ ts) (a :: as)

namespace InOrder

variable {α β : Type} {reads : List Token → α → Prop} {ts us : List Token} {as bs : List α}

theorem append (hs : InOrder reads ts as) (ht : InOrder reads us bs) :
    InOrder reads (ts ++ us) (as ++ bs) := by
  induction hs with
  | nil ts =>
    induction ts with
    | nil => exact ht
    | cons t ts ih => exact .skip t ih
  | skip t _ ih => exact .skip t ih
  | next ha _ ih =>
    rw [List.append_assoc]
    exact .next ha ih

theorem single {a : α} (ha : reads ts a) : InOrder reads ts [a] := by
  have hsingle := InOrder.next ha (.nil [])
  rwa [List.append_nil] at hsingle

theorem more (h : InOrder reads ts as) (us : List Token) : InOrder reads (ts ++ us) as := by
  have hmore : InOrder reads (ts ++ us) (as ++ []) := h.append (.nil us)
  rwa [List.append_nil] at hmore

theorem behind (us : List Token) (h : InOrder reads ts as) : InOrder reads (us ++ ts) as :=
  (InOrder.nil us).append h

/-- What the things are made of is read from the same tokens. -/
theorem map {reads' : List Token → β → Prop} {f : α → β}
    (hf : ∀ used a, reads used a → reads' used (f a)) (h : InOrder reads ts as) :
    InOrder reads' ts (as.map f) := by
  induction h with
  | nil ts => exact .nil ts
  | skip t _ ih => exact .skip t ih
  | next ha _ ih => exact .next (hf _ _ ha) ih

/-- The tokens of each thing stand together. -/
theorem exists_tokens (h : InOrder reads ts as) {a : α} (ha : a ∈ as) :
    ∃ used, used <:+: ts ∧ reads used a := by
  induction h with
  | nil => cases ha
  | skip t _ ih =>
    obtain ⟨used, hin, hreads⟩ := ih ha
    exact ⟨used, hin.trans (List.suffix_cons t _).isInfix, hreads⟩
  | @next used ts b as hb _ ih =>
    rcases List.mem_cons.1 ha with rfl | ha
    · exact ⟨used, (List.prefix_append used ts).isInfix, hb⟩
    · obtain ⟨used', hin, hreads⟩ := ih ha
      exact ⟨used', hin.trans (List.suffix_append used ts).isInfix, hreads⟩

end InOrder

/-! ## The tokens of a node -/

/-- The tokens are those of an expression. -/
abbrev SpellsExpr (used : List Token) (e : Expr) : Prop := Spells used (.expr e)

/-- **The tokens of an expression hold those of its parts**, in the order of the parts. -/
theorem Spells.inOrder {used : List Token} {p : Phrase} (h : Spells used p) :
    InOrder SpellsExpr used p.parts := by
  -- the parts of lists are found by induction, all others stand in the rule itself
  induction h with
  | string | number | template | identifier | keyword | arrow | arrowBlock => exact .nil _
  | moreNil | itemsNil => exact .nil _
  | paren _ he => exact .skip _ (.next he (.nil _))
  | unary _ he | stepBefore _ he | spread _ he | new _ he => exact .skip _ (.single he)
  | array _ _ _ ihes | object _ _ _ ihes => exact .skip _ (ihes.more _)
  | newWith _ he _ _ _ _ ihes => exact .skip _ (.next he (.skip _ (ihes.more _)))
  | member he | taggedTemplate he | stepAfter he => exact .next he (.nil _)
  | index he _ _ hi => exact .next he (.behind _ (.skip _ (.next hi (.nil _))))
  | call he _ _ _ _ _ ihes => exact .next he (.behind _ (.skip _ (ihes.more _)))
  | binary he _ hf | assign he _ hf => exact .next he (.skip _ (.single hf))
  | conditional he _ hf _ hg => exact .next he (.skip _ (.next hf (.skip _ (.single hg))))
  | sequence he _ _ ihfs => exact .next he ihfs
  | moreCons _ he _ _ ihes => exact .skip _ (.next he ihes)
  | item he => exact .single he
  | keyed _ _ he => exact .skip _ (.skip _ (.single he))
  | computed _ _ _ _ he => exact .skip _ (.behind _ (.skip _ (.skip _ (.single he))))
  | hole _ _ ihes => exact .skip _ ihes
  | itemsLast _ ihe => exact ihe
  | itemsCons _ _ _ ihe ihes => exact ihe.append (.skip _ ihes)

/-- **The tokens of a node** stand together among those of the whole expression. -/
theorem Spells.of_occursIn {used : List Token} {e node : Expr} (h : SpellsExpr used e)
    (hn : node.OccursIn e) : ∃ inner, inner <:+: used ∧ SpellsExpr inner node := by
  induction hn generalizing used with
  | whole => exact ⟨used, List.infix_rfl, h⟩
  | inside hp _ ih =>
    obtain ⟨inner, hinner, hpart⟩ := h.inOrder.exists_tokens hp
    obtain ⟨tokens, htokens, hnode⟩ := ih hpart
    exact ⟨tokens, htokens.trans hinner, hnode⟩

/-- The tokens of the expression of a statement. -/
theorem SpellsProgram.of_mem {ts : List Token} {ss : List Statement} (h : SpellsProgram ts ss)
    {s : ExpressionStatement} (hs : .expression s ∈ ss) :
    ∃ used, used <:+: ts ∧ SpellsExpr used s.expr := by
  induction h with
  | nil => cases hs
  | empty _ _ ih =>
    obtain ⟨used, hused, hspells⟩ := ih (by simpa using hs)
    exact ⟨used, hused.trans (List.suffix_cons _ _).isInfix, hspells⟩
  | @last first used e he =>
    obtain rfl : s = .of first e e.span.stop := by simpa using hs
    exact ⟨first :: used, List.infix_rfl, he⟩
  | @ended first t used ts e ss he _ _ ih =>
    rcases List.mem_cons.1 hs with hs | hs
    · cases hs
      exact ⟨first :: used, (List.prefix_append (first :: used) _).isInfix, he⟩
    · obtain ⟨inner, hinner, hspells⟩ := ih hs
      have hbehind : ts <:+ first :: used ++ t :: ts :=
        (List.suffix_cons t ts).trans (List.suffix_append _ _)
      exact ⟨inner, hinner.trans hbehind.isInfix, hspells⟩
  | @broken first t used ts e ss he _ _ ih =>
    rcases List.mem_cons.1 hs with hs | hs
    · cases hs
      exact ⟨first :: used, (List.prefix_append (first :: used) _).isInfix, he⟩
    · obtain ⟨inner, hinner, hspells⟩ := ih hs
      have hbehind : t :: ts <:+ first :: used ++ t :: ts := List.suffix_append _ _
      exact ⟨inner, hinner.trans hbehind.isInfix, hspells⟩

/-- **The tokens of a node of a program** stand together among those of the program. -/
theorem SpellsProgram.of_occursIn {ts : List Token} {ss : List Statement}
    (h : SpellsProgram ts ss) {s : ExpressionStatement} (hs : .expression s ∈ ss) {node : Expr}
    (hn : node.OccursIn s.expr) : ∃ used, used <:+: ts ∧ SpellsExpr used node := by
  obtain ⟨used, hused, hspells⟩ := h.of_mem hs
  obtain ⟨inner, hinner, hnode⟩ := hspells.of_occursIn hn
  exact ⟨inner, hinner.trans hused, hnode⟩

end BindingToggle
