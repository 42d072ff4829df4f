import BindingToggle.Proofs.Derivation
import BindingToggle.Proofs.ExpressionSpans

/-!
# Precedence and grouping

A chain of operators and operands can be read as many trees. The tree that comes out is the one in
which operators that bind tighter stand further in and equal ones group to the left, `**` alone to
the right. It is read off the grammar, in which operands on the right have a floor and operators
only stand behind the whole of what is to their left.

* `BinaryOp.Groups` — an operator between two operands that are its own.
* `Derives.grouped` — the operators of whatever the grammar derives are grouped so.
* `BinaryOp.Between` — an operator that stands in the source between its operands.
* `parseProgram_grouped` — both hold of every operator of a program.
-/

namespace BindingToggle

/-! ## Operators and their operands -/

/-- Whether an expression can be the operand of an operator as it stands, without parentheses. -/
def Expr.isOperand : Expr → Bool
  | assign .. | conditional .. | sequence .. | arrow .. | spread .. => false
  | _ => true

namespace BinaryOp

/-- The operator with what is to its left and to its right. -/
structure Groups (op : BinaryOp) (left right : Expr) : Prop where
  left_precedence : ∀ op' l r s, left = .binary op' l r s →
    op.precedence ≤ op'.precedence ∧ (op = .pow → op.precedence < op'.precedence)
  right_precedence : ∀ op' l r s, right = .binary op' l r s →
    op.precedence < op'.precedence ∨ (op = .pow ∧ op' = .pow)
  left_isOperand : left.isOperand = true
  right_isOperand : right.isOperand = true

/-- The operator is written between its operands, with nothing but trivia around it. -/
def Between (source : Text) (tokens : List Token) (op : BinaryOp) (left right : Expr) : Prop :=
  ∃ t ∈ tokens, ofToken? t = some op ∧ t.span.slice? source = some op.symbol.toList ∧
    (∃ newline, Lexer.IsGapAt source false ⟨left.span.stop, t.span.start⟩ newline) ∧
    ∃ newline, Lexer.IsGapAt source false ⟨t.span.stop, right.span.start⟩ newline

theorem rightFloor_le (op : BinaryOp) : op.rightFloor ≤ op.precedence := by
  cases op <;> decide

/-- No right operand is read with so high a floor that `**` could stand behind it. -/
theorem rightFloor_lt_pow (op : BinaryOp) : op.rightFloor < pow.precedence := by
  cases op <;> decide

/-- The operators that bind tighter than the floor of a right operand. -/
theorem precedence_of_rightFloor_lt {op op' : BinaryOp} (h : op.rightFloor < op'.precedence) :
    op.precedence < op'.precedence ∨ (op = .pow ∧ op' = .pow) := by
  cases op with
  | pow => cases op' <;> revert h <;> decide
  | _ => exact .inl h

theorem symbol_of_ofPunct? {p : Punct} {op : BinaryOp} (h : ofPunct? p = some op) :
    p.symbol = op.symbol := by
  cases p <;> cases h <;> rfl

/-- An operator is written as its symbol, as long as punctuators are. -/
theorem text_of_ofToken? {t : Token} {op : BinaryOp} (h : ofToken? t = some op)
    (hpunct : ∀ p, t.kind = .punct p → t.text = p.symbol.toList) :
    t.text = op.symbol.toList := by
  unfold ofToken? at h
  split at h
  · rename_i p hk
    rw [hpunct p hk, symbol_of_ofPunct? h]
  · split at h
    · rename_i htext
      cases h
      exact htext
    · split at h
      · rename_i htext
        cases h
        exact htext
      · cases h
  · cases h

end BinaryOp

/-! ## Grouping in the grammar -/

namespace Derives

variable {depth floor : Nat} {e f : Expr}

theorem isOperand (h : Derives depth .operand e) : e.isOperand = true := by
  cases h <;> rfl

theorem isOperand_operators (h : Derives depth (.operators floor) e) : e.isOperand = true := by
  cases h with
  | operand he => exact he.isOperand
  | binary => rfl

theorem floor_lt {op : BinaryOp} {span : Span}
    (h : Derives depth (.operators floor) (.binary op e f span)) : floor < op.precedence := by
  cases h with
  | operand he => cases he
  | binary _ hfloor => exact hfloor

theorem groups {op : BinaryOp} (he : Derives (depth + 1) (.operators floor) e) (hends : op.Ends e)
    (hf : Derives depth (.operators op.rightFloor) f) : op.Groups e f := by
  refine ⟨?_, ?_, he.isOperand_operators, hf.isOperand_operators⟩
  · rintro op' l r s rfl
    have hend : op.precedence ≤ op'.rightFloor := hends op' l r s rfl
    refine ⟨hend.trans op'.rightFloor_le, ?_⟩
    rintro rfl
    exact absurd hend (Nat.not_le_of_lt op'.rightFloor_lt_pow)
  · rintro op' l r s rfl
    exact BinaryOp.precedence_of_rightFloor_lt hf.floor_lt

end Derives

/-- If the expression is an operator between operands, these are its own. -/
def Expr.Grouped : Expr → Prop
  | binary op left right _ => op.Groups left right
  | _ => True

/-- **The grammar groups operators by precedence**, in all the nodes of a tree. -/
theorem Derives.grouped {depth : Nat} {level : Level} {e : Expr} (h : Derives depth level e) :
    e.Everywhere Expr.Grouped := by
  -- only the rule for operators has something to show of its own node
  induction h with
  | string | number | template | identifier | keyword | arrow | shorthand =>
    exact Expr.everywhere_of_parts trivial (List.forall_mem_nil _)
  | paren _ ihe | member _ ihe | taggedTemplate _ ihe | stepAfter _ ihe | stepBefore _ ihe
  | unary _ ihe | spread _ ihe =>
    exact Expr.everywhere_of_parts trivial (List.forall_mem_singleton.2 ihe)
  | array _ ihes | object _ ihes | sequence _ ihes => exact Expr.everywhere_of_parts trivial ihes
  | new _ _ ihe ihes | call _ _ ihe ihes =>
    exact Expr.everywhere_of_parts trivial (List.forall_mem_cons.2 ⟨ihe, ihes⟩)
  | index _ _ ihe ihf | assign _ _ ihe ihf =>
    exact Expr.everywhere_of_parts trivial (by simpa [Expr.parts] using ⟨ihe, ihf⟩)
  | conditional _ _ _ ihe ihf ihg =>
    exact Expr.everywhere_of_parts trivial (by simpa [Expr.parts] using ⟨ihe, ihf, ihg⟩)
  | binary he _ hends hf ihe ihf =>
    exact Expr.everywhere_of_parts (he.groups hends hf) (by simpa [Expr.parts] using ⟨ihe, ihf⟩)
  | operand _ ih | operators _ ih | unassigned _ ih | single _ ih | element _ ih => exact ih

/-! ## Operators in the source -/

/-- The tokens of an operator and its operands stand in the source one behind the other. -/
theorem Spells.between {source : Text} {s : TokenStream} {used : List Token} {op : BinaryOp}
    {left right : Expr} {span : Span} (hlex : lex source = .ok s)
    (htiles : s.TilesFrom source 0) (hused : used <:+: s.tokens)
    (h : SpellsExpr used (.binary op left right span)) :
    op.Between source s.tokens left right := by
  cases h with
  | @binary t ls rs _ _ _ hl ht hr =>
    obtain ⟨before, after, hsplit⟩ := hused
    have hmem : t ∈ s.tokens := by simp [← hsplit]
    have htile := htiles.tile t hmem
    have htext : t.text = op.symbol.toList :=
      BinaryOp.text_of_ofToken? ht fun p hk => Lexer.text_of_punct hlex hmem hk
    -- the tiling goes on with the operator behind the left operand
    have htokens : TokenStream.TilesFrom source 0
        { s with tokens := before ++ ls ++ t :: (rs ++ after) } := by
      have heq : before ++ ls ++ t :: (rs ++ after) = s.tokens := by simp [← hsplit]
      rw [heq]
      exact htiles
    have hbehind := htokens.drop (hl.extent.end_at.append before)
    obtain ⟨hstart, hrest⟩ := hbehind.tail
    have hgap : Lexer.IsGapAt source false ⟨left.span.stop, t.span.start⟩ t.newlineBefore := by
      rw [← hstart]
      exact htile.gap
    -- and with the first token of the right operand behind that
    obtain ⟨first, hfirst, hbegin⟩ := Option.map_eq_some_iff.1 hr.extent.begin_at
    obtain ⟨others, rfl⟩ := List.head?_eq_some_iff.1 hfirst
    have hgap' : Lexer.IsGapAt source false ⟨t.span.stop, right.span.start⟩
        first.newlineBefore := by
      rw [← hrest.tail.1, ← hbegin]
      exact (hrest.tile first (by simp)).gap
    exact ⟨t, hmem, ht, by rw [htile.slice, htext], ⟨_, hgap⟩, ⟨_, hgap'⟩⟩

/-- **Operators are grouped by precedence**, and each stands in the source between its operands. -/
theorem parseProgram_grouped {source : Text} {ss : List Statement}
    (h : parseProgram source = .ok ss) :
    ∃ stream, lex source = .ok stream ∧ ∀ s, .expression s ∈ ss → ∀ op left right span,
      (Expr.binary op left right span).OccursIn s.expr →
        op.Groups left right ∧ op.Between source stream.tokens left right := by
  obtain ⟨stream, hlex, htiles, hspells⟩ := tiles_of_parseProgram h
  have hstatements : statements stream.tokens = .ok ss := by
    simpa [parseProgram, hlex] using h
  refine ⟨stream, hlex, ?_⟩
  intro s hs op left right span hnode
  obtain ⟨used, hused, hbinary⟩ := hspells.of_occursIn hs hnode
  exact ⟨(statements_derived hstatements hs).grouped _ hnode,
    hbinary.between hlex htiles hused⟩

/-- The operator of an expression, with its operands, if it is one. -/
def Expr.operation? : Expr → Option (BinaryOp × Expr × Expr)
  | binary op left right _ => some (op, left, right)
  | _ => none

theorem Expr.exists_of_operation? {e left right : Expr} {op : BinaryOp}
    (h : e.operation? = some (op, left, right)) : ∃ span, e = .binary op left right span := by
  cases e with
  | binary op left right span =>
    cases h
    exact ⟨span, rfl⟩
  | _ => cases h

/-- The node is the first `**`: the second one is its right operand, and both are on the left of a
word for an operator. -/
theorem parseProgram_grouped_pow :
    ∃ ss s stream left right span, parseProgram "a ** b ** c in d".toList = .ok ss ∧
      .expression s ∈ ss ∧ (Expr.binary .pow left right span).OccursIn s.expr ∧
      right.operation?.map (·.1) = some .pow ∧ lex "a ** b ** c in d".toList = .ok stream ∧
      BinaryOp.pow.Groups left right ∧
      BinaryOp.pow.Between "a ** b ** c in d".toList stream.tokens left right := by
  have hread : (parseProgram "a ** b ** c in d".toList).toOption.map (·.map fun st =>
      ((st.expr?.bind Expr.operation?).bind (·.2.1.operation?)).map fun o =>
        (o.1, o.2.2.operation?.map (·.1))) = some [some (.pow, some .pow)] := by
    decide +kernel
  cases hparse : parseProgram "a ** b ** c in d".toList with
  | error e =>
    rw [hparse] at hread
    cases hread
  | ok ss =>
    rw [hparse] at hread
    obtain ⟨st, rfl, hst⟩ := List.map_eq_singleton_iff.1 (Option.some.inj hread)
    obtain ⟨stream, hlex, hgrouped⟩ := parseProgram_grouped hparse
    cases st with
    | empty => cases hst
    | expression s =>
      obtain ⟨⟨op, left, right⟩, hpower, hops⟩ := Option.map_eq_some_iff.1 hst
      obtain ⟨⟨_, power, _⟩, hwhole, hinner⟩ := Option.bind_eq_some_iff.1 hpower
      obtain ⟨rfl, hright⟩ := Prod.mk.inj hops
      obtain ⟨span, rfl⟩ := Expr.exists_of_operation? hinner
      obtain ⟨whole, hs⟩ := Expr.exists_of_operation? (e := s.expr) hwhole
      have hnode : (Expr.binary .pow left right span).OccursIn s.expr := by
        rw [hs]
        exact .inside List.mem_cons_self .whole
      have hmem := List.mem_singleton_self (Statement.expression s)
      exact ⟨_, s, stream, left, right, span, rfl, hmem, hnode, hright, hlex,
        hgrouped s hmem _ _ _ _ hnode⟩

end BindingToggle
