import BindingToggle.Proofs.Relocation
import Mathlib.Data.List.Forall2
import Mathlib.Order.Monotone.Basic

/-!
# The layout of a program

Where the tokens of a source stand, and what trivia stands between them, has no influence on what
they mean: only whether a line ends in front of a token is looked at. Two sources whose tokens
differ in nothing else give the same statements at other places, or the same error.

* `Statement.relocate g`, `relocateProgram g` — a statement, and the outcome of reading a program,
  with `g` applied to every offset.
* `statements_relocate` — the splitting into statements can be exchanged with a relocation.
* `Token.Alike` — two tokens with the same kind and text, either both or neither on a new line.
* `parseProgram_layout` — the two sources are read alike.
-/

namespace BindingToggle

/-! ## Statements -/

/-- The statement at another place. The width of the gap is measured again between its new ends. -/
def Statement.relocate (g : Nat → Nat) : Statement → Statement
  | .expression s =>
    .expression ⟨s.expr.relocate g, g s.pos, g (s.pos + s.gapWidth) - g s.pos, g s.stop⟩
  | .empty pos s => .empty (g pos) (s.relocate g)

/-- The outcome of reading a program with every statement, or the error, at another place. -/
def relocateProgram (g : Nat → Nat) :
    Except ParseError (List Statement) → Except ParseError (List Statement)
  | .error e => .error (e.relocate g)
  | .ok ss => .ok (ss.map (Statement.relocate g))

variable {g : Nat → Nat}

theorem relocateProgram_map_cons (s : Statement) (r : Except ParseError (List Statement)) :
    relocateProgram g (r.map (s :: ·)) = (relocateProgram g r).map (s.relocate g :: ·) := by
  cases r <;> rfl

/-- A gap has the width of what lies between its new ends. -/
theorem Token.gapWidth_relocate (hg : Monotone g) (t : Token) :
    (t.relocate g).gapWidth = g (t.fullStart + t.gapWidth) - g t.fullStart := by
  show g t.span.start - g t.fullStart = g (t.fullStart + (t.span.start - t.fullStart)) - _
  rcases Nat.le_total t.fullStart t.span.start with h | h
  · rw [Nat.add_sub_cancel' h]
  · -- a token in front of its own gap leaves no width, before and after
    rw [Nat.sub_eq_zero_of_le h, Nat.add_zero, Nat.sub_self, Nat.sub_eq_zero_of_le (hg h)]

theorem Statement.relocate_of (hg : Monotone g) (first : Token) (e : Expr) (stop : Nat) :
    (Statement.expression (.of first e stop)).relocate g =
      .expression (.of (first.relocate g) (e.relocate g) (g stop)) := by
  simp only [Statement.relocate, ExpressionStatement.of, Token.gapWidth_relocate hg]
  rfl

/-- One round of the loop over statements. -/
theorem statements_eq (first : Token) (others : List Token) :
    statements (first :: others) =
      if first.isPunct .semicolon then
        (statements others).map (.empty first.fullStart first.span :: ·)
      else
        match grammar.expression (first :: others) with
        | .error e => .error e
        | .ok (expr, []) => .ok [.expression (.of first expr expr.span.stop)]
        | .ok (expr, t :: rest) =>
          if t.isPunct .semicolon then
            (statements rest).map (.expression (.of first expr t.span.stop) :: ·)
          else if t.newlineBefore then
            (statements (t :: rest)).map (.expression (.of first expr expr.span.stop) :: ·)
          else .error (Parse.unexpected (t :: rest)) := by
  rw [statements]
  split
  · rfl
  · split <;> rename_i he <;> rw [he]

/-- **Splitting into statements can be exchanged with a relocation** that keeps the order. -/
theorem statements_relocate (hg : Monotone g) (ts : List Token) :
    statements (ts.map (Token.relocate g)) = relocateProgram g (statements ts) := by
  have hread : ∀ ts, grammar.expression (ts.map (Token.relocate g)) =
      (grammar.expression ts).relocate g (Expr.relocate g) :=
    Inner.expression_relocate (Inner.relocates_ofDepth g maxDepth)
  fun_induction statements ts with
  | case1 =>
    rw [List.map_nil, statements]
    rfl
  | case2 first others hs ih =>
    rw [List.map_cons, statements_eq, Token.isPunct_relocate, if_pos hs, relocateProgram_map_cons,
      ih]
    rfl
  | case3 first others hs e he =>
    rw [List.map_cons, statements_eq, Token.isPunct_relocate, if_neg hs, ← List.map_cons, hread, he]
    rfl
  | case4 first others hs expr he =>
    rw [List.map_cons, statements_eq, Token.isPunct_relocate, if_neg hs, ← List.map_cons, hread, he]
    simp only [relocateProgram, List.map_cons, List.map_nil, Statement.relocate_of hg]
    simp [Span.relocate]
  | case5 first others hs expr t rest he hsemi ih =>
    rw [List.map_cons, statements_eq, Token.isPunct_relocate, if_neg hs, ← List.map_cons, hread, he,
      relocateProgram_map_cons, Statement.relocate_of hg, ← ih]
    simp only [Parse.relocate_ok, List.map_cons, Token.isPunct_relocate, hsemi, if_true,
      Token.span_relocate, Span.relocate]
  | case6 first others hs expr t rest he hsemi hline ih =>
    rw [List.map_cons, statements_eq, Token.isPunct_relocate, if_neg hs, ← List.map_cons, hread, he,
      relocateProgram_map_cons, Statement.relocate_of hg, ← ih]
    simp only [Parse.relocate_ok, List.map_cons, Token.isPunct_relocate, hsemi, Bool.false_eq_true,
      if_false, Token.newlineBefore_relocate, hline, if_true, Expr.span_relocate, Span.relocate]
  | case7 first others hs expr t rest he hsemi hline =>
    rw [List.map_cons, statements_eq, Token.isPunct_relocate, if_neg hs, ← List.map_cons, hread, he]
    simp only [Parse.relocate_ok, List.map_cons, Token.isPunct_relocate, hsemi, Bool.false_eq_true,
      if_false, Token.newlineBefore_relocate, hline, relocateProgram, ← Parse.unexpected_relocate]

/-! ## Sources with the same tokens -/

/-- Two tokens that differ in nothing but their places and the trivia in front of them. -/
structure Token.Alike (t u : Token) : Prop where
  kind_eq : t.kind = u.kind
  text_eq : t.text = u.text
  newlineBefore_eq : t.newlineBefore = u.newlineBefore

/-- Tokens that are alike cannot be told apart once their places are gone. -/
theorem map_relocate_eq_of_alike {ts us : List Token} (h : List.Forall₂ Token.Alike ts us) :
    ts.map (Token.relocate fun _ => 0) = us.map (Token.relocate fun _ => 0) := by
  induction h with
  | nil => rfl
  | @cons t u ts us htu _ ih =>
    have hhead : t.relocate (fun _ => 0) = u.relocate (fun _ => 0) := by
      obtain ⟨kind, text, _, _, newline⟩ := t
      obtain ⟨_, _, _, _, _⟩ := u
      obtain ⟨rfl, rfl, rfl⟩ := htu
      rfl
    rw [List.map_cons, List.map_cons, hhead, ih]

/-- **The layout of a source has no influence on how it is read.** Where the tokens of two sources
are alike, both give the same statements or the same error, apart from all places. -/
theorem parseProgram_layout {source source' : Text} {s s' : TokenStream}
    (hlex : lex source = .ok s) (hlex' : lex source' = .ok s')
    (halike : List.Forall₂ Token.Alike s.tokens s'.tokens) :
    relocateProgram (fun _ => 0) (parseProgram source) =
      relocateProgram (fun _ => 0) (parseProgram source') := by
  simp only [parseProgram, hlex, hlex']
  rw [← statements_relocate monotone_const, ← statements_relocate monotone_const,
    map_relocate_eq_of_alike halike]

/-- A comment and blanks between the same tokens, with a line end in front of the last one. -/
theorem parseProgram_layout_comment :
    ∃ s s', lex "a/**/.b\n'c'".toList = .ok s ∧ lex "a .b // d\n  'c' ".toList = .ok s' ∧
      s ≠ s' ∧
      relocateProgram (fun _ => 0) (parseProgram "a/**/.b\n'c'".toList) =
        relocateProgram (fun _ => 0) (parseProgram "a .b // d\n  'c' ".toList) := by
  have hfirst : (lex "a/**/.b\n'c'".toList).toOption =
      some ⟨[⟨.ident, "a".toList, 0, ⟨0, 1⟩, false⟩, ⟨.punct .dot, ".".toList, 1, ⟨5, 6⟩, false⟩,
        ⟨.ident, "b".toList, 6, ⟨6, 7⟩, false⟩,
        ⟨.string '\'' false, "'c'".toList, 7, ⟨8, 11⟩, true⟩], 11, 11, false⟩ := by
    decide +kernel
  have hsecond : (lex "a .b // d\n  'c' ".toList).toOption =
      some ⟨[⟨.ident, "a".toList, 0, ⟨0, 1⟩, false⟩, ⟨.punct .dot, ".".toList, 1, ⟨2, 3⟩, false⟩,
        ⟨.ident, "b".toList, 3, ⟨3, 4⟩, false⟩,
        ⟨.string '\'' false, "'c'".toList, 4, ⟨12, 15⟩, true⟩], 15, 16, false⟩ := by
    decide +kernel
  cases hlex : lex "a/**/.b\n'c'".toList with
  | error e =>
    rw [hlex] at hfirst
    cases hfirst
  | ok s =>
    cases hlex' : lex "a .b // d\n  'c' ".toList with
    | error e =>
      rw [hlex'] at hsecond
      cases hsecond
    | ok s' =>
      rw [hlex] at hfirst
      rw [hlex'] at hsecond
      obtain rfl := Option.some.inj hfirst
      obtain rfl := Option.some.inj hsecond
      refine ⟨_, _, rfl, rfl, by decide, parseProgram_layout hlex hlex' ?_⟩
      exact .cons ⟨rfl, rfl, rfl⟩ (.cons ⟨rfl, rfl, rfl⟩ (.cons ⟨rfl, rfl, rfl⟩
        (.cons ⟨rfl, rfl, rfl⟩ .nil)))

end BindingToggle
