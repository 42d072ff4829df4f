import BindingToggle.Proofs.Layout
import BindingToggle.Proofs.Locality
import BindingToggle.Proofs.Seams

/-!
# Programs one behind the other

Two programs with a semicolon on a line of its own between them are a program. The line end keeps
their tokens apart, even if the first ends in a comment, and the semicolon keeps their statements
apart: nothing that is read on one side of it depends on the other side.

* `statements_append` — the statements of tokens, and behind a semicolon those of others.
* `parseProgram_append` — the statement for sources, with the places of all expressions.
-/

namespace BindingToggle

/-! ## Statements -/

/-- **A program goes on behind a semicolon** with the expressions of what stands there. -/
theorem statements_append {ts more : List Token} {ss ss' : List Statement} {semicolon : Token}
    (hsemicolon : semicolon.kind = .punct .semicolon) (hts : Closed ts)
    (h : statements ts = .ok ss) (hmore : statements more = .ok ss') :
    ∃ whole, statements (ts ++ semicolon :: more) = .ok whole ∧
      whole.filterMap Statement.expr? =
        ss.filterMap Statement.expr? ++ ss'.filterMap Statement.expr? := by
  have hread : Parse.Local (semicolon :: more) grammar.expression :=
    Inner.expression_local (.intro hsemicolon) (Inner.local_ofDepth (.intro hsemicolon) maxDepth)
  have hmark : semicolon.isPunct .semicolon = true := isPunct_iff.2 hsemicolon
  fun_induction statements ts generalizing ss with
  | case1 =>
    cases h
    rw [List.nil_append, statements_eq, if_pos hmark, hmore]
    exact ⟨_, rfl, rfl⟩
  | case2 first others hs ih =>
    obtain ⟨rest, hrest, rfl⟩ := exists_of_map_cons h
    obtain ⟨whole, hwhole, hexprs⟩ := ih hts.tail hrest
    rw [List.cons_append, statements_eq, if_pos hs, hwhole]
    exact ⟨_, rfl, hexprs⟩
  | case3 => cases h
  | case4 first others hs expr he =>
    cases h
    obtain ⟨he', -⟩ := hread hts he
    rw [List.cons_append] at he' ⊢
    rw [statements_eq, if_neg hs, he']
    simp only [List.nil_append, hmark, if_true, hmore]
    exact ⟨_, rfl, rfl⟩
  | case5 first others hs expr t rest he ht ih =>
    obtain ⟨behind, hbehind, rfl⟩ := exists_of_map_cons h
    obtain ⟨he', hrest⟩ := hread hts he
    obtain ⟨whole, hwhole, hexprs⟩ := ih hrest.tail hbehind
    rw [List.cons_append] at he' ⊢
    rw [statements_eq, if_neg hs, he']
    simp only [List.cons_append, ht, if_true, hwhole]
    exact ⟨_, rfl, congrArg (expr :: ·) hexprs⟩
  | case6 first others hs expr t rest he ht hline ih =>
    obtain ⟨behind, hbehind, rfl⟩ := exists_of_map_cons h
    obtain ⟨he', hrest⟩ := hread hts he
    obtain ⟨whole, hwhole, hexprs⟩ := ih hrest hbehind
    rw [List.cons_append] at he' hwhole ⊢
    rw [statements_eq, if_neg hs, he']
    simp only [List.cons_append, ht, hline, if_true, hwhole]
    exact ⟨_, rfl, congrArg (expr :: ·) hexprs⟩
  | case7 => cases h

/-! ## Sources -/

theorem exists_tokens_of_parseProgram {source : Text} {ss : List Statement}
    (h : parseProgram source = .ok ss) :
    ∃ stream, lex source = .ok stream ∧ statements stream.tokens = .ok ss := by
  unfold parseProgram at h
  split at h
  · cases h
  · rename_i stream hlex
    exact ⟨stream, hlex, h⟩

theorem closed_of_statements {ts : List Token} {ss : List Statement} (h : statements ts = .ok ss) :
    Closed ts := by
  have hbracketed : Bracketed Punct.AnyPair ts :=
    (statements_spells h).bracketed (fun _ _ hpair => hpair.anyPair) fun _ _ _ _ _ hpair => hpair
  exact hbracketed.closed

theorem filterMap_expr?_relocate (g : Nat → Nat) (ss : List Statement) :
    (ss.map (Statement.relocate g)).filterMap Statement.expr? =
      (ss.filterMap Statement.expr?).map (Expr.relocate g) := by
  have hexpr : Statement.expr? ∘ Statement.relocate g =
      fun s => s.expr?.map (Expr.relocate g) := by
    funext s
    cases s <;> rfl
  rw [List.filterMap_map, hexpr, List.map_filterMap]

/-- **Programs concatenate.** With a semicolon on a line of its own between them, two programs are
one, and its expressions are those of the first, and those of the second at their new places. -/
theorem parseProgram_append {first second : Text} {ss ss' : List Statement}
    (h : parseProgram first = .ok ss) (h' : parseProgram second = .ok ss') :
    ∃ whole, parseProgram (first ++ "\n;".toList ++ second) = .ok whole ∧
      whole.filterMap Statement.expr? = ss.filterMap Statement.expr? ++
        (ss'.filterMap Statement.expr?).map (Expr.relocate (· + (Text.width first + 2))) := by
  obtain ⟨stream, hlex, hstatements⟩ := exists_tokens_of_parseProgram h
  obtain ⟨stream', hlex', hstatements'⟩ := exists_tokens_of_parseProgram h'
  obtain ⟨tail, htail, hshifted⟩ := Lexer.lexFrom_shift (Text.width first + 2) hlex'
  rw [← Nat.add_assoc] at htail
  obtain ⟨joined, semicolon, hkind, hjoined, htokens⟩ := Lexer.lexFrom_seam hlex htail
  have hmono : Monotone (· + (Text.width first + 2)) := fun _ _ hle => Nat.add_le_add_right hle _
  have hmore : statements tail.tokens =
      .ok (ss'.map (Statement.relocate (· + (Text.width first + 2)))) := by
    rw [hshifted, statements_relocate hmono, hstatements']
    rfl
  obtain ⟨whole, hwhole, hexprs⟩ :=
    statements_append hkind (closed_of_statements hstatements) hstatements hmore
  refine ⟨whole, ?_, ?_⟩
  · have hsource : first ++ "\n;".toList ++ second = first ++ '\n' :: ';' :: second := by simp
    rw [hsource, parseProgram, lex, hjoined]
    simp only [htokens, hwhole]
  · rw [hexprs, filterMap_expr?_relocate]

/-- The first program ends in a comment, behind an arrow function; the second has two
expressions. -/
theorem parseProgram_append_comment :
    ∃ ss ss' whole, parseProgram "(a) => b // c".toList = .ok ss ∧
      parseProgram "d.e\nf".toList = .ok ss' ∧
      parseProgram "(a) => b // c\n;d.e\nf".toList = .ok whole ∧
      (whole.filterMap Statement.expr?).map Expr.span = [⟨0, 8⟩, ⟨15, 18⟩, ⟨19, 20⟩] := by
  have hfirst : (parseProgram "(a) => b // c".toList).toOption.map
      (fun ss => (ss.filterMap Statement.expr?).map Expr.span) = some [⟨0, 8⟩] := by
    decide +kernel
  have hsecond : (parseProgram "d.e\nf".toList).toOption.map
      (fun ss => (ss.filterMap Statement.expr?).map Expr.span) = some [⟨0, 3⟩, ⟨4, 5⟩] := by
    decide +kernel
  cases hparse : parseProgram "(a) => b // c".toList with
  | error e =>
    rw [hparse] at hfirst
    cases hfirst
  | ok ss =>
    cases hparse' : parseProgram "d.e\nf".toList with
    | error e =>
      rw [hparse'] at hsecond
      cases hsecond
    | ok ss' =>
      rw [hparse] at hfirst
      rw [hparse'] at hsecond
      obtain ⟨whole, hwhole, hexprs⟩ := parseProgram_append hparse hparse'
      refine ⟨ss, ss', whole, rfl, rfl, hwhole, ?_⟩
      have hspans : Expr.span ∘ Expr.relocate (· + 15) = Span.relocate (· + 15) ∘ Expr.span := by
        funext e
        exact e.span_relocate _
      have hwidth : Text.width "(a) => b // c".toList + 2 = 15 := by decide
      rw [hexprs, List.map_append, List.map_map, hwidth, hspans, ← List.map_map]
      rw [show (ss.filterMap Statement.expr?).map Expr.span = _ from Option.some.inj hfirst]
      rw [show (ss'.filterMap Statement.expr?).map Expr.span = _ from Option.some.inj hsecond]
      rfl

end BindingToggle
