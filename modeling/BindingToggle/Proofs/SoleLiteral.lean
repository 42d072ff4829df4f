import BindingToggle.Proofs.Literal
import BindingToggle.Proofs.LiteralStatement
import BindingToggle.Toggle.Classification

/-!
# Bindings to one string

A binding can be made static when its expression is one string, written out. `SoleLiteral` says what
this means of the characters of the expression: trivia, a string, and an ending of trivia with at
most one semicolon in it. The classification comes to its answer by way of the lexer and of the
whole grammar, and yet accepts exactly these texts.

* `literal_of_soleLiteral`, `soleLiteral_of_literal` — the two directions, for the source of an
  expression.
* `classify_eq_removable_iff` — the statement for a binding, with the places of its parts.
-/

namespace BindingToggle

open Lexer

/-- What can follow the only expression of a source: trivia, with at most one semicolon in it. -/
def IsEnding (t : Text) : Prop :=
  IsGap true t ∨ ∃ before after, t = before ++ ';' :: after ∧ IsGap false before ∧ IsGap true after

/-- A source that is the string `body` between two quotes `q`, behind the trivia `before`. -/
structure SoleLiteral (source before : Text) (q : Char) (body : Text) : Prop where
  gap : IsGap false before
  plain : IsPlainBody q body
  rest : ∃ after, IsEnding after ∧ source = before ++ q :: (body ++ q :: after)

/-- The place of a string of which the quotes are `q`, behind the trivia `before`. -/
def literalSpan (before : Text) (q : Char) (body : Text) : Span :=
  ⟨Text.width before, Text.width before + Text.width (q :: (body ++ [q]))⟩

/-! ## Tokens -/

/-- A literal passes as a plain string when its token is free of escapes and substitutions. -/
theorem literal_plain_iff {t : Token} {e : Expr} (ht : t.literal? = some e) :
    e.isStringLiteral = true ∧ Classification.isEscaped e = false ↔
      (∃ q, t.kind = .string q false) ∨ (t.kind = .template false ∧ '\\' ∉ t.text) := by
  unfold Token.literal? at ht
  split at ht
  · rename_i hk
    cases ht
    simp [hk, Expr.isStringLiteral, Classification.isEscaped]
  · rename_i hk
    cases ht
    simp [hk, Expr.isStringLiteral, Classification.isEscaped]
  · cases ht

theorem span_of_literal {t : Token} {e : Expr} (ht : t.literal? = some e) : e.span = t.span := by
  unfold Token.literal? at ht
  split at ht <;> cases ht <;> rfl

theorem word_semicolon (offset : Nat) (t : Text) :
    word offset ';' t = .ok ⟨.punct .semicolon, [';'], t⟩ := by
  have hp : Punct.ofText? (';' :: t) = some .semicolon := rfl
  rw [word, if_neg (by decide), if_neg (by simp), if_neg (by decide), if_neg (by decide), hp]
  rfl

theorem semicolon_of_word {offset : Nat} {c : Char} {t : Text} {w : Word}
    (h : word offset c t = .ok w) (hk : w.kind = .punct .semicolon) : c = ';' ∧ w.rest = t := by
  have happend := append_of_word h
  unfold word at h
  split at h
  · cases h; cases hk
  split at h
  · cases h; cases hk
  split at h
  · split at h <;> cases h
    cases hk
  split at h
  · split at h <;> cases h
    cases hk
  split at h
  · cases h
    cases hk
    simp only [show Punct.semicolon.symbol.toList = [';'] from rfl, List.cons_append,
      List.nil_append, List.cons.injEq] at happend
    exact ⟨happend.1.1.symm, happend.1.2⟩
  · cases h

theorem startsGap_quote {q : Char} {body : Text} (hp : IsPlainBody q body) (t : Text) :
    startsGap (q :: t) = false := by
  rcases hp.quote with rfl | rfl | rfl <;> simp [startsGap] <;> decide

theorem startsGap_semicolon (t : Text) : startsGap (';' :: t) = false := by
  simp [startsGap]
  decide

/-! ## The two directions -/

/-- A sole literal is the only statement of its source. -/
theorem soleLiteral_eq_ok_iff {source : Text} {s : ExpressionStatement} :
    Classification.soleLiteral source = .ok s ↔
      ∃ stream, lexFrom 0 source = .ok stream ∧
        statements stream.tokens = .ok [.expression s] ∧ s.expr.isStringLiteral = true ∧
        Classification.isEscaped s.expr = false := by
  unfold Classification.soleLiteral parseProgram lex
  constructor
  · intro h
    cases hlex : lexFrom 0 source with
    | error e => simp [hlex] at h
    | ok stream =>
      simp only [hlex] at h
      split at h
      · cases h
      · rename_i s' hstatements
        split at h
        · cases h
        · rename_i hstring
          split at h
          · cases h
          · rename_i hescaped
            cases h
            exact ⟨stream, rfl, hstatements, by simpa using hstring, by simpa using hescaped⟩
      · cases h
      · cases h
  · rintro ⟨stream, hlex, hstatements, hstring, hescaped⟩
    simp [hlex, hstatements, hstring, hescaped]

/-- A text without tokens, or with a semicolon for its only one, can follow an expression. -/
theorem isEnding_of_tokens {offset : Nat} {t : Text} {s : TokenStream}
    (h : lexFrom offset t = .ok s)
    (ht : s.tokens = [] ∨ ∃ semicolon, semicolon.kind = .punct .semicolon ∧
      s.tokens = [semicolon]) : IsEnding t := by
  rcases lexFrom_cases h with ⟨gap, hg, -⟩ | ⟨gap, c, u, w, s', hg, hw, hrest, htokens⟩
  · obtain ⟨rfl, hgap, -⟩ := gap_eq_ok_iff.1 hg
    rw [List.append_nil]
    exact .inl hgap
  · obtain ⟨rfl, hgap, -⟩ := gap_eq_ok_iff.1 hg
    rw [htokens] at ht
    rcases ht with ht | ⟨semicolon, hk, ht⟩
    · cases ht
    · obtain ⟨rfl, hnone⟩ := List.cons.inj ht
      obtain ⟨rfl, hu⟩ := semicolon_of_word hw hk
      rw [hu] at hrest
      -- there is no token behind the semicolon
      rcases lexFrom_cases hrest with ⟨last, hg', -⟩ | ⟨_, _, _, _, _, -, -, -, hsome⟩
      · obtain ⟨rfl, hlast, -⟩ := gap_eq_ok_iff.1 hg'
        exact .inr ⟨gap, last, by rw [List.append_nil], hgap, hlast⟩
      · rw [hsome] at hnone
        cases hnone

/-- The source of a sole literal, read off its tokens. -/
theorem literal_of_soleLiteral {source : Text} {s : ExpressionStatement}
    (h : Classification.soleLiteral source = .ok s) :
    ∃ before q body, SoleLiteral source before q body ∧ s.pos = 0 ∧
      s.gapWidth = Text.width before ∧ s.expr.span = literalSpan before q body := by
  obtain ⟨stream, hlex, hstatements, hstring, hescaped⟩ := soleLiteral_eq_ok_iff.1 h
  obtain ⟨t, hlit, htokens⟩ := (statements_eq_literal_iff hstring).1 hstatements
  have hplain := (literal_plain_iff hlit).1 ⟨hstring, hescaped⟩
  obtain ⟨others, stop, hcons, hothers, hs⟩ : ∃ others stop, stream.tokens = t :: others ∧
      (others = [] ∨ ∃ semicolon, semicolon.kind = .punct .semicolon ∧ others = [semicolon]) ∧
      s = .of t s.expr stop := by
    rcases htokens with ⟨ht, hs⟩ | ⟨semicolon, hk, ht, hs⟩
    · exact ⟨[], _, ht, .inl rfl, hs⟩
    · exact ⟨[semicolon], _, ht, .inr ⟨semicolon, hk, rfl⟩, hs⟩
  -- the first token is the literal, behind a gap
  rcases lexFrom_cases hlex with ⟨_, -, hnone⟩ | ⟨gap, c, u, w, stream', hg, hw, hrest, hfirst⟩
  · rw [hnone] at hcons
    cases hcons
  · obtain ⟨rfl, rfl⟩ := List.cons.inj (hfirst.symm.trans hcons)
    obtain ⟨body, hbody, rfl, htext, -⟩ := plain_of_word hw hplain
    obtain ⟨hsource, hgap, -⟩ := gap_eq_ok_iff.1 hg
    refine ⟨gap, c, body, ⟨hgap, hbody, w.rest, isEnding_of_tokens hrest hothers, hsource⟩,
      ?_, ?_, ?_⟩
    · rw [hs]
      rfl
    · rw [hs]
      simp [ExpressionStatement.of, Token.gapWidth, Word.toToken]
    · rw [span_of_literal hlit]
      simp [Word.toToken, literalSpan, htext]

/-- A sole literal is found, wherever it stands. -/
theorem soleLiteral_of_literal {source before body : Text} {q : Char}
    (h : SoleLiteral source before q body) :
    ∃ s, Classification.soleLiteral source = .ok s ∧ s.pos = 0 ∧
      s.gapWidth = Text.width before ∧ s.expr.span = literalSpan before q body := by
  obtain ⟨hgap, hplain, after, hend, rfl⟩ := h
  have hg : gap 0 .spaces (before ++ q :: (body ++ q :: after)) =
      .ok (before, q :: (body ++ q :: after)) :=
    gap_before hgap (startsGap_quote hplain _) 0
  have hw := word_plain hplain (0 + Text.width before) after
  obtain ⟨w, hwdef⟩ : ∃ w : Word, w = ⟨plainKind q, q :: (body ++ [q]), after⟩ := ⟨_, rfl⟩
  rw [← hwdef] at hw
  obtain ⟨t, ht⟩ : ∃ t, t = w.toToken 0 before := ⟨_, rfl⟩
  have hkind : t.kind = plainKind q := by rw [ht, hwdef]; rfl
  have htext : '\\' ∉ t.text := by
    have hq : q ≠ '\\' := by rcases hplain.quote with rfl | rfl | rfl <;> decide
    rw [ht, hwdef]
    simp [Word.toToken, hplain.unescaped, Ne.symm hq]
  obtain ⟨e, he⟩ : ∃ e, t.literal? = some e := by
    by_cases hq : q = '`' <;> simp [Token.literal?, hkind, plainKind, hq]
  have hplainToken :
      (∃ q, t.kind = .string q false) ∨ (t.kind = .template false ∧ '\\' ∉ t.text) := by
    by_cases hq : q = '`'
    · exact .inr ⟨by rw [hkind, plainKind, if_pos hq], htext⟩
    · exact .inl ⟨q, by rw [hkind, plainKind, if_neg hq]⟩
  obtain ⟨hstring, hescaped⟩ := (literal_plain_iff he).2 hplainToken
  have hspan : e.span = literalSpan before q body := by
    rw [span_of_literal he, ht, hwdef]
    simp [Word.toToken, literalSpan]
  -- whatever the end of the statement, its tokens are the literal and perhaps a semicolon
  suffices hs : ∃ stream stop, lexFrom 0 (before ++ q :: (body ++ q :: after)) = .ok stream ∧
      statements stream.tokens = .ok [.expression (.of t e stop)] by
    obtain ⟨stream, stop, hlex, hstatements⟩ := hs
    refine ⟨.of t e stop, ?_, ?_, ?_, hspan⟩
    · exact soleLiteral_eq_ok_iff.2 ⟨stream, hlex, hstatements, hstring, hescaped⟩
    · rw [ht]; rfl
    · rw [ht]; simp [ExpressionStatement.of, Token.gapWidth, Word.toToken]
  have hrest : w.rest = after := by rw [hwdef]
  rw [lexFrom_token hg hw, ← ht, hrest]
  rcases hend with hend | ⟨gap', last, rfl, hgap', hlast⟩
  · rw [lexFrom_end (gap_last hend _)]
    refine ⟨_, e.span.stop, rfl, ?_⟩
    exact (statements_eq_literal_iff hstring).2 ⟨t, he, .inl ⟨rfl, rfl⟩⟩
  · have hg' := gap_before hgap' (startsGap_semicolon last) t.span.stop
    have hw' := word_semicolon (t.span.stop + Text.width gap') last
    obtain ⟨semicolon, hsemicolon⟩ : ∃ s : Token,
        s = Word.toToken ⟨.punct .semicolon, [';'], last⟩ t.span.stop gap' := ⟨_, rfl⟩
    have hk : semicolon.kind = .punct .semicolon := by rw [hsemicolon]; rfl
    rw [lexFrom_token hg' hw', ← hsemicolon, lexFrom_end (gap_last hlast _)]
    refine ⟨_, semicolon.span.stop, rfl, ?_⟩
    exact (statements_eq_literal_iff hstring).2 ⟨t, he, .inr ⟨semicolon, hk, rfl, rfl⟩⟩

/-- The parts of a binding that is removable. -/
theorem parts_of_removable {a : Attribute} {b : LiteralBinding} (h : classify a = .removable b) :
    ∃ d e before q body, a = .directive d ∧ d.expression = some e ∧
      SoleLiteral e.source before q body ∧
      b = ⟨d.markerSpan, e.span, 0, Text.width before, literalSpan before q body⟩ := by
  unfold classify at h
  split at h
  · cases h
  · rename_i d
    split at h
    · rename_i hb
      cases h
      unfold Classification.literalBinding at hb
      split at hb
      · cases hb
      split at hb
      · cases hb
      split at hb
      · cases hb
      · rename_i e he
        split at hb
        · cases hb
        · rename_i s hs
          cases hb
          obtain ⟨before, q, body, hsole, h1, h2, h3⟩ := literal_of_soleLiteral hs
          exact ⟨d, e, before, q, body, rfl, he, hsole, by rw [h1, h2, h3]⟩
    · cases h

/-- A plain binding to a sole literal is removable. -/
theorem removable_of_soleLiteral {d : Directive} {e : BoundExpression} {before body : Text}
    {q : Char} (hb : d.isBinding = true) (hp : Classification.isPlain d = true)
    (he : d.expression = some e) (h : SoleLiteral e.source before q body) :
    classify (.directive d) =
      .removable ⟨d.markerSpan, e.span, 0, Text.width before, literalSpan before q body⟩ := by
  obtain ⟨s, hs, h1, h2, h3⟩ := soleLiteral_of_literal h
  simp [classify, Classification.literalBinding, hb, hp, he, hs, h1, h2, h3]

/-- **A binding is removable exactly when its source is a sole literal**, and the places recorded
are those of the literal in the source. -/
theorem classify_eq_removable_iff {d : Directive} {a : Argument} {e : BoundExpression}
    (hname : d.name = "bind".toList) (hmarker : d.marker = .colon ∨ d.marker = .long)
    (hargument : d.argument = some a) (hstatic : a.isStatic = true) (hmodifiers : d.modifiers = [])
    (hexpression : d.expression = some e) (b : LiteralBinding) :
    classify (.directive d) = .removable b ↔
      ∃ before q body, SoleLiteral e.source before q body ∧
        b = ⟨d.markerSpan, e.span, 0, Text.width before, literalSpan before q body⟩ := by
  constructor
  · intro h
    obtain ⟨d', e', before, q, body, hd, he, hsole, rfl⟩ := parts_of_removable h
    cases hd
    rw [hexpression] at he
    cases he
    exact ⟨before, q, body, hsole, rfl⟩
  · rintro ⟨before, q, body, hsole, rfl⟩
    have hbinding : d.isBinding = true := by simp [Directive.isBinding, hname]
    have hplain : Classification.isPlain d = true := by
      simp only [Classification.isPlain, hargument, hstatic, hmodifiers]
      rcases hmarker with h | h <;> simp [h]
    exact removable_of_soleLiteral hbinding hplain hexpression hsole

/-- A string between comments, with a semicolon behind it. -/
theorem classify_commented_string :
    classify (.directive
      { name := "bind".toList
        rawName := "v-bind:title".toList
        marker := .long
        markerSpan := ⟨3, 10⟩
        argument := some ⟨"title".toList, ⟨10, 15⟩⟩
        modifiers := []
        expression := some ⟨"/* a */ 'it' ; // b".toList, ⟨17, 36⟩⟩
        span := ⟨3, 37⟩ }) = .removable ⟨⟨3, 10⟩, ⟨17, 36⟩, 0, 8, ⟨8, 12⟩⟩ := by
  refine (classify_eq_removable_iff rfl (.inr rfl) rfl rfl rfl rfl _).2
    ⟨"/* a */ ".toList, '\'', "it".toList, ⟨?_, ?_, " ; // b".toList, ?_, rfl⟩, rfl⟩
  · exact @IsGap.block false " a ".toList " ".toList (by decide) (.space (by decide) .nil)
  · exact ⟨.inl rfl, by decide, by decide, by decide, by decide⟩
  · refine .inr ⟨" ".toList, " // b".toList, rfl, .space (by decide) .nil, ?_⟩
    exact .space (by decide) (@IsGap.lastLine true " b".toList rfl (by simp [isLineTerminator]))

end BindingToggle
