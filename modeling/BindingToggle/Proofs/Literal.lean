import BindingToggle.Proofs.Trivia

/-!
# Strings written out

A string is written out when its value is the text between its quotes: it holds no backslash, does
not run over the end of its line, and substitutes nothing. `IsPlainBody q body` says this of the
text between two quotes `q`, without reference to the scanner.

* `word_plain` — the scanner reads such a string as one token, marked as free of escapes and
  substitutions.
* `plain_of_word` — every token that is marked so, and holds no backslash, is such a string.
-/

namespace BindingToggle

namespace Lexer

/-- What can stand between the quotes `q` of a string that is written out. -/
structure IsPlainBody (q : Char) (body : Text) : Prop where
  quote : q = '\'' ∨ q = '"' ∨ q = '`'
  unquoted : q ∉ body
  unescaped : '\\' ∉ body
  oneLine : q ≠ '`' → '\n' ∉ body ∧ '\r' ∉ body
  fixed : q = '`' → ¬ ['$', '{'] <:+: body

/-- The kind of the token of a string that is written out between the quotes `q`. -/
def plainKind (q : Char) : TokenKind := if q = '`' then .template false else .string q false

/-! ## Quoted strings -/

theorem literal_quoted {q : Char} {body : Text} (hq : q ∉ body) (he : '\\' ∉ body)
    (hn : '\n' ∉ body) (hr : '\r' ∉ body) (start offset : Nat) (rest : Text) :
    literal offset [.quoted start q false] (body ++ q :: rest) = .ok (body ++ [q], rest) := by
  induction body generalizing offset with
  | nil => simp [literal, Frame.step, Scan.prepend]
  | cons b body ih =>
    simp only [List.mem_cons, not_or] at hq he hn hr
    have hstep : Frame.step offset (.quoted start q false) [] b (body ++ q :: rest).head? =
        some [.quoted start q false] := by
      have h1 : b ≠ q := fun h => hq.1 h.symm
      have h2 : b ≠ '\\' := fun h => he.1 h.symm
      have h3 : b ≠ '\n' := fun h => hn.1 h.symm
      have h4 : b ≠ '\r' := fun h => hr.1 h.symm
      simp [Frame.step, h1, h2, h3, h4]
    rw [List.cons_append, literal, hstep]
    simp only
    rw [ih hq.2 he.2 hn.2 hr.2]
    rfl

theorem quoted_of_literal {q : Char} {t lexeme rest : Text} {start offset : Nat}
    (h : literal offset [.quoted start q false] t = .ok (lexeme, rest)) (he : '\\' ∉ lexeme) :
    ∃ body, lexeme = body ++ [q] ∧ q ∉ body ∧ '\n' ∉ body ∧ '\r' ∉ body := by
  induction t generalizing offset lexeme with
  | nil => cases h
  | cons c t ih =>
    simp only [literal] at h
    split at h
    · cases h
    · rename_i frames hf
      obtain ⟨tail, ht, rfl⟩ := Scan.prepend_eq_ok_iff.1 h
      simp only [List.cons_append, List.nil_append, List.mem_cons, not_or] at he
      by_cases hc : c = q
      · subst hc
        simp only [Frame.step, beq_self_eq_true, if_true, Option.some.injEq] at hf
        subst hf
        simp only [literal, Except.ok.injEq, Prod.mk.injEq] at ht
        exact ⟨[], by simp [← ht.1], by simp, by simp, by simp⟩
      · have hb : c ≠ '\\' := fun h => he.1 h.symm
        simp only [Frame.step, beq_iff_eq, hc, hb, if_false, Bool.or_eq_true] at hf
        split at hf
        · cases hf
        · rename_i hl
          simp only [Option.some.injEq] at hf
          subst hf
          obtain ⟨body, rfl, hq, hn, hr⟩ := ih ht he.2
          simp only [not_or] at hl
          refine ⟨c :: body, rfl, ?_, ?_, ?_⟩
          · simp [hq, Ne.symm hc]
          · simp [hn, Ne.symm hl.1]
          · simp [hr, Ne.symm hl.2]

/-- The flag of a string is raised exactly when there is a backslash in it: no quote in front of the
last one ends the string, unless a backslash comes first. -/
theorem hasEscape_iff {q : Char} {t lexeme rest : Text} {start offset : Nat} (hq : q ≠ '\\')
    (h : literal offset [.quoted start q false] t = .ok (lexeme, rest)) :
    hasEscape q lexeme = true ↔ '\\' ∈ lexeme := by
  induction t generalizing offset lexeme with
  | nil => cases h
  | cons c t ih =>
    simp only [literal] at h
    split at h
    · cases h
    · rename_i frames hf
      obtain ⟨tail, ht, rfl⟩ := Scan.prepend_eq_ok_iff.1 h
      by_cases hc : c = q
      · subst hc
        simp only [Frame.step, beq_self_eq_true, if_true, Option.some.injEq] at hf
        subst hf
        simp only [literal, Except.ok.injEq, Prod.mk.injEq] at ht
        simp [hasEscape, ← ht.1, Ne.symm hq]
      · by_cases hb : c = '\\'
        · simp [hasEscape, hb, Ne.symm hq]
        · simp only [Frame.step, beq_iff_eq, hc, hb, if_false, Bool.or_eq_true] at hf
          split at hf
          · cases hf
          · cases hf
            simp [hasEscape, hc, hb, Ne.symm hb, ih ht]

/-! ## Template literals -/

theorem literal_text {body : Text} (hq : '`' ∉ body) (he : '\\' ∉ body)
    (hs : ¬ ['$', '{'] <:+: body) (start offset : Nat) (rest : Text) :
    literal offset [.text start false] (body ++ '`' :: rest) = .ok (body ++ ['`'], rest) := by
  induction body generalizing offset with
  | nil => simp [literal, Frame.step, Scan.prepend]
  | cons b body ih =>
    simp only [List.mem_cons, not_or] at hq he
    have hs' : ¬ ['$', '{'] <:+: body := fun h => hs (h.trans (List.suffix_cons b body).isInfix)
    have hstep : Frame.step offset (.text start false) [] b (body ++ '`' :: rest).head? =
        some [.text start false] := by
      have h1 : b ≠ '`' := fun h => hq.1 h.symm
      have h2 : b ≠ '\\' := fun h => he.1 h.symm
      -- a substitution would begin in the body: the backquote behind it is no brace
      have h3 : (b == '$' && (body ++ '`' :: rest).head? == some '{') = false := by
        rw [Bool.eq_false_iff]
        intro h
        simp only [Bool.and_eq_true, beq_iff_eq] at h
        obtain ⟨rfl, hh⟩ := h
        cases body with
        | nil => simp at hh
        | cons d body =>
          simp only [List.cons_append, List.head?_cons, Option.some.injEq] at hh
          exact hs ⟨[], body, by simp [hh]⟩
      simp only [Frame.step, beq_iff_eq, h1, h2, h3, if_false, Bool.false_eq_true]
    rw [List.cons_append, literal, hstep]
    simp only
    rw [ih hq.2 he.2 hs']
    rfl

/-- A literal that goes on reads the next character. -/
theorem head_of_literal {top : Frame} {below : List Frame} {t lexeme rest : Text} {offset : Nat}
    (h : literal offset (top :: below) t = .ok (lexeme, rest)) : lexeme.head? = t.head? := by
  cases t with
  | nil => cases h
  | cons c t =>
    simp only [literal] at h
    split at h
    · cases h
    · obtain ⟨tail, -, rfl⟩ := Scan.prepend_eq_ok_iff.1 h
      rfl

theorem text_of_literal {t lexeme rest : Text} {start offset : Nat}
    (h : literal offset [.text start false] t = .ok (lexeme, rest)) (he : '\\' ∉ lexeme)
    (hs : hasSubstitution lexeme = false) :
    ∃ body, lexeme = body ++ ['`'] ∧ '`' ∉ body ∧ ¬ ['$', '{'] <:+: body := by
  induction t generalizing offset lexeme with
  | nil => cases h
  | cons c t ih =>
    simp only [literal] at h
    split at h
    · cases h
    · rename_i frames hf
      obtain ⟨tail, ht, rfl⟩ := Scan.prepend_eq_ok_iff.1 h
      simp only [List.cons_append, List.nil_append] at he hs ⊢
      simp only [List.mem_cons, not_or] at he
      by_cases hc : c = '`'
      · subst hc
        simp only [Frame.step, beq_self_eq_true, if_true, Option.some.injEq] at hf
        subst hf
        simp only [literal, Except.ok.injEq, Prod.mk.injEq] at ht
        exact ⟨[], by simp [← ht.1], by simp, by simp⟩
      · have hb : c ≠ '\\' := fun h => he.1 h.symm
        simp only [Frame.step, beq_iff_eq, hc, hb, if_false] at hf
        split at hf
        · -- a substitution begins here, and the lexeme shows it
          rename_i hd
          simp only [Bool.and_eq_true, beq_iff_eq] at hd
          simp only [Option.some.injEq] at hf
          subst hf
          have hh := head_of_literal ht
          rw [hd.2] at hh
          cases tail with
          | nil => cases hh
          | cons d tail =>
            simp only [List.head?_cons, Option.some.injEq] at hh
            rw [hd.1, hh, hasSubstitution] at hs
            cases hs
        · rename_i hd
          simp only [Option.some.injEq] at hf
          subst hf
          have hh := head_of_literal ht
          have hnb : ∀ u, c = '$' → tail = '{' :: u → False := by
            rintro u rfl rfl
            simp [← hh] at hd
          rw [hasSubstitution] at hs
          · obtain ⟨body, rfl, hq, hsb⟩ := ih ht he.2 hs
            refine ⟨c :: body, rfl, by simp [hq, Ne.symm hc], ?_⟩
            rw [List.infix_cons_iff]
            rintro (⟨u, hu⟩ | h)
            · cases body with
              | nil => simp at hu
              | cons d body =>
                simp only [List.cons_append, List.nil_append, List.cons.injEq] at hu
                exact hnb _ hu.1.symm (by rw [← hu.2.1]; rfl)
            · exact hsb h
          · rintro d u rfl -
            exact hb rfl
          · exact hnb
          · exact hc

theorem hasSubstitution_plain {body : Text} (hq : '`' ∉ body) (he : '\\' ∉ body)
    (hs : ¬ ['$', '{'] <:+: body) : hasSubstitution (body ++ ['`']) = false := by
  induction body with
  | nil => rfl
  | cons b body ih =>
    simp only [List.mem_cons, not_or] at hq he
    have hs' : ¬ ['$', '{'] <:+: body := fun h => hs (h.trans (List.suffix_cons b body).isInfix)
    rw [List.cons_append, hasSubstitution]
    · exact ih hq.2 he.2 hs'
    · rintro d u rfl -
      exact he.1 rfl
    · rintro u rfl hu
      cases body with
      | nil => simp at hu
      | cons d body =>
        simp only [List.cons_append, List.cons.injEq] at hu
        exact hs ⟨[], body, by simp [hu.1]⟩
    · exact fun h => hq.1 h.symm

/-! ## Tokens -/

/-- A string that is written out is read as one token. -/
theorem word_plain {q : Char} {body : Text} (hp : IsPlainBody q body) (offset : Nat) (rest : Text) :
    word offset q (body ++ q :: rest) = .ok ⟨plainKind q, q :: (body ++ [q]), rest⟩ := by
  obtain ⟨hquote, hq, he, hline, hfixed⟩ := hp
  have hflag : q ≠ '`' → q ≠ '\\' → hasEscape q (body ++ [q]) = false := by
    intro hback hslash
    obtain ⟨hn, hr⟩ := hline hback
    rw [Bool.eq_false_iff, ne_eq, hasEscape_iff hslash (literal_quoted hq he hn hr 0 0 rest)]
    simp [he, Ne.symm hslash]
  rcases hquote with rfl | rfl | rfl
  · obtain ⟨hn, hr⟩ := hline (by decide)
    rw [word, if_neg (by decide), if_neg (by simp), if_pos (by decide),
      literal_quoted hq he hn hr]
    simp only [hflag (by decide) (by decide)]
    rfl
  · obtain ⟨hn, hr⟩ := hline (by decide)
    rw [word, if_neg (by decide), if_neg (by simp), if_pos (by decide),
      literal_quoted hq he hn hr]
    simp only [hflag (by decide) (by decide)]
    rfl
  · rw [word, if_neg (by decide), if_neg (by simp), if_neg (by decide), if_pos (by decide),
      literal_text hq he (hfixed rfl)]
    simp only [hasSubstitution_plain hq he (hfixed rfl)]
    rfl

/-- A string token without escapes is a string that is written out, and so is a template literal
without substitutions and backslashes. -/
theorem plain_of_word {offset : Nat} {c : Char} {t : Text} {w : Word}
    (h : word offset c t = .ok w)
    (hk : (∃ q, w.kind = .string q false) ∨ (w.kind = .template false ∧ '\\' ∉ w.text)) :
    ∃ body, IsPlainBody c body ∧ t = body ++ c :: w.rest ∧ w.text = c :: (body ++ [c]) ∧
      w.kind = plainKind c := by
  unfold word at h
  split at h
  · cases h; simp at hk
  split at h
  · cases h; simp at hk
  split at h
  · rename_i hc
    simp only [Bool.or_eq_true, beq_iff_eq] at hc
    split at h
    · cases h
    · rename_i lexeme rest hl
      cases h
      have hflag : hasEscape c lexeme = false := by simpa using hk
      have hslash : c ≠ '\\' := by rcases hc with rfl | rfl <;> decide
      have he : '\\' ∉ lexeme := by
        rw [← hasEscape_iff hslash hl, hflag]
        exact Bool.false_ne_true
      obtain ⟨body, rfl, hq, hn, hr⟩ := quoted_of_literal hl he
      have hcq : c ≠ '`' := by rcases hc with rfl | rfl <;> decide
      simp only [List.mem_append, List.mem_singleton, not_or] at he
      refine ⟨body, ⟨?_, hq, he.1, fun _ => ⟨hn, hr⟩, fun h => absurd h hcq⟩, ?_, rfl, ?_⟩
      · rcases hc with rfl | rfl <;> simp
      · rw [← append_of_literal hl]; simp
      · simp [plainKind, hcq, hflag]
  split at h
  · rename_i hc
    simp only [beq_iff_eq] at hc
    subst hc
    split at h
    · cases h
    · rename_i lexeme rest hl
      cases h
      simp only [reduceCtorEq, exists_false, TokenKind.template.injEq, List.mem_cons, not_or,
        false_or] at hk
      obtain ⟨hs, -, he⟩ := hk
      obtain ⟨body, rfl, hq, hsb⟩ := text_of_literal hl he hs
      simp only [List.mem_append, List.mem_singleton, not_or] at he
      refine ⟨body, ⟨by simp, hq, he.1, fun h => absurd rfl h, fun _ => hsb⟩, ?_, rfl, ?_⟩
      · rw [← append_of_literal hl]; simp
      · simp [plainKind, hs]
  · split at h
    · cases h; simp at hk
    · cases h

end Lexer

end BindingToggle
