import BindingToggle.Expression.Lexer

/-!
# The language of trivia

`IsGap` is the grammar of the text between two tokens: blanks and byte order marks, line comments up
to a line terminator, and block comments. A line comment may also run to the end of the source, so
the grammar knows whether the source ends behind the gap.

* `gap_lineComment`, `gap_lastComment`, `gap_blockComment`: the scanner inside a comment.
* `gap_pieces`: the ways in which a text begins, and where the scanner goes on.
* `gap_eq_ok_iff`: the scanner `gap` reads a gap, and stops where no further trivia begins. Both
  directions together say that it reads the longest gap, and fails only where there is none.
* `lexFrom_end`, `lexFrom_token`, `lexFrom_cases`: one step of the lexer, behind a gap.
-/

namespace BindingToggle

namespace Lexer

theorem Scan.prepend_prepend (s t : Text) (scan : Scan) :
    Scan.prepend s (Scan.prepend t scan) = Scan.prepend (s ++ t) scan := by
  rcases scan with e | ⟨l, r⟩
  · rfl
  · simp [prepend]

/-- The text between two tokens. `last` says that the source ends behind it, where a line comment
needs no line terminator. -/
inductive IsGap (last : Bool) : Text → Prop where
  | nil : IsGap last []
  | space {c : Char} {t : Text} (hc : isSpace c = true) (ht : IsGap last t) : IsGap last (c :: t)
  | line {body t : Text} {c : Char} (hb : ∀ x ∈ body, isLineTerminator x = false)
      (hc : isLineTerminator c = true) (ht : IsGap last t) :
      IsGap last ('/' :: '/' :: (body ++ c :: t))
  | lastLine {body : Text} (hl : last = true) (hb : ∀ x ∈ body, isLineTerminator x = false) :
      IsGap last ('/' :: '/' :: body)
  | block {body t : Text} (hb : ¬ ['*', '/'] <:+: body) (ht : IsGap last t) :
      IsGap last ('/' :: '*' :: (body ++ '*' :: '/' :: t))

/-- Whether a text begins with trivia. -/
def startsGap : Text → Bool
  | [] => false
  | c :: t => isSpace c || (c == '/' && (t.head? == some '/' || t.head? == some '*'))

/-! ## Inside a comment -/

theorem gap_lineComment {body t : Text} {c : Char} (hb : ∀ x ∈ body, isLineTerminator x = false)
    (hc : isLineTerminator c = true) (offset : Nat) :
    gap offset .lineComment (body ++ c :: t) =
      Scan.prepend (body ++ [c])
        (gap (offset + Text.width body + c.utf8Size) .spaces t) := by
  induction body generalizing offset with
  | nil => simp [gap, Trivia.step, hc]
  | cons b body ih =>
    have hb0 : isLineTerminator b = false := hb b (by simp)
    have hbs : ∀ x ∈ body, isLineTerminator x = false := fun x hx => hb x (by simp [hx])
    rw [List.cons_append, gap]
    simp only [Trivia.step, hb0, Bool.false_eq_true, if_false]
    rw [ih hbs, Scan.prepend_prepend]
    simp [Nat.add_assoc]

theorem gap_lastComment {body : Text} (hb : ∀ x ∈ body, isLineTerminator x = false)
    (offset : Nat) : gap offset .lineComment body = .ok (body, []) := by
  induction body generalizing offset with
  | nil => rfl
  | cons b body ih =>
    have hb0 : isLineTerminator b = false := hb b (by simp)
    have hbs : ∀ x ∈ body, isLineTerminator x = false := fun x hx => hb x (by simp [hx])
    rw [gap]
    simp only [Trivia.step, hb0, Bool.false_eq_true, if_false]
    rw [ih hbs]
    rfl

/-- Inside a block comment the scanner stays there on a character that does not begin `*/`. -/
theorem blockComment_step {b : Char} {t : Text} (hb : ¬ ['*', '/'] <+: b :: t)
    (start offset : Nat) :
    Trivia.step offset (.blockComment start) b t.head? = some (.blockComment start) := by
  have hne : (b == '*' && t.head? == some '/') = false := by
    rw [Bool.eq_false_iff]
    intro h
    simp only [Bool.and_eq_true, beq_iff_eq] at h
    obtain ⟨rfl, ht⟩ := h
    cases t with
    | nil => simp at ht
    | cons d u =>
      simp only [List.head?_cons, Option.some.injEq] at ht
      exact hb ⟨u, by simp [ht]⟩
  simp [Trivia.step, hne]

theorem gap_blockComment {body t : Text} (hb : ¬ ['*', '/'] <:+: body) (start offset : Nat) :
    gap offset (.blockComment start) (body ++ '*' :: '/' :: t) =
      Scan.prepend (body ++ ['*', '/']) (gap (offset + Text.width body + 2) .spaces t) := by
  induction body generalizing offset with
  | nil =>
    rw [List.nil_append, gap]
    simp only [Trivia.step, List.head?_cons, beq_self_eq_true, Bool.and_self, if_true]
    rw [gap]
    simp only [Trivia.step]
    rw [Scan.prepend_prepend]
    rfl
  | cons b body ih =>
    have hb' : ¬ ['*', '/'] <:+: body := fun h => hb (h.trans (List.suffix_cons b body).isInfix)
    -- the mark cannot begin at `b`: its slash would be the character behind, which is in the body,
    -- or else is a star
    have hn : ¬ ['*', '/'] <+: b :: (body ++ '*' :: '/' :: t) := by
      rintro ⟨u, hu⟩
      cases body with
      | nil => simp at hu
      | cons d body =>
        simp only [List.cons_append, List.nil_append, List.cons.injEq] at hu
        obtain ⟨rfl, rfl, -⟩ := hu
        exact hb ⟨[], body, by simp⟩
    rw [List.cons_append, gap, blockComment_step hn]
    simp only
    rw [ih hb', Scan.prepend_prepend]
    simp [Nat.add_assoc]

/-- A block comment that is not closed is an error at its beginning. -/
theorem gap_openComment {body : Text} (hb : ¬ ['*', '/'] <:+: body) (start offset : Nat) :
    gap offset (.blockComment start) body = .error (.unterminatedComment start) := by
  induction body generalizing offset with
  | nil => rfl
  | cons b body ih =>
    have hb' : ¬ ['*', '/'] <:+: body := fun h => hb (h.trans (List.suffix_cons b body).isInfix)
    rw [gap, blockComment_step (fun h => hb h.isInfix)]
    simp only
    rw [ih hb']
    rfl

/-! ## Where a comment ends -/

/-- A text has a first line terminator, or none. -/
theorem exists_lineTerminator (t : Text) :
    (∀ x ∈ t, isLineTerminator x = false) ∨
      ∃ body c u, t = body ++ c :: u ∧ (∀ x ∈ body, isLineTerminator x = false) ∧
        isLineTerminator c = true := by
  induction t with
  | nil => exact .inl (by simp)
  | cons b t ih =>
    cases hb : isLineTerminator b with
    | true => exact .inr ⟨[], b, t, rfl, by simp, hb⟩
    | false =>
      rcases ih with ht | ⟨body, c, u, rfl, hbody, hc⟩
      · exact .inl (by simpa [hb] using ht)
      · exact .inr ⟨b :: body, c, u, rfl, by simpa [hb] using hbody, hc⟩

/-- A text has a first occurrence of `*/`, or none. -/
theorem exists_commentEnd (t : Text) :
    ¬ ['*', '/'] <:+: t ∨
      ∃ body u, t = body ++ '*' :: '/' :: u ∧ ¬ ['*', '/'] <:+: body := by
  induction t with
  | nil => exact .inl (by simp)
  | cons b t ih =>
    by_cases hp : ['*', '/'] <+: b :: t
    · obtain ⟨u, hu⟩ := hp
      exact .inr ⟨[], u, hu.symm, by simp⟩
    · rcases ih with ht | ⟨body, u, rfl, hbody⟩
      · exact .inl (by rw [List.infix_cons_iff]; exact fun h => h.elim hp ht)
      · refine .inr ⟨b :: body, u, rfl, ?_⟩
        rw [List.infix_cons_iff]
        rintro (⟨v, hv⟩ | h)
        · exact hp ⟨v ++ '*' :: '/' :: u, by rw [← List.append_assoc, hv, List.cons_append]⟩
        · exact hbody h

/-! ## The scanner and the grammar -/

theorem gap_spaces_lineComment (offset : Nat) (t : Text) :
    gap offset .spaces ('/' :: '/' :: t) =
      Scan.prepend ['/', '/'] (gap (offset + 2) .lineComment t) := by
  have hs : isSpace '/' = false := by decide
  have hl : isLineTerminator '/' = false := by decide
  rw [gap]
  simp only [Trivia.step, hs, List.head?_cons, beq_self_eq_true, Bool.and_self, if_true,
    Bool.false_eq_true, if_false]
  rw [gap]
  simp only [Trivia.step, hl, Bool.false_eq_true, if_false]
  rw [Scan.prepend_prepend]
  rfl

theorem gap_spaces_blockComment (offset : Nat) (t : Text) :
    gap offset .spaces ('/' :: '*' :: t) =
      Scan.prepend ['/', '*'] (gap (offset + 2) (.blockComment offset) t) := by
  have hs : isSpace '/' = false := by decide
  rw [gap]
  simp only [Trivia.step, hs, List.head?_cons, beq_self_eq_true, Bool.and_self, if_true,
    Bool.false_eq_true, if_false, Bool.true_and]
  rw [if_neg (by decide)]
  simp only
  rw [gap]
  simp only [Trivia.step]
  rw [Scan.prepend_prepend]
  rfl

theorem gap_spaces_space {c : Char} (hc : isSpace c = true) (offset : Nat) (t : Text) :
    gap offset .spaces (c :: t) =
      Scan.prepend [c] (gap (offset + c.utf8Size) .spaces t) := by
  rw [gap]
  simp only [Trivia.step, hc, if_true]

theorem gap_spaces_stop {t : Text} (ht : startsGap t = false) (offset : Nat) :
    gap offset .spaces t = .ok ([], t) := by
  cases t with
  | nil => rfl
  | cons c t =>
    simp only [startsGap, Bool.or_eq_false_iff, Bool.and_eq_false_imp, Bool.or_eq_false_iff] at ht
    obtain ⟨hs, hm⟩ := ht
    rw [gap]
    have hstep : Trivia.step offset .spaces c t.head? = none := by
      by_cases hc : (c == '/') = true
      · simp [Trivia.step, hs, hm hc]
      · simp [Trivia.step, hs, hc]
    rw [hstep]

/-- A gap is read to its end. -/
theorem gap_complete {lexeme rest : Text} (hg : IsGap rest.isEmpty lexeme)
    (hr : startsGap rest = false) (offset : Nat) :
    gap offset .spaces (lexeme ++ rest) = .ok (lexeme, rest) := by
  induction hg generalizing offset with
  | nil => exact gap_spaces_stop hr offset
  | space hc _ ih =>
    rw [List.cons_append, gap_spaces_space hc, ih]
    rfl
  | line hb hc _ ih =>
    rw [List.cons_append, List.cons_append, gap_spaces_lineComment, List.append_assoc,
      List.cons_append, gap_lineComment hb hc, ih]
    simp [Scan.prepend]
  | lastLine hl hb =>
    have hr0 : rest = [] := by simpa using hl
    subst hr0
    rw [List.append_nil, gap_spaces_lineComment, gap_lastComment hb]
    rfl
  | block hb _ ih =>
    rw [List.cons_append, List.cons_append, gap_spaces_blockComment, List.append_assoc,
      List.cons_append, List.cons_append, gap_blockComment hb, ih]
    simp [Scan.prepend]

theorem gap_before {lexeme rest : Text} {c : Char} (hg : IsGap false lexeme)
    (hr : startsGap (c :: rest) = false) (offset : Nat) :
    gap offset .spaces (lexeme ++ c :: rest) = .ok (lexeme, c :: rest) :=
  gap_complete (by exact hg) hr offset

theorem gap_last {lexeme : Text} (hg : IsGap true lexeme) (offset : Nat) :
    gap offset .spaces lexeme = .ok (lexeme, []) := by
  have h : gap offset .spaces (lexeme ++ []) = .ok (lexeme, []) :=
    gap_complete (by exact hg) rfl offset
  rwa [List.append_nil] at h

/-- The ways in which a text begins: without trivia, with a comment that runs to its end, or with a
space or a comment that is closed. The scanner goes on behind the latter two as it has begun. -/
theorem gap_pieces (t : Text) :
    startsGap t = false ∨
      (∃ body, t = '/' :: '/' :: body ∧ ∀ x ∈ body, isLineTerminator x = false) ∨
      (∃ body, t = '/' :: '*' :: body ∧ ¬ ['*', '/'] <:+: body) ∨
      ∃ piece rest, t = piece ++ rest ∧ piece ≠ [] ∧
        (∀ {last u}, IsGap last u → IsGap last (piece ++ u)) ∧
        ∀ offset, gap offset .spaces t =
          Scan.prepend piece (gap (offset + Text.width piece) .spaces rest) := by
  have hslash : '/'.utf8Size = 1 := rfl
  have hstar : '*'.utf8Size = 1 := rfl
  cases hg : startsGap t with
  | false => exact .inl rfl
  | true =>
    right
    cases t with
    | nil => cases hg
    | cons c t =>
      simp only [startsGap, Bool.or_eq_true, Bool.and_eq_true, beq_iff_eq] at hg
      rcases hg with hs | ⟨rfl, hm⟩
      · refine .inr (.inr ⟨[c], t, rfl, by simp, fun hu => .space hs hu, fun offset => ?_⟩)
        exact gap_spaces_space hs offset t
      cases t with
      | nil => simp at hm
      | cons d u =>
        simp only [List.head?_cons, Option.some.injEq] at hm
        rcases hm with rfl | rfl
        · rcases exists_lineTerminator u with hu | ⟨body, c, v, rfl, hb, hc⟩
          · exact .inl ⟨u, rfl, hu⟩
          refine .inr (.inr ⟨'/' :: '/' :: (body ++ [c]), v, by simp, by simp, ?_,
            fun offset => ?_⟩)
          · intro last u hu
            simpa using IsGap.line hb hc hu
          · rw [gap_spaces_lineComment, gap_lineComment hb hc, Scan.prepend_prepend]
            simp [hslash, ← Nat.add_assoc]
        · rcases exists_commentEnd u with hu | ⟨body, v, rfl, hb⟩
          · exact .inr (.inl ⟨u, rfl, hu⟩)
          refine .inr (.inr ⟨'/' :: '*' :: (body ++ ['*', '/']), v, by simp, by simp, ?_,
            fun offset => ?_⟩)
          · intro last u hu
            simpa using IsGap.block hb hu
          · rw [gap_spaces_blockComment, gap_blockComment hb, Scan.prepend_prepend]
            simp [hslash, hstar, ← Nat.add_assoc]

/-- What is read is a gap, and no trivia begins behind it. -/
theorem gap_sound {offset : Nat} {t lexeme rest : Text}
    (h : gap offset .spaces t = .ok (lexeme, rest)) :
    IsGap rest.isEmpty lexeme ∧ startsGap rest = false := by
  -- by the length of the text: a comment is read as a whole, and the scanner goes on behind it
  induction hn : t.length using Nat.strongRecOn generalizing offset t lexeme with
  | ind n ih =>
    rcases gap_pieces t with hg | ⟨body, rfl, hb⟩ | ⟨body, rfl, hb⟩ | ⟨piece, u, rfl, hne, hp, hgap⟩
    · rw [gap_spaces_stop hg] at h
      cases h
      exact ⟨.nil, hg⟩
    · rw [gap_spaces_lineComment, gap_lastComment hb] at h
      cases h
      exact ⟨.lastLine rfl hb, rfl⟩
    · rw [gap_spaces_blockComment, gap_openComment hb] at h
      cases h
    · rw [hgap] at h
      obtain ⟨tail, ht, rfl⟩ := Scan.prepend_eq_ok_iff.1 h
      have hlength := List.length_pos_iff.2 hne
      rw [List.length_append] at hn
      obtain ⟨htail, hstop⟩ := ih u.length (by omega) ht rfl
      exact ⟨hp htail, hstop⟩

/-- **The scanner of trivia reads exactly the longest gap.** -/
theorem gap_eq_ok_iff {offset : Nat} {t lexeme rest : Text} :
    gap offset .spaces t = .ok (lexeme, rest) ↔
      t = lexeme ++ rest ∧ IsGap rest.isEmpty lexeme ∧ startsGap rest = false := by
  constructor
  · intro h
    exact ⟨(append_of_gap h).symm, gap_sound h⟩
  · rintro ⟨rfl, hg, hr⟩
    exact gap_complete hg hr offset

/-! ## Tokens behind a gap -/

/-- The token of a word that is read at `start`, behind the gap `trivia`, which begins at
`offset`. -/
def Word.toToken (w : Word) (offset : Nat) (trivia : Text) : Token :=
  let start := offset + Text.width trivia
  ⟨w.kind, w.text, offset, ⟨start, start + Text.width w.text⟩, trivia.any isLineTerminator⟩

/-- Where only a gap is left, there are no more tokens. -/
theorem lexFrom_end {offset : Nat} {t trivia : Text}
    (hg : gap offset .spaces t = .ok (trivia, [])) :
    lexFrom offset t =
      .ok ⟨[], offset, offset + Text.width trivia, trivia.any isLineTerminator⟩ := by
  rw [lexFrom]
  split
  · rename_i h; rw [hg] at h; cases h
  · rename_i h; rw [hg] at h; cases h; rfl
  · rename_i h; rw [hg] at h; cases h

/-- Behind a gap comes a token, and then the tokens of the text behind it. -/
theorem lexFrom_token {offset : Nat} {t trivia u : Text} {c : Char} {w : Word}
    (hg : gap offset .spaces t = .ok (trivia, c :: u))
    (hw : word (offset + Text.width trivia) c u = .ok w) :
    lexFrom offset t =
      (lexFrom (w.toToken offset trivia).span.stop w.rest).map fun s =>
        { s with tokens := w.toToken offset trivia :: s.tokens } := by
  rw [lexFrom]
  split
  · rename_i h; rw [hg] at h; cases h
  · rename_i h; rw [hg] at h; cases h
  · rename_i h
    rw [hg] at h
    cases h
    dsimp only
    split
    · rename_i h; rw [hw] at h; cases h
    · rename_i h; rw [hw] at h; cases h; rfl

/-- The ways in which a text is split into tokens: there is only a gap, or a gap, a word, and the
tokens behind it. -/
theorem lexFrom_cases {offset : Nat} {t : Text} {s : TokenStream} (h : lexFrom offset t = .ok s) :
    (∃ trivia, gap offset .spaces t = .ok (trivia, []) ∧ s.tokens = []) ∨
      ∃ trivia c u w s', gap offset .spaces t = .ok (trivia, c :: u) ∧
        word (offset + Text.width trivia) c u = .ok w ∧
        lexFrom (w.toToken offset trivia).span.stop w.rest = .ok s' ∧
        s.tokens = w.toToken offset trivia :: s'.tokens := by
  rw [lexFrom] at h
  split at h
  · cases h
  · rename_i trivia hg
    cases h
    exact .inl ⟨trivia, hg, rfl⟩
  · rename_i trivia c u hg
    dsimp only at h
    split at h
    · cases h
    · rename_i w hw
      cases hs : lexFrom (offset + Text.width trivia + Text.width w.text) w.rest with
      | error e => rw [hs] at h; cases h
      | ok s' =>
        rw [hs] at h
        cases h
        exact .inr ⟨trivia, c, u, w, s', hg, hw, hs, rfl⟩

end Lexer

end BindingToggle
