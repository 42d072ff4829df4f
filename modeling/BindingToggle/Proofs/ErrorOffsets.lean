import BindingToggle.Proofs.Blame
import BindingToggle.Proofs.Tiling

/-!
# Where errors point

An error that carries an offset points at what is at fault: at the quote that opens a literal, at
the mark that opens a comment, at a character that begins no token, or at a token. The scanner of
literals saves a place for every literal that it is inside of, and reports the innermost one.

* `Text.StandsAt source n rest` — from the offset `n` on the source reads `rest`.
* `ParseError.Shown` — what the source shows at the offset of an error.
* `Lexer.Frame.Opened` — the place of a frame is that of its opening quote. `opened_step` says that
  every step of the scanner keeps this, and `shown_of_literal` draws the conclusion for a whole
  literal.
* `shown_of_gap`, `shown_of_word`, `shown_of_lexFrom` — the errors of the lexer.
* `parseProgram_points` — the statement for sources. For the errors of the grammar it takes the
  token that is blamed to its place in the source.
-/

namespace BindingToggle

open Text

/-! ## Places in a source -/

namespace Text

/-- From the offset `n` on the source reads `rest`. -/
def StandsAt (source : Text) (n : Nat) (rest : Text) : Prop :=
  ∃ before, source = before ++ rest ∧ width before = n

variable {source : Text} {n : Nat}

theorem StandsAt.skip {s rest : Text} (h : StandsAt source n (s ++ rest)) :
    StandsAt source (n + width s) rest := by
  obtain ⟨before, rfl, rfl⟩ := h
  exact ⟨before ++ s, (List.append_assoc ..).symm, width_append ..⟩

theorem StandsAt.step {c : Char} {rest : Text} (h : StandsAt source n (c :: rest)) :
    StandsAt source (n + c.utf8Size) rest := by
  have hskip : StandsAt source (n + width [c]) rest := StandsAt.skip h
  exact hskip

/-- Where something is written, the source has not ended. -/
theorem StandsAt.inside {rest : Text} (h : StandsAt source n rest) (hne : rest ≠ []) :
    n < width source ∧ IsBoundary source n := by
  obtain ⟨before, rfl, rfl⟩ := h
  have hpos : width rest ≠ 0 := by
    rw [Ne, width_eq_zero_iff]
    exact hne
  refine ⟨?_, before, rest, rfl, rfl⟩
  rw [width_append]
  omega

theorem standsAt_of_slice? {s : Span} {t : Text} (h : s.slice? source = some t) :
    ∃ rest, StandsAt source s.start (t ++ rest) := by
  obtain ⟨before, rest, hsource, hfirst, -⟩ := append_of_slice? h
  exact ⟨rest, before, hsource, hfirst⟩

end Text

/-! ## What an error points at -/

namespace ParseError

/-- The offset that an error carries. -/
def offset? : ParseError → Option Nat
  | unterminatedString n | unterminatedTemplate n | unterminatedComment n => some n
  | unexpectedChar _ n | unexpectedToken _ n => some n
  | unexpectedEnd | tooDeep _ => none

/-- What is written in the source at the offset of an error. -/
def Shown (source : Text) : ParseError → Prop
  | unterminatedString n =>
    ∃ quote rest, StandsAt source n (quote :: rest) ∧ (quote = '\'' ∨ quote = '"')
  | unterminatedTemplate n => ∃ rest, StandsAt source n ('`' :: rest)
  | unterminatedComment n =>
    ∃ rest, StandsAt source n ('/' :: '*' :: rest) ∧ ¬ ['*', '/'] <:+: rest
  | unexpectedChar c n => ∃ rest, StandsAt source n (c :: rest)
  | unexpectedToken text n =>
    text ≠ [] ∧ (∃ rest, StandsAt source n (text ++ rest)) ∧
      ∃ s, lex source = .ok s ∧ ∃ t ∈ s.tokens, t.span.start = n ∧ t.text = text
  | unexpectedEnd | tooDeep _ => True

/-- The offset of an error lies in front of a character of the source. -/
theorem Shown.offset {source : Text} {e : ParseError} (h : e.Shown source) {n : Nat}
    (hn : e.offset? = some n) : n < width source ∧ IsBoundary source n := by
  cases e with
  | unterminatedString m =>
    obtain rfl := Option.some.inj hn
    obtain ⟨quote, rest, hplace, -⟩ := h
    exact hplace.inside (List.cons_ne_nil _ _)
  | unterminatedTemplate m =>
    obtain rfl := Option.some.inj hn
    obtain ⟨rest, hplace⟩ := h
    exact hplace.inside (List.cons_ne_nil _ _)
  | unterminatedComment m =>
    obtain rfl := Option.some.inj hn
    obtain ⟨rest, hplace, -⟩ := h
    exact hplace.inside (List.cons_ne_nil _ _)
  | unexpectedChar c m =>
    obtain rfl := Option.some.inj hn
    obtain ⟨rest, hplace⟩ := h
    exact hplace.inside (List.cons_ne_nil _ _)
  | unexpectedToken text m =>
    obtain rfl := Option.some.inj hn
    obtain ⟨hne, ⟨rest, hplace⟩, -⟩ := h
    exact hplace.inside (List.append_ne_nil_of_left_ne_nil hne rest)
  | unexpectedEnd => cases hn
  | tooDeep limit => cases hn

end ParseError

namespace Lexer

variable {source : Text}

/-! ## Comments -/

theorem error_of_prepend {read : Text} {scan : Scan} {e : ParseError}
    (h : Scan.prepend read scan = .error e) : scan = .error e := by
  rcases scan with e' | ⟨lexeme, rest⟩
  · exact h
  · cases h

/-- The scanner of trivia fails at a comment that is not closed. -/
theorem shown_of_gap {offset : Nat} {t : Text} {e : ParseError} (hplace : StandsAt source offset t)
    (h : gap offset .spaces t = .error e) : e.Shown source := by
  -- by the length of the text: spaces and closed comments are passed over
  induction hn : t.length using Nat.strongRecOn generalizing offset t with
  | ind n ih =>
    rcases gap_pieces t with hg | ⟨body, rfl, hb⟩ | ⟨body, rfl, hb⟩ | ⟨piece, u, rfl, hne, -, hgap⟩
    · rw [gap_spaces_stop hg] at h
      cases h
    · rw [gap_spaces_lineComment, gap_lastComment hb] at h
      cases h
    · rw [gap_spaces_blockComment, gap_openComment hb] at h
      cases h
      exact ⟨body, hplace, hb⟩
    · rw [hgap] at h
      have hlength := List.length_pos_iff.2 hne
      rw [List.length_append] at hn
      exact ih u.length (by omega) hplace.skip (error_of_prepend h) rfl

/-! ## Literals -/

/-- The place of a frame is that of the quote that opens the literal. -/
def Frame.Opened (source : Text) : Frame → Prop
  | quoted start quote _ =>
    (∃ rest, StandsAt source start (quote :: rest)) ∧ (quote = '\'' ∨ quote = '"')
  | text start _ | code start _ => ∃ rest, StandsAt source start ('`' :: rest)

theorem Frame.Opened.shown {f : Frame} (h : f.Opened source) : f.unterminated.Shown source := by
  cases f with
  | quoted start quote escaped =>
    obtain ⟨⟨rest, hplace⟩, hquote⟩ := h
    exact ⟨quote, rest, hplace, hquote⟩
  | text start escaped => exact h
  | code start braces => exact h

/-- **One step of the scanner** keeps the places of the frames, and a new frame is opened by the
character that is read. -/
theorem opened_step {offset : Nat} {top : Frame} {below frames : List Frame} {c : Char} {t : Text}
    {next : Option Char} (hplace : StandsAt source offset (c :: t))
    (hopened : ∀ f ∈ top :: below, f.Opened source)
    (h : top.step offset below c next = some frames) : ∀ f ∈ frames, f.Opened source := by
  obtain ⟨htop, hbelow⟩ := List.forall_mem_cons.1 hopened
  cases top with
  | quoted start quote escaped =>
    have hagain : ∀ escaped, ∀ f ∈ Frame.quoted start quote escaped :: below, f.Opened source :=
      fun _ => List.forall_mem_cons.2 ⟨htop, hbelow⟩
    cases escaped with
    | true =>
      cases h
      exact hagain false
    | false =>
      simp only [Frame.step] at h
      split at h
      · cases h
        exact hbelow
      split at h
      · cases h
        exact hagain true
      split at h
      · cases h
      · cases h
        exact hagain false
  | text start escaped =>
    have hagain : ∀ escaped, ∀ f ∈ Frame.text start escaped :: below, f.Opened source :=
      fun _ => List.forall_mem_cons.2 ⟨htop, hbelow⟩
    cases escaped with
    | true =>
      cases h
      exact hagain false
    | false =>
      simp only [Frame.step] at h
      split at h
      · cases h
        exact hbelow
      split at h
      · cases h
        exact hagain true
      split at h
      · cases h
        exact List.forall_mem_cons.2 ⟨htop, hbelow⟩
      · cases h
        exact hagain false
  | code start braces =>
    have hagain : ∀ braces, ∀ f ∈ Frame.code start braces :: below, f.Opened source :=
      fun _ => List.forall_mem_cons.2 ⟨htop, hbelow⟩
    simp only [Frame.step] at h
    split at h
    · cases h
      exact hagain _
    split at h
    · cases h
      split
      · exact List.forall_mem_cons.2 ⟨htop, hbelow⟩
      · exact hagain _
    split at h
    · rename_i hquote
      cases h
      rw [Bool.or_eq_true, beq_iff_eq, beq_iff_eq] at hquote
      exact List.forall_mem_cons.2 ⟨⟨⟨t, hplace⟩, hquote.symm⟩, hagain braces⟩
    split at h
    · rename_i hquote
      cases h
      rw [beq_iff_eq.1 hquote] at hplace
      exact List.forall_mem_cons.2 ⟨⟨t, hplace⟩, hagain braces⟩
    · cases h
      exact hagain braces

/-- A literal that does not end is reported at its opening quote, the innermost one of several. -/
theorem shown_of_literal {offset : Nat} {frames : List Frame} {t : Text} {e : ParseError}
    (hplace : StandsAt source offset t) (hopened : ∀ f ∈ frames, f.Opened source)
    (h : literal offset frames t = .error e) : e.Shown source := by
  induction t generalizing offset frames with
  | nil =>
    cases frames with
    | nil => cases h
    | cons top below =>
      cases h
      exact (hopened top List.mem_cons_self).shown
  | cons c t ih =>
    cases frames with
    | nil => cases h
    | cons top below =>
      rw [literal] at h
      split at h
      · cases h
        exact (hopened top List.mem_cons_self).shown
      · rename_i frames hstep
        exact ih hplace.step (opened_step hplace hopened hstep) (error_of_prepend h)

/-! ## Words -/

theorem shown_of_word {offset : Nat} {c : Char} {t : Text} {e : ParseError}
    (hplace : StandsAt source offset (c :: t)) (h : word offset c t = .error e) :
    e.Shown source := by
  -- the character that opens a literal is one byte wide
  have hopened : ∀ {frame : Frame}, c.utf8Size = 1 → frame.Opened source →
      literal (offset + 1) [frame] t = .error e → e.Shown source := by
    intro frame hwidth hframe hliteral
    have hbehind := hplace.step
    rw [hwidth] at hbehind
    exact shown_of_literal hbehind (List.forall_mem_singleton.2 hframe) hliteral
  unfold word at h
  split at h
  · cases h
  split at h
  · cases h
  split at h
  · rename_i hquote
    split at h
    · rename_i hliteral
      cases h
      rw [Bool.or_eq_true, beq_iff_eq, beq_iff_eq] at hquote
      have hwidth : c.utf8Size = 1 := by
        rcases hquote with rfl | rfl <;> rfl
      have hframe : (Frame.quoted offset c false).Opened source := ⟨⟨t, hplace⟩, hquote.symm⟩
      exact hopened hwidth hframe hliteral
    · cases h
  split at h
  · rename_i hquote
    split at h
    · rename_i hliteral
      cases h
      obtain rfl := beq_iff_eq.1 hquote
      have hframe : (Frame.text offset false).Opened source := ⟨t, hplace⟩
      exact hopened rfl hframe hliteral
    · cases h
  split at h
  · cases h
  · cases h
    exact ⟨t, hplace⟩

/-! ## Sources -/

/-- The ways in which a text cannot be split into tokens: the gap, the word behind it, or the text
behind that one is at fault. -/
theorem lexFrom_error_cases {offset : Nat} {t : Text} {e : ParseError}
    (h : lexFrom offset t = .error e) :
    gap offset .spaces t = .error e ∨
      ∃ trivia c u, gap offset .spaces t = .ok (trivia, c :: u) ∧
        (word (offset + width trivia) c u = .error e ∨
          ∃ w, word (offset + width trivia) c u = .ok w ∧
            lexFrom (offset + width trivia + width w.text) w.rest = .error e) := by
  rw [lexFrom] at h
  split at h
  · rename_i hg
    cases h
    exact .inl hg
  · cases h
  · rename_i trivia c u hg
    refine .inr ⟨trivia, c, u, hg, ?_⟩
    dsimp only at h
    split at h
    · rename_i hw
      cases h
      exact .inl hw
    · rename_i w hw
      exact .inr ⟨w, hw, error_of_map h⟩

theorem shown_of_lexFrom {offset : Nat} {t : Text} {e : ParseError}
    (hplace : StandsAt source offset t) (h : lexFrom offset t = .error e) : e.Shown source := by
  induction hn : t.length using Nat.strongRecOn generalizing offset t with
  | ind n ih =>
    rcases lexFrom_error_cases h with hg | ⟨trivia, c, u, hg, hbehind⟩
    · exact shown_of_gap hplace hg
    obtain rfl := append_of_gap hg
    rcases hbehind with hw | ⟨w, hw, hrest⟩
    · exact shown_of_word hplace.skip hw
    · have hlength := length_rest_of_word hw
      have hword : StandsAt source (offset + width trivia) (w.text ++ w.rest) := by
        rw [(append_of_word hw).1]
        exact hplace.skip
      rw [List.length_append] at hn
      exact ih w.rest.length (by omega) hword.skip hrest rfl

end Lexer

/-- **Errors point at their cause.** An offset that an error carries lies inside of the source and
between characters, and there the source shows what the error says. -/
theorem parseProgram_points {source : Text} {e : ParseError} (h : parseProgram source = .error e) :
    (∀ n, e.offset? = some n → n < width source ∧ IsBoundary source n) ∧ e.Shown source := by
  have hshown : e.Shown source := by
    unfold parseProgram at h
    split at h
    · rename_i hlex
      cases h
      have hplace : StandsAt source 0 source := ⟨[], rfl, rfl⟩
      exact Lexer.shown_of_lexFrom hplace hlex
    · rename_i stream hlex
      have hblames := statements_blames h
      cases e with
      | unexpectedToken text n =>
        obtain ⟨t, ht, rfl, rfl⟩ := hblames
        have htiles : stream.TilesFrom ([] ++ source) (width []) := Lexer.tilesFrom_lexFrom hlex
        have htile := htiles.tile t ht
        exact ⟨htile.text_ne_nil, standsAt_of_slice? htile.slice, stream, hlex, t, ht, rfl, rfl⟩
      | unexpectedEnd => trivial
      | tooDeep limit => trivial
      | unterminatedString n => exact hblames.elim
      | unterminatedTemplate n => exact hblames.elim
      | unterminatedComment n => exact hblames.elim
      | unexpectedChar c n => exact hblames.elim
  exact ⟨fun n hn => hshown.offset hn, hshown⟩

/-- A string that is open inside of a substitution, and a word in the place of a colon. -/
theorem parseProgram_points_nested :
    parseProgram "é+`$\x7b'x\x7d`".toList = .error (.unterminatedString 6) ∧
      ParseError.Shown "é+`$\x7b'x\x7d`".toList (.unterminatedString 6) ∧
      parseProgram "a?.5 é".toList = .error (.unexpectedToken "é".toList 5) ∧
      5 < width "a?.5 é".toList ∧
      ParseError.Shown "a?.5 é".toList (.unexpectedToken "é".toList 5) := by
  have hread : ∀ {source : Text} {e : ParseError},
      Except.casesOn (motive := fun _ => Option ParseError) (parseProgram source) some
        (fun _ => none) = some e → parseProgram source = .error e := by
    intro source e hsome
    cases hparse : parseProgram source with
    | error f =>
      rw [hparse] at hsome
      exact congrArg _ (Option.some.inj hsome)
    | ok ss =>
      rw [hparse] at hsome
      cases hsome
  have hstring : parseProgram "é+`$\x7b'x\x7d`".toList = .error (.unterminatedString 6) := by
    apply hread
    decide +kernel
  have htoken : parseProgram "a?.5 é".toList = .error (.unexpectedToken "é".toList 5) := by
    apply hread
    decide +kernel
  obtain ⟨hoffset, hshown⟩ := parseProgram_points htoken
  exact ⟨hstring, (parseProgram_points hstring).2, htoken, (hoffset 5 rfl).1, hshown⟩

end BindingToggle
