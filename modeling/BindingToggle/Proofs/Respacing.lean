import BindingToggle.Proofs.Seams

/-!
# Tokens with other spaces between them

A token is cut off with a look at what stands behind it, and with other spaces something else stands
there. But what is looked at only tells that the token does not go on. So the token is read again
from its own characters alone, and then also in front of a blank.

* `number_again`, `literal_again`, `word_again` — what was read is read again when nothing stands
  behind it. Numbers need the most care: each part ends where the next part or the mark of a big
  integer begins.
* `lexFrom_again` — a word is read again behind any gap and in front of any text that it does not go
  on with.
* `lex_respaced` — the texts of the tokens of a source, with single spaces between them, are split
  into the same tokens.
-/

namespace BindingToggle

open Text

namespace Lexer

/-! ## Numbers -/

/-- Characters that go on with the digits of a number or with its point. -/
def isDecimalPart (c : Char) : Bool := isDigitPart c || c == '.'

theorem stops_isDigitPart {t : Text} (h : Stops isDecimalPart t) : Stops isDigitPart t := by
  intro c hc
  have hpart := h c hc
  rw [isDecimalPart, Bool.or_eq_false_iff] at hpart
  exact hpart.1

/-- Nothing but the mark of a big integer stands behind the magnitude of a number. -/
def OnlyMark (t : Text) : Prop := t = [] ∨ t = ['n']

theorem OnlyMark.stops {t : Text} (h : OnlyMark t) {p : Char → Bool} (hp : p 'n' = false) :
    Stops p t := by
  rcases h with rfl | rfl
  · exact stops_nil p
  · exact stops_cons.2 hp

theorem startsWithDigit_append {s : Text} (h : startsWithDigit s = true) (t : Text) :
    startsWithDigit (s ++ t) = true := by
  cases s with
  | nil => cases h
  | cons c s => exact h

theorem startsWithDigit_takeWhile {t : Text} (h : startsWithDigit t = true) :
    startsWithDigit (t.takeWhile isDigitPart) = true := by
  cases t with
  | nil => cases h
  | cons c t =>
    have hc : isDigitPart c = true := by
      rw [isDigitPart, Bool.or_eq_true]
      exact .inl h
    rw [List.takeWhile_cons_of_pos hc]
    exact h

theorem takeWhile_again {p : Char → Bool} (s : Text) {t : Text} (ht : Stops p t) :
    (s.takeWhile p ++ t).takeWhile p = s.takeWhile p :=
  takeWhile_run (List.all_eq_true.1 List.all_takeWhile) ht

theorem dropWhile_again {p : Char → Bool} (s : Text) {t : Text} (ht : Stops p t) :
    (s.takeWhile p ++ t).dropWhile p = t :=
  dropWhile_run (List.all_eq_true.1 List.all_takeWhile) ht

/-- An exponent is read again in front of a mark. -/
theorem exponent_again (s : Text) {t : Text} (ht : OnlyMark t) :
    exponent ((exponent s).1 ++ t) = ((exponent s).1, t) := by
  have hstops : Stops isDigitPart t := ht.stops (by decide)
  have hnone : exponent t = ([], t) := by
    rcases ht with rfl | rfl <;> rfl
  fun_cases exponent s with
  | case1 mark sign u hmark hsign =>
    rw [Bool.and_eq_true] at hsign
    have hdigit : startsWithDigit (u.takeWhile isDigitPart ++ t) = true :=
      startsWithDigit_append (startsWithDigit_takeWhile hsign.2) t
    simp only [List.cons_append, exponent, hmark, if_true, hsign.1, hdigit, Bool.and_self,
      takeWhile_again u hstops, dropWhile_again u hstops]
  | case2 mark sign u hmark hsign hdigit =>
    have hneither : (sign == '+' || sign == '-') = false := by
      rw [Bool.or_eq_false_iff, beq_eq_false_iff_ne, beq_eq_false_iff_ne]
      constructor
      · rintro rfl
        exact absurd hdigit (by decide)
      · rintro rfl
        exact absurd hdigit (by decide)
    simp only [List.cons_append, exponent, hmark, if_true, hneither, Bool.false_and,
      Bool.false_eq_true, if_false, hdigit, takeWhile_again u hstops, dropWhile_again u hstops]
  | case3 => exact hnone
  | case4 => exact hnone
  | case5 => exact hnone

/-- No digit and no point stands in front of an exponent and behind the other parts. -/
theorem stops_exponent (s : Text) {t : Text} (ht : OnlyMark t) :
    Stops isDecimalPart ((exponent s).1 ++ t) := by
  have hstops : Stops isDecimalPart t := ht.stops (by decide)
  have hmark : ∀ {mark : Char}, (mark == 'e' || mark == 'E') = true →
      isDecimalPart mark = false := by
    intro mark hmark
    rw [Bool.or_eq_true, beq_iff_eq, beq_iff_eq] at hmark
    rcases hmark with rfl | rfl
    · decide
    · decide
  fun_cases exponent s with
  | case1 mark sign u h => exact stops_cons.2 (hmark h)
  | case2 mark sign u h => exact stops_cons.2 (hmark h)
  | case3 => exact hstops
  | case4 => exact hstops
  | case5 => exact hstops

theorem fraction_again (s : Text) {t : Text} (ht : Stops isDecimalPart t) :
    fraction ((fraction s).1 ++ t) = ((fraction s).1, t) := by
  fun_cases fraction s with
  | case1 u =>
    simp only [List.cons_append, fraction, takeWhile_again u (stops_isDigitPart ht),
      dropWhile_again u (stops_isDigitPart ht)]
  | case2 =>
    cases t with
    | nil => rfl
    | cons c t =>
      have hc : c ≠ '.' := by
        rintro rfl
        exact absurd (stops_cons.1 ht) (by decide)
      simp [fraction, hc]

theorem stops_fraction (s : Text) {t : Text} (ht : Stops isDecimalPart t) :
    Stops isDigitPart ((fraction s).1 ++ t) := by
  fun_cases fraction s with
  | case1 => exact stops_cons.2 (by decide)
  | case2 => exact stops_isDigitPart ht

theorem decimal_again (s : Text) {t : Text} (ht : OnlyMark t) :
    decimal ((decimal s).1 ++ t) = ((decimal s).1, t) := by
  have hexponent := stops_exponent (fraction (s.dropWhile isDigitPart)).2 ht
  have hfraction := stops_fraction (s.dropWhile isDigitPart) hexponent
  simp only [decimal, List.append_assoc, takeWhile_again s hfraction, dropWhile_again s hfraction,
    fraction_again _ hexponent, exponent_again _ ht]

/-- A text is read with a base, or as a decimal number. -/
theorem magnitude_eq_decimal {t : Text}
    (h : ∀ base u, t = '0' :: base :: u → isBaseLetter base = false) : magnitude t = decimal t := by
  unfold magnitude
  split
  · rename_i base u
    rw [h base u rfl, if_neg Bool.false_ne_true]
  · rfl

theorem magnitude_again (s : Text) {t : Text} (ht : OnlyMark t) :
    magnitude ((magnitude s).1 ++ t) = ((magnitude s).1, t) := by
  have hstops : Stops isHexPart t := ht.stops (by decide)
  by_cases hbased : ∃ base u, s = '0' :: base :: u ∧ isBaseLetter base = true
  · obtain ⟨base, u, rfl, hbase⟩ := hbased
    simp only [magnitude, hbase, if_true, List.cons_append, takeWhile_again u hstops,
      dropWhile_again u hstops]
  · have hplain : ∀ base u, s = '0' :: base :: u → isBaseLetter base = false := by
      intro base u hs
      by_contra hbase
      exact hbased ⟨base, u, hs, by simpa using hbase⟩
    rw [magnitude_eq_decimal hplain]
    -- the second character is that of the text, or the mark, which names no base
    have hagain : magnitude ((decimal s).1 ++ t) = decimal ((decimal s).1 ++ t) := by
      apply magnitude_eq_decimal
      intro base u hread
      have hs := append_decimal s
      rcases hd : (decimal s).1 with _ | ⟨d, _ | ⟨e, v⟩⟩
      · rw [hd] at hread
        rcases ht with rfl | rfl <;> cases hread
      · rw [hd] at hread
        rcases ht with rfl | rfl
        · cases hread
        · cases hread
          decide
      · rw [hd] at hread hs
        simp only [List.cons_append, List.cons.injEq] at hread
        obtain ⟨rfl, rfl, -⟩ := hread
        exact hplain e _ hs.symm
    rw [hagain, decimal_again s ht]

/-- **A number is read again from its own characters.** -/
theorem number_again (s : Text) : number (number s).1 = ((number s).1, []) := by
  cases hrest : (magnitude s).2 with
  | nil =>
    have hread : number s = ((magnitude s).1, []) := by simp [number, hrest]
    have hagain := magnitude_again s (.inl rfl)
    rw [List.append_nil] at hagain
    rw [hread]
    simp [number, hagain]
  | cons c rest =>
    by_cases hc : c = 'n'
    · subst hc
      have hread : number s = ((magnitude s).1 ++ ['n'], rest) := by simp [number, hrest]
      rw [hread]
      simp [number, magnitude_again s (.inr rfl)]
    · have hread : number s = ((magnitude s).1, c :: rest) := by simp [number, hrest, hc]
      have hagain := magnitude_again s (.inl rfl)
      rw [List.append_nil] at hagain
      rw [hread]
      simp [number, hagain]

/-! ## Strings and template literals -/

/-- The character that ends a literal does so whatever stands behind it. -/
theorem Frame.step_eq_nil {offset : Nat} {top : Frame} {below : List Frame} {c : Char}
    {next : Option Char} (h : top.step offset below c next = some []) (next' : Option Char) :
    top.step offset below c next' = some [] := by
  cases top with
  | quoted start quote escaped =>
    cases escaped with
    | true => exact h
    | false => exact h
  | text start escaped =>
    cases escaped with
    | true => exact h
    | false =>
      simp only [step] at h ⊢
      split at h
      · rename_i hc
        rw [if_pos hc]
        exact h
      · split at h
        · cases h
        · split at h <;> cases h
  | code start braces => exact h

/-- A literal is read again from its own characters, also where it stood `delta` further on. -/
theorem literal_again (delta : Nat) {offset : Nat} {frames : List Frame} {s lexeme rest : Text}
    (h : literal (offset + delta) (frames.map (Frame.shift delta)) s = .ok (lexeme, rest)) :
    literal offset frames lexeme = .ok (lexeme, []) := by
  induction s generalizing offset frames lexeme with
  | nil =>
    cases frames with
    | nil =>
      cases h
      rw [literal]
    | cons top below => cases h
  | cons c s ih =>
    cases frames with
    | nil =>
      cases h
      rw [literal]
    | cons top below =>
      rw [List.map_cons, literal, Frame.step_shift rfl] at h
      cases hstep : top.step offset below c s.head? with
      | none =>
        rw [hstep] at h
        cases h
      | some frames =>
        rw [hstep] at h
        obtain ⟨tail, htail, rfl⟩ := Scan.prepend_eq_ok_iff.1 h
        rw [Nat.add_right_comm] at htail
        -- the character behind is the same one, unless the literal ends here
        have hstep' : top.step offset below c tail.head? = some frames := by
          cases tail with
          | cons d tail =>
            obtain rfl := append_of_literal htail
            exact hstep
          | nil =>
            cases frames with
            | nil => exact Frame.step_eq_nil hstep _
            | cons f frames =>
              have hread := ih htail
              cases hread
        rw [List.singleton_append, literal, hstep']
        simp only [ih htail, Scan.prepend, List.singleton_append]

/-! ## Words -/

/-- A number that begins with a point goes on with a digit. -/
theorem startsWithDigit_of_number {s body : Text} (h : startsWithDigit s = true)
    (hbody : (number ('.' :: s)).1 = '.' :: body) : startsWithDigit body = true := by
  have hmagnitude : ∃ more,
      (magnitude ('.' :: s)).1 = '.' :: (s.takeWhile isDigitPart ++ more) := by
    refine ⟨(exponent (fraction ('.' :: s)).2).1, ?_⟩
    have hpoint : isDigitPart '.' = false := by decide
    simp [magnitude, decimal, fraction, hpoint]
  obtain ⟨more, hmore⟩ := hmagnitude
  have hprefix : (magnitude ('.' :: s)).1 <+: (number ('.' :: s)).1 := by
    unfold number
    split
    · exact List.prefix_append _ _
    · exact List.prefix_rfl
  rw [hmore, hbody, List.cons_prefix_cons] at hprefix
  obtain ⟨rest, rfl⟩ := hprefix.2
  rw [List.append_assoc]
  exact startsWithDigit_append (startsWithDigit_takeWhile h) _

/-- Every punctuator is found in its own spelling. -/
theorem ofText?_symbol (p : Punct) : Punct.ofText? p.symbol.toList = some p := by
  cases p <;> decide

/-- **A word is read again from its own characters.** -/
theorem word_again {offset : Nat} {c : Char} {s : Text} {w : Word} (h : word offset c s = .ok w) :
    ∃ body, w.text = c :: body ∧ body ++ w.rest = s ∧
      word 0 c body = .ok { w with rest := [] } := by
  obtain ⟨hsplit, hne⟩ := append_of_word h
  obtain ⟨d, body, hbody⟩ := List.exists_cons_of_ne_nil hne
  rw [hbody, List.cons_append] at hsplit
  obtain ⟨rfl, hs⟩ := List.cons.inj hsplit
  refine ⟨body, hbody, hs, ?_⟩
  have hopened : ∀ {frame : Frame} {rest}, literal (offset + 1) [frame.shift offset] s =
      .ok (body, rest) → literal 1 [frame] body = .ok (body, []) := by
    intro frame rest hliteral
    have hshifted : literal (1 + offset) ([frame].map (Frame.shift offset)) s =
        .ok (body, rest) := by
      rw [Nat.add_comm]
      exact hliteral
    exact literal_again offset hshifted
  unfold word at h ⊢
  by_cases hstart : isNameStart d = true
  · rw [if_pos hstart] at h ⊢
    cases h
    obtain rfl := (List.cons.inj hbody).2
    have hrun := takeWhile_again (p := isNamePart) s (stops_nil _)
    have hend := dropWhile_again (p := isNamePart) s (stops_nil _)
    rw [List.append_nil] at hrun hend
    rw [hrun, hend]
  rw [if_neg hstart] at h ⊢
  by_cases hnumeral : (d.isDigit || (d == '.' && startsWithDigit s)) = true
  · rw [if_pos hnumeral] at h
    cases h
    have hnumeral' : (d.isDigit || (d == '.' && startsWithDigit body)) = true := by
      rw [Bool.or_eq_true, Bool.and_eq_true, beq_iff_eq] at hnumeral ⊢
      rcases hnumeral with hdigit | ⟨rfl, hdigit⟩
      · exact .inl hdigit
      · exact .inr ⟨rfl, startsWithDigit_of_number hdigit hbody⟩
    rw [if_pos hnumeral', ← hbody, number_again]
  have hnumeral' : ¬ (d.isDigit || (d == '.' && startsWithDigit body)) = true := by
    intro hagain
    apply hnumeral
    rw [Bool.or_eq_true, Bool.and_eq_true] at hagain ⊢
    rcases hagain with hdigit | ⟨hpoint, hdigit⟩
    · exact .inl hdigit
    · exact .inr ⟨hpoint, hs ▸ startsWithDigit_append hdigit _⟩
  rw [if_neg hnumeral] at h
  rw [if_neg hnumeral']
  by_cases hquote : (d == '"' || d == '\'') = true
  · rw [if_pos hquote] at h ⊢
    split at h
    · cases h
    · rename_i body' rest hliteral
      cases h
      obtain rfl := (List.cons.inj hbody).2
      have hread : literal 1 [.quoted 0 d false] body' = .ok (body', []) := by
        apply hopened
        rw [Frame.shift, Nat.zero_add]
        exact hliteral
      rw [hread]
  rw [if_neg hquote] at h ⊢
  by_cases htemplate : (d == '`') = true
  · rw [if_pos htemplate] at h ⊢
    split at h
    · cases h
    · rename_i body' rest hliteral
      cases h
      obtain rfl := (List.cons.inj hbody).2
      have hread : literal 1 [.text 0 false] body' = .ok (body', []) := by
        apply hopened
        rw [Frame.shift, Nat.zero_add]
        exact hliteral
      rw [hread]
  rw [if_neg htemplate] at h ⊢
  split at h
  · rename_i p hp
    cases h
    have hsymbol : p.symbol.toList = d :: body := hbody
    have hread : Punct.ofText? (d :: body) = some p := by
      rw [← hsymbol]
      exact ofText?_symbol p
    simp only [hread, hsymbol, List.drop_length]
  · cases h

/-! ## Sources -/

/-- No comment begins with a token, whatever stands behind it now. -/
theorem startsGap_again {c : Char} {body rest t : Text}
    (h : startsGap (c :: (body ++ rest)) = false) (ht : Apart t) :
    startsGap (c :: (body ++ t)) = false := by
  cases body with
  | cons b body => exact h
  | nil =>
    have hc : isSpace c = false := (Bool.or_eq_false_iff.1 h).1
    cases t with
    | nil => simp [startsGap, hc]
    | cons d t =>
      have hslash : d ≠ '/' := (ht d rfl).ne (.inr ⟨.slash, by decide⟩)
      have hstar : d ≠ '*' := (ht d rfl).ne (.inr ⟨.star, by decide⟩)
      simp [startsGap, hc, hslash, hstar]

/-- A word is read again behind any gap, in front of any text that it does not go on with. -/
theorem lexFrom_again {offset : Nat} {c : Char} {s : Text} {w : Word}
    (hw : word offset c s = .ok w) (hstop : startsGap (c :: s) = false) {lead t : Text}
    (hlead : IsGap false lead) (ht : Apart t) (place : Nat) :
    lexFrom place (lead ++ (w.text ++ t)) =
      (lexFrom (place + width lead + width w.text) t).map fun s =>
        { s with tokens := w.toToken place lead :: s.tokens } := by
  obtain ⟨body, htext, rfl, hread⟩ := word_again hw
  have hread' := word_seam ht (place + width lead) hread
  rw [Nat.zero_add] at hread'
  have hgap := gap_before hlead (startsGap_again hstop ht) place
  have htoken := lexFrom_token hgap hread'
  rw [← List.cons_append, ← htext] at htoken
  exact htoken

/-- The tokens are the same ones at other places, and no gap is left between the last of them and
the end, which is at `stop`. -/
structure Resays (stream stream' : TokenStream) (stop : Nat) : Prop where
  tokens : stream'.tokens.map (fun t => (t.kind, t.text)) =
    stream.tokens.map fun t => (t.kind, t.text)
  endGap_eq : stream'.endGap = stop
  stop_eq : stream'.stop = stop

theorem separates_space : Separates ' ' := separates_of_isSpace (by decide)

theorem apart_spaced (texts : List Text) : Apart (texts.flatMap (' ' :: ·)) := by
  cases texts with
  | nil => exact apart_nil
  | cons t texts => exact apart_cons separates_space _

theorem intercalate_space (first : Text) (texts : List Text) :
    [' '].intercalate (first :: texts) = first ++ texts.flatMap (' ' :: ·) := by
  induction texts generalizing first with
  | nil => rw [List.intercalate_singleton, List.flatMap_nil, List.append_nil]
  | cons second texts ih =>
    rw [List.intercalate_cons_cons, ih, List.flatMap_cons, List.append_assoc, List.singleton_append,
      List.cons_append]

/-- The texts of the tokens are split into the same tokens, behind any gap. -/
theorem lexFrom_respaced {offset : Nat} {s : Text} {stream : TokenStream}
    (h : lexFrom offset s = .ok stream) {first : Text} {texts : List Text}
    (htexts : stream.tokens.map Token.text = first :: texts) {lead : Text}
    (hlead : IsGap false lead) (place : Nat) :
    ∃ stream', lexFrom place (lead ++ [' '].intercalate (first :: texts)) = .ok stream' ∧
      Resays stream stream' (place + width (lead ++ [' '].intercalate (first :: texts))) := by
  -- by the length of the source: the word is read again, and for the others the gap is a space
  induction hn : s.length using Nat.strongRecOn
    generalizing offset s stream first texts lead place with
  | ind n ih =>
    rcases lexFrom_cases h with ⟨trivia, -, hnone⟩ | ⟨trivia, c, u, w, tail, hg, hw, htail, hcons⟩
    · rw [hnone] at htexts
      cases htexts
    obtain ⟨hsource, -, hstop⟩ := gap_eq_ok_iff.1 hg
    rw [hcons, List.map_cons] at htexts
    obtain ⟨hfirst, hothers⟩ := List.cons.inj htexts
    have hlength : w.rest.length < n := by
      have hword := length_rest_of_word hw
      rw [← hn, hsource, List.length_append]
      omega
    have hread := lexFrom_again hw hstop hlead (apart_spaced texts) place
    have htext : w.text = first := hfirst
    rw [htext, ← intercalate_space] at hread
    have hrest : ∃ tail', lexFrom (place + width lead + width first) (texts.flatMap (' ' :: ·)) =
        .ok tail' ∧ Resays tail tail'
          (place + width lead + width first + width (texts.flatMap (' ' :: ·))) := by
      cases texts with
      | nil =>
        refine ⟨_, lexFrom_end rfl, ?_, rfl, rfl⟩
        rw [List.map_eq_nil_iff.1 hothers, List.map_nil]
      | cons second texts =>
        have hspace : (second :: texts).flatMap (' ' :: ·) =
            [' '] ++ [' '].intercalate (second :: texts) := by
          rw [intercalate_space, List.flatMap_cons, List.singleton_append, List.cons_append]
        have hgap : IsGap false [' '] := .space (by decide) .nil
        rw [hspace]
        exact ih _ hlength htail hothers hgap _ rfl
    obtain ⟨tail', htail', hsays⟩ := hrest
    have hwidth : place + width (lead ++ [' '].intercalate (first :: texts)) =
        place + width lead + width first + width (texts.flatMap (' ' :: ·)) := by
      simp only [intercalate_space, width_append]
      omega
    rw [hread, htail', hwidth]
    refine ⟨_, rfl, ?_, hsays.endGap_eq, hsays.stop_eq⟩
    rw [hcons, List.map_cons, List.map_cons, hsays.tokens]
    rfl

end Lexer

/-- **Lexing is stable under other spaces.** The texts of the tokens of a source with single spaces
between them are split into the same tokens, and the source ends behind the last of them. -/
theorem lex_respaced {source : Text} {s : TokenStream} (h : lex source = .ok s) :
    ∃ s', lex ([' '].intercalate (s.tokens.map Token.text)) = .ok s' ∧
      s'.tokens.map (fun t => (t.kind, t.text)) = s.tokens.map (fun t => (t.kind, t.text)) ∧
      s'.endGap = s'.stop ∧ s'.stop = width ([' '].intercalate (s.tokens.map Token.text)) := by
  cases htexts : s.tokens.map Token.text with
  | nil =>
    refine ⟨_, Lexer.lexFrom_end rfl, ?_, rfl, rfl⟩
    rw [List.map_eq_nil_iff.1 htexts]
  | cons first texts =>
    obtain ⟨s', hlex, htokens, hgap, hstop⟩ := Lexer.lexFrom_respaced h htexts .nil 0
    rw [List.nil_append, Nat.zero_add] at hgap hstop
    exact ⟨s', hlex, htokens, hgap.trans hstop.symm, hstop⟩

/-- A question mark in front of a point and a digit, a big integer in front of a comment, a slash
behind one, and a template literal with a string inside of it. -/
theorem lex_respaced_adjacent :
    ∃ s s', lex "a?.5:1.n/**// `$\x7b'\\''\x7d`//z".toList = .ok s ∧
      lex "a ? .5 : 1.n / `$\x7b'\\''\x7d`".toList = .ok s' ∧ s.tokens.length = 7 ∧
      s'.tokens.map (fun t => (t.kind, t.text)) = s.tokens.map (fun t => (t.kind, t.text)) := by
  have hread : (lex "a?.5:1.n/**// `$\x7b'\\''\x7d`//z".toList).toOption.map
      (fun s => (s.tokens.length, [' '].intercalate (s.tokens.map Token.text))) =
      some (7, "a ? .5 : 1.n / `$\x7b'\\''\x7d`".toList) := by
    decide +kernel
  cases hlex : lex "a?.5:1.n/**// `$\x7b'\\''\x7d`//z".toList with
  | error e =>
    rw [hlex] at hread
    cases hread
  | ok s =>
    rw [hlex] at hread
    obtain ⟨hlength, htext⟩ := Prod.mk.inj (Option.some.inj hread)
    obtain ⟨s', hlex', htokens, -⟩ := lex_respaced hlex
    rw [htext] at hlex'
    exact ⟨s, s', rfl, hlex', hlength, htokens⟩

end BindingToggle
