import BindingToggle.Proofs.Scanning
import BindingToggle.Proofs.SoleLiteral
import BindingToggle.Proofs.Layout

/-!
# Reading tokens in front of more text

A token is cut off where the text cannot go on with it, and for that the characters behind it are
looked at. A blank ends every token, so a text that is split into tokens is split into the same ones
in front of a blank.

* `Separates c` — no name, number or punctuator goes on with the character `c`; blanks separate.
* `ofText?_seam`, `number_seam`, `literal_seam`, `word_seam` — what is read is read in the same way
  in front of a text that begins with a character that separates.
* `lexFrom_shift` — the tokens of a text are the same ones wherever the text begins.
* `lexFrom_seam` — the tokens of a text, and behind a line end and a semicolon those of another one.
-/

namespace BindingToggle

open Text

/-! ## Runs -/

namespace Text

variable {p : Char → Bool} {t : Text}

theorem stops_append (ht : Stops p t) {s : Text} (hs : Stops p s) : Stops p (s ++ t) := by
  cases s with
  | nil => exact ht
  | cons c s => exact hs

theorem takeWhile_seam (ht : Stops p t) (s : Text) : (s ++ t).takeWhile p = s.takeWhile p := by
  obtain ⟨run, rest, rfl, hrun, hrest⟩ := exists_run p s
  rw [List.append_assoc, takeWhile_run hrun (stops_append ht hrest), takeWhile_run hrun hrest]

theorem dropWhile_seam (ht : Stops p t) (s : Text) :
    (s ++ t).dropWhile p = s.dropWhile p ++ t := by
  obtain ⟨run, rest, rfl, hrun, hrest⟩ := exists_run p s
  rw [List.append_assoc, dropWhile_run hrun (stops_append ht hrest), dropWhile_run hrun hrest]

end Text

namespace Lexer

/-! ## Characters that separate -/

/-- No name, number or punctuator goes on with the character. -/
structure Separates (c : Char) : Prop where
  name : isNamePart c = false
  digit : isHexPart c = false
  mark : ∀ p : Punct, c ∉ p.symbol.toList

/-- The codes of the characters that separate tokens. -/
def spaceCodes : List Nat :=
  [0x9, 0xa, 0xb, 0xc, 0xd, 0x20, 0x85, 0xa0, 0x1680, 0x2000, 0x2001, 0x2002, 0x2003, 0x2004,
    0x2005, 0x2006, 0x2007, 0x2008, 0x2009, 0x200a, 0x2028, 0x2029, 0x202f, 0x205f, 0x3000, 0xfeff]

theorem mem_spaceCodes {c : Char} (hc : isSpace c = true) : c.toNat ∈ spaceCodes := by
  simp only [isSpace, isBlank, Bool.or_eq_true, Bool.and_eq_true, beq_iff_eq,
    decide_eq_true_eq] at hc
  rcases hc with hblank | rfl
  · simp only [spaceCodes, List.mem_cons, List.not_mem_nil, or_false]
    omega
  · decide

/-- Punctuators are written in visible characters of ASCII. -/
theorem code_of_mem_symbol {p : Punct} {c : Char} (hc : c ∈ p.symbol.toList) :
    0x20 < c.toNat ∧ c.toNat < 0x7f := by
  have hall : (p.symbol.toList.all fun c => decide (0x20 < c.toNat ∧ c.toNat < 0x7f)) = true := by
    cases p <;> rfl
  simpa using List.all_eq_true.1 hall c hc

/-- Blanks separate tokens. -/
theorem separates_of_isSpace {c : Char} (hc : isSpace c = true) : Separates c := by
  have hname : ∀ n ∈ spaceCodes, isNamePart (Char.ofNat n) = false := by decide +kernel
  have hdigit : ∀ n ∈ spaceCodes, isHexPart (Char.ofNat n) = false := by decide +kernel
  have hrange : ∀ n ∈ spaceCodes, ¬ (0x20 < n ∧ n < 0x7f) := by decide
  have hcode := mem_spaceCodes hc
  refine ⟨?_, ?_, fun p hp => hrange _ hcode (code_of_mem_symbol hp)⟩
  · have h := hname _ hcode
    rwa [Char.ofNat_toNat] at h
  · have h := hdigit _ hcode
    rwa [Char.ofNat_toNat] at h

section Separators

variable {c : Char} (hc : Separates c)

include hc

theorem Separates.isAlpha_eq_false : c.isAlpha = false := by
  have h := hc.name
  simp only [isNamePart, isLetter, Bool.or_eq_false_iff] at h
  exact h.1.1.1.1.1.1

theorem Separates.isDigit_eq_false : c.isDigit = false := by
  have h := hc.digit
  simp only [isHexPart, Bool.or_eq_false_iff] at h
  exact h.1.1.1

theorem Separates.isDigitPart_eq_false : isDigitPart c = false := by
  have h := hc.digit
  simp only [isHexPart, Bool.or_eq_false_iff] at h
  simp [isDigitPart, h.1.1.1, h.2]

/-- The character is none of the letters and none of the characters of punctuators. -/
theorem Separates.ne {d : Char} (hd : d.isAlpha = true ∨ ∃ p : Punct, d ∈ p.symbol.toList) :
    c ≠ d := by
  rintro rfl
  rcases hd with hd | ⟨p, hd⟩
  · rw [hc.isAlpha_eq_false] at hd
    cases hd
  · exact hc.mark p hd

end Separators

/-! ## Numbers -/

section Numbers

variable {c : Char} (hc : Separates c) (t : Text)

include hc

theorem startsWithDigit_seam (s : Text) :
    startsWithDigit (s ++ c :: t) = startsWithDigit s := by
  cases s with
  | nil => exact hc.isDigit_eq_false
  | cons d s => rfl

theorem fraction_seam (s : Text) :
    fraction (s ++ c :: t) = ((fraction s).1, (fraction s).2 ++ c :: t) := by
  have hstops : Stops isDigitPart (c :: t) := stops_cons.2 hc.isDigitPart_eq_false
  have hpoint : c ≠ '.' := hc.ne (.inr ⟨.dot, by decide⟩)
  cases s with
  | nil =>
    unfold fraction
    split
    · rename_i heq
      exact absurd (List.cons.inj heq).1 hpoint
    · rfl
  | cons d s =>
    by_cases hd : d = '.'
    · subst hd
      simp [fraction, takeWhile_seam hstops, dropWhile_seam hstops]
    · simp [fraction, hd]

theorem exponent_seam (s : Text) :
    exponent (s ++ c :: t) = ((exponent s).1, (exponent s).2 ++ c :: t) := by
  have hstops : Stops isDigitPart (c :: t) := stops_cons.2 hc.isDigitPart_eq_false
  match s with
  | [] =>
    have he : c ≠ 'e' := hc.ne (.inl (by decide))
    have hE : c ≠ 'E' := hc.ne (.inl (by decide))
    cases t with
    | nil => rfl
    | cons d t => simp [exponent, he, hE]
  | [mark] =>
    have hplus : c ≠ '+' := hc.ne (.inr ⟨.plus, by decide⟩)
    have hminus : c ≠ '-' := hc.ne (.inr ⟨.minus, by decide⟩)
    simp [exponent, hplus, hminus, hc.isDigit_eq_false]
  | mark :: sign :: s =>
    simp only [List.cons_append, exponent, startsWithDigit_seam hc, takeWhile_seam hstops,
      dropWhile_seam hstops]
    split
    · split
      · rfl
      · split <;> rfl
    · rfl

theorem decimal_seam (s : Text) :
    decimal (s ++ c :: t) = ((decimal s).1, (decimal s).2 ++ c :: t) := by
  have hstops : Stops isDigitPart (c :: t) := stops_cons.2 hc.isDigitPart_eq_false
  simp only [decimal, takeWhile_seam hstops, dropWhile_seam hstops, fraction_seam hc,
    exponent_seam hc]

theorem magnitude_seam (s : Text) :
    magnitude (s ++ c :: t) = ((magnitude s).1, (magnitude s).2 ++ c :: t) := by
  have hstops : Stops isHexPart (c :: t) := stops_cons.2 hc.digit
  have hbase : isBaseLetter c = false := by
    have hne : ∀ d : Char, d.isAlpha = true → c ≠ d := fun d hd => hc.ne (.inl hd)
    simp [isBaseLetter, hne 'x' rfl, hne 'X' rfl, hne 'o' rfl, hne 'O' rfl, hne 'b' rfl,
      hne 'B' rfl]
  have hzero : c ≠ '0' := by
    rintro rfl
    exact absurd hc.isDigit_eq_false (by decide)
  match s with
  | [] =>
    have hplain : magnitude (c :: t) = decimal (c :: t) := by simp [magnitude, hzero]
    rw [List.nil_append, hplain]
    exact decimal_seam hc t []
  | [d] =>
    have hplain : magnitude (d :: c :: t) = decimal (d :: c :: t) := by
      by_cases hd : d = '0'
      · simp [magnitude, hd, hbase]
      · simp [magnitude, hd]
    have hone : magnitude [d] = decimal [d] := by simp [magnitude]
    rw [List.singleton_append, hplain, hone]
    exact decimal_seam hc t [d]
  | d :: base :: s =>
    have hdecimal := decimal_seam hc t (d :: base :: s)
    simp only [List.cons_append] at hdecimal
    by_cases hd : d = '0'
    · subst hd
      by_cases hb : isBaseLetter base = true
      · simp [magnitude, hb, takeWhile_seam hstops, dropWhile_seam hstops]
      · simp [magnitude, hb, hdecimal]
    · simp [magnitude, hd, hdecimal]

theorem number_seam (s : Text) :
    number (s ++ c :: t) = ((number s).1, (number s).2 ++ c :: t) := by
  have hmark : c ≠ 'n' := hc.ne (.inl (by decide))
  have hseam := magnitude_seam hc t s
  simp only [number, hseam]
  cases hrest : (magnitude s).2 with
  | nil => simp [hmark]
  | cons d rest =>
    by_cases hd : d = 'n'
    · simp [hd]
    · simp [hd]

end Numbers

/-! ## Strings and template literals -/

/-- The frame of a literal that stands `delta` further on. -/
def Frame.shift (delta : Nat) : Frame → Frame
  | quoted start quote escaped => quoted (start + delta) quote escaped
  | text start escaped => text (start + delta) escaped
  | code start braces => code (start + delta) braces

/-- A frame does not look at its place, and of the character behind only whether it is a brace. -/
theorem Frame.step_shift {next next' : Option Char}
    (hnext : (next' == some '{') = (next == some '{')) (delta offset : Nat) (top : Frame)
    (below : List Frame) (c : Char) :
    (top.shift delta).step (offset + delta) (below.map (shift delta)) c next' =
      (top.step offset below c next).map (List.map (shift delta)) := by
  cases top with
  | quoted start quote escaped =>
    cases escaped
    · simp only [shift, step]
      split
      · rfl
      · split
        · rfl
        · split <;> rfl
    · rfl
  | text start escaped =>
    cases escaped
    · simp only [shift, step, hnext]
      split
      · rfl
      · split
        · rfl
        · split <;> rfl
    · rfl
  | code start braces =>
    simp only [shift, step]
    split
    · rfl
    · split
      · split <;> rfl
      · split
        · rfl
        · split <;> rfl

theorem literal_seam {t : Text} (ht : t.head? ≠ some '{') (delta : Nat) {offset : Nat}
    {frames : List Frame} {s lexeme rest : Text}
    (h : literal offset frames s = .ok (lexeme, rest)) :
    literal (offset + delta) (frames.map (Frame.shift delta)) (s ++ t) =
      .ok (lexeme, rest ++ t) := by
  induction s generalizing offset frames lexeme with
  | nil =>
    cases frames with
    | nil =>
      cases h
      rw [List.map_nil, literal, List.nil_append]
    | cons top below => cases h
  | cons c s ih =>
    cases frames with
    | nil =>
      cases h
      rw [List.map_nil, literal]
    | cons top below =>
      have hnext : ((s ++ t).head? == some '{') = (s.head? == some '{') := by
        cases s with
        | nil => simpa using ht
        | cons b s => rfl
      rw [literal] at h
      rw [List.cons_append, List.map_cons, literal, Frame.step_shift hnext]
      split at h
      · cases h
      · rename_i frames' hstep
        obtain ⟨tail, htail, rfl⟩ := Scan.prepend_eq_ok_iff.1 h
        have hrest := ih htail
        rw [Nat.add_right_comm] at hrest
        rw [hstep]
        simp only [Option.map_some, hrest, Scan.prepend]

/-! ## Punctuators -/

/-- A mark that lacks a character does not reach over it. -/
theorem isPrefixOf_seam {mark : Text} {c : Char} (hc : c ∉ mark) (s t : Text) :
    mark.isPrefixOf (s ++ c :: t) = mark.isPrefixOf s := by
  rw [Bool.eq_iff_iff, List.isPrefixOf_iff_prefix, List.isPrefixOf_iff_prefix]
  refine ⟨fun h => ?_, fun h => h.trans (List.prefix_append s _)⟩
  rcases Nat.lt_or_ge s.length mark.length with hlong | hshort
  · have hreach : s ++ [c] <+: mark :=
      List.prefix_of_prefix_length_le ⟨t, by simp⟩ h (by rw [List.length_append]; exact hlong)
    exact absurd (hreach.subset (by simp)) hc
  · exact List.prefix_of_prefix_length_le h (List.prefix_append s _) hshort

section Punctuators

variable {c : Char} (hdigit : c.isDigit = false) (hmark : ∀ p : Punct, c ∉ p.symbol.toList)

include hdigit hmark

theorem begins_seam (p : Punct) (s t : Text) : p.begins (s ++ c :: t) = p.begins s := by
  unfold Punct.begins
  rw [isPrefixOf_seam (hmark p)]
  cases hbegins : p.symbol.toList.isPrefixOf s with
  | false => rfl
  | true =>
    -- only behind a question mark and a point another character is looked at
    by_cases hp : p = .optionalDot
    · subst hp
      obtain ⟨s, rfl⟩ := List.isPrefixOf_iff_prefix.1 hbegins
      cases s with
      | nil => simp [Punct.symbol, hdigit]
      | cons d s => rfl
    · have hne : (p == Punct.optionalDot) = false := by simpa using hp
      rw [hne]
      rfl

/-- The punctuator at the beginning of a text is found in front of a character that goes on with
none. -/
theorem ofText?_seam (s t : Text) : Punct.ofText? (s ++ c :: t) = Punct.ofText? s := by
  simp only [Punct.ofText?, begins_seam hdigit hmark]

end Punctuators

/-! ## Words -/

/-- No token that ends in front of the text goes on with it. -/
def Apart (t : Text) : Prop := ∀ c, t.head? = some c → Separates c

theorem apart_nil : Apart [] := by
  intro c hc
  cases hc

theorem apart_cons {c : Char} (hc : Separates c) (t : Text) : Apart (c :: t) := by
  rintro d hd
  cases hd
  exact hc

/-- A word is read in the same way at another place and in front of more text, if it does not go on
there. -/
theorem word_seam {t : Text} (ht : Apart t) (delta : Nat) {offset : Nat} {c : Char} {s : Text}
    {w : Word} (h : word offset c s = .ok w) :
    word (offset + delta) c (s ++ t) = .ok { w with rest := w.rest ++ t } := by
  have hname : Stops isNamePart t := fun d hd => (ht d hd).name
  have hbrace : t.head? ≠ some '{' := fun hd =>
    (ht _ hd).ne (.inr ⟨.openBrace, by decide⟩) rfl
  have hdigit : startsWithDigit (s ++ t) = startsWithDigit s := by
    cases t with
    | nil => rw [List.append_nil]
    | cons d t => exact startsWithDigit_seam (ht d rfl) t s
  have hnumber : number (c :: (s ++ t)) = ((number (c :: s)).1, (number (c :: s)).2 ++ t) := by
    cases t with
    | nil => simp
    | cons d t => exact number_seam (ht d rfl) t (c :: s)
  have hpunct : Punct.ofText? (c :: (s ++ t)) = Punct.ofText? (c :: s) := by
    cases t with
    | nil => rw [List.append_nil]
    | cons d t => exact ofText?_seam (ht d rfl).isDigit_eq_false (ht d rfl).mark (c :: s) t
  have hopened : ∀ {frame : Frame} {body rest}, literal (offset + 1) [frame] s = .ok (body, rest) →
      literal (offset + delta + 1) [frame.shift delta] (s ++ t) = .ok (body, rest ++ t) := by
    intro frame body rest hliteral
    have hshifted := literal_seam hbrace delta hliteral
    rwa [Nat.add_right_comm] at hshifted
  unfold word at h ⊢
  rw [hdigit, hnumber, hpunct]
  by_cases hstart : isNameStart c = true
  · rw [if_pos hstart] at h ⊢
    cases h
    rw [takeWhile_seam hname, dropWhile_seam hname]
  rw [if_neg hstart] at h ⊢
  by_cases hnumeral : (c.isDigit || (c == '.' && startsWithDigit s)) = true
  · rw [if_pos hnumeral] at h ⊢
    cases h
    rfl
  rw [if_neg hnumeral] at h ⊢
  by_cases hquote : (c == '"' || c == '\'') = true
  · rw [if_pos hquote] at h ⊢
    split at h
    · cases h
    · rename_i hliteral
      cases h
      have hread : literal _ [.quoted (offset + delta) c false] (s ++ t) = _ := hopened hliteral
      rw [hread]
  rw [if_neg hquote] at h ⊢
  by_cases htemplate : (c == '`') = true
  · rw [if_pos htemplate] at h ⊢
    split at h
    · cases h
    · rename_i hliteral
      cases h
      have hread : literal _ [.text (offset + delta) false] (s ++ t) = _ := hopened hliteral
      rw [hread]
  rw [if_neg htemplate] at h ⊢
  split at h
  · rename_i p hp
    cases h
    have hle : p.symbol.toList.length ≤ (c :: s).length :=
      (List.isPrefixOf_iff_prefix.1 (Punct.isPrefixOf_of_ofText? hp)).length_le
    rw [← List.cons_append, List.drop_append_of_le_length hle]
  · cases h

/-! ## Sources -/

theorem Word.toToken_shift (w : Word) (delta offset : Nat) (trivia : Text) :
    w.toToken (offset + delta) trivia = (w.toToken offset trivia).relocate (· + delta) := by
  simp only [toToken, Token.relocate, Span.relocate, Nat.add_right_comm]

/-- The tokens of a text are the same ones wherever the text begins. -/
theorem lexFrom_shift (delta : Nat) {offset : Nat} {s : Text} {stream : TokenStream}
    (h : lexFrom offset s = .ok stream) :
    ∃ shifted, lexFrom (offset + delta) s = .ok shifted ∧
      shifted.tokens = stream.tokens.map (Token.relocate (· + delta)) := by
  induction hn : s.length using Nat.strongRecOn generalizing offset s stream with
  | ind n ih =>
    rcases lexFrom_cases h with ⟨trivia, hg, hnone⟩ | ⟨trivia, c, u, w, tail, hg, hw, hrest, hcons⟩
    · rw [lexFrom_end (gap_eq_ok_iff.2 (gap_eq_ok_iff.1 hg)), hnone]
      exact ⟨_, rfl, rfl⟩
    · have hlength : w.rest.length < n := by
        have hword := length_rest_of_word hw
        have hgap := congrArg List.length (append_of_gap hg)
        simp only [List.length_append] at hgap
        omega
      obtain ⟨shifted, hshifted, htokens⟩ := ih _ hlength hrest rfl
      have hw' := word_seam apart_nil delta hw
      simp only [List.append_nil, Nat.add_right_comm] at hw'
      rw [lexFrom_token (gap_eq_ok_iff.2 (gap_eq_ok_iff.1 hg)) hw', Word.toToken_shift, hcons]
      refine ⟨_, by rw [Token.span_relocate, Span.relocate, hshifted]; rfl, ?_⟩
      simp [htokens]

/-- A gap at the end of a source, and the end of a line behind it. -/
theorem IsGap.endLine {last : Bool} {trivia : Text} (h : IsGap true trivia) :
    IsGap last (trivia ++ ['\n']) := by
  induction h with
  | nil => exact .space (by decide) .nil
  | space hc _ ih => exact .space hc ih
  | line hb hc _ ih =>
    simp only [List.cons_append, List.append_assoc]
    exact .line hb hc ih
  | lastLine _ hb => exact .line hb (by decide) .nil
  | block hb _ ih =>
    simp only [List.cons_append, List.append_assoc]
    exact .block hb ih

theorem startsGap_seam {c d : Char} (hslash : d ≠ '/') (hstar : d ≠ '*') {s : Text}
    (h : startsGap (c :: s) = false) (t : Text) : startsGap (c :: (s ++ d :: t)) = false := by
  cases s with
  | nil => simpa [startsGap, hslash, hstar] using h
  | cons b s => exact h

/-- The tokens of a text, then a semicolon on a line of its own, then the tokens of the text behind
it. -/
theorem lexFrom_seam {offset : Nat} {s rest : Text} {stream tail : TokenStream}
    (h : lexFrom offset s = .ok stream) (hrest : lexFrom (offset + width s + 2) rest = .ok tail) :
    ∃ whole semicolon, semicolon.kind = .punct .semicolon ∧
      lexFrom offset (s ++ '\n' :: ';' :: rest) = .ok whole ∧
      whole.tokens = stream.tokens ++ semicolon :: tail.tokens := by
  have hline : Separates '\n' := separates_of_isSpace (by decide)
  induction hn : s.length using Nat.strongRecOn generalizing offset s stream with
  | ind n ih =>
    rcases lexFrom_cases h with ⟨trivia, hg, hnone⟩ | ⟨trivia, c, u, w, more, hg, hw, hmore, hcons⟩
    · obtain ⟨rfl, hgap, -⟩ := gap_eq_ok_iff.1 hg
      rw [List.append_nil] at hrest ⊢
      have hg' : gap offset .spaces (trivia ++ '\n' :: ';' :: rest) =
          .ok (trivia ++ ['\n'], ';' :: rest) := by
        have hline : IsGap false (trivia ++ ['\n']) := hgap.endLine
        have hread := gap_before hline (startsGap_semicolon rest) offset
        rwa [List.append_assoc] at hread
      have hplace : (Word.toToken ⟨.punct .semicolon, [';'], rest⟩ offset
          (trivia ++ ['\n'])).span.stop = offset + width trivia + 2 := by
        simp only [Word.toToken, width_append]
        rfl
      rw [lexFrom_token hg' (word_semicolon _ rest), hplace, hrest, hnone]
      exact ⟨_, _, rfl, rfl, rfl⟩
    · obtain ⟨rfl, hgap, hstop⟩ := gap_eq_ok_iff.1 hg
      have hg' : gap offset .spaces (trivia ++ c :: (u ++ '\n' :: ';' :: rest)) =
          .ok (trivia, c :: (u ++ '\n' :: ';' :: rest)) :=
        gap_before hgap (startsGap_seam (by decide) (by decide) hstop _) offset
      have hw' : word (offset + width trivia) c (u ++ '\n' :: ';' :: rest) =
          .ok { w with rest := w.rest ++ '\n' :: ';' :: rest } :=
        word_seam (apart_cons hline (';' :: rest)) 0 hw
      obtain ⟨hsplit, -⟩ := append_of_word hw
      have hlength : w.rest.length < n := by
        have hword := length_rest_of_word hw
        simp only [List.length_append] at hn
        omega
      -- the text behind the word ends where the whole text does
      have hrest' : lexFrom ((w.toToken offset trivia).span.stop + width w.rest + 2) rest =
          .ok tail := by
        have hwidth : (w.toToken offset trivia).span.stop + width w.rest =
            offset + width (trivia ++ c :: u) := by
          rw [← hsplit]
          simp [Word.toToken, Nat.add_assoc]
        rwa [hwidth]
      obtain ⟨whole, semicolon, hkind, hwhole, htokens⟩ := ih _ hlength hmore hrest' rfl
      have htoken : Word.toToken { w with rest := w.rest ++ '\n' :: ';' :: rest } offset trivia =
          w.toToken offset trivia := rfl
      rw [List.append_assoc, List.cons_append, lexFrom_token hg' hw', htoken, hwhole, hcons]
      exact ⟨_, semicolon, hkind, rfl, by simp [htokens]⟩

end Lexer

end BindingToggle
