import BindingToggle.Proofs.Literal
import BindingToggle.Proofs.Slices

/-!
# The tokens tile the source

Every character of a source that is split into tokens belongs to one token, or to the gap in front
of one, or to the gap at the end. The places that are recorded with the tokens say which.

* `Token.Tile` — one token: where it stands, what is written there, and that nothing but trivia
  stands between it and the token before.
* `TokenStream.TilesFrom` — the gaps and tokens follow each other without a hole, from a place up to
  the end of the source.
* `tilesFrom_lexFrom` — the tokens read from any place tile the source from there on; `lex_tiles` is
  the statement for whole sources.
-/

namespace BindingToggle

open Text

/-! ## Gaps and tokens in their places -/

/-- Nothing but trivia is written at a place. `last` says that the source ends behind it, and
`newline` whether a line ends in it. -/
def Lexer.IsGapAt (source : Text) (last : Bool) (place : Span) (newline : Bool) : Prop :=
  ∃ trivia, place.slice? source = some trivia ∧ IsGap last trivia ∧
    (newline = true ↔ ∃ c ∈ trivia, c = '\n' ∨ c = '\r' ∨ c = '\u2028' ∨ c = '\u2029')

/-- The place of the gap in front of the token. -/
def Token.gap (t : Token) : Span := ⟨t.fullStart, t.span.start⟩

/-- A token in its place, with the gap in front of it. -/
structure Token.Tile (source : Text) (t : Token) : Prop where
  gap_within : t.gap.Within source
  within : t.span.Within source
  gap : Lexer.IsGapAt source false t.gap t.newlineBefore
  text_ne_nil : t.text ≠ []
  slice : t.span.slice? source = some t.text
  escape : ∀ quote hasEscape, t.kind = .string quote hasEscape →
    (hasEscape = true ↔ '\\' ∈ t.text)

namespace TokenStream

/-- The place of the gap behind the last token. -/
def lastGap (s : TokenStream) : Span := ⟨s.endGap, s.stop⟩

/-- The tokens and the gaps of a source from `start` on. Each gap begins where the token before it
ends, the first one at `start`. -/
structure TilesFrom (source : Text) (start : Nat) (s : TokenStream) : Prop where
  joined : s.tokens.map (·.fullStart) ++ [s.endGap] = start :: s.tokens.map (·.span.stop)
  tile : ∀ t ∈ s.tokens, t.Tile source
  stop_eq : s.stop = width source
  lastGap_within : s.lastGap.Within source
  lastGap : Lexer.IsGapAt source true s.lastGap s.newlineBeforeEnd

end TokenStream

namespace Lexer

theorem any_isLineTerminator_iff (trivia : Text) :
    trivia.any isLineTerminator = true ↔
      ∃ c ∈ trivia, c = '\n' ∨ c = '\r' ∨ c = '\u2028' ∨ c = '\u2029' := by
  simp only [List.any_eq_true, isLineTerminator, Bool.or_eq_true, beq_iff_eq, or_assoc]

/-- A gap that has been read stands where the reading began. -/
theorem isGapAt_of_gap {before t trivia rest : Text}
    (h : gap (width before) .spaces t = .ok (trivia, rest)) :
    IsGapAt (before ++ t) rest.isEmpty ⟨width before, width before + width trivia⟩
      (trivia.any isLineTerminator) := by
  obtain ⟨rfl, hgap, -⟩ := gap_eq_ok_iff.1 h
  exact ⟨trivia, slice?_eq_some rfl rfl rfl, hgap, any_isLineTerminator_iff trivia⟩

theorem IsGapAt.within {source : Text} {last newline : Bool} {place : Span}
    (h : IsGapAt source last place newline) : place.Within source := by
  obtain ⟨trivia, hslice, -⟩ := h
  exact Span.within_of_slice? hslice

/-- A string is marked as escaped when there is a backslash in it. -/
theorem escape_of_word {offset : Nat} {c quote : Char} {t : Text} {w : Word} {hasEscape : Bool}
    (h : word offset c t = .ok w) (hkind : w.kind = .string quote hasEscape) :
    hasEscape = true ↔ '\\' ∈ w.text := by
  unfold word at h
  split at h
  · cases h
    cases hkind
  split at h
  · cases h
    cases hkind
  split at h
  · rename_i hquote
    split at h
    · cases h
    · rename_i hbody
      cases h
      obtain ⟨rfl, rfl⟩ := TokenKind.string.inj hkind
      -- the quote itself is no backslash
      have hne : c ≠ '\\' := by
        rintro rfl
        exact absurd hquote (by decide)
      rw [hasEscape_iff hne hbody, List.mem_cons]
      exact ⟨.inr, fun h => h.resolve_left (Ne.symm hne)⟩
  split at h
  · split at h
    · cases h
    · cases h
      cases hkind
  · split at h
    · cases h
      cases hkind
    · cases h

/-- A word behind a gap is a tile. -/
theorem tile_toToken {before t trivia u : Text} {c : Char} {w : Word}
    (hg : gap (width before) .spaces t = .ok (trivia, c :: u))
    (hw : word (width before + width trivia) c u = .ok w) :
    (w.toToken (width before) trivia).Tile (before ++ t) := by
  obtain ⟨htext, hne⟩ := append_of_word hw
  have hgap := isGapAt_of_gap hg
  have hslice : (w.toToken (width before) trivia).span.slice? (before ++ t) = some w.text := by
    refine slice?_eq_some (x := before ++ trivia) (z := w.rest) ?_ ?_ ?_
    · rw [← append_of_gap hg, ← htext, List.append_assoc]
    · simp [Word.toToken]
    · simp [Word.toToken]
  refine ⟨hgap.within, Span.within_of_slice? hslice, hgap, hne, hslice, ?_⟩
  intro quote hasEscape hkind
  exact escape_of_word hw hkind

/-- **The tokens that are read from a place tile the source from there on.** -/
theorem tilesFrom_lexFrom {before t : Text} {s : TokenStream}
    (h : lexFrom (width before) t = .ok s) : s.TilesFrom (before ++ t) (width before) := by
  -- by the length of the text: a gap and a token are read, and the tokens behind them tile the rest
  induction hn : t.length using Nat.strongRecOn generalizing before t s with
  | ind n ih =>
    subst hn
    rcases lexFrom_cases h with ⟨trivia, hg, -⟩ | ⟨trivia, c, u, w, s', hg, hw, hs, -⟩
    · rw [lexFrom_end hg] at h
      cases h
      have hgap := isGapAt_of_gap hg
      have htext : t = trivia := by simpa using (append_of_gap hg).symm
      refine ⟨rfl, by simp, ?_, hgap.within, hgap⟩
      show width before + width trivia = width (before ++ t)
      rw [htext, width_append]
    · rw [lexFrom_token hg hw, hs] at h
      cases h
      have htext := (append_of_word hw).1
      have hlen : w.rest.length < t.length := by
        have hrest := length_rest_of_word hw
        have ht := congrArg List.length (append_of_gap hg)
        rw [List.length_append] at ht
        omega
      have hstop : (w.toToken (width before) trivia).span.stop =
          width (before ++ (trivia ++ w.text)) := by
        simp only [Word.toToken, width_append]
        omega
      have hsource : before ++ t = (before ++ (trivia ++ w.text)) ++ w.rest := by
        simp only [← append_of_gap hg, ← htext, List.append_assoc]
      rw [hstop] at hs
      have htail := ih _ hlen hs rfl
      rw [← hsource] at htail
      refine ⟨?_, ?_, htail.stop_eq, htail.lastGap_within, htail.lastGap⟩
      · simp only [List.map_cons, List.cons_append, htail.joined, hstop]
        rfl
      · intro token htoken
        rcases List.mem_cons.1 htoken with rfl | htoken
        · exact tile_toToken hg hw
        · exact htail.tile token htoken

end Lexer

/-- **The tokens of a source tile it.** -/
theorem lex_tiles {source : Text} {s : TokenStream} (h : lex source = .ok s) :
    s.TilesFrom source 0 := by
  have htiles : s.TilesFrom ([] ++ source) (width []) := Lexer.tilesFrom_lexFrom h
  simpa using htiles

/-- A wide character, a line comment, a block comment with a line end, and an escaped quote. -/
theorem lex_tiles_commented :
    ∃ s, lex "é // x\n+/*\n*/'\\'' ".toList = .ok s ∧
      s.tokens.map (·.gap) = [⟨0, 0⟩, ⟨2, 8⟩, ⟨9, 14⟩] ∧
      s.TilesFrom "é // x\n+/*\n*/'\\'' ".toList 0 := by
  have hread : (lex "é // x\n+/*\n*/'\\'' ".toList).toOption.map (·.tokens.map (·.gap)) =
      some [⟨0, 0⟩, ⟨2, 8⟩, ⟨9, 14⟩] := by
    decide +kernel
  cases hlex : lex "é // x\n+/*\n*/'\\'' ".toList with
  | error e =>
    rw [hlex] at hread
    cases hread
  | ok s =>
    rw [hlex] at hread
    exact ⟨s, rfl, Option.some.inj hread, lex_tiles hlex⟩

end BindingToggle
