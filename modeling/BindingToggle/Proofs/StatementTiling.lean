import BindingToggle.Proofs.Spelling
import BindingToggle.Proofs.Tiling
import Mathlib.Data.List.Chain

/-!
# The statements tile the source

The tokens of a source follow each other without a hole, and the span of an expression goes from the
first of its tokens to the last. So the statements follow each other without a hole as well.

* `Spells.extent` — an expression stands where its tokens do, by induction on how they make it up.
* `TokenStream.TilesFrom.drop` — the tokens behind some others tile the source from there on.
* `ExpressionStatement.Tile` — an expression statement in its place, with the gap in front of it and
  the semicolon behind it, if there is one.
* `Statement.TileFrom` — statements that follow each other from a place up to the end of the source.
* `parseProgram_tiles` — the statements of a program.
-/

namespace BindingToggle

open Text

/-! ## Where the tokens of an expression stand -/

/-- The first of the tokens begins at an offset. -/
def BeginAt (ts : List Token) (n : Nat) : Prop := ts.head?.map (·.span.start) = some n

/-- The last of the tokens ends at an offset. -/
def EndAt (ts : List Token) (n : Nat) : Prop := ts.getLast?.map (·.span.stop) = some n

/-- The tokens begin and end where the span does. -/
structure Occupy (ts : List Token) (s : Span) : Prop where
  begin_at : BeginAt ts s.start
  end_at : EndAt ts s.stop

theorem beginAt_cons (t : Token) (ts : List Token) : BeginAt (t :: ts) t.span.start := rfl

theorem BeginAt.append {ts : List Token} {n : Nat} (h : BeginAt ts n) (us : List Token) :
    BeginAt (ts ++ us) n := by
  cases ts with
  | nil => cases h
  | cons t ts => exact h

theorem endAt_last (ts : List Token) (t : Token) : EndAt (ts ++ [t]) t.span.stop := by
  simp [EndAt]

theorem EndAt.append {us : List Token} {n : Nat} (h : EndAt us n) (ts : List Token) :
    EndAt (ts ++ us) n := by
  obtain ⟨t, ht, rfl⟩ := Option.map_eq_some_iff.1 h
  simp [EndAt, List.getLast?_append, ht]

theorem EndAt.cons {ts : List Token} {n : Nat} (h : EndAt ts n) (t : Token) :
    EndAt (t :: ts) n := h.append [t]

theorem occupy_singleton (t : Token) : Occupy [t] t.span := ⟨rfl, rfl⟩

theorem Enclosed.occupy {p : Punct} {used : List Token} {s : Span} (h : Enclosed p used s) :
    Occupy used s := by
  obtain ⟨-, -⟩ := h
  exact ⟨beginAt_cons _ _, (endAt_last _ _).cons _⟩

theorem SpellsName.end_at {used : List Token} {n : Name} (h : SpellsName used n) :
    EndAt used n.span.stop := by
  cases h <;> rfl

theorem SpellsHead.begin_at {used : List Token} {n : Nat} {s : Span} (h : SpellsHead used n s) :
    BeginAt used n := by
  cases h with
  | plain h => exact h.start_eq
  | async => exact beginAt_cons _ _

/-- Where the tokens of a phrase stand: those of an expression at its span, and those of further
expressions up to the end of the last one. -/
def Phrase.Extent (used : List Token) : Phrase → Prop
  | .expr e => Occupy used e.span
  | .more [] => used = []
  | .more (e :: es) => EndAt used (Inner.lastStop e es)
  | .item _ | .items _ => True

/-- **An expression stands where its tokens do.** -/
theorem Spells.extent {used : List Token} {p : Phrase} (h : Spells used p) : p.Extent used := by
  -- what comes first and what comes last among the tokens is a token of its own or a part, whose
  -- place is known by induction
  induction h with
  | string | number | template | identifier | keyword => exact occupy_singleton _
  | paren | array | object => exact ⟨beginAt_cons _ _, (endAt_last _ _).cons _⟩
  | new _ _ ihe => exact ⟨beginAt_cons _ _, ihe.end_at.cons _⟩
  | newWith => exact ⟨beginAt_cons _ _, (((endAt_last _ _).cons _).append _).cons _⟩
  | member _ _ hn ihe => exact ⟨ihe.begin_at.append _, (hn.end_at.cons _).append _⟩
  | index _ _ _ _ _ ihe | call _ _ _ _ _ ihe =>
    exact ⟨ihe.begin_at.append _, (((endAt_last _ _).cons _).append _).append _⟩
  | taggedTemplate _ _ ihe | stepAfter _ _ ihe =>
    exact ⟨ihe.begin_at.append _, endAt_last _ _⟩
  | unary _ _ ihe | stepBefore _ _ ihe | spread _ _ ihe =>
    exact ⟨beginAt_cons _ _, ihe.end_at.cons _⟩
  | binary _ _ _ ihe ihf | assign _ _ _ ihe ihf =>
    exact ⟨ihe.begin_at.append _, (ihf.end_at.cons _).append _⟩
  | conditional _ _ _ _ _ ihe _ ihg =>
    exact ⟨ihe.begin_at.append _, (((ihg.end_at.cons _).append _).cons _).append _⟩
  | sequence _ _ ihe ihfs => exact ⟨ihe.begin_at.append _, EndAt.append ihfs _⟩
  | arrow hh _ _ ihe => exact ⟨hh.begin_at.append _, (ihe.end_at.cons _).append _⟩
  | arrowBlock hh _ hb => exact ⟨hh.begin_at.append _, (hb.occupy.end_at.cons _).append _⟩
  | moreNil => rfl
  | @moreCons comma used rest e es _ _ _ ihe ihes =>
    cases es with
    | nil =>
      have hrest : rest = [] := ihes
      rw [hrest, List.append_nil]
      exact ihe.end_at.cons _
    | cons f fs => exact (EndAt.append ihes used).cons comma
  | item | keyed | computed | itemsNil | hole | itemsLast | itemsCons => trivial

/-! ## Tokens behind others -/

/-- The first token begins where the tiling does, and those behind it tile the rest. -/
theorem TokenStream.TilesFrom.tail {source : Text} {start : Nat} {s : TokenStream} {t : Token}
    {ts : List Token} (h : TilesFrom source start { s with tokens := t :: ts }) :
    t.fullStart = start ∧ TilesFrom source t.span.stop { s with tokens := ts } := by
  obtain ⟨hstart, hjoined⟩ := List.cons.inj h.joined
  refine ⟨hstart, hjoined, ?_, h.stop_eq, h.lastGap_within, h.lastGap⟩
  intro u hu
  exact h.tile u (List.mem_cons_of_mem t hu)

theorem TokenStream.TilesFrom.drop {source : Text} {start stop : Nat} {s : TokenStream}
    {used ts : List Token} (h : TilesFrom source start { s with tokens := used ++ ts })
    (hused : EndAt used stop) : TilesFrom source stop { s with tokens := ts } := by
  induction used generalizing start with
  | nil => cases hused
  | cons t used ih =>
    obtain ⟨-, htail⟩ := h.tail
    cases used with
    | nil =>
      obtain rfl : t.span.stop = stop := Option.some.inj hused
      exact htail
    | cons u used => exact ih htail hused

theorem Token.Tile.start_lt_stop {source : Text} {t : Token} (h : t.Tile source) :
    t.span.start < t.span.stop := by
  obtain ⟨before, -, -, hstart, hstop⟩ := append_of_slice? h.slice
  have hwidth : width t.text ≠ 0 := fun hzero => h.text_ne_nil (width_eq_zero_iff.1 hzero)
  omega

theorem Lexer.text_of_word {offset : Nat} {c : Char} {t : Text} {w : Word} {p : Punct}
    (h : word offset c t = .ok w) (hk : w.kind = .punct p) : w.text = p.symbol.toList := by
  unfold word at h
  split at h
  · cases h
    cases hk
  split at h
  · cases h
    cases hk
  split at h
  · split at h <;> cases h
    cases hk
  split at h
  · split at h <;> cases h
    cases hk
  split at h
  · cases h
    cases hk
    rfl
  · cases h

/-- The text of a punctuator is its spelling. -/
theorem Lexer.text_of_punct {offset : Nat} {t : Text} {s : TokenStream}
    (h : lexFrom offset t = .ok s) {token : Token} (hmem : token ∈ s.tokens) {p : Punct}
    (hk : token.kind = .punct p) : token.text = p.symbol.toList := by
  induction hn : t.length using Nat.strongRecOn generalizing offset t s with
  | ind n ih =>
    subst hn
    rcases lexFrom_cases h with ⟨trivia, -, htokens⟩ | ⟨trivia, c, u, w, s', hg, hw, hs, htokens⟩
    · rw [htokens] at hmem
      cases hmem
    · rw [htokens] at hmem
      rcases List.mem_cons.1 hmem with rfl | hmem
      · exact text_of_word hw hk
      · have hrest := length_rest_of_word hw
        have ht := congrArg List.length (append_of_gap hg)
        rw [List.length_append] at ht
        exact ih _ (by omega) hs hmem rfl

/-! ## Statements in their places -/

/-- An expression statement in its place. -/
structure ExpressionStatement.Tile (source : Text) (s : ExpressionStatement) : Prop where
  start_eq : s.expr.span.start = s.pos + s.gapWidth
  gap : ∃ newline, Lexer.IsGapAt source false ⟨s.pos, s.expr.span.start⟩ newline
  /-- The statement ends with its expression, or behind it comes a gap and a semicolon. -/
  ending : s.stop = s.expr.span.stop ∨
    ∃ semicolon newline, Lexer.IsGapAt source false ⟨s.expr.span.stop, semicolon⟩ newline ∧
      slice? source semicolon s.stop = some [';']

namespace Statement

/-- Where a statement begins, in front of its gap. -/
def pos : Statement → Nat
  | expression s => s.pos
  | empty pos _ => pos

/-- Where a statement ends, behind its semicolon if it has one. -/
def stop : Statement → Nat
  | expression s => s.stop
  | empty _ span => span.stop

/-- A statement in its place. -/
inductive Tile (source : Text) : Statement → Prop
  | expression {s : ExpressionStatement} (h : s.Tile source) : Tile source (.expression s)
  | empty {pos : Nat} {span : Span} {newline : Bool}
      (hgap : Lexer.IsGapAt source false ⟨pos, span.start⟩ newline)
      (hspan : span.slice? source = some [';']) : Tile source (.empty pos span)

/-- An expression that no semicolon ends stands on another line than the one behind it. -/
def Separated (source : Text) : Statement → Statement → Prop
  | expression s, expression t => s.stop = s.expr.span.stop →
      Lexer.IsGapAt source false ⟨t.pos, t.expr.span.start⟩ true
  | _, _ => True

/-- Statements that follow each other from `start` on: each begins where the one before it ends, and
there is nothing but a gap between the last one and the end of the source. -/
structure TileFrom (source : Text) (start : Nat) (ss : List Statement) : Prop where
  joined : ∃ endGap newline, ss.map pos ++ [endGap] = start :: ss.map stop ∧
    Lexer.IsGapAt source true ⟨endGap, width source⟩ newline
  tile : ∀ s ∈ ss, s.Tile source
  separated : ss.IsChain (Separated source)

theorem tileFrom_nil {source : Text} {start : Nat} {s : TokenStream}
    (h : TokenStream.TilesFrom source start { s with tokens := [] }) :
    TileFrom source start [] := by
  refine ⟨⟨s.endGap, s.newlineBeforeEnd, h.joined, ?_⟩, by simp, .nil⟩
  rw [← h.stop_eq]
  exact h.lastGap

theorem TileFrom.cons {source : Text} {s : Statement} {ss : List Statement} (hs : s.Tile source)
    (hss : TileFrom source s.stop ss) (hnext : ∀ t ∈ ss.head?, Separated source s t) :
    TileFrom source s.pos (s :: ss) := by
  obtain ⟨endGap, newline, hjoined, hgap⟩ := hss.joined
  refine ⟨⟨endGap, newline, ?_, hgap⟩, ?_, ?_⟩
  · rw [List.map_cons, List.map_cons, List.cons_append, hjoined]
  · intro t ht
    rcases List.mem_cons.1 ht with rfl | ht
    · exact hs
    · exact hss.tile t ht
  · exact List.isChain_cons.2 ⟨hnext, hss.separated⟩

end Statement

/-- The expression of a statement begins where its first token does. -/
theorem tile_expression {source : Text} {first : Token} {used : List Token} {e : Expr} {stop : Nat}
    (htile : first.Tile source) (he : Spells (first :: used) (.expr e))
    (hending : stop = e.span.stop ∨
      ∃ semicolon newline, Lexer.IsGapAt source false ⟨e.span.stop, semicolon⟩ newline ∧
        slice? source semicolon stop = some [';']) :
    (ExpressionStatement.of first e stop).Tile source := by
  have hstart : first.span.start = e.span.start := Option.some.inj he.extent.begin_at
  refine ⟨?_, ⟨first.newlineBefore, ?_⟩, hending⟩
  · have hle : first.fullStart ≤ first.span.start := htile.gap_within.ordered
    show e.span.start = first.fullStart + (first.span.start - first.fullStart)
    omega
  · show Lexer.IsGapAt source false ⟨first.fullStart, e.span.start⟩ _
    rw [← hstart]
    exact htile.gap

/-- Where the tokens of an expression come first, the tiling begins with the first of them, and goes on
behind the expression. -/
theorem TokenStream.TilesFrom.expression {source : Text} {start : Nat} {s : TokenStream}
    {first : Token} {used ts : List Token} {e : Expr}
    (h : TilesFrom source start { s with tokens := first :: (used ++ ts) })
    (he : Spells (first :: used) (.expr e)) :
    first.fullStart = start ∧ first.Tile source ∧
      TilesFrom source e.span.stop { s with tokens := ts } :=
  ⟨h.tail.1, h.tile first List.mem_cons_self, h.drop he.extent.end_at⟩

/-- The gap in front of a statement is that in front of its first token. -/
theorem SpellsProgram.head {t : Token} {ts : List Token} {s : ExpressionStatement}
    {ss : List Statement} (h : SpellsProgram (t :: ts) (.expression s :: ss)) :
    (⟨s.pos, s.expr.span.start⟩ : Span) = t.gap := by
  have hgap : ∀ {e : Expr} {used : List Token}, Spells (t :: used) (.expr e) →
      (⟨t.fullStart, e.span.start⟩ : Span) = t.gap := by
    intro e used he
    rw [Token.gap, show t.span.start = e.span.start from Option.some.inj he.extent.begin_at]
  cases h with
  | last he => exact hgap he
  | ended he => exact hgap he
  | broken he => exact hgap he

/-- **Statements whose tokens tile the source tile it too.** -/
theorem SpellsProgram.tileFrom {source : Text} {start : Nat} {s : TokenStream} {ts : List Token}
    {ss : List Statement} (h : SpellsProgram ts ss)
    (htiles : TokenStream.TilesFrom source start { s with tokens := ts })
    (htext : ∀ t ∈ ts, t.kind = .punct .semicolon → t.text = [';']) :
    Statement.TileFrom source start ss := by
  induction h generalizing start with
  | nil => exact Statement.tileFrom_nil htiles
  | @empty t ts ss hk _ ih =>
    obtain ⟨rfl, htail⟩ := htiles.tail
    have htile := htiles.tile t List.mem_cons_self
    have hrest := ih htail fun u hu => htext u (List.mem_cons_of_mem t hu)
    refine Statement.TileFrom.cons (.empty htile.gap ?_) hrest fun _ _ => trivial
    rw [← htext t List.mem_cons_self hk]
    exact htile.slice
  | @last first used e he =>
    rw [← List.append_nil used] at htiles
    obtain ⟨rfl, htile, hbehind⟩ := htiles.expression he
    refine Statement.TileFrom.cons (.expression (tile_expression htile he (.inl rfl)))
      (Statement.tileFrom_nil hbehind) ?_
    intro u hu
    cases hu
  | @ended first t used ts e ss he hk _ ih =>
    obtain ⟨rfl, htile, hbehind⟩ := htiles.expression he
    obtain ⟨hfull, htail⟩ := hbehind.tail
    have hsemicolon := hbehind.tile t List.mem_cons_self
    have hmem : ∀ u ∈ t :: ts, u ∈ first :: (used ++ t :: ts) := by
      intro u hu
      exact List.mem_cons_of_mem _ (List.mem_append_right _ hu)
    have hrest := ih htail fun u hu => htext u (hmem u (List.mem_cons_of_mem t hu))
    refine Statement.TileFrom.cons (.expression (tile_expression htile he (.inr ?_))) hrest ?_
    · refine ⟨t.span.start, t.newlineBefore, ?_, ?_⟩
      · rw [← hfull]
        exact hsemicolon.gap
      · rw [← htext t (hmem t List.mem_cons_self) hk]
        exact hsemicolon.slice
    · -- a semicolon ends behind the expression
      intro u _
      cases u with
      | empty => trivial
      | expression u =>
        intro hstop
        have hstop : t.span.stop = e.span.stop := hstop
        have hle : t.fullStart ≤ t.span.start := hsemicolon.gap_within.ordered
        have hlt := hsemicolon.start_lt_stop
        omega
  | @broken first t used ts e ss he hnewline hss ih =>
    obtain ⟨rfl, htile, hbehind⟩ := htiles.expression he
    have hrest := ih hbehind fun u hu =>
      htext u (List.mem_cons_of_mem _ (List.mem_append_right _ hu))
    refine Statement.TileFrom.cons (.expression (tile_expression htile he (.inl rfl))) hrest ?_
    -- the next statement begins with the token in front of which the line ends
    intro u hu
    obtain ⟨us, rfl⟩ := List.head?_eq_some_iff.1 hu
    cases u with
    | empty => trivial
    | expression u =>
      intro _
      rw [hss.head, ← hnewline]
      exact (hbehind.tile t List.mem_cons_self).gap

/-- **The statements of a program tile its source.** -/
theorem parseProgram_tiles {source : Text} {ss : List Statement}
    (h : parseProgram source = .ok ss) : Statement.TileFrom source 0 ss := by
  unfold parseProgram at h
  cases hlex : lex source with
  | error e =>
    rw [hlex] at h
    cases h
  | ok s =>
    rw [hlex] at h
    have htiles : s.TilesFrom ([] ++ source) (width []) := Lexer.tilesFrom_lexFrom hlex
    exact (statements_spells h).tileFrom (s := s) htiles fun t ht hk =>
      Lexer.text_of_punct hlex ht hk

/-- A line end behind a comment, an arrow function, a sequence with a semicolon, and a lone one. -/
theorem parseProgram_tiles_lines :
    ∃ ss, parseProgram "é // x\na => {[b]}, c /**/;; d".toList = .ok ss ∧
      ss.map (fun s => (s.pos, s.stop)) = [(0, 2), (2, 27), (27, 28), (28, 30)] ∧
      Statement.TileFrom "é // x\na => {[b]}, c /**/;; d".toList 0 ss := by
  have hread : (parseProgram "é // x\na => {[b]}, c /**/;; d".toList).toOption.map
      (·.map fun s => (s.pos, s.stop)) = some [(0, 2), (2, 27), (27, 28), (28, 30)] := by
    decide +kernel
  cases hparse : parseProgram "é // x\na => {[b]}, c /**/;; d".toList with
  | error e =>
    rw [hparse] at hread
    cases hread
  | ok ss =>
    rw [hparse] at hread
    exact ⟨ss, rfl, Option.some.inj hread, parseProgram_tiles hparse⟩

end BindingToggle
