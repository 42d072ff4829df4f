import BindingToggle.Proofs.Subexpressions

/-!
# Where the nodes of a tree stand

The span of a node is computed in different ways: from the tokens around it, from its parts, or from
what was read last. Whichever it is, it goes from the first token of the node to the last, and the
tokens of a source stand one behind the other. So the spans of a tree are nested as its nodes are.

* `InLine` — tokens that stand one behind the other, none of them empty; the tokens of a source do
  (`TokenStream.TilesFrom.inLine`).
* `InOrder.inRow` — what such tokens hold one behind the other has spans in a row.
* `Expr.Spanned` — a node in its place, with everything that stands directly in it.
* `parseProgram_spanned` — every node of every expression of a program is in its place.
-/

namespace BindingToggle

open Text

namespace Expr

/-- The places of what stands directly in an expression: its parts, the name of a property, the
parameters and the body of an arrow function. -/
def partSpans : Expr → List Span
  | member e name .. => [e.span, name.span]
  | arrow params body _ => [params, body]
  | e => e.parts.map span

/-- The text that a literal or a word keeps of the source. -/
def storedText? : Expr → Option Text
  | string raw .. | number raw _ | template raw .. => some raw
  | identifier name | keyword name => some name.text
  | _ => none

/-- An expression in its place, among the tokens of the source. -/
structure Spanned (source : Text) (tokens : List Token) (e : Expr) : Prop where
  nonempty : e.span.start < e.span.stop
  starts : ∃ t ∈ tokens, t.span.start = e.span.start
  ends : ∃ t ∈ tokens, t.span.stop = e.span.stop
  /-- What stands in the expression stands inside of its span, one behind the other. -/
  parts : Span.InRow e.span.start e.span.stop e.partSpans
  text : ∀ raw, e.storedText? = some raw → e.span.slice? source = some raw

end Expr

/-! ## Tokens in line -/

/-- Tokens that stand one behind the other, none of them empty. -/
structure InLine (ts : List Token) : Prop where
  ordered : (ts.map (·.span)).Pairwise Span.Precedes
  proper : ∀ t ∈ ts, t.span.start < t.span.stop

theorem InLine.mono {ts us : List Token} (h : InLine ts) (hu : us <:+: ts) : InLine us :=
  ⟨h.ordered.sublist (hu.sublist.map _), fun t ht => h.proper t (hu.subset ht)⟩

/-- The tokens that tile a source from a place on stand in line behind that place. -/
theorem TokenStream.TilesFrom.inLine {source : Text} {start : Nat} {s : TokenStream}
    {ts : List Token} (h : TilesFrom source start { s with tokens := ts }) :
    InLine ts ∧ ∀ t ∈ ts, start ≤ t.span.start := by
  induction ts generalizing start with
  | nil => exact ⟨⟨.nil, by simp⟩, by simp⟩
  | cons t ts ih =>
    obtain ⟨hfull, htail⟩ := h.tail
    obtain ⟨hline, hbehind⟩ := ih htail
    have htile := h.tile t List.mem_cons_self
    have hproper := htile.start_lt_stop
    have hstart : start ≤ t.span.start := by
      have hgap : t.fullStart ≤ t.span.start := htile.gap_within.ordered
      omega
    refine ⟨⟨?_, ?_⟩, ?_⟩
    · refine List.pairwise_cons.2 ⟨?_, hline.ordered⟩
      intro place hplace
      obtain ⟨u, hu, rfl⟩ := List.mem_map.1 hplace
      exact hbehind u hu
    · intro u hu
      rcases List.mem_cons.1 hu with rfl | hu
      · exact hproper
      · exact hline.proper u hu
    · intro u hu
      rcases List.mem_cons.1 hu with rfl | hu
      · exact hstart
      · have := hbehind u hu
        omega

section Occupied

variable {ts : List Token} {s : Span}

theorem Occupy.exists_first (h : Occupy ts s) : ∃ t ∈ ts, t.span.start = s.start := by
  obtain ⟨t, ht, hstart⟩ := Option.map_eq_some_iff.1 h.begin_at
  exact ⟨t, List.mem_of_mem_head? ht, hstart⟩

theorem Occupy.exists_last (h : Occupy ts s) : ∃ t ∈ ts, t.span.stop = s.stop := by
  obtain ⟨t, ht, hstop⟩ := Option.map_eq_some_iff.1 h.end_at
  exact ⟨t, List.mem_of_mem_getLast? ht, hstop⟩

/-- Tokens in line stand inside of the span that they occupy. -/
theorem Occupy.bounds (h : Occupy ts s) (hline : InLine ts) {t : Token} (ht : t ∈ ts) :
    s.start ≤ t.span.start ∧ t.span.stop ≤ s.stop := by
  constructor
  · obtain ⟨first, hfirst, hstart⟩ := Option.map_eq_some_iff.1 h.begin_at
    obtain ⟨others, rfl⟩ := List.head?_eq_some_iff.1 hfirst
    rw [← hstart]
    rcases List.mem_cons.1 ht with rfl | ht
    · exact Nat.le_refl _
    · have hproper := hline.proper first List.mem_cons_self
      have hnext := (List.pairwise_cons.1 hline.ordered).1 _ (List.mem_map_of_mem ht)
      exact Nat.le_trans (Nat.le_of_lt hproper) hnext
  · obtain ⟨last, hlast, hstop⟩ := Option.map_eq_some_iff.1 h.end_at
    obtain ⟨others, rfl⟩ := List.getLast?_eq_some_iff.1 hlast
    rw [← hstop]
    rcases List.mem_append.1 ht with hother | hlast
    · have hproper := hline.proper last (by simp)
      have hordered := hline.ordered
      rw [List.map_append] at hordered
      have hnext := (List.pairwise_append.1 hordered).2.2 _ (List.mem_map_of_mem hother)
        last.span (by simp)
      exact Nat.le_trans hnext (Nat.le_of_lt hproper)
    · rw [List.mem_singleton.1 hlast]

theorem Occupy.start_lt_stop (h : Occupy ts s) (hline : InLine ts) : s.start < s.stop := by
  obtain ⟨t, ht, hstart⟩ := h.exists_first
  have hproper := hline.proper t ht
  have hbounds := h.bounds hline ht
  omega

/-- What tokens in line hold one behind the other stands one behind the other. -/
theorem InOrder.precedes {spans : List Span} (h : InOrder Occupy ts spans) (hline : InLine ts) :
    spans.Pairwise Span.Precedes := by
  induction h with
  | nil => exact .nil
  | skip t _ ih => exact ih (hline.mono (List.suffix_cons t _).isInfix)
  | @next used ts s spans hs h ih =>
    refine List.pairwise_cons.2 ⟨?_, ih (hline.mono (List.suffix_append used ts).isInfix)⟩
    intro s' hs'
    -- the last token of the one comes before the first token of the other
    obtain ⟨used', hin, hused'⟩ := h.exists_tokens hs'
    obtain ⟨last, hlast, hstop⟩ := hs.exists_last
    obtain ⟨first, hfirst, hstart⟩ := hused'.exists_first
    have hordered := hline.ordered
    rw [List.map_append] at hordered
    have hnext := (List.pairwise_append.1 hordered).2.2 _ (List.mem_map_of_mem hlast) _
      (List.mem_map_of_mem (hin.subset hfirst))
    rw [Span.Precedes, hstop, hstart] at hnext
    exact hnext

/-- **What tokens in line hold** stands in a row inside of the span that they occupy. -/
theorem InOrder.inRow {spans : List Span} (h : InOrder Occupy ts spans) (hline : InLine ts)
    (hs : Occupy ts s) : Span.InRow s.start s.stop spans := by
  refine ⟨h.precedes hline, ?_⟩
  intro s' hs'
  obtain ⟨used, hin, hused⟩ := h.exists_tokens hs'
  obtain ⟨first, hfirst, hstart⟩ := hused.exists_first
  obtain ⟨last, hlast, hstop⟩ := hused.exists_last
  have hproper := hused.start_lt_stop (hline.mono hin)
  have hlow := (hs.bounds hline (hin.subset hfirst)).1
  have hhigh := (hs.bounds hline (hin.subset hlast)).2
  omega

end Occupied

/-! ## Nodes in their places -/

theorem SpellsName.occupy {used : List Token} {n : Name} (h : SpellsName used n) :
    Occupy used n.span := by
  cases h <;> exact ⟨rfl, rfl⟩

theorem SpellsParams.occupy {used : List Token} {s : Span} (h : SpellsParams used s) :
    Occupy used s := by
  cases h with
  | word => exact occupy_singleton _
  | list h => exact h.occupy

theorem SpellsHead.inOrder {used : List Token} {start : Nat} {params : Span}
    (h : SpellsHead used start params) : InOrder Occupy used [params] := by
  cases h with
  | plain h => exact .single h.occupy
  | async _ h => exact .skip _ (.single h.occupy)

/-- The tokens of an expression hold those of all that stands directly in it. -/
theorem Spells.partSpans {used : List Token} {e : Expr} (h : SpellsExpr used e) :
    InOrder Occupy used e.partSpans := by
  have hparts : InOrder Occupy used (e.parts.map Expr.span) :=
    h.inOrder.map fun _ _ hpart => hpart.extent
  cases h with
  | member he _ hn => exact .next he.extent (.skip _ (.single hn.occupy))
  | arrow hh _ he => exact hh.inOrder.append (.skip _ (.single he.extent))
  | arrowBlock hh _ hb => exact hh.inOrder.append (.skip _ (.single hb.occupy))
  | _ => exact hparts

/-- A literal or a word is one token, whose text it keeps. -/
theorem Spells.storedText {used : List Token} {e : Expr} {raw : Text} (h : SpellsExpr used e)
    (hraw : e.storedText? = some raw) : ∃ t ∈ used, t.span = e.span ∧ t.text = raw := by
  cases h with
  | string | number | template | identifier | keyword =>
    exact ⟨_, List.mem_singleton_self _, rfl, Option.some.inj hraw⟩
  | _ => cases hraw

/-- The node that the tokens of a source stand for is in its place. -/
theorem Spells.spanned {source : Text} {start : Nat} {s : TokenStream} {used : List Token}
    {e : Expr} (htiles : s.TilesFrom source start) (hused : used <:+: s.tokens)
    (h : SpellsExpr used e) : e.Spanned source s.tokens := by
  have hoccupy : Occupy used e.span := h.extent
  have hline : InLine used := InLine.mono (TokenStream.TilesFrom.inLine htiles).1 hused
  refine ⟨hoccupy.start_lt_stop hline, ?_, ?_, h.partSpans.inRow hline hoccupy, ?_⟩
  · obtain ⟨t, ht, hstart⟩ := hoccupy.exists_first
    exact ⟨t, hused.subset ht, hstart⟩
  · obtain ⟨t, ht, hstop⟩ := hoccupy.exists_last
    exact ⟨t, hused.subset ht, hstop⟩
  · intro raw hraw
    obtain ⟨t, ht, hspan, rfl⟩ := h.storedText hraw
    rw [← hspan]
    exact (htiles.tile t (hused.subset ht)).slice

/-- A program is read from the tokens of its source, which tile it. -/
theorem tiles_of_parseProgram {source : Text} {ss : List Statement}
    (h : parseProgram source = .ok ss) :
    ∃ s, lex source = .ok s ∧ s.TilesFrom source 0 ∧ SpellsProgram s.tokens ss := by
  unfold parseProgram at h
  cases hlex : lex source with
  | error e =>
    rw [hlex] at h
    cases h
  | ok s =>
    rw [hlex] at h
    have htiles : s.TilesFrom ([] ++ source) (width []) := Lexer.tilesFrom_lexFrom hlex
    exact ⟨s, rfl, by simpa using htiles, statements_spells h⟩

/-- **The nodes of a program are in their places**: each goes from the start of a token to the end
of one, holds what stands in it one behind the other, and keeps the text that is written there. -/
theorem parseProgram_spanned {source : Text} {ss : List Statement}
    (h : parseProgram source = .ok ss) :
    ∃ stream, lex source = .ok stream ∧ ∀ s, .expression s ∈ ss → ∀ e : Expr, e.OccursIn s.expr →
      e.Spanned source stream.tokens := by
  obtain ⟨stream, hlex, htiles, hspells⟩ := tiles_of_parseProgram h
  refine ⟨stream, hlex, ?_⟩
  intro s hs e he
  obtain ⟨used, hused, hnode⟩ := hspells.of_occursIn hs he
  exact hnode.spanned htiles hused

/-- The expression of a statement, if there is one. -/
def Statement.expr? : Statement → Option Expr
  | expression s => some s.expr
  | empty .. => none

/-- A property behind a hash, and an arrow function with a block: the node is the arrow function,
which is an argument of a call. -/
theorem parseProgram_spanned_arrow :
    ∃ ss s stream, ∃ e : Expr, parseProgram "o.# p(async x => {y})".toList = .ok ss ∧
      .expression s ∈ ss ∧ e ∈ s.expr.parts ∧ e.partSpans = [⟨12, 13⟩, ⟨17, 20⟩] ∧
      lex "o.# p(async x => {y})".toList = .ok stream ∧
      e.Spanned "o.# p(async x => {y})".toList stream.tokens := by
  have hread : (parseProgram "o.# p(async x => {y})".toList).toOption.map
      (·.map fun st => st.expr?.map fun e => e.parts.map Expr.partSpans) =
        some [some [[⟨0, 1⟩, ⟨2, 5⟩], [⟨12, 13⟩, ⟨17, 20⟩]]] := by
    decide +kernel
  cases hparse : parseProgram "o.# p(async x => {y})".toList with
  | error e =>
    rw [hparse] at hread
    cases hread
  | ok ss =>
    rw [hparse] at hread
    obtain ⟨st, rfl, hparts⟩ := List.map_eq_singleton_iff.1 (Option.some.inj hread)
    obtain ⟨stream, hlex, hspanned⟩ := parseProgram_spanned hparse
    cases st with
    | empty => cases hparts
    | expression s =>
      have hparts : s.expr.parts.map Expr.partSpans =
          [[⟨0, 1⟩, ⟨2, 5⟩], [⟨12, 13⟩, ⟨17, 20⟩]] := Option.some.inj hparts
      have hmem : [⟨12, 13⟩, ⟨17, 20⟩] ∈ s.expr.parts.map Expr.partSpans := by
        rw [hparts]
        decide
      obtain ⟨e, he, hspans⟩ := List.mem_map.1 hmem
      have hs := List.mem_singleton_self (Statement.expression s)
      exact ⟨_, s, stream, e, rfl, hs, he, hspans, hlex, hspanned s hs e (.inside he .whole)⟩

end BindingToggle
