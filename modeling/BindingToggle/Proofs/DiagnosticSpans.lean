import BindingToggle.Component.Basic
import BindingToggle.Proofs.BlockSearch
import BindingToggle.Proofs.Fragments
import BindingToggle.Proofs.Moves
import BindingToggle.Proofs.Rewriting

/-!
# Diagnostics point at their cause

An issue of a template is found at a place of the template, often long after the text that causes it
was read, and is then moved to its place in the document. The text that a diagnostic points at is
still the one that its wording is about.

* `Builder.Move.shown`, `shown_parseTemplate` — what holds of the issues of a forest is handed on by
  every move, so the issues of a template are shown by what stands at their spans.
* `IsTemplateTag`, `Finds.exists_tag` — what stands between the place where a template block begins
  and the place where its content does.
* `Diagnostic.PointsAt` — for each code, the wording of a diagnostic and the text it points at.
* `diagnostics_pointAt` — every diagnostic of a document is one of these.
-/

namespace BindingToggle

open Text Markup

/-! ## The issues of a template -/

/-- A move reports only what is shown. -/
theorem Builder.Move.shown {source : Text} {b b' : Builder} (h : Move source b b')
    (hb : ∀ i ∈ b.issues, i.Shown source) : ∀ i ∈ b'.issues, i.Shown source := by
  cases h with
  | report hi _ => exact List.forall_mem_cons.2 ⟨hi, hb⟩
  | leaf _ _ =>
    rw [issues_add]
    exact hb
  | cutOff hi =>
    rw [issues_add]
    exact List.forall_mem_cons.2 ⟨hi, hb⟩
  | opening => exact hb
  | abandon hs ho =>
    rw [issues_abandon hs]
    exact List.forall_mem_cons.2 ⟨ho.shown_unclosed, hb⟩
  | close _ _ _ _ _ =>
    rw [issues_close]
    exact hb

/-- **The issues of a template** are shown by what stands at their spans. -/
theorem shown_parseTemplate (source : Text) :
    ∀ i ∈ (parseTemplate source).issues, i.Shown source := by
  suffices hmoves : ∀ b, Builder.Moves source .empty b → ∀ i ∈ b.issues, i.Shown source by
    intro i hi
    exact hmoves _ (moves_parseTemplate source) i (List.mem_reverse.2 hi)
  intro b hb
  induction hb with
  | refl => exact fun i hi => nomatch hi
  | tail _ hmove ih => exact hmove.shown ih

/-! ## The start tag of a template block -/

namespace Block

/-- The start tag of a template in front of a text. A tag that does not end goes up to the end of
the document. -/
inductive IsTemplateTag : Text → Text → Prop
  | complete {name attributes rest : Text} (hname : eqFolded name templateName = true)
      (ha : IsAttributes attributes) : IsTemplateTag (openTag name attributes) rest
  | cutOff {name attributes : Text} (hname : eqFolded name templateName = true)
      (hend : atNameEnd attributes = true) (hopen : (splitTag none attributes).2 = none) :
      IsTemplateTag ('<' :: (name ++ attributes)) []

/-- Up to its end, a tag has no `>` outside of quotes. Inside of a quote, this is so from the
closing quote on. -/
theorem tagText_of_splitTag (t : Text) :
    (∀ a r, splitTag none t = (a, some r) → IsTagText a) ∧
      ∀ q a r, splitTag (some q) t = (a, some r) →
        ∃ content b, a = content ++ q :: b ∧ q ∉ content ∧ IsTagText b := by
  induction t with
  | nil => simp [splitTag]
  | cons c t ih =>
    obtain ⟨ihnone, ihsome⟩ := ih
    constructor
    · intro a r h
      by_cases hend : c = '>'
      · obtain ⟨rfl, -⟩ : [] = a ∧ t = r := by simpa [splitTag, hend] using h
        exact .nil
      · simp only [splitTag, if_neg hend, Prod.mk.injEq] at h
        obtain ⟨rfl, hr⟩ := h
        by_cases hquote : c = '"' ∨ c = '\''
        · rw [if_pos hquote] at hr ⊢
          obtain ⟨content, b, hb, hcontent, ht⟩ := ihsome c _ r (Prod.ext rfl hr)
          have hquoted := IsTagText.quoted hquote hcontent ht
          rwa [← hb] at hquoted
        · rw [if_neg hquote] at hr ⊢
          exact .char hend (not_or.1 hquote) (ihnone _ r (Prod.ext rfl hr))
    · intro q a r h
      simp only [splitTag, Prod.mk.injEq] at h
      obtain ⟨rfl, hr⟩ := h
      by_cases hc : c = q
      · rw [if_pos hc] at hr ⊢
        exact ⟨[], _, by rw [hc]; rfl, List.not_mem_nil, ihnone _ r (Prod.ext rfl hr)⟩
      · rw [if_neg hc] at hr ⊢
        obtain ⟨content, b, hb, hcontent, ht⟩ := ihsome q _ r (Prod.ext rfl hr)
        refine ⟨c :: content, b, congrArg (c :: ·) hb, ?_, ht⟩
        exact List.not_mem_cons_of_ne_of_not_mem (Ne.symm hc) hcontent

/-- The search ends in front of a tag with the name of the template. -/
theorem Finds.named {c here : Cursor} (h : Finds c here) :
    (∃ t, here.rest = '<' :: t) ∧ eqFolded (tagName here) templateName = true := by
  induction h with
  | comment _ _ _ ih => exact ih
  | block _ _ _ ih => exact ih
  | other _ _ ih => exact ih
  | @template c hm hname _ =>
    refine ⟨?_, hname⟩
    rcases atMark_rest_nextMark c with hr | hr
    · rw [searchMark, if_pos hr] at hm
      cases hm
    · exact List.head?_eq_some_iff.1 hr

/-- The start tag of a template behind its name. -/
theorem exists_tail {name : Text} {c : Cursor} (hname : eqFolded name templateName = true)
    (hstop : Stops isTagPart c.rest) :
    ∃ tail, c.Between tail (startTag c).after ∧
      IsTemplateTag ('<' :: (name ++ tail)) (startTag c).after.rest := by
  obtain ⟨offset, t⟩ := c
  -- the name ends in front of the attributes, whatever follows them
  have hends : ∀ {a z : Text}, t = a ++ z → atNameEnd a = true := by
    intro a z ha
    cases a with
    | nil => rfl
    | cons ch a =>
      have hch : isTagPart ch = false := hstop ch (by rw [ha]; rfl)
      rw [atNameEnd, hch]
      rfl
  have happend := append_splitTag none t
  cases hs : splitTag none t with
  | mk a r =>
    rw [hs] at happend
    cases r with
    | none =>
      obtain rfl : a = t := by simpa using happend
      simp only [startTag, hs, Cursor.toEnd]
      refine ⟨a, ⟨(List.append_nil a).symm, rfl⟩, .cutOff hname ?_ (by rw [hs])⟩
      exact hends (List.append_nil a).symm
    | some r =>
      simp only [startTag, hs]
      refine ⟨a ++ ['>'], ⟨by simpa using happend.symm, ?_⟩, .complete hname ⟨?_, ?_⟩⟩
      · rw [width_append, ← Nat.add_assoc]
        rfl
      · exact hends happend.symm
      · exact (tagText_of_splitTag t).1 a r hs

/-- What stands between the place that the search finds and the content of the template is the start
tag of a template. -/
theorem Finds.exists_tag {c here : Cursor} (h : Finds c here) :
    ∃ tag, here.Between tag (tagAt here).after ∧ IsTemplateTag tag (tagAt here).after.rest := by
  obtain ⟨⟨t, ht⟩, hname⟩ := h.named
  have hmark : here.Between ['<'] (here.skip 1) := Cursor.between_skip ht
  have hrun := Cursor.between_skipWhile isTagPart (here.skip 1)
  obtain ⟨tail, htail, htag⟩ :=
    exists_tail (c := (here.skip 1).skipWhile isTagPart) hname (stops_dropWhile isTagPart _)
  exact ⟨'<' :: (tagName here ++ tail), hmark.trans (hrun.trans htail), htag⟩

theorem templateBlock_of_open {start : Nat} {tag : StartTag}
    (h : (templateBlock start tag).closed = false) :
    templateBlock start tag = ⟨start, tag.attributes, tag.after.offset, tag.after.rest, false⟩ := by
  unfold templateBlock at h ⊢
  dsimp only at h ⊢
  split at h
  · rfl
  · cases h

/-- A template block that is not closed begins with a start tag, and its content is the rest of the
document. -/
theorem exists_tag_of_open {document : Text} {block : TemplateBlock}
    (hfind : findTemplate? ⟨0, document⟩ = some block) (hopen : block.closed = false) :
    block.contentStart + width block.content = width document ∧
      ∃ tag, slice? document block.start block.contentStart = some tag ∧
        IsTemplateTag tag block.content := by
  obtain ⟨here, hfinds, rfl⟩ := exists_finds_of_findTemplate? hfind
  obtain ⟨tag, hbetween, htag⟩ := hfinds.exists_tag
  rw [templateBlock_of_open hopen]
  refine ⟨?_, tag, slice?_between hfinds.reaches hbetween, htag⟩
  have hend := (hfinds.reaches.trans (reaches_tagAt here)).end_eq
  rw [Nat.zero_add] at hend
  exact hend

/-- The span lies inside of the content of the block. -/
structure TemplateBlock.Holds (block : TemplateBlock) (span : Span) : Prop where
  first : block.contentStart ≤ span.start
  last : span.stop ≤ block.contentStart + width block.content

end Block

/-! ## Diagnostics of a document -/

/-- What a diagnostic of a document with a template block says, and the text that it points at. -/
inductive Diagnostic.PointsAt (document : Text) (block : Block.TemplateBlock) : Diagnostic → Prop
  | value {span : Span} {quote : Char} (hslice : span.slice? document = some [quote])
      (hquote : quote = '"' ∨ quote = '\'') (hin : block.Holds span) :
      PointsAt document block ⟨"T1001", "unterminated attribute value", span⟩
  | unclosed {span : Span} {tag : Text} (hslice : span.slice? document = some ('<' :: tag))
      (hin : block.Holds span) :
      PointsAt document block ⟨"T1002", "unclosed element `" ++ String.ofList tag ++ "`", span⟩
  /-- The whole start tag, up to the end of the content. -/
  | startTag {span : Span} {tag : Text} {f : TagForm}
      (hslice : span.slice? document = some ('<' :: (tag ++ f.text))) (hform : f.Fits [])
      (hend : f.ending = .missing) (hstop : span.stop = block.contentStart + width block.content)
      (hin : block.Holds span) :
      PointsAt document block
        ⟨"T1002", "unterminated start tag `" ++ String.ofList tag ++ "`", span⟩
  | closingTag {span : Span} {tag x : Text} (hslice : span.slice? document = some x)
      (hx : IsClosingTag tag x) (hin : block.Holds span) :
      PointsAt document block
        ⟨"T1003", "unexpected closing tag `" ++ String.ofList tag ++ "`", span⟩
  | comment {span : Span} (hslice : span.slice? document = some "<!--".toList)
      (hin : block.Holds span) :
      PointsAt document block ⟨"T1004", "unterminated comment", span⟩
  /-- The start tag of the template, which ends where the content begins. The content goes up to
  the end of the document. -/
  | missingEnd {tag : Text}
      (hslice : slice? document block.start block.contentStart = some tag)
      (htag : Block.IsTemplateTag tag block.content)
      (hend : block.contentStart + width block.content = width document) :
      PointsAt document block
        ⟨"T1005", "missing `</template>`", ⟨block.start, block.contentStart⟩⟩
  | interpolation {span : Span} (hslice : span.slice? document = some "\x7b\x7b".toList)
      (hin : block.Holds span) :
      PointsAt document block ⟨"T1006", "unterminated interpolation", span⟩

theorem Diagnostic.PointsAt.within {document : Text} {block : Block.TemplateBlock} {d : Diagnostic}
    (h : d.PointsAt document block) : d.span.Within document := by
  cases h <;> exact Span.within_of_slice? ‹_›

/-- What stands at a span of a part stands at the span that is moved by what is in front of it. -/
theorem Span.slice?_shift {t x : Text} {s : Span} (h : s.slice? t = some x) (pre post : Text) :
    (s.shift (width pre)).slice? (pre ++ (t ++ post)) = some x := by
  obtain ⟨before, after, rfl, hfirst, hlast⟩ := append_of_slice? h
  refine slice?_eq_some (x := pre ++ before) (z := after ++ post) (by simp) ?_ ?_
  · rw [width_append, hfirst, Nat.add_comm]
    rfl
  · rw [width_append, Nat.add_assoc, hlast, Nat.add_comm]
    rfl

/-- An issue of the content of a block points at its cause in the document. -/
theorem Issue.Shown.pointsAt {block : Block.TemplateBlock} {i : Issue} {pre : Text}
    (h : i.Shown block.content) (hstart : block.contentStart = width pre) (post : Text) :
    (i.shift block.contentStart).toDiagnostic.PointsAt (pre ++ (block.content ++ post)) block := by
  obtain ⟨problem, span⟩ := i
  obtain ⟨⟨x, hlocal, hx⟩, hlast⟩ := h
  have hslice := Span.slice?_shift hlocal pre post
  rw [← hstart] at hslice
  have hin : block.Holds (span.shift block.contentStart) := by
    have hinside := (Span.within_of_slice? hlocal).inside
    simp only at hinside
    constructor
    · simp only [Span.shift]
      omega
    · simp only [Span.shift]
      omega
  cases problem with
  | unterminatedValue =>
    rcases hx with rfl | rfl
    · exact .value hslice (.inl rfl) hin
    · exact .value hslice (.inr rfl) hin
  | unclosedElement tag =>
    obtain rfl := hx
    exact .unclosed hslice hin
  | unterminatedStartTag tag =>
    obtain ⟨f, hform, hend, rfl⟩ := hx
    refine .startTag hslice hform hend ?_ hin
    show span.stop + block.contentStart = _
    rw [hlast tag rfl, Nat.add_comm]
  | unexpectedClosingTag tag => exact .closingTag hslice hx hin
  | unterminatedComment =>
    obtain rfl := hx
    exact .comment hslice hin
  | missingTemplateEnd => cases hx
  | unterminatedInterpolation =>
    obtain rfl := hx
    exact .interpolation hslice hin

/-- Only a document with a template that is read has issues. -/
theorem exists_block_of_issue {document : Text} {i : Issue}
    (h : i ∈ (parseComponent document).issues) :
    ∃ block, Block.findTemplate? ⟨0, document⟩ = some block ∧
      parseComponent document = .ofBlock block := by
  unfold parseComponent at h ⊢
  cases hfind : Block.findTemplate? ⟨0, document⟩ with
  | none =>
    rw [hfind] at h
    cases h
  | some block =>
    rw [hfind] at h
    simp only at h ⊢
    split at h
    · rename_i hread
      exact ⟨block, rfl, if_pos hread⟩
    · cases h

/-- **Diagnostics point at their cause.** A diagnostic of a document is about its template block.
Its span lies inside of the document, between characters, and has the text there that the diagnostic
speaks of. But for the missing end of the template, this text stands in the content of the block. -/
theorem diagnostics_pointAt {document : Text} {d : Diagnostic}
    (h : d ∈ (parseComponent document).diagnostics) :
    ∃ block t, Block.findTemplate? ⟨0, document⟩ = some block ∧
      slice? document block.contentStart (block.contentStart + width block.content) =
        some block.content ∧
      (parseComponent document).template = some t ∧ t.anchor = ⟨block.contentStart⟩ ∧
      d.span.Within document ∧ d.PointsAt document block := by
  obtain ⟨i, hi, rfl⟩ := List.mem_map.1 h
  obtain ⟨block, hfind, hblock⟩ := exists_block_of_issue hi
  obtain ⟨pre, post, hdocument, hstart⟩ := Block.content_of_findTemplate? hfind
  simp only [Nat.zero_add] at hdocument hstart
  have hpoints : i.toDiagnostic.PointsAt document block := by
    rw [hblock] at hi
    rcases List.mem_append.1 hi with hi | hi
    · obtain ⟨j, hj, rfl⟩ := List.mem_map.1 hi
      rw [hdocument]
      exact (shown_parseTemplate block.content j hj).pointsAt hstart post
    · unfold Component.missingEnd at hi
      split at hi
      · cases hi
      · rename_i hopen
        obtain rfl := List.mem_singleton.1 hi
        obtain ⟨hend, tag, hslice, htag⟩ :=
          Block.exists_tag_of_open hfind (Bool.eq_false_iff.2 hopen)
        exact .missingEnd hslice htag hend
  refine ⟨block, _, hfind, ?_, by rw [hblock]; rfl, rfl, hpoints.within, hpoints⟩
  exact slice?_eq_some hdocument hstart (by rw [hstart])

/-- An element that is given up at the end of a document, behind a character of two bytes. -/
theorem diagnostics_pointAt_unclosed :
    let document := "<!--é--><template lang=html>\n<b></i><p :a='x".toList
    let d : Diagnostic := ⟨"T1002", "unclosed element `b`", ⟨30, 32⟩⟩
    d ∈ (parseComponent document).diagnostics ∧
      ∃ block t, Block.findTemplate? ⟨0, document⟩ = some block ∧
        slice? document block.contentStart (block.contentStart + width block.content) =
          some block.content ∧
        (parseComponent document).template = some t ∧ t.anchor = ⟨block.contentStart⟩ ∧
        d.span.Within document ∧ d.PointsAt document block := by
  intro document d
  have hd : d ∈ (parseComponent document).diagnostics := by decide +kernel
  exact ⟨hd, diagnostics_pointAt hd⟩

end BindingToggle
