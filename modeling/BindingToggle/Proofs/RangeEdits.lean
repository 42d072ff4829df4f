import BindingToggle.Proofs.LinePositions
import BindingToggle.Proofs.Rewriting
import BindingToggle.Server.CodeAction
import Mathlib.Data.List.Forall2

/-!
# Edits by line position

An editor is sent the edits of an action by line and column, and resolves them in its own copy of
the text. Not every offset survives this: one inside a line break does not. No edit of an action
begins or ends there, whatever the template looks like, with one exception. The value of an attribute
that is never closed ends where the text ends, and there a last carriage return counts as a break.

* `Seam before after` — the cut between two texts can be addressed; `Addressable t n` says so of the
  cut at an offset, and `Addressable.offsetAt_positionAt` what comes back.
* `addressable_of_mem_script` — the ends of the edits of a script are its seams.
* `seamed_boundPieces`, `seamed_unboundPieces` — the seams of an attribute that is bound, and of a
  binding that is removed.
* `codeActions_denote` — the code actions of a document are its actions that were asked for, in
  order, and their ranges resolve to the spans of the edits.
-/

namespace BindingToggle

namespace Text

/-! ## Offsets that can be addressed -/

/-- What the position of an offset resolves to: the offset, but for the end of a text behind a
carriage return, which resolves to the place in front of that. -/
def resolved (t : Text) (n : Nat) : Nat :=
  if n = width t ∧ t.getLast? = some '\r' then n - 1 else n

theorem resolved_mono {t : Text} {m n : Nat} (h : m ≤ n) : resolved t m ≤ resolved t n := by
  rcases Nat.eq_or_lt_of_le h with rfl | hlt
  · exact Nat.le_refl _
  · unfold resolved
    split <;> split <;> omega

/-- The cut between the two texts does not go through a line break, but for their end. -/
def Seam (before after : Text) : Prop := CutsBreak before after → after = []

theorem seam_nil (before : Text) : Seam before [] := fun _ => rfl

theorem seam_cons {c : Char} (hc : c ≠ '\n') (before after : Text) : Seam before (c :: after) := by
  intro h
  simp [CutsBreak, hc] at h

/-- Behind characters that are no carriage returns there is a seam. -/
theorem seam_behind {run : Text} (hne : run ≠ []) (hrun : ∀ c ∈ run, c ≠ '\r')
    (before after : Text) : Seam (before ++ run) after := by
  intro h
  rw [CutsBreak, List.getLast?_append_of_ne_nil _ hne] at h
  exact absurd rfl (hrun _ (List.mem_of_getLast? h.1))

theorem seam_append_singleton {c : Char} (hc : c ≠ '\r') (before after : Text) :
    Seam (before ++ [c]) after :=
  seam_behind (List.cons_ne_nil c []) (by simpa using hc) before after

/-- The offset is that of a seam. -/
def Addressable (t : Text) (n : Nat) : Prop :=
  ∃ before after, t = before ++ after ∧ width before = n ∧ Seam before after

theorem Addressable.offsetAt_positionAt {t : Text} {n : Nat} (h : Addressable t n)
    (hsize : width t < 2 ^ 32) : offsetAt t (positionAt t n) = resolved t n := by
  obtain ⟨before, after, rfl, rfl, hseam⟩ := h
  rw [Text.offsetAt_positionAt (counts_positionAt_append hsize)]
  have hcut : CutsBreak before after ↔
      width before = width (before ++ after) ∧ (before ++ after).getLast? = some '\r' := by
    constructor
    · intro h
      rw [hseam h, List.append_nil]
      exact ⟨rfl, h.1⟩
    · rintro ⟨hwidth, hlast⟩
      have hafter : after = [] := by
        rw [width_append] at hwidth
        exact width_eq_zero_iff.1 (by omega)
      rw [hafter, List.append_nil] at hlast
      exact ⟨hlast, .inl hafter⟩
  simp only [resolved, hcut]

end Text

open Text

/-- The ends of the span are in order, and can be addressed. -/
structure Span.Addressable (t : Text) (s : Span) : Prop where
  ordered : s.start ≤ s.stop
  first : Text.Addressable t s.start
  last : Text.Addressable t s.stop

theorem Span.Addressable.spanOf_rangeOf {t : Text} {s : Span} (h : s.Addressable t)
    (hsize : width t < 2 ^ 32) :
    spanOf t (rangeOf t s) = ⟨resolved t s.start, resolved t s.stop⟩ := by
  have hle := resolved_mono (t := t) h.ordered
  simp only [spanOf, rangeOf, h.first.offsetAt_positionAt hsize,
    h.last.offsetAt_positionAt hsize, Span.mk.injEq]
  omega

/-! ## Seams of a script -/

namespace Edit

/-- Every cut that a script makes in the text between `front` and `tail` is a seam. -/
def Seamed (tail : Text) : Text → List Piece → Prop
  | _, [] => True
  | front, p :: ps =>
    Seam (front ++ p.kept) (p.removed ++ (source ps ++ tail)) ∧
      Seam (front ++ p.kept ++ p.removed) (source ps ++ tail) ∧
      Seamed tail (front ++ p.kept ++ p.removed) ps

/-- The edits of a script begin and end at its seams. -/
theorem addressable_of_mem_script {front tail : Text} {ps : List Piece} {e : Edit}
    (h : Seamed tail front ps) (he : e ∈ script (width front) ps) :
    e.span.Addressable (front ++ (source ps ++ tail)) := by
  induction ps generalizing front with
  | nil => cases he
  | cons p ps ih =>
    obtain ⟨hfirst, hlast, hrest⟩ := h
    simp only [script, List.mem_cons] at he
    rcases he with rfl | he
    · refine ⟨Nat.le_add_right _ _, ⟨_, _, ?_, ?_, hfirst⟩, ⟨_, _, ?_, ?_, hlast⟩⟩
      · simp only [source, List.append_assoc]
      · simp only [Piece.edit, width_append]
      · simp only [source, List.append_assoc]
      · simp only [Piece.edit, width_append]
    · have hstart : (p.edit (width front)).span.stop = width (front ++ p.kept ++ p.removed) := by
        simp only [Piece.edit, width_append]
      rw [hstart] at he
      have hspan := ih hrest he
      simpa only [source, List.append_assoc] using hspan

end Edit

/-! ## Seams of an attribute -/

theorem ne_break_of_not_blank {c : Char} (h : isMarkupBlank c = false) : c ≠ '\n' ∧ c ≠ '\r' := by
  constructor <;> rintro rfl <;> revert h <;> decide

namespace Markup

theorem AttributeForm.Fits.not_blank {f : AttributeForm} {rest : Text} (h : f.Fits rest) :
    ∀ c ∈ f.name, isMarkupBlank c = false := by
  obtain ⟨d, u, hname, hd, -, -⟩ := h.starts
  intro c hc
  have htail := h.name c
  rw [hname] at hc htail
  rcases List.mem_cons.1 hc with rfl | hc
  · exact hd
  · have := htail hc
    simp_all [isAttributePart]

/-- In front of an attribute there is a seam. -/
theorem AttributeForm.Fits.seam {f : AttributeForm} {rest : Text} (h : f.Fits rest)
    (before after : Text) : Seam before (f.text ++ after) := by
  obtain ⟨c, u, htext, hc, -, -⟩ := h.starts_text
  rw [htext]
  exact seam_cons (ne_break_of_not_blank hc).1 before (u ++ after)

theorem seamed_boundPieces {f : AttributeForm} {rest : Text} (h : f.Fits rest)
    (front after : Text) :
    ∃ tail, front ++ (f.text ++ after) =
        Edit.source (boundPieces front f.text f.value.isSome) ++ tail ∧
      Edit.Seamed tail [] (boundPieces front f.text f.value.isSome) := by
  cases hv : f.value with
  | some p =>
    refine ⟨f.text ++ after, by simp [boundPieces, Edit.source], ?_, ?_, trivial⟩
    · exact h.seam _ after
    · exact h.seam _ after
  | none =>
    have htext : f.text = f.name := by simp [AttributeForm.text, hv]
    have hbehind : ∀ before, Seam (before ++ f.text) after := by
      intro before
      rw [htext]
      refine seam_behind ?_ (fun c hc => (ne_break_of_not_blank (h.not_blank c hc)).2) before after
      obtain ⟨c, u, hname, -⟩ := h.starts
      simp [hname]
    refine ⟨after, by simp [boundPieces, Edit.source], ?_⟩
    simp only [boundPieces, Option.isSome_none, Bool.false_eq_true, if_false, Edit.Seamed,
      Edit.source, List.nil_append, List.append_nil, and_true]
    exact ⟨h.seam front after, h.seam front after, hbehind front, hbehind front⟩

theorem ValueForm.Fits.not_blank {content rest : Text}
    (h : (ValueForm.unquoted content).Fits rest) : ∀ c ∈ content, c ≠ '\n' ∧ c ≠ '\r' := by
  intro c hc
  have := h.1 c hc
  exact ne_break_of_not_blank (by simp_all [isUnquotedPart])

/-- In front of the content of a value there is a seam, unless the value is empty. -/
theorem ValueForm.Fits.seam_opening {v : ValueForm} {rest : Text} (h : v.Fits rest)
    (hne : v.content ≠ []) (before after : Text) :
    Seam (before ++ v.opening) (v.content ++ after) := by
  cases v with
  | quoted q content closed =>
    have hq : q ≠ '\r' := by rcases h.1 with rfl | rfl <;> decide
    exact seam_append_singleton hq before _
  | unquoted content =>
    obtain ⟨c, u, hcontent⟩ := List.exists_cons_of_ne_nil hne
    have hc := (h.not_blank c (by simp [show content = c :: u from hcontent])).1
    rw [hcontent]
    exact seam_cons hc _ _

/-- Behind the content of a value there is a seam, if the template ends at a tag or with the text:
a value that is not closed ends there. -/
theorem ValueForm.Fits.seam_closing {v : ValueForm} {rest post front back : Text}
    (h : v.Fits rest) (hcontent : v.content = front ++ back) (hback : back ≠ [])
    (hpost : Block.AtMark post) (before : Text) :
    Seam (before ++ back) (v.closing ++ (rest ++ post)) := by
  cases v with
  | quoted q content closed =>
    cases closed with
    | true =>
      have hq : q ≠ '\n' := by rcases h.1 with rfl | rfl <;> decide
      exact seam_cons hq _ _
    | false =>
      rw [h.2.2 rfl]
      rcases hpost with rfl | hmark
      · exact seam_nil _
      · obtain ⟨u, rfl⟩ := List.head?_eq_some_iff.1 hmark
        exact seam_cons (by decide) _ u
  | unquoted content =>
    refine seam_behind hback (fun c hc => (h.not_blank c ?_).2) before _
    rw [show content = front ++ back from hcontent]
    exact List.mem_append_right front hc

theorem seamed_unboundPieces {f : AttributeForm} {p : ValuePart}
    {lead argument gap body behind rest post : Text} {q : Char} (h : f.Fits rest)
    (hname : f.name = lead ++ argument) (hlead : lead ≠ []) (hp : f.value = some p)
    (hq : Lexer.IsPlainBody q body)
    (hcontent : p.form.content = gap ++ q :: (body ++ q :: behind)) (hpost : Block.AtMark post)
    (front : Text) :
    Edit.Seamed (p.form.closing ++ (rest ++ post)) []
      (unboundPieces front lead (AttributeForm.middle argument p) gap q body behind) := by
  have hvalue := (h.valued p hp).1
  have hquote : q ≠ '\n' ∧ q ≠ '\r' := by rcases hq.quote with rfl | rfl | rfl <;> decide
  have hmarker : ∀ c ∈ lead, c ≠ '\n' ∧ c ≠ '\r' := by
    intro c hc
    exact ne_break_of_not_blank (h.not_blank c (by simp [hname, hc]))
  obtain ⟨c, u, hu⟩ := List.exists_cons_of_ne_nil hlead
  simp only [unboundPieces, Edit.Seamed, Edit.source, List.nil_append, List.append_assoc, and_true]
  -- the cuts around the marker, around the opening quote, and around the closing quote
  refine ⟨?_, ?_, ?_, ?_, ?_, ?_⟩
  · rw [hu]
    exact seam_cons (hmarker c (by simp [hu])).1 _ _
  · exact seam_behind hlead (fun c hc => (hmarker c hc).2) _ _
  · have hopening := hvalue.seam_opening (by simp [hcontent])
      (front ++ (lead ++ (argument ++ p.separator))) (p.form.closing ++ (rest ++ post))
    simpa [hcontent, AttributeForm.middle] using hopening
  · have hopened := seam_append_singleton hquote.2
      (front ++ (lead ++ (AttributeForm.middle argument p ++ gap)))
      (body ++ (q :: behind ++ (p.form.closing ++ (rest ++ post))))
    simpa using hopened
  · exact seam_cons hquote.1 _ _
  · have hsplit : p.form.content = (gap ++ q :: body) ++ q :: behind := by simp [hcontent]
    have hclosed := hvalue.seam_closing hsplit (List.cons_ne_nil q behind) hpost
      (front ++ (lead ++ (AttributeForm.middle argument p ++ (gap ++ [q] ++ body))))
    simpa using hclosed

theorem eq_isSome_of_addable {f : AttributeForm} {start : Nat} {hasValue : Bool}
    (h : classify (f.toAttribute start) = .addable hasValue) : hasValue = f.value.isSome := by
  cases hn : DirectiveName.ofText? f.name with
  | none =>
    rw [toAttribute_static hn, classify] at h
    cases h
    simp
  | some parts =>
    rw [toAttribute_directive hn, classify] at h
    split at h <;> cases h

/-- No edit of the action of an attribute cuts a line break, if the attribute stands in a template
that ends at a tag or with the text. -/
theorem addressable_of_synthesize {s : Site} {f : AttributeForm} {pre post : Text}
    {action : ToggleAction} {e : Edit} (hs : s.Holds f) (hpost : Block.AtMark post)
    (h : synthesize ⟨width pre⟩ (f.toAttribute s.start) (classify (f.toAttribute s.start)) =
      some action) (he : e ∈ action.edits) :
    e.span.Addressable (pre ++ (s.fill f ++ post)) := by
  have hfits := hs.fits_attr
  have hdocument : pre ++ (s.fill f ++ post) = (pre ++ s.head) ++ (f.text ++ (s.tail ++ post)) := by
    simp only [Site.fill, List.append_assoc]
  rw [hdocument]
  cases hc : classify (f.toAttribute s.start) with
  | ineligible reason =>
    rw [hc] at h
    cases h
  | addable hasValue =>
    rw [hc] at h
    cases h
    obtain ⟨tail, htext, hseamed⟩ := seamed_boundPieces hfits (pre ++ s.head) (s.tail ++ post)
    rw [eq_isSome_of_addable hc, f.span_toAttribute, Site.start, edits_addBinding] at he
    rw [htext]
    exact Edit.addressable_of_mem_script hseamed he
  | removable b =>
    rw [hc] at h
    cases h
    obtain ⟨parts, argument, p, gap, q, body, hname, hargument, hp, hsole, rfl⟩ :=
      exists_parts_of_removable hc
    obtain ⟨-, hplain, behind, -, hcontent⟩ := hsole
    have hlead := (parts_of_ofText? hname).2.1
    have hseamed := seamed_unboundPieces hfits hargument hlead hp hplain hcontent hpost
      (pre ++ s.head)
    have hsource := source_removeForm hargument hp hcontent pre s.head (s.tail ++ post)
    rw [Site.start, edits_removeForm hargument hplain hcontent] at he
    rw [List.append_assoc, hsource]
    exact Edit.addressable_of_mem_script hseamed he

end Markup

/-! ## Code actions -/

/-- An attribute that is located, at its site in the document. -/
theorem exists_site_of_mem_locate {text : Text} {t : EmbeddedTemplate} {selection : Span}
    {cancelled : Bool} {l : Located} (ht : (parseComponent text).template = some t)
    (hl : l ∈ locate t.roots t.anchor selection cancelled) :
    ∃ (pre post : Text) (s : Markup.Site) (f : Markup.AttributeForm),
      t.anchor = ⟨width pre⟩ ∧ Block.AtMark post ∧ text = pre ++ (s.fill f ++ post) ∧ s.Holds f ∧
      l.attr = f.toAttribute s.start := by
  obtain ⟨helement, hattr, -⟩ := mem_locate hl
  obtain ⟨block, hblock, hanchor, hroots⟩ := exists_block_of_template ht
  obtain ⟨pre, post, htext, hstart, hpost⟩ := Block.exists_content_of_findTemplate? hblock
  rw [hroots] at helement
  obtain ⟨s, f, hs, hcontent, ha⟩ :=
    Markup.exists_site (List.mem_flatMap.2 ⟨_, helement, hattr⟩)
  rw [hstart, Nat.zero_add] at hanchor
  refine ⟨pre, post, s, f, hanchor, hpost, ?_, hs, ha⟩
  rw [← hcontent]
  exact htext

/-- The attribute of an action that is offered. -/
theorem exists_located_of_mem_toggleActions {component : Component} {selection : Span}
    {cancelled : Bool} {action : ToggleAction}
    (h : action ∈ toggleActions component selection cancelled) :
    ∃ t l, component.template = some t ∧ l ∈ locate t.roots t.anchor selection cancelled ∧
      synthesize t.anchor l.attr (classify l.attr) = some action := by
  unfold toggleActions at h
  split at h
  · cases h
  · rename_i t ht
    obtain ⟨l, hl, haction⟩ := List.mem_filterMap.1 h
    exact ⟨t, l, ht, hl, haction⟩

/-- The attribute of an action that is offered, at its site in the document. -/
theorem exists_site_of_mem_toggleActions {text : Text} {selection : Span} {cancelled : Bool}
    {action : ToggleAction}
    (h : action ∈ toggleActions (parseComponent text) selection cancelled) :
    ∃ (pre post : Text) (t : EmbeddedTemplate) (s : Markup.Site) (f : Markup.AttributeForm),
      (parseComponent text).template = some t ∧ t.anchor = ⟨width pre⟩ ∧ Block.AtMark post ∧
      text = pre ++ (s.fill f ++ post) ∧ s.Holds f ∧
      synthesize ⟨width pre⟩ (f.toAttribute s.start) (classify (f.toAttribute s.start)) =
        some action := by
  obtain ⟨t, l, ht, hl, haction⟩ := exists_located_of_mem_toggleActions h
  obtain ⟨pre, post, s, f, hanchor, hpost, htext, hs, ha⟩ := exists_site_of_mem_locate ht hl
  rw [hanchor, ha] at haction
  exact ⟨pre, post, t, s, f, ht, hanchor, hpost, htext, hs, haction⟩

/-- The ends of every edit of every action can be addressed. -/
theorem addressable_of_mem_toggleActions {text : Text} {selection : Span} {cancelled : Bool}
    {action : ToggleAction} {e : Edit}
    (h : action ∈ toggleActions (parseComponent text) selection cancelled)
    (he : e ∈ action.edits) : e.span.Addressable text := by
  obtain ⟨pre, post, -, s, f, -, -, hpost, rfl, hs, haction⟩ := exists_site_of_mem_toggleActions h
  exact Markup.addressable_of_synthesize hs hpost haction he

/-- A range edit says the same as an edit: its range is that of the span, counts its lines and
columns exactly, and resolves to it. -/
structure RangeEdit.Denotes (text : Text) (r : RangeEdit) (e : Edit) : Prop where
  newText : r.newText = e.newText
  range : r.range = rangeOf text e.span
  small : r.range.start.IsSmall ∧ r.range.stop.IsSmall
  counts : r.range.start.Counts (upTo e.span.start text) ∧
    r.range.stop.Counts (upTo e.span.stop text)
  resolves : spanOf text r.range = ⟨resolved text e.span.start, resolved text e.span.stop⟩

/-- A code action says the same as an action, edit by edit. -/
structure CodeAction.Denotes (text : Text) (uri : String) (settings : Settings) (c : CodeAction)
    (a : ToggleAction) : Prop where
  kind : c.kind = a.kind
  uri : c.uri = uri
  edits : List.Forall₂ (RangeEdit.Denotes text) c.edits a.edits
  command : c.command = a.caret.map fun caret =>
    ⟨settings.setSelectionCommand, positionAt (Edit.applyAll text a.edits) caret⟩

/-- **Code actions denote actions.** Those of a document of less than `2 ^ 32` bytes are its actions
of the kinds that were asked for, one to one and in order. The range of every edit resolves to the
span of the edit; only the end of a text behind a carriage return resolves to the place in front of
that. -/
theorem codeActions_denote (text : Text) (uri : String) (range : Range)
    (only : Option (List String)) (settings : Settings) (cancelled : Bool)
    (hsize : width text < 2 ^ 32) (henabled : settings.enabled = true) :
    List.Forall₂ (CodeAction.Denotes text uri settings)
      (codeActions text (parseComponent text) uri range only settings cancelled)
      ((toggleActions (parseComponent text) (spanOf text range) cancelled).filter
        fun a => CodeAction.isRequested only a.kind) := by
  rw [codeActions, if_pos henabled, List.forall₂_map_left_iff, List.forall₂_same]
  intro a ha
  have hmem := List.mem_of_mem_filter ha
  refine ⟨rfl, rfl, ?_, rfl⟩
  simp only [CodeAction.of]
  rw [List.forall₂_map_left_iff, List.forall₂_same]
  intro e he
  have hspan := addressable_of_mem_toggleActions hmem he
  exact ⟨rfl, rfl, ⟨isSmall_positionAt text _, isSmall_positionAt text _⟩,
    ⟨counts_positionAt hsize _, counts_positionAt hsize _⟩, hspan.spanOf_rangeOf hsize⟩

/-- A binding that is never closed, in a text that ends in a carriage return: the last edit reaches
the end of the text, and its range resolves to one byte less. -/
theorem codeActions_denote_unclosed :
    let text : Text := "<template>\r\n<a :b=\" 'x'\r".toList
    ∃ c a, codeActions text (parseComponent text) "file:///a.vue" ⟨⟨1, 4⟩, ⟨1, 4⟩⟩ none .default
        false = [c] ∧
      c.Denotes text "file:///a.vue" .default a ∧
      a.edits.map (·.span) = [⟨15, 16⟩, ⟨19, 21⟩, ⟨22, 24⟩] ∧
      (c.edits.map fun r => spanOf text r.range) = [⟨15, 16⟩, ⟨19, 21⟩, ⟨22, 23⟩] := by
  intro text
  have hactions : (toggleActions (parseComponent text) (spanOf text ⟨⟨1, 4⟩, ⟨1, 4⟩⟩) false).filter
      (fun a => CodeAction.isRequested none a.kind) =
        [ToggleAction.removeBinding ⟨10⟩ ⟨⟨5, 6⟩, ⟨9, 14⟩, 0, 1, ⟨1, 4⟩⟩] := by
    decide +kernel
  have hspans : (codeActions text (parseComponent text) "file:///a.vue" ⟨⟨1, 4⟩, ⟨1, 4⟩⟩ none
      .default false).map (fun c => c.edits.map fun r => spanOf text r.range) =
        [[⟨15, 16⟩, ⟨19, 21⟩, ⟨22, 23⟩]] := by
    decide +kernel
  have hdenote := codeActions_denote text "file:///a.vue" ⟨⟨1, 4⟩, ⟨1, 4⟩⟩ none .default false
    (by decide) rfl
  rw [hactions] at hdenote
  obtain ⟨c, others, hc, hothers, hlist⟩ := List.forall₂_cons_right_iff.1 hdenote
  obtain rfl := List.forall₂_nil_right_iff.1 hothers
  rw [hlist] at hspans
  exact ⟨c, _, hlist, hc, by decide, by simpa using hspans⟩

end BindingToggle
