import BindingToggle.Proofs.Site
import BindingToggle.Proofs.ToggleEdits

/-!
# An action rewrites one attribute

An action is offered for a selection of a document, and comes about in five systems of places: the
blocks of the document, the content of the template, the value of the attribute, the tokens of the
expression, and the edits. They agree to the byte.

* `exists_content_of_findTemplate?` — the content of the template block is what stands in the
  document where the block says it begins, up to a tag or to the end.
* `mem_locate` — what is located is an attribute of the template that contains the selection.
* `toggleActions_rewrites` — every action that is offered rewrites one attribute, as its kind says,
  and leaves the rest of the document as it is.
-/

namespace BindingToggle

open Text

/-! ## The template in its document -/

namespace Block

/-- The text ends, or goes on with a tag. -/
def AtMark (t : Text) : Prop := t = [] ∨ t.head? = some '<'

theorem atMark_rest_nextMark (c : Cursor) : AtMark (nextMark c).rest := by
  have hstop := List.head?_dropWhile_not (· != '<') c.rest
  show AtMark (c.rest.dropWhile (· != '<'))
  cases h : c.rest.dropWhile (· != '<') with
  | nil => exact .inl rfl
  | cons d t =>
    rw [h] at hstop
    exact .inr (by simpa using hstop)

/-- A closing tag begins where the text goes on with a tag. -/
theorem atMark_of_closingTag? {name : Text} {depth : Nat} {c close after : Cursor}
    (h : closingTag? name depth c = some (close, after)) : AtMark close.rest := by
  fun_induction closingTag? name depth c with
  | case1 => cases h
  | case2 => cases h
  | case3 _ _ _ _ _ _ _ ih => exact ih h
  | case4 c here _ _ _ after' =>
    obtain ⟨rfl, -⟩ : here = close ∧ after' = after := by simpa using h
    exact atMark_rest_nextMark c
  | case5 _ _ _ _ _ _ _ ih => exact ih h
  | case6 _ _ _ _ _ _ _ _ ih => exact ih h
  | case7 _ _ _ _ _ _ _ ih => exact ih h

theorem rest_of_templateBlock (start : Nat) (tag : StartTag) :
    (templateBlock start tag).contentStart = tag.after.offset ∧
      ∃ post, tag.after.rest = (templateBlock start tag).content ++ post ∧ AtMark post := by
  unfold templateBlock
  dsimp only
  split
  · exact ⟨rfl, [], by simp, .inl rfl⟩
  · rename_i close after hc
    obtain ⟨between, hb⟩ := (reaches_closingTag? hc).1
    refine ⟨rfl, close.rest, ?_, atMark_of_closingTag? hc⟩
    rw [Cursor.upTo_eq_of_between hb]
    exact hb.1

/-- The content of a template block stands in the text at the place where it begins, and goes up to
a tag or to the end of the text. -/
theorem exists_content_of_findTemplate? {c : Cursor} {block : TemplateBlock}
    (h : findTemplate? c = some block) :
    ∃ pre post, c.rest = pre ++ (block.content ++ post) ∧
      block.contentStart = c.offset + width pre ∧ AtMark post := by
  suffices hd : ∃ d post, c.Reaches d ∧ d.offset = block.contentStart ∧
      d.rest = block.content ++ post ∧ AtMark post by
    obtain ⟨d, post, ⟨pre, hpre, hoffset⟩, hstart, hrest, hpost⟩ := hd
    exact ⟨pre, post, by rw [hpre, hrest], by rw [← hstart, hoffset], hpost⟩
  fun_induction findTemplate? c with
  | case1 => cases h
  | case2 => cases h
  | case3 c here _ _ found hf ih =>
    obtain ⟨d, post, hd, hrest⟩ := ih h
    refine ⟨d, post, ?_, hrest⟩
    exact (((Cursor.reaches_skipWhile _ c).trans (Cursor.reaches_skip 4 _)).trans
      ((Cursor.reaches_of_find? hf).trans (Cursor.reaches_skip 3 _))).trans hd
  | case4 c here _ _ name _ tag _ ih =>
    obtain ⟨d, post, hd, hrest⟩ := ih h
    refine ⟨d, post, ?_, hrest⟩
    exact ((((Cursor.reaches_skipWhile _ c).trans (Cursor.reaches_skip 1 _)).trans
      (Cursor.reaches_skipWhile _ _)).trans (reaches_startTag _)).trans
        ((reaches_skipBlock name tag).trans hd)
  | case5 => cases h
  | case6 c here _ _ name _ tag _ _ =>
    cases h
    obtain ⟨hstart, post, hpost⟩ := rest_of_templateBlock here.offset tag
    refine ⟨tag.after, post, ?_, hstart.symm, hpost⟩
    exact (((Cursor.reaches_skipWhile _ c).trans (Cursor.reaches_skip 1 _)).trans
      (Cursor.reaches_skipWhile _ _)).trans (reaches_startTag _)
  | case7 c here _ _ name _ ih =>
    obtain ⟨d, post, hd, hrest⟩ := ih h
    refine ⟨d, post, ?_, hrest⟩
    exact ((Cursor.reaches_skipWhile _ c).trans (Cursor.reaches_skip 1 _)).trans hd

theorem content_of_findTemplate? {c : Cursor} {block : TemplateBlock}
    (h : findTemplate? c = some block) :
    ∃ pre post, c.rest = pre ++ (block.content ++ post) ∧
      block.contentStart = c.offset + width pre := by
  obtain ⟨pre, post, hrest, hstart, -⟩ := exists_content_of_findTemplate? h
  exact ⟨pre, post, hrest, hstart⟩

end Block

/-! ## Attributes under the selection -/

theorem mem_walk {selection : Span} {cancelled : Bool} {agenda : List Element} {l : Located}
    (h : l ∈ Locate.walk selection cancelled agenda) :
    l.element ∈ Element.preorderAll agenda ∧ l.attr ∈ l.element.attributes ∧
      Locate.hits selection l.element l.attr = true := by
  fun_induction Locate.walk selection cancelled agenda with
  | case1 => cases h
  | case2 => cases h
  | case3 e others _ _ ih =>
    obtain ⟨hmem, hl⟩ := ih h
    exact ⟨List.mem_append_right _ hmem, hl⟩
  | case4 e others _ _ ih =>
    rcases List.mem_append.1 h with h | h
    · obtain ⟨a, ha, rfl⟩ := List.mem_map.1 h
      obtain ⟨hattr, hhits⟩ := List.mem_filter.1 ha
      refine ⟨?_, hattr, hhits⟩
      simp [Element.preorderAll, Locate.preorder_eq]
    · obtain ⟨hmem, hl⟩ := ih h
      refine ⟨?_, hl⟩
      rw [Locate.preorderAll_append, List.mem_append] at hmem
      simp only [Element.preorderAll, Locate.preorder_eq, List.mem_append, List.mem_cons]
      rcases hmem with hmem | hmem
      · exact .inl (.inr hmem)
      · exact .inr hmem

/-- What is located is an attribute that contains the selection. -/
theorem mem_locate {roots : List Element} {anchor : Anchor} {selection : Span} {cancelled : Bool}
    {l : Located} (h : l ∈ locate roots anchor selection cancelled) :
    l.element ∈ Element.preorderAll roots ∧ l.attr ∈ l.element.attributes ∧
      (anchor.toDocument l.attr.span).start ≤ selection.start ∧ selection.start ≤ selection.stop ∧
      selection.stop ≤ (anchor.toDocument l.attr.span).stop := by
  unfold locate at h
  split at h
  · cases h
  · rename_i s hs
    split at h
    · cases h
    · rename_i hproper
      obtain ⟨hmem, hattr, hhits⟩ := mem_walk h
      have hselection := Anchor.toLocal?_eq_some_iff.1 hs
      simp only [Span.isInverted, decide_eq_true_eq, Nat.not_lt] at hproper
      simp only [Locate.hits, Span.contains, Bool.and_eq_true, decide_eq_true_eq] at hhits
      refine ⟨hmem, hattr, ?_⟩
      rw [hselection]
      simp only [Anchor.toDocument, Span.shift]
      omega

/-! ## What an action does -/

/-- What an action of a kind puts in the place of the text `old` of an attribute. The places of the
attribute begin at `anchor`. -/
inductive Rewritten (text : Text) (anchor : Anchor) (old : Text) :
    Attribute → ToggleKind → Text → Prop
  | bound {a : StaticAttribute} {v : AttributeValue} (ha : a.value = some v) :
      Rewritten text anchor old (.static a) .add (':' :: old)
  | boundEmpty {a : StaticAttribute} (ha : a.value = none) :
      Rewritten text anchor old (.static a) .add (':' :: (old ++ "=\"\"".toList))
  | unbound {d : Directive} {e : BoundExpression} {b : LiteralBinding} {middle body ending : Text}
      (he : d.expression = some e) (hb : classify (.directive d) = .removable b)
      (hmiddle : slice? text (anchor.toDocument d.markerSpan).stop
        (anchor.toDocument e.span).start = some middle)
      (hbody : slice? e.source (b.literal.start + 1) (b.literal.stop - 1) = some body)
      (hending : slice? text (anchor.toDocument e.span).stop
        (anchor.toDocument d.span).stop = some ending) :
      Rewritten text anchor old (.directive d) .remove (middle ++ (body ++ ending))

/-- The action rewrites an attribute of the template that begins at `anchor`, and nothing else. -/
structure ToggleAction.Rewrites (action : ToggleAction) (text : Text) (anchor : Anchor)
    (a : Attribute) : Prop where
  /-- No edit is left out. -/
  all : Edit.applied text action.edits = action.edits
  outcome : ∃ before old new after, text = before ++ (old ++ after) ∧
    anchor.toDocument a.span = ⟨width before, width before + width old⟩ ∧
    Rewritten text anchor old a action.kind new ∧
    Edit.applyAll text action.edits = before ++ (new ++ after)

namespace Markup

theorem rewrites_static {f : AttributeForm} (h : DirectiveName.ofText? f.name = none)
    (pre before after : Text) :
    let a := f.toAttribute (width before)
    (ToggleAction.addBinding ⟨width pre⟩ a.span f.value.isSome).Rewrites
      (pre ++ (before ++ (f.text ++ after))) ⟨width pre⟩ a := by
  dsimp only
  obtain ⟨hall, hresult⟩ := applyAll_addBinding pre before f.text after f.value.isSome
  rw [← f.span_toAttribute] at hall hresult
  refine ⟨hall, pre ++ before, f.text, ':' :: (f.text ++ boundSuffix f.value.isSome), after,
    by simp, ?_, ?_, ?_⟩
  · rw [f.span_toAttribute]
    simp only [Anchor.toDocument, Span.shift, width_append, Span.mk.injEq]
    omega
  · rw [toAttribute_static h]
    cases hv : f.value with
    | none => exact .boundEmpty rfl
    | some p =>
      have hsuffix : f.text ++ boundSuffix (some p).isSome = f.text := List.append_nil _
      rw [hsuffix]
      exact .bound rfl
  · rw [hresult]
    simp

theorem rewrites_removable {f : AttributeForm} {pre before : Text} {b : LiteralBinding}
    (h : classify (f.toAttribute (width before)) = .removable b) (after : Text) :
    (ToggleAction.removeBinding ⟨width pre⟩ b).Rewrites (pre ++ (before ++ (f.text ++ after)))
      ⟨width pre⟩ (f.toAttribute (width before)) := by
  obtain ⟨parts, argument, p, gap, q, body, hname, hargument, hp, hsole, rfl⟩ :=
    exists_parts_of_removable h
  obtain ⟨-, hplain, behind, -, hcontent⟩ := hsole
  obtain ⟨hall, hresult⟩ := applyAll_removeForm hargument hp hplain hcontent pre before after
  -- marker, what stands in front of the expression, expression, closing quote
  have htext : f.text = parts.lead ++ ((argument ++ (p.separator ++ p.form.opening)) ++
      (p.form.content ++ p.form.closing)) := by
    simp only [AttributeForm.text_of_value hp, hargument, List.append_assoc]
  refine ⟨hall, pre ++ before, f.text,
    (argument ++ (p.separator ++ p.form.opening)) ++ (body ++ p.form.closing), after, by simp, ?_,
    ?_, ?_⟩
  · rw [f.span_toAttribute]
    simp only [Anchor.toDocument, Span.shift, width_append, Span.mk.injEq]
    omega
  · rw [toAttribute_directive hname] at h ⊢
    refine .unbound
      (e := ⟨p.form.content, (p.form.value (f.valueStart p (width before))).contentSpan⟩)
      ?_ h ?_ ?_ ?_
    · simp [hp, Attribute.boundExpression, ValueForm.value, hcontent]
    · refine slice?_eq_some (x := pre ++ (before ++ parts.lead))
        (z := p.form.content ++ (p.form.closing ++ after)) ?_ ?_ ?_
      · simp only [htext, List.append_assoc]
      · simp only [Anchor.toDocument, Span.shift, width_append]
        omega
      · simp only [Anchor.toDocument, Span.shift, ValueForm.value, AttributeForm.valueStart,
          hargument, width_append]
        omega
    · simp only [hcontent]
      exact slice?_body hplain gap behind
    · refine slice?_eq_some (z := after)
        (x := pre ++ (before ++ (parts.lead ++ ((argument ++ (p.separator ++ p.form.opening)) ++
          p.form.content)))) ?_ ?_ ?_
      · simp only [htext, List.append_assoc]
      · simp only [Anchor.toDocument, Span.shift, ValueForm.value, AttributeForm.valueStart,
          hargument, width_append]
        omega
      · simp only [Anchor.toDocument, Span.shift, htext, width_append]
        omega
  · rw [hresult]
    simp only [List.append_assoc]

/-- The action of an attribute rewrites it, wherever the attribute stands in a document. -/
theorem rewrites_of_synthesize {f : AttributeForm} {pre before : Text} {action : ToggleAction}
    (h : synthesize ⟨width pre⟩ (f.toAttribute (width before))
      (classify (f.toAttribute (width before))) = some action) (after : Text) :
    action.Rewrites (pre ++ (before ++ (f.text ++ after))) ⟨width pre⟩
      (f.toAttribute (width before)) := by
  cases hn : DirectiveName.ofText? f.name with
  | none =>
    have hclass : classify (f.toAttribute (width before)) = .addable f.value.isSome := by
      simp [toAttribute_static hn, classify]
    rw [hclass] at h
    cases h
    exact rewrites_static hn pre before after
  | some parts =>
    cases hc : classify (f.toAttribute (width before)) with
    | ineligible reason =>
      rw [hc] at h
      cases h
    | removable b =>
      rw [hc] at h
      cases h
      exact rewrites_removable hc after
    | addable hasValue =>
      rw [toAttribute_directive hn, classify] at hc
      split at hc <;> cases hc

end Markup

theorem exists_block_of_template {text : Text} {t : EmbeddedTemplate}
    (h : (parseComponent text).template = some t) :
    ∃ block, Block.findTemplate? ⟨0, text⟩ = some block ∧ t.anchor = ⟨block.contentStart⟩ ∧
      t.roots = (parseTemplate block.content).roots := by
  unfold parseComponent at h
  split at h
  · cases h
  · rename_i block hblock
    split at h
    · cases h
      exact ⟨block, hblock, rfl, rfl⟩
    · cases h

/-- **Every action rewrites one attribute and nothing else.** The attribute lies in the content of
the template block and contains the selection. -/
theorem toggleActions_rewrites {text : Text} {selection : Span} {action : ToggleAction}
    (h : action ∈ toggleActions (parseComponent text) selection false) :
    ∃ block t e a, Block.findTemplate? ⟨0, text⟩ = some block ∧
      slice? text block.contentStart (block.contentStart + width block.content) =
        some block.content ∧
      (parseComponent text).template = some t ∧ t.anchor = ⟨block.contentStart⟩ ∧
      e ∈ Element.preorderAll t.roots ∧ a ∈ e.attributes ∧
      block.contentStart ≤ (t.anchor.toDocument a.span).start ∧
      (t.anchor.toDocument a.span).stop ≤ block.contentStart + width block.content ∧
      (t.anchor.toDocument a.span).start ≤ selection.start ∧ selection.start ≤ selection.stop ∧
      selection.stop ≤ (t.anchor.toDocument a.span).stop ∧
      action.Rewrites text t.anchor a := by
  unfold toggleActions at h
  split at h
  · cases h
  · rename_i t ht
    obtain ⟨l, hl, haction⟩ := List.mem_filterMap.1 h
    obtain ⟨helement, hattr, hselection⟩ := mem_locate hl
    obtain ⟨block, hblock, hanchor, hroots⟩ := exists_block_of_template ht
    obtain ⟨pre, post, htext, hstart⟩ := Block.content_of_findTemplate? hblock
    simp only [Nat.zero_add] at htext hstart
    rw [hroots] at helement
    obtain ⟨s, f, -, hcontent, ha⟩ :=
      Markup.exists_site (List.mem_flatMap.2 ⟨_, helement, hattr⟩)
    refine ⟨block, t, l.element, l.attr, hblock, ?_, ht, hanchor, by rw [hroots]; exact helement,
      hattr, ?_, ?_, hselection.1, hselection.2.1, hselection.2.2, ?_⟩
    · exact slice?_eq_some htext hstart (by rw [hstart])
    · rw [hanchor]
      simp [Anchor.toDocument, Span.shift]
    · rw [hanchor, ha, f.span_toAttribute, hcontent]
      simp only [Anchor.toDocument, Span.shift, Markup.Site.fill, Markup.Site.start, width_append]
      omega
    · rw [hanchor, hstart, ha] at haction ⊢
      have hrewrites := Markup.rewrites_of_synthesize haction (s.tail ++ post)
      rw [htext, hcontent]
      simp only [Markup.Site.fill, List.append_assoc]
      exact hrewrites

/-- The action for a caret at an attribute without a value. -/
theorem toggleActions_rewrites_bare :
    ToggleAction.addBinding ⟨10⟩ ⟨3, 4⟩ false ∈
        toggleActions (parseComponent "<template><a b></a></template>".toList) ⟨13, 13⟩ false ∧
      ∃ t a, (parseComponent "<template><a b></a></template>".toList).template = some t ∧
        (ToggleAction.addBinding ⟨10⟩ ⟨3, 4⟩ false).Rewrites
          "<template><a b></a></template>".toList t.anchor a := by
  have hmem : ToggleAction.addBinding ⟨10⟩ ⟨3, 4⟩ false ∈
      toggleActions (parseComponent "<template><a b></a></template>".toList) ⟨13, 13⟩ false := by
    decide +kernel
  obtain ⟨-, t, -, a, -, -, ht, -, -, -, -, -, -, -, -, hrewrites⟩ := toggleActions_rewrites hmem
  exact ⟨hmem, t, a, ht, hrewrites⟩

end BindingToggle
