import BindingToggle.Proofs.Places
import BindingToggle.Proofs.Slices
import BindingToggle.Proofs.ToggleEdits

/-!
# Where attributes and start tags lie

An attribute and an element store spans of the source that they were read from, and texts that were
taken from it.

* `Attribute.Placed`, `Element.Placed` — all spans are spans of the source, the stored texts are the
  slices of their spans, and the attributes and children of an element stand one behind the other
  inside of it, behind its name.
* `written_of_ofText?` — the name of a directive is its marker, its argument and its modifiers, so
  the spans that are counted off in it are those of the source.
* `placed_toAttribute`, `placed_startTag` — an attribute and a start tag are placed where they are
  written.
-/

namespace BindingToggle

open Text

/-! ## Places of attributes -/

/-- The ways to write a marker of a directive with the given name. -/
inductive Marker.Written (name : Text) : Marker → Text → Prop
  | colon : Written name .colon [':']
  | dot : Written name .dot ['.']
  | at : Written name .at ['@']
  | hash : Written name .hash ['#']
  | long : Written name .long ('v' :: '-' :: name)
  | longColon : Written name .long ('v' :: '-' :: (name ++ [':']))

namespace Attribute

/-- The spans that an attribute stores. -/
def spans : Attribute → List Span
  | static a => [a.span, a.nameSpan] ++ (a.value.map fun v => [v.span, v.contentSpan]).getD []
  | directive d =>
    [d.span, d.markerSpan] ++ (d.argument.map (·.span)).toList ++
      (d.expression.map (·.span)).toList

/-- The texts that an attribute stores, each with the span it was taken from. The name of a
directive begins where the attribute does. -/
def texts : Attribute → List (Span × Text)
  | static a =>
    (a.nameSpan, a.name) :: (a.value.map fun v => (v.contentSpan, v.content)).toList
  | directive d =>
    (⟨d.span.start, d.span.start + width d.rawName⟩, d.rawName) ::
      ((d.argument.map fun a => (a.span, a.content)).toList ++
        (d.expression.map fun e => (e.span, e.source)).toList)

/-- The spans of the attribute are spans of the source, and its texts are their slices. -/
structure Placed (source : Text) (a : Attribute) : Prop where
  spans : ∀ s ∈ a.spans, s.Within source
  texts : ∀ p ∈ a.texts, p.1.slice? source = some p.2
  marker : ∀ d, a = .directive d →
    ∃ lead, d.marker.Written d.name lead ∧ d.markerSpan.slice? source = some lead

end Attribute

namespace DirectiveName

theorem Leads.written {name lead : Text} {marker : Marker} (h : Leads name marker lead) :
    marker.Written name lead := by
  cases h with
  | binding => exact .colon
  | property => exact .dot
  | listener => exact .at
  | slot => exact .hash
  | long => exact .longColon
  | bare => exact .long

/-- A name is its marker, its argument, and its modifiers with their points. -/
theorem written_of_ofText? {name : Text} {parts : DirectiveName} (h : ofText? name = some parts) :
    parts.marker.Written parts.name parts.lead ∧
      ∃ tail, name = parts.lead ++ (parts.argument.getD [] ++ tail) := by
  obtain ⟨tail, hspelled⟩ := exists_spelled h
  exact ⟨hspelled.lead.written, tail, hspelled.whole⟩

end DirectiveName

namespace Markup

/-- The slices of a value, at the place where it is written. -/
theorem slices_value {f : AttributeForm} {p : ValuePart} (hp : f.value = some p)
    (before after : Text) :
    let v := p.form.value (f.valueStart p (width before))
    v.span.slice? (before ++ (f.text ++ after)) = some p.form.text ∧
      v.contentSpan.slice? (before ++ (f.text ++ after)) = some p.form.content := by
  have htext := AttributeForm.text_of_value hp
  constructor
  · refine slice?_eq_some (x := before ++ (f.name ++ p.separator)) (z := after) ?_ ?_ ?_
    · simp only [htext, ValueForm.text, List.append_assoc]
    · simp only [ValueForm.value, AttributeForm.valueStart, width_append]
      omega
    · simp only [ValueForm.value, AttributeForm.valueStart, width_append]
      omega
  · refine slice?_eq_some (x := before ++ (f.name ++ (p.separator ++ p.form.opening)))
      (z := p.form.closing ++ after) ?_ ?_ ?_
    · simp only [htext, List.append_assoc]
    · simp only [ValueForm.value, AttributeForm.valueStart, width_append]
      omega
    · simp only [ValueForm.value, AttributeForm.valueStart, width_append]
      omega

theorem slice_name (f : AttributeForm) (before after : Text) :
    slice? (before ++ (f.text ++ after)) (width before) (width before + width f.name) =
      some f.name := by
  refine slice?_eq_some (x := before)
    (z := (f.value.map fun p => p.separator ++ p.form.text).getD [] ++ after) ?_ rfl rfl
  simp only [AttributeForm.text, List.append_assoc]

theorem slice_form (f : AttributeForm) (before after : Text) :
    slice? (before ++ (f.text ++ after)) (width before) (width before + width f.text) =
      some f.text := slice?_eq_some rfl rfl rfl

theorem placed_static {f : AttributeForm} (h : DirectiveName.ofText? f.name = none)
    (before after : Text) :
    (f.toAttribute (width before)).Placed (before ++ (f.text ++ after)) := by
  have hname := slice_name f before after
  rw [toAttribute_static h]
  refine ⟨?_, ?_, fun d hd => (by cases hd)⟩
  · intro s hs
    simp only [Attribute.spans, List.mem_append, List.mem_cons, List.not_mem_nil, or_false] at hs
    rcases hs with (rfl | rfl) | hs
    · exact Span.within_of_slice? (slice_form f before after)
    · exact Span.within_of_slice? hname
    · cases hv : f.value with
      | none => simp [hv] at hs
      | some p =>
        obtain ⟨hvalue, hcontent⟩ := slices_value hv before after
        simp only [hv, Option.map_some, Option.getD_some, List.mem_cons, List.not_mem_nil,
          or_false] at hs
        rcases hs with rfl | rfl
        · exact Span.within_of_slice? hvalue
        · exact Span.within_of_slice? hcontent
  · intro q hq
    simp only [Attribute.texts, List.mem_cons, Option.mem_toList, Option.map_eq_some_iff] at hq
    rcases hq with rfl | ⟨v, ⟨p, hp, rfl⟩, rfl⟩
    · exact hname
    · exact (slices_value hp before after).2

/-- The slices of the name of a directive. -/
theorem slices_directive {f : AttributeForm} {parts : DirectiveName}
    (h : DirectiveName.ofText? f.name = some parts) (before after : Text) :
    slice? (before ++ (f.text ++ after)) (width before) (width before + width parts.lead) =
        some parts.lead ∧
      ∀ content, parts.argument = some content →
        slice? (before ++ (f.text ++ after)) (width before + width parts.lead)
          (width before + width parts.lead + width content) = some content := by
  obtain ⟨-, tail, htail⟩ := DirectiveName.written_of_ofText? h
  -- behind the name stands the rest of the attribute
  obtain ⟨behind, hbehind⟩ : ∃ behind, f.text ++ after = f.name ++ behind :=
    ⟨_, by rw [AttributeForm.text, List.append_assoc]⟩
  constructor
  · refine slice?_eq_some (x := before) (z := parts.argument.getD [] ++ (tail ++ behind)) ?_ rfl rfl
    rw [hbehind, htail]
    simp only [List.append_assoc]
  · intro content hcontent
    refine slice?_eq_some (x := before ++ parts.lead) (z := tail ++ behind) ?_ ?_ ?_
    · rw [hbehind, htail, hcontent]
      simp only [Option.getD_some, List.append_assoc]
    · rw [width_append]
    · rw [width_append]

/-- The source of an expression is the content of the value. -/
theorem slice_expression {f : AttributeForm} {before : Text} {e : BoundExpression}
    (h : Attribute.boundExpression
      (f.value.map fun p => p.form.value (f.valueStart p (width before))) = some e)
    (after : Text) : e.span.slice? (before ++ (f.text ++ after)) = some e.source := by
  cases hv : f.value with
  | none =>
    rw [hv] at h
    cases h
  | some p =>
    simp only [hv, Option.map_some, Attribute.boundExpression] at h
    split at h
    · cases h
    · cases h
      exact (slices_value hv before after).2

theorem placed_directive {f : AttributeForm} {parts : DirectiveName}
    (h : DirectiveName.ofText? f.name = some parts) (before after : Text) :
    (f.toAttribute (width before)).Placed (before ++ (f.text ++ after)) := by
  obtain ⟨hmarker, hargument⟩ := slices_directive h before after
  rw [toAttribute_directive h]
  refine ⟨?_, ?_, ?_⟩
  · intro s hs
    simp only [Attribute.spans, List.mem_append, List.mem_cons, List.not_mem_nil, or_false,
      Option.mem_toList, Option.map_eq_some_iff] at hs
    rcases hs with ((rfl | rfl) | ⟨a, ⟨content, hcontent, rfl⟩, rfl⟩) | ⟨e, he, rfl⟩
    · exact Span.within_of_slice? (slice_form f before after)
    · exact Span.within_of_slice? hmarker
    · exact Span.within_of_slice? (hargument content hcontent)
    · exact Span.within_of_slice? (slice_expression he after)
  · intro q hq
    simp only [Attribute.texts, List.mem_cons, List.mem_append, Option.mem_toList,
      Option.map_eq_some_iff] at hq
    rcases hq with rfl | ⟨a, ⟨content, hcontent, rfl⟩, rfl⟩ | ⟨e, he, rfl⟩
    · exact slice_name f before after
    · exact hargument content hcontent
    · exact slice_expression he after
  · intro d hd
    cases hd
    exact ⟨parts.lead, (DirectiveName.written_of_ofText? h).1, hmarker⟩

/-- **An attribute is placed where it is written.** -/
theorem placed_toAttribute (f : AttributeForm) (before after : Text) :
    (f.toAttribute (width before)).Placed (before ++ (f.text ++ after)) := by
  cases h : DirectiveName.ofText? f.name with
  | none => exact placed_static h before after
  | some parts => exact placed_directive h before after

end Markup

/-! ## Places of elements -/

namespace Element

/-- The element lies in the source where its span says, and its attributes and the elements inside
it lie one behind the other in it, behind its name. -/
structure Placed (source : Text) (e : Element) : Prop where
  span : e.span.Within source
  /-- The element begins with its start tag, so its span is not empty. -/
  opening : ∃ behind, e.span.slice? source = some ('<' :: (e.tag ++ behind))
  parts : Span.InRow (e.span.start + 1 + width e.tag) e.span.stop
    (e.attributes.map Attribute.span ++ e.children.map Element.span)
  attributes : ∀ a ∈ e.attributes, a.Placed source ∧ a.span.start < a.span.stop

/-- The name of an element ends before the element does. -/
theorem Placed.name_le {source : Text} {e : Element} (h : e.Placed source) :
    e.span.start + 1 + width e.tag ≤ e.span.stop := by
  obtain ⟨behind, hslice⟩ := h.opening
  obtain ⟨x, z, -, hx, hxy⟩ := append_of_slice? hslice
  have hmark : '<'.utf8Size = 1 := by decide
  simp only [width_cons, width_append, hmark] at hxy
  omega

theorem mem_preorderAll {e : Element} {es : List Element} :
    e ∈ preorderAll es ↔ ∃ tree ∈ es, e ∈ tree.preorder := by
  induction es with
  | nil => simp [preorderAll]
  | cons tree es ih => simp [preorderAll, ih]

/-- What holds of all elements of a forest holds of its first tree, of all inside of that, and of the
others. -/
theorem forall_mem_preorderAll_cons {holds : Element → Prop} {e : Element} {es : List Element} :
    (∀ d ∈ preorderAll (e :: es), holds d) ↔
      holds e ∧ (∀ d ∈ preorderAll e.children, holds d) ∧ ∀ d ∈ preorderAll es, holds d := by
  simp only [preorderAll, Locate.preorder_eq, List.cons_append, List.mem_cons, List.mem_append]
  constructor
  · intro h
    exact ⟨h e (.inl rfl), fun d hd => h d (.inr (.inl hd)), fun d hd => h d (.inr (.inr hd))⟩
  · rintro ⟨he, hchildren, hes⟩ d (rfl | hd | hd)
    · exact he
    · exact hchildren d hd
    · exact hes d hd

theorem mem_preorderAll_reverse {e : Element} {es : List Element} :
    e ∈ preorderAll es.reverse ↔ e ∈ preorderAll es := by
  simp [mem_preorderAll]

/-- All elements of a forest are placed. -/
def AllPlaced (source : Text) (es : List Element) : Prop := ∀ e ∈ preorderAll es, e.Placed source

theorem allPlaced_reverse {source : Text} {es : List Element} :
    AllPlaced source es.reverse ↔ AllPlaced source es := by
  simp only [AllPlaced, mem_preorderAll_reverse]

theorem allPlaced_cons {source : Text} {e : Element} {es : List Element} :
    AllPlaced source (e :: es) ↔
      e.Placed source ∧ AllPlaced source e.children ∧ AllPlaced source es :=
  forall_mem_preorderAll_cons

end Element

namespace Markup

theorem TagItem.placed {item : TagItem} {rest source : Text} (h : item.Fits rest)
    (before after : Text) (hsource : source = before ++ (item.text ++ after)) :
    Span.InRow (width before) (width before + width item.text)
        ((item.attributes (width before)).map Attribute.span) ∧
      ∀ a ∈ item.attributes (width before), a.Placed source ∧ a.span.start < a.span.stop := by
  cases item with
  | slash => exact ⟨Span.inRow_nil _ _, fun a ha => (by cases ha)⟩
  | attr form =>
    have hpos := AttributeForm.Fits.width_pos h
    have hspan := form.span_toAttribute (width before)
    have hproper : width before < width before + width form.text := by omega
    constructor
    · show Span.InRow _ _ [(form.toAttribute (width before)).span]
      rw [hspan]
      exact Span.inRow_singleton (Nat.le_refl _) (Nat.le_of_lt hproper) (Nat.le_refl _)
    · intro a ha
      obtain rfl : a = form.toAttribute (width before) := List.mem_singleton.1 ha
      constructor
      · rw [hsource]
        exact placed_toAttribute form before after
      · rw [hspan]
        exact hproper

/-- The attributes of a list of items stand one behind the other, where they are written. -/
theorem TagItems.placed {items : TagItems} {rest source : Text} (h : items.Fits rest)
    (before after : Text) (hsource : source = before ++ (items.text ++ after)) :
    Span.InRow (width before) (width before + width items.text)
        ((items.attributes (width before)).map Attribute.span) ∧
      ∀ a ∈ items.attributes (width before), a.Placed source ∧ a.span.start < a.span.stop := by
  induction items generalizing before with
  | nil => exact ⟨Span.inRow_nil _ _, fun a ha => (by cases ha)⟩
  | cons first items ih =>
    obtain ⟨blanks, item⟩ := first
    obtain ⟨-, hitem, hitems⟩ := h
    have hblanks : source = (before ++ blanks) ++ (item.text ++ (TagItems.text items ++ after)) := by
      simp only [hsource, TagItems.text, List.append_assoc]
    obtain ⟨hfront, hfirst⟩ := TagItem.placed hitem _ _ hblanks
    obtain ⟨hback, hothers⟩ := ih hitems (before ++ blanks ++ item.text)
      (by simp only [hblanks, List.append_assoc])
    simp only [width_append] at hfront hfirst hback hothers
    constructor
    · have hrow := hfront.append hback (by omega) (by omega)
      rw [← List.map_append] at hrow
      refine hrow.mono (by omega) ?_
      simp only [TagItems.text, width_append]
      omega
    · intro a ha
      rcases List.mem_append.1 ha with ha | ha
      · exact hfirst a ha
      · exact hothers a ha

/-- **A start tag is placed where it is written**, as the start of an element that ends anywhere
behind it. -/
theorem placed_startTag {tag rest before source : Text} {f : TagForm} {stop : Nat}
    (hf : f.Fits rest) (hsource : source = before ++ '<' :: (tag ++ (f.text ++ rest)))
    (hstop : IsBoundary source stop) (hle : width before + 1 + width tag + width f.text ≤ stop)
    (selfClosing : Bool) :
    Element.Placed source ⟨tag, ⟨width before, stop⟩,
      f.items.attributes (width before + 1 + width tag), [], selfClosing⟩ := by
  have hmark : '<'.utf8Size = 1 := by decide
  have hname : width (before ++ '<' :: tag) = width before + 1 + width tag := by
    simp only [width_append, width_cons, hmark]
    omega
  have htext : width f.text = width f.items.text + width f.close := by
    simp only [TagForm.text, width_append]
  obtain ⟨between, after, hbetween, hwidth⟩ := exists_append_of_le
    (x := before ++ '<' :: tag) (y := f.text ++ rest)
    (by simp only [hsource, List.append_assoc, List.cons_append]) hstop (by omega)
  have hslice : (Span.mk (width before) stop).slice? source = some ('<' :: (tag ++ between)) := by
    refine slice?_eq_some (x := before) (z := after) ?_ rfl ?_
    · rw [hsource, hbetween]
      simp only [List.cons_append, List.append_assoc]
    · show stop = width before + width ('<' :: (tag ++ between))
      simp only [width_cons, width_append, hmark]
      omega
  have hitems : source = (before ++ '<' :: tag) ++ (f.items.text ++ (f.close ++ rest)) := by
    simp only [hsource, TagForm.text, List.append_assoc, List.cons_append]
  obtain ⟨hrow, hplaced⟩ := TagItems.placed hf.items _ _ hitems
  rw [hname] at hrow hplaced
  refine ⟨Span.within_of_slice? hslice, ⟨between, hslice⟩, ?_, hplaced⟩
  rw [List.map_nil, List.append_nil]
  refine hrow.mono (Nat.le_refl _) ?_
  show width before + 1 + width tag + width f.items.text ≤ stop
  omega

end Markup

end BindingToggle
