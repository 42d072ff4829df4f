import BindingToggle.Proofs.OpaqueBlock
import BindingToggle.Proofs.Places

/-!
# Moving a template

A template that begins further to the right is read in the same way, with all of its places moved.

* `shift delta` — an attribute, an element, an event or a forest that is being built, moved by
  `delta` to the right.
* `events_shift` — the events of a text that begins further to the right.
* `Builder.foldl_shift`, `Builder.finish_shift` — the forest that is built of them.
-/

namespace BindingToggle

/-! ## Definitions -/

/-- The value further to the right. -/
def AttributeValue.shift (delta : Nat) (v : AttributeValue) : AttributeValue :=
  { v with
    span := v.span.shift delta
    contentSpan := v.contentSpan.shift delta }

/-- The attribute further to the right. -/
def Attribute.shift (delta : Nat) : Attribute → Attribute
  | static a =>
    static
      { a with
        nameSpan := a.nameSpan.shift delta
        value := a.value.map (AttributeValue.shift delta)
        span := a.span.shift delta }
  | directive d =>
    directive
      { d with
        markerSpan := d.markerSpan.shift delta
        argument := d.argument.map fun a => { a with span := a.span.shift delta }
        expression := d.expression.map fun e => { e with span := e.span.shift delta }
        span := d.span.shift delta }

mutual

/-- The element further to the right, with all elements inside it. -/
def Element.shift (delta : Nat) : Element → Element
  | ⟨tag, span, attributes, children, selfClosing⟩ =>
    ⟨tag, span.shift delta, attributes.map (Attribute.shift delta),
      Element.shiftAll delta children, selfClosing⟩

/-- The elements further to the right. -/
def Element.shiftAll (delta : Nat) : List Element → List Element
  | [] => []
  | e :: es => e.shift delta :: Element.shiftAll delta es

end

theorem Element.shiftAll_eq_map (delta : Nat) (es : List Element) :
    Element.shiftAll delta es = es.map (Element.shift delta) := by
  induction es with
  | nil => rfl
  | cons e es ih => rw [shiftAll, ih, List.map_cons]

/-- The event further to the right. -/
def Markup.Event.shift (delta : Nat) : Markup.Event → Markup.Event
  | issue i => issue (i.shift delta)
  | leaf e => leaf (e.shift delta)
  | opening tag start attributes =>
    opening tag (start + delta) (attributes.map (Attribute.shift delta))
  | closing tag span => closing tag (span.shift delta)

/-- The open element further to the right. -/
def OpenElement.shift (delta : Nat) (o : OpenElement) : OpenElement :=
  ⟨o.tag, o.start + delta, o.attributes.map (Attribute.shift delta),
    o.children.map (Element.shift delta)⟩

/-- The forest further to the right, with the trees of another one in front of it. -/
def Builder.shift (delta : Nat) (front : List Element) (b : Builder) : Builder :=
  ⟨b.stack.map (OpenElement.shift delta), b.roots.map (Element.shift delta) ++ front,
    b.issues.map (Issue.shift delta)⟩

/-! ## Attributes -/

@[simp] theorem AttributeValue.span_shift (delta : Nat) (v : AttributeValue) :
    (v.shift delta).span = v.span.shift delta := rfl

theorem Attribute.of_shift (delta : Nat) (name : Text) (start : Nat)
    (value : Option AttributeValue) :
    of name (start + delta) (value.map (AttributeValue.shift delta)) =
      (of name start value).shift delta := by
  have hexpression : boundExpression (value.map (AttributeValue.shift delta)) =
      (boundExpression value).map fun e => { e with span := e.span.shift delta } := by
    cases value with
    | none => rfl
    | some v =>
      simp only [boundExpression, Option.map_some, AttributeValue.shift]
      split <;> rfl
  cases hname : DirectiveName.ofText? name with
  | none => cases value <;> simp [of, hname, shift, Span.shift, Nat.add_right_comm]
  | some parts =>
    simp only [of, hname, hexpression]
    cases value <;> simp [shift, Span.shift, Nat.add_right_comm, Function.comp_def]

namespace Markup

open Text

variable (delta : Nat)

theorem ValueForm.value_shift (v : ValueForm) (start : Nat) :
    v.value (start + delta) = (v.value start).shift delta := by
  simp [value, AttributeValue.shift, Span.shift, Nat.add_right_comm]

theorem ValueForm.issues_shift (v : ValueForm) (start : Nat) :
    v.issues (start + delta) = (v.issues start).map (Issue.shift delta) := by
  unfold issues
  split <;> simp [Issue.shift, Span.shift, Nat.add_right_comm]

theorem AttributeForm.valueStart_shift (f : AttributeForm) (p : ValuePart) (start : Nat) :
    f.valueStart p (start + delta) = f.valueStart p start + delta := by
  simp only [valueStart]
  omega

theorem AttributeForm.toAttribute_shift (f : AttributeForm) (start : Nat) :
    f.toAttribute (start + delta) = (f.toAttribute start).shift delta := by
  rw [toAttribute, toAttribute, ← Attribute.of_shift]
  simp [valueStart_shift, ValueForm.value_shift, Function.comp_def]

theorem AttributeForm.issues_shift (f : AttributeForm) (start : Nat) :
    f.issues (start + delta) = (f.issues start).map (Issue.shift delta) := by
  simp only [issues]
  cases f.value with
  | none => rfl
  | some p =>
    rw [Option.map_some, valueStart_shift, ValueForm.issues_shift]
    rfl

theorem TagItems.attributes_shift (items : TagItems) (start : Nat) :
    items.attributes (start + delta) = (items.attributes start).map (Attribute.shift delta) := by
  induction items generalizing start with
  | nil => rfl
  | cons first items ih =>
    obtain ⟨blanks, item⟩ := first
    simp only [attributes, List.map_append, Nat.add_right_comm start delta]
    rw [Nat.add_right_comm _ delta, ih]
    cases item with
    | slash => rfl
    | attr form => rw [TagItem.attributes, form.toAttribute_shift]; rfl

theorem TagItems.issues_shift (items : TagItems) (start : Nat) :
    items.issues (start + delta) = (items.issues start).map (Issue.shift delta) := by
  induction items generalizing start with
  | nil => rfl
  | cons first items ih =>
    obtain ⟨blanks, item⟩ := first
    simp only [issues, List.map_append, Nat.add_right_comm start delta]
    rw [Nat.add_right_comm _ delta, ih]
    cases item with
    | slash => rfl
    | attr form => rw [TagItem.issues, form.issues_shift]; rfl

/-! ## Pieces -/

/-- What was read, and the place behind it, further to the right. -/
def shiftRead (r : List Event × Cursor) : List Event × Cursor :=
  (r.1.map (Event.shift delta), r.2.shift delta)

theorem findFolded?_shift (needle : Text) (c : Cursor) :
    (c.shift delta).findFolded? needle = (c.findFolded? needle).map (Cursor.shift delta) := by
  simp only [Cursor.findFolded?, Cursor.rest_shift, Option.map_map]
  cases breakOnFolded? needle c.rest with
  | none => rfl
  | some sides => simp [Cursor.shift, Nat.add_right_comm]

theorem skipRawText_shift (tag : Text) (c : Cursor) :
    skipRawText tag (c.shift delta) = (skipRawText tag c).shift delta := by
  unfold skipRawText
  rw [findFolded?_shift, Cursor.toEnd_shift]
  cases c.findFolded? ('<' :: '/' :: tag) <;> rfl

/-- The tag further to the right. -/
def TagBody.shift (body : TagBody) : TagBody :=
  ⟨body.attributes.map (Attribute.shift delta), body.issues.map (Issue.shift delta), body.ending,
    body.after.shift delta⟩

theorem TagForm.body_shift (f : TagForm) (start : Nat) (rest : Text) :
    f.body (start + delta) rest = (f.body start rest).shift delta := by
  simp [body, TagBody.shift, TagItems.attributes_shift, TagItems.issues_shift, Cursor.shift,
    Nat.add_right_comm]

theorem TagBody.events_shift (tag : Text) (start : Nat) (body : TagBody) :
    (body.shift delta).events tag (start + delta) = shiftRead delta (body.events tag start) := by
  obtain ⟨attributes, issues, ending, after⟩ := body
  cases ending with
  | missing =>
    simp [events, shift, shiftRead, Event.shift, Issue.shift, Element.shift, Element.shiftAll,
      Span.shift, Cursor.shift]
  | selfClosing =>
    simp [events, shift, shiftRead, Event.shift, Element.shift, Element.shiftAll, Span.shift,
      Cursor.shift]
  | complete =>
    simp only [events, shift]
    split
    · simp [shiftRead, Event.shift, Element.shift, Element.shiftAll, Span.shift, Cursor.shift]
    · simp only [shiftRead, skipRawText_shift, apply_ite (Cursor.shift delta)]
      simp [Event.shift]

theorem passage_shift (n : Nat) (close : Text) (problem : Problem) (c : Cursor) :
    passage n close problem (c.shift delta) = shiftRead delta (passage n close problem c) := by
  unfold passage
  rw [Cursor.skip_shift, Cursor.find?_shift]
  cases (c.skip n).find? close with
  | none =>
    simp only [Option.map_none, Cursor.toEnd_shift]
    rfl
  | some found => simp [shiftRead, Cursor.skip_shift]

/-- A piece further to the right. -/
theorem piece_shift (c : Cursor) : piece (c.shift delta) = shiftRead delta (piece c) := by
  rw [piece_eq, piece_eq, Cursor.rest_shift]
  cases hm : markOf c.rest <;> dsimp only
  case comment => exact passage_shift _ _ _ _ c
  case interpolation => exact passage_shift _ _ _ _ c
  case closing =>
    simp only [closingTag, Cursor.skip_shift, Cursor.skipPast_shift]
    rfl
  case declaration => simp [shiftRead, Cursor.skip_shift, Cursor.skipPast_shift]
  case text => simp [shiftRead, piece.skipText, Cursor.skip_shift, Cursor.skipWhile_shift]
  case start =>
    obtain ⟨offset, t⟩ := c
    obtain ⟨first, u, hu, -⟩ := cons_of_markOf_start hm
    obtain ⟨tag, f, rest, ht, htag, hstop, hf⟩ := exists_startTag (first :: u)
    simp only at hu
    rw [Cursor.shift, hu, ht, startTag_form htag hstop hf, startTag_form htag hstop hf,
      ← TagBody.events_shift, ← TagForm.body_shift]
    simp only [Nat.add_right_comm _ _ delta]

/-- **The events of a text that begins further to the right.** -/
theorem events_shift (c : Cursor) :
    events (c.shift delta) = (events c).map (Event.shift delta) := by
  fun_induction events c with
  | case1 c hc =>
    rw [events]
    exact dif_pos hc
  | case2 c hc ih =>
    have hc' : (c.shift delta).rest ≠ [] := hc
    rw [events_of_ne_nil hc', piece_shift, List.map_append, ← ih]
    rfl

end Markup

/-! ## Forests -/

namespace Builder

variable (delta : Nat) (front : List Element)

theorem report_shift (i : Issue) (b : Builder) :
    (b.report i).shift delta front = (b.shift delta front).report (i.shift delta) := rfl

theorem add_shift (e : Element) (b : Builder) :
    (b.add e).shift delta front = (b.shift delta front).add (e.shift delta) := by
  obtain ⟨stack, roots, issues⟩ := b
  cases stack <;> rfl

theorem openElement_close_shift (o : OpenElement) (stop : Nat) :
    (o.close stop).shift delta = (o.shift delta).close (stop + delta) := by
  simp [OpenElement.close, Element.shift, Element.shiftAll_eq_map, OpenElement.shift, Span.shift]

theorem unclosed_shift (o : OpenElement) :
    o.unclosed.shift delta = (o.shift delta).unclosed := by
  simp [OpenElement.unclosed, Issue.shift, OpenElement.shift, Span.shift, Nat.add_right_comm]

theorem close_shift (stop : Nat) (b : Builder) :
    (b.close stop).shift delta front = (b.shift delta front).close (stop + delta) := by
  obtain ⟨_ | ⟨o, below⟩, roots, issues⟩ := b
  · rfl
  · simp only [close, add_shift, openElement_close_shift]
    rfl

theorem abandon_shift (stop : Nat) (b : Builder) :
    (b.abandon stop).shift delta front = (b.shift delta front).abandon (stop + delta) := by
  obtain ⟨_ | ⟨o, below⟩, roots, issues⟩ := b
  · rfl
  · simp only [abandon, add_shift, report_shift, openElement_close_shift, unclosed_shift]
    rfl

theorem abandonMany_shift (stop count : Nat) (b : Builder) :
    (b.abandonMany stop count).shift delta front =
      (b.shift delta front).abandonMany (stop + delta) count := by
  induction count generalizing b with
  | zero => rfl
  | succ count ih => rw [abandonMany, abandonMany, ih, abandon_shift]

theorem closeTag_shift (tag : Text) (span : Span) (b : Builder) :
    (b.closeTag tag span).shift delta front =
      (b.shift delta front).closeTag tag (span.shift delta) := by
  have hfind : (b.shift delta front).stack.findIdx? (fun o => Text.eqFolded o.tag tag) =
      b.stack.findIdx? fun o => Text.eqFolded o.tag tag := by
    rw [shift, List.findIdx?_map]
    rfl
  unfold closeTag
  rw [hfind]
  split
  · rfl
  · rw [close_shift, abandonMany_shift]
    rfl

theorem step_shift (b : Builder) (e : Markup.Event) :
    (b.step e).shift delta front = (b.shift delta front).step (e.shift delta) := by
  cases e with
  | issue i => rfl
  | leaf e => exact add_shift delta front e b
  | opening tag start attributes => rfl
  | closing tag span => exact closeTag_shift delta front tag span b

theorem foldl_shift (es : List Markup.Event) (b : Builder) :
    (es.foldl step b).shift delta front =
      (es.map (Markup.Event.shift delta)).foldl step (b.shift delta front) := by
  induction es generalizing b with
  | nil => rfl
  | cons e es ih => rw [List.foldl_cons, ih, step_shift, List.map_cons, List.foldl_cons]

theorem finish_shift (stop : Nat) (b : Builder) :
    (b.finish stop).shift delta front = (b.shift delta front).finish (stop + delta) := by
  rw [finish, abandonMany_shift, finish]
  simp [shift]

end Builder

end BindingToggle
