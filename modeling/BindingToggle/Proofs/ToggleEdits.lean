import BindingToggle.Proofs.AttributeForm
import BindingToggle.Proofs.DirectiveNames
import BindingToggle.Proofs.EditScript
import BindingToggle.Proofs.Slices
import BindingToggle.Proofs.SoleLiteral
import BindingToggle.Toggle.Action

/-!
# What the edits of a toggle do

The edits of an action are a script on the document: each of them is applied, and together they
replace the characters of one attribute.

* `edits_addBinding`, `edits_removeForm` — the edits of an action as a script.
* `toAttribute_static`, `exists_parts_of_removable` — the attribute that a form stands for, when it
  can be bound, and when its binding can be removed.
* `applyAll_addBinding`, `applyAll_removeForm` — the edited document, for an attribute that is given
  by its characters and those around it.
-/

namespace BindingToggle

open Text

/-! ## Edited documents -/

theorem utf8Size_quote {q : Char} {body : Text} (h : Lexer.IsPlainBody q body) :
    q.utf8Size = 1 := by
  rcases h.quote with rfl | rfl | rfl <;> decide

/-- The body of a literal is the literal without its first and its last byte. -/
theorem slice?_body {q : Char} {body : Text} (hq : Lexer.IsPlainBody q body) (gap behind : Text) :
    slice? (gap ++ q :: (body ++ q :: behind)) ((literalSpan gap q body).start + 1)
      ((literalSpan gap q body).stop - 1) = some body := by
  have hsize := utf8Size_quote hq
  refine slice?_eq_some (x := gap ++ [q]) (z := q :: behind) ?_ ?_ ?_
  · simp only [List.append_assoc, List.cons_append, List.nil_append]
  · simp [literalSpan, hsize]
  · simp [literalSpan, hsize]
    omega

/-- What stands behind an attribute that is bound. -/
def boundSuffix (hasValue : Bool) : Text := if hasValue then [] else "=\"\"".toList

/-- What binding an attribute puts into a text that goes on from `front` with the attribute. -/
def boundPieces (front text : Text) (hasValue : Bool) : List Edit.Piece :=
  ⟨front, [], [':']⟩ :: if hasValue then [] else [⟨text, [], "=\"\"".toList⟩]

theorem edits_addBinding (pre before text : Text) (hasValue : Bool) :
    (ToggleAction.addBinding ⟨width pre⟩ ⟨width before, width before + width text⟩ hasValue).edits =
      Edit.script 0 (boundPieces (pre ++ before) text hasValue) := by
  cases hasValue with
  | true =>
    simp [boundPieces, ToggleAction.addBinding, Edit.script, Edit.Piece.edit, Edit.insert,
      Span.caret, Anchor.toDocument, Span.shift, Nat.add_comm]
  | false =>
    simp [boundPieces, ToggleAction.addBinding, Edit.script, Edit.Piece.edit, Edit.insert,
      Span.caret, Anchor.toDocument, Span.shift]
    omega

/-- Binding an attribute puts a colon in front of it, and a pair of quotes behind it if it has no
value. -/
theorem applyAll_addBinding (pre before text after : Text) (hasValue : Bool) :
    let place : Span := ⟨width before, width before + width text⟩
    let action := ToggleAction.addBinding ⟨width pre⟩ place hasValue
    Edit.applied (pre ++ (before ++ (text ++ after))) action.edits = action.edits ∧
      Edit.applyAll (pre ++ (before ++ (text ++ after))) action.edits =
        pre ++ (before ++ (':' :: (text ++ (boundSuffix hasValue ++ after)))) := by
  intro place action
  have hedits : action.edits = Edit.script 0 (boundPieces (pre ++ before) text hasValue) :=
    edits_addBinding pre before text hasValue
  cases hasValue with
  | true =>
    have htext : pre ++ (before ++ (text ++ after)) =
        Edit.source (boundPieces (pre ++ before) text true) ++ (text ++ after) := by
      simp [boundPieces, Edit.source]
    rw [hedits, htext, Edit.applied_script, Edit.applyAll_script]
    exact ⟨rfl, by simp [boundPieces, Edit.result, boundSuffix]⟩
  | false =>
    have htext : pre ++ (before ++ (text ++ after)) =
        Edit.source (boundPieces (pre ++ before) text false) ++ after := by
      simp [boundPieces, Edit.source]
    rw [hedits, htext, Edit.applied_script, Edit.applyAll_script]
    exact ⟨rfl, by simp [boundPieces, Edit.result, boundSuffix]⟩

/-- What removing a binding takes out of a text: the marker, the string's opening quote with the gap
in front of it, and its closing quote with what stands behind. -/
def unboundPieces (front lead middle gap : Text) (q : Char) (body behind : Text) :
    List Edit.Piece :=
  [⟨front, lead, []⟩, ⟨middle, gap ++ [q], []⟩, ⟨body, q :: behind, []⟩]

theorem edits_removeBinding {q : Char} {body : Text} (hq : Lexer.IsPlainBody q body)
    (pre before lead middle gap behind : Text) :
    let source := gap ++ q :: (body ++ q :: behind)
    let place := width before + width lead + width middle
    (ToggleAction.removeBinding ⟨width pre⟩
      ⟨⟨width before, width before + width lead⟩, ⟨place, place + width source⟩, 0, width gap,
        literalSpan gap q body⟩).edits =
      Edit.script 0 (unboundPieces (pre ++ before) lead middle gap q body behind) := by
  intro source place
  have hsize := utf8Size_quote hq
  simp [place, source, unboundPieces, ToggleAction.removeBinding, Edit.script, Edit.Piece.edit,
    Edit.delete, Anchor.toDocument, Span.shift, literalSpan, hsize]
  omega

theorem source_unboundPieces (front lead middle gap : Text) (q : Char) (body behind after : Text) :
    Edit.source (unboundPieces front lead middle gap q body behind) ++ after =
      front ++ (lead ++ (middle ++ ((gap ++ q :: (body ++ q :: behind)) ++ after))) := by
  simp [unboundPieces, Edit.source]

/-! ## Forms that can be toggled -/

/-- The name of a directive is a marker and what stands behind it; the argument, if there is one, is
not empty. -/
theorem parts_of_ofText? {name : Text} {parts : DirectiveName}
    (h : DirectiveName.ofText? name = some parts) :
    (∃ argument, name = parts.lead ++ argument) ∧ parts.lead ≠ [] ∧ parts.argument ≠ some [] := by
  obtain ⟨tail, hspelled⟩ := DirectiveName.exists_spelled h
  exact ⟨⟨_, hspelled.whole⟩, hspelled.lead.ne_nil, hspelled.nonempty⟩

namespace Markup

theorem AttributeForm.span_toAttribute (f : AttributeForm) (start : Nat) :
    (f.toAttribute start).span = ⟨start, start + width f.text⟩ := by
  obtain ⟨name, value⟩ := f
  cases value with
  | none =>
    simp only [toAttribute, Attribute.of, text]
    cases DirectiveName.ofText? name <;> simp [Attribute.span]
  | some p =>
    simp only [toAttribute, Attribute.of, text]
    cases DirectiveName.ofText? name <;>
      simp [Attribute.span, ValueForm.value, valueStart, Nat.add_assoc]

theorem toAttribute_static {f : AttributeForm} (h : DirectiveName.ofText? f.name = none)
    (start : Nat) :
    f.toAttribute start = .static
      { name := f.name
        nameSpan := ⟨start, start + width f.name⟩
        value := f.value.map fun p => p.form.value (f.valueStart p start)
        span := ⟨start, start + width f.text⟩ } := by
  have hspan := f.span_toAttribute start
  simp only [AttributeForm.toAttribute, Attribute.of, h] at hspan ⊢
  rw [← hspan]
  rfl

theorem toAttribute_directive {f : AttributeForm} {parts : DirectiveName}
    (h : DirectiveName.ofText? f.name = some parts) (start : Nat) :
    f.toAttribute start = .directive
      { name := parts.name
        rawName := f.name
        marker := parts.marker
        markerSpan := ⟨start, start + width parts.lead⟩
        argument := parts.argument.map fun content =>
          ⟨content, ⟨start + width parts.lead, start + width parts.lead + width content⟩⟩
        modifiers := parts.modifiers
        expression := Attribute.boundExpression
          (f.value.map fun p => p.form.value (f.valueStart p start))
        span := ⟨start, start + width f.text⟩ } := by
  have hspan := f.span_toAttribute start
  simp only [AttributeForm.toAttribute, Attribute.of, h] at hspan ⊢
  rw [← hspan]
  rfl

/-- A binding that can be removed, character by character. -/
theorem exists_parts_of_removable {f : AttributeForm} {start : Nat} {b : LiteralBinding}
    (h : classify (f.toAttribute start) = .removable b) :
    ∃ parts argument p gap q body, DirectiveName.ofText? f.name = some parts ∧
      f.name = parts.lead ++ argument ∧ f.value = some p ∧ SoleLiteral p.form.content gap q body ∧
      b = ⟨⟨start, start + width parts.lead⟩, (p.form.value (f.valueStart p start)).contentSpan, 0,
        width gap, literalSpan gap q body⟩ := by
  obtain ⟨d, e, gap, q, body, hd, he, hsole, rfl⟩ := parts_of_removable h
  cases hn : DirectiveName.ofText? f.name with
  | none =>
    rw [toAttribute_static hn] at hd
    cases hd
  | some parts =>
    obtain ⟨⟨argument, hargument⟩, -⟩ := parts_of_ofText? hn
    rw [toAttribute_directive hn] at hd
    cases hd
    simp only [Attribute.boundExpression] at he
    split at he
    · cases he
    · rename_i v hv
      obtain ⟨p, hp, rfl⟩ := Option.map_eq_some_iff.1 hv
      split at he <;> cases he
      exact ⟨parts, argument, p, gap, q, body, rfl, hargument, hp, hsole, rfl⟩

theorem AttributeForm.text_of_value {f : AttributeForm} {p : ValuePart} (h : f.value = some p) :
    f.text = f.name ++ (p.separator ++ (p.form.opening ++ (p.form.content ++ p.form.closing))) := by
  simp [text, h, ValueForm.text]

/-- What stands in front of the content of a value, behind the marker of the attribute. -/
def AttributeForm.middle (argument : Text) (p : ValuePart) : Text :=
  argument ++ (p.separator ++ p.form.opening)

/-- The edits that remove a binding from an attribute of which the name begins with the marker
`lead`. -/
theorem edits_removeForm {f : AttributeForm} {p : ValuePart}
    {lead argument gap body behind : Text} {q : Char} (hname : f.name = lead ++ argument)
    (hq : Lexer.IsPlainBody q body)
    (hcontent : p.form.content = gap ++ q :: (body ++ q :: behind)) (pre before : Text) :
    (ToggleAction.removeBinding ⟨width pre⟩
      ⟨⟨width before, width before + width lead⟩,
        (p.form.value (f.valueStart p (width before))).contentSpan, 0, width gap,
        literalSpan gap q body⟩).edits =
      Edit.script 0 (unboundPieces (pre ++ before) lead (AttributeForm.middle argument p) gap q body
        behind) := by
  have hplace : (p.form.value (f.valueStart p (width before))).contentSpan =
      ⟨width before + width lead + width (AttributeForm.middle argument p),
        width before + width lead + width (AttributeForm.middle argument p) +
          width p.form.content⟩ := by
    simp only [ValueForm.value, AttributeForm.valueStart, AttributeForm.middle, hname, width_append,
      Span.mk.injEq]
    omega
  rw [hplace, hcontent]
  exact edits_removeBinding hq pre before lead _ gap behind

theorem source_removeForm {f : AttributeForm} {p : ValuePart}
    {lead argument gap body behind : Text} {q : Char} (hname : f.name = lead ++ argument)
    (hp : f.value = some p) (hcontent : p.form.content = gap ++ q :: (body ++ q :: behind))
    (pre before after : Text) :
    pre ++ (before ++ (f.text ++ after)) =
      Edit.source (unboundPieces (pre ++ before) lead (AttributeForm.middle argument p) gap q body
        behind) ++ (p.form.closing ++ after) := by
  rw [source_unboundPieces, ← hcontent, AttributeForm.text_of_value hp, hname]
  simp only [AttributeForm.middle, List.append_assoc]

/-- Removing a binding leaves the characters of the string between those that stand around the
expression. -/
theorem applyAll_removeForm {f : AttributeForm} {p : ValuePart}
    {lead argument gap body behind : Text} {q : Char} (hname : f.name = lead ++ argument)
    (hp : f.value = some p) (hq : Lexer.IsPlainBody q body)
    (hcontent : p.form.content = gap ++ q :: (body ++ q :: behind))
    (pre before after : Text) :
    let action := ToggleAction.removeBinding ⟨width pre⟩
      ⟨⟨width before, width before + width lead⟩,
        (p.form.value (f.valueStart p (width before))).contentSpan, 0, width gap,
        literalSpan gap q body⟩
    let document := pre ++ (before ++ (f.text ++ after))
    Edit.applied document action.edits = action.edits ∧
      Edit.applyAll document action.edits =
        pre ++ (before ++ (argument ++ (p.separator ++ (p.form.opening ++
          (body ++ (p.form.closing ++ after)))))) := by
  intro action document
  have hedits := edits_removeForm hname hq hcontent pre before
  have hdocument := source_removeForm hname hp hcontent pre before after
  simp only [action, document, hedits, hdocument]
  rw [Edit.applied_script, Edit.applyAll_script]
  refine ⟨rfl, ?_⟩
  simp [unboundPieces, Edit.result, AttributeForm.middle]

end Markup

end BindingToggle
