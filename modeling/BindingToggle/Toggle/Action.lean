import BindingToggle.Component.Basic
import BindingToggle.Edit
import BindingToggle.Toggle.Classification
import BindingToggle.Toggle.Locate

/-!
# Toggle actions

An action turns one attribute into the other kind. Removing a binding deletes the marker in front of
the name, and all of the value but the characters of the string; adding one inserts a colon in front
of the name, and a pair of quotes behind an attribute without a value, with the caret between them.

`synthesize` builds the action of an attribute, and `toggleActions` those that a selection of a
component is offered.

Models `synthesize` with its `remove_binding` and `add_binding`, and `toggle_binding_actions`.
-/

namespace BindingToggle

/-- What an action does to an attribute. -/
inductive ToggleKind where
  | remove | add
  deriving DecidableEq, Repr, Inhabited

namespace ToggleKind

/-- The stable name of a kind. -/
def tag : ToggleKind → String
  | remove => "toggle-binding/remove"
  | add => "toggle-binding/add"

/-- What a kind is called in menus. -/
def title : ToggleKind → String
  | remove => "Remove v-bind from attribute"
  | add => "Add v-bind to attribute"

end ToggleKind

/-- A change to a document. -/
structure ToggleAction where
  kind : ToggleKind
  edits : List Edit
  /-- Where the caret belongs in the edited document, if it should move. -/
  caret : Option Nat
  deriving DecidableEq, Repr, Inhabited

namespace ToggleAction

/-- Makes a binding static. What stands between the value's delimiter and the string goes, and so
does what stands behind the string. -/
def removeBinding (anchor : Anchor) (b : LiteralBinding) : ToggleAction :=
  let opening : Span :=
    ⟨b.expression.start, b.expression.start + b.statementPos + b.gapWidth + 1⟩
  let closing : Span := ⟨b.expression.start + b.literal.stop - 1, b.expression.stop⟩
  ⟨.remove, [b.marker, opening, closing].map fun s => .delete (anchor.toDocument s), none⟩

/-- Binds a static attribute. -/
def addBinding (anchor : Anchor) (place : Span) (hasValue : Bool) : ToggleAction :=
  let s := anchor.toDocument place
  if hasValue then ⟨.add, [.insert s.start [':']], none⟩
  else ⟨.add, [.insert s.start [':'], .insert s.stop "=\"\"".toList], some (s.stop + 3)⟩

end ToggleAction

/-- The action of an attribute that is classified as given. -/
def synthesize (anchor : Anchor) (a : Attribute) : Classification → Option ToggleAction
  | .ineligible _ => none
  | .removable binding => some (.removeBinding anchor binding)
  | .addable hasValue => some (.addBinding anchor a.span hasValue)

/-- The actions offered for a selection of a component, in the order of the attributes. -/
def toggleActions (component : Component) (selection : Span) (cancelled : Bool) :
    List ToggleAction :=
  match component.template with
  | none => []
  | some t =>
    (locate t.roots t.anchor selection cancelled).filterMap fun l =>
      synthesize t.anchor l.attr (classify l.attr)

end BindingToggle
