import BindingToggle.Span
import BindingToggle.Template.DirectiveName

/-!
# Elements and attributes

The tree of a template: elements with their attributes and the elements inside them. Text, comments
and interpolations are not part of the tree. All spans are relative to the start of the template.
`Attribute.of` decides whether an attribute is a directive, by its name alone.

Models `Element`, `Attribute`, `Directive` and their parts; `Attribute.of` is `build_attribute`.
-/

namespace BindingToggle

/-- The value of an attribute. Its `span` includes the quotes, its `contentSpan` does not. -/
structure AttributeValue where
  content : Text
  quote : Option Char
  span : Span
  contentSpan : Span
  deriving DecidableEq, Repr, Inhabited

/-- An attribute that is taken as it stands. -/
structure StaticAttribute where
  name : Text
  nameSpan : Span
  value : Option AttributeValue
  span : Span
  deriving DecidableEq, Repr, Inhabited

/-- What a directive is applied to. -/
structure Argument where
  content : Text
  span : Span
  deriving DecidableEq, Repr, Inhabited

/-- An argument in square brackets is computed, any other is fixed. -/
def Argument.isStatic (a : Argument) : Bool := a.content.head? != some '['

/-- The source of a directive's expression, between the quotes of its value. -/
structure BoundExpression where
  source : Text
  span : Span
  deriving DecidableEq, Repr, Inhabited

/-- An attribute that the framework interprets. -/
structure Directive where
  name : Text
  /-- The attribute's name as written. -/
  rawName : Text
  marker : Marker
  markerSpan : Span
  argument : Option Argument
  modifiers : List Text
  expression : Option BoundExpression
  span : Span
  deriving DecidableEq, Repr, Inhabited

/-- Whether the directive binds an attribute to an expression. -/
def Directive.isBinding (d : Directive) : Bool := d.name == "bind".toList

/-- An attribute of an element. -/
inductive Attribute where
  | static (a : StaticAttribute)
  | directive (d : Directive)
  deriving DecidableEq, Repr, Inhabited

namespace Attribute

def span : Attribute → Span
  | static a => a.span
  | directive d => d.span

/-- The attribute's name as written. -/
def rawName : Attribute → Text
  | static a => a.name
  | directive d => d.rawName

/-- The same attribute at another place. -/
def withSpan (s : Span) : Attribute → Attribute
  | static a => static { a with span := s }
  | directive d => directive { d with span := s }

/-- The expression of a directive with the given value; an empty value is none. -/
def boundExpression (value : Option AttributeValue) : Option BoundExpression :=
  match value with
  | none => none
  | some v => if v.content.isEmpty then none else some ⟨v.content, v.contentSpan⟩

/-- The attribute with the given name and value, the name beginning at `start`. -/
def of (name : Text) (start : Nat) (value : Option AttributeValue) : Attribute :=
  let nameSpan : Span := ⟨start, start + Text.width name⟩
  let span : Span :=
    match value with
    | none => nameSpan
    | some v => ⟨start, v.span.stop⟩
  match DirectiveName.ofText? name with
  | none => static ⟨name, nameSpan, value, span⟩
  | some parts =>
    let argumentStart := start + Text.width parts.lead
    directive
      { name := parts.name
        rawName := name
        marker := parts.marker
        markerSpan := ⟨start, argumentStart⟩
        argument := parts.argument.map fun content =>
          ⟨content, ⟨argumentStart, argumentStart + Text.width content⟩⟩
        modifiers := parts.modifiers
        expression := boundExpression value
        span }

end Attribute

/-- An element of a template. -/
structure Element where
  tag : Text
  span : Span
  attributes : List Attribute
  children : List Element
  selfClosing : Bool
  deriving Repr, Inhabited

mutual

/-- An element and the elements inside it, depth first in source order. -/
def Element.preorder : Element → List Element
  | ⟨tag, span, attributes, children, selfClosing⟩ =>
    ⟨tag, span, attributes, children, selfClosing⟩ :: Element.preorderAll children

/-- The elements of a forest, depth first in source order. -/
def Element.preorderAll : List Element → List Element
  | [] => []
  | e :: es => e.preorder ++ Element.preorderAll es

end

end BindingToggle
