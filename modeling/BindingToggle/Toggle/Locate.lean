import BindingToggle.Template.Element

/-!
# Attributes under a selection

`locate` finds the attributes whose span contains a selection, ends included, in the order in which
they are written. It works off an agenda of elements: an element that the selection does not even
touch is dropped with everything inside it, any other puts the elements inside it on the agenda. An
attribute whose span is inverted or leaves its element is passed over.

The agenda is the stack of the modelled `locate`.
-/

namespace BindingToggle

/-- An attribute that was found, and the element that it belongs to. -/
structure Located where
  element : Element
  attr : Attribute
  deriving Repr, Inhabited

namespace Locate

/-- Whether an attribute of `e` contains the selection and lies where an attribute can. -/
def hits (selection : Span) (e : Element) (a : Attribute) : Bool :=
  !a.span.isInverted && e.span.contains a.span && a.span.contains selection

/-- The attributes of one element that contain the selection. -/
def found (selection : Span) (e : Element) : List Located :=
  (e.attributes.filter (hits selection e)).map fun a => ⟨e, a⟩

/-- The elements of two forests in a row are those of the first and those of the second. -/
theorem preorderAll_append (es fs : List Element) :
    Element.preorderAll (es ++ fs) = Element.preorderAll es ++ Element.preorderAll fs := by
  induction es with
  | nil => rfl
  | cons e es ih => simp [Element.preorderAll, ih]

theorem preorder_eq (e : Element) : e.preorder = e :: Element.preorderAll e.children := by
  cases e
  rfl

/-- The attributes that contain the selection, in the elements of the agenda and inside them. The
walk looks at the flag in front of every element, and ends when it is raised. -/
def walk (selection : Span) (cancelled : Bool) (agenda : List Element) : List Located :=
  match agenda with
  | [] => []
  | e :: others =>
    if cancelled then []
    else if e.span.isDisjoint selection then walk selection cancelled others
    else found selection e ++ walk selection cancelled (e.children ++ others)
termination_by (Element.preorderAll agenda).length
decreasing_by
  · simp only [Element.preorderAll, preorder_eq, List.length_append, List.length_cons]
    omega
  · simp only [Element.preorderAll, preorder_eq, preorderAll_append, List.length_append,
      List.length_cons]
    omega

end Locate

/-- The attributes of a forest that contain a selection of the document. -/
def locate (roots : List Element) (anchor : Anchor) (selection : Span) (cancelled : Bool) :
    List Located :=
  match anchor.toLocal? selection with
  | none => []
  | some s => if s.isInverted then [] else Locate.walk s cancelled roots

end BindingToggle
